import TraitScript.Proofs.Scope.Owed

/-!
# How scopes are closed

What a part of the walk declares in the scope around it and which scopes inside it are closed, each
with what it reports at that moment. The rules follow the shapes of the walk: one part after
another, a part in a scope of its own, and the single uses.
-/

namespace TraitScript

/-! ### Closing a scope -/

/-- In a state of the walk the scope of a region is the innermost one and is closed next: it reports
what is unused, whatever the order of the entries in its table. -/
structure Region.ClosesIn (r : Region) (s : Resolve.State) : Prop where
  height : s.scopes.length = r.height + 1
  reports : ∀ scope outer entries, s.scopes = scope :: outer → entries.Perm scope.entries →
    ({ s with scopes := ⟨entries⟩ :: outer } : Resolve.State).endScope.errors =
    s.errors ++ r.reports

/-- In a walk past some uses the scope of a region is closed right after those inside it, and what
it reports stays reported. -/
def Region.ClosesWithin (r : Region) (us : Uses) (s t : Resolve.State) : Prop :=
  ∃ before after s', us = before ++ r.uses ++ after ∧
    s'.bindings = s.bindings ++ (before ++ r.uses).filterMap Resolve.binding? ∧
    r.ClosesIn s' ∧ s'.endScope.errors <+: t.errors

namespace Region.ClosesWithin

variable {r : Region} {us vs : Uses} {s s' t t' : Resolve.State}

theorem onward (h : r.ClosesWithin us s t) (hgrown : t.errors <+: t'.errors) (vs : Uses) :
    r.ClosesWithin (us ++ vs) s t' := by
  obtain ⟨before, after, closing, rfl, hbindings, hcloses, hprefix⟩ := h
  exact ⟨before, after ++ vs, closing, List.append_assoc .., hbindings, hcloses,
    hprefix.trans hgrown⟩

theorem earlier (h : r.ClosesWithin vs s' t)
    (hbindings : s'.bindings = s.bindings ++ us.filterMap Resolve.binding?) :
    r.ClosesWithin (us ++ vs) s t := by
  obtain ⟨before, after, closing, rfl, hclosing, hcloses, hprefix⟩ := h
  refine ⟨us ++ before, after, closing, by simp only [List.append_assoc], ?_, hcloses, hprefix⟩
  rw [hclosing, hbindings, List.append_assoc, ← List.filterMap_append, List.append_assoc]

end Region.ClosesWithin

/-- A region inside a part of a tree with some uses. -/
structure Region.LiesIn (r : Region) (us : Uses) : Prop where
  within : r.uses <:+: us
  deeper : ∀ u ∈ r.uses, r.height < u.1.scopes.length
  listed : ∀ declaration ∈ r.declared, ∃ place, (place, .declare declaration.name) ∈ r.uses

theorem Region.LiesIn.mono {r : Region} {us vs : Uses} (h : r.LiesIn us) (hwithin : us <:+: vs) :
    r.LiesIn vs :=
  ⟨h.within.trans hwithin, h.deeper, h.listed⟩

namespace Resolve

open State

/-- What the table of a scope owes at the end is what is unused in its text. -/
theorem owes_region {s : State} {scope : Scope} {outer : List Scope} {r : Region}
    (hstack : s.scopes = scope :: outer) (hheight : outer.length = r.height)
    (hdistinct : scope.Distinct)
    (howed : ∀ name, owedAt s r.height name =
      ((if name ∈ r.given then some none else none).or (declaredAt r.declared name)).map
      (paid r.uses r.height name)) :
    Owes scope r.unused where
  distinct := hdistinct
  nodup := r.nodup_unused
  owed_iff name t := by
    have hbind : (scope.find? name).bind owed = (owedAt s r.height name).bind id := by
      rw [owedAt, hstack, ← hheight, localAt_innermost]
      cases scope.find? name <;> rfl
    rw [hbind, howed, Region.mem_unused, declaredAt]
    by_cases hgiven : name ∈ r.given
    · -- what is there from the start owes nothing
      have hnone : paid r.uses r.height name none = none := by
        rw [paid]
        split <;> rfl
      simp only [if_pos hgiven, Option.some_or, Option.map_some, Option.bind_some, id_eq, hnone]
      constructor
      · intro hreport
        cases hreport
      · rintro ⟨⟨-, hnot, -⟩, rfl⟩
        exact absurd hgiven hnot
    · rw [if_neg hgiven, Option.none_or]
      cases hfirst : Declaration.first? r.declared name with
      | none =>
          constructor
          · intro hreport
            cases hreport
          · rintro ⟨⟨hfirst', -, -⟩, rfl⟩
            rw [hfirst] at hfirst'
            cases hfirst'
      | some found =>
          have hname := Declaration.lexeme_of_first? hfirst
          simp only [Option.map_some, Option.bind_some, id_eq]
          by_cases hread : (r.height, name) ∈ r.uses.filterMap reads?
          · rw [paid_of_mem hread]
            constructor
            · intro hreport
              cases hreport
            · rintro ⟨⟨-, -, hunread⟩, rfl⟩
              exact absurd hread hunread
          · rw [paid_of_not_mem hread, id_eq]
            constructor
            · intro hreport
              cases hreport
              subst hname
              exact ⟨⟨hfirst, hgiven, hread⟩, rfl⟩
            · rintro ⟨⟨hfirst', -, -⟩, rfl⟩
              rw [← hfirst, hfirst']

theorem closesIn_of_owes {s : State} {scope : Scope} {outer : List Scope} {r : Region}
    (hstack : s.scopes = scope :: outer) (hheight : outer.length = r.height)
    (howes : Owes scope r.unused) : r.ClosesIn s where
  height := by rw [hstack, List.length_cons, hheight]
  reports scope' outer' entries hstack' hperm := by
    rw [hstack] at hstack'
    obtain ⟨rfl, rfl⟩ := List.cons.inj hstack'
    exact (howes.of_perm hperm).errors_endScope s outer

/-! ### Parts of the walk -/

/-- A part of the walk that declares some locals in the scope around it and closes the scopes inside
it. -/
structure Closes (f : State → State) (p q : Place) (us : Uses) (parts : List (Place × Stmt))
    (declared : List Declaration) (regions : List Region) : Prop extends Traces f p q us parts where
  names : p.innermost ⊆ q.innermost
  outer : q.scopes.tail = p.scopes.tail
  spans : ∀ u ∈ us, p.Spans q u.1
  listed : ∀ declaration ∈ declared, ∃ place, (place, .declare declaration.name) ∈ us
  distinct : ∀ s, Tracks s p → s.Distinct → (f s).Distinct
  owes : p.scopes ≠ [] → ∀ s, Tracks s p → ∀ name, owedAt (f s) (p.scopes.length - 1) name =
    ((owedAt s (p.scopes.length - 1) name).or (declaredAt declared name)).map
    (paid us (p.scopes.length - 1) name)
  adds : ∀ s, Tracks s p → s.Distinct → Adds f s (regions.flatMap Region.reports)
  closings : ∀ s, Tracks s p → s.Distinct → ∀ r ∈ regions, r.ClosesWithin us s (f s)
  inside : ∀ r ∈ regions, r.LiesIn us

section Rules

variable {f g : State → State} {p q r : Place} {us vs : Uses} {parts parts' : List (Place × Stmt)}
  {declared declared' : List Declaration}
  {regions regions' : List Region}

theorem Closes.onTracked (h : Closes f p q us parts declared regions)
    (heq : ∀ s, Tracks s p → g s = f s) :
    Closes g p q us parts declared regions where
  toTraces := h.toTraces.onTracked heq
  names := h.names
  outer := h.outer
  spans := h.spans
  listed := h.listed
  distinct s hs := by
    rw [heq s hs]
    exact h.distinct s hs
  owes hlocal s hs := by
    rw [heq s hs]
    exact h.owes hlocal s hs
  adds s hs := by
    unfold Adds
    rw [heq s hs]
    exact h.adds s hs
  closings s hs := by
    rw [heq s hs]
    exact h.closings s hs
  inside := h.inside

theorem Closes.change_site {site : Site} {names : List String}
    (h : Closes f (p.enter site names) (p.enter site names) us parts declared regions)
    (hinspects : Inspects f (p.enter site names) us parts) (site' : Site) :
    Closes f (p.enter site' names) (p.enter site' names) us parts declared regions where
  toTraces := (hinspects.change_site site').toTraces
  names := List.Subset.refl _
  outer := rfl
  spans u hu scope outer hscopes := by
    obtain ⟨rfl, rfl⟩ := List.cons.inj hscopes
    exact h.spans u hu ⟨site, names⟩ p.scopes rfl
  listed := h.listed
  distinct s hs := h.distinct s (hs.change_site site)
  owes _ s hs := h.owes (List.cons_ne_nil _ _) s (hs.change_site site)
  adds s hs := h.adds s (hs.change_site site)
  closings s hs := h.closings s (hs.change_site site)
  inside := h.inside

theorem Closes.comp (hf : Closes f p q us parts declared regions)
    (hg : Closes g q r vs parts' declared' regions') :
    Closes (fun s => g (f s)) p r (us ++ vs) (parts ++ parts') (declared ++ declared')
      (regions ++ regions') where
  toTraces := hf.toTraces.comp hg.toTraces
  names := List.Subset.trans hf.names hg.names
  outer := hg.outer.trans hf.outer
  spans u hu := by
    rcases List.mem_append.1 hu with hfirst | hsecond
    · exact (hf.spans u hfirst).mono hg.names
    · exact (hg.spans u hsecond).later hf.outer hf.height
  listed declaration h := by
    rcases List.mem_append.1 h with hfirst | hsecond
    · obtain ⟨place, hplace⟩ := hf.listed declaration hfirst
      exact ⟨place, List.mem_append_left _ hplace⟩
    · obtain ⟨place, hplace⟩ := hg.listed declaration hsecond
      exact ⟨place, List.mem_append_right _ hplace⟩
  distinct s hs hdistinct := hg.distinct (f s) (hf.walks s hs).1 (hf.distinct s hs hdistinct)
  owes hlocal s hs name := by
    have htracks := (hf.walks s hs).1
    have hlocal' : q.scopes ≠ [] := by
      rw [← List.length_pos_iff, hf.height, List.length_pos_iff]
      exact hlocal
    have hsecond := hg.owes hlocal' (f s) htracks name
    have hfirst := hf.owes hlocal s hs name
    rw [hf.height] at hsecond
    rw [hsecond, declaredAt_append, ← Option.or_assoc]
    cases hbefore : (owedAt s (p.scopes.length - 1) name).or (declaredAt declared name) with
    | some report =>
        rw [hfirst, hbefore]
        exact congrArg some (paid_append us vs _ name report).symm
    | none =>
        -- the name was not there yet, so nothing in the first part has read it
        have hunread : (p.scopes.length - 1, name) ∉ us.filterMap reads? := by
          intro hread
          obtain ⟨u, hu, hreads⟩ := List.mem_filterMap.1 hread
          have hmem := mem_innermost_of_reads (hf.spans u hu) hlocal hreads
          rw [hbefore, owedAt, Option.map_none, Option.map_eq_none_iff, ← hf.height,
            localAt_eq_none_iff htracks hlocal'] at hfirst
          exact hfirst hmem
        rw [hfirst, hbefore]
        congr 1
        funext report
        rw [paid_append, paid_of_not_mem hunread, id_eq]
  adds s hs hdistinct := by
    rw [List.flatMap_append]
    exact (hf.adds s hs hdistinct).comp
      (hg.adds (f s) (hf.walks s hs).1 (hf.distinct s hs hdistinct))
  closings s hs hdistinct region hregion := by
    obtain ⟨htracks, hbindings, -⟩ := hf.walks s hs
    rcases List.mem_append.1 hregion with hfirst | hsecond
    · exact (hf.closings s hs hdistinct region hfirst).onward (hg.reports (f s) htracks).grows vs
    · exact (hg.closings (f s) htracks (hf.distinct s hs hdistinct) region hsecond).earlier
        hbindings
  inside region hregion := by
    rcases List.mem_append.1 hregion with hfirst | hsecond
    · exact (hf.inside region hfirst).mono (List.prefix_append ..).isInfix
    · exact (hg.inside region hsecond).mono (List.suffix_append ..).isInfix

theorem Closes.cons_silent {u : Place × Use} (h : Closes f p q us parts declared regions)
    (hsilent : Silent u) (hplace : u.1 = p) :
    Closes f p q (u :: us) parts declared regions where
  toTraces := h.toTraces.cons_silent hsilent (hplace ▸ Nat.le_refl _)
  names := h.names
  outer := h.outer
  spans := by
    refine List.forall_mem_cons.2 ⟨?_, h.spans⟩
    rw [hplace]
    exact Place.spans_start h.names
  listed declaration hdeclaration := by
    obtain ⟨place, hmem⟩ := h.listed declaration hdeclaration
    exact ⟨place, List.mem_cons_of_mem _ hmem⟩
  distinct := h.distinct
  owes hlocal s hs name := by
    rw [paid_cons_silent hsilent.reads]
    exact h.owes hlocal s hs name
  adds := h.adds
  closings s hs hdistinct region hregion := by
    have hnone : s.bindings = s.bindings ++ [u].filterMap binding? := by
      rw [List.filterMap_cons_none hsilent.binding, List.filterMap_nil, List.append_nil]
    exact (h.closings s hs hdistinct region hregion).earlier hnone
  inside region hregion := (h.inside region hregion).mono (List.suffix_cons ..).isInfix

theorem Closes.append_params (h : Closes f p q us parts declared regions) (params : List Token) :
    Closes f p q (params.map (fun param => (p, .declare param)) ++ us) parts declared regions := by
  induction params with
  | nil => exact h
  | cons param rest ih => exact ih.cons_silent (silent_declare p param) rfl

theorem Closes.part {statement : Stmt}
    (h : Closes (stmt statement) p q (statement.uses p) parts declared regions) :
    Closes (stmt statement) p q (statement.uses p) ((p, statement) :: parts) declared regions where
  toTraces := h.toTraces.part
  names := h.names
  outer := h.outer
  spans := h.spans
  listed := h.listed
  distinct := h.distinct
  owes := h.owes
  adds := h.adds
  closings := h.closings
  inside := h.inside

theorem Closes.restoreClass {kind : ClassKind}
    (h : Closes f p (q.inClass kind) us parts declared regions) (hgrows : p.Grows q) :
    Closes (fun s => { f s with classKind := s.classKind }) p q us parts declared regions where
  toTraces := h.toTraces.restoreClass hgrows
  names := h.names
  outer := h.outer
  spans := h.spans
  listed := h.listed
  distinct := h.distinct
  owes := h.owes
  adds := h.adds
  closings := h.closings
  inside := h.inside

theorem Closes.inLoop (h : Closes f p.enterLoop q.enterLoop us parts declared regions)
    (hdepth : ∀ s, (f s).loopDepth = s.loopDepth) (hgrows : p.Grows q) :
    Closes (inLoop f) p q us parts declared regions where
  toTraces := h.toTraces.inLoop hdepth hgrows
  names := h.names
  outer := h.outer
  spans := h.spans
  listed := h.listed
  distinct _ hs hdistinct := h.distinct _ hs.openLoop hdistinct
  owes hlocal _ hs := h.owes hlocal _ hs.openLoop
  adds _ hs hdistinct := h.adds _ hs.openLoop hdistinct
  closings _ hs hdistinct := h.closings _ hs.openLoop hdistinct
  inside := h.inside

/-- An expression changes what is owed by its reads only. -/
theorem Inspects.owes (h : Inspects f p us parts) {s : State} (hs : Tracks s p) (height : Nat)
    (name : String) :
    owedAt (f s) height name =
      ((owedAt s height name).or (declaredAt [] name)).map (paid us height name) := by
  rw [declaredAt, Declaration.first?, List.find?_nil, Option.map_none, Option.map_none,
    Option.or_none, owedAt, h.marksAll s hs, owedAt,
    Option.map_map, Option.map_map]
  congr 1
  funext entry
  exact owed_marked us height name entry

/-- A part without scopes of its own that declares nothing and stays where it is. -/
theorem Inspects.closes (h : Inspects f p us parts) (hplaces : ∀ u ∈ us, u.1 = p)
    (hdistinct : ∀ s, s.Distinct → (f s).Distinct) (hadds : ∀ s, Tracks s p → Adds f s []) :
    Closes f p p us parts [] [] where
  toTraces := h.toTraces
  names := List.Subset.refl _
  outer := rfl
  spans u hu := hplaces u hu ▸ Place.spans_start (List.Subset.refl _)
  listed _ hdeclaration := absurd hdeclaration List.not_mem_nil
  distinct s _ := hdistinct s
  owes _ _ hs name := h.owes hs _ name
  adds s hs _ := hadds s hs
  closings _ _ _ _ hregion := absurd hregion List.not_mem_nil
  inside _ hregion := absurd hregion List.not_mem_nil

/-- A step that uses and declares nothing and changes nothing that is owed. -/
theorem Traces.closes (h : Traces f p q [] []) (hscopes : q.scopes = p.scopes)
    (howed : ∀ s height name, owedAt (f s) height name = owedAt s height name)
    (hdistinct : ∀ s, s.Distinct → (f s).Distinct) (hquiet : ∀ s, (f s).errors = s.errors) :
    Closes f p q [] [] [] [] where
  toTraces := h
  names := by
    rw [Place.innermost, Place.innermost, hscopes]
    exact List.Subset.refl _
  outer := congrArg List.tail hscopes
  spans _ hu := absurd hu List.not_mem_nil
  listed _ hdeclaration := absurd hdeclaration List.not_mem_nil
  distinct s _ := hdistinct s
  owes _ s _ name := by
    rw [howed, declaredAt, Declaration.first?, List.find?_nil, Option.map_none, Option.map_none,
      Option.or_none, paid_nil, Option.map_id, id_eq]
  adds s _ _ := adds_quiet (hquiet s)
  closings _ _ _ _ hregion := absurd hregion List.not_mem_nil
  inside _ hregion := absurd hregion List.not_mem_nil

theorem closes_id (p : Place) : Closes (fun s => s) p p [] [] [] [] :=
  (inspects_id p).toTraces.closes rfl (fun _ _ _ => rfl) (fun _ h => h) fun _ => rfl

/-! ### Scopes of their own -/

/-- A part that is walked in a scope of its own. -/
theorem Closes.enclosed {opening : State → State} (close : State → State → State) {inside : Place}
    {around : Place.Scope} {given : List String} (h : Closes f inside q us parts declared regions)
    (hinspects : Inspects (fun s => close s (f (opening s))) p us parts)
    (hinside : inside.scopes = around :: p.scopes) (hwalks : Walks opening p inside [])
    (hopening : ∀ s, Tracks s p → (s.Distinct → (opening s).Distinct) ∧ Adds opening s [] ∧
      ∀ name, owedAt (opening s) p.scopes.length name = if name ∈ given then some none else none)
    (hclose : ∀ s t, (close s t).scopes = t.endScope.scopes ∧
      (close s t).errors = t.endScope.errors) :
    Closes (fun s => close s (f (opening s))) p p us parts []
      (regions ++ [⟨p.scopes.length, given, declared, us⟩]) := by
  have hheight : inside.scopes.length = p.scopes.length + 1 := by rw [hinside, List.length_cons]
  have hlocal : inside.scopes ≠ [] := by simp [hinside]
  -- the innermost table when the scope is closed
  have hclosing : ∀ s, Tracks s p → s.Distinct →
      ∃ scope outer, (f (opening s)).scopes = scope :: outer ∧ outer.length = p.scopes.length ∧
      (∀ scope' ∈ outer, scope'.Distinct) ∧
        Owes scope (Region.unused ⟨p.scopes.length, given, declared, us⟩) := by
    intro s hs hdistinct
    have hopened := (hwalks s hs).1
    obtain ⟨hkept, -, howed⟩ := hopening s hs
    have hafter := h.distinct _ hopened (hkept hdistinct)
    have hlength : (f (opening s)).scopes.length = p.scopes.length + 1 := by
      rw [(h.walks _ hopened).1.scopes.length_eq, h.height, hheight]
    obtain ⟨scope, outer, hstack⟩ := List.exists_cons_of_length_eq_add_one hlength
    rw [hstack, List.length_cons, Nat.add_right_cancel_iff] at hlength
    rw [State.Distinct, hstack, List.forall_mem_cons] at hafter
    refine ⟨scope, outer, hstack, hlength, hafter.2, owes_region hstack hlength hafter.1
      fun name => ?_⟩
    have hinnermost := h.owes hlocal _ hopened name
    rwa [hheight, Nat.add_sub_cancel, howed] at hinnermost
  exact {
    toTraces := hinspects.toTraces
    names := List.Subset.refl _
    outer := rfl
    spans := fun u hu => (h.spans u hu).of_inside hinside
    listed := fun _ hdeclaration => absurd hdeclaration List.not_mem_nil
    distinct := fun s hs hdistinct => by
      obtain ⟨scope, outer, hstack, -, houter, -⟩ := hclosing s hs hdistinct
      rw [State.Distinct, (hclose s _).1, scopes_endScope, hstack]
      exact houter
    owes := fun _ s hs name => hinspects.owes hs _ name
    adds := fun s hs hdistinct => by
      have hopened := (hwalks s hs).1
      obtain ⟨hkept, hquiet, -⟩ := hopening s hs
      obtain ⟨scope, outer, hstack, hlength, -, howes⟩ := hclosing s hs hdistinct
      have hcloses := closesIn_of_owes hstack hlength howes
      have hend : (f (opening s)).endScope.errors =
          (f (opening s)).errors ++ Region.reports ⟨p.scopes.length, given, declared, us⟩ := by
        have hreports := hcloses.reports scope outer scope.entries hstack (List.Perm.refl _)
        rwa [← hstack] at hreports
      have hlast : Adds (close s) (f (opening s))
          (Region.reports ⟨p.scopes.length, given, declared, us⟩) := by
        refine ⟨_, by rw [(hclose s _).2, hend], List.filter_eq_self.2 fun error herror => ?_⟩
        obtain ⟨t, -, rfl⟩ := List.mem_map.1 herror
        rfl
      have hall := (hquiet.comp (h.adds _ hopened (hkept hdistinct))).comp hlast
      rw [List.nil_append] at hall
      rw [List.flatMap_append, List.flatMap_singleton]
      exact hall
    closings := fun s hs hdistinct region hregion => by
      obtain ⟨hopened, hbindings, -⟩ := hwalks s hs
      obtain ⟨hkept, -, -⟩ := hopening s hs
      rw [List.filterMap_nil, List.append_nil] at hbindings
      rcases List.mem_append.1 hregion with hinner | hown
      · have hgrown : (f (opening s)).errors <+: (close s (f (opening s))).errors := by
          rw [(hclose s _).2]
          exact (reports_endScope _).grows
        have hfirst := (h.closings _ hopened (hkept hdistinct) region hinner).onward hgrown []
        rw [List.append_nil] at hfirst
        have hnone : (opening s).bindings = s.bindings ++ ([] : Uses).filterMap binding? := by
          rw [hbindings, List.filterMap_nil, List.append_nil]
        exact hfirst.earlier hnone
      · obtain ⟨scope, outer, hstack, hlength, -, howes⟩ := hclosing s hs hdistinct
        rw [List.mem_singleton.1 hown]
        refine ⟨[], [], f (opening s), (List.append_nil us).symm, ?_,
          closesIn_of_owes hstack hlength howes, (hclose s _).2 ▸ List.prefix_refl _⟩
        rw [(h.walks _ hopened).2.1, hbindings]
        rfl
    inside := fun region hregion => by
      rcases List.mem_append.1 hregion with hinner | hown
      · exact h.inside region hinner
      · rw [List.mem_singleton.1 hown]
        refine ⟨(List.prefix_refl us).isInfix, fun u hu => ?_, h.listed⟩
        exact Nat.lt_of_lt_of_le (Nat.lt_of_lt_of_eq (Nat.lt_succ_self _) hheight.symm)
          (h.deeper u hu) }

end Rules

/-! ### Declarations -/

theorem closes_declare (isVariable : Bool) (name : Token) {p place : Place}
    (hplace : place.scopes = p.scopes) :
    Closes (fun s => s.declare name true) p (p.declare name) [(place, .declare name)] []
      [⟨isVariable, name⟩] [] where
  toTraces := (traces_declare name true p).cons_silent (silent_declare place name)
    (Nat.le_of_eq (congrArg List.length hplace.symm))
  names := Place.innermost_subset_declare name p
  outer := (Place.grows_declare name p).outer
  spans u hu := by
    rw [List.mem_singleton.1 hu]
    intro scope outer hscopes
    exact ⟨[], scope, hplace.trans hscopes,
      Place.innermost_eq hscopes ▸ Place.innermost_subset_declare name p⟩
  listed declaration hdeclaration :=
    ⟨place, by rw [List.mem_singleton.1 hdeclaration]; exact List.mem_singleton_self _⟩
  distinct s _ hdistinct := hdistinct.declare name true
  owes hlocal s hs other := by
    have hlength : s.scopes.length = p.scopes.length - 1 + 1 := by
      have hpositive := List.length_pos_iff.2 hlocal
      rw [hs.scopes.length_eq]
      omega
    rw [paid_cons_silent (silent_declare place name).reads, paid_nil, Option.map_id, id_eq,
      owedAt_declare hlength, declaredAt,
      Declaration.first?_cons]
    congr 1
    split <;> rfl
  adds s _ _ := adds_declare s name true
  closings _ _ _ _ hregion := absurd hregion List.not_mem_nil
  inside _ hregion := absurd hregion List.not_mem_nil

theorem closes_define (name : Token) (p : Place) :
    Closes (fun s => s.define name) p p [] [] [] [] :=
  (traces_define name p).closes rfl (fun s => owedAt_define s name) (fun _ h => h.define name)
    fun s => (scopes_define s name).2.2

theorem closes_declareDefined (isVariable : Bool) (name : Token) {p place : Place}
    (hplace : place.scopes = p.scopes) :
    Closes (declareDefined name) p (p.declare name) [(place, .declare name)] []
      [⟨isVariable, name⟩] [] :=
  (closes_declare isVariable name hplace).comp (closes_define name _)

/-! ### Single uses -/

theorem closes_write (id : Nat) (name : Token) (p : Place) :
    Closes (fun s => s.lookUp id name.lexeme false) p p [(p, .write id name)] [] [] [] :=
  Inspects.closes (inspects_lookUp trivial rfl rfl rfl (by simp))
    (fun _ hu => by rw [List.mem_singleton.1 hu])
    (fun _ hdistinct => hdistinct.lookUp id name.lexeme false) fun _ _ => adds_quiet rfl

theorem closes_resolveVariable (id : Nat) (name : Token) (p : Place) :
    Closes (resolveVariable id name) p p [(p, .read id name)] [] [] [] := by
  refine (inspects_resolveVariable id name p).closes (fun _ hu => by rw [List.mem_singleton.1 hu])
    (fun s hdistinct => ?_) fun s _ => ?_
  · refine State.Distinct.lookUp
      (s := if s.inOwnInitializer name.lexeme then s.error name .readInOwnInitializer else s) ?_ id
      name.lexeme true
    split <;> exact hdistinct
  · exact (adds_if (s.inOwnInitializer name.lexeme = true) s name rfl).comp
      (adds_quiet (f := (·.lookUp id name.lexeme true)) rfl)

theorem closes_resolveThis (id : Nat) (keyword : Token) (p : Place) :
    Closes (resolveThis id keyword) p p [(p, .this id keyword)] [] [] [] := by
  refine (inspects_resolveThis id keyword p).closes (fun _ hu => by rw [List.mem_singleton.1 hu])
    (fun s hdistinct => ?_) fun s _ => ?_
  · unfold resolveThis
    split
    · exact hdistinct
    · exact hdistinct.lookUp id keyword.lexeme true
  · unfold Adds resolveThis
    split
    · exact adds_error s keyword rfl
    · exact adds_quiet (f := (·.lookUp id keyword.lexeme true)) rfl

theorem closes_resolveSuper (id : Nat) (keyword : Token) (p : Place) :
    Closes (resolveSuper id keyword) p p [(p, .super id keyword)] [] [] [] := by
  refine (inspects_resolveSuper id keyword p).closes (fun _ hu => by rw [List.mem_singleton.1 hu])
    (fun s hdistinct => ?_) fun s _ => ?_
  · unfold resolveSuper
    split
    · exact hdistinct
    · exact hdistinct
    · exact hdistinct.lookUp id keyword.lexeme true
  · unfold Adds resolveSuper
    split
    · exact adds_error s keyword rfl
    · exact adds_error s keyword rfl
    · exact adds_quiet (f := (·.lookUp id keyword.lexeme true)) rfl

theorem closes_jump (keyword : Token) (kind : Jump) (p : Place) :
    Closes (fun s => if s.loopDepth = 0 then s.error keyword (.jumpOutsideLoop kind) else s) p p
      [(p, .jump keyword kind)] [] [] [] := by
  refine (inspects_jump keyword kind p).closes (fun _ hu => by rw [List.mem_singleton.1 hu])
    (fun s hdistinct => ?_) fun s _ => ?_
  · split <;> exact hdistinct
  · exact adds_if (s.loopDepth = 0) s keyword rfl

theorem closes_checkReturn (keyword : Token) (hasValue : Bool) (p : Place) :
    Closes (checkReturn keyword hasValue) p p [(p, .returnValue keyword hasValue)] [] [] [] := by
  refine (inspects_checkReturn keyword hasValue p).closes
    (fun _ hu => by rw [List.mem_singleton.1 hu]) (fun s hdistinct => ?_) fun s _ => ?_
  · rw [State.Distinct, (checkReturn_eq keyword hasValue s).1]
    exact hdistinct
  · refine ⟨_, (checkReturn_eq keyword hasValue s).2, ?_⟩
    rw [List.filter_append]
    split <;> split <;> rfl

theorem closes_checkSuperclass (name : Token) (superclass : Expr) (p : Place) :
    Closes (checkSuperclass name superclass) p p [] [] [] [] := by
  refine (inspects_checkSuperclass name superclass p).closes
    (fun _ hu => absurd hu List.not_mem_nil) (fun s hdistinct => ?_) fun s _ => ?_
  · unfold checkSuperclass
    split
    · split <;> exact hdistinct
    · exact hdistinct
  · unfold Adds checkSuperclass
    split
    next parent _ => exact adds_if (parent.lexeme = name.lexeme) s parent rfl
    next => exact adds_quiet (f := id) rfl

theorem closes_setClass (kind : ClassKind) (p : Place) :
    Closes (fun s => { s with classKind := kind }) p (p.inClass kind) [] [] [] [] :=
  (traces_setClass kind p).closes rfl (fun _ _ _ => rfl) (fun _ h => h) fun _ => rfl

section Scopes

variable {f : State → State} {p q : Place} {us : Uses} {parts : List (Place × Stmt)}
  {declared : List Declaration} {regions : List Region}

/-- A part inside a scope that is empty at first. -/
theorem Closes.inScope {site : Site} (h : Closes f (p.enter site []) q us parts declared regions)
    (hgrows : (p.enter site []).Grows q) :
    Closes (fun s => (f s.beginScope).endScope) p p us parts []
      (regions ++ [⟨p.scopes.length, [], declared, us⟩]) := by
  have hinspects := h.toTraces.scoped (walks_beginScope site p) (fun _ => ⟨rfl, rfl⟩) hgrows
  refine h.enclosed (fun _ t => t.endScope) hinspects rfl (walks_beginScope site p) (fun s hs => ?_)
    fun _ _ => ⟨rfl, rfl⟩
  refine ⟨State.Distinct.beginScope, adds_quiet rfl, fun name => ?_⟩
  rw [owedAt, beginScope, ← hs.scopes.length_eq, localAt_innermost]
  rfl

/-- A part inside the scope of `this` or `super`. -/
theorem Closes.inImplicit {site : Site} {name : String}
    (h : Closes f (p.enter site [name]) q us parts declared regions)
    (hgrows : (p.enter site [name]).Grows q) :
    Closes (fun s => (f (s.beginScope.bindImplicit name)).endScope) p p us parts []
      (regions ++ [⟨p.scopes.length, [name], declared, us⟩]) := by
  have hinspects :=
    h.toTraces.scoped (walks_beginImplicit name site p) (beginImplicit_quiet name) hgrows
  refine h.enclosed (fun _ t => t.endScope) hinspects rfl (walks_beginImplicit name site p)
    (fun s hs => ?_) fun _ _ => ⟨rfl, rfl⟩
  refine ⟨fun hdistinct => hdistinct.beginImplicit name, adds_quiet rfl, fun other => ?_⟩
  rw [owedAt, ← hs.scopes.length_eq]
  show (localAt (Table.insert ∅ name _ :: s.scopes) s.scopes.length other).map owed = _
  rw [localAt_innermost, Table.find?_insert]
  by_cases hname : name = other
  · simp [hname, owed]
  · simp [hname, Ne.symm hname]

theorem Closes.function {kind : FunctionKind} {decl : FunctionDecl}
    (h : Closes f (p.enterFunction kind decl) q us parts declared regions)
    (hgrows : (p.enterFunction kind decl).Grows q) :
    Closes (fun s => leaveFunction s (f (enterFunction kind decl.params s))) p p us parts []
      (regions ++ [⟨p.scopes.length, decl.params.map (·.lexeme), declared, us⟩]) := by
  have hinspects := h.toTraces.function hgrows
  have hparams := Place.grows_declareAll decl.params
    (Place.enter (.function decl) [] { p with functionKind := kind, inLoop := false })
  obtain ⟨names, hinside⟩ := Place.Grows.of_enter hparams
  refine h.enclosed leaveFunction hinspects hinside (walks_enterFunction kind decl p)
    (fun s hs => ?_) fun _ _ => ⟨rfl, rfl⟩
  refine ⟨fun hdistinct => ?_, ?_, fun name => ?_⟩
  · exact State.Distinct.declareParams
      (s := { s with functionKind := kind, loopDepth := 0 }.beginScope)
      hdistinct.beginScope decl.params
  · exact adds_declareParams decl.params { s with functionKind := kind, loopDepth := 0 }.beginScope
  · have hlength : ({ s with functionKind := kind, loopDepth := 0 } :
        State).beginScope.scopes.length = p.scopes.length + 1 := by
      rw [← hs.scopes.length_eq]
      rfl
    rw [enterFunction, owedAt_declareParams hlength, owedAt, beginScope, ← hs.scopes.length_eq]
    show ((localAt (∅ :: s.scopes) s.scopes.length name).map owed).or _ = _
    rw [localAt_innermost]
    rfl

end Scopes

end Resolve
end TraitScript
