import TraitScript.Proofs.Scope.Region

/-!
# What the locals of a scope owe

A local that something must read owes a report from its declaration until something reads it.
Declarations add to what the scope around them owes, reads that are bound in that scope take away
from it, and nothing else changes it. Names of a scope can be read only once they are there, so what
comes before a declaration does not pay for it.
-/

namespace TraitScript

namespace Place

/-- A place inside a part that leads from one place to another: the scope around the part is around
it too, with at most the names that it has in the end. -/
def Spans (p q u : Place) : Prop :=
  ∀ scope outer, p.scopes = scope :: outer → ∃ front around, u.scopes = front ++ around :: outer ∧
    around.names ⊆ q.innermost

variable {p q r u : Place}

theorem innermost_eq {scope : Place.Scope} {outer : List Place.Scope}
    (h : p.scopes = scope :: outer) : p.innermost = scope.names := by
  rw [innermost, h]

theorem spans_start (h : p.innermost ⊆ q.innermost) : p.Spans q p := by
  intro scope outer hscopes
  exact ⟨[], scope, hscopes, innermost_eq hscopes ▸ h⟩

theorem Spans.mono (h : p.Spans q u) (hnames : q.innermost ⊆ r.innermost) : p.Spans r u := by
  intro scope outer hscopes
  obtain ⟨front, around, hu, haround⟩ := h scope outer hscopes
  exact ⟨front, around, hu, List.Subset.trans haround hnames⟩

theorem Spans.later (h : q.Spans r u) (htail : q.scopes.tail = p.scopes.tail)
    (hlength : q.scopes.length = p.scopes.length) : p.Spans r u := by
  intro scope outer hscopes
  cases hq : q.scopes with
  | nil =>
      rw [hq, hscopes] at hlength
      cases hlength
  | cons scope' outer' =>
      rw [hq, hscopes] at htail
      exact h scope' outer (by rw [hq, show outer' = outer from htail])

/-- What stands in a scope of its own has the scope around it in front of it. -/
theorem Spans.of_inside {inside : Place} {around : Place.Scope} (h : inside.Spans q u)
    (hinside : inside.scopes = around :: p.scopes) :
    p.Spans p u := by
  intro scope outer hscopes
  obtain ⟨front, around', hu, -⟩ := h around p.scopes hinside
  refine ⟨front ++ [around'], scope, ?_, innermost_eq hscopes ▸ List.Subset.refl _⟩
  rw [hu, hscopes, List.append_assoc]
  rfl

theorem innermost_subset_declare (name : Token) (p : Place) :
    p.innermost ⊆ (p.declare name).innermost := by
  by_cases hlocal : p.scopes = []
  · rw [innermost, hlocal]
    exact List.nil_subset _
  · rw [innermost_declare hlocal]
    exact List.subset_cons_self _ _

end Place

/-- The errors of scopes that are closed. -/
def ResolveError.isUnused (error : ResolveError) : Bool :=
  match error.cause with
  | .unusedLocal _ => true
  | .redeclared | .readInOwnInitializer | .inheritsFromItself | .returnAtTopLevel
  | .valueFromInitializer | .thisOutsideClass | .superOutsideClass | .superWithoutSuperclass
  | .jumpOutsideLoop _ => false

namespace Resolve

open State

/-! ### Reports that are owed -/

/-- What the local of a name in the scope of a height owes. -/
def owedAt (s : State) (height : Nat) (name : String) : Option (Option Token) :=
  (localAt s.scopes height name).map owed

/-- What becomes of a report that is owed while uses are resolved. -/
def paid (us : Uses) (height : Nat) (name : String) (report : Option Token) : Option Token :=
  if (us.filterMap reads?).contains (height, name) then none else report

theorem paid_of_mem {us : Uses} {height : Nat} {name : String}
    (h : (height, name) ∈ us.filterMap reads?) (report : Option Token) :
    paid us height name report = none := if_pos (List.contains_iff_mem.2 h)

theorem paid_of_not_mem {us : Uses} {height : Nat} {name : String}
    (h : (height, name) ∉ us.filterMap reads?) : paid us height name = id :=
  funext fun _ => if_neg (mt List.contains_iff_mem.1 h)

@[simp] theorem paid_nil (height : Nat) (name : String) : paid [] height name = id := rfl

theorem paid_append (us vs : Uses) (height : Nat) (name : String) (report : Option Token) :
    paid (us ++ vs) height name report = paid vs height name (paid us height name report) := by
  simp only [paid, List.filterMap_append, List.contains_append]
  cases (us.filterMap reads?).contains (height, name) <;> cases (vs.filterMap reads?).contains
    (height, name) <;> rfl

theorem paid_cons_silent {u : Place × Use} (hsilent : reads? u = none) (us : Uses) :
    paid (u :: us) = paid us := by
  funext height name report
  rw [paid, paid, List.filterMap_cons_none hsilent]

theorem owed_marked (us : Uses) (height : Nat) (name : String) (entry : Local) :
    owed (marked us height name entry) = paid us height name (owed entry) := by
  by_cases hread : (height, name) ∈ us.filterMap reads?
  · rw [marked, if_pos hread, paid_of_mem hread]
    simp [owed]
  · rw [marked, if_neg hread, paid_of_not_mem hread, id_eq]

/-- What locals owe that are declared. -/
def declaredAt (declared : List Declaration) (name : String) : Option (Option Token) :=
  (Declaration.first? declared name).map some

theorem declaredAt_append (first second : List Declaration) (name : String) :
    declaredAt (first ++ second) name = (declaredAt first name).or (declaredAt second name) := by
  rw [declaredAt, declaredAt, declaredAt, Declaration.first?_append, Option.map_or]

/-! ### Reads of the scope around a part -/

theorem height?_of_reads? {u : Place × Use} {height : Nat} {name : String}
    (h : reads? u = some (height, name)) :
    u.1.height? name = some height := by
  obtain ⟨p, use⟩ := u
  have hof : ∀ name' : String, (p.height? name').map (·, name') = some (height, name) →
      p.height? name = some height := by
    intro name' heq
    simp only [Option.map_eq_some_iff, Prod.mk.injEq] at heq
    obtain ⟨_, hfound, rfl, rfl⟩ := heq
    exact hfound
  cases use with
  | read _ token => exact hof _ h
  | this _ _ =>
      simp only [reads?] at h
      split at h
      · cases h
      · exact hof _ h
  | super _ _ =>
      simp only [reads?] at h
      split at h
      · exact hof _ h
      · cases h
  | write _ _ | declare _ | reference _ | jump _ _ | returnValue _ _ => cases h

/-- Only names of the scope around a part are read in it. -/
theorem mem_innermost_of_reads {p q : Place} {u : Place × Use} (hspans : p.Spans q u.1)
    (hlocal : p.scopes ≠ []) {name : String} (h : reads? u = some (p.scopes.length - 1, name)) :
    name ∈ q.innermost := by
  obtain ⟨scope, outer, hscopes⟩ := List.exists_cons_of_ne_nil hlocal
  obtain ⟨front, around, hu, haround⟩ := hspans scope outer hscopes
  obtain ⟨distance, hdistance, hheight⟩ := Option.map_eq_some_iff.1 (height?_of_reads? h)
  obtain ⟨hlt, hname, -⟩ := List.findIdx?_eq_some_iff_getElem.1 hdistance
  have hfront : distance = front.length := by
    have hlength : u.1.scopes.length = front.length + (outer.length + 1) := by
      rw [hu, List.length_append, List.length_cons]
    rw [hscopes, List.length_cons] at hheight
    omega
  subst hfront
  refine haround ?_
  simpa [hu] using hname

theorem localAt_eq_none_iff {s : State} {p : Place} (hs : Tracks s p) (hlocal : p.scopes ≠ [])
    (name : String) :
    localAt s.scopes (p.scopes.length - 1) name = none ↔ name ∉ p.innermost := by
  obtain ⟨around, arounds, hscopes⟩ := List.exists_cons_of_ne_nil hlocal
  have hstack := hs.scopes
  rw [hscopes] at hstack
  obtain ⟨scope, outer, hholds, hrest, hcons⟩ := List.forall₂_cons_right_iff.1 hstack
  rw [hcons, hscopes, List.length_cons, Nat.add_sub_cancel, ← hrest.length_eq, localAt_innermost,
    Place.innermost_eq hscopes, ← hholds name,
    Table.contains, Option.not_isSome_iff_eq_none]

/-! ### Tables without repeated names -/

/-- No table of the walk has a name twice. -/
def State.Distinct (s : State) : Prop := ∀ scope ∈ s.scopes, scope.Distinct

theorem distinct_markRead (name : String) {scopes : List Scope}
    (h : ∀ scope ∈ scopes, scope.Distinct) :
    ∀ scope ∈ markRead name scopes, scope.Distinct := by
  induction scopes with
  | nil => exact h
  | cons scope outer ih =>
      obtain ⟨hscope, houter⟩ := List.forall_mem_cons.1 h
      rw [markRead]
      split
      · exact List.forall_mem_cons.2 ⟨hscope.insert name _, houter⟩
      · exact List.forall_mem_cons.2 ⟨hscope, ih houter⟩

theorem State.Distinct.lookUp {s : State} (h : s.Distinct) (id : Nat) (name : String)
    (isRead : Bool) : (s.lookUp id name isRead).Distinct := by
  cases isRead with
  | false => exact h
  | true => exact distinct_markRead name h

theorem State.Distinct.declare {s : State} (h : s.Distinct) (name : Token) (mustBeRead : Bool) :
    (s.declare name mustBeRead).Distinct := by
  unfold State.declare
  split
  · exact h
  next scope outer hstack =>
    split
    · exact h
    · rw [State.Distinct, hstack, List.forall_mem_cons] at h
      exact List.forall_mem_cons.2 ⟨h.1.insert _ _, h.2⟩

theorem State.Distinct.define {s : State} (h : s.Distinct) (name : Token) :
    (s.define name).Distinct := by
  unfold State.define
  split
  · exact h
  next scope outer hstack =>
    split
    · split
      · rw [State.Distinct, hstack, List.forall_mem_cons] at h
        exact List.forall_mem_cons.2 ⟨h.1.insert _ _, h.2⟩
      · exact h
    · exact h

theorem State.Distinct.beginScope {s : State} (h : s.Distinct) : s.beginScope.Distinct :=
  List.forall_mem_cons.2 ⟨Table.distinct_empty, h⟩

theorem State.Distinct.beginImplicit {s : State} (h : s.Distinct) (name : String) :
    (s.beginScope.bindImplicit name).Distinct :=
  List.forall_mem_cons.2 ⟨Table.distinct_empty.insert name _, h⟩

theorem State.Distinct.declareParams {s : State} (h : s.Distinct) (params : List Token) :
    (declareParams params s).Distinct := by
  induction params generalizing s with
  | nil => exact h
  | cons param rest ih => exact ih ((h.declare param false).define param)

/-! ### Errors about unused locals -/

/-- A part of the walk only adds errors, and of those about unused locals just these. -/
def Adds (f : State → State) (s : State) (errors : List ResolveError) : Prop :=
  ∃ added, (f s).errors = s.errors ++ added ∧ added.filter (·.isUnused) = errors

theorem Adds.comp {f g : State → State} {s : State} {errors errors' : List ResolveError}
    (hf : Adds f s errors) (hg : Adds g (f s) errors') :
    Adds (fun s => g (f s)) s (errors ++ errors') := by
  obtain ⟨added, hadded, rfl⟩ := hf
  obtain ⟨added', hadded', rfl⟩ := hg
  refine ⟨added ++ added', ?_, List.filter_append ..⟩
  rw [hadded', hadded, List.append_assoc]

theorem adds_quiet {f : State → State} {s : State} (h : (f s).errors = s.errors) : Adds f s [] :=
  ⟨[], by rw [h, List.append_nil], rfl⟩

theorem adds_error (s : State) (token : Token) {cause : ResolveError.Cause}
    (hcause : ResolveError.isUnused ⟨cause, token⟩ = false) :
    Adds (·.error token cause) s [] :=
      ⟨[⟨cause, token⟩], rfl, by rw [List.filter_singleton, hcause]; rfl⟩

theorem adds_if (found : Prop) [Decidable found] (s : State) (token : Token)
    {cause : ResolveError.Cause} (hcause : ResolveError.isUnused ⟨cause, token⟩ = false) :
    Adds (fun s => if found then s.error token cause else s) s [] := by
  by_cases hfound : found
  · simp only [if_pos hfound]
    exact adds_error s token hcause
  · exact adds_quiet (by rw [if_neg hfound])

/-! ### Declaring -/

theorem owedAt_define (s : State) (t : Token) (height : Nat) (name : String) :
    owedAt (s.define t) height name = owedAt s height name := by
  unfold State.define
  split
  · rfl
  next scope outer hstack =>
    split
    next entry hfound =>
      split
      next hdeclared =>
        rw [owedAt, owedAt, hstack, localAt, localAt]
        split
        · rw [Table.find?_insert]
          split
          next hname =>
            -- a local that has no value yet owes the same once it has one
            rw [← hname, hfound, Option.map_some, Option.map_some]
            simp [owed, hdeclared]
          next => rfl
        · rfl
      · rfl
    · rfl

theorem owedAt_declare {s : State} {height : Nat} (hheight : s.scopes.length = height + 1)
    (t : Token) (mustBeRead : Bool) (name : String) :
    owedAt (s.declare t mustBeRead) height name =
      (owedAt s height name).or
      (if t.lexeme = name then some (if mustBeRead then some t else none) else none) := by
  obtain ⟨scope, outer, hstack⟩ := List.exists_cons_of_length_eq_add_one hheight
  rw [hstack, List.length_cons, Nat.add_right_cancel_iff] at hheight
  subst hheight
  have hbefore : owedAt s outer.length name = (scope.find? name).map owed := by
    rw [owedAt, hstack, localAt_innermost]
  rw [hbefore]
  by_cases hold : scope.contains t.lexeme = true
  · have hafter : owedAt (s.declare t mustBeRead) outer.length name =
        (scope.find? name).map owed := by
      simp only [State.declare, hstack, if_pos hold, State.error, owedAt, localAt_innermost]
    rw [hafter]
    by_cases hname : t.lexeme = name
    · subst hname
      obtain ⟨entry, hentry⟩ := Option.isSome_iff_exists.1 hold
      rw [show scope.find? t.lexeme = some entry from hentry]
      rfl
    · rw [if_neg hname, Option.or_none]
  · have hafter : owedAt (s.declare t mustBeRead) outer.length name =
        ((scope.insert t.lexeme ⟨some t, .declared, mustBeRead⟩).find? name).map owed := by
      simp only [State.declare, hstack, if_neg hold, owedAt, localAt_innermost]
    rw [hafter, Table.find?_insert]
    by_cases hname : t.lexeme = name
    · subst hname
      rw [Table.contains, Option.not_isSome_iff_eq_none] at hold
      rw [hold, if_pos rfl, if_pos rfl]
      cases mustBeRead <;> rfl
    · rw [if_neg hname, if_neg hname, Option.or_none]

theorem owedAt_declareParams {s : State} {height : Nat} (hheight : s.scopes.length = height + 1)
    (params : List Token) (name : String) :
    owedAt (declareParams params s) height name =
      (owedAt s height name).or (if name ∈ params.map (·.lexeme) then some none else none) := by
  induction params generalizing s with
  | nil => exact Option.or_none.symm
  | cons param rest ih =>
      have hdeclared := (scopes_declare s param false).2
      have hdefined := (scopes_define (s.declare param false) param).2.1
      have hrest :=
        ih (s := (s.declare param false).define param) (by rw [hdefined, hdeclared, hheight])
      rw [declareParams, List.foldl_cons]
      refine hrest.trans ?_
      rw [owedAt_define, owedAt_declare hheight, Option.or_assoc, List.map_cons]
      congr 1
      by_cases hname : param.lexeme = name
      · simp [hname]
      · simp [hname, Ne.symm hname]

theorem adds_declare (s : State) (name : Token) (mustBeRead : Bool) :
    Adds (fun s => s.declare name mustBeRead) s [] := by
  cases hstack : s.scopes with
  | nil => exact adds_quiet (by simp only [State.declare, hstack])
  | cons scope outer =>
      by_cases hold : scope.contains name.lexeme = true
      · exact ⟨[⟨.redeclared, name⟩], by simp [State.declare, hstack, hold], rfl⟩
      · exact adds_quiet (by simp [State.declare, hstack, hold])

theorem adds_declareParams (params : List Token) (s : State) :
    Adds (declareParams params) s [] := by
  induction params generalizing s with
  | nil => exact adds_quiet rfl
  | cons param rest ih =>
      have hfirst := (adds_declare s param false).comp
        (adds_quiet (f := (·.define param)) (scopes_define _ param).2.2)
      exact hfirst.comp (ih _)

end Resolve
end TraitScript
