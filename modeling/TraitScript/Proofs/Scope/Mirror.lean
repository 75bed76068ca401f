import TraitScript.Proofs.Table.Alike
import TraitScript.Proofs.Tree.Alike
import TraitScript.Resolve.Walk

/-!
# Resolving two trees of the same shape

Two programs that are alike are resolved side by side. Their scopes hold corresponding names: in a
marked scope names may be changed, and a name that is looked up is changed as in the scope where it
is bound. Then both walks find the same distances, the second program is accepted if the first is,
and with nothing changed but ids the errors are the same. Afterwards the trees are known to agree
also in the distances recorded for their occurrences.
-/

namespace TraitScript

/-- The mark of the scope at a distance; globals are unmarked. -/
def markAt (marks : List Bool) : Option Nat → Bool
  | none => false
  | some distance => marks.getD distance false

theorem markAt_succ (mark : Bool) (marks : List Bool) (distance : Option Nat) :
    markAt (mark :: marks) (distance.map (· + 1)) = markAt marks distance := by
  cases distance <;> rfl

namespace Resolve

/-- How two programs correspond for resolving. Occurrences are changed as in the scope that is
recorded for them on the left; if the programs are the same verbatim, nothing but ids differs. -/
structure Mirror where
  trees : Correspondence
  rename : Bool → String → String
  /-- The names that may occur on the left. -/
  admits : String → Prop
  ids : Nat → Nat → Prop
  left : Nat → Option Nat
  right : Nat → Option Nat
  /-- The ids that may occur on the left. -/
  within : Nat → Prop
  /-- What was recorded on the right before the walk begins. -/
  before : List Binding
  verbatim : Prop
  rename_false : ∀ name, rename false name = name
  injective : ∀ {mark mark' : Bool} {a b : String}, admits a → admits b →
      rename mark a = rename mark' b → a = b
  admits_this : admits "this"
  admits_super : admits "super"
  of_token : ∀ {t t'}, trees.token t t' → t'.lexeme = t.lexeme ∧ (verbatim → t' = t)
  of_declared : ∀ {mark t t'}, trees.declared mark t t' → t'.lexeme = rename mark t.lexeme ∧
      admits t.lexeme ∧ (verbatim → t' = t)
  of_named : ∀ {mark t t'}, trees.named mark t t' → t'.lexeme = rename mark t.lexeme ∧
      admits t.lexeme ∧ (verbatim → t' = t)
  of_occurrence : ∀ {marks id t id' t'}, trees.occurrence marks id t id' t' →
    t'.lexeme = rename (markAt marks (left id)) t.lexeme ∧ admits t.lexeme ∧ ids id id' ∧
    (verbatim → t' = t)
  of_receiver : ∀ {marks id t id' t'}, trees.receiver marks id t id' t' →
    t'.lexeme = rename (markAt marks (left id)) t.lexeme ∧ admits t.lexeme ∧ ids id id' ∧
    (verbatim → t' = t)

namespace Mirror

/-- The same distance is recorded for two occurrences. -/
def Settles (M : Mirror) (id id' : Nat) : Prop := M.right id' = M.left id ∧ M.within id

/-- Corresponding trees whose occurrences have the same recorded distances. -/
def resolved (M : Mirror) : Correspondence where
  token := M.trees.token
  occurrence marks id t id' t' := M.trees.occurrence marks id t id' t' ∧ M.Settles id id'
  receiver marks id t id' t' := M.trees.receiver marks id t id' t' ∧ M.Settles id id'
  declared := M.trees.declared
  named := M.trees.named

structure Locals (M : Mirror) (entry entry' : Local) : Prop where
  token : Option.Rel (fun t t' => M.verbatim → t' = t) entry.token entry'.token
  progress : entry'.progress = entry.progress
  mustBeRead : entry'.mustBeRead = entry.mustBeRead

structure Scopes (M : Mirror) (mark : Bool) (scope scope' : Scope) : Prop where
  alike : Table.Alike (M.rename mark) M.Locals scope scope'
  admits : ∀ name ∈ scope.names, M.admits name

inductive Stacks (M : Mirror) : List Bool → List Scope → List Scope → Prop
  | nil : Stacks M [] [] []
  | cons {mark : Bool} {marks : List Bool} {scope scope' : Scope} {outer outer' : List Scope}
      (h : M.Scopes mark scope scope')
      (hrest : Stacks M marks outer outer') :
      Stacks M (mark :: marks) (scope :: outer) (scope' :: outer')

structure States (M : Mirror) (marks : List Bool) (s s' : State) : Prop where
  scopes : M.Stacks marks s.scopes s'.scopes
  functionKind : s'.functionKind = s.functionKind
  classKind : s'.classKind = s.classKind
  loopDepth : s'.loopDepth = s.loopDepth
  errors : s.errors = [] → s'.errors = []
  verbatim : M.verbatim → s'.errors = s.errors
  bindings : ∃ later, s'.bindings = M.before ++ later ∧
      List.Forall₂ (fun b b' => M.ids b.id b'.id ∧ b'.distance = b.distance) s.bindings later

end Mirror

variable {M : Mirror} {mark mark' : Bool} {marks marks' marks'' : List Bool}

/-! ### Names in scopes -/

section Names

variable {scope scope' : Scope} {name name' : String}

/-- In a scope with the mark of the name, or one without the name, nothing else is taken for it. -/
theorem Mirror.Scopes.distinguishes (h : M.Scopes mark scope scope') (hname : M.admits name)
    (hname' : name' = M.rename mark' name) (hmark : name ∈ scope.names → mark' = mark) :
    Table.Distinguishes (M.rename mark) scope name name' := by
  intro key hkey
  constructor
  · intro heq
    exact M.injective (h.admits key hkey) hname (heq.trans hname')
  · rintro rfl
    rw [hname', hmark hkey]

theorem Mirror.Scopes.insert (h : M.Scopes mark scope scope') (hname : M.admits name)
    (hname' : name' = M.rename mark name) {entry entry' : Local} (hentry : M.Locals entry entry') :
    M.Scopes mark (scope.insert name entry) (scope'.insert name' entry') where
  alike := h.alike.insert (h.distinguishes hname hname' fun _ => rfl) hname' hentry
  admits key hkey := by
    rcases Table.mem_names_insert hkey with rfl | hold
    · exact hname
    · exact h.admits key hold

theorem Mirror.Scopes.empty (M : Mirror) (mark : Bool) : M.Scopes mark ∅ ∅ :=
  ⟨Table.alike_empty, nofun⟩

/-- A name is bound at the same distance on both sides, if on the right it is changed as in the
scope where it is bound on the left. -/
theorem Mirror.Stacks.distance? {scopes scopes' : List Scope} (h : M.Stacks marks scopes scopes')
    (hname : M.admits name)
    (hname' : name' = M.rename (markAt marks (State.distance? name scopes)) name) :
    State.distance? name' scopes' = State.distance? name scopes := by
  induction h with
  | nil => rfl
  | @cons mark marks scope scope' outer outer' hscope hrest ih =>
      rw [State.distance?] at hname'
      rw [State.distance?, State.distance?]
      by_cases hfound : scope.contains name = true
      · rw [if_pos hfound] at hname'
        have hsame := hscope.alike.contains (hscope.distinguishes hname hname' fun _ => rfl)
        rw [hsame, if_pos hfound, if_pos hfound]
      · rw [if_neg hfound, markAt_succ] at hname'
        have habsent : name ∉ scope.names :=
          fun hmem => hfound ((Table.contains_iff_mem_names ..).2 hmem)
        have hsame :=
          hscope.alike.contains (hscope.distinguishes hname hname' fun hmem => absurd hmem habsent)
        rw [hsame, if_neg hfound, if_neg hfound, ih hname']

theorem Mirror.Stacks.markRead {scopes scopes' : List Scope} (h : M.Stacks marks scopes scopes')
    (hname : M.admits name)
    (hname' : name' = M.rename (markAt marks (State.distance? name scopes)) name) :
    M.Stacks marks (State.markRead name scopes) (State.markRead name' scopes') := by
  induction h with
  | nil => exact .nil
  | @cons mark marks scope scope' outer outer' hscope hrest ih =>
      rw [State.distance?] at hname'
      rw [State.markRead, State.markRead]
      by_cases hfound : scope.contains name = true
      · rw [if_pos hfound] at hname'
        rcases rel_cases (hscope.alike.find? (hscope.distinguishes hname hname' fun _ => rfl)) with
          ⟨hleft, -⟩ | ⟨entry, entry', hleft, hright, hentry⟩
        · simp [Table.contains, hleft] at hfound
        · rw [hleft, hright]
          exact .cons (hscope.insert hname hname' ⟨hentry.token, rfl, hentry.mustBeRead⟩) hrest
      · rw [if_neg hfound, markAt_succ] at hname'
        have habsent : name ∉ scope.names :=
          fun hmem => hfound ((Table.contains_iff_mem_names ..).2 hmem)
        rcases rel_cases (hscope.alike.find?
          (hscope.distinguishes hname hname' fun hmem => absurd hmem habsent)) with
          ⟨hleft, hright⟩ | ⟨entry, -, hleft, -⟩
        · rw [hleft, hright]
          exact .cons hscope (ih hname')
        · simp [Table.contains, hleft] at hfound

end Names

/-! ### Walks side by side -/

/-- A walk only adds to what is reported and recorded. -/
def Grown (s t : State) : Prop := s.bindings <+: t.bindings ∧ s.errors <+: t.errors

theorem Grown.refl (s : State) : Grown s s := ⟨List.prefix_refl _, List.prefix_refl _⟩

theorem Grown.trans {s t u : State} (h : Grown s t) (h' : Grown t u) : Grown s u :=
  ⟨h.1.trans h'.1, h.2.trans h'.2⟩

theorem Grown.noErrors {s t : State} (h : Grown s t) (hnone : t.errors = []) : s.errors = [] :=
  List.prefix_nil.1 (hnone ▸ h.2)

/-- A table knows the distances of all occurrences looked up so far. -/
def Recorded (table : Nat → Option Nat) (s : State) : Prop :=
  ∀ b ∈ s.bindings, table b.id = b.distance

theorem Recorded.earlier {table : Nat → Option Nat} {s t : State} (h : Recorded table t)
    (hgrown : Grown s t) : Recorded table s :=
  fun b hb => h b (hgrown.1.subset hb)

/-- The left table knows the distances of all occurrences looked up so far, and their ids are among
those that may occur. -/
def Mirror.Knows (M : Mirror) (s : State) : Prop :=
  ∀ b ∈ s.bindings, M.left b.id = b.distance ∧ M.within b.id

theorem Mirror.Knows.earlier {M : Mirror} {s t : State} (h : M.Knows t) (hgrown : Grown s t) :
    M.Knows s :=
  fun b hb => h b (hgrown.1.subset hb)

/-- Two parts of a walk lead from corresponding states to corresponding states, if what is found on
the left is what the left table knows. If nothing was reported, and the right table knows what was
found on the right, then more is known of the trees. -/
structure Mirrors (M : Mirror) (marks marks' : List Bool) (f g : State → State) (K : Prop) :
    Prop where
  grows : ∀ s, Grown s (f s)
  grows' : ∀ s, Grown s (g s)
  states : ∀ {s s'}, M.States marks s s' → M.Knows (f s) →
    M.States marks' (f s) (g s') ∧ ((f s).errors = [] → Recorded M.right (g s') → K)

variable {f g f₂ g₂ : State → State} {K K₂ : Prop}

theorem Mirrors.imp (h : Mirrors M marks marks' f g K) (himp : K → K₂) :
    Mirrors M marks marks' f g K₂ where
  grows := h.grows
  grows' := h.grows'
  states hs hknown :=
    ⟨(h.states hs hknown).1, fun herrors hright => himp ((h.states hs hknown).2 herrors hright)⟩

theorem Mirrors.comp (h : Mirrors M marks marks' f g K) (h₂ : Mirrors M marks' marks'' f₂ g₂ K₂) :
    Mirrors M marks marks'' (fun s => f₂ (f s)) (fun s => g₂ (g s)) (K ∧ K₂) where
  grows s := (h.grows s).trans (h₂.grows (f s))
  grows' s := (h.grows' s).trans (h₂.grows' (g s))
  states {s s'} hs hknown := by
    obtain ⟨hmiddle, hK⟩ := h.states hs (hknown.earlier (h₂.grows (f s)))
    obtain ⟨hend, hK₂⟩ := h₂.states hmiddle hknown
    refine ⟨hend, fun herrors hright => ⟨?_, hK₂ herrors hright⟩⟩
    exact hK ((h₂.grows (f s)).noErrors herrors) (hright.earlier (h₂.grows' (g s')))

/-- A part of the walk by its equations. -/
theorem Mirrors.of_eq (h : Mirrors M marks marks' f g K) (hf : ∀ s, f₂ s = f s)
    (hg : ∀ s, g₂ s = g s) : Mirrors M marks marks' f₂ g₂ K := by
  obtain rfl : f₂ = f := funext hf
  obtain rfl : g₂ = g := funext hg
  exact h

theorem mirrors_id (hK : K) : Mirrors M marks marks (fun s => s) (fun s => s) K :=
  ⟨Grown.refl, Grown.refl, fun hs _ => ⟨hs, fun _ _ => hK⟩⟩

/-- A part of the walk that reports nothing and records nothing. -/
theorem mirrors_quiet (hf : ∀ s, (f s).bindings = s.bindings ∧ (f s).errors = s.errors)
    (hg : ∀ s, (g s).bindings = s.bindings ∧ (g s).errors = s.errors)
    (hstates : ∀ s s', M.States marks s s' → M.States marks' (f s) (g s')) :
    Mirrors M marks marks' f g True where
  grows s := ⟨(hf s).1 ▸ List.prefix_refl _, (hf s).2 ▸ List.prefix_refl _⟩
  grows' s := ⟨(hg s).1 ▸ List.prefix_refl _, (hg s).2 ▸ List.prefix_refl _⟩
  states hs _ := ⟨hstates _ _ hs, fun _ _ => trivial⟩

/-! ### Reports -/

theorem grown_error (s : State) (token : Token) (cause : ResolveError.Cause) :
    Grown s (s.error token cause) :=
  ⟨List.prefix_refl _, List.prefix_append ..⟩

theorem Mirror.States.error {s s' : State} (h : M.States marks s s') {t t' : Token}
    (cause : ResolveError.Cause) (ht : M.verbatim → t' = t) :
    M.States marks (s.error t cause) (s'.error t' cause) where
  scopes := h.scopes
  functionKind := h.functionKind
  classKind := h.classKind
  loopDepth := h.loopDepth
  errors herrors := by simp [State.error] at herrors
  verbatim hverbatim := by simp only [State.error, h.verbatim hverbatim, ht hverbatim]
  bindings := h.bindings

theorem mirrors_error {t t' : Token} (cause : ResolveError.Cause) (ht : M.verbatim → t' = t) :
    Mirrors M marks marks (fun s => s.error t cause) (fun s => s.error t' cause) K where
  grows s := grown_error s t cause
  grows' s := grown_error s t' cause
  states hs _ := ⟨hs.error cause ht, fun herrors _ => by simp [State.error] at herrors⟩

/-- A check that reports on the right only what it reports on the left, and the same if the programs
are. -/
theorem mirrors_report {found found' : State → Prop} [DecidablePred found] [DecidablePred found']
    {t t' : Token} (cause : ResolveError.Cause) (ht : M.verbatim → t' = t)
    (hfound : ∀ s s', M.States marks s s' → (found' s' → found s) ∧
      (M.verbatim → found s → found' s')) :
    Mirrors M marks marks (fun s => if found s then s.error t cause else s)
      (fun s => if found' s then s.error t' cause else s) True where
  grows s := by
    split
    · exact grown_error s t cause
    · exact Grown.refl s
  grows' s := by
    split
    · exact grown_error s t' cause
    · exact Grown.refl s
  states {s s'} hs _ := by
    refine ⟨?_, fun _ _ => trivial⟩
    obtain ⟨hback, hforth⟩ := hfound s s' hs
    by_cases hleft : found s
    · by_cases hright : found' s'
      · rw [if_pos hleft, if_pos hright]
        exact hs.error cause ht
      · -- only the left side reports, so the programs are not the same
        rw [if_pos hleft, if_neg hright]
        refine ⟨hs.scopes, hs.functionKind, hs.classKind, hs.loopDepth, fun herrors => ?_,
          fun hverbatim => ?_, hs.bindings⟩
        · simp [State.error] at herrors
        · exact absurd (hforth hverbatim hleft) hright
    · have hright : ¬ found' s' := fun h => hleft (hback h)
      rw [if_neg hleft, if_neg hright]
      exact hs

/-! ### Opening and closing scopes -/

theorem mirrors_beginScope (mark : Bool) :
    Mirrors M marks (mark :: marks) State.beginScope State.beginScope True := by
  apply mirrors_quiet
  · exact fun _ => ⟨rfl, rfl⟩
  · exact fun _ => ⟨rfl, rfl⟩
  intro s s' hs
  exact { hs with scopes := .cons (.empty M mark) hs.scopes }

/-- Opening a scope that holds `this` or `super` only. -/
theorem mirrors_beginImplicit {name : String} (hname : M.admits name) :
    Mirrors M marks (false :: marks) (fun s => s.beginScope.bindImplicit name)
      (fun s => s.beginScope.bindImplicit name) True := by
  apply mirrors_quiet
  · exact fun _ => ⟨rfl, rfl⟩
  · exact fun _ => ⟨rfl, rfl⟩
  intro s s' hs
  have hlocal : M.Locals ⟨none, .read, false⟩ ⟨none, .read, false⟩ := ⟨.none, rfl, rfl⟩
  have hscope := (Mirror.Scopes.empty M false).insert hname (M.rename_false name).symm hlocal
  exact { hs with scopes := .cons hscope hs.scopes }

/-- The locals of corresponding scopes that nothing has read. -/
theorem Mirror.Scopes.unused {scope scope' : Scope} (h : M.Scopes mark scope scope') :
    (State.unused scope = [] → State.unused scope' = []) ∧
      (M.verbatim → State.unused scope' = State.unused scope) := by
  have halike := h.alike
  unfold Table.Alike at halike
  unfold State.unused
  generalize scope.entries = entries at halike ⊢
  generalize scope'.entries = entries' at halike ⊢
  induction halike with
  | nil => exact ⟨fun _ => rfl, fun _ => rfl⟩
  | @cons entry entry' rest rest' hentry hrest ih =>
      obtain ⟨key, old⟩ := entry
      obtain ⟨key', old'⟩ := entry'
      obtain ⟨-, hlocal⟩ := hentry
      dsimp only at hlocal
      simp only [List.filterMap_cons, hlocal.progress, hlocal.mustBeRead]
      by_cases hunread : (old.mustBeRead && old.progress != .read) = true
      · simp only [if_pos hunread]
        rcases rel_cases hlocal.token with ⟨hleft, hright⟩ | ⟨t, t', hleft, hright, ht⟩
        · simp only [hleft, hright]
          exact ih
        · simp only [hleft, hright]
          exact ⟨nofun, fun hverbatim => by rw [ht hverbatim, ih.2 hverbatim]⟩
      · simp only [if_neg hunread]
        exact ih

theorem reportUnused_eq (tokens : List Token) (s : State) :
    State.reportUnused tokens s =
      { s with
        errors := s.errors ++ tokens.map fun token => ⟨.unusedLocal token.lexeme, token⟩ } := by
  unfold State.reportUnused
  induction tokens generalizing s with
  | nil => simp
  | cons token rest ih =>
      rw [List.foldl_cons, ih]
      simp [State.error]

theorem insertSorted_ne_nil (token : Token) (tokens : List Token) :
    State.insertSorted token tokens ≠ [] := by
  cases tokens with
  | nil => exact nofun
  | cons other rest =>
      unfold State.insertSorted
      split <;> exact nofun

theorem sortTokens_eq_nil {tokens : List Token} (h : State.sortTokens tokens = []) :
    tokens = [] := by
  cases tokens with
  | nil => rfl
  | cons token rest => exact absurd h (insertSorted_ne_nil token _)

theorem grown_endScope (s : State) : Grown s s.endScope := by
  unfold State.endScope
  split
  · exact Grown.refl s
  · rw [reportUnused_eq]
    exact ⟨List.prefix_refl _, List.prefix_append ..⟩

theorem mirrors_endScope : Mirrors M (mark :: marks) marks State.endScope State.endScope True where
  grows := grown_endScope
  grows' := grown_endScope
  states {s s'} hs _ := by
    refine ⟨?_, fun _ _ => trivial⟩
    have hstack := hs.scopes
    unfold State.endScope
    generalize hleft : s.scopes = scopes at hstack
    generalize hright : s'.scopes = scopes' at hstack
    cases hstack with
    | cons hscope hrest =>
        obtain ⟨hnone, hsame⟩ := hscope.unused
        simp only [reportUnused_eq]
        refine ⟨hrest, hs.functionKind, hs.classKind, hs.loopDepth, fun herrors => ?_,
          fun hverbatim => ?_, hs.bindings⟩
        · simp only [List.append_eq_nil_iff, List.map_eq_nil_iff] at herrors ⊢
          refine ⟨hs.errors herrors.1, ?_⟩
          rw [hnone (sortTokens_eq_nil herrors.2)]
          rfl
        · simp only [hs.verbatim hverbatim, hsame hverbatim]

/-- A part that is walked between the opening and the closing of a scope. -/
theorem Mirrors.scoped {opening opening' : State → State}
    (hopening : Mirrors M marks (mark :: marks) opening opening' True)
    (h : Mirrors M (mark :: marks) (mark :: marks) f g K) :
    Mirrors M marks marks (fun s => (f (opening s)).endScope)
      (fun s => (g (opening' s)).endScope) K :=
  ((hopening.comp h).comp mirrors_endScope).imp fun hall => hall.1.2

/-! ### Declaring -/

/-- Names that are taken in the innermost scope. -/
structure Mirror.Takes (M : Mirror) (mark : Bool) (t t' : Token) : Prop where
  lexeme : t'.lexeme = M.rename mark t.lexeme
  admits : M.admits t.lexeme
  verbatim : M.verbatim → t' = t

theorem Mirror.takes_of_declared {t t' : Token} (h : M.trees.declared mark t t') :
    M.Takes mark t t' :=
  ⟨(M.of_declared h).1, (M.of_declared h).2.1, (M.of_declared h).2.2⟩

theorem Mirror.takes_of_named {t t' : Token} (h : M.trees.named mark t t') : M.Takes mark t t' :=
  ⟨(M.of_named h).1, (M.of_named h).2.1, (M.of_named h).2.2⟩

theorem grown_declare (s : State) (name : Token) (mustBeRead : Bool) :
    Grown s (s.declare name mustBeRead) := by
  unfold State.declare
  split
  · exact Grown.refl s
  · split
    · exact grown_error s name _
    · exact ⟨List.prefix_refl _, List.prefix_refl _⟩

theorem mirrors_declare {t t' : Token} (ht : M.Takes (innermost marks) t t') (mustBeRead : Bool) :
    Mirrors M marks marks (fun s => s.declare t mustBeRead)
      (fun s => s.declare t' mustBeRead) True where
  grows s := grown_declare s t mustBeRead
  grows' s := grown_declare s t' mustBeRead
  states {s s'} hs _ := by
    refine ⟨?_, fun _ _ => trivial⟩
    have hstack := hs.scopes
    unfold State.declare
    generalize hleft : s.scopes = scopes at hstack
    generalize hright : s'.scopes = scopes' at hstack
    cases hstack with
    | nil => exact hs
    | @cons mark marks scope scope' outer outer' hscope hrest =>
        have hname : t'.lexeme = M.rename mark t.lexeme := ht.lexeme
        have hsame := hscope.alike.contains (hscope.distinguishes ht.admits hname fun _ => rfl)
        simp only [hsame]
        by_cases hfound : scope.contains t.lexeme = true
        · rw [if_pos hfound, if_pos hfound]
          exact hs.error _ ht.verbatim
        · rw [if_neg hfound, if_neg hfound]
          exact { hs with
            scopes := .cons (hscope.insert ht.admits hname ⟨.some ht.verbatim, rfl, rfl⟩) hrest }

theorem grown_define (s : State) (name : Token) : Grown s (s.define name) := by
  unfold State.define
  split
  · exact Grown.refl s
  · split
    · split <;> exact ⟨List.prefix_refl _, List.prefix_refl _⟩
    · exact Grown.refl s

theorem mirrors_define {t t' : Token} (ht : M.Takes (innermost marks) t t') :
    Mirrors M marks marks (fun s => s.define t) (fun s => s.define t') True where
  grows s := grown_define s t
  grows' s := grown_define s t'
  states {s s'} hs _ := by
    refine ⟨?_, fun _ _ => trivial⟩
    have hstack := hs.scopes
    unfold State.define
    generalize hleft : s.scopes = scopes at hstack
    generalize hright : s'.scopes = scopes' at hstack
    cases hstack with
    | nil => exact hs
    | @cons mark marks scope scope' outer outer' hscope hrest =>
        have hname : t'.lexeme = M.rename mark t.lexeme := ht.lexeme
        rcases rel_cases
          (hscope.alike.find? (hscope.distinguishes ht.admits hname fun _ => rfl)) with
          ⟨hentry, hentry'⟩ | ⟨entry, entry', hentry, hentry', hlocal⟩
        · simp only [hentry, hentry']
          exact hs
        · simp only [hentry, hentry', hlocal.progress]
          by_cases hdeclared : entry.progress = .declared
          · rw [if_pos hdeclared, if_pos hdeclared]
            exact { hs with
              scopes :=
                .cons (hscope.insert ht.admits hname ⟨hlocal.token, rfl, hlocal.mustBeRead⟩) hrest }
          · rw [if_neg hdeclared, if_neg hdeclared]
            exact hs

theorem mirrors_declareDefined {t t' : Token} (ht : M.Takes (innermost marks) t t') :
    Mirrors M marks marks (declareDefined t) (declareDefined t') True :=
  ((mirrors_declare ht true).comp (mirrors_define ht)).imp fun _ => trivial

theorem mirrors_declareParams {params params' : List Token}
    (h : List.Forall₂ (M.trees.declared (innermost marks)) params params') :
    Mirrors M marks marks (declareParams params) (declareParams params') True := by
  induction h with
  | nil => exact mirrors_id trivial
  | cons ht _ ih =>
      have hfirst := (mirrors_declare (Mirror.takes_of_declared ht) false).comp
        (mirrors_define (Mirror.takes_of_declared ht))
      exact (hfirst.comp ih).imp fun _ => trivial

/-! ### Kinds of class, function and loop -/

theorem mirrors_setClass (kind : ClassKind) :
    Mirrors M marks marks (fun s => { s with classKind := kind })
      (fun s => { s with classKind := kind }) True :=
  mirrors_quiet (fun _ => ⟨rfl, rfl⟩) (fun _ => ⟨rfl, rfl⟩) fun _ _ hs =>
    { hs with classKind := rfl }

theorem Mirrors.restoreClass (h : Mirrors M marks marks' f g K) :
    Mirrors M marks marks' (fun s => { f s with classKind := s.classKind })
      (fun s => { g s with classKind := s.classKind }) K where
  grows := h.grows
  grows' := h.grows'
  states hs hknown :=
    ⟨{ (h.states hs hknown).1 with classKind := hs.classKind }, (h.states hs hknown).2⟩

theorem Mirrors.inLoop (h : Mirrors M marks marks' f g K) :
    Mirrors M marks marks' (inLoop f) (inLoop g) K where
  grows s := h.grows s.openLoop
  grows' s := h.grows' s.openLoop
  states {s s'} hs hknown := by
    have hdeeper : M.States marks s.openLoop s'.openLoop :=
      { hs with loopDepth := congrArg (· + 1) hs.loopDepth }
    obtain ⟨hend, hK⟩ := h.states hdeeper hknown
    exact ⟨{ hend with loopDepth := congrArg (· - 1) hend.loopDepth }, hK⟩

theorem mirrors_enterFunction (kind : FunctionKind) {params params' : List Token}
    (h : List.Forall₂ (M.trees.declared mark) params params') :
    Mirrors M marks (mark :: marks) (enterFunction kind params)
      (enterFunction kind params') True := by
  have hkinds : Mirrors M marks marks (fun s => { s with functionKind := kind, loopDepth := 0 })
      (fun s => { s with functionKind := kind, loopDepth := 0 }) True :=
    mirrors_quiet (fun _ => ⟨rfl, rfl⟩) (fun _ => ⟨rfl, rfl⟩) fun _ _ hs =>
      { hs with functionKind := rfl, loopDepth := rfl }
  have hparams : Mirrors M (mark :: marks) (mark :: marks) (declareParams params)
      (declareParams params') True := mirrors_declareParams h
  exact ((hkinds.comp (mirrors_beginScope mark)).comp hparams).imp fun _ => trivial

/-- A function body is walked in a scope of its own and left for the place where it was entered. -/
theorem Mirrors.function (kind : FunctionKind) {params params' : List Token}
    (hparams : List.Forall₂ (M.trees.declared mark) params params')
    (h : Mirrors M (mark :: marks) (mark :: marks) f g K) :
    Mirrors M marks marks (fun s => leaveFunction s (f (enterFunction kind params s)))
      (fun s => leaveFunction s (g (enterFunction kind params' s))) K := by
  have hwhole := (mirrors_enterFunction kind hparams).scoped h
  exact ⟨hwhole.grows, hwhole.grows', fun hs hknown =>
    ⟨{ (hwhole.states hs hknown).1 with
      functionKind := hs.functionKind, loopDepth := hs.loopDepth }, (hwhole.states hs hknown).2⟩⟩

/-! ### Looking up -/

/-- Names that are looked up inside scopes with marks. -/
structure Mirror.Finds (M : Mirror) (marks : List Bool) (id : Nat) (t : Token) (id' : Nat)
    (t' : Token) : Prop where
  lexeme : t'.lexeme = M.rename (markAt marks (M.left id)) t.lexeme
  admits : M.admits t.lexeme
  ids : M.ids id id'
  verbatim : M.verbatim → t' = t

theorem Mirror.finds_of_occurrence {id id' : Nat} {t t' : Token}
    (h : M.trees.occurrence marks id t id' t') : M.Finds marks id t id' t' :=
  ⟨(M.of_occurrence h).1, (M.of_occurrence h).2.1, (M.of_occurrence h).2.2.1,
    (M.of_occurrence h).2.2.2⟩

theorem Mirror.finds_of_receiver {id id' : Nat} {t t' : Token}
    (h : M.trees.receiver marks id t id' t') : M.Finds marks id t id' t' :=
  ⟨(M.of_receiver h).1, (M.of_receiver h).2.1, (M.of_receiver h).2.2.1, (M.of_receiver h).2.2.2⟩

variable {id id' : Nat} {t t' : Token}

theorem grown_lookUp (s : State) (id : Nat) (name : String) (isRead : Bool) :
    Grown s (s.lookUp id name isRead) :=
  ⟨List.prefix_append .., List.prefix_refl _⟩

/-- What the table knows of an occurrence is where the name is bound. -/
theorem left_of_knows {s : State} {name : String} {isRead : Bool}
    (hknown : M.Knows (s.lookUp id name isRead)) :
    M.left id = State.distance? name s.scopes ∧ M.within id :=
  hknown ⟨id, name, State.distance? name s.scopes⟩
    (List.mem_append_right _ (List.mem_singleton_self _))

theorem mirrors_lookUp (h : M.Finds marks id t id' t') (isRead : Bool) :
    Mirrors M marks marks (fun s => s.lookUp id t.lexeme isRead)
      (fun s => s.lookUp id' t'.lexeme isRead) (M.Settles id id') where
  grows s := grown_lookUp s id t.lexeme isRead
  grows' s := grown_lookUp s id' t'.lexeme isRead
  states {s s'} hs hknown := by
    obtain ⟨hleft, hwithin⟩ := left_of_knows hknown
    have hname := h.lexeme
    rw [hleft] at hname
    have hsame := hs.scopes.distance? h.admits hname
    constructor
    · obtain ⟨later, hlater, hbindings⟩ := hs.bindings
      have hrecorded : ∃ later, (s'.lookUp id' t'.lexeme isRead).bindings = M.before ++ later ∧
          List.Forall₂ (fun b b' => M.ids b.id b'.id ∧ b'.distance = b.distance)
          (s.lookUp id t.lexeme isRead).bindings later := by
        refine ⟨later ++ [⟨id', t'.lexeme, State.distance? t'.lexeme s'.scopes⟩], ?_,
          List.rel_append hbindings (.cons ⟨h.ids, hsame⟩ .nil)⟩
        rw [← List.append_assoc, ← hlater]
        rfl
      refine { hs with scopes := ?_, bindings := hrecorded }
      show M.Stacks marks (if isRead then State.markRead t.lexeme s.scopes else s.scopes)
        (if isRead then State.markRead t'.lexeme s'.scopes else s'.scopes)
      cases isRead with
      | true => exact hs.scopes.markRead h.admits hname
      | false => exact hs.scopes
    · intro _ hright
      have hfound := hright ⟨id', t'.lexeme, State.distance? t'.lexeme s'.scopes⟩
        (List.mem_append_right _ (List.mem_singleton_self _))
      refine ⟨?_, hwithin⟩
      rw [hleft, ← hsame]
      exact hfound

/-- A name is in its own initializer on both sides or on neither. -/
theorem Mirror.States.inOwnInitializer {s s' : State} (hs : M.States marks s s')
    {name name' : String} (hname : M.admits name)
    (hname' : name' = M.rename (markAt marks (State.distance? name s.scopes)) name) :
    s'.inOwnInitializer name' = s.inOwnInitializer name := by
  have hstack := hs.scopes
  unfold State.inOwnInitializer
  generalize s.scopes = scopes at hstack hname' ⊢
  generalize s'.scopes = scopes' at hstack ⊢
  cases hstack with
  | nil => rfl
  | @cons mark marks scope scope' outer outer' hscope hrest =>
      have hdistinct : Table.Distinguishes (M.rename mark) scope name name' := by
        apply hscope.distinguishes hname hname'
        intro hmem
        rw [State.distance?, if_pos ((Table.contains_iff_mem_names ..).2 hmem)]
        rfl
      rcases rel_cases (hscope.alike.find? hdistinct) with
        ⟨hleft, hright⟩ | ⟨entry, entry', hleft, hright, hentry⟩
      · simp only [hleft, hright]
      · simp only [hleft, hright, hentry.progress]

theorem grown_resolveVariable (s : State) (id : Nat) (name : Token) :
    Grown s (resolveVariable id name s) := by
  unfold resolveVariable
  dsimp only
  split
  · exact (grown_error s name _).trans (grown_lookUp ..)
  · exact grown_lookUp ..

theorem mirrors_resolveVariable (h : M.Finds marks id t id' t') :
    Mirrors M marks marks (resolveVariable id t) (resolveVariable id' t') (M.Settles id id') where
  grows s := grown_resolveVariable s id t
  grows' s := grown_resolveVariable s id' t'
  states {s s'} hs hknown := by
    -- an error does not change the scopes, so where the name is bound does not depend on the check
    -- before
    have hleft : M.left id = State.distance? t.lexeme s.scopes := by
      have hfound := (left_of_knows hknown).1
      split at hfound <;> exact hfound
    have hname := h.lexeme
    rw [hleft] at hname
    unfold resolveVariable at hknown ⊢
    dsimp only at hknown ⊢
    rw [hs.inOwnInitializer h.admits hname]
    by_cases hown : s.inOwnInitializer t.lexeme = true
    · rw [if_pos hown] at hknown ⊢
      rw [if_pos hown]
      exact (mirrors_lookUp h true).states (hs.error _ h.verbatim) hknown
    · rw [if_neg hown] at hknown ⊢
      rw [if_neg hown]
      exact (mirrors_lookUp h true).states hs hknown

/-- A choice that the states do not tell apart. -/
theorem Mirrors.ite {c : State → Prop} [DecidablePred c]
    (hc : ∀ {s s'}, M.States marks s s' → (c s' ↔ c s)) (h : Mirrors M marks marks' f g K)
    (h₂ : Mirrors M marks marks' f₂ g₂ K) :
    Mirrors M marks marks' (fun s => if c s then f s else f₂ s)
      (fun s => if c s then g s else g₂ s) K where
  grows s := by
    split
    · exact h.grows s
    · exact h₂.grows s
  grows' s := by
    split
    · exact h.grows' s
    · exact h₂.grows' s
  states {s s'} hs hknown := by
    simp only [hc hs]
    by_cases hchoice : c s
    · simp only [if_pos hchoice] at hknown ⊢
      exact h.states hs hknown
    · simp only [if_neg hchoice] at hknown ⊢
      exact h₂.states hs hknown

theorem mirrors_resolveThis (h : M.Finds marks id t id' t') :
    Mirrors M marks marks (resolveThis id t) (resolveThis id' t') (M.Settles id id') :=
  .ite (fun hs => by rw [hs.classKind]) (mirrors_error _ h.verbatim) (mirrors_lookUp h true)

theorem mirrors_resolveSuper (h : M.Finds marks id t id' t') :
    Mirrors M marks marks (resolveSuper id t) (resolveSuper id' t') (M.Settles id id') := by
  have hkinds : ∀ (id : Nat) (t : Token) (s : State), resolveSuper id t s =
      if s.classKind = .none then s.error t .superOutsideClass
      else if s.classKind = .plain then s.error t .superWithoutSuperclass
      else s.lookUp id t.lexeme true := by
    intro id t s
    unfold resolveSuper
    cases s.classKind <;> rfl
  have hinner := Mirrors.ite (fun hs => by rw [hs.classKind])
    (mirrors_error (K := M.Settles id id') .superWithoutSuperclass h.verbatim)
    (mirrors_lookUp h true) (c := fun s => s.classKind = .plain)
  have houter := Mirrors.ite (fun hs => by rw [hs.classKind])
    (mirrors_error .superOutsideClass h.verbatim) hinner
    (c := fun s => s.classKind = .none)
  exact houter.of_eq (hkinds id t) (hkinds id' t')

/-! ### Checks -/

theorem mirrors_checkReturn {keyword keyword' : Token} (hkeyword : M.trees.token keyword keyword')
    (hasValue : Bool) :
    Mirrors M marks marks (checkReturn keyword hasValue) (checkReturn keyword' hasValue) True := by
  have htop : Mirrors M marks marks
      (fun s => if s.functionKind = .none then s.error keyword .returnAtTopLevel else s)
      (fun s => if s.functionKind = .none then s.error keyword' .returnAtTopLevel else s) True :=
    mirrors_report _ (M.of_token hkeyword).2 fun s s' hs => by simp [hs.functionKind]
  have hvalue : Mirrors M marks marks
      (fun s => if hasValue && s.functionKind == .initializer then
        s.error keyword .valueFromInitializer else s)
      (fun s => if hasValue && s.functionKind == .initializer then
        s.error keyword' .valueFromInitializer else s) True :=
    mirrors_report _ (M.of_token hkeyword).2 fun s s' hs => by simp [hs.functionKind]
  exact (htop.comp hvalue).imp fun _ => trivial

theorem mirrors_jump {keyword keyword' : Token} (hkeyword : M.trees.token keyword keyword')
    (kind : Jump) :
    Mirrors M marks marks
      (fun s => if s.loopDepth = 0 then s.error keyword (.jumpOutsideLoop kind) else s)
      (fun s => if s.loopDepth = 0 then s.error keyword' (.jumpOutsideLoop kind) else s) True :=
  mirrors_report _ (M.of_token hkeyword).2 fun s s' hs => by simp [hs.loopDepth]

/-- A class that does not inherit from its own name still does not when both names are changed. -/
theorem mirrors_checkSuperclass {name name' : Token}
    (hname : M.trees.named (innermost marks) name name') {parent parent' : Expr}
    (hparent : Expr.Alike M.trees marks parent parent') :
    Mirrors M marks marks (checkSuperclass name parent) (checkSuperclass name' parent') True := by
  cases hparent with
  | @«variable» _ id id' t t' h =>
      have hfinds := Mirror.finds_of_occurrence h
      have htakes := Mirror.takes_of_named hname
      apply mirrors_report .inheritsFromItself hfinds.verbatim
      intro s s' _
      constructor
      · intro hsame
        rw [hfinds.lexeme, htakes.lexeme] at hsame
        exact M.injective hfinds.admits htakes.admits hsame
      · intro hverbatim hsame
        rw [hfinds.verbatim hverbatim, htakes.verbatim hverbatim]
        exact hsame
  | _ => exact mirrors_id trivial

/-! ### Trees -/

theorem key_eq {decl decl' : FunctionDecl} (h : FunctionDecl.Alike M.trees marks decl decl') :
    decl'.key = decl.key := by
  cases h with
  | intro _ hname _ _ =>
      rcases rel_cases hname with ⟨rfl, rfl⟩ | ⟨t, t', rfl, rfl, ht⟩
      · rfl
      · exact (M.of_token ht).1

theorem methodKind_eq {decl decl' : FunctionDecl}
    (h : FunctionDecl.Alike M.trees marks decl decl') : methodKind decl' = methodKind decl := by
  unfold methodKind
  rw [key_eq h]

/-- The members of a class, around which there is a scope that holds `this`. -/
theorem mirrors_members (traits traits' : List Expr)
    {decls decls' classDecls classDecls' : List FunctionDecl}
    (hmethods : Mirrors M (false :: marks) (false :: marks) (methods decls) (methods decls') K)
    (hclassMethods : Mirrors M (false :: marks) (false :: marks) (classMethods classDecls)
      (classMethods classDecls') K₂) :
    Mirrors M marks marks (members ⟨traits, decls, classDecls⟩)
      (members ⟨traits', decls', classDecls'⟩) (K ∧ K₂) :=
  ((mirrors_beginImplicit M.admits_this).scoped (hmethods.comp hclassMethods)).of_eq
    (fun s => by rw [members]) fun s => by rw [members]

mutual

theorem mirrors_expr : {marks : List Bool} → {e e' : Expr} → Expr.Alike M.trees marks e e' →
    Mirrors M marks marks (expr e) (expr e') (Expr.Alike M.resolved marks e e')
  | _, _, _, .literal => (mirrors_id .literal).of_eq (fun s => by rw [expr]) fun s => by rw [expr]
  | _, _, _, .group h =>
    ((mirrors_expr h).imp .group).of_eq (fun s => by rw [expr]) fun s => by rw [expr]
  | _, _, _, .unary hoperator hright =>
    ((mirrors_expr hright).imp (.unary hoperator)).of_eq (fun s => by rw [expr]) fun s => by
      rw [expr]
  | _, _, _, .binary hleft hoperator hright =>
    (((mirrors_expr hleft).comp (mirrors_expr hright)).imp fun h => .binary h.1 hoperator h.2).of_eq
      (fun s => by rw [expr]) fun s => by rw [expr]
  | _, _, _, .logical hleft hoperator hright =>
    (((mirrors_expr hleft).comp (mirrors_expr hright)).imp fun h =>
      .logical h.1 hoperator h.2).of_eq (fun s => by rw [expr]) fun s => by rw [expr]
  | _, _, _, .conditional ha hb hc => by
    have hall := ((mirrors_expr ha).comp (mirrors_expr hb)).comp (mirrors_expr hc)
    exact (hall.imp fun h => .conditional h.1.1 h.1.2 h.2).of_eq (fun s => by rw [expr]) fun s => by
      rw [expr]
  | _, _, _, .variable h =>
    ((mirrors_resolveVariable (Mirror.finds_of_occurrence h)).imp
      fun hsame => .variable ⟨h, hsame⟩).of_eq (fun s => by rw [expr]) fun s => by rw [expr]
  | _, _, _, .assign h hvalue => by
    have hall := (mirrors_expr hvalue).comp (mirrors_lookUp (Mirror.finds_of_occurrence h) false)
    exact (hall.imp fun hboth => .assign ⟨h, hboth.2⟩ hboth.1).of_eq (fun s => by rw [expr])
      fun s => by rw [expr]
  | _, _, _, .call hcallee hparen harguments =>
    (((mirrors_expr hcallee).comp (mirrors_exprs harguments)).imp fun h =>
      .call h.1 hparen h.2).of_eq (fun s => by rw [expr]) fun s => by rw [expr]
  | _, _, _, .function h =>
    ((mirrors_function .function h).imp .function).of_eq (fun s => by rw [expr]) fun s => by
      rw [expr]
  | _, _, _, .get hobject hname =>
    ((mirrors_expr hobject).imp fun h => .get h hname).of_eq (fun s => by rw [expr]) fun s => by
      rw [expr]
  | _, _, _, .set hobject hname hvalue =>
    (((mirrors_expr hvalue).comp (mirrors_expr hobject)).imp fun h => .set h.2 hname h.1).of_eq
      (fun s => by rw [expr]) fun s => by rw [expr]
  | _, _, _, .this h =>
    ((mirrors_resolveThis (Mirror.finds_of_receiver h)).imp fun hsame => .this ⟨h, hsame⟩).of_eq
      (fun s => by rw [expr]) fun s => by rw [expr]
  | _, _, _, .super h hmethod =>
    ((mirrors_resolveSuper (Mirror.finds_of_receiver h)).imp
      fun hsame => .super ⟨h, hsame⟩ hmethod).of_eq (fun s => by rw [expr])
      fun s => by rw [expr]

theorem mirrors_exprs :
    {marks : List Bool} → {es es' : List Expr} → Expr.AlikeAll M.trees marks es es' →
    Mirrors M marks marks (exprs es) (exprs es') (Expr.AlikeAll M.resolved marks es es')
  | _, _, _, .nil => (mirrors_id .nil).of_eq (fun s => by rw [exprs]) fun s => by rw [exprs]
  | _, _, _, .cons h hrest =>
    (((mirrors_expr h).comp (mirrors_exprs hrest)).imp fun hall => .cons hall.1 hall.2).of_eq
      (fun s => by rw [exprs]) fun s => by rw [exprs]

theorem mirrors_expr? :
    {marks : List Bool} → {e e' : Option Expr} → Expr.Alike? M.trees marks e e' →
    Mirrors M marks marks (expr? e) (expr? e') (Expr.Alike? M.resolved marks e e')
  | _, _, _, .none => (mirrors_id .none).of_eq (fun s => by rw [expr?]) fun s => by rw [expr?]
  | _, _, _, .some h =>
    ((mirrors_expr h).imp .some).of_eq (fun s => by rw [expr?]) fun s => by rw [expr?]

theorem mirrors_function (kind : FunctionKind) :
    {marks : List Bool} → {decl decl' : FunctionDecl} →
      FunctionDecl.Alike M.trees marks decl decl' →
    Mirrors M marks marks (function kind decl) (function kind decl')
      (FunctionDecl.Alike M.resolved marks decl decl')
  | _, _, _, .intro mark hname hparams hbody =>
    (((mirrors_stmts hbody).function kind hparams).imp fun h => .intro mark hname hparams h).of_eq
      (fun s => by rw [function]) fun s => by rw [function]

theorem mirrors_methods :
    {marks : List Bool} → {decls decls' : List FunctionDecl} →
      FunctionDecl.AlikeAll M.trees marks decls decls' →
    Mirrors M marks marks (methods decls) (methods decls')
      (FunctionDecl.AlikeAll M.resolved marks decls decls')
  | _, _, _, .nil => (mirrors_id .nil).of_eq (fun s => by rw [methods]) fun s => by rw [methods]
  | _, _, _, @FunctionDecl.AlikeAll.cons _ _ decl _ _ _ h hrest =>
    (((mirrors_function (methodKind decl) h).comp (mirrors_methods hrest)).imp fun hall =>
      .cons hall.1 hall.2).of_eq (fun s => by rw [methods])
      fun s => by rw [methods, methodKind_eq h]

theorem mirrors_classMethods :
    {marks : List Bool} → {decls decls' : List FunctionDecl} →
      FunctionDecl.AlikeAll M.trees marks decls decls' →
    Mirrors M marks marks (classMethods decls) (classMethods decls')
      (FunctionDecl.AlikeAll M.resolved marks decls decls')
  | _, _, _, .nil => (mirrors_id .nil).of_eq (fun s => by rw [classMethods]) fun s => by
    rw [classMethods]
  | _, _, _, .cons h hrest =>
    (((mirrors_function .method h).comp (mirrors_classMethods hrest)).imp fun hall =>
      .cons hall.1 hall.2).of_eq (fun s => by rw [classMethods])
      fun s => by rw [classMethods]

theorem mirrors_stmt :
    {marks : List Bool} → {statement statement' : Stmt} →
      Stmt.Alike M.trees marks statement statement' →
    Mirrors M marks marks (stmt statement) (stmt statement')
      (Stmt.Alike M.resolved marks statement statement')
  | _, _, _, .expression h =>
    ((mirrors_expr h).imp .expression).of_eq (fun s => by rw [stmt]) fun s => by rw [stmt]
  | _, _, _, .print h =>
    ((mirrors_expr h).imp .print).of_eq (fun s => by rw [stmt]) fun s => by rw [stmt]
  | _, _, _, .variable hname hinitial => by
    have htakes := Mirror.takes_of_declared hname
    have hall :=
      ((mirrors_declare htakes true).comp (mirrors_expr? hinitial)).comp (mirrors_define htakes)
    exact (hall.imp fun h => .variable hname h.1.2).of_eq (fun s => by rw [stmt]) fun s => by
      rw [stmt]
  | _, _, _, .block mark h =>
    (((mirrors_beginScope mark).scoped (mirrors_stmts h)).imp (.block mark)).of_eq
      (fun s => by rw [stmt]) fun s => by rw [stmt]
  | _, _, _, .ifElse hcondition hthen helse => by
    have hall := ((mirrors_expr hcondition).comp (mirrors_stmt hthen)).comp (mirrors_stmt? helse)
    exact (hall.imp fun h => .ifElse h.1.1 h.1.2 h.2).of_eq (fun s => by rw [stmt]) fun s => by
      rw [stmt]
  | _, _, _, .whileLoop hcondition hbody => by
    have hall := (mirrors_expr hcondition).comp (mirrors_stmt hbody).inLoop
    exact (hall.imp fun h => .whileLoop h.1 h.2).of_eq (fun s => by rw [stmt]) fun s => by rw [stmt]
  | _, _, _, .forLoop mark hinitial hcondition hincrement hbody => by
    have hclauses :=
      ((mirrors_stmt? hinitial).comp (mirrors_expr? hcondition)).comp (mirrors_expr? hincrement)
    have hall := (mirrors_beginScope mark).scoped (hclauses.comp (mirrors_stmt hbody).inLoop)
    exact (hall.imp fun h => .forLoop mark h.1.1.1 h.1.1.2 h.1.2 h.2).of_eq (fun s => by rw [stmt])
      fun s => by rw [stmt]
  | _, _, _, .jump hkeyword =>
    ((mirrors_jump hkeyword _).imp fun _ => .jump hkeyword).of_eq (fun s => by rw [stmt])
      fun s => by rw [stmt]
  | _, _, _, .function hname h => by
    rcases rel_cases hname with ⟨hleft, hright⟩ | ⟨t, t', hleft, hright, ht⟩
    · exact ((mirrors_function .function h).imp (.function hname)).of_eq
        (fun s => by rw [stmt, hleft]) fun s => by rw [stmt, hright]
    · have hall :=
        (mirrors_declareDefined (Mirror.takes_of_named ht)).comp (mirrors_function .function h)
      exact (hall.imp fun hboth => .function hname hboth.2).of_eq (fun s => by rw [stmt, hleft])
        fun s => by rw [stmt, hright]
  | _, _, _, .returnValue hkeyword (.none) =>
    ((mirrors_checkReturn hkeyword false).imp fun _ => .returnValue hkeyword .none).of_eq
      (fun s => by rw [stmt, expr?]; rfl) fun s => by rw [stmt, expr?]; rfl
  | _, _, _, .returnValue hkeyword (.some h) => by
    have hall := (mirrors_checkReturn hkeyword true).comp (mirrors_expr h)
    exact (hall.imp fun hboth => .returnValue hkeyword (.some hboth.2)).of_eq
      (fun s => by rw [stmt, expr?]; rfl) fun s => by rw [stmt, expr?]; rfl
  | _, _, _, .classDecl hname
      (@ClassBody.Alike.intro _ _ _ traits traits' _ _ _ _ htraits hmethods hclassMethods) => by
    have hinside :=
      (mirrors_setClass .plain).comp (mirrors_declareDefined (Mirror.takes_of_named hname))
    have hall :=
      (hinside.comp (mirrors_exprs htraits)).comp
        (mirrors_members traits traits' (mirrors_methods hmethods)
          (mirrors_classMethods hclassMethods))
    exact (hall.restoreClass.imp fun h => .classDecl hname (.intro h.1.2 h.2.1 h.2.2)).of_eq
      (fun s => by rw [stmt, uses]) fun s => by rw [stmt, uses]
  | _, _, _, .subclassDecl hname hparent
      (@ClassBody.Alike.intro _ _ _ traits traits' _ _ _ _ htraits hmethods hclassMethods) => by
    have hinside :=
      (mirrors_setClass .plain).comp (mirrors_declareDefined (Mirror.takes_of_named hname))
    have hchecked :=
      (hinside.comp (mirrors_checkSuperclass hname hparent)).comp (mirrors_setClass .subclass)
    have hnames := (hchecked.comp (mirrors_expr hparent)).comp (mirrors_exprs htraits)
    have hmembers :=
      (mirrors_beginImplicit M.admits_super).scoped
        (mirrors_members traits traits' (mirrors_methods hmethods)
          (mirrors_classMethods hclassMethods))
    have hall := (hnames.comp hmembers).restoreClass
    exact (hall.imp fun h => .subclassDecl hname h.1.1.2 (.intro h.1.2 h.2.1 h.2.2)).of_eq
      (fun s => by rw [stmt, uses]) fun s => by rw [stmt, uses]
  | _, _, _, .traitDecl hname
      (@ClassBody.Alike.intro _ _ _ traits traits' _ _ _ _ htraits hmethods hclassMethods) => by
    have hinside :=
      (mirrors_declareDefined (Mirror.takes_of_named hname)).comp (mirrors_setClass .plain)
    have hall :=
      (hinside.comp (mirrors_exprs htraits)).comp
        (mirrors_members traits traits' (mirrors_methods hmethods)
          (mirrors_classMethods hclassMethods))
    exact (hall.restoreClass.imp fun h => .traitDecl hname (.intro h.1.2 h.2.1 h.2.2)).of_eq
      (fun s => by rw [stmt, uses]) fun s => by rw [stmt, uses]

theorem mirrors_stmts :
    {marks : List Bool} → {statements statements' : List Stmt} →
      Stmt.AlikeAll M.trees marks statements statements' →
    Mirrors M marks marks (stmts statements) (stmts statements')
      (Stmt.AlikeAll M.resolved marks statements statements')
  | _, _, _, .nil => (mirrors_id .nil).of_eq (fun s => by rw [stmts]) fun s => by rw [stmts]
  | _, _, _, .cons h hrest =>
    (((mirrors_stmt h).comp (mirrors_stmts hrest)).imp fun hall => .cons hall.1 hall.2).of_eq
      (fun s => by rw [stmts]) fun s => by rw [stmts]

theorem mirrors_stmt? :
    {marks : List Bool} → {statement statement' : Option Stmt} →
      Stmt.Alike? M.trees marks statement statement' →
    Mirrors M marks marks (stmt? statement) (stmt? statement')
      (Stmt.Alike? M.resolved marks statement statement')
  | _, _, _, .none => (mirrors_id .none).of_eq (fun s => by rw [stmt?]) fun s => by rw [stmt?]
  | _, _, _, .some h =>
    ((mirrors_stmt h).imp .some).of_eq (fun s => by rw [stmt?]) fun s => by rw [stmt?]

end

theorem Mirror.states_initial (M : Mirror) : M.States [] {} { bindings := M.before } :=
  ⟨.nil, rfl, rfl, rfl, fun _ => rfl, fun _ => rfl, [], (List.append_nil _).symm, .nil⟩

/-- Top-level code, walked on the right after other code has been. -/
theorem states_stmts (M : Mirror) {statements statements' : List Stmt}
    (h : Stmt.AlikeAll M.trees [] statements statements') (hknown : M.Knows (stmts statements {})) :
    M.States [] (stmts statements {}) (stmts statements' { bindings := M.before }) ∧
      ((stmts statements {}).errors = [] →
        Recorded M.right (stmts statements' { bindings := M.before }) →
        Stmt.AlikeAll M.resolved [] statements statements') :=
  (mirrors_stmts h).states M.states_initial hknown

end Resolve

open Resolve

/-- What resolving finds in two programs that are alike, if the left table knows what it finds in
the first. -/
structure Resolution.Alike (M : Mirror) (statements statements' : List Stmt) : Prop where
  accepted : (resolve statements).errors = [] → (resolve statements').errors = []
  verbatim : M.verbatim → (resolve statements').errors = (resolve statements).errors
  bindings : List.Forall₂ (fun b b' => M.ids b.id b'.id ∧ b'.distance = b.distance)
      (resolve statements).bindings (resolve statements').bindings
  resolved : (resolve statements).errors = [] →
      (∀ b ∈ (resolve statements').bindings, M.right b.id = b.distance) →
    Stmt.AlikeAll M.resolved [] statements statements'

theorem resolve_alike (M : Mirror) (hbefore : M.before = []) {statements statements' : List Stmt}
    (h : Stmt.AlikeAll M.trees [] statements statements')
    (hknown : ∀ b ∈ (resolve statements).bindings, M.left b.id = b.distance ∧ M.within b.id) :
    Resolution.Alike M statements statements' := by
  have hboth := states_stmts M h hknown
  rw [hbefore] at hboth
  obtain ⟨hstates, hresolved⟩ := hboth
  obtain ⟨later, hlater, hbindings⟩ := hstates.bindings
  rw [hbefore, List.nil_append] at hlater
  subst hlater
  exact ⟨hstates.errors, hstates.verbatim, hbindings, hresolved⟩

end TraitScript
