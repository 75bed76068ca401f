import TraitScript.Proofs.Eval.Watch
import TraitScript.Proofs.Method.Declare
import TraitScript.Proofs.Table.Distinct
import TraitScript.Session

/-!
# Merging the traits of a declaration

The traits that a class or trait uses are merged one after another, entry by entry, and merging
stops at the first name that is already there. All that decides is how many places of the list
provide a name: merging fails if and only if some name is provided twice, and what comes out is then
the same for every order of the list and of the entries in each table.
-/

namespace TraitScript

open Eval

namespace Trait

/-- Neither table of the trait has a name twice. -/
def Distinct (t : Trait) : Prop := ∀ kind, (t.table kind).Distinct

/-- At how many places of a list there is a trait that provides a name; a trait that is listed twice
counts twice. -/
def providers (kind : MethodKind) (name : String) (used : List Trait) : Nat :=
  used.countP fun t => (t.table kind).contains name

theorem providers_cons (kind : MethodKind) (name : String) (t : Trait) (rest : List Trait) :
    providers kind name (t :: rest) =
      ((t.table kind).contains name).toNat + providers kind name rest := by
  rw [providers, List.countP_cons, Nat.add_comm, providers]
  cases (t.table kind).contains name <;> rfl

/-- The same trait but for the order of the entries in its tables. -/
def Reordered (t t' : Trait) : Prop := ∀ kind, (t'.table kind).entries.Perm (t.table kind).entries

/-- The traits of one list at other places of another, each perhaps with its entries in another
order. -/
def Rearranged (used used' : List Trait) : Prop :=
  ∃ between, used.Perm between ∧ List.Forall₂ Reordered between used'

namespace Rearranged

variable {used used' : List Trait}

/-- What holds of all traits of a list, whatever the order of their entries, holds of those of the
other. -/
theorem forall_mem (h : Rearranged used used') {P : Trait → Prop} (hused : ∀ t ∈ used, P t)
    (hP : ∀ {t t'}, P t → Reordered t t' → P t') :
    ∀ t ∈ used', P t := by
  obtain ⟨between, hperm, hreordered⟩ := h
  have hbetween : ∀ t ∈ between, P t := fun t ht => hused t (hperm.mem_iff.2 ht)
  clear hperm
  induction hreordered with
  | nil => simp
  | cons hfirst _ ih =>
      obtain ⟨hP', hrest⟩ := List.forall_mem_cons.1 hbetween
      exact List.forall_mem_cons.2 ⟨hP hP' hfirst, ih hrest⟩

theorem distinct (h : Rearranged used used') (hused : ∀ t ∈ used, t.Distinct) :
    ∀ t ∈ used', t.Distinct :=
  h.forall_mem hused fun ht hreordered kind => (ht kind).of_perm (hreordered kind)

theorem providers_eq (h : Rearranged used used') (hused : ∀ t ∈ used, t.Distinct)
    (kind : MethodKind) (name : String) :
    providers kind name used' = providers kind name used := by
  obtain ⟨between, hperm, hreordered⟩ := h
  rw [providers, providers, hperm.countP_eq]
  have hbetween : ∀ t ∈ between, t.Distinct := fun t ht => hused t (hperm.mem_iff.2 ht)
  clear hperm
  induction hreordered with
  | nil => rfl
  | cons hfirst _ ih =>
      obtain ⟨hdistinct, hrest⟩ := List.forall_mem_cons.1 hbetween
      rw [List.countP_cons, List.countP_cons, ih hrest, Table.contains,
        (hdistinct kind).find?_of_perm (hfirst kind), Table.contains]

/-- A method that one of the traits holds is held by one of the others. -/
theorem exists_find? (h : Rearranged used used') (hused : ∀ t ∈ used, t.Distinct)
    (kind : MethodKind) (name : String) (method : Closure) :
    (∃ t ∈ used', (t.table kind).find? name = some method) ↔
      ∃ t ∈ used, (t.table kind).find? name = some method := by
  obtain ⟨between, hperm, hreordered⟩ := h
  simp only [hperm.mem_iff]
  have hbetween : ∀ t ∈ between, t.Distinct := fun t ht => hused t (hperm.mem_iff.2 ht)
  clear hperm
  induction hreordered with
  | nil => simp
  | cons hfirst _ ih =>
      obtain ⟨hdistinct, hrest⟩ := List.forall_mem_cons.1 hbetween
      simp only [List.exists_mem_cons_iff, ih hrest]
      rw [(hdistinct kind).find?_of_perm (hfirst kind)]

end Rearranged

end Trait

theorem MethodTable.Joins.toNat_contains {first second joined : MethodTable}
    (h : MethodTable.Joins first second joined) (name : String) :
    (Table.contains joined name).toNat =
      (Table.contains first name).toNat + (Table.contains second name).toNat := by
  rw [Table.contains, Table.contains, Table.contains, h.find?]
  rcases h.apart name with hnone | hnone <;> rw [hnone] <;> simp

namespace Eval

/-! ### One trait -/

/-- Merging stops at a name that both have. -/
theorem merge_error {line : Option Nat} {conflict : String → RuntimeError.Cause}
    {entries : List (String × Closure)} {table : MethodTable} {m m' : Machine} {stop : Stop}
    (hdistinct : Table.Distinct ⟨entries⟩)
    (herror : merge line conflict entries table m = .error stop m') :
    ∃ name, stop = .error ⟨conflict name, line⟩ ∧ table.contains name = true ∧
      Table.contains ⟨entries⟩ name = true := by
  induction entries generalizing table with
  | nil => cases herror
  | cons entry rest ih =>
      obtain ⟨name, method⟩ := entry
      obtain ⟨hnew, hrest⟩ := List.nodup_cons.1 hdistinct
      rw [merge] at herror
      split at herror
      next hold =>
        cases herror
        exact ⟨name, rfl, hold, by simp [Table.contains, Table.find?, Table.lookup]⟩
      next =>
        obtain ⟨other, hstop, hother, hmem⟩ := ih hrest herror
        -- the rest does not have the name that was just inserted
        have hne : ¬ name = other :=
          fun heq => hnew (heq ▸ (Table.contains_iff_mem_names _ _).1 hmem)
        refine ⟨other, hstop, by simpa [hne] using hother, ?_⟩
        simpa [Table.contains, Table.find?, Table.lookup, hne] using hmem

/-- In whatever order the table is walked, the name that it stops at is one that both have. -/
theorem mergeTable_error {line : Option Nat} {conflict : String → RuntimeError.Cause} {used : Trait}
    {ofClass : Bool} {theirs table : MethodTable} {m m' : Machine} {stop : Stop}
    (hdistinct : theirs.Distinct)
    (herror : mergeTable line conflict used ofClass theirs table m = .error stop m') :
    ∃ name, stop = .error ⟨conflict name, line⟩ ∧ table.contains name = true ∧
      theirs.contains name = true := by
  obtain ⟨name, hstop, htable, htheirs⟩ := merge_error (hdistinct.arrange _) herror
  refine ⟨name, hstop, htable, ?_⟩
  rw [← htheirs]
  exact congrArg Option.isSome (Table.find?_arrange _ theirs name).symm

/-- Inserting repeats no name. -/
theorem distinct_of_merge {line : Option Nat} {conflict : String → RuntimeError.Cause}
    {entries : List (String × Closure)} {table joined : MethodTable} {m m' : Machine}
    (hok : merge line conflict entries table m = .ok joined m') (htable : table.Distinct) :
    joined.Distinct := by
  induction entries generalizing table with
  | nil =>
      cases hok
      exact htable
  | cons entry rest ih =>
      obtain ⟨name, method⟩ := entry
      rw [merge] at hok
      split at hok
      next => cases hok
      next => exact ih hok (htable.insert name method)

theorem distinct_withMethods (frame : FrameId) (isInitializer : String → Bool)
    (decls : List FunctionDecl) (nextId : Nat) {table : MethodTable} (htable : table.Distinct) :
    (withMethods frame isInitializer decls nextId table).Distinct := by
  induction decls generalizing nextId table with
  | nil => exact htable
  | cons decl rest ih => exact ih (nextId + 1) (htable.insert decl.key _)

/-! ### All traits -/

variable {self : Evaluators} {exprs : List Expr} {used : List Trait} {m m' : Machine}

/-- The first trait of a list was evaluated before the others. -/
theorem mapM_cons_eq_ok {α β : Type} {f : α → Eval β} {a : α} {rest : List α} {bs : List β}
    {m m' : Machine} (h : (a :: rest).mapM f m = .ok bs m') :
    ∃ b between cs, f a m = .ok b between ∧ rest.mapM f between = .ok cs m' ∧ bs = b :: cs := by
  simp only [List.mapM_cons, Bind.bind, EStateM.bind] at h
  split at h
  next b between hfirst =>
    split at h
    next cs _ hrest =>
      cases h
      exact ⟨b, between, cs, hfirst, hrest, rfl⟩
    next => cases h
  next => cases h

/-- How often a name is there when the traits of a list are added to some members. -/
def Members.provided (before : Members) (used : List Trait) (kind : MethodKind) (name : String) :
    Nat :=
  ((before.table kind).contains name).toNat + Trait.providers kind name used

theorem Members.provided_cons {before between : Members} {t : Trait} {kind : MethodKind}
    (hjoins : MethodTable.Joins (before.table kind) (t.table kind) (between.table kind))
    (rest : List Trait) (name : String) :
    before.provided (t :: rest) kind name = between.provided rest kind name := by
  rw [provided, provided, Trait.providers_cons, hjoins.toNat_contains, Nat.add_assoc]

/-- In what could be gathered a name is there as often as it is provided, so at most once. -/
theorem Members.Gathers.toNat_contains {before after : Members} (h : before.Gathers used after)
    (kind : MethodKind) (name : String) :
    ((after.table kind).contains name).toNat = before.provided used kind name := by
  induction h with
  | nil => rfl
  | cons hjoins _ _ ih => rw [ih, Members.provided_cons (hjoins kind)]

/-- The traits of a list are gathered, or there is an error at a name that comes up a second
time. -/
theorem useTraits_cases (htraits : exprs.mapM (evaluateTrait self) m = .ok used m')
    (hdistinct : ∀ t ∈ used, t.Distinct) (before : Members) :
    (∃ after, useTraits self exprs before m = .ok after m' ∧ before.Gathers used after) ∨
      ∃ kind name line m₁, useTraits self exprs before m =
        .error (.error ⟨MethodKind.conflict kind name, line⟩) m₁ ∧
        2 ≤ before.provided used kind name := by
  induction exprs generalizing used m before with
  | nil =>
      cases htraits
      exact .inl ⟨before, rfl, .nil⟩
  | cons expr rest ih =>
      obtain ⟨t, between, traits, hfirst, hrest, rfl⟩ := mapM_cons_eq_ok htraits
      obtain ⟨hdistinctFirst, hdistinctRest⟩ := List.forall_mem_cons.1 hdistinct
      -- a name of the first trait that is there already stops the merging at once
      have hclash : ∀ kind name, (before.table kind).contains name = true →
          (t.table kind).contains name = true →
          2 ≤ before.provided (t :: traits) kind name := by
        intro kind name hbefore ht
        rw [Members.provided, Trait.providers_cons, hbefore, ht]
        simp only [Bool.toNat_true]
        omega
      simp only [useTraits, Bind.bind, EStateM.bind, hfirst]
      rcases mergeTable_cases (expr.name?.map (·.line)) .methodConflict t false t.methods
        before.methods between with ⟨methods, hmethods, hjoins⟩ | ⟨stop, herror⟩
      · rw [hmethods]
        dsimp only
        rcases mergeTable_cases (expr.name?.map (·.line)) .classMethodConflict t true t.classMethods
          before.classMethods between with ⟨classMethods, hclassMethods,
            hclassJoins⟩ | ⟨stop, herror⟩
        · rw [hclassMethods]
          dsimp only
          let joined : Members := ⟨methods, classMethods, before.traits ++ [t]⟩
          have hall : ∀ kind, MethodTable.Joins (before.table kind) (t.table kind)
              (joined.table kind) := by
            intro kind
            cases kind with
            | ofInstance => exact hjoins
            | ofClass => exact hclassJoins
          refine (ih hrest hdistinctRest joined).imp ?_ ?_
          · exact fun ⟨after, heq, hgathers⟩ => ⟨after, heq, .cons hall rfl hgathers⟩
          · rintro ⟨kind, name, line, m₁, heq, hprovided⟩
            exact ⟨kind, name, line, m₁, heq, by rwa [Members.provided_cons (hall kind)]⟩
        · obtain ⟨name, rfl, hbefore, ht⟩ := mergeTable_error (hdistinctFirst .ofClass) herror
          exact .inr ⟨.ofClass, name, _, between,
            by rw [herror]; rfl, hclash .ofClass name hbefore ht⟩
      · obtain ⟨name, rfl, hbefore, ht⟩ := mergeTable_error (hdistinctFirst .ofInstance) herror
        exact .inr ⟨.ofInstance, name, _, between,
          by rw [herror]; rfl, hclash .ofInstance name hbefore ht⟩

/-- Members that have no name twice in either table. -/
def Members.Distinct (members : Members) : Prop := ∀ kind, (members.table kind).Distinct

theorem Members.distinct_empty : Members.Distinct {} := by
  intro kind
  cases kind <;> exact Table.distinct_empty

theorem distinct_of_useTraits {before after : Members}
    (hok : useTraits self exprs before m = .ok after m') (hbefore : before.Distinct) :
    after.Distinct := by
  induction exprs generalizing before m with
  | nil =>
      cases hok
      exact hbefore
  | cons expr rest ih =>
      simp only [useTraits, Bind.bind, EStateM.bind] at hok
      split at hok
      next used m₁ _ =>
        split at hok
        next methods m₂ hmethods =>
          split at hok
          next classMethods m₃ hclassMethods =>
            refine ih hok fun kind => ?_
            cases kind with
            | ofInstance => exact distinct_of_merge hmethods (hbefore .ofInstance)
            | ofClass => exact distinct_of_merge hclassMethods (hbefore .ofClass)
          next => cases hok
        next => cases hok
      next => cases hok

theorem distinct_declared (m : Machine) (body : ClassBody) (frame : FrameId) {members : Members}
    (hmembers : members.Distinct) (kind : MethodKind) :
    (m.declared body frame members kind).Distinct :=
  distinct_withMethods _ _ _ _ (hmembers kind)

/-- From nothing on, a name is there as often as traits provide it. -/
theorem Members.provided_empty (used : List Trait) (kind : MethodKind) (name : String) :
    Members.provided {} used kind name = Trait.providers kind name used := by
  cases kind <;> exact Nat.zero_add _

/-- The members that were gathered are those of the traits. -/
theorem Members.Gathers.find?_eq_some_iff {after : Members} (h : Members.Gathers {} used after)
    (kind : MethodKind) (name : String) (method : Closure) :
    (after.table kind).find? name = some method ↔
      ∃ t ∈ used, (t.table kind).find? name = some method := by
  rw [h.find?_of_empty]
  constructor
  · intro hfound
    exact List.exists_of_findSome?_eq_some hfound
  · rintro ⟨t, ht, hmethod⟩
    cases hfound : used.findSome? fun t => (t.table kind).find? name with
    | none =>
        rw [List.findSome?_eq_none_iff.1 hfound t ht] at hmethod
        cases hmethod
    | some other =>
        -- only one trait has the name
        obtain ⟨t', ht', hother⟩ := List.exists_of_findSome?_eq_some hfound
        obtain ⟨i, hi⟩ := List.mem_iff_getElem?.1 ht
        obtain ⟨j, hj⟩ := List.mem_iff_getElem?.1 ht'
        have hhas : (t.table kind).find? name ≠ none := by simp [hmethod]
        have hsame : i = j := h.unique hi hj hhas (by simp [hother])
        rw [hsame, hj] at hi
        rw [← Option.some.inj hi, hother] at hmethod
        exact hmethod

/-! ### What decides -/

/-- There was an error at a name that the traits of a list provide more than once. -/
def Result.Conflicts {α : Type} (used : List Trait) (result : Result α) : Prop :=
  ∃ kind name line m, result = .error (.error ⟨MethodKind.conflict kind name, line⟩) m ∧
    2 ≤ Trait.providers kind name used

/-- The same methods under the same names. -/
def Members.Same (members members' : Members) : Prop :=
  ∀ kind name, (members'.table kind).find? name = (members.table kind).find? name

theorem gathers_or_conflicts (htraits : exprs.mapM (evaluateTrait self) m = .ok used m')
    (hdistinct : ∀ t ∈ used, t.Distinct) :
    (∃ members, useTraits self exprs {} m = .ok members m' ∧ Members.Gathers {} used members) ∨
      Result.Conflicts used (useTraits self exprs {} m) := by
  refine (useTraits_cases htraits hdistinct {}).imp_right ?_
  rintro ⟨kind, name, line, m₁, heq, hprovided⟩
  rw [Members.provided_empty] at hprovided
  exact ⟨kind, name, line, m₁, heq, hprovided⟩

theorem gathers_of_ok (htraits : exprs.mapM (evaluateTrait self) m = .ok used m')
    (hdistinct : ∀ t ∈ used, t.Distinct) {members : Members} {m₁ : Machine}
    (hok : useTraits self exprs {} m = .ok members m₁) : Members.Gathers {} used members := by
  rcases gathers_or_conflicts htraits hdistinct with
    ⟨members', heq, hgathers⟩ | ⟨kind, name, line, m₂, heq, -⟩
  · rw [hok] at heq
    cases heq
    exact hgathers
  · rw [hok] at heq
    cases heq

theorem Members.Gathers.toNat_contains_of_empty {members : Members}
    (h : Members.Gathers {} used members) (kind : MethodKind) (name : String) :
    ((members.table kind).contains name).toNat = Trait.providers kind name used := by
  rw [h.toNat_contains, Members.provided_empty]

theorem Members.Gathers.providers_le_one {members : Members} (h : Members.Gathers {} used members)
    (kind : MethodKind) (name : String) :
    Trait.providers kind name used ≤ 1 := by
  rw [← h.toNat_contains_of_empty]
  exact Bool.toNat_le _

/-- What is gathered does not depend on the order of the traits and of their entries. -/
theorem Members.Gathers.same {used' : List Trait} {members members' : Members}
    (h : Members.Gathers {} used members) (h' : Members.Gathers {} used' members')
    (harranged : Trait.Rearranged used used') (hdistinct : ∀ t ∈ used, t.Distinct) :
    members.Same members' := by
  intro kind name
  refine Option.ext fun method => ?_
  rw [h'.find?_eq_some_iff, h.find?_eq_some_iff, harranged.exists_find? hdistinct]

end Eval

/-- Using the traits of a list succeeds exactly if no method and no class method is provided at two
places of the list, and is refused with a name that is otherwise. When it succeeds, the members are
those of the traits and no others. For the same traits in another order, with the entries of their
tables in another order, and whatever the machine, the outcome is the same. -/
theorem use_traits_exact (self : Evaluators) (exprs : List Expr) (used : List Trait)
    (m m' : Machine) (htraits : exprs.mapM (evaluateTrait self) m = .ok used m')
    (hdistinct : ∀ t ∈ used, t.Distinct) :
    ((∃ members, useTraits self exprs {} m = .ok members m') ↔
      ∀ kind name, Trait.providers kind name used ≤ 1) ∧
      ((∃ members, useTraits self exprs {} m = .ok members m') ∨
        Result.Conflicts used (useTraits self exprs {} m)) ∧
      (∀ members m₁, useTraits self exprs {} m = .ok members m₁ →
        ∀ kind name method, (members.table kind).find? name = some method ↔
        ∃ t ∈ used, (t.table kind).find? name = some method) ∧
      ∀ self' exprs' used' n n', exprs'.mapM (evaluateTrait self') n = .ok used' n' →
        Trait.Rearranged used used' →
        (∃ members members', useTraits self exprs {} m = .ok members m' ∧
            useTraits self' exprs' {} n = .ok members' n' ∧ members.Same members') ∨
          Result.Conflicts used (useTraits self exprs {} m) ∧
          Result.Conflicts used' (useTraits self' exprs' {} n) := by
  have hcases := gathers_or_conflicts htraits hdistinct
  refine ⟨⟨?_, fun hle => ?_⟩, hcases.imp_left fun ⟨members, heq, _⟩ => ⟨members, heq⟩, ?_, ?_⟩
  · rintro ⟨members, heq⟩
    exact (gathers_of_ok htraits hdistinct heq).providers_le_one
  · rcases hcases with ⟨members, heq, -⟩ | ⟨kind, name, -, -, -, hprovided⟩
    · exact ⟨members, heq⟩
    · exact absurd (hle kind name) (Nat.not_le_of_lt hprovided)
  · intro members m₁ heq
    exact (gathers_of_ok htraits hdistinct heq).find?_eq_some_iff
  · intro self' exprs' used' n n' htraits' harranged
    have hproviders := harranged.providers_eq hdistinct
    rcases hcases with ⟨members, heq, hgathers⟩ | hconflicts
    · rcases gathers_or_conflicts htraits' (harranged.distinct hdistinct) with
        ⟨members', heq', hgathers'⟩ | ⟨kind, name, -, -, -, hprovided⟩
      · exact .inl ⟨members, members', heq, heq', hgathers.same hgathers' harranged hdistinct⟩
      · rw [hproviders] at hprovided
        exact absurd (hgathers.providers_le_one kind name) (Nat.not_le_of_lt hprovided)
    · refine .inr ⟨hconflicts, ?_⟩
      rcases gathers_or_conflicts htraits' (harranged.distinct hdistinct) with
        ⟨members', -, hgathers'⟩ | hconflicts'
      · obtain ⟨kind, name, -, -, -, hprovided⟩ := hconflicts
        rw [← hproviders] at hprovided
        exact absurd (hgathers'.providers_le_one kind name) (Nat.not_le_of_lt hprovided)
      · exact hconflicts'

/-- A machine with two traits that have a name in common, but not for the same kind of method. -/
def mergingMachine : Machine :=
  (Session.program 20 (Session.start [] {})
    (Utf8.encode "trait A \x7b m() \x7b\x7d \x7d trait B \x7b class m() \x7b\x7d \x7d")).2.machine

/-- Names of the traits of `mergingMachine`. -/
def mergingNames (names : List String) : List Expr :=
  names.map fun name => .variable 0 ⟨.identifier, name, 1⟩

/-- Whether some traits are those of given names, with no name twice. -/
def readsTraits (names : List String) : Result (List Trait) → Bool
  | .ok used _ =>
    used.map (·.name) = names ∧ ∀ t ∈ used, t.methods.names.Nodup ∧ t.classMethods.names.Nodup
  | .error _ _ => false

theorem exists_of_readsTraits {names : List String} {result : Result (List Trait)}
    (h : readsTraits names result = true) :
    ∃ used m', result = .ok used m' ∧ used.map (·.name) = names ∧ ∀ t ∈ used, t.Distinct := by
  cases result with
  | error _ _ => cases h
  | ok used m' =>
      obtain ⟨hnames, hdistinct⟩ := of_decide_eq_true h
      refine ⟨used, m', rfl, hnames, fun t ht kind => ?_⟩
      cases kind with
      | ofInstance => exact (hdistinct t ht).1
      | ofClass => exact (hdistinct t ht).2

theorem use_traits_exact_two :
    ∃ used m', (mergingNames ["A", "B"]).mapM (evaluateTrait (evaluators 1)) mergingMachine
      = .ok used m' ∧
    (∀ t ∈ used, t.Distinct) ∧ used.map (·.name) = ["A", "B"] ∧
    ((∃ members, useTraits (evaluators 1) (mergingNames ["A", "B"]) {} mergingMachine =
      .ok members m') ↔
      ∀ kind name, Trait.providers kind name used ≤ 1) := by
  have hreads : readsTraits ["A",
      "B"] ((mergingNames ["A", "B"]).mapM (evaluateTrait (evaluators 1)) mergingMachine) =
      true := by decide +kernel
  obtain ⟨used, m', htraits, hnames, hdistinct⟩ := exists_of_readsTraits hreads
  exact ⟨used, m', htraits, hdistinct, hnames,
    (use_traits_exact _ _ used mergingMachine m' htraits hdistinct).1⟩

end TraitScript
