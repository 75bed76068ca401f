import TraitScript.Proofs.Method.Merge
import TraitScript.Proofs.Scope.Part
import TraitScript.Proofs.Session.Lookup

/-!
# Declaring traits

A trait is declared unless some method, or some class method, is provided twice: by two of the
traits that it uses, by one of them and by a member of its own, or by two members of its own. The
last is no conflict with a used trait, but it is refused all the same, and in the same words.
-/

namespace TraitScript

open Eval

namespace ClassBody

/-- How often the used traits and the members of a declaration provide a name. -/
def provisions (body : ClassBody) (used : List Trait) (kind : MethodKind) (name : String) : Nat :=
  Trait.providers kind name used + ((body.members kind).map FunctionDecl.key).count name

/-- Two of the used traits provide a name, or one of them provides the name of a member. -/
def Clashes (body : ClassBody) (used : List Trait) : Prop :=
  ∃ kind name, 2 ≤ Trait.providers kind name used ∨
    (∃ decl ∈ body.members kind, decl.key = name) ∧ ∃ t ∈ used, (t.table kind).contains name = true

/-- Two members of a kind have the same name. -/
def Repeats (body : ClassBody) : Prop := ∃ kind, ¬ ((body.members kind).map FunctionDecl.key).Nodup

theorem two_le_provisions (body : ClassBody) (used : List Trait) :
    (∃ kind name, 2 ≤ body.provisions used kind name) ↔ body.Clashes used ∨ body.Repeats := by
  have hown : ∀ kind name, 0 < ((body.members kind).map FunctionDecl.key).count name ↔
      ∃ decl ∈ body.members kind, decl.key = name := by
    intro kind name
    rw [List.count_pos_iff, List.mem_map]
  have hprovided : ∀ kind name, 0 < Trait.providers kind name used ↔
      ∃ t ∈ used, (t.table kind).contains name = true := by
    intro kind name
    rw [Trait.providers, List.countP_pos_iff]
  constructor
  · rintro ⟨kind, name, htwo⟩
    rw [provisions] at htwo
    by_cases hrepeated : 2 ≤ ((body.members kind).map FunctionDecl.key).count name
    · refine .inr ⟨kind, fun hnodup => ?_⟩
      have hone := List.nodup_iff_count_le_one.1 hnodup name
      omega
    · refine .inl ⟨kind, name, ?_⟩
      rw [← hown, ← hprovided]
      omega
  · rintro (⟨kind, name, htwo | ⟨hmember, hused⟩⟩ | ⟨kind, hrepeated⟩)
    · exact ⟨kind, name, Nat.le_add_right_of_le htwo⟩
    · rw [← hown] at hmember
      rw [← hprovided] at hused
      exact ⟨kind, name, Nat.add_le_add hused hmember⟩
    · rw [List.nodup_iff_count_le_one, not_forall] at hrepeated
      obtain ⟨name, htwo⟩ := hrepeated
      exact ⟨kind, name, Nat.le_add_left_of_le (Nat.lt_of_not_le htwo)⟩

end ClassBody

namespace Eval

/-- A declared trait is there, and no name is provided twice; or there is an error at a name that
is. -/
theorem declareTrait_exact {self : Evaluators} {body : ClassBody} {used : List Trait}
    {m m' : Machine} (name : Token)
    (htraits : body.traits.mapM (evaluateTrait self) m = .ok used m')
    (hdistinct : ∀ t ∈ used, t.Distinct) :
    ((∃ members, declareTrait self name body m = .ok .normal (m'.addTrait name body members)) ∧
      ∀ kind method, body.provisions used kind method ≤ 1) ∨
    ∃ kind method line m₁, declareTrait self name body m =
      .error (.error ⟨MethodKind.conflict kind method, line⟩) m₁ ∧
      2 ≤ body.provisions used kind method := by
  simp only [declareTrait_eq, Bind.bind, EStateM.bind]
  rcases gathers_or_conflicts htraits hdistinct with
    ⟨members, hok, hgathers⟩ | ⟨kind, method, line, m₁, herror, htwo⟩
  · have hprovisions : ∀ kind method,
        MethodTable.provisions (members.table kind) (body.members kind) method =
        body.provisions used kind method := by
      intro kind method
      rw [MethodTable.provisions, ClassBody.provisions, hgathers.toNat_contains_of_empty]
    rw [hok]
    dsimp only
    simp only [← hprovisions]
    refine (finishTrait_cases name body members m').imp ?_ ?_
    · rintro ⟨hfinish, hone⟩
      exact ⟨⟨members, hfinish⟩, hone⟩
    · rintro ⟨kind, method, line, count, herror, htwo⟩
      exact ⟨kind, method, line, _, herror, htwo⟩
  · rw [herror]
    exact .inr ⟨kind, method, line, m₁, rfl, Nat.le_add_right_of_le htwo⟩

end Eval

/-- Once the traits that it uses are evaluated, a trait is either declared or refused with the name
of a method that is provided twice. It is refused exactly if a name is provided by two of the used
traits, or by one of them and a member of the declaration, or by two members of the declaration. -/
theorem trait_declaration_exact (fuel : Nat) (name : Token) (body : ClassBody) (used : List Trait)
    (m m' : Machine) (htraits : body.traits.mapM (evaluateTrait (evaluators fuel)) m = .ok used m')
    (hdistinct : ∀ t ∈ used, t.Distinct) :
    ((∃ members, execute (fuel + 1) (.traitDecl name body) m =
      .ok .normal (m'.addTrait name body members)) ∨
      ∃ kind method line m₁, execute (fuel + 1) (.traitDecl name body) m =
        .error (.error ⟨MethodKind.conflict kind method, line⟩) m₁ ∧
        2 ≤ body.provisions used kind method) ∧
    ((∃ stop m₁, execute (fuel + 1) (.traitDecl name body) m = .error stop m₁) ↔
      body.Clashes used ∨ body.Repeats) := by
  show ((∃ members, declareTrait (evaluators fuel) name body m = _) ∨
    ∃ kind method line m₁, declareTrait (evaluators fuel) name body m = _ ∧ _) ∧
    ((∃ stop m₁, declareTrait (evaluators fuel) name body m = _) ↔ _)
  rw [← ClassBody.two_le_provisions]
  rcases declareTrait_exact name htraits hdistinct with
    ⟨⟨members, hok⟩, hone⟩ | ⟨kind, method, line, m₁, herror, htwo⟩
  · refine ⟨.inl ⟨members, hok⟩, ?_, ?_⟩
    · rintro ⟨stop, m₁, herror⟩
      rw [hok] at herror
      cases herror
    · rintro ⟨kind, method, htwo⟩
      exact absurd (hone kind method) (Nat.not_le_of_lt htwo)
  · refine ⟨.inr ⟨kind, method, line, m₁, herror, htwo⟩, fun _ => ⟨kind, method, htwo⟩,
      fun _ => ⟨_, m₁, herror⟩⟩

/-- Whether a computation ended with an error. -/
def Eval.Result.stops {α : Type} : Result α → Bool
  | .ok _ _ => false
  | .error _ _ => true

theorem Eval.Result.exists_of_stops {α : Type} {result : Result α} (h : result.stops = true) :
    ∃ stop m, result = .error stop m := by
  cases result with
  | ok _ _ => cases h
  | error stop m => exact ⟨stop, m, rfl⟩

/-- A trait that uses the two traits of `mergingMachine` and has a class method that one of them
provides. -/
def overridingBody : ClassBody :=
  ⟨mergingNames ["A", "B"], [], [⟨some ⟨.identifier, "m", 1⟩, [], [], false⟩]⟩

theorem trait_declaration_exact_overriding :
    ∃ used m', overridingBody.traits.mapM (evaluateTrait (evaluators 1)) mergingMachine =
      .ok used m' ∧ (∀ t ∈ used, t.Distinct) ∧
      (∃ stop m₁, execute 2 (.traitDecl ⟨.identifier, "C", 1⟩ overridingBody) mergingMachine =
          .error stop m₁) ∧
      (overridingBody.Clashes used ∨ overridingBody.Repeats) := by
  have hreads : readsTraits ["A",
      "B"] (overridingBody.traits.mapM (evaluateTrait (evaluators 1)) mergingMachine) = true := by
    decide +kernel
  have hrefused : Result.stops
      (execute 2 (.traitDecl ⟨.identifier, "C", 1⟩ overridingBody) mergingMachine) = true := by
    decide +kernel
  obtain ⟨used, m', htraits, -, hdistinct⟩ := exists_of_readsTraits hreads
  have hstops := Result.exists_of_stops hrefused
  exact ⟨used, m', htraits, hdistinct, hstops,
    (trait_declaration_exact 1 _ overridingBody used mergingMachine m' htraits hdistinct).2.1
    hstops⟩

/-- A trait that uses no other, with two methods of one name. -/
def repeatingProgram : Source := Utf8.encode "trait T \x7b m() \x7b\x7d m() \x7b\x7d \x7d"

/-- Whether a statement declares a trait that uses no other, and is refused by a machine in which
nothing is defined. -/
def refusesAlone (part : Place × Stmt) : Bool :=
  match part with
  | (_, .traitDecl name body) =>
    body.traits.isEmpty && Result.stops (execute 1 (.traitDecl name body) (Machine.start [] {}))
  | _ => false

/-- Not every trait that is refused has a name in common with a trait that it uses, or uses two that
have one in common. -/
theorem trait_refused_without_clash :
    ¬ ∀ source : Source, (Scanned.ofSource source).errors = [] →
      (parseProgram (.ofSource source) 0).errors = [] →
        (resolve (parseProgram (.ofSource source) 0).value).errors = [] →
          ∀ p name body, (p, .traitDecl name body) ∈
            programParts (parseProgram (.ofSource source) 0).value →
            ∀ fuel m used m', body.traits.mapM (evaluateTrait (evaluators fuel)) m = .ok used m' →
              (∀ t ∈ used, t.Distinct) →
              ((∃ stop m₁, execute (fuel + 1) (.traitDecl name body) m = .error stop m₁) ↔
                body.Clashes used) := by
  intro hall
  have hany : (programParts (parseProgram (.ofSource repeatingProgram) 0).value).any refusesAlone =
      true := by decide +kernel
  obtain ⟨⟨p, part⟩, hpart, hrefuses⟩ := List.any_eq_true.1 hany
  unfold refusesAlone at hrefuses
  split at hrefuses
  next p name body heq =>
    cases heq
    simp only [Bool.and_eq_true, List.isEmpty_iff] at hrefuses
    obtain ⟨hnone, hstops⟩ := hrefuses
    have htraits : body.traits.mapM (evaluateTrait (evaluators 0)) (Machine.start [] {}) =
        .ok [] (Machine.start [] {}) := by
      rw [hnone]
      rfl
    have hexact := hall repeatingProgram (by decide +kernel) (by decide +kernel) (by decide +kernel)
      p name body hpart 0 _ [] _ htraits (by simp)
    obtain ⟨kind, method, htwo | ⟨-, t, ht, -⟩⟩ := hexact.1 (Result.exists_of_stops hstops)
    · simp [Trait.providers] at htwo
    · cases ht
  next => cases hrefuses

namespace Session

/-- In a session of any programs no trait has a method or a class method twice. -/
theorem traits_distinct (natives : List Native) (hnatives : ∀ native ∈ natives, native.Honest)
    (world : World) (requests : List Request) (fuel : Nat) {t : Trait}
    (ht : (sequence (serve (evaluators fuel)) requests (start natives world)).2.machine.Holds
      (.traitValue t)) :
    t.Distinct := by
  have hserve := Account.serve_overseen Account.lawful_records Account.shows_lookupOversight
    (Account.handles_records .outOfFuel) fuel requests (s := start natives world)
    (Account.records_fit_start hnatives world)
  simp only [watchedEvaluators_nothing] at hserve
  obtain ⟨-, k, hfits⟩ := hserve
  exact hfits.2.lineage.distinct_trait (hfits.2.values ht)

end Session
end TraitScript
