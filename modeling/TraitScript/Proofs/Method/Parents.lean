import TraitScript.Proofs.Eval.Watch
import TraitScript.Proofs.Method.Declare

/-!
# Parents that are given by name

A declaration that gives its superclass and the traits that it uses by name runs no code to find
them. Looking them up and merging their methods leaves the machine as it is, however it ends, so
there are only two outcomes: the class or trait is added to the machine, or nothing but the count of
identities has changed.
-/

namespace TraitScript

namespace Eval

variable {α β : Type}

/-- However it ends, a computation leaves the machine as it is. -/
def KeepsMachine (x : Eval α) : Prop := ∀ m, Result.machine (x m) = m

theorem KeepsMachine.cases {x : Eval α} (h : KeepsMachine x) (m : Machine) :
    (∃ a, x m = .ok a m) ∨ ∃ stop, x m = .error stop m := by
  have hm := h m
  cases hresult : x m with
  | ok a m' =>
      rw [hresult] at hm
      exact .inl ⟨a, by rw [show m' = m from hm]⟩
  | error stop m' =>
      rw [hresult] at hm
      exact .inr ⟨stop, by rw [show m' = m from hm]⟩

theorem keepsMachine_pure (a : α) : KeepsMachine (pure a) := fun _ => rfl

theorem keepsMachine_raise (line : Option Nat) (cause : RuntimeError.Cause) :
    KeepsMachine (raise line cause : Eval α) := fun _ => rfl

theorem KeepsMachine.bind {x : Eval α} {f : α → Eval β} (hx : KeepsMachine x)
    (hf : ∀ a, KeepsMachine (f a)) : KeepsMachine (x >>= f) := by
  intro m
  simp only [Bind.bind, EStateM.bind]
  rcases hx.cases m with ⟨a, heq⟩ | ⟨stop, heq⟩
  · rw [heq]
    exact hf a m
  · rw [heq]
    rfl

/-- Reading a variable leaves the machine as it is. -/
theorem machine_readVariable (id : Nat) (name : Token) (m : Machine) :
    Result.machine (readVariable id name m) = m := by
  simp only [readVariable]
  split <;> rfl

/-- Evaluating a name reads a variable, if there is fuel. -/
theorem evaluate_variable (fuel id : Nat) (name : Token) :
    (evaluators fuel).evaluate (.variable id name) = readVariable id name ∨
      (evaluators fuel).evaluate (.variable id name) = outOfFuel := by
  cases fuel with
  | zero => exact .inr rfl
  | succ fuel => exact .inl rfl

theorem keepsMachine_variable (fuel id : Nat) (name : Token) :
    KeepsMachine ((evaluators fuel).evaluate (.variable id name)) := by
  intro m
  rcases evaluate_variable fuel id name with heq | heq
  · rw [heq, machine_readVariable]
  · rw [heq]
    rfl

theorem keepsMachine_mergeTable (line : Option Nat) (conflict : String → RuntimeError.Cause)
    (used : Trait) (ofClass : Bool) (theirs table : MethodTable) :
    KeepsMachine (mergeTable line conflict used ofClass theirs table) := by
  intro m
  rcases mergeTable_cases line conflict used ofClass theirs table m with
    ⟨joined, heq, -⟩ | ⟨stop, heq⟩
  · rw [heq]
    rfl
  · rw [heq]
    rfl

theorem keepsMachine_evaluateTrait (fuel id : Nat) (name : Token) :
    KeepsMachine (evaluateTrait (evaluators fuel) (.variable id name)) := by
  refine (keepsMachine_variable fuel id name).bind fun value => ?_
  cases value with
  | traitValue definition => exact keepsMachine_pure definition
  | nil | bool _ | number _ | string _ | function _ | native _ | classValue _ | object _ =>
    exact keepsMachine_raise _ _

theorem keepsMachine_useTraits (fuel : Nat) {traits : List Expr}
    (htraits : ∀ expr ∈ traits, ∃ id name, expr = .variable id name) (members : Members) :
    KeepsMachine (useTraits (evaluators fuel) traits members) := by
  induction traits generalizing members with
  | nil => exact keepsMachine_pure members
  | cons expr rest ih =>
      obtain ⟨⟨id, name, rfl⟩, hrest⟩ := List.forall_mem_cons.1 htraits
      exact (keepsMachine_evaluateTrait fuel id name).bind fun used =>
        (keepsMachine_mergeTable _ _ used false _ _).bind fun methods =>
          (keepsMachine_mergeTable _ _ used true _ _).bind fun classMethods => ih hrest _

theorem keepsMachine_evaluateSuperclass (fuel : Nat) (name : Token) {parent : Option Expr}
    (hparent : ∀ expr ∈ parent, ∃ id name, expr = .variable id name) :
    KeepsMachine (evaluateSuperclass (evaluators fuel) name parent) := by
  cases parent with
  | none => exact keepsMachine_pure none
  | some expr =>
      obtain ⟨id, token, rfl⟩ := hparent expr rfl
      refine (keepsMachine_variable fuel id token).bind fun value => ?_
      cases value with
      | classValue definition => exact keepsMachine_pure _
      | nil | bool _ | number _ | string _ | function _ | native _ | object _ | traitValue _ =>
        exact keepsMachine_raise _ _

/-! ### Declaring -/

/-- A trait is declared, or nothing but the count of identities has changed. -/
theorem declareTrait_cases (fuel : Nat) (name : Token) {body : ClassBody}
    (htraits : ∀ expr ∈ body.traits, ∃ id name, expr = .variable id name) (m : Machine) :
    (∃ used, declareTrait (evaluators fuel) name body m = .ok .normal (m.addTrait name body used)) ∨
      ∃ stop count, declareTrait (evaluators fuel) name body m =
        .error stop { m with nextId := m.nextId + count } := by
  simp only [declareTrait_eq, Bind.bind, EStateM.bind]
  rcases (keepsMachine_useTraits fuel htraits {}).cases m with ⟨used, heq⟩ | ⟨stop, heq⟩
  · rw [heq]
    refine (finishTrait_cases name body used m).imp ?_ ?_
    · rintro ⟨hok, -⟩
      exact ⟨used, hok⟩
    · rintro ⟨_, _, _, count, herror, -⟩
      exact ⟨_, count, herror⟩
  · rw [heq]
    exact .inr ⟨stop, 0, rfl⟩

/-- A class is declared, or nothing has changed: all that can fail comes before its frame and its
methods are made. -/
theorem declareClass_cases (fuel : Nat) (name : Token) {parent : Option Expr} {body : ClassBody}
    (hparents : ∀ expr ∈ parent.toList ++ body.traits, ∃ id name, expr = .variable id name)
    (m : Machine) :
    (∃ superclass used, evaluateSuperclass (evaluators fuel) name parent m = .ok superclass m ∧
        declareClass (evaluators fuel) name parent body m =
        .ok .normal (m.addClass name parent body superclass used)) ∨
      ∃ stop, declareClass (evaluators fuel) name parent body m = .error stop m := by
  have hparent : ∀ expr ∈ parent, ∃ id name, expr = .variable id name :=
    fun expr h => hparents expr (by simp [Option.mem_def.1 h])
  have htraits : ∀ expr ∈ body.traits, ∃ id name, expr = .variable id name :=
    fun expr h => hparents expr (List.mem_append_right _ h)
  simp only [declareClass_eq, Bind.bind, EStateM.bind]
  rcases (keepsMachine_evaluateSuperclass fuel name hparent).cases m with
    ⟨superclass, hevaluated⟩ | ⟨stop, heq⟩
  · rw [hevaluated]
    dsimp only
    rcases (keepsMachine_useTraits fuel htraits {}).cases m with ⟨used, heq⟩ | ⟨stop, heq⟩
    · rw [heq]
      exact .inl ⟨superclass, used, rfl, finishClass_eq name parent body superclass used m⟩
    · rw [heq]
      exact .inr ⟨stop, rfl⟩
  · rw [heq]
    exact .inr ⟨stop, rfl⟩

end Eval
end TraitScript
