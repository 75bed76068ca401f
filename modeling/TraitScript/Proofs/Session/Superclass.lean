import TraitScript.Proofs.Method.Parents
import TraitScript.Proofs.Session.Text

/-!
# What `super` finds

An occurrence of `super` stands in a method of a subclass. When it is evaluated, the frame of the
scope of `super` binds the class that the superclass of the declaration was when the declaration was
executed, and the frame just inside it binds the receiver. The method is looked up from that class
on, among class methods if the occurrence stands in a class method, whatever the class of the
receiver is.
-/

namespace TraitScript

theorem Stmt.NamesParents.classDecl {declaration : Stmt} (h : declaration.NamesParents) :
    ∃ name id parent body,
    declaration = .classDecl name (some (.variable id parent)) body ∧
    ∀ expr ∈ body.traits, ∃ id name, expr = .variable id name := by
  unfold Stmt.NamesParents at h
  split at h
  next name parent body =>
    obtain ⟨⟨id, token, rfl⟩, htraits⟩ := List.forall_mem_cons.1 h
    exact ⟨name, id, token, body, rfl, htraits⟩
  next => exact h.elim

/-! ### What frames of `super` are made with -/

namespace Eval

/-- The class that the superclass of a declaration, which is given by name, stands for. -/
def superclassOf (m : Machine) : Stmt → Option Class
  | .classDecl _ (some (.variable id parent)) _ =>
    match readVariable id parent m with
    | .ok (.classValue definition) _ => some definition
    | _ => none
  | _ => none

/-- A superclass that is given by name is the class that the name stands for. -/
theorem superclassOf_of_evaluateSuperclass {fuel : Nat} {name : Token} {id : Nat} {parent : Token}
    {superclass : Option Class} {m : Machine}
    (hevaluated : evaluateSuperclass (evaluators fuel) name (some (.variable id parent)) m =
      .ok superclass m)
    (body : ClassBody) :
    ∃ definition, superclass = some definition ∧
      superclassOf m (.classDecl name (some (.variable id parent)) body) = some definition := by
  simp only [evaluateSuperclass, Bind.bind, EStateM.bind] at hevaluated
  rcases evaluate_variable fuel id parent with heq | heq
  · rw [heq] at hevaluated
    rw [superclassOf]
    cases hread : readVariable id parent m with
    | ok v m' =>
        rw [hread] at hevaluated
        cases v with
        | classValue definition =>
            cases hevaluated
            exact ⟨definition, rfl, rfl⟩
        | nil | bool _ | number _ | string _ | function _ | native _ | object _ | traitValue _ =>
          cases hevaluated
    | error stop m' =>
        rw [hread] at hevaluated
        cases hevaluated
  · rw [heq] at hevaluated
    cases hevaluated

/-- Executing the declaration of a subclass makes at most one frame: that of the scope of `super`,
for the class that the superclass stands for at that moment. -/
theorem origins_execute_classDecl (fuel : Nat) {declaration : Stmt}
    (hnamed : declaration.NamesParents) (m : Machine) :
    (Result.machine ((evaluators fuel).execute declaration m)).origins = m.origins ∨
      ∃ definition, superclassOf m declaration = some definition ∧
        (Result.machine ((evaluators fuel).execute declaration m)).origins =
        m.origins.push (.superclass declaration definition) := by
  obtain ⟨name, id, parent, body, rfl, htraits⟩ := hnamed.classDecl
  cases fuel with
  | zero => exact .inl rfl
  | succ fuel =>
      show (Result.machine (declareClass (evaluators fuel) name _ body m)).origins = _ ∨
        ∃ definition, _ ∧
        (Result.machine (declareClass (evaluators fuel) name _ body m)).origins = _
      have hparents : ∀ expr ∈ (some (.variable id parent)).toList ++ body.traits, ∃ id name,
          expr = .variable id name :=
        List.forall_mem_cons.2 ⟨⟨id, parent, rfl⟩, htraits⟩
      rcases declareClass_cases fuel name hparents m with
        ⟨superclass, used, hevaluated, heq⟩ | ⟨stop, heq⟩
      · obtain ⟨definition, rfl, hsuperclass⟩ := superclassOf_of_evaluateSuperclass hevaluated body
        rw [heq]
        exact .inr ⟨definition, hsuperclass, rfl⟩
      · rw [heq]
        exact .inl rfl

end Eval

/-! ### Occurrences of `super` -/

/-- The frames that an occurrence of `super` finds are those of the member around it, and what it
yields is a method of the superclass, looked up by the kind of that member and bound to its
receiver. -/
def Machine.FindsSuper (m : Machine) (p : Place) (id : Nat) (keyword method : Token) : Prop :=
  ∃ distance declaration kind decl definition receiver, m.distances[id]? = some distance ∧
    p.SuperAt distance declaration kind decl ∧
    Eval.SuperFrames m distance declaration kind decl definition receiver ∧
    ∀ self, Eval.getSuper self id keyword method m =
      Eval.superValue self definition receiver kind method m

def superWatch (programs : List (List Stmt)) : Watch where
  evaluate expr m _ := ∀ id keyword method, expr = .super id keyword method →
    ∃ program ∈ programs, ∃ p, (p, .super id keyword) ∈ programUses program ∧
      m.FindsSuper p id keyword method

theorem follows_superWatch (programs : List (List Stmt)) :
    Session.FollowsAll programs (superWatch programs) := by
  intro done distances hdone
  refine ⟨?_, fun _ _ _ _ _ => trivial, fun _ _ _ _ _ _ => trivial, fun _ _ _ _ _ _ => trivial⟩
  intro p expr m hallows hsound hlinked result _ id keyword method hexpr
  subst hexpr
  rw [Expr.uses, Regime.allows_cons] at hallows
  obtain ⟨distance, declaration, kind, decl, hat⟩ :=
    (Regime.text done distances).super_inMember trivial hallows.1
  obtain ⟨definition, receiver, hframes⟩ := Eval.superFrames_of_superAt hsound trivial hlinked hat
  have hdistance : m.distances[id]? = some distance := by
    rw [hsound.distance_eq trivial hallows.1 rfl,
      (Regime.text done distances).super_keyword trivial hallows.1]
    exact hat.distance_eq
  obtain ⟨program, hprogram, -, hmem⟩ := hallows.1
  refine ⟨program, hdone program hprogram, p, hmem, distance, declaration, kind, decl, definition,
    receiver, hdistance, hat, hframes, ?_⟩
  exact fun self => Eval.getSuper_eq hdistance hat.two_le hframes self keyword method

namespace Session

/-- In a session that reads text every evaluation of `super` finds the superclass of the class
around it and the receiver of the method around it; the frame of that superclass was made when the
class was declared, for what its superclass was then; no run ends in a fault. -/
theorem super_finds_superclass (natives : List Native)
    (hnatives : ∀ native ∈ natives, native.Honest) (world : World) (inputs : List Input)
    (fuel : Nat) :
    (∀ stop, sequence (feed (Eval.watchedEvaluators (superWatch (accepted 0 inputs)) stop fuel))
      inputs (start natives world) =
        sequence (feed (Eval.evaluators fuel)) inputs (start natives world)) ∧
      (∀ declaration : Stmt, declaration.NamesParents → ∀ m : Machine,
        (Eval.Result.machine ((Eval.evaluators fuel).execute declaration m)).origins = m.origins ∨
          ∃ definition, Eval.superclassOf m declaration = some definition ∧
            (Eval.Result.machine ((Eval.evaluators fuel).execute declaration m)).origins =
              m.origins.push (.superclass declaration definition)) ∧
      ∀ report ∈ (sequence (feed (Eval.evaluators fuel)) inputs (start natives world)).1, ∀ fault,
        report.ending ≠ .fault fault := by
  obtain ⟨hwatched, hfaults⟩ :=
    sequence_watched hnatives world inputs (follows_superWatch (accepted 0 inputs)) fuel
  exact ⟨hwatched, fun _ hnamed m => Eval.origins_execute_classDecl fuel hnamed m, hfaults⟩

/-- A method that calls the one it overrides, on an instance of a class further down. -/
def overridingInputs : List Input :=
  [.program
      ("class A { m() { return true; } } class B < A { m() { return super.m(); } } " ++
        "class C < B {}").toUTF8.data.toList,
    .line "C().m()".toUTF8.data.toList]

theorem super_finds_superclass_overriding :
    (∀ native ∈ Native.standard, native.Honest) ∧ (accepted 0 overridingInputs).length = 2 ∧
      (sequence (feed (Eval.evaluators 20)) overridingInputs (start Native.standard {})).1.map
      (·.output) = ["", "true\n"] ∧
      (∀ stop,
        sequence (feed (Eval.watchedEvaluators (superWatch (accepted 0 overridingInputs)) stop 20))
          overridingInputs (start Native.standard {}) =
        sequence (feed (Eval.evaluators 20)) overridingInputs (start Native.standard {})) ∧
      (∀ declaration : Stmt, declaration.NamesParents → ∀ m : Machine,
        (Eval.Result.machine ((Eval.evaluators 20).execute declaration m)).origins = m.origins ∨
          ∃ definition, Eval.superclassOf m declaration = some definition ∧
            (Eval.Result.machine ((Eval.evaluators 20).execute declaration m)).origins =
              m.origins.push (.superclass declaration definition)) ∧
      ∀ report ∈ (sequence (feed (Eval.evaluators 20)) overridingInputs
        (start Native.standard {})).1, ∀ fault, report.ending ≠ .fault fault :=
  ⟨Native.honest_standard, by decide +kernel, by decide +kernel,
    super_finds_superclass Native.standard Native.honest_standard {} overridingInputs 20⟩

end Session
end TraitScript
