import TraitScript.Proofs.Account.Declare
import TraitScript.Proofs.Session.Text

/-!
# Sessions that are accounted for

An account that fits a new machine fits it between any two inputs of a session, and an oversight
that follows from the account makes no difference to any report. Inputs may be texts or lists of
statements that were put together in any other way.
-/

namespace TraitScript

/-- What can be given to a session: a text, or statements to resolve and run. -/
inductive Request where
  | text (input : Input)
  | statements (statements : List Stmt)

namespace Session

/-- Gives one request to a session. -/
def serve (self : Eval.Evaluators) (s : Session) : Request → Report × Session
  | .text input => s.feed self input
  | .statements statements => s.resolveAndExecute self statements

/-! ### What holds between two requests -/

section Between

-- Two ways to run programs that agree wherever an invariant of the machine holds, which running and
-- resolving keep.
variable {self self' : Eval.Evaluators} {P : Machine → Prop}
  (hnote : ∀ {m} distances, P m → P { m with distances := distances })
  (hrun : ∀ {m} statements, P m → Eval.interpret self' statements { m with output := "" } =
    Eval.interpret self statements { m with output := "" } ∧
    P (Eval.Result.machine (Eval.interpret self statements { m with output := "" })))

include hrun

theorem executeWith_congr {s : Session} (hs : P s.machine) (statements : List Stmt) :
    s.executeWith self' statements = s.executeWith self statements ∧
      P (s.executeWith self statements).2.machine := by
  obtain ⟨heq, hafter⟩ := hrun statements hs
  unfold executeWith
  rw [heq]
  refine ⟨rfl, ?_⟩
  cases hresult : Eval.interpret self statements { s.machine with output := "" } with
  | ok _ m | error stopped m =>
      rw [hresult] at hafter
      exact hafter

include hnote

theorem resolveAndExecute_congr {s : Session} (hs : P s.machine) (statements : List Stmt) :
    s.resolveAndExecute self' statements = s.resolveAndExecute self statements ∧
      P (s.resolveAndExecute self statements).2.machine := by
  have hresolved : P (s.machine.noteAll (TraitScript.resolve statements)) := by
    obtain ⟨distances, hm⟩ := s.machine.noteAll_eq (TraitScript.resolve statements)
    rw [hm]
    exact hnote distances hs
  simp only [resolveAndExecute, resolve]
  by_cases haccepted : (TraitScript.resolve statements).errors.isEmpty = true
  · simp only [haccepted, if_true]
    exact executeWith_congr hrun
      (s := ⟨s.machine.noteAll (TraitScript.resolve statements), s.nextId⟩) hresolved statements
  · simp only [haccepted]
    exact ⟨rfl, hresolved⟩

theorem feed_congr {s : Session} (hs : P s.machine) (input : Input) :
    s.feed self' input = s.feed self input ∧ P (s.feed self input).2.machine := by
  rcases s.feed_eq input with ⟨statements, -, hfeed⟩ | ⟨-, errors, hfeed⟩
  · rw [hfeed, hfeed]
    exact resolveAndExecute_congr hnote hrun
      (s := ⟨s.machine, (input.read s.nextId).2⟩) hs statements
  · rw [hfeed, hfeed]
    exact ⟨rfl, hs⟩

theorem serve_congr {s : Session} (hs : P s.machine) (request : Request) :
    s.serve self' request = s.serve self request ∧ P (s.serve self request).2.machine := by
  cases request with
  | text input => exact feed_congr hnote hrun hs input
  | statements statements => exact resolveAndExecute_congr hnote hrun hs statements

omit hnote hrun in
theorem sequence_of_step {ι : Type} {step step' : Session → ι → Report × Session}
    (hstep : ∀ {s : Session}, P s.machine → ∀ input, step' s input = step s input ∧
      P (step s input).2.machine)
    (inputs : List ι) {s : Session} (hs : P s.machine) :
    sequence step' inputs s = sequence step inputs s ∧ P (sequence step inputs s).2.machine := by
  induction inputs generalizing s with
  | nil => exact ⟨rfl, hs⟩
  | cons input rest ih =>
      obtain ⟨heq, hnext⟩ := hstep hs input
      obtain ⟨hrest, hlast⟩ := ih hnext
      simp only [sequence, heq, hrest]
      exact ⟨trivial, hlast⟩

end Between
end Session

namespace Account

open Eval

variable {I : Account} {k : I.Known} {A : Watch} {O : Oversight} {stop : Stop} (hI : I.Lawful)

include hI

/-! ### The start -/

/-- An account that fits a bare machine and does not mind native functions of some kind fits a new
machine with such functions. -/
theorem fits_start {P : Native → Prop}
    (hadd : ∀ {k m native}, I.fits k m → P native →
      I.Later k { m with natives := m.natives.push native } fun _ => True)
    {natives : List Native} (hnatives : ∀ native ∈ natives, P native) {world : World}
    (hbare : ∃ k, I.fits k (.bare world)) :
    ∃ k, I.fits k (Machine.start natives world) := by
  have hall : ∀ {natives : List Native} {m : Machine}, (∀ native ∈ natives, P native) →
      (∃ k, I.fits k m) →
      ∃ k, I.fits k (natives.foldl Machine.addNative m) := by
    intro natives
    induction natives with
    | nil => exact fun _ h => h
    | cons native rest ih =>
        rintro m hnatives ⟨k, hfits⟩
        obtain ⟨hnative, hrest⟩ := List.forall_mem_cons.1 hnatives
        let ref : NativeRef := ⟨m.natives.size, native.name, native.arity⟩
        obtain ⟨k₁, -, hfits₁, -⟩ : I.Later k { m with
          frames := m.frames.define m.globals native.name (.native ref) } fun _ => True :=
          hI.bind hfits fun v hv => Option.some.inj hv ▸ hI.native
        obtain ⟨k₂, -, hfits₂, -⟩ := hadd hfits₁ hnative
        exact ih hrest ⟨k₂, hfits₂⟩
  exact hall hnatives hbare

/-! ### Under oversight -/

variable (hO : I.Shows A O) (hA : I.Handles A stop) (fuel : Nat)

theorem later_distances {m : Machine} (distances : Std.TreeMap Nat Nat) (h : ∃ k, I.fits k m) :
    ∃ k, I.fits k { m with distances := distances } := by
  obtain ⟨k, hfits⟩ := h
  obtain ⟨k', -, hfits', -⟩ := hI.aside m.output m.world distances hfits
  exact ⟨k', hfits'⟩

include hO hA

/-- One run in a session. -/
theorem interpret_overseen {m : Machine} (statements : List Stmt) (h : ∃ k, I.fits k m) :
    interpret (overseenEvaluators O stop fuel) statements { m with output := "" } =
        interpret (watchedEvaluators A stop fuel) statements { m with output := "" } ∧
      ∃ k, I.fits k (Result.machine
        (interpret (watchedEvaluators A stop fuel) statements { m with output := "" })) := by
  obtain ⟨k, hfits⟩ := h
  obtain ⟨k₁, -, hfits₁, -⟩ := hI.aside "" m.world m.distances hfits
  obtain ⟨heq, hends⟩ := keeps_interpret hI hO hA fuel statements hfits₁
  refine ⟨heq, ?_⟩
  cases hresult : interpret (watchedEvaluators A stop fuel) statements { m with output := "" } with
  | ok _ m' | error stopped m' =>
      rw [hresult] at hends
      obtain ⟨-, k', -, hfits', -⟩ := hends
      exact ⟨k', hfits'⟩

/-- A session under oversight goes the same way, and the account fits the machine at its end. -/
theorem serve_overseen (requests : List Request) {s : Session} (hs : ∃ k, I.fits k s.machine) :
    Session.sequence (Session.serve (overseenEvaluators O stop fuel)) requests s =
        Session.sequence (Session.serve (watchedEvaluators A stop fuel)) requests s ∧
      ∃ k, I.fits k (Session.sequence (Session.serve (watchedEvaluators A stop fuel))
        requests s).2.machine :=
  Session.sequence_of_step (P := fun m => ∃ k, I.fits k m)
    (Session.serve_congr (later_distances hI) (interpret_overseen hI hO hA fuel)) requests hs

/-- The same for sessions that read text only. -/
theorem feed_overseen (inputs : List Input) {s : Session} (hs : ∃ k, I.fits k s.machine) :
    Session.sequence (Session.feed (overseenEvaluators O stop fuel)) inputs s =
        Session.sequence (Session.feed (watchedEvaluators A stop fuel)) inputs s ∧
      ∃ k, I.fits k (Session.sequence (Session.feed (watchedEvaluators A stop fuel))
        inputs s).2.machine :=
  Session.sequence_of_step (P := fun m => ∃ k, I.fits k m)
    (Session.feed_congr (later_distances hI) (interpret_overseen hI hO hA fuel)) inputs hs

end Account
end TraitScript
