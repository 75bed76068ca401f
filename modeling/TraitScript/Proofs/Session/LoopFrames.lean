import TraitScript.Proofs.Moved.Contained

/-!
# Loops that need no frames of their own

A `for` goes on in a copy of its frame in every round, so that functions made in different rounds
keep different variables. Where a loop makes no functions, nothing can tell. No value leads to its
frames, whatever the functions, getters and initializers do that it calls, and a copy holds all that
was set in the frame before. So the loop has the same effect as if it went on in one frame that is
never copied.
-/

namespace TraitScript

open Eval

/-- Two runs from one machine that end with the same error or with the same flow. Afterwards the
machines are the same but for frames that were made meanwhile: every frame that was there stands for
itself alone, corresponding frames bind corresponding values and lie in corresponding frames, and so
do the fields of all objects, while output, identities and the outside world are equal, with the
order in which the tables of traits are walked. Values correspond when they differ at most in which
of the new frames their functions have. -/
def Machine.SameEffect (m : Machine) (result result' : Result Flow) : Prop :=
  Alongside (.upTo m.frames.size) []
    (fun current current' => current = m.current ∧ current' = m.current) Flow.Moved result result'

/-- Wherever nothing leads out of the machine, a loop that captures nothing may go on in one
frame. -/
theorem Machine.Contained.sameEffect {m : Machine} (h : m.Contained) {initial : Option Stmt}
    {condition increment : Option Expr} {body : Stmt}
    (hfree : Stmt.isCaptureFree (.forLoop initial condition increment body) = true) (fuel : Nat) :
    m.SameEffect (execute (fuel + 1) (.forLoop initial condition increment body) m)
      (executeInPlace (evaluators fuel) fuel initial condition increment body m) := by
  have hhere : (FramePairs.upTo m.frames.size).with [] m.current m.current := .inl ⟨rfl, h.current⟩
  rw [execute]
  exact matches_executeInPlace (S := ⟨_, [], m.current, m.current, hhere⟩) (moves_evaluators fuel)
    fuel hfree m m ⟨h.moved, rfl, rfl⟩

/-- Wherever a loop that captures nothing is executed, it has the same effect as in one frame. -/
def loopOversight : Oversight where
  execute stmt m _ :=
    ∀ initial condition increment body, stmt = .forLoop initial condition increment body →
      stmt.isCaptureFree = true →
    ∀ fuel, m.SameEffect (execute (fuel + 1) stmt m)
      (executeInPlace (evaluators fuel) fuel initial condition increment body m)

theorem Account.shows_loopOversight : containment.Shows {} loopOversight where
  evaluate_assumed _ := trivial
  execute_assumed _ := trivial
  executeBlock_assumed _ := trivial
  executeTop_assumed _ := trivial
  evaluate _ _ _ := trivial
  execute _ hfits _ := by
    rintro initial condition increment body rfl hfree fuel
    exact hfits.2.sameEffect hfree fuel
  executeBlock _ _ _ _ := trivial
  invoke _ _ _ _ := trivial
  executeTop _ _ _ := trivial
  binds _ _ _ := trivial

namespace Session

open Account

/-- In every session, wherever a `for` is executed in which there is no function, class or trait, it
has the same effect as the same loop in one frame that is never copied, with any fuel. -/
theorem loop_frames_invisible (natives : List Native)
    (hnatives : ∀ native ∈ natives, native.Honest ∧ native.Blind) (world : World)
    (requests : List Request) (fuel : Nat) (stop : Stop) :
    sequence (serve (overseenEvaluators loopOversight stop fuel)) requests (start natives world) =
      sequence (serve (evaluators fuel)) requests (start natives world) := by
  have hserve :=
    serve_overseen lawful_containment shows_loopOversight (handles_containment stop) fuel requests
    (s := start natives world) (containment_fits_start hnatives world)
  simp only [watchedEvaluators_nothing] at hserve
  exact hserve.1

/-- A loop that calls a function and a method, skips a round and is left early. -/
def plainLoop : Request :=
  .text (.program (Utf8.encode
    ("class A \x7b add(n) \x7b this.sum = this.sum + n; " ++
      "return fun() \x7b return n; \x7d; \x7d \x7d " ++
      "var a = A(); a.sum = 0; var last; " ++
      "for (var i = 0; i < 9; i = i + 1) \x7b if (i == 1) continue; if (i == 5) break; " ++
      "last = a.add(i); \x7d print a.sum + last();")))

theorem loop_frames_invisible_plainLoop :
    (∀ native ∈ Native.standard, native.Honest ∧ native.Blind) ∧
      (sequence (serve (evaluators 20)) [plainLoop] (start Native.standard {})).1.map
      (·.output) = ["13\n"] ∧
      ∀ stop, sequence (serve (overseenEvaluators loopOversight stop 20)) [plainLoop]
        (start Native.standard {}) =
        sequence (serve (evaluators 20)) [plainLoop] (start Native.standard {}) := by
  have hnatives : ∀ native ∈ Native.standard, native.Honest ∧ native.Blind := fun native hnative =>
    ⟨Native.honest_standard native hnative, Native.blind_standard native hnative⟩
  exact ⟨hnatives,
    by decide +kernel, loop_frames_invisible Native.standard hnatives {} [plainLoop] 20⟩

end Session
end TraitScript
