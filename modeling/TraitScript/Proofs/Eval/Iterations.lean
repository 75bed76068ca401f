import Mathlib.Data.List.Nodup
import TraitScript.Proofs.Eval.OwnCode

/-!
# The iterations of a `for`

A run of a `for` is split into its iterations, each with the machine in which it begins. The frame
that is current there is the frame of the iteration. Iterations have frames of their own inside the
frame around the loop, and the frame of an iteration starts out as a copy of the one before at the
end of its body. All of this holds in any machine, however the clauses and the body end and whatever
they call.
-/

namespace TraitScript

open Eval

/-- The loop goes on after a body that has ended in this way. -/
def Flow.GoesOn : Flow → Prop
  | .normal | .continuing => True
  | .breaking | .returning _ => False

/-- How a loop ends that its body leaves. -/
def Flow.ofLoop : Flow → Flow
  | .breaking => .normal
  | flow => flow

/-- An iteration that was begun: the machine in which it begins, that in which its body is run if
the condition holds, and that in which the body has ended if the loop goes on. -/
structure Iteration where
  begins : Machine
  enters : Option Machine := none
  leaves : Option Machine := none

/-- The frame of an iteration. -/
def Iteration.frame (iteration : Iteration) : FrameId := iteration.begins.current

/-- The machine in the frame of a loop that is entered. -/
def Machine.enterFor (m : Machine) (stmt : Stmt) : Machine :=
  { m.addFrame (.loop stmt) ⟨∅, some m.current⟩ with current := m.frames.size }

namespace Eval

/-! ### Runs -/

section Runs

variable (condition increment : Option (Eval Value)) (body : Eval Flow)

/-- The iterations of a loop from a machine on, and how the last of them ends it. After a body that
is left by `break` or `return` nothing more is done; after any other the loop goes on in a copy of
the frame, where the increment is evaluated. -/
inductive Rounds : (bound : Nat) → Machine → List Iteration → Result Flow → Prop
  | outOfFuel (m : Machine) : Rounds 0 m [] (.error .outOfFuel m)
  | conditionStops {bound : Nat} {m m' : Machine} {stop : Stop}
      (hcondition : holds condition m = .error stop m') :
    Rounds (bound + 1) m [⟨m, none, none⟩] (.error stop m')
  | conditionFails {bound : Nat} {m m' : Machine} (hcondition : holds condition m = .ok false m') :
    Rounds (bound + 1) m [⟨m, none, none⟩] (.ok .normal m')
  | bodyStops {bound : Nat} {m m₁ m' : Machine} {stop : Stop}
      (hcondition : holds condition m = .ok true m₁)
    (hbody : body m₁ = .error stop m') : Rounds (bound + 1) m [⟨m, some m₁, none⟩] (.error stop m')
  | bodyLeaves {bound : Nat} {m m₁ m' : Machine} {flow : Flow}
      (hcondition : holds condition m = .ok true m₁)
    (hbody : body m₁ = .ok flow m') (hflow : ¬ flow.GoesOn) :
    Rounds (bound + 1) m [⟨m, some m₁, none⟩] (.ok flow.ofLoop m')
  | incrementStops {bound : Nat} {m m₁ m₂ m' : Machine} {flow : Flow} {stop : Stop}
      (hcondition : holds condition m = .ok true m₁)
    (hbody : body m₁ = .ok flow m₂) (hflow : flow.GoesOn)
    (hincrement : perhaps increment m₂.nextRound = .error stop m') :
    Rounds (bound + 1) m [⟨m, some m₁, some m₂⟩] (.error stop m')
  | next {bound : Nat} {m m₁ m₂ m₃ : Machine} {flow : Flow} {iterations : List Iteration}
      {result : Result Flow}
    (hcondition : holds condition m = .ok true m₁) (hbody : body m₁ = .ok flow m₂)
    (hflow : flow.GoesOn)
    (hincrement : perhaps increment m₂.nextRound = .ok () m₃)
    (hrest : Rounds bound m₃ iterations result) :
    Rounds (bound + 1) m (⟨m, some m₁, some m₂⟩ :: iterations) result

variable {condition increment body} {bound : Nat} {m : Machine}

/-- Every loop runs in iterations. -/
theorem exists_rounds (bound : Nat) (m : Machine) :
    ∃ iterations result, Rounds condition increment body bound m iterations result := by
  induction bound generalizing m with
  | zero => exact ⟨_, _, .outOfFuel m⟩
  | succ bound ih =>
      cases hcondition : holds condition m with
      | error stop m' => exact ⟨_, _, .conditionStops hcondition⟩
      | ok truth m₁ =>
          cases truth with
          | false => exact ⟨_, _, .conditionFails hcondition⟩
          | true =>
              cases hbody : body m₁ with
              | error stop m' => exact ⟨_, _, .bodyStops hcondition hbody⟩
              | ok flow m₂ =>
                  by_cases hflow : flow.GoesOn
                  · cases hincrement : perhaps increment m₂.nextRound with
                    | error stop m' =>
                      exact ⟨_, _, .incrementStops hcondition hbody hflow hincrement⟩
                    | ok _ m₃ =>
                        obtain ⟨iterations, result, hrest⟩ := ih m₃
                        exact ⟨_, _, .next hcondition hbody hflow hincrement hrest⟩
                  · exact ⟨_, _, .bodyLeaves hcondition hbody hflow⟩

/-- After a body that does not leave the loop come the copy of the frame, the increment and the
further rounds. -/
theorem forLoop_goesOn {m₁ m₂ : Machine} {flow : Flow}
    (hcondition : holds condition m = .ok true m₁) (hbody : body m₁ = .ok flow m₂)
    (hflow : flow.GoesOn) :
    forLoop condition increment body (bound + 1) m =
      (do perhaps increment; forLoop condition increment body bound) m₂.nextRound := by
  simp only [forLoop, Bind.bind, EStateM.bind, hcondition, if_true, hbody]
  cases flow with
  | breaking | returning _ => exact hflow.elim
  | normal | continuing => rfl

/-- And it does nothing else. -/
theorem Rounds.forLoop_eq {iterations : List Iteration} {result : Result Flow}
    (h : Rounds condition increment body bound m iterations result) :
    forLoop condition increment body bound m = result := by
  induction h with
  | outOfFuel m => rfl
  | conditionStops hcondition => simp only [forLoop, Bind.bind, EStateM.bind, hcondition]
  | conditionFails hcondition =>
      simp only [forLoop, Bind.bind, EStateM.bind, hcondition]
      rfl
  | bodyStops hcondition hbody =>
    simp only [forLoop, Bind.bind, EStateM.bind, hcondition, if_true, hbody]
  | @bodyLeaves _ _ _ _ flow hcondition hbody hflow =>
      simp only [forLoop, Bind.bind, EStateM.bind, hcondition, if_true, hbody]
      cases flow with
      | breaking | returning _ => rfl
      | normal | continuing => exact (hflow trivial).elim
  | incrementStops hcondition hbody hflow hincrement =>
      rw [forLoop_goesOn hcondition hbody hflow]
      simp only [Bind.bind, EStateM.bind, hincrement]
  | next hcondition hbody hflow hincrement _ ih =>
      rw [forLoop_goesOn hcondition hbody hflow]
      simp only [Bind.bind, EStateM.bind, hincrement, ih]

/-- Bodies are run where the condition holds. If one ends normally or by `continue` the loop goes on
from there; if it ends in another way nothing more is evaluated. -/
theorem Rounds.bodies {iterations : List Iteration} {result : Result Flow}
    (h : Rounds condition increment body bound m iterations result) :
    ∀ it ∈ iterations, ∀ m₁, it.enters = some m₁ → holds condition it.begins = .ok true m₁ ∧
      ∀ flow m₂, body m₁ = .ok flow m₂ → (flow.GoesOn → it.leaves = some m₂) ∧
        (¬ flow.GoesOn → result = .ok flow.ofLoop m₂) := by
  induction h with
  | outOfFuel m => exact nofun
  | conditionStops _ | conditionFails _ => exact List.forall_mem_singleton.2 nofun
  | bodyStops hcondition hbody =>
      refine List.forall_mem_singleton.2 ?_
      rintro _ ⟨⟩
      refine ⟨hcondition, fun flow m₂ h => ?_⟩
      rw [hbody] at h
      cases h
  | bodyLeaves hcondition hbody hflow =>
      refine List.forall_mem_singleton.2 ?_
      rintro _ ⟨⟩
      refine ⟨hcondition, fun flow m₂ h => ?_⟩
      rw [hbody] at h
      cases h
      exact ⟨fun hgoesOn => (hflow hgoesOn).elim, fun _ => rfl⟩
  | incrementStops hcondition hbody hflow _ =>
      refine List.forall_mem_singleton.2 ?_
      rintro _ ⟨⟩
      refine ⟨hcondition, fun flow m₂ h => ?_⟩
      rw [hbody] at h
      cases h
      exact ⟨fun _ => rfl, fun hleaves => (hleaves hflow).elim⟩
  | next hcondition hbody hflow _ _ ih =>
      refine List.forall_mem_cons.2 ⟨?_, ih⟩
      rintro _ ⟨⟩
      refine ⟨hcondition, fun flow m₂ h => ?_⟩
      rw [hbody] at h
      cases h
      exact ⟨fun _ => rfl, fun hleaves => (hleaves hflow).elim⟩

end Runs

/-! ### Frames of iterations -/

/-- The iterations have frames of their own inside one frame; body and condition of an iteration run
in its frame, and the frame of the next is a copy of it at the end of the body, where the increment
is evaluated once. -/
structure Separate (increment : Option (Eval Value)) (around : FrameId)
    (iterations : List Iteration) (last : Machine) : Prop where
  distinct : (iterations.map Iteration.frame).Nodup
  around : ∀ it ∈ iterations, it.begins.frames.enclosing? it.frame = some around
  inside : ∀ it ∈ iterations, ∀ m, it.enters = some m ∨ it.leaves = some m → m.current = it.frame
  grows : ∀ it ∈ iterations, it.begins.frames.Grows last.frames ∧ ∀ m, it.enters = some m ∨
      it.leaves = some m → m.frames.Grows last.frames
  copied : ∀ k it next, iterations[k]? = some it → iterations[k + 1]? = some next →
      ∃ m, it.leaves = some m ∧
    m.nextRound.current = next.frame ∧
    m.nextRound.frames.slots next.frame = m.frames.slots it.frame ∧
    perhaps increment m.nextRound = .ok () next.begins

section Frames

variable {condition increment : Option (Eval Value)} {body : Eval Flow} {bound : Nat} {m : Machine}
  {around : FrameId}
  {iterations : List Iteration} {result : Result Flow}

/-- The copy of a frame lies where the frame lies and binds the same. -/
theorem nextRound_frame (m : Machine) :
    m.nextRound.current = m.frames.size ∧ m.frames.Grows m.nextRound.frames ∧
    m.nextRound.frames.enclosing? m.frames.size = m.frames.enclosing? m.current ∧
    m.nextRound.frames.slots m.frames.size = m.frames.slots m.current := by
  refine ⟨rfl, m.frames.grows_add _, ?_, ?_⟩
  · show (m.frames.add _).enclosing? _ = _
    rw [FrameStore.enclosing?_add, if_pos rfl]
  · show (m.frames.add _).slots _ = _
    rw [FrameStore.slots_add, if_pos rfl]

/-- The first iteration begins where the loop does, and the frames of all others are new. -/
theorem Rounds.frames (hcondition : Steady (holds condition))
    (hincrement : Steady (perhaps increment)) (hbody : Steady body)
    (h : Rounds condition increment body bound m iterations result) :
    (∀ it, iterations[0]? = some it → it.begins = m) ∧ ∀ it ∈ iterations, it.frame = m.current ∨
      m.frames.size ≤ it.frame := by
  induction h with
  | outOfFuel m => exact ⟨nofun, nofun⟩
  | conditionStops _ | conditionFails _ | bodyStops _ _ | bodyLeaves _ _ _
  | incrementStops _ _ _ _ =>
      refine ⟨?_, ?_⟩
      · rintro it ⟨⟩
        rfl
      · exact List.forall_mem_singleton.2 (.inl rfl)
  | next hc hb _ hi _ ih =>
      refine ⟨?_, List.forall_mem_cons.2 ⟨.inl rfl, fun it hit => .inr ?_⟩⟩
      · rintro it ⟨⟩
        rfl
      · have hsize := Nat.le_trans (hcondition.of_ok hc).1.size (hbody.of_ok hb).1.size
        obtain ⟨hgrows, hcurrent⟩ := hincrement.of_ok hi
        rcases ih.2 it hit with hfirst | hlater
        · rw [hfirst, hcurrent]
          exact hsize
        · exact Nat.le_trans
            (Nat.le_trans hsize (Nat.le_trans (nextRound_frame _).2.1.size hgrows.size)) hlater

/-- Frames are only added up to the end of the loop. -/
theorem Rounds.grows (hcondition : Steady (holds condition))
    (hincrement : Steady (perhaps increment)) (hbody : Steady body)
    (h : Rounds condition increment body bound m iterations result) :
    m.frames.Grows result.machine.frames := by
  induction h with
  | outOfFuel m => exact .refl _
  | conditionStops hc => exact (hcondition.of_error hc).1
  | conditionFails hc => exact (hcondition.of_ok hc).1
  | bodyStops hc hb => exact (hcondition.of_ok hc).1.trans (hbody.of_error hb).1
  | bodyLeaves hc hb _ => exact (hcondition.of_ok hc).1.trans (hbody.of_ok hb).1
  | incrementStops hc hb _ hi =>
      exact ((hcondition.of_ok hc).1.trans (hbody.of_ok hb).1).trans
        ((nextRound_frame _).2.1.trans (hincrement.of_error hi).1)
  | next hc hb _ hi _ ih =>
      exact ((hcondition.of_ok hc).1.trans (hbody.of_ok hb).1).trans
        (((nextRound_frame _).2.1.trans (hincrement.of_ok hi).1).trans ih)

/-- An iteration after which there is no other. -/
theorem separate_last {last : Machine} {enters leaves : Option Machine}
    (haround : m.frames.enclosing? m.current = some around) (hgrows : m.frames.Grows last.frames)
    (hothers : ∀ m', enters = some m' ∨ leaves = some m' → m'.current = m.current ∧
      m'.frames.Grows last.frames) :
    Separate increment around [⟨m, enters, leaves⟩] last where
  distinct := List.nodup_cons.2 ⟨List.not_mem_nil, List.nodup_nil⟩
  around := List.forall_mem_singleton.2 haround
  inside := List.forall_mem_singleton.2 fun m' hm' => (hothers m' hm').1
  grows := List.forall_mem_singleton.2 ⟨hgrows, fun m' hm' => (hothers m' hm').2⟩
  copied k _ next _ hnext := by simp at hnext

/-- An iteration after which there are others, which begin in a copy of its frame. -/
theorem Separate.cons {last m₁ m₂ m₃ : Machine} (h : Separate increment around iterations last)
    (hm₁ : m.frames.Grows m₁.frames ∧ m₁.current = m.current)
    (hm₂ : m₁.frames.Grows m₂.frames ∧ m₂.current = m₁.current)
    (hincrement : perhaps increment m₂.nextRound = .ok () m₃) (hm₃ : m₃.frames.Grows last.frames)
    (hcopy : m₂.nextRound.frames.Grows m₃.frames ∧ m₃.current = m₂.nextRound.current)
    (hfirst : ∀ it, iterations[0]? = some it → it.begins = m₃)
    (hnew : ∀ it ∈ iterations, it.frame = m₃.current ∨ m₃.frames.size ≤ it.frame)
    (haround : m.frames.enclosing? m.current = some around) :
    Separate increment around (⟨m, some m₁, some m₂⟩ :: iterations) last := by
  have hlast₂ : m₂.frames.Grows last.frames := (nextRound_frame m₂).2.1.trans (hcopy.1.trans hm₃)
  refine ⟨?_, List.forall_mem_cons.2 ⟨haround, h.around⟩, List.forall_mem_cons.2 ⟨?_, h.inside⟩,
    List.forall_mem_cons.2 ⟨⟨?_, ?_⟩, h.grows⟩,
    fun k it next hit hnext => ?_⟩
  · -- The frame of the first iteration was there before those of the others were made.
    refine List.nodup_cons.2 ⟨fun hmem => ?_, h.distinct⟩
    obtain ⟨it, hit, hframe⟩ := List.mem_map.1 hmem
    have hold : m.current < m₂.frames.size :=
      Nat.lt_of_lt_of_le (FrameStore.lt_size_of_enclosing? haround) (hm₁.1.trans hm₂.1).size
    have hsize : m₂.frames.size ≤ it.frame := by
      rcases hnew it hit with hcurrent | hlater
      · rw [hcurrent, hcopy.2]
        exact Nat.le_refl _
      · exact Nat.le_trans ((nextRound_frame m₂).2.1.trans hcopy.1).size hlater
    rw [hframe] at hsize
    exact Nat.lt_irrefl _ (Nat.lt_of_lt_of_le hold hsize)
  · rintro m' (⟨⟨⟩⟩ | ⟨⟨⟩⟩)
    · exact hm₁.2
    · exact hm₂.2.trans hm₁.2
  · exact (hm₁.1.trans hm₂.1).trans hlast₂
  · rintro m' (⟨⟨⟩⟩ | ⟨⟨⟩⟩)
    · exact hm₂.1.trans hlast₂
    · exact hlast₂
  · cases k with
    | zero =>
        cases hit
        have hbegins := hfirst next hnext
        have hcurrent : m₂.nextRound.current = next.frame := by
          rw [Iteration.frame, hbegins, hcopy.2]
        refine ⟨m₂, rfl, hcurrent, ?_, hbegins ▸ hincrement⟩
        rw [← hcurrent]
        exact (nextRound_frame m₂).2.2.2.trans (by rw [Iteration.frame, ← hm₁.2, ← hm₂.2])
    | succ k => exact h.copied k it next hit hnext

theorem Rounds.separate (hcondition : Steady (holds condition))
    (hincrement : Steady (perhaps increment)) (hbody : Steady body)
    (h : Rounds condition increment body bound m iterations result)
    (haround : m.frames.enclosing? m.current = some around) :
    Separate increment around iterations result.machine := by
  induction h with
  | outOfFuel m => exact ⟨List.nodup_nil, nofun, nofun, nofun, nofun⟩
  | conditionStops hc =>
    exact separate_last haround (hcondition.of_error hc).1 (by rintro m' (⟨⟨⟩⟩ | ⟨⟨⟩⟩))
  | conditionFails hc =>
    exact separate_last haround (hcondition.of_ok hc).1 (by rintro m' (⟨⟨⟩⟩ | ⟨⟨⟩⟩))
  | bodyStops hc hb =>
      obtain ⟨hgrows, hcurrent⟩ := hcondition.of_ok hc
      refine separate_last haround (hgrows.trans (hbody.of_error hb).1) ?_
      rintro m' (⟨⟨⟩⟩ | ⟨⟨⟩⟩)
      exact ⟨hcurrent, (hbody.of_error hb).1⟩
  | bodyLeaves hc hb _ =>
      obtain ⟨hgrows, hcurrent⟩ := hcondition.of_ok hc
      refine separate_last haround (hgrows.trans (hbody.of_ok hb).1) ?_
      rintro m' (⟨⟨⟩⟩ | ⟨⟨⟩⟩)
      exact ⟨hcurrent, (hbody.of_ok hb).1⟩
  | incrementStops hc hb _ hi =>
      obtain ⟨hgrows₁, hcurrent₁⟩ := hcondition.of_ok hc
      obtain ⟨hgrows₂, hcurrent₂⟩ := hbody.of_ok hb
      have hlast := (nextRound_frame _).2.1.trans (hincrement.of_error hi).1
      refine separate_last haround ((hgrows₁.trans hgrows₂).trans hlast) ?_
      rintro m' (⟨⟨⟩⟩ | ⟨⟨⟩⟩)
      · exact ⟨hcurrent₁, hgrows₂.trans hlast⟩
      · exact ⟨hcurrent₂.trans hcurrent₁, hlast⟩
  | @next _ m m₁ m₂ m₃ _ _ _ hc hb _ hi hrest ih =>
      have hm₁ := hcondition.of_ok hc
      have hm₂ := hbody.of_ok hb
      have hm₃ := hincrement.of_ok hi
      obtain ⟨hfirst, hnew⟩ := hrest.frames hcondition hincrement hbody
      refine (ih ?_).cons hm₁ hm₂ hi (hrest.grows hcondition hincrement hbody) hm₃
        hfirst hnew haround
      -- The copy lies in the same frame as what it is a copy of.
      have hcopy : m₂.nextRound.frames.enclosing? m₂.nextRound.current = some around := by
        rw [(nextRound_frame m₂).1, (nextRound_frame m₂).2.2.1, hm₂.2, hm₁.2]
        exact (hm₁.1.trans hm₂.1).enclosing_some haround
      rw [hm₃.2]
      exact hm₃.1.enclosing_some hcopy

end Frames

/-! ### Every `for` -/

/-- A result after which code goes on in a frame. -/
def Result.backIn {α : Type} (frame : FrameId) : Result α → Result α
  | .ok a m => .ok a { m with current := frame }
  | .error stop m => .error stop { m with current := frame }

/-- The run of a `for` in a machine: its initializer is run in a new frame, and if that succeeds the
iterations follow. -/
inductive ForRun (fuel : Nat) (initial : Option Stmt) (condition increment : Option Expr)
    (body : Stmt) (m : Machine) :
    List Iteration → Result Flow → Prop
  | initialStops {m' : Machine} {stop : Stop}
    (hinitial : enterLoop (evaluators fuel) initial
      (m.enterFor (.forLoop initial condition increment body)) = .error stop m') :
    ForRun fuel initial condition increment body m [] (.error stop m')
  | iterates {m' : Machine} {iterations : List Iteration} {result : Result Flow}
    (hinitial : enterLoop (evaluators fuel) initial
      (m.enterFor (.forLoop initial condition increment body)) = .ok () m')
    (hrounds : Rounds (condition.map (evaluate fuel)) (increment.map (evaluate fuel))
      (execute fuel body) fuel m' iterations result) :
    ForRun fuel initial condition increment body m iterations result

section Statement

variable {fuel : Nat} {initial : Option Stmt} {condition increment : Option Expr} {body : Stmt}
  {m : Machine} {iterations : List Iteration}
  {result : Result Flow}

theorem exists_forRun (fuel : Nat) (initial : Option Stmt) (condition increment : Option Expr)
    (body : Stmt) (m : Machine) :
    ∃ iterations result, ForRun fuel initial condition increment body m iterations result := by
  cases hinitial : enterLoop (evaluators fuel) initial
    (m.enterFor (.forLoop initial condition increment body)) with
  | error stop m' => exact ⟨_, _, .initialStops hinitial⟩
  | ok _ m' =>
      obtain ⟨iterations, result, hrounds⟩ := exists_rounds fuel m'
      exact ⟨_, _, .iterates hinitial hrounds⟩

/-- Executing a `for` is its run, after which code goes on in the frame around. -/
theorem ForRun.execute_eq (h : ForRun fuel initial condition increment body m iterations result) :
    execute (fuel + 1) (.forLoop initial condition increment body) m =
      Result.backIn m.current result := by
  have hexecute : execute (fuel + 1) (.forLoop initial condition increment body) m =
      Result.backIn m.current ((do
        enterLoop (evaluators fuel) initial
        forLoop (condition.map (evaluate fuel)) (increment.map (evaluate fuel))
          (execute fuel body) fuel)
        (m.enterFor (.forLoop initial condition increment body))) := by
    show (inFrame m.frames.size _ (m.addFrame _ _) : Result Flow) = _
    unfold inFrame Result.backIn
    rfl
  rw [hexecute]
  congr 1
  cases h with
  | initialStops hinitial => simp only [Bind.bind, EStateM.bind, hinitial]
  | iterates hinitial hrounds => simp only [Bind.bind, EStateM.bind, hinitial, hrounds.forLoop_eq]

theorem ForRun.separate (h : ForRun fuel initial condition increment body m iterations result) :
    Separate (increment.map (evaluate fuel)) m.current iterations result.machine ∧
      ∀ it, iterations[0]? = some it → it.frame = m.frames.size := by
  cases h with
  | initialStops hinitial => exact ⟨⟨List.nodup_nil, nofun, nofun, nofun, nofun⟩, nofun⟩
  | iterates hinitial hrounds =>
      obtain ⟨hgrows, hcurrent⟩ := (steady_enterLoop fuel initial).of_ok hinitial
      have haround : (m.enterFor (.forLoop initial condition increment body)).frames.enclosing?
          m.frames.size = some m.current := by
        show (m.frames.add _).enclosing? _ = _
        rw [FrameStore.enclosing?_add, if_pos rfl]
      have hsteady := hrounds.frames (steady_holds fuel condition) (steady_perhaps fuel increment)
        (steady_execute fuel body)
      refine ⟨hrounds.separate (steady_holds fuel condition) (steady_perhaps fuel increment)
        (steady_execute fuel body) ?_, fun it hit => ?_⟩
      · rw [hcurrent]
        exact hgrows.enclosing_some haround
      · rw [Iteration.frame, hsteady.1 it hit, hcurrent]
        rfl

theorem ForRun.bodies (h : ForRun fuel initial condition increment body m iterations result) :
    ∀ it ∈ iterations, ∀ m₁, it.enters = some m₁ →
      holds (condition.map (evaluate fuel)) it.begins = .ok true m₁ ∧
      ∀ flow m₂, execute fuel body m₁ = .ok flow m₂ → (flow.GoesOn → it.leaves = some m₂) ∧
        (¬ flow.GoesOn → result = .ok flow.ofLoop m₂) := by
  cases h with
  | initialStops hinitial => exact nofun
  | iterates hinitial hrounds => exact hrounds.bodies

end Statement

/-- Every execution of a `for` in any machine runs in iterations. Their frames are different and lie
in the frame around the loop, and the initializer runs in the first of them. The condition and the
body of an iteration run in its frame. The next iteration has the increment evaluated in its own
frame, which was made at the end of the body with the variables that the frame before had then; this
happens after a body that ends normally or by `continue`, and after any other body nothing more is
evaluated. All code of a part that is run in a frame, up to the functions it calls, runs in frames
that lie in it as many hops further in as there are scopes around the code; functions that are made
there keep that distance, and so find the frames of their own iterations in whatever becomes of the
frames. -/
theorem for_iterations_have_frames (fuel : Nat) (initial : Option Stmt)
    (condition increment : Option Expr) (body : Stmt) (m : Machine) :
    ∃ iterations result, ForRun fuel initial condition increment body m iterations result ∧
      execute (fuel + 1) (.forLoop initial condition increment body) m =
      Result.backIn m.current result ∧
      Separate (increment.map (evaluate fuel)) m.current iterations result.machine ∧
      (m.enterFor (.forLoop initial condition increment body)).current = m.frames.size ∧
      (∀ it, iterations[0]? = some it → it.frame = m.frames.size) ∧
      (∀ it ∈ iterations, ∀ m₁, it.enters = some m₁ →
          holds (condition.map (evaluate fuel)) it.begins = .ok true m₁ ∧
        ∀ flow m₂, execute fuel body m₁ = .ok flow m₂ → (flow.GoesOn → it.leaves = some m₂) ∧
          (¬ flow.GoesOn → result = .ok flow.ofLoop m₂)) ∧
      (∀ (inside : Machine) (stop : Stop),
        (∀ stmt, (ownEvaluators inside.current stop fuel 0).execute stmt inside =
            execute fuel stmt inside) ∧
        ∀ expr, (ownEvaluators inside.current stop fuel 0).evaluate expr inside =
          evaluate fuel expr inside) ∧
      (∀ (inside : Machine) (decl : FunctionDecl), ∃ made later,
        evaluate (fuel + 1) (.function decl) inside = .ok (.function made) later ∧
        made.frame = inside.current) ∧
      ∀ (j k : Nat) (it it' : Iteration), iterations[j]? = some it →
        iterations[k]? = some it' → j ≠ k →
        ∀ depth depth' (inside inside' : Machine) (later : FrameStore Value),
          Lies it.frame depth inside → Lies it'.frame depth' inside' →
          inside.frames.Grows later → inside'.frames.Grows later →
          later.ancestor inside.current depth = .ok it.frame ∧
          later.ancestor inside'.current depth' = .ok it'.frame ∧ it.frame ≠ it'.frame := by
  obtain ⟨iterations, result, hrun⟩ := exists_forRun fuel initial condition increment body m
  obtain ⟨hseparate, hfirst⟩ := hrun.separate
  refine ⟨iterations, result, hrun, hrun.execute_eq, hseparate, rfl, hfirst, hrun.bodies,
    fun inside stop =>
      ⟨fun stmt => execute_own fuel stop stmt inside, fun expr =>
        evaluate_own fuel stop expr inside⟩,
    fun inside decl => ⟨_, _, rfl, rfl⟩, ?_⟩
  intro j k it it' hj hk hne depth depth' inside inside' later hlies hlies' hgrows hgrows'
  refine ⟨hgrows.ancestor hlies, hgrows'.ancestor hlies', fun heq => hne ?_⟩
  have hjframe : (iterations.map Iteration.frame)[j]? = some it.frame := by
    rw [List.getElem?_map, hj, Option.map_some]
  have hkframe : (iterations.map Iteration.frame)[k]? = some it.frame := by
    rw [List.getElem?_map, hk, Option.map_some, heq]
  obtain ⟨hjlt, hjget⟩ := List.getElem?_eq_some_iff.1 hjframe
  obtain ⟨hklt, hkget⟩ := List.getElem?_eq_some_iff.1 hkframe
  exact (List.Nodup.getElem_inj_iff hseparate.distinct).1 (hjget.trans hkget.symm)

end Eval
end TraitScript
