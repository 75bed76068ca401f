import TraitScript.Proofs.Account.Session

/-!
# Code goes on where it came from

Blocks, loops, calls and declarations run code in other frames, and a run can stop at any depth
inside them. However an evaluation ends, the frame that was current before is current again.
Top-level code runs in the global frame, so that is where every run ends and the next one starts.
Nothing has to be known of the machine for this but that its native functions are honest: no tree
has to be resolved, and no frame has to exist.
-/

namespace TraitScript

/-- An account of the global frame, which stays the same, and of nothing else. -/
def Account.globalFrame : Account where
  Known := FrameId
  le k k' := k = k'
  fits k m := m.globals = k ∧ ∀ native ∈ m.natives, native.Honest
  admits _ _ := True
  scope _ _ := True
  receives _ _ _ := True

namespace Account

theorem globalFrame.later {k : globalFrame.Known} {m m' : Machine} {P : globalFrame.Known → Prop}
    (hfits : globalFrame.fits k m) (hglobals : m'.globals = m.globals)
    (hnatives : m'.natives = m.natives) (hP : ∀ k, P k) : globalFrame.Later k m' P := by
  refine ⟨k, rfl, ⟨hglobals.trans hfits.1, ?_⟩, hP k⟩
  rw [hnatives]
  exact hfits.2

theorem lawful_globalFrame : globalFrame.Lawful where
  refl _ := rfl
  trans := Eq.trans
  admits_mono _ _ := trivial
  scope_mono _ _ := trivial
  plain _ := trivial
  native := trivial
  slots _ _ := trivial
  fields _ _ _ := trivial
  natives hfits native hnative := .inl (hfits.2 native hnative)
  current _ := trivial
  globals _ := trivial
  enter hfits _ := globalFrame.later hfits rfl rfl fun _ => trivial
  aside _ _ _ hfits := globalFrame.later hfits rfl rfl fun _ => trivial
  bind hfits _ := globalFrame.later hfits rfl rfl fun _ => trivial
  setField hfits _ := globalFrame.later hfits rfl rfl fun _ => trivial
  statement hfits _ _ := globalFrame.later hfits rfl rfl fun _ => trivial
  call hfits _ := globalFrame.later hfits rfl rfl fun _ => trivial
  nextRound hfits := globalFrame.later hfits rfl rfl fun _ => trivial
  function _ hfits := globalFrame.later hfits rfl rfl fun _ => trivial
  inst hfits _ := globalFrame.later hfits rfl rfl fun _ => trivial
  finds _ _ := trivial
  receiver hfits _ _ := globalFrame.later hfits rfl rfl fun _ => trivial

theorem handles_globalFrame (stop : Stop) : globalFrame.Handles {} stop := by
  refine handles_nothing lawful_globalFrame (fun _ _ => trivial) (fun hfits _ _ _ => ?_)
    (fun {_ _ _ _ _ _ _ superclass _ _} hfits _ _ _ _ => ?_)
  · exact globalFrame.later hfits rfl rfl fun _ => trivial
  · cases superclass <;> exact globalFrame.later hfits rfl rfl fun _ => trivial

/-- The evaluators do the same without oversight, so what is left of an account is how they end. -/
theorem related_globalFrame (fuel : Nat) :
    ∃ watching, globalFrame.Related (Eval.evaluators fuel) watching := by
  have hrelated :=
    related_evaluators lawful_globalFrame shows_nothing (handles_globalFrame .outOfFuel) fuel
  rw [Eval.watchedInside_nothing] at hrelated
  exact ⟨_, hrelated⟩

/-- A machine with given frames current and global. -/
def At (current globals : FrameId) (m : Machine) : Prop :=
  m.current = current ∧ m.globals = globals ∧ ∀ native ∈ m.natives, native.Honest

/-- How a computation that is accounted for leaves the current frame. -/
theorem Keeps.at_end {α : Type} {x y : Eval α} {Q : α → globalFrame.Known → Machine → Prop}
    {current globals : FrameId} {m : Machine} (h : globalFrame.Keeps True globals x y Q m)
    (hm : At current globals m) : At current globals (Eval.Result.machine (x m)) := by
  obtain ⟨-, hends⟩ := h hm.2
  cases hresult : x m with
  | ok _ m' | error _ m' =>
      rw [hresult] at hends
      obtain ⟨hcurrent, k', hle, hfits, -⟩ := hends
      exact ⟨(hcurrent trivial).trans hm.1, hfits.1.trans hle.symm, hfits.2⟩

end Account

open Account

namespace Eval

variable {current globals : FrameId} {m : Machine} (fuel : Nat)

theorem at_interpretFrom (statements : List Stmt) (hm : At current globals m) :
    At current globals (Result.machine (interpretFrom (evaluators fuel) statements m)) := by
  have hkeeps := keeps_interpretFrom (k := globals) (m := m) lawful_globalFrame shows_nothing
    (handles_globalFrame .outOfFuel) fuel statements
  rw [watchedEvaluators_nothing] at hkeeps
  exact hkeeps.at_end hm

/-- Top-level code ends where it started, be it because it comes back or because it is put there. -/
theorem at_interpret (statements : List Stmt) (hm : At globals globals m) :
    At globals globals (Result.machine (interpret (evaluators fuel) statements m)) := by
  have hfrom := at_interpretFrom fuel statements hm
  unfold interpret
  cases hresult : interpretFrom (evaluators fuel) statements m with
  | ok _ m' =>
      rw [hresult] at hfrom
      exact hfrom
  | error stop m' =>
      rw [hresult] at hfrom
      exact ⟨hfrom.2.1, hfrom.2⟩

end Eval

namespace Session

/-- However an evaluation, a block or a call ends, in whatever machine it was started, the frame
that was current before is current again. The same goes for the statements of a program one after
another, so that a program run in the global frame ends there, with an error or without, and so does
every session of such programs. -/
theorem current_frame_restored (fuel : Nat) (m : Machine)
    (hnatives : ∀ native ∈ m.natives, native.Honest) :
    (∀ expr, (Eval.Result.machine (Eval.evaluate fuel expr m)).current = m.current) ∧
      (∀ stmt, (Eval.Result.machine (Eval.execute fuel stmt m)).current = m.current) ∧
      (∀ statements frame,
          (Eval.Result.machine ((Eval.evaluators fuel).executeBlock statements frame m)).current
          = m.current) ∧
      (∀ callee line arguments,
          (Eval.Result.machine (Eval.invoke fuel callee line arguments m)).current = m.current) ∧
      (∀ closure arguments,
          (Eval.Result.machine
            (Eval.callClosure (Eval.evaluators fuel) closure arguments m)).current = m.current) ∧
      (∀ statements,
          (Eval.Result.machine (Eval.interpretFrom (Eval.evaluators fuel) statements m)).current
          = m.current) ∧
      (m.current = m.globals → ∀ statements,
        (Eval.Result.machine (Eval.interpret (Eval.evaluators fuel) statements m)).current =
        m.globals ∧
          (Eval.Result.machine (Eval.interpret (Eval.evaluators fuel) statements m)).globals
          = m.globals) ∧
      (m.current = m.globals → ∀ requests nextId,
        (sequence (serve (Eval.evaluators fuel)) requests ⟨m, nextId⟩).2.machine.current =
        m.globals ∧
          (sequence (serve (Eval.evaluators fuel)) requests ⟨m, nextId⟩).2.machine.globals =
          m.globals) := by
  obtain ⟨watching, hrelated⟩ := related_globalFrame fuel
  have hm : At m.current m.globals m := ⟨rfl, rfl, hnatives⟩
  have hany : ∀ {α : Type} {x y : Eval α} {Q : α → globalFrame.Known → Machine → Prop},
      globalFrame.Keeps True m.globals x y Q m →
      (Eval.Result.machine (x m)).current = m.current := fun h => (h.at_end hm).1
  refine ⟨fun expr => ?_, fun stmt => ?_, fun statements frame => ?_,
    fun callee line arguments => ?_, fun closure arguments => ?_,
    fun statements => ?_, fun htop statements => ?_, fun htop requests nextId => ?_⟩
  · exact hany (x := Eval.evaluate fuel expr) hrelated.evaluate
  · exact hany (x := Eval.execute fuel stmt) hrelated.execute
  · exact hany (x := (Eval.evaluators fuel).executeBlock statements frame)
      (hrelated.executeBlock trivial)
  · exact hany (x := Eval.invoke fuel callee line arguments)
      (hrelated.invoke trivial fun _ _ => trivial)
  · exact hany (x := Eval.callClosure (Eval.evaluators fuel) closure arguments)
      (keeps_callClosure lawful_globalFrame hrelated trivial fun _ _ => trivial)
  · exact (Eval.at_interpretFrom fuel statements hm).1
  · rw [htop] at hm
    have hend := Eval.at_interpret fuel statements hm
    exact ⟨hend.1, hend.2.1⟩
  · rw [htop] at hm
    have hstep : ∀ {s : Session}, At m.globals m.globals s.machine →
        ∀ request, s.serve (Eval.evaluators fuel) request = s.serve (Eval.evaluators fuel) request ∧
          At m.globals m.globals (s.serve (Eval.evaluators fuel) request).2.machine :=
      serve_congr (fun _ h => h) fun statements h => ⟨rfl, Eval.at_interpret fuel statements h⟩
    have hend := (sequence_of_step hstep requests (s := ⟨m, nextId⟩) hm).2
    exact ⟨hend.1, hend.2.1⟩

/-- A loop in a function that is called from a block stops with an error. -/
def stoppingProgram : Request :=
  .text (.program (Utf8.encode
    "fun f() \x7b for (var i = nil;;) \x7b i(); \x7d \x7d \x7b var a = f; a(); \x7d"))

theorem current_frame_restored_after_error :
    (∀ native ∈ (start Native.standard {}).machine.natives, native.Honest) ∧
      (sequence (serve (Eval.evaluators 20)) [stoppingProgram] (start Native.standard {})).1.map
      (·.diagnostics.hadRuntimeError) = [true] ∧
      (sequence (serve (Eval.evaluators 20)) [stoppingProgram]
        (start Native.standard {})).2.machine.frames.size = 5 ∧
      (sequence (serve (Eval.evaluators 20)) [stoppingProgram]
        (start Native.standard {})).2.machine.current =
        (start Native.standard {}).machine.globals := by
  have hnatives : ∀ native ∈ (Machine.start Native.standard {}).natives, native.Honest :=
    fun native hnative => Native.honest_standard native (Array.mem_toList_iff.2 hnative)
  have htop : (Machine.start Native.standard {}).current =
      (Machine.start Native.standard {}).globals := rfl
  obtain ⟨-, -, -, -, -, -, -, hsessions⟩ :=
    current_frame_restored 20 (Machine.start Native.standard {}) hnatives
  refine ⟨hnatives, by decide +kernel, by decide +kernel, ?_⟩
  rw [start]
  exact (hsessions htop [stoppingProgram] 0).1

end Session
end TraitScript
