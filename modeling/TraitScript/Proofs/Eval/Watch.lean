import TraitScript.Eval.Run

/-!
# Watching a run

A watch states conditions on every evaluation of an expression, every execution of a statement and
every run of a block or a function body, each about the machine before and about the result. Under a
watch the evaluators do what they do otherwise, but stop where a condition fails. That a condition
holds at every evaluation of a run, however deep inside calls and loops, is then said by comparing
two runs: watching makes no difference, whatever a failed condition would stop with.
-/

namespace TraitScript

/-- How a computation ends: with a result or a stop, and in both cases a machine. -/
abbrev Eval.Result (α : Type) := EStateM.Result Stop Machine α

/-- The machine at the end. -/
def Eval.Result.machine {α : Type} : Eval.Result α → Machine
  | .ok _ m => m
  | .error _ m => m

/-- One computation after another succeeds if both do. -/
theorem Eval.bind_eq_ok {α β : Type} {x : Eval α} {f : α → Eval β} {m m'' : Machine} {b : β} :
    (x >>= f) m = .ok b m'' ↔ ∃ a m', x m = .ok a m' ∧ f a m' = .ok b m'' := by
  simp only [Bind.bind, EStateM.bind]
  cases x m with
  | ok a m' => exact ⟨fun h => ⟨a, m', rfl, h⟩, fun ⟨_, _, hx, hf⟩ => by cases hx; exact hf⟩
  | error stop m' => exact ⟨nofun, fun ⟨_, _, hx, _⟩ => nomatch hx⟩

/-- Conditions on everything that happens in a run. -/
structure Watch where
  evaluate : Expr → Machine → Eval.Result Value → Prop := fun _ _ _ => True
  execute : Stmt → Machine → Eval.Result Flow → Prop := fun _ _ _ => True
  /-- The statements of a block or a function body in their own frame. -/
  executeBlock : List Stmt → FrameId → Machine → Eval.Result Flow → Prop := fun _ _ _ _ => True
  /-- The statements that stand in no other. -/
  executeTop : Stmt → Machine → Eval.Result Flow → Prop := fun _ _ _ => True

namespace Eval

open Classical in
/-- Stops instead of ending in a way that fails a condition. -/
noncomputable def watched {α : Type} (condition : Machine → Eval.Result α → Prop) (stop : Stop)
    (action : Eval α) : Eval α := fun m =>
  if condition m (action m) then action m else .error stop m

/-- Evaluators under a watch. -/
noncomputable def Evaluators.watched (W : Watch) (stop : Stop) (evaluate : Expr → Eval Value)
    (execute : Stmt → Eval Flow) (invoke : Value → Nat → List Value → Eval Value) : Evaluators where
  evaluate expr := Eval.watched (W.evaluate expr) stop (evaluate expr)
  execute stmt := Eval.watched (W.execute stmt) stop (execute stmt)
  executeBlock statements frame := Eval.watched (W.executeBlock statements frame) stop
    (inFrame frame
      (executeAll (fun stmt => Eval.watched (W.execute stmt) stop (execute stmt)) statements))
  invoke := invoke

/-- The evaluators with a certain fuel, watched at every step. -/
noncomputable def watchedInside (W : Watch) (stop : Stop) : (fuel : Nat) → Evaluators
  | 0 => .watched W stop (fun _ => outOfFuel) (fun _ => outOfFuel) (fun _ _ _ => outOfFuel)
  | fuel + 1 =>
    .watched W stop (evaluateStep (watchedInside W stop fuel))
      (executeStep (watchedInside W stop fuel) fuel)
      (invokeStep (watchedInside W stop fuel))

/-- The evaluators to run programs with under a watch. -/
noncomputable def watchedEvaluators (W : Watch) (stop : Stop) (fuel : Nat) : Evaluators :=
  { watchedInside W stop fuel with
    execute := fun stmt =>
      watched (W.executeTop stmt) stop ((watchedInside W stop fuel).execute stmt) }

end Eval
end TraitScript
