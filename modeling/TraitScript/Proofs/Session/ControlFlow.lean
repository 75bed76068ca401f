import TraitScript.Proofs.Scope.Resolution
import TraitScript.Proofs.Session.Run

/-!
# Jumps and returns stay where they belong

Resolving accepts a jump only inside a loop of the same function body and a `return` only inside a
function. Running keeps to that for any trees, also for those put together by hand: a loop never
ends with a jump, neither does the body of a function, and a statement of top-level code ends
normally or with an error.
-/

namespace TraitScript

/-- Everything that resolving accepts. -/
def Regime.accepted : Regime where
  legal := Resolve.Accepted
  fromText := False
  distances _ := none
  jump_inLoop h := h
  return_inFunction h := h
  declare_ordinary h := h.elim
  write_ordinary h := h.elim
  lookup_distance h := h.elim
  super_keyword h := h.elim
  super_inMember h := h.elim
  reference_variable h := h.elim

/-- The discipline of jumps and returns, asked of every statement, block and function body of a
run. -/
def flowWatch : Watch where
  execute stmt _ result := stmt.IsLoop → ∀ flow m', result = .ok flow m' → ¬ flow.IsJump
  executeBlock _ frame m result :=
    ∀ decl, m.origins[frame]? = some (.call decl) → ∀ flow m', result = .ok flow m' → ¬ flow.IsJump
  executeTop _ _ result := ∀ flow m', result = .ok flow m' → flow = .normal

/-- A place whose chain of frames starts with the frame of a call stands directly inside a
function. -/
theorem Machine.Linked.sites_of_call {R : Regime} {m : Machine} (hsound : R.Sound m)
    {frame : FrameId} {sites : List Site} (hlinked : m.Linked frame sites) {decl : FunctionDecl}
    (horigin : m.origins[frame]? = some (.call decl)) :
    ∃ outer, sites = .function decl :: outer := by
  have hsite : m.site? frame = some (.function decl) := by rw [Machine.site?, horigin]; rfl
  cases sites with
  | nil => exact (hsound.ne_globals hsite hlinked).elim
  | cons site outer => exact ⟨outer, by rw [Option.some.inj (hlinked.1.symm.trans hsite)]⟩

theorem follows_flowWatch : Eval.Follows .accepted flowWatch where
  evaluate _ _ _ _ _ := trivial
  execute _ _ _ result hends hloop flow m' hresult := by
    subst hresult
    exact hends.2.2.2.2 hloop
  executeBlock _ hentry hsound hlinked result hends decl horigin flow m' hresult := by
    subst hresult
    obtain ⟨outer, hsites⟩ := hlinked.sites_of_call hsound horigin
    have hflow := hends.2.2.2
    cases flow with
    | normal | returning _ => exact id
    | breaking | continuing =>
        have hloop := hflow.symm.trans (hentry decl outer hsites)
        cases hloop
  executeTop hp _ _ _ result hends flow m' hresult := by
    subst hresult
    have hflow := hends.2.2.2
    cases flow with
    | normal => rfl
    | returning value => exact (hflow.1 hp.functionKind).elim
    | breaking | continuing =>
        have hloop := hflow.symm.trans hp.inLoop
        cases hloop

namespace Session

theorem resolveAndExecute_flow (stop : Stop) (fuel : Nat) {s : Session} (hs : s.Sound .accepted)
    (statements : List Stmt) :
    s.resolveAndExecute (Eval.watchedEvaluators flowWatch stop fuel) statements =
      s.resolveAndExecute (Eval.evaluators fuel) statements ∧
      (s.resolveAndExecute (Eval.evaluators fuel) statements).2.Sound .accepted ∧
      Regime.accepted.PermitsEnding
      (s.resolveAndExecute (Eval.evaluators fuel) statements).1.ending := by
  have hresolved : (s.resolve statements).2.Sound .accepted := by
    refine ⟨hs.machine.noteAll (.refl _) (fun _ h => h) _ False.elim, ?_⟩
    obtain ⟨distances, hm⟩ := s.machine.noteAll_eq (TraitScript.resolve statements)
    show (s.machine.noteAll _).current = (s.machine.noteAll _).globals
    rw [hm]
    exact hs.current
  simp only [resolveAndExecute]
  split
  next haccepted =>
    have hnone : (TraitScript.resolve statements).errors = [] := List.isEmpty_iff.1 haccepted
    have hallows : Regime.accepted.Allows (programUses statements) :=
      (Resolve.resolve_programUses statements).2 hnone
    exact executeWith_alike (Eval.runsAlike_watched follows_flowWatch stop fuel) hresolved hallows
  next => exact ⟨rfl, hresolved, Regime.permitsEnding_finished _⟩

/-- In a session that runs any lists of statements that resolving accepts, loops and the bodies of
functions never end with a jump, and statements of top-level code end normally or with an error; so
no run ends in the fault of a jump that escaped. -/
theorem jumps_and_returns_contained (natives : List Native)
    (hnatives : ∀ native ∈ natives, native.Honest) (world : World) (programs : List (List Stmt))
    (fuel : Nat) :
    (∀ stop, sequence (resolveAndExecute (Eval.watchedEvaluators flowWatch stop fuel)) programs
      (start natives world) =
        sequence (resolveAndExecute (Eval.evaluators fuel)) programs (start natives world)) ∧
      ∀ report ∈
        (sequence (resolveAndExecute (Eval.evaluators fuel)) programs (start natives world)).1,
        report.ending ≠ .fault .jumpEscaped := by
  have hstart : (start natives world).Sound .accepted :=
    sound_start False.elim (fun native hnative => ⟨hnatives native hnative, trivial⟩) world
  have hall := fun stop =>
    sequence_congr (fun _ => Sound .accepted)
    (fun report => Regime.accepted.PermitsEnding report.ending)
    (fun s statements _ hs => resolveAndExecute_flow stop fuel hs statements) programs hstart
  exact ⟨fun stop => (hall stop).1, fun report hreport => ((hall .outOfFuel).2.1 report hreport).1⟩

/-- A loop that is left by `break`, in a session with the standard native functions. -/
theorem jumps_and_returns_contained_break :
    (∀ native ∈ Native.standard, native.Honest) ∧
      (∀ stop, sequence (resolveAndExecute (Eval.watchedEvaluators flowWatch stop 9))
          [[.whileLoop (.literal (.bool true))
            (.jump ⟨.keyword .breakWord, "break", 1⟩ .breakLoop)]] (start Native.standard {}) =
        sequence (resolveAndExecute (Eval.evaluators 9))
          [[.whileLoop (.literal (.bool true))
            (.jump ⟨.keyword .breakWord, "break", 1⟩ .breakLoop)]] (start Native.standard {})) ∧
      ∀ report ∈ (sequence (resolveAndExecute (Eval.evaluators 9))
          [[.whileLoop (.literal (.bool true))
            (.jump ⟨.keyword .breakWord, "break", 1⟩ .breakLoop)]] (start Native.standard {})).1,
        report.ending ≠ .fault .jumpEscaped :=
  ⟨Native.honest_standard,
    jumps_and_returns_contained Native.standard Native.honest_standard {} _ 9⟩

end Session
end TraitScript
