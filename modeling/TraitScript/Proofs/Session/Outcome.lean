import TraitScript.CommandLine
import TraitScript.Proofs.Session.Located
import TraitScript.Proofs.Session.Text

/-!
# How a program ends

A program that ends in any way has been rejected, has failed, or has been completed. It is rejected
by errors of one stage before anything of it is run. It fails with a single error, which has the
line of a token of the source unless a native function has raised it. No fault ends it: what only
trees put together by hand can do, such as using something other than a variable as a trait or
calling an initializer that no receiver was bound to, does not happen in programs read from text.
-/

namespace TraitScript

open Parse Resolve

/-! ### Errors and the stages that find them -/

/-- Errors of scanning and parsing. -/
def Diagnostic.OfReading : Diagnostic → Prop
  | .lex .. | .parse .. => True
  | .resolve .. | .runtime .. | .io _ | .utf8 _ => False

/-- Errors of resolving. -/
def Diagnostic.OfResolving : Diagnostic → Prop
  | .resolve .. => True
  | .lex .. | .parse .. | .runtime .. | .io _ | .utf8 _ => False

/-- Errors of a run: at a token of the source or raised inside `randint` or `input`, or because the
input is not text. -/
def Diagnostic.OfRunning (source : Source) : Diagnostic → Prop
  | .runtime _ (some line) => ∃ token ∈ (Scanned.ofSource source).all, token.line = line
  | .runtime message none =>
    ∃ cause, message = cause.message ∧ (Native.randint.Raises cause ∨ Native.input.Raises cause)
  | .io message => message = RuntimeError.Cause.inputNotUtf8.message
  | .lex .. | .parse .. | .resolve .. | .utf8 _ => False

/-- The three ways in which a program can end. -/
inductive Report.Outcome (source : Source) (report : Report) : Prop
  | rejected (exit : report.diagnostics.exitCode? = some 65)
      (errors : report.diagnostics.errors ≠ [])
      (stage : (∀ error ∈ report.diagnostics.errors, error.OfReading) ∨
        ∀ error ∈ report.diagnostics.errors, error.OfResolving)
      (silent : report.output = "")
  | failed (exit : report.diagnostics.exitCode? = some 70) (error : Diagnostic)
      (errors : report.diagnostics.errors = [error])
      (located : error.OfRunning source)
  | completed (exit : report.diagnostics.exitCode? = none) (errors : report.diagnostics.errors = [])

theorem Scanned.errors_ofReading (source : Source) :
    ∀ error ∈ (Scanned.ofSource source).errors, error.OfReading := by
  intro error herror
  obtain ⟨item, -, hitem⟩ := List.mem_filterMap.1 herror
  unfold Scan.Item.error? at hitem
  split at hitem
  next => cases hitem
  next =>
    cases hitem
    trivial

theorem Parsed.diagnostics_ofReading {α : Type} (parsed : Parsed α) :
    ∀ error ∈ parsed.diagnostics, error.OfReading := by
  intro error herror
  obtain ⟨found, -, rfl⟩ := List.mem_map.1 herror
  trivial

theorem Resolution.diagnostics_ofResolving (resolution : Resolution) :
    ∀ error ∈ resolution.diagnostics, error.OfResolving := by
  intro error herror
  obtain ⟨found, -, rfl⟩ := List.mem_map.1 herror
  trivial

theorem Diagnostic.OfReading.isStatic {error : Diagnostic} (h : error.OfReading) :
    error.isStatic = true := by
  cases error with
  | lex _ _ | parse _ _ _ => rfl
  | resolve _ _ _ | runtime _ _ | io _ | utf8 _ => exact h.elim

theorem Diagnostic.OfResolving.isStatic {error : Diagnostic} (h : error.OfResolving) :
    error.isStatic = true := by
  cases error with
  | resolve _ _ _ => rfl
  | lex _ _ | parse _ _ _ | runtime _ _ | io _ | utf8 _ => exact h.elim

/-- Errors found before running are added, and raise their flag and no other. -/
theorem Diagnostics.extend_static {errors : List Diagnostic}
    (h : ∀ error ∈ errors, error.isStatic = true) (d : Diagnostics) :
    d.extend errors = ⟨d.errors ++ errors, d.hadError || !errors.isEmpty, d.hadRuntimeError⟩ := by
  induction errors generalizing d with
  | nil => simp [extend]
  | cons error rest ih =>
      obtain ⟨herror, hrest⟩ := List.forall_mem_cons.1 h
      have hreport : d.report error =
          { d with errors := d.errors ++ [error], hadError := true } := by
        rw [report, if_pos herror]
      rw [extend, List.foldl_cons, hreport]
      exact (ih hrest _).trans (by simp)

theorem Session.outcome_rejected (source : Source) {errors : List Diagnostic} (hsome : errors ≠ [])
    (hstage : (∀ error ∈ errors, error.OfReading) ∨ ∀ error ∈ errors, error.OfResolving) :
    (rejected errors).Outcome source := by
  have hstatic : ∀ error ∈ errors, error.isStatic = true := fun error herror =>
    hstage.elim (fun h => (h error herror).isStatic) fun h => (h error herror).isStatic
  have hdiagnostics : (rejected errors).diagnostics = ⟨errors, true, false⟩ := by
    refine (Diagnostics.extend_static hstatic {}).trans ?_
    simp [hsome]
  refine .rejected ?_ ?_ ?_ rfl
  · rw [hdiagnostics]
    rfl
  · rw [hdiagnostics]
    exact hsome
  · rw [hdiagnostics]
    exact hstage

/-! ### Errors without a line -/

/-- A regime for machines that have certain native functions. -/
def Regime.hosting (R : Regime) (natives : List Native) : Regime :=
  { R with hosts := (· ∈ natives) }

/-- An accepted program that is run from the start stops without a fault, and all its errors without
a line are those of native functions. -/
theorem Session.permits_interpret {natives : List Native}
    (hnatives : ∀ native ∈ natives, native.Honest) (world : World) (fuel : Nat) (source : Source)
    (hnone : (TraitScript.resolve (parseProgram (.ofSource source) 0).value).errors = [])
    {stop : Stop} {m : Machine}
    (hrun : Eval.interpret (Eval.evaluators fuel) (parseProgram (.ofSource source) 0).value
      { (Machine.start natives world).noteAll
          (TraitScript.resolve (parseProgram (.ofSource source) 0).value) with output := "" } =
          .error stop m) :
    (∀ fault, stop ≠ .fault fault) ∧ ∀ error, stop = .error error → error.line = none →
      ∃ native ∈ natives, native.Raises error.cause := by
  obtain ⟨-, hwritten⟩ := parseProgram_written source 0
  have htext := (reading_start hnatives world).fromText hwritten hnone
  generalize (parseProgram (.ofSource source) 0).value = statements at *
  let before : Regime := (Regime.text [] fun _ => none).hosting natives
  let R : Regime :=
    (Regime.text [statements] ((start natives world).recordedBy statements)).hosting natives
  have hstart : (start natives world).Sound before :=
    sound_start (fun _ _ => rfl) (fun native hnative => ⟨hnatives native hnative, hnative⟩) world
  have hle : before.Below R := fun _ _ ⟨_, hmem, _⟩ => nomatch hmem
  have hresolved :
      R.Sound ((Machine.start natives world).noteAll (TraitScript.resolve statements)) :=
    hstart.machine.noteAll hle (fun _ h => h) _ fun _ => ⟨trivial, fun _ => rfl⟩
  have hcurrent : ((Machine.start natives world).noteAll (TraitScript.resolve statements)).current =
      ((Machine.start natives world).noteAll (TraitScript.resolve statements)).globals := by
    obtain ⟨distances, hnoted⟩ :=
      (Machine.start natives world).noteAll_eq (TraitScript.resolve statements)
    rw [hnoted]
    exact hstart.current
  have hallows : R.Allows (programUses statements) :=
    fun u hu => ⟨statements, List.mem_singleton_self _, htext, hu⟩
  have hsound : R.Sound
      { (Machine.start natives world).noteAll (TraitScript.resolve statements) with
        output := "" } :=
    hresolved.congr rfl rfl rfl rfl rfl rfl
  have hends := Eval.interpret_sound fuel hallows hsound hcurrent
  rw [hrun] at hends
  exact ⟨hends.2.2.noFault trivial, hends.2.2.blamed trivial⟩

theorem Native.not_raises_clock (cause : RuntimeError.Cause) : ¬ clock.Raises cause :=
  fun ⟨_, _, h⟩ => h

theorem Native.raises_standard {cause : RuntimeError.Cause}
    (h : ∃ native ∈ standard, native.Raises cause) :
    randint.Raises cause ∨ input.Raises cause := by
  obtain ⟨native, hnative, hraises⟩ := h
  simp only [standard, List.mem_cons, List.not_mem_nil, or_false] at hnative
  rcases hnative with rfl | rfl | rfl
  · exact (not_raises_clock cause hraises).elim
  · exact .inl hraises
  · exact .inr hraises

/-! ### Whole programs -/

theorem RuntimeError.diagnostic_ofRunning {source : Source} {error : RuntimeError}
    (hline : ∀ line, error.line = some line → ∃ token ∈ (Scanned.ofSource source).all,
      token.line = line)
    (hblamed : error.line = none → Native.randint.Raises error.cause ∨
      Native.input.Raises error.cause) : error.diagnostic.OfRunning source := by
  obtain ⟨cause, line⟩ := error
  unfold diagnostic
  split
  next h =>
    cases h
    rfl
  next =>
    cases line with
    | none => exact ⟨cause, rfl, hblamed rfl⟩
    | some line => exact hline line rfl

namespace Session

/-- Running an accepted program from the start. -/
theorem executeWith_outcome (world : World) (fuel : Nat) (source : Source)
    (hnone : (TraitScript.resolve (parseProgram (.ofSource source) 0).value).errors = [])
    (nextId : Nat) :
    let report := (executeWith (Eval.evaluators fuel)
      ⟨(Machine.start Native.standard world).noteAll
        (TraitScript.resolve (parseProgram (.ofSource source) 0).value), nextId⟩
      (parseProgram (.ofSource source) 0).value).1
    report.ending ≠ .outOfFuel → report.ending = .finished ∧ report.Outcome source := by
  have hpermits := @permits_interpret _ Native.honest_standard world fuel source hnone
  obtain ⟨distances, hnoted⟩ :=
    (Machine.start Native.standard world).noteAll_eq
      (TraitScript.resolve (parseProgram (.ofSource source) 0).value)
  have hlines := @line_of_interpret _ Native.plain_standard world fuel _ _
    (parseProgram_among source 0) distances
  unfold executeWith
  dsimp only
  rw [hnoted] at hpermits ⊢
  cases hrun : Eval.interpret (Eval.evaluators fuel) (parseProgram (.ofSource source) 0).value
      { Machine.start Native.standard world with distances := distances, output := "" } with
  | ok _ m => exact fun _ => ⟨rfl, .completed rfl rfl⟩
  | error stop m =>
      obtain ⟨hfault, hblamed⟩ := hpermits hrun
      intro hends
      cases stop with
      | error error =>
          have hrunning : error.diagnostic.OfRunning source :=
            RuntimeError.diagnostic_ofRunning (fun line hline => hlines hrun hline) fun hline =>
              Native.raises_standard (hblamed error rfl hline)
          exact ⟨rfl, .failed rfl error.diagnostic rfl hrunning⟩
      | fault fault => exact (hfault fault rfl).elim
      | outOfFuel => exact (hends rfl).elim

/-- However a program ends, it finishes without a fault. Either it exits with 65, with errors of one
stage before running and no output; or with 70 and one error of the run, at the line of a token of
the source unless it was raised inside `randint` or `input`; or without an error. The command that
runs it shows just that. -/
theorem program_outcome (world : World) (fuel : Nat) (source : Source)
    (hends : (program fuel (start Native.standard world) source).1.ending ≠ .outOfFuel) :
    let report := (program fuel (start Native.standard world) source).1
    report.ending = .finished ∧ report.Outcome source ∧
      CommandLine.run fuel world source =
        ⟨report.output, CommandLine.errorLines report.diagnostics,
          report.diagnostics.exitCode?.getD 0⟩ := by
  suffices h : (program fuel (start Native.standard world) source).1.ending = .finished ∧
      (program fuel (start Native.standard world) source).1.Outcome source from ⟨h.1, h.2, rfl⟩
  unfold program programWith at hends ⊢
  dsimp only at hends ⊢
  split at hends
  next haccepted =>
    rw [if_pos haccepted]
    unfold resolveAndExecute resolve at hends ⊢
    dsimp only at hends ⊢
    split at hends
    next hresolved =>
      rw [if_pos hresolved]
      exact executeWith_outcome world fuel source (List.isEmpty_iff.1 hresolved) _ hends
    next hrejected =>
      rw [if_neg hrejected]
      refine ⟨rfl, outcome_rejected source (fun h => hrejected ?_)
        (.inr (Resolution.diagnostics_ofResolving _))⟩
      exact List.isEmpty_iff.2 (List.map_eq_nil_iff.1 h)
  next hrejected =>
    rw [if_neg hrejected]
    refine ⟨rfl, outcome_rejected source (fun h => hrejected (List.isEmpty_iff.2 h))
      (.inl fun error herror => ?_)⟩
    rcases List.mem_append.1 herror with h | h
    · exact Scanned.errors_ofReading source error h
    · exact Parsed.diagnostics_ofReading _ error h

/-- A program that fails inside `input`, so without a line. -/
def promptless : Source := Utf8.encode "print true; input(nil);"

theorem program_outcome_promptless :
    (program 9 (start Native.standard {}) promptless).1.ending ≠ .outOfFuel ∧
      (program 9 (start Native.standard {}) promptless).1.diagnostics.errors =
      [.runtime RuntimeError.Cause.inputArgument.message none] ∧
      (program 9 (start Native.standard {}) promptless).1.Outcome promptless := by
  have hends : (program 9 (start Native.standard {}) promptless).1.ending ≠ .outOfFuel := by
    decide +kernel
  exact ⟨hends, by decide +kernel, (program_outcome {} 9 promptless hends).2.1⟩

end Session

end TraitScript
