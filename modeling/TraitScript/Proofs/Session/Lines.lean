import TraitScript.Proofs.Paired.Session
import TraitScript.Proofs.Parse.Joined
import TraitScript.Proofs.Session.Text

/-!
# Lines and whole programs

Lines that are accepted when taken alone can be given to a session one by one, or joined by line
breaks as one program. Both ways write the same up to and including the first line that stops, and
the program stops where that line does, for the same reason.

The joined program consists of the statements of the lines with other ids and lines. The session
resolves a line when the lines before it have been run, the program is resolved as a whole, and both
find the same distances. So the statements of a line are run by both in corresponding machines, and
as long as no line stops the machines correspond again at the start of the next.
-/

namespace TraitScript

open Parse Resolve

/-! ### Resolving elsewhere -/

/-- For resolving the same text at another place, after other code. -/
def Resolve.Mirror.elsewhere (left right : Nat → Option Nat) (within : Nat → Prop)
    (before : List Binding) : Mirror where
  trees := .elsewhere
  rename _ name := name
  admits _ := True
  ids _ _ := True
  left := left
  right := right
  within := within
  before := before
  verbatim := False
  rename_false _ := rfl
  injective _ _ h := h
  admits_this := trivial
  admits_super := trivial
  of_token h := ⟨h.2, False.elim⟩
  of_declared h := ⟨h.2, trivial, False.elim⟩
  of_named h := ⟨h.2, trivial, False.elim⟩
  of_occurrence h := ⟨h.2, trivial, trivial, False.elim⟩
  of_receiver h := ⟨h.2, trivial, trivial, False.elim⟩

/-- A source that scans, parses and resolves without errors when it is taken alone. -/
structure Standalone (source : Source) : Prop where
  scanned : (Scanned.ofSource source).errors = []
  parsed : (parseProgram (.ofSource source) 0).errors = []
  resolved : (resolve (parseProgram (.ofSource source) 0).value).errors = []

/-- Ids do not matter for whether a source is accepted. -/
theorem Standalone.accepted {source : Source} (h : Standalone source) (firstId : Nat) :
    (parseProgram (.ofSource source) firstId).errors = [] ∧
      (resolve (parseProgram (.ofSource source) firstId).value).errors = [] := by
  have hboth := parseProgram_elsewhere source firstId
  obtain ⟨-, hwritten⟩ := parseProgram_written source 0
  let M := Mirror.elsewhere (knownDistances (parseProgram (.ofSource source) 0).value)
    (fun _ => none) (fun _ => True) []
  have hresolved := resolve_alike M rfl (hboth.value []) fun b hb =>
    ⟨knownDistances_of_mem hwritten hb, trivial⟩
  exact ⟨Twin.noErrors hboth.errors h.parsed, hresolved.accepted h.resolved⟩

namespace Resolve

theorem tracks_top (before : List Binding) : Tracks { bindings := before } .top :=
  ⟨rfl, rfl, ⟨fun _ => rfl, fun _ => rfl⟩, .nil⟩

theorem stmts_append (first second : List Stmt) (s : State) :
    stmts (first ++ second) s = stmts second (stmts first s) := by
  induction first generalizing s with
  | nil => rw [List.nil_append, stmts]
  | cons stmt rest ih => rw [List.cons_append, stmts, stmts, ih]

/-- Top-level code without errors leaves nothing behind but what it has looked up. -/
theorem stmts_top {statements : List Stmt} {before : List Binding}
    (hnone : (stmts statements { bindings := before }).errors = []) :
    ∃ found, stmts statements { bindings := before } = { bindings := before ++ found } := by
  obtain ⟨htracks, hbindings, -⟩ := walks_stmts statements .top _ (tracks_top before)
  have hgrows := Stmt.grows_afterAll statements .top
  have hscopes : (Stmt.afterAll statements .top).scopes = [] := List.map_eq_nil_iff.1 hgrows.sites
  have hloops := htracks.loops.2 hgrows.inLoop
  have hfunction := htracks.functionKind.trans hgrows.functionKind
  have hclass := htracks.classKind.trans hgrows.classKind
  have hopen := htracks.scopes
  rw [hscopes, List.forall₂_nil_right_iff] at hopen
  refine ⟨(Stmt.usesAll statements .top).filterMap binding?, ?_⟩
  generalize stmts statements { bindings := before } = s at *
  obtain ⟨scopes, functionKind, classKind, loopDepth, errors, bindings⟩ := s
  dsimp only at hopen hfunction hclass hloops hnone hbindings
  rw [hopen, hfunction, hclass, hloops, hnone, hbindings]
  rfl

/-- What is found in code is still there after more code. -/
theorem bindings_stmts_append (first second : List Stmt) {before : List Binding} :
    (stmts first { bindings := before }).bindings <+:
      (stmts (first ++ second) { bindings := before }).bindings := by
  obtain ⟨hmiddle, -, -⟩ := walks_stmts first .top _ (tracks_top before)
  obtain ⟨-, hbindings, -⟩ := walks_stmts second _ _ hmiddle
  rw [stmts_append, hbindings]
  exact List.prefix_append ..

theorem errors_stmts_append {first second : List Stmt} {before : List Binding}
    (hnone : (stmts (first ++ second) { bindings := before }).errors = []) :
    (stmts first { bindings := before }).errors = [] := by
  obtain ⟨hmiddle, -, -⟩ := walks_stmts first .top _ (tracks_top before)
  obtain ⟨-, -, herrors⟩ := walks_stmts second _ _ hmiddle
  rw [stmts_append] at hnone
  exact (herrors hnone).1

end Resolve

/-- A source together with its statements as a piece of a larger program. -/
def Piece (source : Source) (piece : List Stmt) : Prop :=
  Standalone source ∧ ∀ firstId marks,
    Stmt.AlikeAll .elsewhere marks (parseProgram (.ofSource source) firstId).value piece

/-- A program of accepted pieces is accepted. -/
theorem errors_pieces {sources : List Source} {pieces : List (List Stmt)}
    (h : List.Forall₂ Piece sources pieces) (before : List Binding) :
    (stmts pieces.flatten { bindings := before }).errors = [] := by
  induction h generalizing before with
  | nil => rw [List.flatten_nil, stmts]
  | @cons source piece _ _ hpiece _ ih =>
      obtain ⟨hsource, halike⟩ := hpiece
      obtain ⟨-, hwritten⟩ := parseProgram_written source 0
      let M := Mirror.elsewhere (knownDistances (parseProgram (.ofSource source) 0).value)
        (fun _ => none) (fun _ => True) before
      obtain ⟨hstates, -⟩ :=
        states_stmts M (halike 0 []) fun b hb => ⟨knownDistances_of_mem hwritten hb, trivial⟩
      have hnone : (stmts piece { bindings := before }).errors = [] :=
        hstates.errors hsource.resolved
      obtain ⟨found, hfound⟩ := stmts_top hnone
      rw [List.flatten_cons, stmts_append, hfound]
      exact ih _

/-! ### Running elsewhere -/

/-- Runs of the same text with other ids and lines. All ids on the left are below a bound, so more
may be recorded on the left later. -/
def Pairing.elsewhere (left right : Nat → Option Nat) (bound : Nat) (earlier : String) :
    Pairing where
  trees := (Mirror.elsewhere left right (· < bound) []).resolved
  rename _ name := name
  left := left
  right := right
  lines _ _ := True
  said name name' := name' = name
  earlier := earlier
  rename_false _ := rfl
  rename_this _ := rfl
  rename_super _ := rfl
  said_this := rfl
  said_super := rfl
  injective _ := Function.injective_id
  of_token h := ⟨h.1, h.2, trivial⟩
  of_occurrence h := ⟨h.2.1, h.1.2, trivial, h.1.2⟩
  of_receiver h := ⟨h.2.1, h.1.2, trivial, h.1.2⟩
  of_declared h := h.2
  of_named h := ⟨h.2, rfl, trivial⟩

/-- More may be recorded for ids beyond the bound. -/
theorem Pairing.elsewhere_below {left left' right : Nat → Option Nat} {bound bound' : Nat}
    {earlier earlier' : String} (hleft : ∀ id < bound, left' id = left id)
    (hbound : bound ≤ bound') :
    Pairing.Below (.elsewhere left right bound earlier)
      (.elsewhere left' right bound' earlier') := by
  have hsettles : ∀ {id id' : Nat}, right id' = left id ∧ id < bound →
      right id' = left' id ∧ id < bound' :=
    fun h => ⟨h.1.trans (hleft _ h.2).symm, Nat.lt_of_lt_of_le h.2 hbound⟩
  exact ⟨⟨id, fun h => ⟨h.1, hsettles h.2⟩, fun h => ⟨h.1, hsettles h.2⟩, id, id⟩, rfl⟩

/-- The same ending, with errors of the same messages. -/
structure Report.SameOutcome (report report' : Report) : Prop where
  ending : report'.ending = report.ending
  hadError : report'.diagnostics.hadError = report.diagnostics.hadError
  hadRuntimeError : report'.diagnostics.hadRuntimeError = report.diagnostics.hadRuntimeError
  messages : report'.diagnostics.errors.map (·.message) = report.diagnostics.errors.map (·.message)

theorem RuntimeError.message_diagnostic (error : RuntimeError) :
    error.diagnostic.message = error.cause.message := by
  unfold RuntimeError.diagnostic
  split
  next hcause => rfl
  next => rfl

theorem Stop.Alike.sameOutcome {left right : Nat → Option Nat} {bound : Nat} {earlier : String}
    {stop stop' : Stop} (h : stop.Alike (.elsewhere left right bound earlier) stop')
    (output output' : String) :
    (Session.stopReport output {} stop).SameOutcome (Session.stopReport output' {} stop') := by
  cases h with
  | @error cause cause' line line' hcause _ =>
      have hmessage : cause'.message = cause.message := by
        cases hcause with
        | same cause => rfl
        | access herror => cases herror with
          | undefined hsaid => cases hsaid; rfl
          | uninitialized hsaid => cases hsaid; rfl
          | chainEnded hops distance => rfl
        | notTrait hsaid => cases hsaid; rfl
      refine ⟨rfl, rfl, rfl, ?_⟩
      simp only [Session.stopReport, Diagnostics.runtimeError, List.nil_append, List.map_cons,
        List.map_nil, RuntimeError.message_diagnostic, hmessage]
  | fault fault => exact ⟨rfl, rfl, rfl, rfl⟩
  | outOfFuel => exact ⟨rfl, rfl, rfl, rfl⟩

namespace Eval

theorem interpretFrom_append (self : Evaluators) (first second : List Stmt) (m : Machine) :
    interpretFrom self (first ++ second) m = match interpretFrom self first m with
      | .ok () n => interpretFrom self second n
      | .error stop n => .error stop n := by
  induction first generalizing m with
  | nil => rfl
  | cons stmt rest ih =>
      simp only [List.cons_append, interpretFrom, Bind.bind, EStateM.bind]
      cases self.execute stmt m with
      | ok flow n => exact ih n
      | error stop n => rfl

end Eval

/-! ### Line by line -/

/-- Whether a run came to a stop before its end. -/
def Report.stopped (report : Report) : Bool :=
  report.diagnostics.hadRuntimeError || report.ending != .finished

/-- Reports up to and including the first of a run that stopped. -/
def Report.upToStop : List Report → List Report
  | [] => []
  | report :: rest => if report.stopped then [report] else report :: upToStop rest

theorem Session.output_stopReport (output : String) (stop : Stop) :
    (stopReport output {} stop).output = output := by
  cases stop <;> rfl

theorem Session.stopped_stopReport (output : String) (stop : Stop) :
    (stopReport output {} stop).stopped = true := by
  cases stop <;> rfl

namespace Session

variable {right : Nat → Option Nat} {earlier : String} {s : Session} {m' : Machine}

/-- A session between two lines, and a machine that runs the lines as one program and has arrived
between the same two. The machine knows the distances of the whole program, and has kept what was
written before. -/
structure Abreast (right : Nat → Option Nat) (earlier : String) (s : Session) (m' : Machine) :
    Prop where
  fresh : ∀ id, s.nextId ≤ id → s.machine.distances[id]? = none
  machines : ∃ L, Machines (.elsewhere (fun id => s.machine.distances[id]?) right s.nextId earlier)
      L { s.machine with output := "" } m' ∧
    L.Chain [] s.machine.current

/-- A source that is accepted when taken alone is read, resolved and run as a line. -/
theorem line_eq {source : Source} (h : Standalone source) (fuel : Nat) (s : Session) :
    s.line fuel source = executeWith (Eval.evaluators fuel)
      ⟨s.machine.noteAll (TraitScript.resolve (parseProgram (.ofSource source) s.nextId).value),
        (parseProgram (.ofSource source) s.nextId).nextId⟩
      (parseProgram (.ofSource source) s.nextId).value := by
  obtain ⟨hparsed, hresolved⟩ := h.accepted s.nextId
  simp only [line, lineWith, h.scanned, parseLine, hparsed, resolveAndExecute, resolve, hresolved,
    List.isEmpty_nil, if_true]

/-- What is recorded for a line, next to what was known before. -/
theorem Abreast.noteAll (h : Abreast right earlier s m') {nextId : Nat} (hle : s.nextId ≤ nextId)
    {statements : List Stmt}
    (hwritten : Uses.Written .genuine s.nextId nextId (programUses statements)) :
    let noted := s.machine.noteAll (TraitScript.resolve statements)
    (∀ b ∈ (TraitScript.resolve statements).bindings, noted.distances[b.id]? = b.distance ∧
      b.id < nextId) ∧ Abreast right earlier ⟨noted, nextId⟩ m' := by
  have hrange : ∀ b ∈ (TraitScript.resolve statements).bindings, s.nextId ≤ b.id ∧ b.id < nextId :=
    fun b hb => id_of_mem_bindings hwritten hb
  have hkept : ∀ id < s.nextId, (s.machine.noteAll (TraitScript.resolve statements)).distances[id]?
      = s.machine.distances[id]? := by
    intro id hid
    apply Machine.distances_noteAll_of_notMem
    intro b hb heq
    have hrange := hrange b hb
    omega
  have hfresh : ∀ id, nextId ≤ id →
      (s.machine.noteAll (TraitScript.resolve statements)).distances[id]? = none := by
    intro id hid
    rw [Machine.distances_noteAll_of_notMem]
    · exact h.fresh id (Nat.le_trans hle hid)
    · intro b hb heq
      have hrange := hrange b hb
      omega
  refine ⟨fun b hb => ⟨?_, (hrange b hb).2⟩, hfresh, ?_⟩
  · exact Machine.distances_noteAll_of_mem _ (nodup_ids_bindings hwritten) hb
      (h.fresh b.id (hrange b hb).1)
  · obtain ⟨L, hmachines, hchain⟩ := h.machines
    obtain ⟨distances, hnoted⟩ := s.machine.noteAll_eq (TraitScript.resolve statements)
    rw [hnoted] at hkept ⊢
    exact ⟨L, hmachines.widen (Pairing.elsewhere_below hkept hle)
      ⟨fun _ => rfl, hmachines.distances.2⟩ hmachines.output, hchain⟩

/-- A line and the same piece of the program: both are run to the end, or both stop. -/
theorem Abreast.line (h : Abreast right earlier s m') (fuel : Nat) {source : Source}
    {piece : List Stmt} (hpiece : Piece source piece) {before : List Binding}
    (hrecorded : Recorded right (stmts piece { bindings := before })) :
    (∃ n', Eval.interpretFrom (Eval.evaluators fuel) piece m' = .ok () n' ∧
      (s.line fuel source).1.stopped = false ∧
        Abreast right (earlier ++ (s.line fuel source).1.output) (s.line fuel source).2 n') ∨
      ∃ stop' n', Eval.interpretFrom (Eval.evaluators fuel) piece m' = .error stop' n' ∧
        (s.line fuel source).1.stopped = true ∧
        n'.output = earlier ++ (s.line fuel source).1.output ∧
        (s.line fuel source).1.SameOutcome (stopReport n'.output {} stop') := by
  obtain ⟨hsource, halike⟩ := hpiece
  obtain ⟨-, hresolved⟩ := hsource.accepted s.nextId
  obtain ⟨hle, hwritten⟩ := parseProgram_written source s.nextId
  obtain ⟨hknown, hnoted⟩ := h.noteAll hle hwritten
  rw [line_eq hsource]
  generalize hstatements : (parseProgram (.ofSource source) s.nextId).value = statements at *
  generalize (parseProgram (.ofSource source) s.nextId).nextId = nextId at *
  generalize s.machine.noteAll (TraitScript.resolve statements) = noted at *
  -- Once both are resolved, an occurrence of the line and that of the piece have the same distance.
  have hsettled : Stmt.AlikeAll
      (Pairing.elsewhere (fun id => noted.distances[id]?) right nextId earlier).trees
      [] statements piece := by
    let M := Mirror.elsewhere (fun id => noted.distances[id]?) right (· < nextId) before
    exact (states_stmts M (hstatements ▸ halike s.nextId []) hknown).2 hresolved hrecorded
  obtain ⟨L, hmachines, hchain⟩ := hnoted.machines
  unfold executeWith Eval.interpret
  rcases (Eval.agree_interpretFrom (Eval.agree_evaluators fuel) hsettled _ _ hmachines
    hchain).cases with
    ⟨L', _, _, n, n', hleft, hright, -, hmachines', hchain', -⟩ | ⟨L', stop, stop', n, n', hleft,
      hright, -, hmachines', hstop⟩
  · rw [hleft]
    refine .inl ⟨n', hright, rfl, ?_, L', ?_, hchain'⟩
    · intro id hid
      exact (hmachines'.distances.1 id).trans (hnoted.fresh id hid)
    · have houtput : n'.output = earlier ++ n.output ++ "" := by
        rw [String.append_empty]
        exact hmachines'.output
      have hbelow : Pairing.Below (.elsewhere (fun id => noted.distances[id]?) right nextId earlier)
          (.elsewhere (fun id => n.distances[id]?) right nextId (earlier ++ n.output)) :=
        Pairing.elsewhere_below (fun id _ => hmachines'.distances.1 id) (Nat.le_refl _)
      exact hmachines'.widen hbelow ⟨fun _ => rfl, hmachines'.distances.2⟩ houtput
  · rw [hleft]
    dsimp only
    rw [output_stopReport]
    exact .inr ⟨stop', n', hright, stopped_stopReport .., hmachines'.output, hstop.sameOutcome _ _⟩

/-! ### Whole programs -/

/-- The lines and the program made up of them: both are run to the end, or the program stops where
the first of the lines does that stop. -/
theorem Abreast.sequence (h : Abreast right earlier s m') (fuel : Nat) {sources : List Source}
    {pieces : List (List Stmt)} (hpieces : List.Forall₂ Piece sources pieces)
    {before : List Binding}
    (hrecorded : Recorded right (stmts pieces.flatten { bindings := before })) :
    let reports := (Session.sequence (Session.line fuel) sources s).1
    (∃ n', Eval.interpretFrom (Eval.evaluators fuel) pieces.flatten m' = .ok () n' ∧
      reports.find? (·.stopped) = none ∧
        n'.output = earlier ++ String.join ((Report.upToStop reports).map (·.output))) ∨
      ∃ stop' n' report, Eval.interpretFrom (Eval.evaluators fuel) pieces.flatten m' =
        .error stop' n' ∧ reports.find? (·.stopped) = some report ∧
        n'.output = earlier ++ String.join ((Report.upToStop reports).map (·.output)) ∧
        report.SameOutcome (stopReport n'.output {} stop') := by
  induction hpieces generalizing before earlier s m' with
  | nil =>
    exact .inl ⟨m', rfl, rfl, by obtain ⟨L, hmachines, -⟩ := h.machines; exact hmachines.output⟩
  | @cons source piece sources pieces hpiece hpieces ih =>
      have hnone : (stmts piece { bindings := before }).errors = [] :=
        errors_stmts_append (errors_pieces (.cons hpiece hpieces) before)
      have hfirst : Recorded right (stmts piece { bindings := before }) :=
        fun b hb => hrecorded b ((bindings_stmts_append piece pieces.flatten).subset hb)
      -- The piece leaves nothing open, so what comes after it is resolved as at the start of a
      -- program.
      obtain ⟨found, hfound⟩ := stmts_top hnone
      rw [List.flatten_cons, stmts_append, hfound] at hrecorded
      simp only [List.flatten_cons, Eval.interpretFrom_append, Session.sequence, List.find?_cons,
        Report.upToStop]
      rcases h.line fuel hpiece hfirst with
        ⟨n', hrun, hstopped, hnext⟩ | ⟨stop', n', hrun, hstopped, houtput, hsame⟩
      · simp only [hrun, hstopped, Bool.false_eq_true, if_false, List.map_cons, String.join_cons,
          ← String.append_assoc]
        exact ih hnext hrecorded
      · simp only [hrun, hstopped, if_true, List.map_cons, List.map_nil, String.join_cons,
          String.join_nil, String.append_empty]
        exact .inr ⟨stop', n', _, rfl, rfl, houtput, hsame⟩

theorem abreast_start (right : Nat → Option Nat) (world : World) {distances : Std.TreeMap Nat Nat}
    (hdistances : ∀ id : Nat, distances[id]? = right id) :
    Abreast right "" (start Native.standard world) { Machine.start Native.standard world with
      distances := distances, output := "" } where
  fresh id _ := Machine.distances_start Native.standard world id
  machines := by
    let P : Pairing :=
      .elsewhere (fun id => (Machine.start Native.standard world).distances[id]?) right 0 ""
    have hblank := machines_start P Native.plain_standard world
    exact ⟨_, hblank.widen P.blank_below ⟨fun _ => rfl, hdistances⟩ rfl, chain_start ..⟩

/-- A program of lines that are accepted when taken alone is accepted, and run from the start as the
statements of the lines. -/
theorem program_joined_eq (fuel : Nat) (world : World) {sources : List Source}
    (hsources : ∀ source ∈ sources, Standalone source) :
    ∃ (pieces : List (List Stmt)) (right : Nat → Option Nat) (m' : Machine),
      List.Forall₂ Piece sources pieces ∧ Recorded right (stmts pieces.flatten {}) ∧
      Abreast right "" (start Native.standard world) m' ∧
      (program fuel (start Native.standard world) (joined sources)).1 =
      match Eval.interpretFrom (Eval.evaluators fuel) pieces.flatten m' with
        | .ok () n' => ⟨n'.output, {}, .finished⟩
        | .error stop' n' => stopReport n'.output {} stop' := by
  obtain ⟨hscanned, -⟩ :=
    Scanned.ofSource_joined fun source hsource => (hsources source hsource).scanned
  obtain ⟨hparsed, pieces, hvalue, halike⟩ :=
    parseProgram_joined 0 (fun source hsource => (hsources source hsource).scanned)
    fun source hsource => (hsources source hsource).parsed
  have hpieces : List.Forall₂ Piece sources pieces :=
    (List.forall₂_and_left _ _).2 ⟨hsources, halike⟩
  obtain ⟨-, hwritten⟩ := parseProgram_written (joined sources) 0
  rw [hvalue] at hwritten
  obtain ⟨distances, hnoted⟩ :=
    (Machine.start Native.standard world).noteAll_eq (TraitScript.resolve pieces.flatten)
  refine ⟨pieces, fun id => distances[id]?, _, hpieces, fun b hb => ?_, abreast_start _ world
    fun _ => rfl, ?_⟩
  · have hknown := Machine.distances_noteAll_of_mem _ (nodup_ids_bindings hwritten) hb
      (Machine.distances_start Native.standard world b.id)
    rw [hnoted] at hknown
    exact hknown
  · have hnone : (TraitScript.resolve pieces.flatten).errors = [] := errors_pieces hpieces []
    simp only [program, programWith, hscanned, Parsed.diagnostics, start, hparsed, hvalue,
      resolveAndExecute, resolve, hnone, List.map_nil, List.append_nil,
      List.isEmpty_nil, if_true, executeWith, Eval.interpret, hnoted]
    cases Eval.interpretFrom (Eval.evaluators fuel) pieces.flatten
      { Machine.start Native.standard world with distances := distances, output := "" } with
    | ok _ n' => rfl
    | error stop' n' => rfl

/-- Lines that are accepted when taken alone do the same in a session as joined to one program. The
program writes what the lines write up to and including the first that stops, and ends as that line
does, with an error of the same message, or without one if no line stops. So unless a line needs
more fuel, the program fails at run time exactly if one of the lines does.

Both start in one world. Each look at the clock, each random pick and the input are the same, and
the tables of a trait are walked in the same order, which may be any. -/
theorem lines_run_as_program (fuel : Nat) (world : World) (sources : List Source)
    (hsources : ∀ source ∈ sources, Standalone source) :
    let reports := (sequence (line fuel) sources (start Native.standard world)).1
    let report := (program fuel (start Native.standard world) (joined sources)).1
    report.output = String.join ((Report.upToStop reports).map (·.output)) ∧
      ((reports.find? (·.stopped)).getD ⟨"", {}, .finished⟩).SameOutcome report ∧
      ((∀ r ∈ reports, r.ending = .finished) →
        (report.diagnostics.hadRuntimeError = true ↔
          ∃ r ∈ reports, r.diagnostics.hadRuntimeError = true)) := by
  obtain ⟨pieces, right, m', hpieces, hrecorded, habreast, hprogram⟩ :=
    program_joined_eq fuel world hsources
  dsimp only
  rw [hprogram]
  have hreports : ∀ r : Report, r.ending = .finished →
      r.stopped = r.diagnostics.hadRuntimeError := by
    intro r hr
    simp [Report.stopped, hr]
  rcases habreast.sequence fuel hpieces hrecorded with
    ⟨n', hrun, hnone, houtput⟩ | ⟨stop', n', report, hrun, hfirst, houtput, hsame⟩
  · rw [hrun, hnone]
    refine ⟨houtput.trans (String.empty_append ..), ⟨rfl, rfl, rfl, rfl⟩,
      fun hfinished => ⟨nofun, ?_⟩⟩
    rintro ⟨r, hr, hfailed⟩
    have hgoes := List.find?_eq_none.1 hnone r hr
    rw [hreports r (hfinished r hr)] at hgoes
    exact absurd hfailed hgoes
  · rw [hrun, hfirst]
    refine ⟨?_, hsame, fun hfinished => ?_⟩
    · dsimp only
      rw [output_stopReport]
      exact houtput.trans (String.empty_append ..)
    · have hmem := List.mem_of_find?_eq_some hfirst
      have hstopped : report.stopped = true := List.find?_some hfirst
      rw [hreports report (hfinished report hmem)] at hstopped
      exact ⟨fun _ => ⟨report, hmem, hstopped⟩, fun _ => hsame.hadRuntimeError.trans hstopped⟩

/-- The second line stops after writing something, and the third is not reached by the program. -/
def stoppingLines : List Source :=
  [Utf8.encode "var a = true;", Utf8.encode "print a; print b;", Utf8.encode "print a;"]

theorem lines_run_as_program_stopping :
    (∀ source ∈ stoppingLines, Standalone source) ∧
      (program 9 (start Native.standard {}) (joined stoppingLines)).1.output =
        String.join
        ((Report.upToStop (sequence (line 9) stoppingLines (start Native.standard {})).1).map
          (·.output)) ∧
      (program 9 (start Native.standard {}) (joined stoppingLines)).1.diagnostics.hadRuntimeError =
      true := by
  have hsources : ∀ source ∈ stoppingLines, Standalone source := by
    simp only [stoppingLines, List.forall_mem_cons]
    refine ⟨⟨?_, ?_, ?_⟩, ⟨?_, ?_, ?_⟩, ⟨?_, ?_, ?_⟩, nofun⟩ <;> decide +kernel
  exact ⟨hsources, (lines_run_as_program 9 {} stoppingLines hsources).1, by decide +kernel⟩

end Session

end TraitScript
