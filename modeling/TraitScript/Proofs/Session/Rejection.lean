import TraitScript.Proofs.Paired.Image
import TraitScript.Proofs.Parse.Twins
import TraitScript.Proofs.Session.Text
import TraitScript.Proofs.Token.Joined

/-!
# Lines that are rejected

A line with a lexical, syntax or resolution error is not run, but it may have used up ids and left
distances behind. Without it the ids of all later lines are smaller by a constant, and nothing else
changes: every later line is read, resolved and run in the same way, and the machines correspond
after each of them.
-/

namespace TraitScript

open Parse Resolve

/-! ### Moved ids -/

/-- Ids from a cut on are moved up by a gap. -/
def moved (cut gap id : Nat) : Nat := if id < cut then id else id + gap

theorem moved_of_lt {cut id : Nat} (gap : Nat) (h : id < cut) : moved cut gap id = id := if_pos h

theorem moved_of_le {cut id : Nat} (gap : Nat) (h : cut ≤ id) : moved cut gap id = id + gap :=
  if_neg (Nat.not_lt.2 h)

theorem moved_injective (cut gap : Nat) : Function.Injective (moved cut gap) := by
  intro a b h
  unfold moved at h
  split at h <;> split at h <;> omega

/-- The gap itself is left free. -/
theorem moved_not_mem_gap (cut gap id : Nat) :
    moved cut gap id < cut ∨ cut + gap ≤ moved cut gap id := by
  unfold moved
  split <;> omega

/-- Trees with moved ids. -/
def Correspondence.moved (cut gap : Nat) : Correspondence where
  token t t' := t' = t
  occurrence _ id t id' t' := id' = TraitScript.moved cut gap id ∧ t' = t
  receiver _ id t id' t' := id' = TraitScript.moved cut gap id ∧ t' = t
  declared _ t t' := t' = t
  named _ t t' := t' = t

theorem Correspondence.moved_renumbers (cut gap : Nat) :
    (Correspondence.moved cut gap).Renumbers (TraitScript.moved cut gap) :=
  ⟨id, id, id, id, id⟩

/-- Runs of programs with moved ids, where the same distances are recorded. -/
def Pairing.moved (cut gap : Nat) (left right : Nat → Option Nat)
    (h : ∀ id, right (TraitScript.moved cut gap id) = left id) : Pairing where
  trees := .moved cut gap
  rename _ name := name
  left := left
  right := right
  lines line line' := line' = line
  said name name' := name' = name
  earlier := ""
  rename_false _ := rfl
  rename_this _ := rfl
  rename_super _ := rfl
  said_this := rfl
  said_super := rfl
  injective _ := Function.injective_id
  of_token ht := by
    cases ht
    exact ⟨rfl, rfl, rfl⟩
  of_occurrence {marks id t id' t'} ht := by
    obtain ⟨rfl, rfl⟩ := ht
    exact ⟨h id, rfl, rfl, rfl⟩
  of_receiver {marks id t id' t'} ht := by
    obtain ⟨rfl, rfl⟩ := ht
    exact ⟨h id, rfl, rfl, rfl⟩
  of_declared ht := by rw [ht]
  of_named ht := by
    cases ht
    exact ⟨rfl, rfl, rfl⟩

theorem Stop.Alike.eq_of_moved {cut gap : Nat} {left right : Nat → Option Nat}
    {h : ∀ id, right (TraitScript.moved cut gap id) = left id} {stop stop' : Stop}
    (hstop : stop.Alike (.moved cut gap left right h) stop') : stop' = stop := by
  cases hstop with
  | error hcause hline =>
      obtain rfl := eq_of_rel id hline
      cases hcause with
      | same cause => rfl
      | access herror => cases herror with
        | undefined hsaid => cases hsaid; rfl
        | uninitialized hsaid => cases hsaid; rfl
        | chainEnded hops distance => rfl
      | notTrait hsaid => cases hsaid; rfl
  | fault fault => rfl
  | outOfFuel => rfl

/-! ### Reading and resolving a line again -/

/-- A line is read in the same way wherever the ids start: as the same statements but for ids, or
with the same errors. -/
theorem Session.parseLine_later (scanned : Scanned) (heof : scanned.last.kind = .eof)
    (shift firstId : Nat) :
    (parseLine scanned (firstId + shift)).2 = (parseLine scanned firstId).2 + shift ∧
      ((∃ statements statements', (parseLine scanned firstId).1 = .ok statements ∧
        (parseLine scanned (firstId + shift)).1 = .ok statements' ∧
          (Twin.later shift).StmtLists statements statements') ∨
        ∃ errors, (parseLine scanned firstId).1 = .error errors ∧
          (parseLine scanned (firstId + shift)).1 = .error errors) := by
  have hprogram := parseProgram_alike (Twin.later_sources shift heof) (Nat.zero_le firstId)
  have hexpression :=
    parseExpression_alike (Twin.later_sources shift heof)
      (Nat.zero_le (parseProgram scanned firstId).nextId)
  have herrors := Twin.eq_of_later_errors hprogram.errors
  have herrors' := Twin.eq_of_later_errors hexpression.errors
  have hnext := hprogram.nextId
  have hnext' := hexpression.nextId
  have hvalue := hexpression.value
  simp only [Twin.later] at herrors herrors' hnext hnext' hvalue
  unfold parseLine
  dsimp only
  rw [herrors, hnext, herrors', hnext']
  split
  · exact ⟨rfl, .inl ⟨_, _, rfl, rfl, hprogram.value⟩⟩
  · split
    · exact ⟨rfl, .inr ⟨_, rfl, rfl⟩⟩
    · rcases rel_cases hvalue with ⟨hleft, hright⟩ | ⟨expr, expr', hleft, hright, hexpr⟩
      · rw [hleft, hright]
        exact ⟨rfl, .inr ⟨_, rfl, rfl⟩⟩
      · rw [hleft, hright]
        cases (parseExpression scanned (parseProgram scanned firstId).nextId).errors with
        | nil => exact ⟨rfl, .inl ⟨_, _, rfl, rfl, fun marks => .cons (.print (hexpr marks)) .nil⟩⟩
        | cons error rest => exact ⟨rfl, .inr ⟨_, rfl, rfl⟩⟩

/-- For resolving a program again with other ids. -/
def Resolve.Mirror.later (shift : Nat) (left right : Nat → Option Nat) (within : Nat → Prop) :
    Mirror where
  trees := (Twin.later shift).trees
  rename _ name := name
  admits _ := True
  ids id id' := id' = id + shift
  left := left
  right := right
  within := within
  before := []
  verbatim := True
  rename_false _ := rfl
  injective _ _ h := h
  admits_this := trivial
  admits_super := trivial
  of_token ht := ⟨by rw [ht], fun _ => ht⟩
  of_declared ht := ⟨by rw [ht], trivial, fun _ => ht⟩
  of_named ht := ⟨by rw [ht], trivial, fun _ => ht⟩
  of_occurrence ht := ⟨by rw [ht.2], trivial, ht.1, fun _ => ht.2⟩
  of_receiver ht := ⟨by rw [ht.2], trivial, ht.1, fun _ => ht.2⟩

/-- A program that is resolved again with other ids: the errors are the same, so are the distances,
and if there are no errors its trees have moved ids. -/
theorem resolve_later {cut gap shift lo hi : Nat}
    (hids : ∀ id, lo ≤ id → id < hi → id + shift = moved cut gap id)
    {statements statements' : List Stmt}
    (halike : (Twin.later shift).StmtLists statements statements')
    (hwritten : Uses.Written .genuine lo hi (programUses statements))
    (hwritten' : Uses.Written .genuine (lo + shift) (hi + shift) (programUses statements')) :
    (resolve statements').errors = (resolve statements).errors ∧
      List.Forall₂ (fun b b' => b'.id = moved cut gap b.id ∧ b'.distance = b.distance)
      (resolve statements).bindings (resolve statements').bindings ∧
      ((resolve statements).errors = [] →
        Stmt.AlikeAll (.moved cut gap) [] statements statements') := by
  let M := Mirror.later shift (knownDistances statements) (knownDistances statements') fun id =>
    lo ≤ id ∧ id < hi
  have hresolved := resolve_alike M rfl (halike []) fun b hb =>
    ⟨knownDistances_of_mem hwritten hb, id_of_mem_bindings hwritten hb⟩
  refine ⟨hresolved.verbatim trivial, ?_, fun hnone => ?_⟩
  · have hboth :=
      (List.forall₂_and_left _ _).2 ⟨fun b hb => id_of_mem_bindings hwritten hb, hresolved.bindings⟩
    apply hboth.imp
    rintro b b' ⟨hrange, hid, hdistance⟩
    exact ⟨hid.trans (hids b.id hrange.1 hrange.2), hdistance⟩
  · have htrees := hresolved.resolved hnone fun b hb => knownDistances_of_mem hwritten' hb
    have hmoved : ∀ {id id' : Nat}, id' = id + shift → (lo ≤ id ∧ id < hi) →
        id' = moved cut gap id :=
      fun hid hrange => hid.trans (hids _ hrange.1 hrange.2)
    have hle : M.resolved.Below (.moved cut gap) :=
      ⟨id, fun h => ⟨hmoved h.1.1 h.2.2, h.1.2⟩, fun h => ⟨hmoved h.1.1 h.2.2, h.1.2⟩, id, id⟩
    exact htrees.mono hle

/-! ### One line in two sessions -/

namespace Session

/-- Two sessions of which the second is ahead in ids, now by a shift and on the whole by a gap. -/
structure Ahead (cut gap shift : Nat) (s s' : Session) : Prop where
  nextId : s'.nextId = s.nextId + shift
  tables : ∀ id : Nat, s'.machine.distances[moved cut gap id]? = s.machine.distances[id]?
  machines : ∃ L, Machines
      (.moved cut gap (fun id => s.machine.distances[id]?) (fun id => s'.machine.distances[id]?)
      tables) L s.machine s'.machine ∧
    L.Chain [] s.machine.current

variable {cut gap shift : Nat} {s s' : Session}

theorem Ahead.of_machines {left right : Nat → Option Nat}
    {htables : ∀ id, right (moved cut gap id) = left id} {L : Layout}
    (hmachines : Machines (.moved cut gap left right htables) L s.machine s'.machine)
    (hchain : L.Chain [] s.machine.current) (hnext : s'.nextId = s.nextId + shift) :
    Ahead cut gap shift s s' := by
  obtain rfl : left = fun id => s.machine.distances[id]? :=
    funext fun id => (hmachines.distances.1 id).symm
  obtain rfl : right = fun id => s'.machine.distances[id]? :=
    funext fun id => (hmachines.distances.2 id).symm
  exact ⟨hnext, htables, L, hmachines, hchain⟩

/-- Other distances are recorded, and other ids are used up. -/
theorem Ahead.noteAll {shift' : Nat} (h : Ahead cut gap shift s s')
    {resolution resolution' : Resolution}
    (htables : ∀ id : Nat, (s'.machine.noteAll resolution').distances[moved cut gap id]? =
      (s.machine.noteAll resolution).distances[id]?)
    {nextId nextId' : Nat} (hnext : nextId' = nextId + shift') :
    Ahead cut gap shift' ⟨s.machine.noteAll resolution, nextId⟩
      ⟨s'.machine.noteAll resolution', nextId'⟩ := by
  obtain ⟨L, hmachines, hchain⟩ := h.machines
  obtain ⟨distances, hleft⟩ := s.machine.noteAll_eq resolution
  obtain ⟨distances', hright⟩ := s'.machine.noteAll_eq resolution'
  rw [hleft, hright] at htables ⊢
  have hle : Pairing.Below (.moved cut gap _ _ h.tables)
      (.moved cut gap (fun id => distances[id]?) (fun id => distances'[id]?) htables) :=
    ⟨⟨id, id, id, id, id⟩, rfl⟩
  have hnoted := hmachines.widen hle ⟨fun _ => rfl, fun _ => rfl⟩ hmachines.output
  exact Ahead.of_machines hnoted hchain hnext

/-- Running corresponding statements once they are resolved. -/
theorem Ahead.executeWith (h : Ahead cut gap shift s s') (fuel : Nat)
    {statements statements' : List Stmt}
    (halike : Stmt.AlikeAll (.moved cut gap) [] statements statements') :
    (s'.executeWith (Eval.evaluators fuel) statements').1 =
      (s.executeWith (Eval.evaluators fuel) statements).1 ∧
      Ahead cut gap shift (s.executeWith (Eval.evaluators fuel) statements).2
      (s'.executeWith (Eval.evaluators fuel) statements').2 := by
  obtain ⟨L, hmachines, hchain⟩ := h.machines
  have hcleared : Machines _ L { s.machine with output := "" } { s'.machine with output := "" } :=
    { hmachines with output := rfl }
  unfold Session.executeWith
  rcases interpret_alike fuel halike hcleared hchain with
    ⟨L', n, n', hleft, hright, hmachines', hchain'⟩ | ⟨L', stop, stop', n, n', hleft, hright,
      hmachines', hchain', hstop⟩
  · have houtput : n'.output = n.output := hmachines'.output.trans (String.empty_append ..)
    rw [hleft, hright]
    exact ⟨by dsimp only; rw [houtput], .of_machines hmachines' hchain' h.nextId⟩
  · have houtput : n'.output = n.output := hmachines'.output.trans (String.empty_append ..)
    rw [hleft, hright]
    exact ⟨by dsimp only; rw [houtput, hstop.eq_of_moved], .of_machines hmachines' hchain' h.nextId⟩

theorem nextId_resolveAndExecute (self : Eval.Evaluators) (s : Session) (statements : List Stmt) :
    (s.resolveAndExecute self statements).2.nextId = s.nextId := by
  unfold resolveAndExecute
  dsimp only
  split
  · exact nextId_executeWith ..
  · rfl

/-- What is read is resolved with the same outcome, and run if there are no errors. -/
theorem Ahead.resolveAndExecute (h : Ahead cut gap shift s s') (fuel : Nat) {nextId nextId' : Nat}
    (hnext : nextId' = nextId + shift)
    (hids : ∀ id, s.nextId ≤ id → id < nextId → id + shift = moved cut gap id)
    {statements statements' : List Stmt}
    (halike : (Twin.later shift).StmtLists statements statements')
    (hwritten : Uses.Written .genuine s.nextId nextId (programUses statements))
    (hwritten' : Uses.Written .genuine s'.nextId nextId' (programUses statements')) :
    (Session.resolveAndExecute (Eval.evaluators fuel) ⟨s'.machine, nextId'⟩ statements').1 =
        (Session.resolveAndExecute (Eval.evaluators fuel) ⟨s.machine, nextId⟩ statements).1 ∧
      Ahead cut gap shift
        (Session.resolveAndExecute (Eval.evaluators fuel) ⟨s.machine, nextId⟩ statements).2
        (Session.resolveAndExecute (Eval.evaluators fuel) ⟨s'.machine, nextId'⟩ statements').2 := by
  rw [h.nextId, hnext] at hwritten'
  obtain ⟨herrors, hbindings, haccepted⟩ := resolve_later hids halike hwritten hwritten'
  have hnoted :=
    h.noteAll (Machine.distances_noteAll_renumbered (moved_injective cut gap) hbindings
      h.tables) hnext
  unfold Session.resolveAndExecute Session.resolve
  dsimp only
  rw [herrors]
  split
  next hnone => exact hnoted.executeWith fuel (haccepted (List.isEmpty_iff.1 hnone))
  next =>
    refine ⟨?_, hnoted⟩
    unfold Resolution.diagnostics
    rw [herrors]

/-- The next line is answered in the same way, if its ids are shifted as on the whole. -/
theorem Ahead.line (h : Ahead cut gap shift s s') (fuel : Nat) (source : Source)
    (hids : ∀ id, s.nextId ≤ id → id < (s.line fuel source).2.nextId →
      id + shift = moved cut gap id) :
    (s'.line fuel source).1 = (s.line fuel source).1 ∧
      Ahead cut gap shift (s.line fuel source).2 (s'.line fuel source).2 := by
  obtain ⟨hnext, hparsed⟩ :=
    parseLine_later (.ofSource source) (Scanned.last_ofSource source) shift s.nextId
  rw [← h.nextId] at hnext hparsed
  obtain ⟨-, hwritten⟩ := parseLine_written source s.nextId
  obtain ⟨-, hwritten'⟩ := parseLine_written source s'.nextId
  unfold Session.line lineWith at hids ⊢
  dsimp only at hids ⊢
  by_cases hscanned : (Scanned.ofSource source).errors.isEmpty = true
  · rw [if_pos hscanned] at hids ⊢
    rw [if_pos hscanned]
    rcases hparsed with ⟨statements, statements', hleft, hright, halike⟩ | ⟨errors, hleft, hright⟩
    · simp only [hleft, nextId_resolveAndExecute] at hids ⊢
      rw [hright]
      exact h.resolveAndExecute fuel hnext hids halike (hwritten _ hleft) (hwritten' _ hright)
    · rw [hleft, hright]
      obtain ⟨L, hmachines, hchain⟩ := h.machines
      exact ⟨rfl, hnext, h.tables, L, hmachines, hchain⟩
  · rw [if_neg hscanned, if_neg hscanned]
    exact ⟨rfl, h⟩

/-! ### Whole sessions -/

theorem nextId_feed (self : Eval.Evaluators) (s : Session) (input : Input) :
    (s.feed self input).2.nextId = (input.read s.nextId).2 := by
  rcases s.feed_eq input with ⟨statements, -, hfeed⟩ | ⟨-, errors, hfeed⟩
  · rw [hfeed, nextId_resolveAndExecute]
  · rw [hfeed]

theorem nextId_le_line (fuel : Nat) (s : Session) (source : Source) :
    s.nextId ≤ (s.line fuel source).2.nextId := by
  have hline : s.line fuel source = s.feed (Eval.evaluators fuel) (.line source) := rfl
  rw [hline, nextId_feed]
  exact (Input.read_written (.line source) s.nextId).1

theorem nextId_le_sequence (fuel : Nat) (sources : List Source) (s : Session) :
    s.nextId ≤ (sequence (line fuel) sources s).2.nextId := by
  induction sources generalizing s with
  | nil => exact Nat.le_refl _
  | cons source rest ih => exact Nat.le_trans (nextId_le_line fuel s source) (ih _)

theorem sequence_append {ι : Type} (step : Session → ι → Report × Session) (first rest : List ι)
    (s : Session) :
    sequence step (first ++ rest) s =
      ((sequence step first s).1 ++ (sequence step rest (sequence step first s).2).1,
      (sequence step rest (sequence step first s).2).2) := by
  induction first generalizing s with
  | nil => rfl
  | cons input first ih => simp only [List.cons_append, sequence, ih]

theorem length_sequence {ι : Type} (step : Session → ι → Report × Session) (inputs : List ι)
    (s : Session) :
    (sequence step inputs s).1.length = inputs.length := by
  induction inputs generalizing s with
  | nil => rfl
  | cons input rest ih => simp only [sequence, List.length_cons, ih]

/-- Before the line that is left out both sessions are the same, and all ids are below the cut. -/
theorem Ahead.sequence_before (fuel : Nat) (sources : List Source) (h : Ahead cut gap 0 s s)
    (hcut : (sequence (Session.line fuel) sources s).2.nextId ≤ cut) :
    Ahead cut gap 0 (sequence (Session.line fuel) sources s).2
      (sequence (Session.line fuel) sources s).2 := by
  induction sources generalizing s with
  | nil => exact h
  | cons source rest ih =>
      have hlater := nextId_le_sequence fuel rest (s.line fuel source).2
      have hline := h.line fuel source fun id _ hid =>
        (moved_of_lt gap (Nat.lt_of_lt_of_le hid (Nat.le_trans hlater hcut))).symm
      exact ih hline.2 hcut

/-- After that line all new ids are beyond the cut. -/
theorem Ahead.sequence_after (fuel : Nat) (sources : List Source) (h : Ahead cut gap gap s s')
    (hcut : cut ≤ s.nextId) :
    (sequence (Session.line fuel) sources s').1 = (sequence (Session.line fuel) sources s).1 ∧
      Ahead cut gap gap (sequence (Session.line fuel) sources s).2
      (sequence (Session.line fuel) sources s').2 := by
  induction sources generalizing s s' with
  | nil => exact ⟨rfl, h⟩
  | cons source rest ih =>
      have hline := h.line fuel source fun id hid _ =>
        (moved_of_le gap (Nat.le_trans hcut hid)).symm
      have hrest := ih hline.2 (Nat.le_trans hcut (nextId_le_line fuel s source))
      simp only [sequence, hline.1, hrest.1]
      exact ⟨trivial, hrest.2⟩

theorem ahead_start (cut gap : Nat) (world : World) :
    Ahead cut gap 0 (start Native.standard world) (start Native.standard world) := by
  let P : Pairing := .moved cut gap (fun _ => none) (fun _ => none) fun _ => rfl
  have hblank := machines_start P Native.plain_standard world
  have hmachines := hblank.widen P.blank_below hblank.distances hblank.output
  exact .of_machines hmachines (chain_start ..) rfl

/-- A report of a run has no errors found before running. -/
theorem hadError_executeWith (self : Eval.Evaluators) (s : Session) (statements : List Stmt) :
    (s.executeWith self statements).1.diagnostics.hadError = false := by
  unfold Session.executeWith
  split
  · rfl
  · rename_i stop m _
    cases stop <;> rfl

/-- A line with errors found before running changes nothing but the distances of its own ids. -/
theorem line_of_hadError {fuel : Nat} {source : Source}
    (h : (s.line fuel source).1.diagnostics.hadError = true) :
    ∃ resolution, (s.line fuel source).2.machine = s.machine.noteAll resolution ∧
      ∀ b ∈ resolution.bindings, s.nextId ≤ b.id ∧ b.id < (s.line fuel source).2.nextId := by
  have hnext := nextId_feed (Eval.evaluators fuel) s (.line source)
  have hline : s.line fuel source = s.feed (Eval.evaluators fuel) (.line source) := rfl
  rw [hline] at h ⊢
  rw [hnext]
  rcases s.feed_eq (.line source) with ⟨statements, hread, hfeed⟩ | ⟨-, errors, hfeed⟩
  · rw [hfeed] at h ⊢
    unfold Session.resolveAndExecute at h ⊢
    dsimp only at h ⊢
    split at h
    · rw [hadError_executeWith] at h
      cases h
    next hrejected =>
      rw [if_neg hrejected]
      exact ⟨_, rfl, fun b hb =>
        id_of_mem_bindings ((Input.read_written (.line source) s.nextId).2 statements hread) hb⟩
  · rw [hfeed]
    exact ⟨⟨[], []⟩, rfl, nofun⟩

/-- Leaving out the line itself: what it has recorded concerns only ids in the gap. -/
theorem Ahead.skip {fuel : Nat} {source : Source}
    (h : (s.line fuel source).1.diagnostics.hadError = true)
    (hgap : (s.line fuel source).2.nextId = s.nextId + gap) (hs : Ahead s.nextId gap 0 s s) :
    Ahead s.nextId gap gap s (s.line fuel source).2 := by
  obtain ⟨resolution, hmachine, hids⟩ := line_of_hadError h
  have htables : ∀ id : Nat, (s.machine.noteAll resolution).distances[moved s.nextId gap id]? =
      (s.machine.noteAll ⟨[], []⟩).distances[id]? := by
    intro id
    have hother : ∀ b ∈ resolution.bindings, b.id ≠ moved s.nextId gap id := by
      intro b hb heq
      have hrange := hids b hb
      have hfree := moved_not_mem_gap s.nextId gap id
      omega
    rw [Machine.distances_noteAll_of_notMem _ _ hother]
    exact hs.tables id
  have hskipped := hs.noteAll htables hgap
  rw [← hmachine] at hskipped
  exact hskipped

/-- Lines with errors found before running leave no trace. Leaving out such a line changes no other
report. The final machine is the same up to ids: those handed out after the line are larger by as
many as the line has used up, and only for the ids of the line may further distances be recorded.
With and without the line the world is the same, up to the order in which the tables of traits are
walked, so errors that depend on that order agree. -/
theorem rejected_line_leaves_no_trace (fuel : Nat) (world : World) (before after : List Source)
    (rejected : Source)
    (hrejected : ((sequence (line fuel) before (start Native.standard world)).2.line fuel
      rejected).1.diagnostics.hadError = true) :
    let reached := (sequence (line fuel) before (start Native.standard world)).2
    let left := (reached.line fuel rejected).2
    let shorter := sequence (line fuel) (before ++ after) (start Native.standard world)
    let longer := sequence (line fuel) (before ++ rejected :: after) (start Native.standard world)
    (∃ earlier later, shorter.1 = earlier ++ later ∧
      longer.1 = earlier ++ (reached.line fuel rejected).1 :: later ∧
      earlier.length = before.length) ∧
      shorter.2.machine.Image (moved reached.nextId (left.nextId - reached.nextId))
      longer.2.machine ∧
      longer.2.nextId = shorter.2.nextId + (left.nextId - reached.nextId) := by
  let reached := (sequence (line fuel) before (start Native.standard world)).2
  have hle := nextId_le_line fuel reached rejected
  -- The cut is fixed from the start on, although ids beyond it are met only after the line.
  have hreached : Ahead reached.nextId ((reached.line fuel rejected).2.nextId - reached.nextId) 0
      reached reached :=
    Ahead.sequence_before fuel before (ahead_start _ _ world) (Nat.le_refl _)
  have hskipped := hreached.skip hrejected (Nat.add_sub_of_le hle).symm
  obtain ⟨hreports, hfinal⟩ := hskipped.sequence_after fuel after (Nat.le_refl _)
  obtain ⟨L, hmachines, -⟩ := hfinal.machines
  simp only [sequence_append, sequence]
  refine ⟨⟨_, _, rfl, ?_, length_sequence ..⟩, ?_, hfinal.nextId⟩
  · rw [hreports]
  · exact hmachines.image (Correspondence.moved_renumbers _ _) (fun _ => rfl) rfl hfinal.tables

def definingLine : Source := Utf8.encode "var a = true;"

/-- A line whose last statement is out of place, after a distance was found for `b`. -/
def misplacedReturn : Source := Utf8.encode "\x7b var b = a; print b; return; \x7d"

def printingLine : Source := Utf8.encode "print a;"

theorem rejected_line_leaves_no_trace_return :
    ((sequence (line 9) [definingLine] (start Native.standard {})).2.line 9
      misplacedReturn).1.diagnostics.hadError = true ∧
      (sequence (line 9) ([definingLine] ++ [printingLine])
        (start Native.standard {})).2.machine.Image (moved 0 2)
        (sequence (line 9) ([definingLine] ++ misplacedReturn :: [printingLine])
          (start Native.standard {})).2.machine := by
  have hrejected : ((sequence (line 9) [definingLine] (start Native.standard {})).2.line 9
      misplacedReturn).1.diagnostics.hadError = true := by
    decide +kernel
  have hreached : (sequence (line 9) [definingLine] (start Native.standard {})).2.nextId = 0 := by
    decide +kernel
  have hleft : ((sequence (line 9) [definingLine] (start Native.standard {})).2.line 9
      misplacedReturn).2.nextId = 2 := by decide +kernel
  have himage :=
    (rejected_line_leaves_no_trace 9 {} [definingLine] [printingLine] misplacedReturn hrejected).2.1
  rw [hreached, hleft] at himage
  exact ⟨hrejected, himage⟩

end Session

end TraitScript
