import TraitScript.Session
import TraitScript.Proofs.Parse.Written

/-!
# Ids across parser runs

All runs of the parser in a process draw the ids of occurrences from one counter. Whatever tokens
the runs are given, and whether they succeed, give up or recover from errors, no two occurrences in
the trees they return share an id. Ids of trees that were dropped on the way are never given out
again.
-/

namespace TraitScript

/-- A run of the parser over tokens. -/
inductive Parse.Run where
  | program (scanned : Scanned)
  | expression (scanned : Scanned)

namespace Parse.Run

/-- What occurs in the tree that a run returns, if it returns one, and the next free id. -/
def read (firstId : Nat) : Run → Uses × Nat
  | .program scanned =>
    let parsed := parseProgram scanned firstId
    (programUses parsed.value, parsed.nextId)
  | .expression scanned =>
    let parsed := parseExpression scanned firstId
    (Expr.uses? parsed.value .top, parsed.nextId)

/-- Each run counts on from where the one before it stopped. -/
def readAll (firstId : Nat) : List Run → Uses × Nat
  | [] => ([], firstId)
  | run :: rest =>
    let (uses, nextId) := run.read firstId
    let (later, lastId) := readAll nextId rest
    (uses ++ later, lastId)

theorem read_meets (run : Run) (firstId : Nat) :
    firstId ≤ (run.read firstId).2 ∧
      Uses.Written .jumpsInLoops firstId (run.read firstId).2 (run.read firstId).1 := by
  cases run with
  | program scanned => exact parseProgram_meets (State.meets_jumpsInLoops scanned firstId)
  | expression scanned =>
      obtain ⟨hle, hwritten⟩ := parseExpression_meets (State.meets_jumpsInLoops scanned firstId)
      exact ⟨hle, written_uses? hwritten .top⟩

theorem readAll_meets (runs : List Run) (firstId : Nat) :
    firstId ≤ (readAll firstId runs).2 ∧
      Uses.Written .jumpsInLoops firstId (readAll firstId runs).2 (readAll firstId runs).1 := by
  induction runs generalizing firstId with
  | nil => exact ⟨Nat.le_refl _, .nil⟩
  | cons run rest ih =>
      obtain ⟨hle, hfirst⟩ := run.read_meets firstId
      obtain ⟨hle', hrest⟩ := ih (run.read firstId).2
      exact ⟨Nat.le_trans hle hle', hfirst.append hrest hle hle'⟩

/-- A line is read by one run, or by a second run that counts on after the first. -/
theorem parseLine_runs (scanned : Scanned) (firstId : Nat) :
    ∃ runs, (runs = [.program scanned] ∨ runs = [.program scanned, .expression scanned]) ∧
      (Session.parseLine scanned firstId).2 = (readAll firstId runs).2 ∧
      ∀ statements, (Session.parseLine scanned firstId).1 = .ok statements →
        (programUses statements).Sublist (readAll firstId runs).1 := by
  unfold Session.parseLine
  dsimp only
  split
  · refine ⟨_, .inl rfl, rfl, fun statements hstatements => ?_⟩
    rw [← Except.ok.inj hstatements]
    exact List.sublist_append_left ..
  · split
    · refine ⟨_, .inl rfl, rfl, fun _ h => ?_⟩
      cases h
    · split
      next expr hvalue _ =>
        refine ⟨_, .inr rfl, rfl, fun statements hstatements => ?_⟩
        have hprint : programUses statements =
            (Run.read (parseProgram scanned firstId).nextId (.expression scanned)).1 := by
          rw [← Except.ok.inj hstatements, programUses, Stmt.usesAll, Stmt.usesAll, Stmt.uses,
            List.append_nil, read]
          simp only [hvalue, Expr.uses?]
        rw [hprint]
        exact (List.sublist_append_left _ _).trans (List.sublist_append_right _ _)
      next =>
        refine ⟨_, .inr rfl, rfl, fun _ h => ?_⟩
        cases h

end Parse.Run

/-- However often the parser has run, and over whatever tokens, no two occurrences in the trees it
returned share an id. The one or two readings of a line are runs like any others. -/
theorem parser_runs_share_no_ids (firstId : Nat) (runs : List Parse.Run) :
    (Uses.ids (Parse.Run.readAll firstId runs).1).Nodup ∧
      ∀ scanned : Scanned, ∃ ofLine,
        (ofLine = [.program scanned] ∨ ofLine = [.program scanned, .expression scanned]) ∧
        (Session.parseLine scanned firstId).2 = (Parse.Run.readAll firstId ofLine).2 ∧
        ∀ statements, (Session.parseLine scanned firstId).1 = .ok statements →
          (programUses statements).Sublist (Parse.Run.readAll firstId ofLine).1 := by
  refine ⟨?_, fun scanned => ?_⟩
  · obtain ⟨-, hwritten⟩ := Parse.Run.readAll_meets runs firstId
    exact hwritten.nodup
  · exact Parse.Run.parseLine_runs scanned firstId

end TraitScript
