import TraitScript.Proofs.Paired.Session
import TraitScript.Proofs.Parse.Grammar
import TraitScript.Proofs.Parse.Twins
import TraitScript.Proofs.Session.Text
import TraitScript.Proofs.Token.Joined
import TraitScript.Proofs.Tree.Rename
import TraitScript.Tree.Render

/-!
# The names of locals do not matter

When a variable or parameter and all occurrences that are bound to it get another name, which occurs
nowhere in the program, then the program is still accepted, its occurrences have the same distances,
and it does the same when it is run. Only an error may speak of the new name where it spoke of the
old.
-/

namespace TraitScript

open Parse Resolve

variable {r : Renaming}

/-! ### Names of a program -/

theorem Keyword.ofText?_text (keyword : Keyword) : Keyword.ofText? keyword.text ≠ none := by
  cases keyword <;> decide

theorem Token.Genuine.notReserved {t : Token} (h : t.Genuine) (hname : t.isIdentifier = true) :
    Keyword.ofText? t.lexeme = none :=
  h.1 (Token.isIdentifier_iff.1 hname)

/-- A source read twice, with names that suit a renaming. -/
def Parse.Twin.suiting (r : Renaming) : Twin where
  token t t' := t' = t ∧ t.Genuine ∧ (t.isIdentifier = true → t.lexeme ≠ r.new)
  kind_eq h := by rw [h.1]
  shift := 0
  least := 0
  trees := .suiting r
  of_token _ := trivial
  of_name h hname _ := ⟨Token.Genuine.notReserved h.2.1 hname, h.2.2 hname⟩
  of_receiver {t _ _ _ keyword} h hkind _ := by
    have htext : t.lexeme = keyword.text := h.2.1.2 keyword hkind
    show Keyword.ofText? t.lexeme ≠ none
    rw [htext]
    exact Keyword.ofText?_text keyword
  of_declared h hname := ⟨Token.Genuine.notReserved h.2.1 hname, h.2.2 hname⟩
  of_named h hname := ⟨Token.Genuine.notReserved h.2.1 hname, h.2.2 hname⟩

theorem suiting_parseProgram {source : Source} (firstId : Nat)
    (hfresh : ∀ token ∈ (Scanned.ofSource source).tokens, token.isIdentifier = true →
      token.lexeme ≠ r.new) :
    Stmt.AlikeAll (.suiting r) [] (parseProgram (.ofSource source) firstId).value
      (parseProgram (.ofSource source) firstId).value := by
  obtain ⟨hgenuine, hlast⟩ := Scanned.genuine_ofSource source firstId
  have heof := Scanned.last_ofSource source
  have hsources : (Twin.suiting r).Sources (.ofSource source) (.ofSource source) := by
    refine ⟨List.forall₂_same.2
      fun token htoken => ⟨rfl, hgenuine token htoken, hfresh token htoken⟩,
        ⟨rfl, hlast, fun hname => ?_⟩, heof⟩
    simp [Token.isIdentifier, heof] at hname
  exact (parseProgram_alike hsources (Nat.zero_le firstId)).value []

/-! ### Resolving and running a renamed program -/

namespace Renaming

theorem rename_false (r : Renaming) (name : String) : r.rename false name = name :=
  if_neg fun h => Bool.false_ne_true h.1

theorem rename_cases {name : String} (hname : name ≠ r.new) (mark : Bool) :
    r.rename mark name = name ∨ (name = r.old ∧ r.rename mark name = r.new) := by
  unfold rename
  split
  · by_cases hold : name = r.old
    · exact .inr ⟨hold, by rw [hold, Equiv.swap_apply_left]⟩
    · exact .inl (Equiv.swap_apply_of_ne_of_ne hold hname)
  · exact .inl rfl

theorem rename_of_ne {name : String} (hnew : name ≠ r.new) {mark : Bool}
    (hold : mark = true → name ≠ r.old) : r.rename mark name = name := by
  cases mark with
  | false => exact r.rename_false name
  | true => exact (rename_cases hnew true).resolve_right fun h => hold rfl h.1

theorem ne_new_of_reserved (hnew : Keyword.ofText? r.new = none) {name : String}
    (hname : Keyword.ofText? name ≠ none) : name ≠ r.new :=
  fun heq => hname (heq ▸ hnew)

end Renaming

/-- For resolving a renamed program. -/
def Resolve.Mirror.renaming (r : Renaming) (hnew : Keyword.ofText? r.new = none) : Mirror where
  trees := .renaming r
  rename := r.rename
  admits name := name ≠ r.new
  ids id id' := id' = id
  left := r.distances
  right := r.distances
  within _ := True
  before := []
  verbatim := False
  rename_false := r.rename_false
  injective {mark mark' a b} ha hb h := by
    -- Neither name is the new one, so both are changed to it or none.
    rcases Renaming.rename_cases ha mark with
      hsame | ⟨hold, hchanged⟩ <;> rcases Renaming.rename_cases hb mark' with
      hsame' | ⟨hold', hchanged'⟩
    · exact hsame.symm.trans (h.trans hsame')
    · exact absurd (hsame.symm.trans (h.trans hchanged')) ha
    · exact absurd (hsame'.symm.trans (h.symm.trans hchanged)) hb
    · exact hold.trans hold'.symm
  admits_this := Renaming.ne_new_of_reserved hnew (by decide)
  admits_super := Renaming.ne_new_of_reserved hnew (by decide)
  of_token h := ⟨by rw [h], False.elim⟩
  of_declared h := ⟨by rw [h.1, Renaming.lexeme_spell h.2], h.2.2, False.elim⟩
  of_named h := ⟨by rw [h.1, Renaming.rename_of_ne h.2.1.2 h.2.2], h.2.1.2, False.elim⟩
  of_occurrence h := ⟨by rw [h.2.1, Renaming.lexeme_spell h.2.2], h.2.2.2, h.1, False.elim⟩
  of_receiver h :=
    ⟨by rw [h.2.1, Renaming.rename_reserved hnew h.2.2], Renaming.ne_new_of_reserved hnew h.2.2,
          h.1, False.elim⟩

/-- For running a renamed program. -/
def Pairing.renaming (r : Renaming) (hnew : Keyword.ofText? r.new = none) : Pairing where
  trees := .renaming r
  rename := r.rename
  left := r.distances
  right := r.distances
  lines line line' := line' = line
  said name name' := name' = name ∨ (name = r.old ∧ name' = r.new)
  earlier := ""
  rename_false := r.rename_false
  rename_this := Renaming.rename_reserved hnew (by decide)
  rename_super := Renaming.rename_reserved hnew (by decide)
  said_this := .inl rfl
  said_super := .inl rfl
  injective := r.rename_injective
  of_token h := by
    cases h
    exact ⟨rfl, rfl, rfl⟩
  of_occurrence {marks id t id' t'} h := by
    obtain ⟨rfl, rfl, ht⟩ := h
    refine ⟨rfl, Renaming.lexeme_spell ht _, (r.spell_keeps _ t).2, ?_⟩
    rw [Renaming.lexeme_spell ht]
    exact Renaming.rename_cases ht.2 _
  of_receiver {marks id t id' t'} h := by
    obtain ⟨rfl, rfl, ht⟩ := h
    exact ⟨rfl, (Renaming.rename_reserved hnew ht _).symm, rfl, .inl rfl⟩
  of_declared h := by rw [h.1, Renaming.lexeme_spell h.2]
  of_named h := by
    obtain ⟨rfl, ht, hold⟩ := h
    exact ⟨rfl, Renaming.rename_of_ne ht.2 hold, rfl⟩

/-! ### Reports -/

/-- An error that speaks of the new name where another spoke of the old. -/
inductive RuntimeError.Cause.Renames (old new : String) :
    RuntimeError.Cause → RuntimeError.Cause → Prop
  | undefined : RuntimeError.Cause.Renames old new (.access (.undefined old))
      (.access (.undefined new))
  | uninitialized : RuntimeError.Cause.Renames old new (.access (.uninitialized old))
      (.access (.uninitialized new))
  | notTrait : RuntimeError.Cause.Renames old new (.notTrait old) (.notTrait new)

/-- The same error, up to the renamed name in its message. -/
def Diagnostic.Renames (old new : String) (error error' : Diagnostic) : Prop :=
  error' = error ∨ ∃ cause cause' line, error = RuntimeError.diagnostic ⟨cause, line⟩ ∧
    error' = RuntimeError.diagnostic ⟨cause', line⟩ ∧
    RuntimeError.Cause.Renames old new cause cause'

/-- Reports of the same output and ending, with the same errors up to the renamed name. -/
structure Report.Renames (old new : String) (report report' : Report) : Prop where
  output : report'.output = report.output
  ending : report'.ending = report.ending
  hadError : report'.diagnostics.hadError = report.diagnostics.hadError
  hadRuntimeError : report'.diagnostics.hadRuntimeError = report.diagnostics.hadRuntimeError
  errors : List.Forall₂ (Diagnostic.Renames old new) report.diagnostics.errors
      report'.diagnostics.errors

theorem RuntimeError.Cause.Alike.renames {hnew : Keyword.ofText? r.new = none}
    {cause cause' : RuntimeError.Cause} (h : cause.Alike (.renaming r hnew) cause') :
    cause' = cause ∨ RuntimeError.Cause.Renames r.old r.new cause cause' := by
  cases h with
  | same cause => exact .inl rfl
  | access herror =>
      cases herror with
      | undefined hsaid =>
          rcases hsaid with rfl | ⟨rfl, rfl⟩
          · exact .inl rfl
          · exact .inr .undefined
      | uninitialized hsaid =>
          rcases hsaid with rfl | ⟨rfl, rfl⟩
          · exact .inl rfl
          · exact .inr .uninitialized
      | chainEnded hops distance => exact .inl rfl
  | notTrait hsaid =>
      rcases hsaid with rfl | ⟨rfl, rfl⟩
      · exact .inl rfl
      · exact .inr .notTrait

theorem Stop.Alike.renames {hnew : Keyword.ofText? r.new = none} {stop stop' : Stop}
    (h : stop.Alike (.renaming r hnew) stop') (output : String) :
    (Session.stopReport output {} stop).Renames r.old r.new
      (Session.stopReport output {} stop') := by
  cases h with
  | @error cause cause' line line' hcause hline =>
      obtain rfl := eq_of_rel id hline
      refine ⟨rfl, rfl, rfl, rfl, .cons ?_ .nil⟩
      rcases hcause.renames with rfl | hrenames
      · exact .inl rfl
      · exact .inr ⟨cause, cause', line', rfl, rfl, hrenames⟩
  | fault fault => exact ⟨rfl, rfl, rfl, rfl, .nil⟩
  | outOfFuel => exact ⟨rfl, rfl, rfl, rfl, .nil⟩

namespace Session

/-- What is recorded at the start for a program with given distances. -/
theorem distances_noteAll_start (natives : List Native) (world : World)
    {program statements : List Stmt}
    (h : List.Forall₂ (fun b b' => b'.id = b.id ∧ b'.distance = b.distance)
      (TraitScript.resolve program).bindings (TraitScript.resolve statements).bindings)
    (id : Nat) :
    ((Machine.start natives world).noteAll (TraitScript.resolve statements)).distances[id]? =
      knownDistances program id :=
  Machine.distances_noteAll_renumbered Function.injective_id h
    (fun id => Machine.distances_start natives world id) id

/-- A variable or parameter of any scope, together with the occurrences that are bound to it, may
get any other name that occurs nowhere. Both programs run in one world, in which the tables of
traits are walked in the same order. -/
theorem renaming_a_local_preserves_behaviour (source : Source) (firstId fuel : Nat) (world : World)
    (scope : List Nat) (old new : String)
    (haccepted : (TraitScript.resolve (parseProgram (.ofSource source) firstId).value).errors = [])
    (hnew : Keyword.ofText? new = none)
    (hfresh : ∀ token ∈ (Scanned.ofSource source).tokens, token.isIdentifier = true →
      token.lexeme ≠ new) :
    let program := (parseProgram (.ofSource source) firstId).value
    let renamed := Stmt.renamedAll ⟨scope, old, new, knownDistances program⟩ [] [] program
    (TraitScript.resolve renamed).errors = [] ∧
      List.Forall₂ (fun b b' => b'.id = b.id ∧ b'.distance = b.distance)
      (TraitScript.resolve program).bindings (TraitScript.resolve renamed).bindings ∧
      ((start Native.standard world).resolveAndExecute (Eval.evaluators fuel) program).1.Renames
        old new
        ((start Native.standard world).resolveAndExecute (Eval.evaluators fuel) renamed).1 := by
  intro program renamed
  let r : Renaming := ⟨scope, old, new, knownDistances program⟩
  have haccepted : (TraitScript.resolve program).errors = [] := haccepted
  have hsuits : Stmt.AlikeAll (.suiting r) [] program program := suiting_parseProgram firstId hfresh
  -- Top-level code is in no scope, so no name declared there is changed.
  have halike : Stmt.AlikeAll (.renaming r) [] program renamed :=
    hsuits.renamed (distinct_of_resolve haccepted) [] nofun []
  obtain ⟨-, hwritten⟩ := parseProgram_written source firstId
  have hresolved := resolve_alike (.renaming r hnew) rfl halike fun b hb =>
    ⟨knownDistances_of_mem hwritten hb, trivial⟩
  have haccepted' := hresolved.accepted haccepted
  refine ⟨haccepted', hresolved.bindings, ?_⟩
  -- As the ids have stayed, what is recorded for the one program is recorded for the other.
  have hleft := distances_noteAll_start Native.standard world
    (List.forall₂_same.2 fun b (_ : b ∈ (TraitScript.resolve program).bindings) => ⟨rfl, rfl⟩)
  have hright := distances_noteAll_start Native.standard world hresolved.bindings
  obtain ⟨distances, hnoted⟩ :=
    (Machine.start Native.standard world).noteAll_eq (TraitScript.resolve program)
  obtain ⟨distances', hnoted'⟩ :=
    (Machine.start Native.standard world).noteAll_eq (TraitScript.resolve renamed)
  rw [hnoted] at hleft
  rw [hnoted'] at hright
  let P : Pairing := .renaming r hnew
  have hmachines : Machines P .start { Machine.start Native.standard world with
    distances := distances, output := "" }
      { Machine.start Native.standard world with distances := distances', output := "" } :=
    (machines_start P Native.plain_standard world).widen P.blank_below ⟨hleft, hright⟩ rfl
  simp only [resolveAndExecute, resolve, start, haccepted, haccepted', List.isEmpty_nil, if_true,
    executeWith, hnoted, hnoted']
  rcases interpret_alike fuel halike hmachines (chain_start ..) with
    ⟨L', n, n', hrun, hrun', hmachines', -⟩ | ⟨L', stop, stop', n, n', hrun, hrun',
      hmachines', -, hstop⟩
  · have houtput : n'.output = n.output := hmachines'.output.trans (String.empty_append ..)
    rw [hrun, hrun']
    exact ⟨houtput, rfl, rfl, rfl, .nil⟩
  · have houtput : n'.output = n.output := hmachines'.output.trans (String.empty_append ..)
    rw [hrun, hrun']
    dsimp only
    rw [houtput]
    exact hstop.renames n.output

/-- The function writes the variable of the block and then one of its own that hides it. -/
def hidingProgram : Source :=
  Utf8.encode "\x7b var a = true; fun show() \x7b print a; var a = nil; print a; \x7d show(); \x7d"

def hidingProgramRenamed : Source :=
  Utf8.encode "\x7b var b = true; fun show() \x7b print b; var a = nil; print a; \x7d show(); \x7d"

theorem renaming_a_local_preserves_behaviour_hidden :
    let program := (parseProgram (.ofSource hidingProgram) 0).value
    let renamed := Stmt.renamedAll ⟨[0], "a", "b", knownDistances program⟩ [] [] program
    renderStmts renamed = renderStmts (parseProgram (.ofSource hidingProgramRenamed) 0).value ∧
      ((start Native.standard {}).resolveAndExecute (Eval.evaluators 30) renamed).1.output
      = "true\nnil\n" := by
  have haccepted : (TraitScript.resolve (parseProgram (.ofSource hidingProgram) 0).value).errors =
      [] := by decide +kernel
  obtain ⟨-, -, hrun⟩ :=
    renaming_a_local_preserves_behaviour hidingProgram 0 30 {} [0] "a" "b" haccepted (by decide)
      (by decide +kernel)
  exact ⟨by decide +kernel, hrun.output.trans (by decide +kernel)⟩

end Session

end TraitScript
