import Mathlib.Data.List.Induction
import TraitScript.Proofs.Scope.Balance
import TraitScript.Proofs.Session.Lines

/-!
# Resolving programs in turn

Top-level code leaves the walk as it was in the beginning, whatever errors there are in it. So one
resolver that is given programs in turn finds in each what a new one would, and two programs
resolved as one have the errors of the first and then those of the second. What is recorded for one
after the other is what is recorded for both at once.
-/

namespace TraitScript

instance : Append Resolution :=
  ⟨fun first second => ⟨first.bindings ++ second.bindings, first.errors ++ second.errors⟩⟩

namespace Resolve

/-- The initial state has no scopes, so a walk that comes back to it leaves nothing but findings. -/
theorem stmts_initial (statements : List Stmt) :
    stmts statements {} = State.after {} (resolve statements) := by
  obtain ⟨hheight, -, hfunction, hclass, hloops⟩ := (balances_stmts statements).balanced {}
  unfold resolve
  generalize stmts statements {} = s at *
  obtain ⟨scopes, functionKind, classKind, loopDepth, errors, bindings⟩ := s
  dsimp only at hheight hfunction hclass hloops
  rw [List.length_eq_zero_iff.1 hheight, hfunction, hclass, hloops]
  simp [State.after]

theorem resolve_append (first second : List Stmt) :
    resolve (first ++ second) = resolve first ++ resolve second := by
  have hjoined : stmts (first ++ second) {} =
      State.after (State.after {} (resolve second)) (resolve first) := by
    rw [stmts_append, stmts_initial first, (balances_stmts second).after, stmts_initial second]
  rw [resolve, hjoined]
  simp only [State.after, List.append_nil]
  rfl

/-- One resolver that is given programs in turn. What it has found is handed out after each. -/
def resolveInTurn : List (List Stmt) → State → List Resolution × State
  | [], s => ([], s)
  | statements :: rest, s =>
    let walked := stmts statements s
    let (later, last) := resolveInTurn rest { walked with errors := [], bindings := [] }
    (⟨walked.bindings, walked.errors⟩ :: later, last)

/-- A resolver that was used before is as good as new. -/
theorem resolveInTurn_eq (programs : List (List Stmt)) :
    resolveInTurn programs {} = (programs.map resolve, {}) := by
  induction programs with
  | nil => rfl
  | cons statements rest ih =>
      have hleft : { stmts statements {} with errors := [], bindings := [] } = ({} : State) := by
        rw [stmts_initial]
        rfl
      rw [resolveInTurn, hleft, ih]
      rfl

end Resolve

namespace Machine

theorem noteAll_append (m : Machine) (first second : Resolution) :
    m.noteAll (first ++ second) = (m.noteAll first).noteAll second :=
  List.foldl_append

/-- What is recorded for an id comes before what was known of it. -/
theorem distances_noteAll (m m' : Machine) (resolution : Resolution) {id : Nat}
    (hunknown : m'.distances[id]? = none) :
    (m.noteAll resolution).distances[id]? =
      ((m'.noteAll resolution).distances[id]?).or m.distances[id]? := by
  obtain ⟨bindings, errors⟩ := resolution
  unfold noteAll
  dsimp only
  induction bindings using List.reverseRecOn with
  | nil => simp [hunknown]
  | append_singleton rest b ih =>
      rw [List.foldl_append, List.foldl_append, List.foldl_cons, List.foldl_cons, List.foldl_nil,
        List.foldl_nil, distances_note, distances_note, ih]
      by_cases hid : b.id = id
      · rw [if_pos hid, if_pos hid, Option.or_assoc]
      · rw [if_neg hid, if_neg hid]

end Machine

open Resolve

theorem exists_binding_of_knownDistances {statements : List Stmt} {id : Nat}
    (h : knownDistances statements id ≠ none) :
    ∃ b ∈ (resolve statements).bindings, b.id = id := by
  by_contra hnone
  exact h (Machine.distances_noteAll_of_notMem (Machine.bare {}) (resolve statements)
    fun b hb hid => hnone ⟨b, hb, hid⟩)

/-- If all occurrences have ids of their own, a distance is recorded for an id by at most one of two
programs. -/
theorem knownDistances_disjoint {first second : List Stmt}
    (hdistinct : (Uses.ids (programUses (first ++ second))).Nodup) (id : Nat) :
    knownDistances first id = none ∨ knownDistances second id = none := by
  have hnodup : ((resolve (first ++ second)).bindings.map (·.id)).Nodup := by
    rw [(resolve_programUses _).1]
    exact (ids_bindings_sublist _).nodup hdistinct
  rw [resolve_append] at hnodup
  change ((resolve first).bindings ++ (resolve second).bindings |>.map (·.id)).Nodup at hnodup
  rw [List.map_append, List.nodup_append] at hnodup
  by_contra hboth
  rw [not_or] at hboth
  obtain ⟨b, hb, hid⟩ := exists_binding_of_knownDistances hboth.1
  obtain ⟨b', hb', hid'⟩ := exists_binding_of_knownDistances hboth.2
  exact hnodup.2.2 b.id (List.mem_map_of_mem hb) b'.id (List.mem_map_of_mem hb')
    (hid.trans hid'.symm)

/-- From every state a statement leaves the walk where it was: as many scopes are open, those around
the innermost one are the same up to read marks, and so are the kinds of function and class and the
number of open loops. Therefore two programs resolved as one, or in turn by one resolver, have the
findings of the first and those of the second, and the same is recorded as by two resolvers, one
after the other. If all occurrences have ids of their own, that is the union of the distances of
both. -/
theorem resolving_is_compositional :
    (∀ (statement : Stmt) (s : State), Balanced s (stmt statement s)) ∧
      ∀ first second : List Stmt,
        resolve (first ++ second) = resolve first ++ resolve second ∧
          resolveInTurn [first, second] {} = ([resolve first, resolve second], {}) ∧
          ∀ m : Machine, m.noteAll (resolve (first ++ second)) =
            (m.noteAll (resolve first)).noteAll (resolve second) ∧
            ((Uses.ids (programUses (first ++ second))).Nodup →
              ∀ id : Nat, (knownDistances first id = none ∨ knownDistances second id = none) ∧
                (m.noteAll (resolve (first ++ second))).distances[id]? =
                  ((knownDistances first id).or (knownDistances second id)).or
                  m.distances[id]?) := by
  refine ⟨fun statement => (balances_stmt statement).balanced, fun first second => ?_⟩
  refine ⟨resolve_append first second, resolveInTurn_eq [first, second], fun m => ?_⟩
  have hnoted : m.noteAll (resolve (first ++ second)) =
      (m.noteAll (resolve first)).noteAll (resolve second) := by
    rw [resolve_append, Machine.noteAll_append]
  refine ⟨hnoted, fun hdistinct id => ?_⟩
  have hdisjoint := knownDistances_disjoint hdistinct id
  refine ⟨hdisjoint, ?_⟩
  rw [hnoted, Machine.distances_noteAll _ (Machine.bare {}) (resolve second) rfl,
    Machine.distances_noteAll m (Machine.bare {}) (resolve first) rfl]
  change (knownDistances second id).or ((knownDistances first id).or _) = _
  rcases hdisjoint with hnone | hnone
  · rw [hnone, Option.none_or, Option.none_or]
  · rw [hnone, Option.none_or, Option.or_none]

/-- A local that nothing reads, with another that is read. -/
def unreadLocal : List Stmt :=
  (parseProgram (.ofSource (Utf8.encode "\x7b var a = true; var b = false; print b; \x7d")) 0).value

/-- A `return` at top level, and a read of a local two scopes out. -/
def misplacedReturn : List Stmt :=
  (parseProgram (.ofSource
    (Utf8.encode "return nil; \x7b var c = nil; \x7b \x7b print c; \x7d \x7d \x7d")) 1).value

theorem resolving_is_compositional_errors :
    (resolve (unreadLocal ++ misplacedReturn)).errors.map (·.cause) = [.unusedLocal "a",
      .returnAtTopLevel] ∧
      resolveInTurn [unreadLocal, misplacedReturn] {} =
      ([resolve unreadLocal, resolve misplacedReturn], {}) ∧
      (Uses.ids (programUses (unreadLocal ++ misplacedReturn))).Nodup ∧
      ((Machine.bare {}).noteAll (resolve (unreadLocal ++ misplacedReturn))).distances[1]? =
      some 2 := by
  obtain ⟨-, hjoined⟩ := resolving_is_compositional
  obtain ⟨happend, hinTurn, hnoted⟩ := hjoined unreadLocal misplacedReturn
  have hdistinct : (Uses.ids (programUses (unreadLocal ++ misplacedReturn))).Nodup := by
    decide +kernel
  refine ⟨?_, hinTurn, hdistinct, ?_⟩
  · rw [happend]
    decide +kernel
  · rw [((hnoted (Machine.bare {})).2 hdistinct 1).2]
    decide +kernel

end TraitScript
