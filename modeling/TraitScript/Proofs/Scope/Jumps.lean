import TraitScript.Proofs.Parse.Written
import TraitScript.Proofs.Scope.Trace

/-!
# Jumps that were read stand inside loops

The reader counts the loops that are open in each function body and refuses a `break` or `continue`
outside of them. Resolving checks the same on the finished tree. Whatever was read, and whatever
errors the reader recovered from, resolving finds no such jump.
-/

namespace TraitScript

namespace Resolve

/-- The errors of place are those of the uses of a program, in order. -/
theorem resolve_ofPlace (statements : List Stmt) :
    (resolve statements).errors.filter ofPlace = (programUses statements).flatMap misplaced := by
  obtain ⟨added, hadded, hfilter⟩ := (traces_stmts statements .top).reports {} tracks_initial
  have herrors : (resolve statements).errors = added := hadded
  rw [herrors, hfilter, programUses]

/-- Only a jump outside of loops is reported as one. -/
theorem jump_of_misplaced {u : Place × Use} {token : Token} {kind : Jump}
    (h : ⟨.jumpOutsideLoop kind, token⟩ ∈ misplaced u) :
    u.2 = .jump token kind ∧ u.1.inLoop = false := by
  obtain ⟨p, use⟩ := u
  cases use with
  | read _ _ | write _ _ | declare _ | reference _ => simp [misplaced] at h
  | this _ _ =>
      simp only [misplaced] at h
      split at h <;> simp at h
  | super _ _ =>
      simp only [misplaced] at h
      split at h <;> simp at h
  | returnValue _ _ =>
      rw [misplaced, List.mem_append] at h
      rcases h with h | h <;> split at h <;> simp at h
  | jump _ _ =>
      simp only [misplaced] at h
      split at h
      · simp at h
      next hloop =>
        simp only [List.mem_singleton, ResolveError.mk.injEq,
          ResolveError.Cause.jumpOutsideLoop.injEq] at h
        obtain ⟨rfl, rfl⟩ := h
        exact ⟨rfl, Bool.eq_false_iff.2 hloop⟩

/-- No error is one of a jump outside of loops, nor reads like one. -/
def NoJumpReported (statements : List Stmt) : Prop :=
  ∀ error ∈ (resolve statements).errors, ∀ kind : Jump,
    error.cause ≠ .jumpOutsideLoop kind ∧
    error.cause.message ≠ "Can't use '" ++ kind.word ++ "' outside of a loop."

theorem cause_of_message {cause : ResolveError.Cause} {kind : Jump}
    (h : cause.message = "Can't use '" ++ kind.word ++ "' outside of a loop.") :
    ∃ kind', cause = .jumpOutsideLoop kind' := by
  cases cause with
  | jumpOutsideLoop kind' => exact ⟨kind', rfl⟩
  | unusedLocal name =>
      have hfirst := congrArg (·.toList.head?) h
      simp [ResolveError.Cause.message] at hfirst
  | _ => cases kind <;> exact absurd h (by decide)

/-- If all jumps stand inside loops, resolving reports none. -/
theorem noJumpReported_of_inLoops {statements : List Stmt}
    (h : ∀ u ∈ programUses statements, Demand.jumpsInLoops.use u.1 u.2) :
    NoJumpReported statements := by
  have hcause : ∀ error ∈ (resolve statements).errors, ∀ kind,
      error.cause ≠ .jumpOutsideLoop kind := by
    rintro ⟨cause, token⟩ herror kind rfl
    have hplaced : ⟨.jumpOutsideLoop kind, token⟩ ∈ (resolve statements).errors.filter ofPlace :=
      List.mem_filter.2 ⟨herror, rfl⟩
    rw [resolve_ofPlace, List.mem_flatMap] at hplaced
    obtain ⟨u, hu, hmisplaced⟩ := hplaced
    obtain ⟨huse, houtside⟩ := jump_of_misplaced hmisplaced
    exact absurd (h u hu token kind huse) (by simp [houtside])
  intro error herror kind
  refine ⟨hcause error herror kind, fun hmessage => ?_⟩
  obtain ⟨kind', hjump⟩ := cause_of_message hmessage
  exact hcause error herror kind' hjump

end Resolve

/-- Whatever the tokens were, every jump in what was read stands inside a loop of the same function
body, so resolving reports no jump outside of loops. -/
theorem jumps_read_stand_in_loops (scanned : Scanned) (firstId : Nat) :
    (∀ p keyword kind, (p, .jump keyword kind) ∈ programUses (parseProgram scanned firstId).value →
      p.inLoop = true) ∧
      Resolve.NoJumpReported (parseProgram scanned firstId).value ∧
      ∀ expr, (parseExpression scanned firstId).value = some expr →
        (∀ p keyword kind, (p, .jump keyword kind) ∈ expr.uses .top → p.inLoop = true) ∧
          Resolve.NoJumpReported [.print expr] := by
  have hmeets := Parse.State.meets_jumpsInLoops scanned firstId
  obtain ⟨-, hprogram⟩ := parseProgram_meets hmeets
  obtain ⟨-, hexpression⟩ := parseExpression_meets hmeets
  refine ⟨?_, Resolve.noJumpReported_of_inLoops hprogram.meets, fun expr hexpr => ⟨?_, ?_⟩⟩
  · intro p keyword kind hjump
    exact hprogram.meets _ hjump keyword kind rfl
  · intro p keyword kind hjump
    exact (hexpression expr hexpr .top).meets _ hjump keyword kind rfl
  · exact Resolve.noJumpReported_of_inLoops (written_print (hexpression expr hexpr)).meets

end TraitScript
