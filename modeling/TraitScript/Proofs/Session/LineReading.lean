import TraitScript.Proofs.Parse.LoneExpression
import TraitScript.Session

/-!
# Reading a line

A line is read as a program, and if it is none, as an expression to print. As no line is both, the
order does not matter. Only an expression that ends with a brace is not printed.
-/

namespace TraitScript

open Grammar

/-- The last token before the end of the source is a closing brace. -/
def Scanned.endsWithBrace (scanned : Scanned) : Bool :=
  scanned.tokens.getLast?.any (·.isSymbol .rightBrace)

namespace Session

variable {scanned : Scanned} {firstId : Nat} {e : Expr}

/-- An expression ends as statements do only if it ends with a brace. -/
theorem endsStatement_of_expression (h : Derives (.expr .comma) scanned.tokens e) :
    endsStatement scanned = scanned.endsWithBrace := by
  unfold endsStatement Scanned.endsWithBrace
  split
  next token hlast =>
    have hsemicolon : token.isSymbol .semicolon = false := h.tails token hlast
    rw [hlast, hsemicolon]
    rfl
  next hnone =>
    rw [hnone]
    rfl

theorem parseLine_of_program (h : (parseProgram scanned firstId).errors = []) :
    (parseLine scanned firstId).1 = .ok (parseProgram scanned firstId).value := by
  unfold parseLine
  dsimp only
  rw [if_pos (by rw [h]; rfl)]

theorem parseLine_of_expression {expr : Expr}
    (hprogram : (parseProgram scanned firstId).errors ≠ []) (hends : endsStatement scanned = false)
    (hvalue : (parseExpression scanned (parseProgram scanned firstId).nextId).value = some expr)
    (herrors : (parseExpression scanned (parseProgram scanned firstId).nextId).errors = []) :
    (parseLine scanned firstId).1 = .ok [.print expr] := by
  unfold parseLine
  dsimp only
  rw [if_neg (by rwa [List.isEmpty_iff]), if_neg (by rw [hends]; exact Bool.false_ne_true),
    hvalue, herrors]

theorem parseLine_of_neither (hprogram : (parseProgram scanned firstId).errors ≠ [])
    (h : endsStatement scanned = true ∨
      (parseExpression scanned (parseProgram scanned firstId).nextId).errors ≠ []) :
    (parseLine scanned firstId).1 = .error (parseProgram scanned firstId).errors := by
  unfold parseLine
  dsimp only
  rw [if_neg (by rwa [List.isEmpty_iff])]
  split
  next => rfl
  next hends =>
    have herrors := h.resolve_left hends
    split
    next hnone => exact (herrors hnone).elim
    next => rfl

/-- No line is both a program and an expression, whatever ids are given out. A line that is a
program is read as its statements. A line that is an expression is read as the statement that prints
it, unless it ends with a brace. From any other line come the errors of reading it as a program, of
which there is at least one. -/
theorem line_is_program_or_expression (scanned : Scanned) (firstId : Nat)
    (hlast : scanned.last.kind = .eof) :
    let asProgram := parseProgram scanned firstId
    (∀ otherId, ¬ (asProgram.errors = [] ∧ (parseExpression scanned otherId).errors = [])) ∧
    (asProgram.errors = [] → (parseLine scanned firstId).1 = .ok asProgram.value) ∧
    (∀ otherId, (parseExpression scanned otherId).errors = [] → scanned.endsWithBrace = false →
      ∃ other expr, (parseExpression scanned otherId).value = some other ∧
        (parseExpression scanned asProgram.nextId).value = some expr ∧
        expr.withoutIds = other.withoutIds ∧ (parseLine scanned firstId).1 = .ok [.print expr]) ∧
    ∀ otherId, asProgram.errors ≠ [] →
      ((parseExpression scanned otherId).errors = [] → scanned.endsWithBrace = true) →
      (parseLine scanned firstId).1 = .error asProgram.errors := by
  intro asProgram
  have hnotBoth : ∀ otherId,
      ¬ (asProgram.errors = [] ∧ (parseExpression scanned otherId).errors = []) := by
    rintro otherId ⟨hprogram, hexpression⟩
    obtain ⟨expr, -, hexpr⟩ := expression_of_parseExpression hlast hexpression
    exact not_derives_of_program (program_of_parseProgram hlast hprogram) _ hexpr
  refine ⟨hnotBoth, parseLine_of_program, fun otherId hexpression hbrace => ?_,
    fun otherId hprogram hother => ?_⟩
  · obtain ⟨other, hother, hderives⟩ := expression_of_parseExpression hlast hexpression
    obtain ⟨herrors, expr, hexpr, htree⟩ := parseExpression_of_expression asProgram.nextId hderives
    have hprogram : asProgram.errors ≠ [] := fun hnone => hnotBoth otherId ⟨hnone, hexpression⟩
    have hends := (endsStatement_of_expression hderives).trans hbrace
    exact ⟨other, expr, hother, hexpr, htree, parseLine_of_expression hprogram hends hexpr herrors⟩
  · apply parseLine_of_neither hprogram
    by_cases hexpression : (parseExpression scanned asProgram.nextId).errors = []
    · obtain ⟨expr, -, hderives⟩ := expression_of_parseExpression hlast hexpression
      exact .inl ((endsStatement_of_expression hderives).trans
        (hother (parseExpression_of_expression otherId hderives).1))
    · exact .inr hexpression

def sumLine : Scanned := .ofSource "a + b".toUTF8.data.toList

def functionLine : Scanned := .ofSource "fun () { return a; }".toUTF8.data.toList

theorem line_is_program_or_expression_printed :
    sumLine.last.kind = .eof ∧ functionLine.last.kind = .eof ∧
      (∃ expr, (parseLine sumLine 0).1 = .ok [.print expr]) ∧
      (parseExpression functionLine 0).errors = [] ∧
      (parseLine functionLine 0).1 = .error (parseProgram functionLine 0).errors := by
  have hsum : sumLine.last.kind = .eof := by decide +kernel
  have hfunction : functionLine.last.kind = .eof := by decide +kernel
  have hexpression : (parseExpression functionLine 0).errors = [] := by decide +kernel
  obtain ⟨-, -, hprinted, -⟩ := line_is_program_or_expression sumLine 0 hsum
  obtain ⟨hnotBoth, -, -, hrejected⟩ := line_is_program_or_expression functionLine 0 hfunction
  obtain ⟨-, expr, -, -, -, hline⟩ := hprinted 0 (by decide +kernel) (by decide +kernel)
  refine ⟨hsum, hfunction, ⟨expr, hline⟩, hexpression,
    hrejected 0 (fun hnone => hnotBoth 0 ⟨hnone, hexpression⟩) fun _ => ?_⟩
  decide +kernel

end Session

end TraitScript
