import TraitScript.Proofs.Tree.Elsewhere
import TraitScript.Proofs.Tree.View

/-!
# Forms of nodes

What kind of node was written can be told from its words: a single word is a name, a literal or
`this`, and in parentheses the first word tells, with the number of words for operators and the
second word for assignments. Tokens in the same place of two nodes of one kind differ in their lines
at most if they are spelled the same.
-/

namespace TraitScript

/-! ### Forms -/

inductive Form where
  | literal
  | name
  | this
  | group
  | unary
  | binary
  | logical
  | conditional
  | assign
  | call
  | function
  | get
  | set
  | super
  | expression
  | print
  | variable
  | block
  | ifElse
  | whileLoop
  | forLoop
  | jump
  | returnValue
  | classDecl
  | traitDecl

def Expr.form : Expr → Form
  | .literal _ => .literal
  | .group _ => .group
  | .unary .. => .unary
  | .binary .. => .binary
  | .logical .. => .logical
  | .conditional .. => .conditional
  | .variable .. => .name
  | .assign .. => .assign
  | .call .. => .call
  | .function _ => .function
  | .get .. => .get
  | .set .. => .set
  | .this .. => .this
  | .super .. => .super

def Stmt.form : Stmt → Form
  | .expression _ => .expression
  | .print _ => .print
  | .variable .. => .variable
  | .block _ => .block
  | .ifElse .. => .ifElse
  | .whileLoop .. => .whileLoop
  | .forLoop .. => .forLoop
  | .jump .. => .jump
  | .function _ => .function
  | .returnValue .. => .returnValue
  | .classDecl .. => .classDecl
  | .traitDecl .. => .traitDecl

def startsNumber (text : String) : Bool :=
  text.toList.head?.any fun c => c == '-' || c == '.' || c.isDigit

/-- The form of an expression with these words. -/
def formOfWords : List String → Form
  | "group" :: _ => .group
  | "?:" :: _ => .conditional
  | "=" :: target :: _ => if '(' ∈ target.toList then .set else .assign
  | "call" :: _ => .call
  | "fun" :: _ => .function
  | "." :: _ => .get
  | "super" :: _ => .super
  | "and" :: _ | "or" :: _ => .logical
  | [_, _] => .unary
  | _ => .binary

/-- The form of a statement with this first word. -/
def formOfHead : String → Form
  | ";" => .expression
  | "print" => .print
  | "var" => .variable
  | "block" => .block
  | "if" => .ifElse
  | "while" => .whileLoop
  | "for" => .forLoop
  | "fun" => .function
  | "return" => .returnValue
  | "class" => .classDecl
  | "trait" => .traitDecl
  | _ => .jump

def View.form : View → Form
  | .leaf text =>
    if text = "this" then .this
    else if text ∈ ["true", "false", "nil"] ∨ startsNumber text = true then .literal
    else .name
  | .list words => formOfWords words

theorem startsNumber_inTree {x : Float} (h : (Binary.ofFloat x).value? ≠ none) :
    startsNumber (Number.inTree x) = true := by
  obtain ⟨hne, hchars⟩ := Number.inTree_chars h
  unfold startsNumber
  cases htext : (Number.inTree x).toList with
  | nil => exact absurd (String.toList_eq_nil_iff.1 htext) hne
  | cons c rest =>
      have hc := hchars c (by simp [htext])
      simpa [or_assoc] using hc

theorem IsName.not_startsNumber {text : String} (h : IsName text) : startsNumber text = false := by
  unfold startsNumber
  cases hhead : text.toList.head? with
  | none => rfl
  | some c =>
      have hmem : c ∈ text.toList := List.mem_of_head? hhead
      have hminus : c ≠ '-' := fun heq => h.notMem rfl (heq ▸ hmem)
      have hpoint : c ≠ '.' := fun heq => h.notMem rfl (heq ▸ hmem)
      simp [hminus, hpoint, h.not_isDigit hhead]

theorem IsName.form_leaf {text : String} (h : IsName text) : (View.leaf text).form = .name := by
  have hwords : ¬ (text ∈ ["true", "false", "nil"] ∨ startsNumber text = true) := by
    rw [h.not_startsNumber]
    simp only [List.mem_cons, List.not_mem_nil, or_false, Bool.false_eq_true]
    rintro (heq | heq | heq)
    · exact h.ordinary .trueWord heq
    · exact h.ordinary .falseWord heq
    · exact h.ordinary .nilWord heq
  have hthis : text ≠ "this" := h.ordinary .thisWord
  rw [View.form, if_neg hthis, if_neg hwords]

theorem Expr.form_view {expr : Expr} (hclear : (Node.expr expr).Clear) :
    expr.view.form = expr.form := by
  obtain ⟨hfits, hplain⟩ := hclear
  cases expr with
  | literal value =>
      cases value with
      | number value =>
          have hstarts := startsNumber_inTree (Node.Clear.number ⟨hfits, hplain⟩)
          have hthis : Number.inTree value ≠ "this" := by
            intro heq
            rw [heq] at hstarts
            cases hstarts
          change View.form (.leaf (Number.inTree value)) = .literal
          rw [View.form, if_neg hthis, if_pos (.inr hstarts)]
      | string text => exact hplain.elim
      | bool value => cases value <;> rfl
      | nil => rfl
  | unary operator right =>
      obtain ⟨s, hs, htest⟩ := List.any_eq_true.1 hfits.2
      rw [view, (hfits.1.symbol htest).2]
      simp only [List.mem_cons, List.not_mem_nil, or_false] at hs
      rcases hs with rfl | rfl <;> rfl
  | binary left operator right =>
      obtain ⟨s, hs, htest⟩ := List.any_eq_true.1 hfits.2
      rw [view, (hfits.1.symbol htest).2]
      simp only [binaryOperators, List.mem_cons, List.not_mem_nil, or_false] at hs
      rcases hs with rfl | rfl | rfl | rfl | rfl | rfl | rfl | rfl | rfl | rfl | rfl <;> rfl
  | logical left operator right =>
      have hkeyword := hfits.2
      simp only [Bool.or_eq_true, Token.isKeyword_iff] at hkeyword
      rcases hkeyword with hkind | hkind
      · rw [view, (hfits.1.keyword hkind).2]
        rfl
      · rw [view, (hfits.1.keyword hkind).2]
        rfl
  | «variable» id name => exact (hfits.1.named hfits.2).2.form_leaf
  | assign id name value => exact if_neg ((hfits.1.named hfits.2).2.notMem rfl)
  | set object name value => exact if_pos (by simp [toList_parenthesize])
  | group | conditional | call | function | get | this | super => rfl

theorem Stmt.form_words (stmt : Stmt) : stmt.words.head?.map formOfHead = some stmt.form := by
  cases stmt with
  | jump keyword kind => cases kind <;> rfl
  | expression | print | «variable» | block | ifElse | whileLoop | forLoop | function | returnValue
  | classDecl | traitDecl => rfl

/-! ### Tokens -/

theorem Symbol.text_injective : Function.Injective Symbol.text := by
  intro s s' h
  cases s <;> cases s' <;> first | rfl | exact absurd h (by decide)

namespace Token

variable {token token' : Token}

theorem same_of_name (h : token.Spelled ∧ token.isIdentifier = true)
    (h' : token'.Spelled ∧ token'.isIdentifier = true) (heq : token.lexeme = token'.lexeme) :
    token.Same token' :=
  ⟨(h'.1.named h'.2).1.trans (h.1.named h.2).1.symm, heq.symm⟩

theorem same_of_symbol {symbols symbols' : List Symbol}
    (h : token.Spelled ∧ Parse.isAnySymbol symbols token = true)
    (h' : token'.Spelled ∧ Parse.isAnySymbol symbols' token' = true)
    (heq : token.lexeme = token'.lexeme) : token.Same token' := by
  obtain ⟨s, -, htest⟩ := List.any_eq_true.1 h.2
  obtain ⟨s', -, htest'⟩ := List.any_eq_true.1 h'.2
  obtain ⟨hkind, htext⟩ := h.1.symbol htest
  obtain ⟨hkind', htext'⟩ := h'.1.symbol htest'
  obtain rfl : s = s' := Symbol.text_injective (by rw [← htext, ← htext', heq])
  exact ⟨hkind'.trans hkind.symm, heq.symm⟩

theorem same_of_keyword {keyword : Keyword} (h : token.Spelled ∧ token.kind = .keyword keyword)
    (h' : token'.Spelled ∧ token'.kind = .keyword keyword) :
    token.Same token' :=
  ⟨h'.2.trans h.2.symm, (h'.1.keyword h'.2).2.trans (h.1.keyword h.2).2.symm⟩

theorem same_of_logical
    (h : token.Spelled ∧ (token.isKeyword .andWord || token.isKeyword .orWord) = true)
    (h' : token'.Spelled ∧ (token'.isKeyword .andWord || token'.isKeyword .orWord) = true)
    (heq : token.lexeme = token'.lexeme) : token.Same token' := by
  obtain ⟨hspelled, hkeyword⟩ := h
  obtain ⟨hspelled', hkeyword'⟩ := h'
  simp only [Bool.or_eq_true, isKeyword_iff] at hkeyword hkeyword'
  rcases hkeyword with hkind | hkind <;> rcases hkeyword' with hkind' | hkind'
  · exact same_of_keyword ⟨hspelled, hkind⟩ ⟨hspelled', hkind'⟩
  · rw [(hspelled.keyword hkind).2, (hspelled'.keyword hkind').2] at heq
    exact absurd heq (by decide)
  · rw [(hspelled.keyword hkind).2, (hspelled'.keyword hkind').2] at heq
    exact absurd heq (by decide)
  · exact same_of_keyword ⟨hspelled, hkind⟩ ⟨hspelled', hkind'⟩

end Token

end TraitScript
