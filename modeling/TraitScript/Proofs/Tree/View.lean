import TraitScript.Proofs.Number.Written
import TraitScript.Proofs.Parse.Fitting
import TraitScript.Proofs.Token.Spelled
import TraitScript.Proofs.Tree.Words

/-!
# The words of a tree

The text of a tree is one word or several words in parentheses, which are fixed words, names and the
texts of the trees right below. Without string literals and infinite numbers all of them are items,
so the text can be taken apart again.
-/

namespace TraitScript

/-! ### Plain trees -/

/-- No string literal, no infinite number, and no `for` that has `nil` by itself for its condition
or its increment. -/
def Node.Plain : Node → Prop
  | .expr (.literal (.string _)) => False
  | .expr (.literal (.number value)) => ∀ negative, Binary.ofFloat value ≠ .infinite negative
  | .stmt (.forLoop _ condition increment _) =>
    condition ≠ some (.literal .nil) ∧ increment ≠ some (.literal .nil)
  | _ => True

/-- A plain node of a tree that was read from text. -/
def Node.Clear (node : Node) : Prop := node.Fits Token.Spelled ∧ node.Plain

/-! ### Views -/

inductive View where
  | leaf (text : String)
  | list (words : List String)

def View.text : View → String
  | .leaf text => text
  | .list words => parenthesize words

/-- A leaf has no parentheses, and all words between parentheses are items. -/
def View.Legible : View → Prop
  | .leaf text => IsItem text ∧ '(' ∉ text.toList
  | .list words => Items words

namespace View

variable {view view' : View}

theorem Legible.isItem (h : view.Legible) : IsItem view.text := by
  cases view with
  | leaf text => exact h.1
  | list words => exact isItem_parenthesize h

/-- A legible text has one view only. -/
theorem Legible.eq_of_text (h : view.Legible) (h' : view'.Legible) (heq : view.text = view'.text) :
    view = view' := by
  have hparen : ∀ words, '(' ∈ (parenthesize words).toList := fun words => by
    simp [toList_parenthesize]
  cases view with
  | leaf text =>
      cases view' with
      | leaf text' => exact congrArg leaf heq
      | list words' =>
        exact absurd (hparen words') (heq ▸ h.2 : '(' ∉ (View.list words').text.toList)
  | list words =>
      cases view' with
      | leaf text' => exact absurd (hparen words) (heq ▸ h'.2 : '(' ∉ (View.list words).text.toList)
      | list words' => exact congrArg list (parenthesize_injective h h' heq)

end View

/-- The words after the keyword of a function. -/
def FunctionDecl.words (decl : FunctionDecl) : List String :=
  (decl.name.map (·.lexeme)).toList ++
    (if decl.isGetter then [] else [parenthesize (decl.params.map (·.lexeme))]) ++
    [parenthesize ("block" :: decl.body.map Stmt.render)]

/-- The members of a class or trait as words. -/
def ClassBody.words (body : ClassBody) : List String :=
  body.traits.map (fun expr => parenthesize ["use", expr.render]) ++
    (body.classMethods.map (·.render "class") ++ body.methods.map (·.render "method"))

def Expr.view : Expr → View
  | .literal value => .leaf value.render
  | .group inner => .list ["group", inner.render]
  | .unary operator right => .list [operator.lexeme, right.render]
  | .binary left operator right | .logical left operator right =>
    .list [operator.lexeme, left.render, right.render]
  | .conditional condition thenBranch elseBranch =>
    .list ["?:", condition.render, thenBranch.render, elseBranch.render]
  | .variable _ name => .leaf name.lexeme
  | .assign _ name value => .list ["=", name.lexeme, value.render]
  | .call callee _ arguments => .list ("call" :: callee.render :: arguments.map Expr.render)
  | .function decl => .list ("fun" :: decl.words)
  | .get object name => .list [".", object.render, name.lexeme]
  | .set object name value =>
    .list ["=", parenthesize [".", object.render, name.lexeme], value.render]
  | .this _ _ => .leaf "this"
  | .super _ _ method => .list ["super", method.lexeme]

def Stmt.words : Stmt → List String
  | .expression value => [";", value.render]
  | .print value => ["print", value.render]
  | .variable name initial => "var" :: name.lexeme :: initial.toList.map Expr.render
  | .block statements => "block" :: statements.map Stmt.render
  | .ifElse condition thenBranch elseBranch =>
    "if" :: condition.render :: thenBranch.render :: elseBranch.toList.map Stmt.render
  | .whileLoop condition body => ["while", condition.render, body.render]
  | .forLoop initial condition increment body =>
    ["for", renderInitial initial, renderClause condition, renderClause increment, body.render]
  | .jump _ kind => [kind.word]
  | .function decl => "fun" :: decl.words
  | .returnValue _ value => "return" :: value.toList.map Expr.render
  | .classDecl name superclass body =>
    "class" :: name.lexeme ::
      (superclass.toList.flatMap (fun parent => ["<", parent.render]) ++ body.words)
  | .traitDecl name body => "trait" :: name.lexeme :: body.words

/-! ### The text of a tree is that of its words -/

theorem renderExprs_eq (exprs : List Expr) : renderExprs exprs = exprs.map Expr.render := by
  induction exprs with
  | nil => rfl
  | cons expr rest ih => rw [renderExprs, ih, List.map_cons]

theorem renderStmts_eq (statements : List Stmt) :
    renderStmts statements = statements.map Stmt.render := by
  induction statements with
  | nil => rfl
  | cons stmt rest ih => rw [renderStmts, ih, List.map_cons]

theorem renderMethods_eq (keyword : String) (decls : List FunctionDecl) :
    renderMethods keyword decls = decls.map (·.render keyword) := by
  induction decls with
  | nil => rfl
  | cons decl rest ih => rw [renderMethods, ih, List.map_cons]

theorem renderUses_eq (exprs : List Expr) :
    renderUses exprs = exprs.map fun expr => parenthesize ["use", expr.render] := by
  induction exprs with
  | nil => rfl
  | cons expr rest ih => rw [renderUses, ih, List.map_cons]

theorem renderExpr?_eq (expr : Option Expr) : renderExpr? expr = expr.toList.map Expr.render := by
  cases expr <;> rfl

theorem renderStmt?_eq (stmt : Option Stmt) : renderStmt? stmt = stmt.toList.map Stmt.render := by
  cases stmt <;> rfl

theorem FunctionDecl.render_eq (decl : FunctionDecl) (keyword : String) :
    decl.render keyword = parenthesize (keyword :: decl.words) := by
  obtain ⟨name, params, body, isGetter⟩ := decl
  rw [FunctionDecl.render, FunctionDecl.words, renderStmts_eq]
  rfl

theorem ClassBody.render_eq (body : ClassBody) (head : List String) :
    body.render head = parenthesize (head ++ body.words) := by
  obtain ⟨traits, methods, classMethods⟩ := body
  rw [ClassBody.render, ClassBody.words, renderUses_eq, renderMethods_eq, renderMethods_eq,
    List.append_assoc, List.append_assoc]

theorem Expr.render_eq (expr : Expr) : expr.render = expr.view.text := by
  cases expr with
  | call callee paren arguments =>
      rw [Expr.render, renderExprs_eq]
      rfl
  | function decl =>
      rw [Expr.render, FunctionDecl.render_eq]
      rfl
  | literal | group | unary | binary | logical | conditional | «variable» | assign | get | set
  | this | super =>
      rw [Expr.render]
      rfl

theorem Stmt.render_eq (stmt : Stmt) : stmt.render = parenthesize stmt.words := by
  cases stmt with
  | «variable» name initial =>
      rw [Stmt.render, renderExpr?_eq]
      rfl
  | block statements =>
      rw [Stmt.render, renderStmts_eq]
      rfl
  | ifElse condition thenBranch elseBranch =>
      rw [Stmt.render, renderStmt?_eq]
      rfl
  | function decl =>
      rw [Stmt.render, FunctionDecl.render_eq]
      rfl
  | returnValue keyword value =>
      rw [Stmt.render, renderExpr?_eq]
      rfl
  | classDecl name superclass body =>
      cases superclass <;>
      · rw [Stmt.render, ClassBody.render_eq]
        rfl
  | traitDecl name body =>
      rw [Stmt.render, ClassBody.render_eq]
      rfl
  | expression | print | whileLoop | forLoop | jump =>
      rw [Stmt.render]
      rfl

/-! ### Items -/

section Texts

variable {text : String} {x : Float}

theorem IsName.isItem (h : IsName text) : IsItem text := by
  refine isItem_of_plain (fun hempty => ?_) fun c hc => ⟨?_, ?_, ?_⟩
  · obtain ⟨first, rest, htext, -⟩ := h.exists_chars
    rw [hempty] at htext
    cases htext
  · rintro rfl
    exact h.notMem rfl hc
  · rintro rfl
    exact h.notMem rfl hc
  · rintro rfl
    exact h.notMem rfl hc

theorem Number.inTree_chars (h : (Binary.ofFloat x).value? ≠ none) :
    inTree x ≠ "" ∧ ∀ c ∈ (inTree x).toList, c = '-' ∨ c = '.' ∨ c.isDigit = true := by
  obtain ⟨v, hv⟩ := Option.ne_none_iff_exists'.1 h
  obtain ⟨negative, mantissa, exponent, hfloat, -⟩ := Binary.exists_finite_of_value? hv
  obtain ⟨text, htext, ⟨hne, hnumeral⟩, -⟩ := inTree_finite hfloat
  constructor
  · intro hempty
    rw [hempty] at htext
    exact hne (List.append_eq_nil_iff.1 htext.symm).2
  · intro c hc
    rw [htext, List.mem_append] at hc
    rcases hc with hsign | hdigit
    · cases negative
      · cases hsign
      · exact .inl (List.mem_singleton.1 hsign)
    · exact .inr (hnumeral c hdigit).symm

theorem Number.isItem_inTree (h : (Binary.ofFloat x).value? ≠ none) :
    IsItem (inTree x) ∧ '(' ∉ (inTree x).toList := by
  obtain ⟨hne, hchars⟩ := inTree_chars h
  have hother : ∀ {c}, c ∈ (inTree x).toList →
      ∀ {other : Char}, (other == '-' || other == '.' || other.isDigit) = false → c ≠ other := by
    rintro c hc other hother rfl
    rcases hchars c hc with rfl | rfl | hdigit
    · cases hother
    · cases hother
    · simp [hdigit] at hother
  exact ⟨isItem_of_plain hne fun c hc => ⟨hother hc rfl, hother hc rfl, hother hc rfl⟩,
    fun hmem => hother hmem rfl rfl⟩

end Texts

theorem Node.Clear.number {value : Float} (h : (Node.expr (.literal (.number value))).Clear) :
    (Binary.ofFloat value).value? ≠ none := by
  obtain ⟨⟨token, hspelled, hkind⟩, hfinite⟩ := h
  have hnumber := hspelled.number hkind
  cases hvalue : Binary.ofFloat value with
  | nan => exact absurd hvalue hnumber
  | infinite negative => exact absurd hvalue (hfinite negative)
  | finite => exact nofun

/-- That the words of a node are items. -/
def Node.Legible : Node → Prop
  | .expr e => e.view.Legible
  | .function decl => Items decl.words
  | .body members => Items members.words
  | .stmt s => Items s.words

theorem Expr.isItem_render {expr : Expr} (h : (Node.expr expr).Legible) : IsItem expr.render := by
  rw [Expr.render_eq]
  exact View.Legible.isItem h

theorem Stmt.isItem_render {stmt : Stmt} (h : (Node.stmt stmt).Legible) : IsItem stmt.render := by
  rw [Stmt.render_eq]
  exact isItem_parenthesize h

theorem FunctionDecl.isItem_render {decl : FunctionDecl} (h : (Node.function decl).Legible)
    {keyword : String} (hkeyword : IsItem keyword) :
    IsItem (decl.render keyword) := by
  rw [FunctionDecl.render_eq]
  exact isItem_parenthesize (.cons hkeyword h)

theorem isItem_symbol {operator : Token} {symbols : List Symbol} (hspelled : operator.Spelled)
    (hsymbol : Parse.isAnySymbol symbols operator = true)
    (hplain : ∀ s ∈ symbols, s ≠ .leftParen ∧ s ≠ .rightParen) : IsItem operator.lexeme := by
  obtain ⟨s, hs, htest⟩ := List.any_eq_true.1 hsymbol
  rw [(hspelled.symbol htest).2]
  have hne := hplain s hs
  clear hs htest hsymbol
  revert hne
  cases s <;> intro hne <;>
    first | exact absurd rfl hne.1 | exact absurd rfl hne.2 | exact isItem_of_isWord rfl

section Legible

theorem isItem_logical {operator : Token} (hspelled : operator.Spelled)
    (hkeyword : (operator.isKeyword .andWord || operator.isKeyword .orWord) = true) :
    IsItem operator.lexeme := by
  simp only [Bool.or_eq_true, Token.isKeyword_iff] at hkeyword
  rcases hkeyword with hkind | hkind
  · rw [(hspelled.keyword hkind).2]
    exact isItem_of_isWord rfl
  · rw [(hspelled.keyword hkind).2]
    exact isItem_of_isWord rfl

theorem isItem_name {name : Token} (h : name.Spelled ∧ name.isIdentifier = true) :
    IsItem name.lexeme := (h.1.named h.2).2.isItem

theorem items_exprs {exprs : List Expr} (h : ∀ child ∈ exprs.map Node.expr, child.Legible) :
    Items (exprs.map Expr.render) :=
  .map fun e he => Expr.isItem_render (List.forall_mem_map.1 h e he)

theorem items_stmts {statements : List Stmt}
    (h : ∀ child ∈ statements.map Node.stmt, child.Legible) : Items (statements.map Stmt.render) :=
  .map fun s hs => Stmt.isItem_render (List.forall_mem_map.1 h s hs)

/-- The words of a property, also where it is assigned to. -/
theorem items_property {object : Expr} {name : Token} (hobject : (Node.expr object).Legible)
    (hname : name.Spelled ∧ name.isIdentifier = true) :
    Items [".", object.render, name.lexeme] :=
  .consWord rfl (.cons (Expr.isItem_render hobject) (.cons (isItem_name hname) .nil))

theorem items_use {used : Expr} (h : (Node.expr used).Legible) : Items ["use", used.render] :=
  .consWord rfl (.cons (Expr.isItem_render h) .nil)

theorem Expr.legible {expr : Expr} (hclear : (Node.expr expr).Clear)
    (ih : ∀ child ∈ (Node.expr expr).children, child.Legible) :
    expr.view.Legible := by
  obtain ⟨hfits, hplain⟩ := hclear
  cases expr with
  | literal value =>
      cases value with
      | number value => exact Number.isItem_inTree (Node.Clear.number ⟨hfits, hplain⟩)
      | string text => exact hplain.elim
      | bool value => cases value <;> exact ⟨isItem_of_isWord rfl, by decide⟩
      | nil => exact ⟨isItem_of_isWord rfl, by decide⟩
  | group inner => exact .consWord rfl (.cons (isItem_render (ih _ (.head _))) .nil)
  | unary operator right =>
    exact .cons (isItem_symbol hfits.1 hfits.2 (by decide))
      (.cons (isItem_render (ih _ (.head _))) .nil)
  | binary left operator right =>
      have hleft := isItem_render (ih _ (.head _))
      have hright := isItem_render (ih _ (.tail _ (.head _)))
      exact .cons (isItem_symbol hfits.1 hfits.2 (by decide)) (.cons hleft (.cons hright .nil))
  | logical left operator right =>
      have hleft := isItem_render (ih _ (.head _))
      have hright := isItem_render (ih _ (.tail _ (.head _)))
      exact .cons (isItem_logical hfits.1 hfits.2) (.cons hleft (.cons hright .nil))
  | conditional condition thenBranch elseBranch =>
      have hcondition := isItem_render (ih _ (.head _))
      have hthen := isItem_render (ih _ (.tail _ (.head _)))
      have helse := isItem_render (ih _ (.tail _ (.tail _ (.head _))))
      exact .consWord rfl (.cons hcondition (.cons hthen (.cons helse .nil)))
  | «variable» id name => exact ⟨isItem_name hfits, (hfits.1.named hfits.2).2.notMem rfl⟩
  | assign id name value =>
    exact .consWord rfl (.cons (isItem_name hfits) (.cons (isItem_render (ih _ (.head _))) .nil))
  | call callee paren arguments =>
      obtain ⟨hcallee, harguments⟩ := List.forall_mem_cons.1 ih
      exact .consWord rfl (.cons (isItem_render hcallee) (items_exprs harguments))
  | function decl => exact .consWord rfl (ih _ (.head _))
  | get object name => exact items_property (ih _ (.head _)) hfits
  | set object name value =>
      have htarget := isItem_parenthesize (items_property (ih _ (.head _)) hfits)
      exact .consWord rfl (.cons htarget (.cons (isItem_render (ih _ (.tail _ (.head _)))) .nil))
  | this id keyword => exact ⟨isItem_of_isWord rfl, by decide⟩
  | super id keyword method => exact .consWord rfl (.cons (isItem_name hfits.2) .nil)

theorem FunctionDecl.legible {decl : FunctionDecl} (hclear : (Node.function decl).Clear)
    (ih : ∀ child ∈ (Node.function decl).children, child.Legible) : Items decl.words := by
  obtain ⟨name, params, body, isGetter⟩ := decl
  obtain ⟨⟨htokens, -⟩, -⟩ := hclear
  have hname : Items (name.map (·.lexeme)).toList := by
    cases name with
    | none => exact .nil
    | some name => exact .cons (isItem_name (htokens name (by simp))) .nil
  have hparams : IsItem (parenthesize (params.map (·.lexeme))) :=
    isItem_parenthesize
      (.map fun param hparam => isItem_name (htokens param (List.mem_append_right _ hparam)))
  have hbody : IsItem (parenthesize ("block" :: body.map Stmt.render)) :=
    isItem_parenthesize (.consWord rfl (items_stmts ih))
  refine .append (.append hname ?_) (.cons hbody .nil)
  cases isGetter
  · exact .cons hparams .nil
  · exact .nil

theorem ClassBody.legible {body : ClassBody}
    (ih : ∀ child ∈ (Node.body body).children, child.Legible) : Items body.words := by
  obtain ⟨traits, methods, classMethods⟩ := body
  simp only [Node.children, List.forall_mem_append, List.forall_mem_map] at ih
  obtain ⟨⟨htraits, hmethods⟩, hclassMethods⟩ := ih
  refine .append (.map fun e he => ?_)
    (.append (.map fun decl hdecl => ?_) (.map fun decl hdecl => ?_))
  · exact isItem_parenthesize (items_use (htraits e he))
  · exact FunctionDecl.isItem_render (hclassMethods decl hdecl) (isItem_of_isWord rfl)
  · exact FunctionDecl.isItem_render (hmethods decl hdecl) (isItem_of_isWord rfl)

theorem isItem_renderClause {clause : Option Expr}
    (h : ∀ child ∈ clause.toList.map Node.expr, child.Legible) : IsItem (renderClause clause) := by
  cases clause with
  | none => exact isItem_of_isWord rfl
  | some e => exact Expr.isItem_render (h _ (.head _))

theorem isItem_renderInitial {initial : Option Stmt}
    (h : ∀ child ∈ initial.toList.map Node.stmt, child.Legible) :
    IsItem (renderInitial initial) := by
  cases initial with
  | none => exact isItem_of_isWord rfl
  | some s => exact Stmt.isItem_render (h _ (.head _))

theorem Stmt.legible {stmt : Stmt} (hclear : (Node.stmt stmt).Clear)
    (ih : ∀ child ∈ (Node.stmt stmt).children, child.Legible) : Items stmt.words := by
  obtain ⟨hfits, -⟩ := hclear
  cases stmt with
  | expression value => exact .consWord rfl (.cons (Expr.isItem_render (ih _ (.head _))) .nil)
  | print value => exact .consWord rfl (.cons (Expr.isItem_render (ih _ (.head _))) .nil)
  | «variable» name initial => exact .consWord rfl (.cons (isItem_name hfits) (items_exprs ih))
  | block statements => exact .consWord rfl (items_stmts ih)
  | ifElse condition thenBranch elseBranch =>
      obtain ⟨hcondition, hrest⟩ := List.forall_mem_cons.1 ih
      obtain ⟨hthen, helse⟩ := List.forall_mem_cons.1 hrest
      exact .consWord rfl
        (.cons (Expr.isItem_render hcondition) (.cons (isItem_render hthen) (items_stmts helse)))
  | whileLoop condition body =>
      exact .consWord rfl
        (.cons (Expr.isItem_render (ih _ (.head _)))
          (.cons (isItem_render (ih _ (.tail _ (.head _)))) .nil))
  | forLoop initial condition increment body =>
      obtain ⟨hbody, hclauses⟩ := List.forall_mem_cons.1 ih
      obtain ⟨hfirst, hincrement⟩ := List.forall_mem_append.1 hclauses
      obtain ⟨hinitial, hcondition⟩ := List.forall_mem_append.1 hfirst
      exact .consWord rfl
        (.cons (isItem_renderInitial hinitial) (.cons (isItem_renderClause hcondition)
        (.cons (isItem_renderClause hincrement) (.cons (isItem_render hbody) .nil))))
  | jump keyword kind => cases kind <;> exact .consWord rfl .nil
  | function decl => exact .consWord rfl (ih _ (.head _))
  | returnValue keyword value => exact .consWord rfl (items_exprs ih)
  | classDecl name superclass body =>
      obtain ⟨hbody, hparent⟩ := List.forall_mem_cons.1 ih
      refine .consWord rfl (.cons (isItem_name hfits) (.append ?_ hbody))
      cases superclass with
      | none => exact .nil
      | some parent => exact .consWord rfl (.cons (Expr.isItem_render (hparent _ (.head _))) .nil)
  | traitDecl name body => exact .consWord rfl (.cons (isItem_name hfits) (ih _ (.head _)))

/-- All words of clear trees are items. -/
theorem Node.legible {node : Node} (h : node.All Node.Clear) : node.Legible := by
  induction node using Node.of_children with
  | h node ih =>
      obtain ⟨hclear, hchildren⟩ := Node.all_iff.1 h
      have hlegible : ∀ child ∈ node.children, child.Legible :=
        fun child hchild => ih child hchild (hchildren child hchild)
      cases node with
      | expr e => exact e.legible hclear hlegible
      | function decl => exact FunctionDecl.legible hclear hlegible
      | body members => exact ClassBody.legible hlegible
      | stmt s => exact Stmt.legible hclear hlegible

end Legible

end TraitScript
