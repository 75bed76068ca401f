import TraitScript.Proofs.Table.Alike
import TraitScript.Tree

/-!
# Trees of the same shape

Two trees are alike when they differ in their leaves only: in the ids of occurrences, in the lines
of tokens, and in the spelling of names. A correspondence says how far the leaves may differ. What a
name may be changed to depends on the scope it is bound in, so the scopes around a place carry
marks, innermost first, and a correspondence speaks of names under marks. How a scope is marked is
up to the trees: a block, a `for` and a function each choose the mark of their own scope, while the
scopes of `this` and `super` are never marked.
-/

namespace TraitScript

/-- How the leaves of two trees may differ. -/
structure Correspondence where
  /-- Operators, keywords, parentheses and the names of properties and methods. -/
  token : Token → Token → Prop
  /-- Names where they are looked up, inside scopes with marks. -/
  occurrence : List Bool → Nat → Token → Nat → Token → Prop
  /-- `this` and `super` where they are looked up. -/
  receiver : List Bool → Nat → Token → Nat → Token → Prop
  /-- Variables and parameters, where a scope with a mark declares them. -/
  declared : Bool → Token → Token → Prop
  /-- Functions, classes and traits, where a scope with a mark declares them. -/
  named : Bool → Token → Token → Prop

/-- The mark of the innermost scope; top-level code counts as unmarked. -/
def innermost (marks : List Bool) : Bool := marks.headD false

mutual

inductive Expr.Alike (C : Correspondence) : List Bool → Expr → Expr → Prop
  | literal {marks : List Bool} {value : Literal} :
      Expr.Alike C marks (.literal value) (.literal value)
  | group {marks : List Bool} {e e' : Expr} (h : Expr.Alike C marks e e') :
      Expr.Alike C marks (.group e) (.group e')
  | unary {marks : List Bool} {operator operator' : Token} {right right' : Expr}
      (hoperator : C.token operator operator')
      (hright : Expr.Alike C marks right right') :
      Expr.Alike C marks (.unary operator right) (.unary operator' right')
  | binary {marks : List Bool} {operator operator' : Token} {left left' right right' : Expr}
      (hleft : Expr.Alike C marks left left')
      (hoperator : C.token operator operator') (hright : Expr.Alike C marks right right') :
      Expr.Alike C marks (.binary left operator right) (.binary left' operator' right')
  | logical {marks : List Bool} {operator operator' : Token} {left left' right right' : Expr}
      (hleft : Expr.Alike C marks left left')
      (hoperator : C.token operator operator') (hright : Expr.Alike C marks right right') :
      Expr.Alike C marks (.logical left operator right) (.logical left' operator' right')
  | conditional {marks : List Bool} {a a' b b' c c' : Expr} (ha : Expr.Alike C marks a a')
      (hb : Expr.Alike C marks b b')
      (hc : Expr.Alike C marks c c') :
      Expr.Alike C marks (.conditional a b c) (.conditional a' b' c')
  | variable {marks : List Bool} {id id' : Nat} {name name' : Token}
      (h : C.occurrence marks id name id' name') :
      Expr.Alike C marks (.variable id name) (.variable id' name')
  | assign {marks : List Bool} {id id' : Nat} {name name' : Token} {value value' : Expr}
      (h : C.occurrence marks id name id' name')
      (hvalue : Expr.Alike C marks value value') :
      Expr.Alike C marks (.assign id name value) (.assign id' name' value')
  | call {marks : List Bool} {callee callee' : Expr} {paren paren' : Token}
      {arguments arguments' : List Expr}
      (hcallee : Expr.Alike C marks callee callee') (hparen : C.token paren paren')
      (harguments : Expr.AlikeAll C marks arguments arguments') :
      Expr.Alike C marks (.call callee paren arguments) (.call callee' paren' arguments')
  | function {marks : List Bool} {decl decl' : FunctionDecl}
      (h : FunctionDecl.Alike C marks decl decl') :
      Expr.Alike C marks (.function decl) (.function decl')
  | get {marks : List Bool} {object object' : Expr} {name name' : Token}
      (hobject : Expr.Alike C marks object object')
      (hname : C.token name name') : Expr.Alike C marks (.get object name) (.get object' name')
  | set {marks : List Bool} {object object' value value' : Expr} {name name' : Token}
      (hobject : Expr.Alike C marks object object')
      (hname : C.token name name') (hvalue : Expr.Alike C marks value value') :
      Expr.Alike C marks (.set object name value) (.set object' name' value')
  | this {marks : List Bool} {id id' : Nat} {keyword keyword' : Token}
      (h : C.receiver marks id keyword id' keyword') :
      Expr.Alike C marks (.this id keyword) (.this id' keyword')
  | super {marks : List Bool} {id id' : Nat} {keyword keyword' method method' : Token}
      (h : C.receiver marks id keyword id' keyword')
      (hmethod : C.token method method') :
      Expr.Alike C marks (.super id keyword method) (.super id' keyword' method')

inductive Expr.AlikeAll (C : Correspondence) : List Bool → List Expr → List Expr → Prop
  | nil {marks : List Bool} : Expr.AlikeAll C marks [] []
  | cons {marks : List Bool} {e e' : Expr} {es es' : List Expr} (h : Expr.Alike C marks e e')
      (hrest : Expr.AlikeAll C marks es es') :
      Expr.AlikeAll C marks (e :: es) (e' :: es')

inductive Expr.Alike? (C : Correspondence) : List Bool → Option Expr → Option Expr → Prop
  | none {marks : List Bool} : Expr.Alike? C marks none none
  | some {marks : List Bool} {e e' : Expr} (h : Expr.Alike C marks e e') :
      Expr.Alike? C marks (some e) (some e')

/-- The marks are those of the scopes around the function; its own scope holds the parameters and
the names of its body. -/
inductive FunctionDecl.Alike (C : Correspondence) : List Bool → FunctionDecl → FunctionDecl → Prop
  | intro {marks : List Bool} {name name' : Option Token} {params params' : List Token}
      {body body' : List Stmt} {isGetter : Bool} (mark : Bool)
      (hname : Option.Rel C.token name name')
      (hparams : List.Forall₂ (C.declared mark) params params')
      (hbody : Stmt.AlikeAll C (mark :: marks) body body') :
      FunctionDecl.Alike C marks ⟨name, params, body, isGetter⟩ ⟨name', params', body', isGetter⟩

inductive FunctionDecl.AlikeAll (C : Correspondence) :
    List Bool → List FunctionDecl → List FunctionDecl → Prop
  | nil {marks : List Bool} : FunctionDecl.AlikeAll C marks [] []
  | cons {marks : List Bool} {decl decl' : FunctionDecl} {decls decls' : List FunctionDecl}
      (h : FunctionDecl.Alike C marks decl decl')
      (hrest : FunctionDecl.AlikeAll C marks decls decls') :
      FunctionDecl.AlikeAll C marks (decl :: decls) (decl' :: decls')

/-- The names of used traits stand outside the scopes that the members are in. -/
inductive ClassBody.Alike (C : Correspondence) :
    (outside inside : List Bool) → ClassBody → ClassBody → Prop
  | intro {outside inside : List Bool} {traits traits' : List Expr}
      {methods methods' classMethods classMethods' : List FunctionDecl}
      (htraits : Expr.AlikeAll C outside traits traits')
      (hmethods : FunctionDecl.AlikeAll C inside methods methods')
      (hclassMethods : FunctionDecl.AlikeAll C inside classMethods classMethods') :
      ClassBody.Alike C outside inside ⟨traits, methods, classMethods⟩
        ⟨traits', methods', classMethods'⟩

inductive Stmt.Alike (C : Correspondence) : List Bool → Stmt → Stmt → Prop
  | expression {marks : List Bool} {e e' : Expr} (h : Expr.Alike C marks e e') :
      Stmt.Alike C marks (.expression e) (.expression e')
  | print {marks : List Bool} {e e' : Expr} (h : Expr.Alike C marks e e') :
      Stmt.Alike C marks (.print e) (.print e')
  | variable {marks : List Bool} {name name' : Token} {initial initial' : Option Expr}
      (hname : C.declared (innermost marks) name name')
      (hinitial : Expr.Alike? C marks initial initial') :
      Stmt.Alike C marks (.variable name initial) (.variable name' initial')
  | block {marks : List Bool} {statements statements' : List Stmt} (mark : Bool)
      (h : Stmt.AlikeAll C (mark :: marks) statements statements') :
      Stmt.Alike C marks (.block statements) (.block statements')
  | ifElse {marks : List Bool} {condition condition' : Expr} {thenBranch thenBranch' : Stmt}
      {elseBranch elseBranch' : Option Stmt}
      (hcondition : Expr.Alike C marks condition condition')
      (hthen : Stmt.Alike C marks thenBranch thenBranch')
      (helse : Stmt.Alike? C marks elseBranch elseBranch') :
      Stmt.Alike C marks (.ifElse condition thenBranch elseBranch)
        (.ifElse condition' thenBranch' elseBranch')
  | whileLoop {marks : List Bool} {condition condition' : Expr} {body body' : Stmt}
      (hcondition : Expr.Alike C marks condition condition')
      (hbody : Stmt.Alike C marks body body') :
      Stmt.Alike C marks (.whileLoop condition body) (.whileLoop condition' body')
  | forLoop {marks : List Bool} {initial initial' : Option Stmt}
      {condition condition' increment increment' : Option Expr} {body body' : Stmt}
      (mark : Bool) (hinitial : Stmt.Alike? C (mark :: marks) initial initial')
      (hcondition : Expr.Alike? C (mark :: marks) condition condition')
      (hincrement : Expr.Alike? C (mark :: marks) increment increment')
      (hbody : Stmt.Alike C (mark :: marks) body body') :
      Stmt.Alike C marks (.forLoop initial condition increment body)
        (.forLoop initial' condition' increment' body')
  | jump {marks : List Bool} {keyword keyword' : Token} {kind : Jump}
      (hkeyword : C.token keyword keyword') :
      Stmt.Alike C marks (.jump keyword kind) (.jump keyword' kind)
  | function {marks : List Bool} {decl decl' : FunctionDecl}
      (hname : Option.Rel (C.named (innermost marks)) decl.name decl'.name)
      (h : FunctionDecl.Alike C marks decl decl') :
      Stmt.Alike C marks (.function decl) (.function decl')
  | returnValue {marks : List Bool} {keyword keyword' : Token} {value value' : Option Expr}
      (hkeyword : C.token keyword keyword')
      (hvalue : Expr.Alike? C marks value value') :
      Stmt.Alike C marks (.returnValue keyword value) (.returnValue keyword' value')
  | classDecl {marks : List Bool} {name name' : Token} {body body' : ClassBody}
      (hname : C.named (innermost marks) name name')
      (hbody : ClassBody.Alike C marks (false :: marks) body body') :
      Stmt.Alike C marks (.classDecl name none body) (.classDecl name' none body')
  | subclassDecl {marks : List Bool} {name name' : Token} {parent parent' : Expr}
      {body body' : ClassBody}
      (hname : C.named (innermost marks) name name') (hparent : Expr.Alike C marks parent parent')
      (hbody : ClassBody.Alike C marks (false :: false :: marks) body body') :
      Stmt.Alike C marks (.classDecl name (some parent) body)
        (.classDecl name' (some parent') body')
  | traitDecl {marks : List Bool} {name name' : Token} {body body' : ClassBody}
      (hname : C.named (innermost marks) name name')
      (hbody : ClassBody.Alike C marks (false :: marks) body body') :
      Stmt.Alike C marks (.traitDecl name body) (.traitDecl name' body')

inductive Stmt.AlikeAll (C : Correspondence) : List Bool → List Stmt → List Stmt → Prop
  | nil {marks : List Bool} : Stmt.AlikeAll C marks [] []
  | cons {marks : List Bool} {stmt stmt' : Stmt} {rest rest' : List Stmt}
      (h : Stmt.Alike C marks stmt stmt')
      (hrest : Stmt.AlikeAll C marks rest rest') :
      Stmt.AlikeAll C marks (stmt :: rest) (stmt' :: rest')

inductive Stmt.Alike? (C : Correspondence) : List Bool → Option Stmt → Option Stmt → Prop
  | none {marks : List Bool} : Stmt.Alike? C marks none none
  | some {marks : List Bool} {stmt stmt' : Stmt} (h : Stmt.Alike C marks stmt stmt') :
      Stmt.Alike? C marks (some stmt) (some stmt')

end

/-! ### Lists -/

theorem Expr.AlikeAll.append {C : Correspondence} {marks : List Bool} {es es' fs fs' : List Expr}
    (h : Expr.AlikeAll C marks es es') (h' : Expr.AlikeAll C marks fs fs') :
    Expr.AlikeAll C marks (es ++ fs) (es' ++ fs') := by
  induction es generalizing es' with
  | nil =>
      cases h
      exact h'
  | cons e es ih =>
      cases h with
      | cons he hes => exact .cons he (ih hes)

theorem FunctionDecl.AlikeAll.length_eq {C : Correspondence} {marks : List Bool}
    {decls decls' : List FunctionDecl} (h : FunctionDecl.AlikeAll C marks decls decls') :
    decls'.length = decls.length := by
  induction decls generalizing decls' with
  | nil => cases h; rfl
  | cons _ _ ih =>
      cases h with
      | cons _ hrest => exact congrArg (· + 1) (ih hrest)

theorem FunctionDecl.AlikeAll.concat {C : Correspondence} {marks : List Bool}
    {decls decls' : List FunctionDecl} {decl decl' : FunctionDecl}
    (h : FunctionDecl.AlikeAll C marks decls decls') (h' : FunctionDecl.Alike C marks decl decl') :
    FunctionDecl.AlikeAll C marks (decls ++ [decl]) (decls' ++ [decl']) := by
  induction decls generalizing decls' with
  | nil =>
      cases h
      exact .cons h' .nil
  | cons decl decls ih =>
      cases h with
      | cons hdecl hdecls => exact .cons hdecl (ih hdecls)

/-! ### Looser correspondences -/

/-- One correspondence allows at most the differences that another allows. -/
structure Correspondence.Below (C D : Correspondence) : Prop where
  token : ∀ {t t'}, C.token t t' → D.token t t'
  occurrence : ∀ {marks id t id' t'}, C.occurrence marks id t id' t' →
      D.occurrence marks id t id' t'
  receiver : ∀ {marks id t id' t'}, C.receiver marks id t id' t' → D.receiver marks id t id' t'
  declared : ∀ {mark t t'}, C.declared mark t t' → D.declared mark t t'
  named : ∀ {mark t t'}, C.named mark t t' → D.named mark t t'

section Mono

variable {C D : Correspondence}

mutual

theorem Expr.Alike.mono (hle : C.Below D) {marks : List Bool} {e e' : Expr} :
    Expr.Alike C marks e e' → Expr.Alike D marks e e'
  | .literal => .literal
  | .group h => .group (h.mono hle)
  | .unary hoperator hright => .unary (hle.token hoperator) (hright.mono hle)
  | .binary hleft hoperator hright =>
    .binary (hleft.mono hle) (hle.token hoperator) (hright.mono hle)
  | .logical hleft hoperator hright =>
    .logical (hleft.mono hle) (hle.token hoperator) (hright.mono hle)
  | .conditional ha hb hc => .conditional (ha.mono hle) (hb.mono hle) (hc.mono hle)
  | .variable h => .variable (hle.occurrence h)
  | .assign h hvalue => .assign (hle.occurrence h) (hvalue.mono hle)
  | .call hcallee hparen harguments =>
    .call (hcallee.mono hle) (hle.token hparen) (harguments.mono hle)
  | .function h => .function (h.mono hle)
  | .get hobject hname => .get (hobject.mono hle) (hle.token hname)
  | .set hobject hname hvalue => .set (hobject.mono hle) (hle.token hname) (hvalue.mono hle)
  | .this h => .this (hle.receiver h)
  | .super h hmethod => .super (hle.receiver h) (hle.token hmethod)

theorem Expr.AlikeAll.mono (hle : C.Below D) {marks : List Bool} {es es' : List Expr} :
    Expr.AlikeAll C marks es es' → Expr.AlikeAll D marks es es'
  | .nil => .nil
  | .cons h hrest => .cons (h.mono hle) (hrest.mono hle)

theorem Expr.Alike?.mono (hle : C.Below D) {marks : List Bool} {e e' : Option Expr} :
    Expr.Alike? C marks e e' → Expr.Alike? D marks e e'
  | .none => .none
  | .some h => .some (h.mono hle)

theorem FunctionDecl.Alike.mono (hle : C.Below D) {marks : List Bool} {decl decl' : FunctionDecl} :
    FunctionDecl.Alike C marks decl decl' → FunctionDecl.Alike D marks decl decl'
  | .intro mark hname hparams hbody =>
    .intro mark (rel_weaken hname hle.token) (hparams.imp fun _ _ => hle.declared) (hbody.mono hle)

theorem FunctionDecl.AlikeAll.mono (hle : C.Below D) {marks : List Bool}
    {decls decls' : List FunctionDecl} :
    FunctionDecl.AlikeAll C marks decls decls' → FunctionDecl.AlikeAll D marks decls decls'
  | .nil => .nil
  | .cons h hrest => .cons (h.mono hle) (hrest.mono hle)

theorem ClassBody.Alike.mono (hle : C.Below D) {outside inside : List Bool}
    {body body' : ClassBody} :
    ClassBody.Alike C outside inside body body' → ClassBody.Alike D outside inside body body'
  | .intro htraits hmethods hclassMethods =>
    .intro (htraits.mono hle) (hmethods.mono hle) (hclassMethods.mono hle)

theorem Stmt.Alike.mono (hle : C.Below D) {marks : List Bool} {stmt stmt' : Stmt} :
    Stmt.Alike C marks stmt stmt' → Stmt.Alike D marks stmt stmt'
  | .expression h => .expression (h.mono hle)
  | .print h => .print (h.mono hle)
  | .variable hname hinitial => .variable (hle.declared hname) (hinitial.mono hle)
  | .block mark h => .block mark (h.mono hle)
  | .ifElse hcondition hthen helse =>
    .ifElse (hcondition.mono hle) (hthen.mono hle) (helse.mono hle)
  | .whileLoop hcondition hbody => .whileLoop (hcondition.mono hle) (hbody.mono hle)
  | .forLoop mark hinitial hcondition hincrement hbody =>
    .forLoop mark (hinitial.mono hle) (hcondition.mono hle) (hincrement.mono hle) (hbody.mono hle)
  | .jump hkeyword => .jump (hle.token hkeyword)
  | .function hname h => .function (rel_weaken hname hle.named) (h.mono hle)
  | .returnValue hkeyword hvalue => .returnValue (hle.token hkeyword) (hvalue.mono hle)
  | .classDecl hname hbody => .classDecl (hle.named hname) (hbody.mono hle)
  | .subclassDecl hname hparent hbody =>
    .subclassDecl (hle.named hname) (hparent.mono hle) (hbody.mono hle)
  | .traitDecl hname hbody => .traitDecl (hle.named hname) (hbody.mono hle)

theorem Stmt.AlikeAll.mono (hle : C.Below D) {marks : List Bool}
    {statements statements' : List Stmt} :
    Stmt.AlikeAll C marks statements statements' → Stmt.AlikeAll D marks statements statements'
  | .nil => .nil
  | .cons h hrest => .cons (h.mono hle) (hrest.mono hle)

theorem Stmt.Alike?.mono (hle : C.Below D) {marks : List Bool} {stmt stmt' : Option Stmt} :
    Stmt.Alike? C marks stmt stmt' → Stmt.Alike? D marks stmt stmt'
  | .none => .none
  | .some h => .some (h.mono hle)

end

end Mono

end TraitScript
