import TraitScript.Proofs.Parse.Grammar
import TraitScript.Proofs.Tree.Alike

/-!
# The same text elsewhere

When a text is read at another place of a source, its trees have other lines and other ids, and
nothing else changes. As ids do not count, a tree may be exchanged for any with the same tree
without ids.
-/

namespace TraitScript

/-- Tokens that differ in their lines at most. -/
def Token.Same (t t' : Token) : Prop := t'.kind = t.kind ∧ t'.lexeme = t.lexeme

def Correspondence.elsewhere : Correspondence where
  token := Token.Same
  occurrence _ _ t _ t' := t.Same t'
  receiver _ _ t _ t' := t.Same t'
  declared _ := Token.Same
  named _ := Token.Same

theorem FunctionDecl.name_withoutIds (decl : FunctionDecl) : decl.withoutIds.name = decl.name := by
  cases decl
  rfl

/-! ### Ids do not count -/

mutual

theorem Expr.Alike.withoutIds {marks : List Bool} {e e' : Expr} :
    Expr.Alike .elsewhere marks e e' → Expr.Alike .elsewhere marks e e'.withoutIds
  | .literal => .literal
  | .group h => .group h.withoutIds
  | .unary hoperator hright => .unary hoperator hright.withoutIds
  | .binary hleft hoperator hright => .binary hleft.withoutIds hoperator hright.withoutIds
  | .logical hleft hoperator hright => .logical hleft.withoutIds hoperator hright.withoutIds
  | .conditional ha hb hc => .conditional ha.withoutIds hb.withoutIds hc.withoutIds
  | .variable h => .variable h
  | .assign h hvalue => .assign h hvalue.withoutIds
  | .call hcallee hparen harguments => .call hcallee.withoutIds hparen harguments.withoutIds
  | .function h => .function h.withoutIds
  | .get hobject hname => .get hobject.withoutIds hname
  | .set hobject hname hvalue => .set hobject.withoutIds hname hvalue.withoutIds
  | .this h => .this h
  | .super h hmethod => .super h hmethod

theorem Expr.AlikeAll.withoutIds {marks : List Bool} {es es' : List Expr} :
    Expr.AlikeAll .elsewhere marks es es' →
      Expr.AlikeAll .elsewhere marks es (Expr.withoutIdsAll es')
  | .nil => .nil
  | .cons h hrest => .cons h.withoutIds hrest.withoutIds

theorem Expr.Alike?.withoutIds {marks : List Bool} {e e' : Option Expr} :
    Expr.Alike? .elsewhere marks e e' → Expr.Alike? .elsewhere marks e (Expr.withoutIds? e')
  | .none => .none
  | .some h => .some h.withoutIds

theorem FunctionDecl.Alike.withoutIds {marks : List Bool} {decl decl' : FunctionDecl} :
    FunctionDecl.Alike .elsewhere marks decl decl' →
      FunctionDecl.Alike .elsewhere marks decl decl'.withoutIds
  | .intro mark hname hparams hbody => .intro mark hname hparams hbody.withoutIds

theorem FunctionDecl.AlikeAll.withoutIds {marks : List Bool} {decls decls' : List FunctionDecl} :
    FunctionDecl.AlikeAll .elsewhere marks decls decls' →
      FunctionDecl.AlikeAll .elsewhere marks decls (FunctionDecl.withoutIdsAll decls')
  | .nil => .nil
  | .cons h hrest => .cons h.withoutIds hrest.withoutIds

theorem ClassBody.Alike.withoutIds {outside inside : List Bool} {body body' : ClassBody} :
    ClassBody.Alike .elsewhere outside inside body body' →
      ClassBody.Alike .elsewhere outside inside body body'.withoutIds
  | .intro htraits hmethods hclassMethods =>
    .intro htraits.withoutIds hmethods.withoutIds hclassMethods.withoutIds

theorem Stmt.Alike.withoutIds {marks : List Bool} {stmt stmt' : Stmt} :
    Stmt.Alike .elsewhere marks stmt stmt' → Stmt.Alike .elsewhere marks stmt stmt'.withoutIds
  | .expression h => .expression h.withoutIds
  | .print h => .print h.withoutIds
  | .variable hname hinitial => .variable hname hinitial.withoutIds
  | .block mark h => .block mark h.withoutIds
  | .ifElse hcondition hthen helse =>
    .ifElse hcondition.withoutIds hthen.withoutIds helse.withoutIds
  | .whileLoop hcondition hbody => .whileLoop hcondition.withoutIds hbody.withoutIds
  | .forLoop mark hinitial hcondition hincrement hbody =>
    .forLoop mark hinitial.withoutIds hcondition.withoutIds hincrement.withoutIds hbody.withoutIds
  | .jump hkeyword => .jump hkeyword
  | .function hname h => .function (by rw [FunctionDecl.name_withoutIds]; exact hname) h.withoutIds
  | .returnValue hkeyword hvalue => .returnValue hkeyword hvalue.withoutIds
  | .classDecl hname hbody => .classDecl hname hbody.withoutIds
  | .subclassDecl hname hparent hbody => .subclassDecl hname hparent.withoutIds hbody.withoutIds
  | .traitDecl hname hbody => .traitDecl hname hbody.withoutIds

theorem Stmt.AlikeAll.withoutIds {marks : List Bool} {statements statements' : List Stmt} :
    Stmt.AlikeAll .elsewhere marks statements statements' →
      Stmt.AlikeAll .elsewhere marks statements (Stmt.withoutIdsAll statements')
  | .nil => .nil
  | .cons h hrest => .cons h.withoutIds hrest.withoutIds

theorem Stmt.Alike?.withoutIds {marks : List Bool} {stmt stmt' : Option Stmt} :
    Stmt.Alike? .elsewhere marks stmt stmt' →
      Stmt.Alike? .elsewhere marks stmt (Stmt.withoutIds? stmt')
  | .none => .none
  | .some h => .some h.withoutIds

end

mutual

theorem Expr.Alike.withIds {marks : List Bool} {e : Expr} :
    (e' : Expr) → Expr.Alike .elsewhere marks e e'.withoutIds → Expr.Alike .elsewhere marks e e'
  | .literal _, .literal => .literal
  | .group inner, .group h => .group (h.withIds inner)
  | .unary _ right, .unary hoperator hright => .unary hoperator (hright.withIds right)
  | .binary left _ right, .binary hleft hoperator hright =>
    .binary (hleft.withIds left) hoperator (hright.withIds right)
  | .logical left _ right, .logical hleft hoperator hright =>
    .logical (hleft.withIds left) hoperator (hright.withIds right)
  | .conditional a b c, .conditional ha hb hc =>
    .conditional (ha.withIds a) (hb.withIds b) (hc.withIds c)
  | .variable _ _, .variable h => .variable h
  | .assign _ _ value, .assign h hvalue => .assign h (hvalue.withIds value)
  | .call callee _ arguments, .call hcallee hparen harguments =>
    .call (hcallee.withIds callee) hparen (harguments.withIds arguments)
  | .function decl, .function h => .function (h.withIds decl)
  | .get object _, .get hobject hname => .get (hobject.withIds object) hname
  | .set object _ value, .set hobject hname hvalue =>
    .set (hobject.withIds object) hname (hvalue.withIds value)
  | .this _ _, .this h => .this h
  | .super _ _ _, .super h hmethod => .super h hmethod
termination_by structural tree => tree

theorem Expr.AlikeAll.withIds {marks : List Bool} {es : List Expr} :
    (es' : List Expr) → Expr.AlikeAll .elsewhere marks es (Expr.withoutIdsAll es') →
    Expr.AlikeAll .elsewhere marks es es'
  | [], .nil => .nil
  | e' :: es', .cons h hrest => .cons (h.withIds e') (hrest.withIds es')
termination_by structural tree => tree

theorem Expr.Alike?.withIds {marks : List Bool} {e : Option Expr} :
    (e' : Option Expr) → Expr.Alike? .elsewhere marks e (Expr.withoutIds? e') →
    Expr.Alike? .elsewhere marks e e'
  | none, .none => .none
  | some e', .some h => .some (h.withIds e')
termination_by structural tree => tree

theorem FunctionDecl.Alike.withIds {marks : List Bool} {decl : FunctionDecl} :
    (decl' : FunctionDecl) →
    FunctionDecl.Alike .elsewhere marks decl decl'.withoutIds →
    FunctionDecl.Alike .elsewhere marks decl decl'
  | ⟨_, _, body, _⟩, .intro mark hname hparams hbody =>
    .intro mark hname hparams (hbody.withIds body)
termination_by structural tree => tree

theorem FunctionDecl.AlikeAll.withIds {marks : List Bool} {decls : List FunctionDecl} :
    (decls' : List FunctionDecl) →
    FunctionDecl.AlikeAll .elsewhere marks decls (FunctionDecl.withoutIdsAll decls') →
    FunctionDecl.AlikeAll .elsewhere marks decls decls'
  | [], .nil => .nil
  | decl' :: decls', .cons h hrest => .cons (h.withIds decl') (hrest.withIds decls')
termination_by structural tree => tree

theorem ClassBody.Alike.withIds {outside inside : List Bool} {body : ClassBody} :
    (body' : ClassBody) →
    ClassBody.Alike .elsewhere outside inside body body'.withoutIds →
    ClassBody.Alike .elsewhere outside inside body body'
  | ⟨traits, methods, classMethods⟩, .intro htraits hmethods hclassMethods =>
    .intro (htraits.withIds traits) (hmethods.withIds methods) (hclassMethods.withIds classMethods)
termination_by structural tree => tree

theorem Stmt.Alike.withIds {marks : List Bool} {stmt : Stmt} :
    (stmt' : Stmt) → Stmt.Alike .elsewhere marks stmt stmt'.withoutIds →
    Stmt.Alike .elsewhere marks stmt stmt'
  | .expression value, .expression h => .expression (h.withIds value)
  | .print value, .print h => .print (h.withIds value)
  | .variable _ initial, .variable hname hinitial => .variable hname (hinitial.withIds initial)
  | .block statements, .block mark h => .block mark (h.withIds statements)
  | .ifElse condition thenBranch elseBranch, .ifElse hcondition hthen helse =>
    .ifElse (hcondition.withIds condition) (hthen.withIds thenBranch) (helse.withIds elseBranch)
  | .whileLoop condition body, .whileLoop hcondition hbody =>
    .whileLoop (hcondition.withIds condition) (hbody.withIds body)
  | .forLoop initial condition increment body, .forLoop mark hinitial hcondition hincrement hbody =>
    .forLoop mark (hinitial.withIds initial) (hcondition.withIds condition)
      (hincrement.withIds increment) (hbody.withIds body)
  | .jump _ _, .jump hkeyword => .jump hkeyword
  | .function decl, .function hname h =>
    .function (by rw [FunctionDecl.name_withoutIds] at hname; exact hname) (h.withIds decl)
  | .returnValue _ value, .returnValue hkeyword hvalue =>
    .returnValue hkeyword (hvalue.withIds value)
  | .classDecl _ none body, .classDecl hname hbody => .classDecl hname (hbody.withIds body)
  | .classDecl _ (some parent) body, .subclassDecl hname hparent hbody =>
    .subclassDecl hname (hparent.withIds parent) (hbody.withIds body)
  | .traitDecl _ body, .traitDecl hname hbody => .traitDecl hname (hbody.withIds body)
termination_by structural tree => tree

theorem Stmt.AlikeAll.withIds {marks : List Bool} {statements : List Stmt} :
    (statements' : List Stmt) →
    Stmt.AlikeAll .elsewhere marks statements (Stmt.withoutIdsAll statements') →
    Stmt.AlikeAll .elsewhere marks statements statements'
  | [], .nil => .nil
  | stmt' :: rest', .cons h hrest => .cons (h.withIds stmt') (hrest.withIds rest')
termination_by structural tree => tree

theorem Stmt.Alike?.withIds {marks : List Bool} {stmt : Option Stmt} : (stmt' : Option Stmt) →
    Stmt.Alike? .elsewhere marks stmt (Stmt.withoutIds? stmt') →
    Stmt.Alike? .elsewhere marks stmt stmt'
  | none, .none => .none
  | some stmt', .some h => .some (h.withIds stmt')
termination_by structural tree => tree

end

theorem Stmt.AlikeAll.of_withoutIds {marks : List Bool}
    {statements statements' statements'' : List Stmt}
    (h : Stmt.AlikeAll .elsewhere marks statements statements')
    (heq : Stmt.withoutIdsAll statements'' = Stmt.withoutIdsAll statements') :
    Stmt.AlikeAll .elsewhere marks statements statements'' := by
  apply Stmt.AlikeAll.withIds
  rw [heq]
  exact h.withoutIds

end TraitScript
