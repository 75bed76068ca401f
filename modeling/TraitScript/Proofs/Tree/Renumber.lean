import TraitScript.Proofs.Tree.Alike

/-!
# Other ids

The ids of a tree can be changed by a function without touching anything else. Two trees that are
alike up to such a change are the one and its image.
-/

namespace TraitScript

mutual

def Expr.mapIds (f : Nat → Nat) : Expr → Expr
  | .literal value => .literal value
  | .group inner => .group (inner.mapIds f)
  | .unary operator right => .unary operator (right.mapIds f)
  | .binary left operator right => .binary (left.mapIds f) operator (right.mapIds f)
  | .logical left operator right => .logical (left.mapIds f) operator (right.mapIds f)
  | .conditional a b c => .conditional (a.mapIds f) (b.mapIds f) (c.mapIds f)
  | .variable id name => .variable (f id) name
  | .assign id name value => .assign (f id) name (value.mapIds f)
  | .call callee paren arguments => .call (callee.mapIds f) paren (Expr.mapIdsAll f arguments)
  | .function decl => .function (decl.mapIds f)
  | .get object name => .get (object.mapIds f) name
  | .set object name value => .set (object.mapIds f) name (value.mapIds f)
  | .this id keyword => .this (f id) keyword
  | .super id keyword method => .super (f id) keyword method

def Expr.mapIdsAll (f : Nat → Nat) : List Expr → List Expr
  | [] => []
  | e :: es => e.mapIds f :: Expr.mapIdsAll f es

def Expr.mapIds? (f : Nat → Nat) : Option Expr → Option Expr
  | none => none
  | some e => some (e.mapIds f)

def FunctionDecl.mapIds (f : Nat → Nat) : FunctionDecl → FunctionDecl
  | ⟨name, params, body, isGetter⟩ => ⟨name, params, Stmt.mapIdsAll f body, isGetter⟩

def FunctionDecl.mapIdsAll (f : Nat → Nat) : List FunctionDecl → List FunctionDecl
  | [] => []
  | decl :: decls => decl.mapIds f :: FunctionDecl.mapIdsAll f decls

def ClassBody.mapIds (f : Nat → Nat) : ClassBody → ClassBody
  | ⟨traits, methods, classMethods⟩ =>
    ⟨Expr.mapIdsAll f traits, FunctionDecl.mapIdsAll f methods,
      FunctionDecl.mapIdsAll f classMethods⟩

def Stmt.mapIds (f : Nat → Nat) : Stmt → Stmt
  | .expression value => .expression (value.mapIds f)
  | .print value => .print (value.mapIds f)
  | .variable name initial => .variable name (Expr.mapIds? f initial)
  | .block statements => .block (Stmt.mapIdsAll f statements)
  | .ifElse condition thenBranch elseBranch =>
    .ifElse (condition.mapIds f) (thenBranch.mapIds f) (Stmt.mapIds? f elseBranch)
  | .whileLoop condition body => .whileLoop (condition.mapIds f) (body.mapIds f)
  | .forLoop initial condition increment body =>
    .forLoop (Stmt.mapIds? f initial) (Expr.mapIds? f condition) (Expr.mapIds? f increment)
      (body.mapIds f)
  | .jump keyword kind => .jump keyword kind
  | .function decl => .function (decl.mapIds f)
  | .returnValue keyword value => .returnValue keyword (Expr.mapIds? f value)
  | .classDecl name superclass body => .classDecl name (Expr.mapIds? f superclass) (body.mapIds f)
  | .traitDecl name body => .traitDecl name (body.mapIds f)

def Stmt.mapIdsAll (f : Nat → Nat) : List Stmt → List Stmt
  | [] => []
  | stmt :: rest => stmt.mapIds f :: Stmt.mapIdsAll f rest

def Stmt.mapIds? (f : Nat → Nat) : Option Stmt → Option Stmt
  | none => none
  | some stmt => some (stmt.mapIds f)

end

/-- The ids differ by a function and nothing else differs. -/
structure Correspondence.Renumbers (C : Correspondence) (f : Nat → Nat) : Prop where
  token : ∀ {t t'}, C.token t t' → t' = t
  occurrence : ∀ {marks id t id' t'}, C.occurrence marks id t id' t' → id' = f id ∧ t' = t
  receiver : ∀ {marks id t id' t'}, C.receiver marks id t id' t' → id' = f id ∧ t' = t
  declared : ∀ {mark t t'}, C.declared mark t t' → t' = t
  named : ∀ {mark t t'}, C.named mark t t' → t' = t

theorem eq_of_rel {α : Type} {R : α → α → Prop} (hR : ∀ {a b}, R a b → b = a) {a b : Option α}
    (h : Option.Rel R a b) : b = a := by
  cases h with
  | some hab => rw [hR hab]
  | none => rfl

theorem eq_of_forall₂ {α : Type} {R : α → α → Prop} (hR : ∀ {a b}, R a b → b = a) {as bs : List α}
    (h : List.Forall₂ R as bs) : bs = as := by
  induction h with
  | nil => rfl
  | cons hab _ ih => rw [hR hab, ih]

section Renumbers

variable {C : Correspondence} {f : Nat → Nat}

mutual

theorem Expr.Alike.eq_mapIds (hC : C.Renumbers f) {marks : List Bool} {e e' : Expr} :
    Expr.Alike C marks e e' → e' = e.mapIds f
  | .literal => rfl
  | .group h => by rw [Expr.mapIds, h.eq_mapIds hC]
  | .unary hoperator hright => by rw [Expr.mapIds, hC.token hoperator, hright.eq_mapIds hC]
  | .binary hleft hoperator hright => by
    rw [Expr.mapIds, hleft.eq_mapIds hC, hC.token hoperator, hright.eq_mapIds hC]
  | .logical hleft hoperator hright => by
    rw [Expr.mapIds, hleft.eq_mapIds hC, hC.token hoperator, hright.eq_mapIds hC]
  | .conditional ha hb hc => by rw [Expr.mapIds, ha.eq_mapIds hC, hb.eq_mapIds hC, hc.eq_mapIds hC]
  | .variable h => by rw [Expr.mapIds, (hC.occurrence h).1, (hC.occurrence h).2]
  | .assign h hvalue => by
    rw [Expr.mapIds, (hC.occurrence h).1, (hC.occurrence h).2, hvalue.eq_mapIds hC]
  | .call hcallee hparen harguments => by
    rw [Expr.mapIds, hcallee.eq_mapIds hC, hC.token hparen, harguments.eq_mapIds hC]
  | .function h => by rw [Expr.mapIds, h.eq_mapIds hC]
  | .get hobject hname => by rw [Expr.mapIds, hobject.eq_mapIds hC, hC.token hname]
  | .set hobject hname hvalue => by
    rw [Expr.mapIds, hobject.eq_mapIds hC, hC.token hname, hvalue.eq_mapIds hC]
  | .this h => by rw [Expr.mapIds, (hC.receiver h).1, (hC.receiver h).2]
  | .super h hmethod => by rw [Expr.mapIds, (hC.receiver h).1, (hC.receiver h).2, hC.token hmethod]

theorem Expr.AlikeAll.eq_mapIds (hC : C.Renumbers f) {marks : List Bool} {es es' : List Expr} :
    Expr.AlikeAll C marks es es' → es' = Expr.mapIdsAll f es
  | .nil => rfl
  | .cons h hrest => by rw [Expr.mapIdsAll, h.eq_mapIds hC, hrest.eq_mapIds hC]

theorem Expr.Alike?.eq_mapIds (hC : C.Renumbers f) {marks : List Bool} {e e' : Option Expr} :
    Expr.Alike? C marks e e' → e' = Expr.mapIds? f e
  | .none => rfl
  | .some h => by rw [Expr.mapIds?, h.eq_mapIds hC]

theorem FunctionDecl.Alike.eq_mapIds (hC : C.Renumbers f) {marks : List Bool}
    {decl decl' : FunctionDecl} :
    FunctionDecl.Alike C marks decl decl' → decl' = decl.mapIds f
  | .intro _ hname hparams hbody => by
    rw [FunctionDecl.mapIds, eq_of_rel hC.token hname, eq_of_forall₂ hC.declared hparams,
      hbody.eq_mapIds hC]

theorem FunctionDecl.AlikeAll.eq_mapIds (hC : C.Renumbers f) {marks : List Bool}
    {decls decls' : List FunctionDecl} :
    FunctionDecl.AlikeAll C marks decls decls' → decls' = FunctionDecl.mapIdsAll f decls
  | .nil => rfl
  | .cons h hrest => by rw [FunctionDecl.mapIdsAll, h.eq_mapIds hC, hrest.eq_mapIds hC]

theorem ClassBody.Alike.eq_mapIds (hC : C.Renumbers f) {outside inside : List Bool}
    {body body' : ClassBody} :
    ClassBody.Alike C outside inside body body' → body' = body.mapIds f
  | .intro htraits hmethods hclassMethods => by
    rw [ClassBody.mapIds, htraits.eq_mapIds hC, hmethods.eq_mapIds hC, hclassMethods.eq_mapIds hC]

theorem Stmt.Alike.eq_mapIds (hC : C.Renumbers f) {marks : List Bool} {stmt stmt' : Stmt} :
    Stmt.Alike C marks stmt stmt' → stmt' = stmt.mapIds f
  | .expression h => by rw [Stmt.mapIds, h.eq_mapIds hC]
  | .print h => by rw [Stmt.mapIds, h.eq_mapIds hC]
  | .variable hname hinitial => by rw [Stmt.mapIds, hC.declared hname, hinitial.eq_mapIds hC]
  | .block _ h => by rw [Stmt.mapIds, h.eq_mapIds hC]
  | .ifElse hcondition hthen helse => by
    rw [Stmt.mapIds, hcondition.eq_mapIds hC, hthen.eq_mapIds hC, helse.eq_mapIds hC]
  | .whileLoop hcondition hbody => by rw [Stmt.mapIds, hcondition.eq_mapIds hC, hbody.eq_mapIds hC]
  | .forLoop _ hinitial hcondition hincrement hbody => by
    rw [Stmt.mapIds, hinitial.eq_mapIds hC, hcondition.eq_mapIds hC, hincrement.eq_mapIds hC,
      hbody.eq_mapIds hC]
  | .jump hkeyword => by rw [Stmt.mapIds, hC.token hkeyword]
  | .function _ h => by rw [Stmt.mapIds, h.eq_mapIds hC]
  | .returnValue hkeyword hvalue => by rw [Stmt.mapIds, hC.token hkeyword, hvalue.eq_mapIds hC]
  | .classDecl hname hbody => by rw [Stmt.mapIds, hC.named hname, hbody.eq_mapIds hC, Expr.mapIds?]
  | .subclassDecl hname hparent hbody => by
    rw [Stmt.mapIds, hC.named hname, hparent.eq_mapIds hC, hbody.eq_mapIds hC, Expr.mapIds?]
  | .traitDecl hname hbody => by rw [Stmt.mapIds, hC.named hname, hbody.eq_mapIds hC]

theorem Stmt.AlikeAll.eq_mapIds (hC : C.Renumbers f) {marks : List Bool}
    {statements statements' : List Stmt} :
    Stmt.AlikeAll C marks statements statements' → statements' = Stmt.mapIdsAll f statements
  | .nil => rfl
  | .cons h hrest => by rw [Stmt.mapIdsAll, h.eq_mapIds hC, hrest.eq_mapIds hC]

theorem Stmt.Alike?.eq_mapIds (hC : C.Renumbers f) {marks : List Bool} {stmt stmt' : Option Stmt} :
    Stmt.Alike? C marks stmt stmt' → stmt' = Stmt.mapIds? f stmt
  | .none => rfl
  | .some h => by rw [Stmt.mapIds?, h.eq_mapIds hC]

end

end Renumbers

/-! ### No difference at all -/

def Correspondence.same : Correspondence where
  token t t' := t' = t
  occurrence _ id t id' t' := id' = id ∧ t' = t
  receiver _ id t id' t' := id' = id ∧ t' = t
  declared _ t t' := t' = t
  named _ t t' := t' = t

theorem rel_refl {α : Type} {R : α → α → Prop} (hR : ∀ a, R a a) (a : Option α) :
    Option.Rel R a a := by
  cases a with
  | none => exact .none
  | some a => exact .some (hR a)

mutual

theorem Expr.alike_refl (marks : List Bool) : (e : Expr) → Expr.Alike .same marks e e
  | .literal _ => .literal
  | .group inner => .group (inner.alike_refl marks)
  | .unary _ right => .unary rfl (right.alike_refl marks)
  | .binary left _ right => .binary (left.alike_refl marks) rfl (right.alike_refl marks)
  | .logical left _ right => .logical (left.alike_refl marks) rfl (right.alike_refl marks)
  | .conditional a b c =>
    .conditional (a.alike_refl marks) (b.alike_refl marks) (c.alike_refl marks)
  | .variable _ _ => .variable ⟨rfl, rfl⟩
  | .assign _ _ value => .assign ⟨rfl, rfl⟩ (value.alike_refl marks)
  | .call callee _ arguments =>
    .call (callee.alike_refl marks) rfl (Expr.alikeAll_refl marks arguments)
  | .function decl => .function (decl.alike_refl marks)
  | .get object _ => .get (object.alike_refl marks) rfl
  | .set object _ value => .set (object.alike_refl marks) rfl (value.alike_refl marks)
  | .this _ _ => .this ⟨rfl, rfl⟩
  | .super _ _ _ => .super ⟨rfl, rfl⟩ rfl

theorem Expr.alikeAll_refl (marks : List Bool) : (es : List Expr) → Expr.AlikeAll .same marks es es
  | [] => .nil
  | e :: es => .cons (e.alike_refl marks) (Expr.alikeAll_refl marks es)

theorem Expr.alike?_refl (marks : List Bool) : (e : Option Expr) → Expr.Alike? .same marks e e
  | none => .none
  | some e => .some (e.alike_refl marks)

theorem FunctionDecl.alike_refl (marks : List Bool) :
    (decl : FunctionDecl) → FunctionDecl.Alike .same marks decl decl
  | ⟨name, _, body, _⟩ =>
    .intro false (rel_refl (R := Correspondence.same.token) (fun _ => rfl) name)
      (List.forall₂_same.2 fun _ _ => rfl) (Stmt.alikeAll_refl (false :: marks) body)

theorem FunctionDecl.alikeAll_refl (marks : List Bool) :
    (decls : List FunctionDecl) → FunctionDecl.AlikeAll .same marks decls decls
  | [] => .nil
  | decl :: decls => .cons (decl.alike_refl marks) (FunctionDecl.alikeAll_refl marks decls)

theorem ClassBody.alike_refl (outside inside : List Bool) :
    (body : ClassBody) → ClassBody.Alike .same outside inside body body
  | ⟨traits, methods, classMethods⟩ =>
    .intro (Expr.alikeAll_refl outside traits) (FunctionDecl.alikeAll_refl inside methods)
      (FunctionDecl.alikeAll_refl inside classMethods)

theorem Stmt.alike_refl (marks : List Bool) : (stmt : Stmt) → Stmt.Alike .same marks stmt stmt
  | .expression value => .expression (value.alike_refl marks)
  | .print value => .print (value.alike_refl marks)
  | .variable _ initial => .variable rfl (Expr.alike?_refl marks initial)
  | .block statements => .block false (Stmt.alikeAll_refl (false :: marks) statements)
  | .ifElse condition thenBranch elseBranch =>
    .ifElse (condition.alike_refl marks) (thenBranch.alike_refl marks)
      (Stmt.alike?_refl marks elseBranch)
  | .whileLoop condition body => .whileLoop (condition.alike_refl marks) (body.alike_refl marks)
  | .forLoop initial condition increment body =>
    .forLoop false (Stmt.alike?_refl (false :: marks) initial)
      (Expr.alike?_refl (false :: marks) condition)
      (Expr.alike?_refl (false :: marks) increment) (body.alike_refl (false :: marks))
  | .jump _ _ => .jump rfl
  | .function decl =>
    .function (rel_refl (R := Correspondence.same.named (innermost marks)) (fun _ => rfl) decl.name)
      (decl.alike_refl marks)
  | .returnValue _ value => .returnValue rfl (Expr.alike?_refl marks value)
  | .classDecl _ none body => .classDecl rfl (body.alike_refl marks (false :: marks))
  | .classDecl _ (some parent) body =>
    .subclassDecl rfl (parent.alike_refl marks) (body.alike_refl marks (false :: false :: marks))
  | .traitDecl _ body => .traitDecl rfl (body.alike_refl marks (false :: marks))

theorem Stmt.alikeAll_refl (marks : List Bool) :
    (statements : List Stmt) → Stmt.AlikeAll .same marks statements statements
  | [] => .nil
  | stmt :: rest => .cons (stmt.alike_refl marks) (Stmt.alikeAll_refl marks rest)

theorem Stmt.alike?_refl (marks : List Bool) :
    (stmt : Option Stmt) → Stmt.Alike? .same marks stmt stmt
  | none => .none
  | some stmt => .some (stmt.alike_refl marks)

end

theorem Correspondence.same_renumbers : Correspondence.same.Renumbers id where
  token h := h
  occurrence h := h
  receiver h := h
  declared h := h
  named h := h

/-- A tree is its own image, so what is alike to it is the tree itself. -/
theorem Expr.Alike.eq {marks : List Bool} {e e' : Expr} (h : Expr.Alike .same marks e e') :
    e' = e := by
  rw [h.eq_mapIds Correspondence.same_renumbers,
    ← (e.alike_refl marks).eq_mapIds Correspondence.same_renumbers]

theorem Expr.AlikeAll.eq {marks : List Bool} {es es' : List Expr}
    (h : Expr.AlikeAll .same marks es es') : es' = es := by
  rw [h.eq_mapIds Correspondence.same_renumbers,
    ← (Expr.alikeAll_refl marks es).eq_mapIds Correspondence.same_renumbers]

theorem ClassBody.Alike.eq {outside inside : List Bool} {body body' : ClassBody}
    (h : ClassBody.Alike .same outside inside body body') :
    body' = body := by
  rw [h.eq_mapIds Correspondence.same_renumbers,
    ← (body.alike_refl outside inside).eq_mapIds Correspondence.same_renumbers]

theorem Stmt.Alike.eq {marks : List Bool} {stmt stmt' : Stmt}
    (h : Stmt.Alike .same marks stmt stmt') : stmt' = stmt := by
  rw [h.eq_mapIds Correspondence.same_renumbers,
    ← (stmt.alike_refl marks).eq_mapIds Correspondence.same_renumbers]

theorem Stmt.AlikeAll.eq {marks : List Bool} {statements statements' : List Stmt}
    (h : Stmt.AlikeAll .same marks statements statements') :
    statements' = statements := by
  rw [h.eq_mapIds Correspondence.same_renumbers, ← (Stmt.alikeAll_refl marks statements).eq_mapIds
    Correspondence.same_renumbers]

end TraitScript
