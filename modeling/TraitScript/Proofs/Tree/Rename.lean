import Mathlib.Logic.Equiv.Basic
import TraitScript.Proofs.Scope.Distinct
import TraitScript.Proofs.Scope.Mirror
import TraitScript.Proofs.Tree.Renumber

/-!
# Renaming a local

A variable or parameter of one scope gets another name, and so do exactly the occurrences that are
bound to it, which is known from the distances that were recorded for them. Everything else in the
tree stays as it is. On the way down the scopes around a part are marked: the mark is set for the
scope whose name is changed.

If no scope declares a name twice and the new name is new, then the tree and the renamed tree differ
as two trees may that are resolved and run alike.
-/

namespace TraitScript

/-- A local name and another for it. The scope that declares the name is given by the way that leads
down to it: which part is taken at each step, the last step first. -/
structure Renaming where
  scope : List Nat
  old : String
  new : String
  /-- The distances recorded for the occurrences of names. -/
  distances : Nat → Option Nat

namespace Renaming

/-- How a token is spelled that is bound in a scope with a mark. -/
def spell (r : Renaming) (mark : Bool) (t : Token) : Token :=
  if mark = true ∧ t.lexeme = r.old then { t with lexeme := r.new } else t

/-- The scope to change is the one at the given end of the way, if it declares the old name as a
variable or parameter. -/
def chooses (r : Renaming) (path : List Nat) (declarations : List Declaration) : Bool :=
  path == r.scope && declarations.any fun d => d.isVariable && d.name.lexeme == r.old

end Renaming

mutual

def Expr.renamed (r : Renaming) (marks : List Bool) (path : List Nat) : Expr → Expr
  | .literal value => .literal value
  | .group inner => .group (inner.renamed r marks (0 :: path))
  | .unary operator right => .unary operator (right.renamed r marks (0 :: path))
  | .binary left operator right =>
    .binary (left.renamed r marks (0 :: path)) operator (right.renamed r marks (1 :: path))
  | .logical left operator right =>
    .logical (left.renamed r marks (0 :: path)) operator (right.renamed r marks (1 :: path))
  | .conditional a b c =>
    .conditional (a.renamed r marks (0 :: path)) (b.renamed r marks (1 :: path))
      (c.renamed r marks (2 :: path))
  | .variable id name => .variable id (r.spell (markAt marks (r.distances id)) name)
  | .assign id name value =>
    .assign id (r.spell (markAt marks (r.distances id)) name) (value.renamed r marks (0 :: path))
  | .call callee paren arguments =>
    .call (callee.renamed r marks (0 :: path)) paren (Expr.renamedAll r marks (1 :: path) arguments)
  | .function decl => .function (decl.renamed r marks (0 :: path))
  | .get object name => .get (object.renamed r marks (0 :: path)) name
  | .set object name value =>
    .set (object.renamed r marks (0 :: path)) name (value.renamed r marks (1 :: path))
  | .this id keyword => .this id keyword
  | .super id keyword method => .super id keyword method

def Expr.renamedAll (r : Renaming) (marks : List Bool) (path : List Nat) : List Expr → List Expr
  | [] => []
  | first :: rest => first.renamed r marks (0 :: path) :: Expr.renamedAll r marks (1 :: path) rest

def Expr.renamed? (r : Renaming) (marks : List Bool) (path : List Nat) : Option Expr → Option Expr
  | none => none
  | some expr => some (expr.renamed r marks path)

def FunctionDecl.renamed (r : Renaming) (marks : List Bool) (path : List Nat) :
    FunctionDecl → FunctionDecl
  | ⟨name, params, body, isGetter⟩ =>
    let mark := r.chooses path (FunctionDecl.declares ⟨name, params, body, isGetter⟩)
    ⟨name, params.map (r.spell mark), Stmt.renamedAll r (mark :: marks) (0 :: path) body, isGetter⟩

def FunctionDecl.renamedAll (r : Renaming) (marks : List Bool) (path : List Nat) :
    List FunctionDecl → List FunctionDecl
  | [] => []
  | first :: rest =>
    first.renamed r marks (0 :: path) :: FunctionDecl.renamedAll r marks (1 :: path) rest

/-- The members are inside further scopes, of `this` and perhaps of `super`. -/
def ClassBody.renamed (r : Renaming) (outside inside : List Bool) (path : List Nat) :
    ClassBody → ClassBody
  | ⟨traits, methods, classMethods⟩ =>
    ⟨Expr.renamedAll r outside (0 :: path) traits,
      FunctionDecl.renamedAll r inside (1 :: path) methods,
      FunctionDecl.renamedAll r inside (2 :: path) classMethods⟩

def Stmt.renamed (r : Renaming) (marks : List Bool) (path : List Nat) : Stmt → Stmt
  | .expression value => .expression (value.renamed r marks (0 :: path))
  | .print value => .print (value.renamed r marks (0 :: path))
  | .variable name initial =>
    .variable (r.spell (innermost marks) name) (Expr.renamed? r marks (0 :: path) initial)
  | .block statements =>
    let mark := r.chooses path (Stmt.declaresAll statements)
    .block (Stmt.renamedAll r (mark :: marks) (0 :: path) statements)
  | .ifElse condition thenBranch elseBranch =>
    .ifElse (condition.renamed r marks (0 :: path)) (thenBranch.renamed r marks (1 :: path))
      (Stmt.renamed? r marks (2 :: path) elseBranch)
  | .whileLoop condition body =>
    .whileLoop (condition.renamed r marks (0 :: path)) (body.renamed r marks (1 :: path))
  | .forLoop initial condition increment body =>
    let mark := r.chooses path (Stmt.declares? initial ++ body.declares)
    .forLoop (Stmt.renamed? r (mark :: marks) (0 :: path) initial)
      (Expr.renamed? r (mark :: marks) (1 :: path) condition)
      (Expr.renamed? r (mark :: marks) (2 :: path) increment)
      (body.renamed r (mark :: marks) (3 :: path))
  | .jump keyword kind => .jump keyword kind
  | .function decl => .function (decl.renamed r marks (0 :: path))
  | .returnValue keyword value => .returnValue keyword (Expr.renamed? r marks (0 :: path) value)
  | .classDecl name none body =>
    .classDecl name none (body.renamed r marks (false :: marks) (0 :: path))
  | .classDecl name (some parent) body =>
    .classDecl name (some (parent.renamed r marks (1 :: path)))
      (body.renamed r marks (false :: false :: marks) (0 :: path))
  | .traitDecl name body => .traitDecl name (body.renamed r marks (false :: marks) (0 :: path))

def Stmt.renamedAll (r : Renaming) (marks : List Bool) (path : List Nat) : List Stmt → List Stmt
  | [] => []
  | first :: rest => first.renamed r marks (0 :: path) :: Stmt.renamedAll r marks (1 :: path) rest

def Stmt.renamed? (r : Renaming) (marks : List Bool) (path : List Nat) : Option Stmt → Option Stmt
  | none => none
  | some stmt => some (stmt.renamed r marks path)

end

/-! ### How the trees differ -/

namespace Renaming

variable {r : Renaming}

/-- A name that is neither reserved nor the new one. -/
def Suits (r : Renaming) (t : Token) : Prop := Keyword.ofText? t.lexeme = none ∧ t.lexeme ≠ r.new

/-- The old and the new name are exchanged in a marked scope, so that different names stay
different. A reserved word is no name of a variable. -/
def rename (r : Renaming) (mark : Bool) (name : String) : String :=
  if mark = true ∧ Keyword.ofText? r.old = none then Equiv.swap r.old r.new name else name

theorem rename_injective (r : Renaming) (mark : Bool) : Function.Injective (r.rename mark) := by
  unfold rename
  split
  · exact (Equiv.swap r.old r.new).injective
  · exact Function.injective_id

theorem rename_reserved (hnew : Keyword.ofText? r.new = none) {name : String}
    (hname : Keyword.ofText? name ≠ none) (mark : Bool) :
    r.rename mark name = name := by
  unfold rename
  split
  next h =>
    exact Equiv.swap_apply_of_ne_of_ne (fun heq => hname (heq ▸ h.2))
      (fun heq => hname (heq ▸ hnew))
  next => rfl

theorem lexeme_spell {t : Token} (ht : r.Suits t) (mark : Bool) :
    (r.spell mark t).lexeme = r.rename mark t.lexeme := by
  unfold spell rename
  by_cases hold : t.lexeme = r.old
  · have hordinary : Keyword.ofText? r.old = none := hold ▸ ht.1
    by_cases hmark : mark = true
    · rw [if_pos ⟨hmark, hold⟩, if_pos ⟨hmark, hordinary⟩, hold, Equiv.swap_apply_left]
    · rw [if_neg fun h => hmark h.1, if_neg fun h => hmark h.1]
  · rw [if_neg fun h => hold h.2, Equiv.swap_apply_of_ne_of_ne hold ht.2, ite_self]

theorem spell_keeps (r : Renaming) (mark : Bool) (t : Token) :
    (r.spell mark t).kind = t.kind ∧ (r.spell mark t).line = t.line := by
  unfold spell
  split <;> exact ⟨rfl, rfl⟩

/-- In the chosen scope the old name is that of a variable or parameter, and so of nothing else. -/
theorem clear_of_chooses {path : List Nat} {declarations : List Declaration}
    (h : r.chooses path declarations = true) (hnodup : (Declaration.names declarations).Nodup) :
    ∀ d ∈ declarations, d.isVariable = false → d.name.lexeme ≠ r.old := by
  intro d hd hother hold
  obtain ⟨chosen, hchosen, hfound⟩ := List.any_eq_true.1 (Bool.and_eq_true_iff.1 h).2
  obtain ⟨hvariable, hname⟩ := Bool.and_eq_true_iff.1 hfound
  have hsame : chosen = d :=
    List.inj_on_of_nodup_map hnodup hchosen hd ((beq_iff_eq.1 hname).trans hold.symm)
  rw [hsame, hother] at hvariable
  cases hvariable

end Renaming

/-- What is known of the names of a program with one of its trees: they suit a renaming, and `this`
and `super` are reserved words. -/
def Correspondence.suiting (r : Renaming) : Correspondence where
  token _ _ := True
  occurrence _ _ t _ _ := r.Suits t
  receiver _ _ t _ _ := Keyword.ofText? t.lexeme ≠ none
  declared _ t _ := r.Suits t
  named _ t _ := r.Suits t

/-- Trees of which the second is renamed. -/
def Correspondence.renaming (r : Renaming) : Correspondence where
  token t t' := t' = t
  occurrence marks id t id' t' :=
    id' = id ∧ t' = r.spell (markAt marks (r.distances id)) t ∧ r.Suits t
  receiver _ id t id' t' := id' = id ∧ t' = t ∧ Keyword.ofText? t.lexeme ≠ none
  declared mark t t' := t' = r.spell mark t ∧ r.Suits t
  named mark t t' := t' = t ∧ r.Suits t ∧ (mark = true → t.lexeme ≠ r.old)

/-- If the scope around is marked, no function, class or trait that is declared in it has the old
name. -/
def Renaming.Clear (r : Renaming) (marks : List Bool) (declarations : List Declaration) : Prop :=
  innermost marks = true → ∀ d ∈ declarations, d.isVariable = false → d.name.lexeme ≠ r.old

section Renamed

variable {r : Renaming}

theorem Renaming.Clear.of_subset {marks : List Bool} {all some : List Declaration}
    (h : r.Clear marks all) (hsub : some ⊆ all) : r.Clear marks some :=
  fun hmark d hd => h hmark d (hsub hd)

theorem Renaming.clear_scope {path : List Nat} {marks : List Bool} {declarations : List Declaration}
    (hnodup : (Declaration.names declarations).Nodup) :
    r.Clear (r.chooses path declarations :: marks) declarations :=
  fun hmark => clear_of_chooses hmark hnodup

theorem Renaming.declared_params {mark' : Bool} {params params' : List Token}
    (h : List.Forall₂ ((Correspondence.suiting r).declared mark') params params') (mark : Bool) :
    List.Forall₂ ((Correspondence.renaming r).declared mark) params
      (params.map (r.spell mark)) := by
  induction h with
  | nil => exact .nil
  | cons hparam _ ih => exact .cons ⟨rfl, hparam⟩ ih

theorem Renaming.named_function {mark' : Bool} {marks : List Bool} {decl : FunctionDecl}
    {name' : Option Token}
    (hname : Option.Rel ((Correspondence.suiting r).named mark') decl.name name')
    (hclear : r.Clear marks (Stmt.function decl).declares) (path : List Nat) :
    Option.Rel ((Correspondence.renaming r).named (innermost marks)) decl.name
      (decl.renamed r marks path).name := by
  obtain ⟨name, params, body, isGetter⟩ := decl
  cases hname with
  | none => exact .none
  | some ht => exact .some ⟨rfl, ht, fun hmark => hclear hmark _ (List.mem_singleton_self _) rfl⟩

mutual

theorem Expr.Alike.renamed {m : List Bool} {e e' : Expr} :
    Expr.Alike (.suiting r) m e e' → e.Distinct → (marks : List Bool) → (path : List Nat) →
    Expr.Alike (.renaming r) marks e (e.renamed r marks path)
  | .literal, _, _, _ => .literal
  | .group h, hd, marks, _ => .group (h.renamed hd marks _)
  | .unary _ hright, hd, marks, _ => .unary rfl (hright.renamed hd marks _)
  | .binary hleft _ hright, hd, marks, _ =>
    .binary (hleft.renamed hd.1 marks _) rfl (hright.renamed hd.2 marks _)
  | .logical hleft _ hright, hd, marks, _ =>
    .logical (hleft.renamed hd.1 marks _) rfl (hright.renamed hd.2 marks _)
  | .conditional ha hb hc, hd, marks, _ =>
    .conditional (ha.renamed hd.1 marks _) (hb.renamed hd.2.1 marks _) (hc.renamed hd.2.2 marks _)
  | .variable h, _, _, _ => .variable ⟨rfl, rfl, h⟩
  | .assign h hvalue, hd, marks, _ => .assign ⟨rfl, rfl, h⟩ (hvalue.renamed hd marks _)
  | .call hcallee _ harguments, hd, marks, _ =>
    .call (hcallee.renamed hd.1 marks _) rfl (harguments.renamed hd.2 marks _)
  | .function h, hd, marks, _ => .function (h.renamed hd marks _)
  | .get hobject _, hd, marks, _ => .get (hobject.renamed hd marks _) rfl
  | .set hobject _ hvalue, hd, marks, _ =>
    .set (hobject.renamed hd.2 marks _) rfl (hvalue.renamed hd.1 marks _)
  | .this h, _, _, _ => .this ⟨rfl, rfl, h⟩
  | .super h _, _, _, _ => .super ⟨rfl, rfl, h⟩ rfl

theorem Expr.AlikeAll.renamed {m : List Bool} {es es' : List Expr} :
    Expr.AlikeAll (.suiting r) m es es' → Expr.DistinctAll es → (marks : List Bool) →
    (path : List Nat) → Expr.AlikeAll (.renaming r) marks es (Expr.renamedAll r marks path es)
  | .nil, _, _, _ => .nil
  | .cons h hrest, hd, marks, _ => .cons (h.renamed hd.1 marks _) (hrest.renamed hd.2 marks _)

theorem Expr.Alike?.renamed {m : List Bool} {e e' : Option Expr} :
    Expr.Alike? (.suiting r) m e e' → Expr.Distinct? e → (marks : List Bool) →
    (path : List Nat) → Expr.Alike? (.renaming r) marks e (Expr.renamed? r marks path e)
  | .none, _, _, _ => .none
  | .some h, hd, marks, _ => .some (h.renamed hd marks _)

theorem FunctionDecl.Alike.renamed {m : List Bool} {decl decl' : FunctionDecl} :
    FunctionDecl.Alike (.suiting r) m decl decl' → decl.Distinct →
    (marks : List Bool) → (path : List Nat) →
    FunctionDecl.Alike (.renaming r) marks decl (decl.renamed r marks path)
  | .intro _ _ hparams hbody, hd, marks, path => by
    have hclear : r.Clear (r.chooses path _ :: marks) _ := Renaming.clear_scope hd.1
    have htoken : ∀ t, (Correspondence.renaming r).token t t := fun _ => rfl
    exact .intro _ (rel_refl htoken _) (Renaming.declared_params hparams _)
      (hbody.renamed hd.2 _ (hclear.of_subset (List.subset_append_right ..)) _)

theorem FunctionDecl.AlikeAll.renamed {m : List Bool} {decls decls' : List FunctionDecl} :
    FunctionDecl.AlikeAll (.suiting r) m decls decls' →
    FunctionDecl.DistinctAll decls → (marks : List Bool) → (path : List Nat) →
    FunctionDecl.AlikeAll (.renaming r) marks decls (FunctionDecl.renamedAll r marks path decls)
  | .nil, _, _, _ => .nil
  | .cons h hrest, hd, marks, _ => .cons (h.renamed hd.1 marks _) (hrest.renamed hd.2 marks _)

theorem ClassBody.Alike.renamed {m m' : List Bool} {body body' : ClassBody} :
    ClassBody.Alike (.suiting r) m m' body body' → body.Distinct →
    (outside inside : List Bool) → (path : List Nat) →
    ClassBody.Alike (.renaming r) outside inside body (body.renamed r outside inside path)
  | .intro htraits hmethods hclassMethods, hd, outside, inside, _ =>
    .intro (htraits.renamed hd.1 outside _) (hmethods.renamed hd.2.1 inside _)
      (hclassMethods.renamed hd.2.2 inside _)

theorem Stmt.Alike.renamed {m : List Bool} {stmt stmt' : Stmt} :
    Stmt.Alike (.suiting r) m stmt stmt' → stmt.Distinct → (marks : List Bool) →
    r.Clear marks stmt.declares → (path : List Nat) →
    Stmt.Alike (.renaming r) marks stmt (stmt.renamed r marks path)
  | .expression h, hd, marks, _, _ => .expression (h.renamed hd marks _)
  | .print h, hd, marks, _, _ => .print (h.renamed hd marks _)
  | .variable hname hinitial, hd, marks, _, _ =>
    .variable ⟨rfl, hname⟩ (hinitial.renamed hd marks _)
  | .block _ h, hd, marks, _, _ => .block _ (h.renamed hd.2 _ (Renaming.clear_scope hd.1) _)
  | .ifElse hcondition hthen helse, hd, marks, hclear, _ =>
    .ifElse (hcondition.renamed hd.1 marks _)
      (hthen.renamed hd.2.1 marks (hclear.of_subset (List.subset_append_left ..)) _)
      (helse.renamed hd.2.2 marks (hclear.of_subset (List.subset_append_right ..)) _)
  | .whileLoop hcondition hbody, hd, marks, hclear, _ =>
    .whileLoop (hcondition.renamed hd.1 marks _) (hbody.renamed hd.2 marks hclear _)
  | .forLoop _ hinitial hcondition hincrement hbody, hd, marks, _, path => by
    have hclear : r.Clear (r.chooses path _ :: marks) _ := Renaming.clear_scope hd.1
    exact .forLoop _ (hinitial.renamed hd.2.1 _ (hclear.of_subset (List.subset_append_left ..)) _)
      (hcondition.renamed hd.2.2.1 _ _)
      (hincrement.renamed hd.2.2.2.1 _ _)
      (hbody.renamed hd.2.2.2.2 _ (hclear.of_subset (List.subset_append_right ..)) _)
  | .jump _, _, _, _, _ => .jump rfl
  | .function hname h, hd, marks, hclear, _ =>
    .function (Renaming.named_function hname hclear _) (h.renamed hd marks _)
  | .returnValue _ hvalue, hd, marks, _, _ => .returnValue rfl (hvalue.renamed hd marks _)
  | .classDecl hname hbody, hd, marks, hclear, _ =>
    .classDecl ⟨rfl, hname, fun hmark => hclear hmark _ (List.mem_singleton_self _) rfl⟩
      (hbody.renamed hd.2 marks _ _)
  | .subclassDecl hname hparent hbody, hd, marks, hclear, _ =>
    .subclassDecl ⟨rfl, hname, fun hmark => hclear hmark _ (List.mem_singleton_self _) rfl⟩
      (hparent.renamed hd.1 marks _) (hbody.renamed hd.2 marks _ _)
  | .traitDecl hname hbody, hd, marks, hclear, _ =>
    .traitDecl ⟨rfl, hname, fun hmark => hclear hmark _ (List.mem_singleton_self _) rfl⟩
      (hbody.renamed hd marks _ _)

theorem Stmt.AlikeAll.renamed {m : List Bool} {statements statements' : List Stmt} :
    Stmt.AlikeAll (.suiting r) m statements statements' →
    Stmt.DistinctAll statements → (marks : List Bool) →
    r.Clear marks (Stmt.declaresAll statements) → (path : List Nat) →
    Stmt.AlikeAll (.renaming r) marks statements (Stmt.renamedAll r marks path statements)
  | .nil, _, _, _, _ => .nil
  | .cons h hrest, hd, marks, hclear, _ =>
    .cons (h.renamed hd.1 marks (hclear.of_subset (List.subset_append_left ..)) _)
      (hrest.renamed hd.2 marks (hclear.of_subset (List.subset_append_right ..)) _)

theorem Stmt.Alike?.renamed {m : List Bool} {stmt stmt' : Option Stmt} :
    Stmt.Alike? (.suiting r) m stmt stmt' → Stmt.Distinct? stmt → (marks : List Bool) →
    r.Clear marks (Stmt.declares? stmt) → (path : List Nat) →
    Stmt.Alike? (.renaming r) marks stmt (Stmt.renamed? r marks path stmt)
  | .none, _, _, _, _ => .none
  | .some h, hd, marks, hclear, _ => .some (h.renamed hd marks hclear _)

end

end Renamed

end TraitScript
