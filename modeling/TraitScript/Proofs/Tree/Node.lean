import Mathlib.Logic.Relation
import TraitScript.Tree

/-!
# Nodes of trees

Expressions, statements, functions and class bodies as nodes of one kind, each with the nodes right
below it. A condition on nodes holds all over a tree if it holds of the root and all over the trees
right below.
-/

namespace TraitScript

inductive Node where
  | expr (expr : Expr)
  | function (decl : FunctionDecl)
  | body (body : ClassBody)
  | stmt (stmt : Stmt)

namespace Node

/-- The nodes right below a node. -/
def children : Node → List Node
  | .expr (.literal _) | .expr (.variable ..) | .expr (.this ..) | .expr (.super ..) => []
  | .expr (.group inner) => [.expr inner]
  | .expr (.unary _ right) => [.expr right]
  | .expr (.binary left _ right) | .expr (.logical left _ right) => [.expr left, .expr right]
  | .expr (.conditional condition thenBranch elseBranch) =>
    [.expr condition, .expr thenBranch, .expr elseBranch]
  | .expr (.assign _ _ value) => [.expr value]
  | .expr (.call callee _ arguments) => .expr callee :: arguments.map .expr
  | .expr (.function decl) => [.function decl]
  | .expr (.get object _) => [.expr object]
  | .expr (.set object _ value) => [.expr object, .expr value]
  | .function ⟨_, _, statements, _⟩ => statements.map .stmt
  | .body ⟨traits, methods, classMethods⟩ =>
    traits.map .expr ++ methods.map .function ++ classMethods.map .function
  | .stmt (.expression value) | .stmt (.print value) => [.expr value]
  | .stmt (.variable _ initial) => initial.toList.map .expr
  | .stmt (.block statements) => statements.map .stmt
  | .stmt (.ifElse condition thenBranch elseBranch) =>
    .expr condition :: .stmt thenBranch :: elseBranch.toList.map .stmt
  | .stmt (.whileLoop condition inner) => [.expr condition, .stmt inner]
  | .stmt (.forLoop initial condition increment inner) =>
    .stmt inner :: (initial.toList.map .stmt ++ condition.toList.map .expr ++
      increment.toList.map .expr)
  | .stmt (.jump ..) => []
  | .stmt (.function decl) => [.function decl]
  | .stmt (.returnValue _ value) => value.toList.map .expr
  | .stmt (.classDecl _ superclass members) => .body members :: superclass.toList.map .expr
  | .stmt (.traitDecl _ members) => [.body members]

/-- The nodes of a tree, its root included. -/
def Within (root node : Node) : Prop :=
  Relation.ReflTransGen (fun node child => child ∈ node.children) root node

/-- That a condition holds of all nodes of a tree. -/
def All (P : Node → Prop) (root : Node) : Prop := ∀ node, root.Within node → P node

variable {P Q : Node → Prop} {root node : Node}

theorem all_iff : root.All P ↔ P root ∧ ∀ child ∈ root.children, child.All P := by
  constructor
  · exact fun h => ⟨h root .refl, fun child hchild node hnode => h node (.head hchild hnode)⟩
  · rintro ⟨hroot, hchildren⟩ node hnode
    rcases Relation.ReflTransGen.cases_head hnode with rfl | ⟨child, hchild, hrest⟩
    · exact hroot
    · exact hchildren child hchild node hrest

theorem All.within (h : root.All P) (hnode : root.Within node) : node.All P :=
  fun inner hinner => h inner (hnode.trans hinner)

theorem All.and (h : root.All P) (h' : root.All Q) : root.All fun node => P node ∧ Q node :=
  fun node hnode => ⟨h node hnode, h' node hnode⟩

/-! ### Induction -/

section Induction

set_option linter.unusedSectionVars false

variable (h : ∀ node : Node, (∀ child ∈ node.children, P child) → P node)
include h

mutual

theorem of_children_expr : (e : Expr) → P (.expr e)
  | .literal _ | .variable _ _ | .this _ _ | .super _ _ _ => h _ nofun
  | .group inner => h _ (List.forall_mem_singleton.2 (of_children_expr inner))
  | .unary _ right => h _ (List.forall_mem_singleton.2 (of_children_expr right))
  | .binary left _ right | .logical left _ right =>
    h _ (List.forall_mem_cons.2
      ⟨of_children_expr left, List.forall_mem_singleton.2 (of_children_expr right)⟩)
  | .conditional a b c =>
    h _ (List.forall_mem_cons.2 ⟨of_children_expr a, List.forall_mem_cons.2 ⟨of_children_expr b,
      List.forall_mem_singleton.2 (of_children_expr c)⟩⟩)
  | .assign _ _ value => h _ (List.forall_mem_singleton.2 (of_children_expr value))
  | .call callee _ arguments =>
    h _ (List.forall_mem_cons.2 ⟨of_children_expr callee, of_children_exprs arguments⟩)
  | .function decl => h _ (List.forall_mem_singleton.2 (of_children_function decl))
  | .get object _ => h _ (List.forall_mem_singleton.2 (of_children_expr object))
  | .set object _ value =>
    h _ (List.forall_mem_cons.2
      ⟨of_children_expr object, List.forall_mem_singleton.2 (of_children_expr value)⟩)

theorem of_children_exprs : (es : List Expr) → ∀ node ∈ es.map .expr, P node
  | [] => nofun
  | first :: rest => List.forall_mem_cons.2 ⟨of_children_expr first, of_children_exprs rest⟩

theorem of_children_expr? : (e : Option Expr) → ∀ node ∈ e.toList.map .expr, P node
  | none => nofun
  | some e => List.forall_mem_singleton.2 (of_children_expr e)

theorem of_children_function : (decl : FunctionDecl) → P (.function decl)
  | ⟨_, _, statements, _⟩ => h _ (of_children_stmts statements)

theorem of_children_functions : (decls : List FunctionDecl) → ∀ node ∈ decls.map .function, P node
  | [] => nofun
  | first :: rest => List.forall_mem_cons.2 ⟨of_children_function first, of_children_functions rest⟩

theorem of_children_body : (members : ClassBody) → P (.body members)
  | ⟨traits, methods, classMethods⟩ => h _ (List.forall_mem_append.2 ⟨List.forall_mem_append.2
      ⟨of_children_exprs traits, of_children_functions methods⟩,
      of_children_functions classMethods⟩)

theorem of_children_stmt : (s : Stmt) → P (.stmt s)
  | .expression value | .print value => h _ (List.forall_mem_singleton.2 (of_children_expr value))
  | .variable _ initial => h _ (of_children_expr? initial)
  | .block statements => h _ (of_children_stmts statements)
  | .ifElse condition thenBranch elseBranch =>
    h _ (List.forall_mem_cons.2 ⟨of_children_expr condition, List.forall_mem_cons.2
      ⟨of_children_stmt thenBranch, of_children_stmt? elseBranch⟩⟩)
  | .whileLoop condition inner =>
    h _ (List.forall_mem_cons.2
      ⟨of_children_expr condition, List.forall_mem_singleton.2 (of_children_stmt inner)⟩)
  | .forLoop initial condition increment inner =>
    h _ (List.forall_mem_cons.2 ⟨of_children_stmt inner, List.forall_mem_append.2
      ⟨List.forall_mem_append.2 ⟨of_children_stmt? initial, of_children_expr? condition⟩,
        of_children_expr? increment⟩⟩)
  | .jump _ _ => h _ nofun
  | .function decl => h _ (List.forall_mem_singleton.2 (of_children_function decl))
  | .returnValue _ value => h _ (of_children_expr? value)
  | .classDecl _ superclass members =>
    h _ (List.forall_mem_cons.2 ⟨of_children_body members, of_children_expr? superclass⟩)
  | .traitDecl _ members => h _ (List.forall_mem_singleton.2 (of_children_body members))

theorem of_children_stmts : (statements : List Stmt) → ∀ node ∈ statements.map .stmt, P node
  | [] => nofun
  | first :: rest => List.forall_mem_cons.2 ⟨of_children_stmt first, of_children_stmts rest⟩

theorem of_children_stmt? : (s : Option Stmt) → ∀ node ∈ s.toList.map .stmt, P node
  | none => nofun
  | some s => List.forall_mem_singleton.2 (of_children_stmt s)

end

/-- What holds of a node whenever it holds of the nodes right below, holds of all nodes. -/
theorem of_children : ∀ node, P node
  | .expr e => of_children_expr h e
  | .function decl => of_children_function h decl
  | .body members => of_children_body h members
  | .stmt s => of_children_stmt h s

end Induction

end Node
end TraitScript
