import TraitScript.Proofs.Method.Parents
import TraitScript.Proofs.Parse.Written
import TraitScript.Proofs.Scope.Trace
import TraitScript.Session

/-!
# Declarations of classes and traits happen at once

In text a class or trait gives its superclass and the traits that it uses by name. A declaration
that fails, at whatever point, has changed nothing but the count of identities, and one that
succeeds has changed a single binding in what was there before.
-/

namespace TraitScript

open Eval

/-! ### Declarations in text -/

/-- A statement in a program, or in a function inside an expression, that was read from text. -/
inductive Stmt.IsRead (stmt : Stmt) : Prop
  | program {source : Source} {firstId : Nat} {p : Place}
      (hpart : (p, stmt) ∈ programParts (parseProgram (.ofSource source) firstId).value)
  | expression {source : Source} {firstId : Nat} {expr : Expr} {p : Place}
      (hexpr : (parseExpression (.ofSource source) firstId).value = some expr)
      (hpart : (p, stmt) ∈ expr.parts .top)

/-- The name of the class or trait that a statement declares. -/
def Stmt.typeName? : Stmt → Option Token
  | .classDecl name _ _ | .traitDecl name _ => some name
  | _ => none

/-- The superclass and the traits that a declaration refers to. -/
def Stmt.parents : Stmt → List Expr
  | .classDecl _ parent body => parent.toList ++ body.traits
  | .traitDecl _ body => body.traits
  | _ => []

theorem Stmt.IsRead.genuine {stmt : Stmt} (h : stmt.IsRead) : ∃ p, Uses.Genuine (stmt.uses p) := by
  cases h with
  | @program source firstId p hpart =>
      exact ⟨p, fun u hu => (parseProgram_written source firstId).2.meets u
        ((Resolve.traces_stmts _ .top).within _ hpart hu)⟩
  | @expression source firstId expr p hexpr hpart =>
      have hwritten := (parseExpression_written source firstId).2 expr hexpr .top
      exact ⟨p, fun u hu => hwritten.meets u ((Resolve.inspects_expr expr .top).within _ hpart hu)⟩

theorem Stmt.IsRead.variable_of_mem_parents {stmt : Stmt} (h : stmt.IsRead) :
    ∀ expr ∈ stmt.parents, ∃ id name, expr = .variable id name := by
  obtain ⟨p, huses⟩ := h.genuine
  unfold Stmt.parents
  split
  next name parent body =>
    cases parent with
    | none =>
        simp only [Stmt.uses, List.cons_append, Uses.genuine_cons, Uses.genuine_append] at huses
        exact ClassBody.variable_of_mem_traits huses.2.1
    | some parent =>
        simp only [Stmt.uses, List.cons_append, Uses.genuine_cons, Uses.genuine_append] at huses
        exact List.forall_mem_cons.2 ⟨huses.2.1, ClassBody.variable_of_mem_traits huses.2.2.1.2⟩
  next name body =>
    simp only [Stmt.uses, List.cons_append, Uses.genuine_cons, Uses.genuine_append] at huses
    exact ClassBody.variable_of_mem_traits huses.2.1
  next => exact fun expr hexpr => absurd hexpr List.not_mem_nil

/-! ### What was there before -/

/-- Another machine in which a name of the current frame is bound to a value, while everything else
that was there before is the same. -/
structure Machine.Binds (m m' : Machine) (name : String) (v : Value) : Prop where
  current : m'.current = m.current
  globals : m'.globals = m.globals
  output : m'.output = m.output
  world : m'.world = m.world
  natives : m'.natives = m.natives
  distances : m'.distances = m.distances
  fields : ∀ holder < m.fields.size, m'.fields[holder]? = m.fields[holder]?
  enclosing : ∀ frame < m.frames.size, m'.frames.enclosing? frame = m.frames.enclosing? frame
  slots : ∀ frame < m.frames.size, ∀ other, (m'.frames.slots frame).find? other =
    if frame = m.current ∧ name = other then some (some v) else (m.frames.slots frame).find? other

/-- The class or trait that a declaration makes. -/
def Stmt.Makes : Stmt → Value → Prop
  | .classDecl name _ _, .classValue definition => definition.name = name.lexeme
  | .traitDecl name _, .traitValue definition => definition.name = name.lexeme
  | _, _ => False

theorem FrameStore.find?_slots_define {α : Type} {store : FrameStore α} {frame : FrameId}
    (hframe : frame < store.size) (current : FrameId) (name other : String) (v : α) :
    ((store.define current name v).slots frame).find? other =
      if frame = current ∧ name = other then some (some v)
      else (store.slots frame).find? other := by
  rw [define, find?_slots_bind]
  by_cases hcurrent : frame = current
  · subst hcurrent
    simp [hframe]
  · simp [hcurrent]

theorem Machine.binds_addTrait (m : Machine) (name : Token) (body : ClassBody) (used : Members) :
    m.Binds (m.addTrait name body used) name.lexeme (.traitValue (m.newTrait name body used)) where
  current := rfl
  globals := rfl
  output := rfl
  world := rfl
  natives := rfl
  distances := rfl
  fields _ _ := rfl
  enclosing frame _ := FrameStore.enclosing?_bind _ _ frame _ _
  slots _ hframe other := FrameStore.find?_slots_define hframe m.current name.lexeme other _

theorem Machine.slots_addSuper (m : Machine) (declaration : Stmt) (superclass : Option Class)
    {frame : FrameId} (hframe : frame < m.frames.size) :
    frame < (m.addSuper declaration superclass).frames.size ∧
      (m.addSuper declaration superclass).frames.slots frame = m.frames.slots frame ∧
      (m.addSuper declaration superclass).frames.enclosing? frame = m.frames.enclosing? frame := by
  cases superclass with
  | none => exact ⟨hframe, rfl, rfl⟩
  | some definition =>
      refine ⟨Nat.lt_of_lt_of_eq (Nat.lt_succ_of_lt hframe) (FrameStore.size_add _ _).symm, ?_, ?_⟩
      · exact (FrameStore.slots_add _ _ frame).trans (if_neg (Nat.ne_of_lt hframe))
      · exact (FrameStore.enclosing?_add _ _ frame).trans (if_neg (Nat.ne_of_lt hframe))

theorem Machine.binds_addClass (m : Machine) (name : Token) (parent : Option Expr)
    (body : ClassBody) (superclass : Option Class) (used : Members) :
    m.Binds (m.addClass name parent body superclass used) name.lexeme
      (.classValue (m.newClass name body superclass used)) where
  current := by cases superclass <;> rfl
  globals := by cases superclass <;> rfl
  output := by cases superclass <;> rfl
  world := by cases superclass <;> rfl
  natives := by cases superclass <;> rfl
  distances := by cases superclass <;> rfl
  fields holder hholder := by
    rw [addClass, Array.getElem?_push, if_neg (Nat.ne_of_lt hholder)]
  enclosing frame hframe := by
    obtain ⟨-, -, henclosing⟩ := m.slots_addSuper (.classDecl name parent body) superclass hframe
    exact (FrameStore.enclosing?_bind _ _ frame _ _).trans henclosing
  slots frame hframe other := by
    obtain ⟨hlt, hslots, -⟩ := m.slots_addSuper (.classDecl name parent body) superclass hframe
    rw [addClass, FrameStore.find?_slots_define hlt, hslots]

theorem binds_or_stops (fuel : Nat) {stmt : Stmt} {name : Token}
    (hparents : ∀ expr ∈ stmt.parents, ∃ id name, expr = .variable id name)
    (hname : stmt.typeName? = some name) (m : Machine) :
    (∃ v m', execute fuel stmt m = .ok .normal m' ∧ stmt.Makes v ∧ m.Binds m' name.lexeme v) ∨
      ∃ stop count, execute fuel stmt m = .error stop { m with nextId := m.nextId + count } := by
  cases fuel with
  | zero => exact .inr ⟨.outOfFuel, 0, rfl⟩
  | succ fuel =>
      unfold Stmt.typeName? at hname
      split at hname
      next parent body =>
        cases hname
        rcases declareClass_cases fuel name hparents m with ⟨superclass, used, -, heq⟩ | ⟨stop, heq⟩
        · refine .inl ⟨.classValue (m.newClass name body superclass used), _, heq, rfl,
            m.binds_addClass name parent body superclass used⟩
        · exact .inr ⟨stop, 0, heq⟩
      next body =>
        cases hname
        rcases declareTrait_cases fuel name hparents m with ⟨used, heq⟩ | ⟨stop, count, heq⟩
        · exact .inl ⟨.traitValue (m.newTrait name body used), _, heq, rfl,
            m.binds_addTrait name body used⟩
        · exact .inr ⟨stop, count, heq⟩
      next => cases hname

/-- A declaration of a class or trait that was read from text either fails, and then nothing has
changed but the count of identities, or binds its name in the current frame to a class or trait of
that name, and then that is all that has changed in what was there before. -/
theorem declarations_happen_at_once (fuel : Nat) (stmt : Stmt) (name : Token) (hread : stmt.IsRead)
    (hname : stmt.typeName? = some name) (m : Machine) :
    (∀ stop m', execute fuel stmt m = .error stop m' → m' = { m with nextId := m'.nextId }) ∧
      ∀ flow m', execute fuel stmt m = .ok flow m' → ∃ v, stmt.Makes v ∧
        m.Binds m' name.lexeme v := by
  rcases binds_or_stops fuel hread.variable_of_mem_parents hname m with
    ⟨v, m', heq, hmakes, hbinds⟩ | ⟨stop, count, heq⟩
  · rw [heq]
    refine ⟨nofun, ?_⟩
    rintro flow _ ⟨⟩
    exact ⟨v, hmakes, hbinds⟩
  · rw [heq]
    refine ⟨?_, nofun⟩
    rintro _ _ ⟨⟩
    rfl

/-- A trait that uses what another declaration of its name has left. -/
def redeclaringProgram : Source := Utf8.encode "class T \x7b\x7d trait T \x7b use T; \x7d"

/-- The machine in which `T` is a class. -/
def redeclaringMachine : Machine :=
  (Session.program 9 (Session.start [] {}) redeclaringProgram).2.machine

/-- Whether a statement declares a trait and fails where `T` is a class. -/
def failsToDeclare (part : Place × Stmt) : Bool :=
  match part with
  | (_, .traitDecl name body) =>
    match execute 9 (.traitDecl name body) redeclaringMachine with
    | .ok _ _ => false
    | .error _ _ => true
  | _ => false

theorem declarations_happen_at_once_redeclaring :
    ∃ stmt name stop m', stmt.IsRead ∧ stmt.typeName? = some name ∧
      execute 9 stmt redeclaringMachine = .error stop m' ∧
      m' = { redeclaringMachine with nextId := m'.nextId } := by
  have hany : (programParts (parseProgram (.ofSource redeclaringProgram) 0).value).any
      failsToDeclare = true := by decide +kernel
  obtain ⟨⟨p, part⟩, hpart, hfails⟩ := List.any_eq_true.1 hany
  unfold failsToDeclare at hfails
  split at hfails
  next p name body heq =>
    cases heq
    split at hfails
    next => cases hfails
    next stop m' hresult =>
      have hread : (Stmt.traitDecl name body).IsRead := .program hpart
      exact ⟨_, name, stop, m', hread, rfl, hresult,
        (declarations_happen_at_once 9 _ name hread rfl redeclaringMachine).1 stop m' hresult⟩
  next => cases hfails

end TraitScript
