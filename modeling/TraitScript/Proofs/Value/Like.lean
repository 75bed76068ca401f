import TraitScript.Eval.Operator
import TraitScript.Proofs.Table.Alike

/-!
# Values with other functions in them

Two values are like each other when they are the same data, or functions, classes, instances and
traits with the same identity in which functions and methods stand for others. A script that
compares, prints or combines such values, or looks for their methods, cannot tell them apart as long
as the functions have the same identities, names and numbers of parameters.
-/

namespace TraitScript

/-- Functions that look the same to a script that does not call them. -/
structure Closure.Resembles (closure closure' : Closure) : Prop where
  id : closure'.id = closure.id
  name? : closure'.name? = closure.name?
  arity : closure'.arity = closure.arity
  isGetter : closure'.isGetter = closure.isGetter

section Like

variable (F M : Closure → Closure → Prop)

/-- Methods under the same names in the same order. -/
def MethodTable.Like (methods methods' : MethodTable) : Prop :=
  Table.Alike (fun name => name) M methods methods'

/-- Classes with the same chain of superclasses but for the methods. The superclass of a metaclass
is the metaclass of the superclass. -/
inductive Class.Like : Class → Class → Prop
  | root {id : Nat} {name metaName : String}
      {methods methods' classMethods classMethods' : MethodTable}
      (hmethods : methods.Like M methods') (hclassMethods : classMethods.Like M classMethods') :
      Class.Like ⟨id, name, ⟨metaName, none, classMethods⟩, none, methods⟩
        ⟨id, name, ⟨metaName, none, classMethods'⟩, none, methods'⟩
  | derived {id : Nat} {name metaName : String} {parent parent' : Class}
      {methods methods' classMethods classMethods' : MethodTable}
      (hparent : Class.Like parent parent') (hmethods : methods.Like M methods')
      (hclassMethods : classMethods.Like M classMethods') :
      Class.Like ⟨id, name, ⟨metaName, some parent.metaclass, classMethods⟩, some parent, methods⟩
        ⟨id, name, ⟨metaName, some parent'.metaclass, classMethods'⟩, some parent', methods'⟩

/-- Values in which one relation holds between functions and another between the methods of
tables. -/
inductive Value.Like : Value → Value → Prop
  | nil : Value.Like .nil .nil
  | bool (value : Bool) : Value.Like (.bool value) (.bool value)
  | number (value : Float) : Value.Like (.number value) (.number value)
  | string (text : String) : Value.Like (.string text) (.string text)
  | function {closure closure' : Closure} (h : F closure closure') :
      Value.Like (.function closure) (.function closure')
  | native (ref : NativeRef) : Value.Like (.native ref) (.native ref)
  | classValue {definition definition' : Class} (h : definition.Like M definition') :
      Value.Like (.classValue definition) (.classValue definition')
  | object (id : Nat) {definition definition' : Class} (h : definition.Like M definition') :
      Value.Like (.object ⟨id, definition⟩) (.object ⟨id, definition'⟩)
  | traitValue (id : Nat) (name : String)
      {methods methods' classMethods classMethods' : MethodTable}
      (hmethods : methods.Like M methods')
      (hclassMethods : classMethods.Like M classMethods') :
      Value.Like (.traitValue ⟨id, name, methods, classMethods⟩)
        (.traitValue ⟨id, name, methods', classMethods'⟩)

end Like

variable {F M F' M' : Closure → Closure → Prop}

/-! ### Weakening -/

section Weakening

theorem MethodTable.Like.imp (hM : ∀ {c c'}, M c c' → M' c c') {methods methods' : MethodTable}
    (h : methods.Like M methods') :
    methods.Like M' methods' :=
  Table.Alike.imp h hM

theorem Class.Like.imp (hM : ∀ {c c'}, M c c' → M' c c') {definition definition' : Class}
    (h : definition.Like M definition') :
    definition.Like M' definition' := by
  induction h with
  | root hmethods hclassMethods => exact .root (hmethods.imp hM) (hclassMethods.imp hM)
  | derived _ hmethods hclassMethods ih =>
    exact .derived ih (hmethods.imp hM) (hclassMethods.imp hM)

theorem Value.Like.imp (hF : ∀ {c c'}, F c c' → F' c c') (hM : ∀ {c c'}, M c c' → M' c c')
    {v v' : Value} (h : v.Like F M v') :
    v.Like F' M' v' := by
  cases h with
  | nil => exact .nil
  | bool value => exact .bool value
  | number value => exact .number value
  | string text => exact .string text
  | function h => exact .function (hF h)
  | native ref => exact .native ref
  | classValue h => exact .classValue (h.imp hM)
  | object id h => exact .object id (h.imp hM)
  | traitValue id name hmethods hclassMethods =>
    exact .traitValue id name (hmethods.imp hM) (hclassMethods.imp hM)

end Weakening

/-! ### Looking methods up -/

theorem MethodTable.Like.find? {methods methods' : MethodTable} (h : methods.Like M methods')
    (name : String) :
    Option.Rel M (methods.find? name) (methods'.find? name) :=
  Table.Alike.find? h (Table.distinguishes_of_injective Function.injective_id methods name)

theorem MethodTable.Like.contains {methods methods' : MethodTable} (h : methods.Like M methods')
    (name : String) :
    methods'.contains name = methods.contains name :=
  Table.Alike.contains h (Table.distinguishes_of_injective Function.injective_id methods name)

theorem MethodTable.Like.insert {methods methods' : MethodTable} (h : methods.Like M methods')
    (name : String) {method method' : Closure} (hmethod : M method method') :
    MethodTable.Like M (methods.insert name method) (methods'.insert name method') :=
  Table.Alike.insert h
    (Table.distinguishes_of_injective Function.injective_id methods name) rfl hmethod

theorem MethodTable.Like.arrange {methods methods' : MethodTable} (h : methods.Like M methods')
    (rank : String → Nat) : MethodTable.Like M (methods.arrange rank) (methods'.arrange rank) :=
  Table.Alike.arrange h fun _ => rfl

theorem Class.Like.id_eq {definition definition' : Class} (h : definition.Like M definition') :
    definition'.id = definition.id := by
  cases h <;> rfl

theorem Class.Like.name_eq {definition definition' : Class} (h : definition.Like M definition') :
    definition'.name = definition.name := by
  cases h <;> rfl

/-- The nearest method is found in the same class of both chains. -/
theorem Class.Like.findMethod {definition definition' : Class} (h : definition.Like M definition')
    (name : String) :
    Option.Rel M (definition.findMethod name) (definition'.findMethod name) := by
  induction h with
  | root hmethods _ =>
      rw [Class.findMethod_eq, Class.findMethod_eq]
      rcases rel_cases (hmethods.find? name) with
        ⟨hleft, hright⟩ | ⟨method, method', hleft, hright, hmethod⟩
      · simp only [hleft, hright]
        exact .none
      · simp only [hleft, hright]
        exact .some hmethod
  | derived _ hmethods _ ih =>
      rw [Class.findMethod_eq, Class.findMethod_eq]
      rcases rel_cases (hmethods.find? name) with
        ⟨hleft, hright⟩ | ⟨method, method', hleft, hright, hmethod⟩
      · simp only [hleft, hright]
        exact ih
      · simp only [hleft, hright]
        exact .some hmethod

theorem Class.Like.findClassMethod {definition definition' : Class}
    (h : definition.Like M definition') (name : String) :
    Option.Rel M (definition.findClassMethod name) (definition'.findClassMethod name) := by
  induction h with
  | root _ hclassMethods =>
      rw [Class.findClassMethod, Class.findClassMethod, Metaclass.findMethod_eq,
        Metaclass.findMethod_eq]
      rcases rel_cases (hclassMethods.find? name) with
        ⟨hleft, hright⟩ | ⟨method, method', hleft, hright, hmethod⟩
      · simp only [hleft, hright]
        exact .none
      · simp only [hleft, hright]
        exact .some hmethod
  | derived _ _ hclassMethods ih =>
      rw [Class.findClassMethod, Class.findClassMethod, Metaclass.findMethod_eq,
        Metaclass.findMethod_eq]
      rcases rel_cases (hclassMethods.find? name) with
        ⟨hleft, hright⟩ | ⟨method, method', hleft, hright, hmethod⟩
      · simp only [hleft, hright]
        exact ih
      · simp only [hleft, hright]
        exact .some hmethod

theorem Class.Like.arity_eq (hM : ∀ {c c'}, M c c' → c.Resembles c')
    {definition definition' : Class} (h : definition.Like M definition') :
    definition'.arity = definition.arity := by
  unfold Class.arity Class.initializer?
  rcases rel_cases (h.findMethod initializerName) with
    ⟨hleft, hright⟩ | ⟨method, method', hleft, hright, hmethod⟩
  · rw [hleft, hright]
  · rw [hleft, hright]
    exact (hM hmethod).arity

/-! ### What a script can tell -/

section Observations

variable {v v' u u' : Value}

theorem Value.Like.isTruthy_eq (h : v.Like F M v') : v'.isTruthy = v.isTruthy := by
  cases h <;> rfl

theorem Value.Like.typeName_eq (h : v.Like F M v') : v'.typeName = v.typeName := by
  cases h <;> rfl

theorem Value.Like.holder?_eq (h : v.Like F M v') : v'.holder? = v.holder? := by
  cases h with
  | classValue h => simp only [Value.holder?, h.id_eq]
  | _ => rfl

theorem Value.Like.findMethod (h : v.Like F M v') (name : String) :
    Option.Rel M (v.findMethod name) (v'.findMethod name) := by
  cases h with
  | classValue h => exact h.findClassMethod name
  | object id h => exact h.findMethod name
  | _ => exact .none

theorem Value.like_ofLiteral (value : Literal) :
    (Value.ofLiteral value).Like F M (.ofLiteral value) := by
  cases value with
  | number value => exact .number value
  | string text => exact .string text
  | bool value => exact .bool value
  | nil => exact .nil

variable (hF : ∀ {c c'}, F c c' → c.Resembles c')

include hF

theorem Value.Like.display_eq (h : v.Like F M v') : v'.display = v.display := by
  cases h with
  | function h => simp only [Value.display, (hF h).name?]
  | classValue h => simp only [Value.display, h.name_eq]
  | object id h => simp only [Value.display, h.name_eq]
  | _ => rfl

/-- What has an identity equals only itself, and identities are the same on both sides. -/
theorem Value.Like.same_eq (h : v.Like F M v') (h' : u.Like F M u') : v'.same u' = v.same u := by
  cases h with
  | function h => cases h' with
    | function h' => simp only [Value.same, (hF h).id, (hF h').id]
    | _ => rfl
  | classValue h => cases h' with
    | classValue h' => simp only [Value.same, h.id_eq, h'.id_eq]
    | _ => rfl
  | _ => cases h' <;> rfl

end Observations

/-! ### Operators -/

namespace Operator

/-- Results of an operator: the same error, or values that are like each other. -/
inductive Like (F M : Closure → Closure → Prop) : Result → Result → Prop
  | ok {v v' : Value} (h : v.Like F M v') : Like F M (.ok v) (.ok v')
  | error (cause : RuntimeError.Cause) : Like F M (.error cause) (.error cause)

variable {v v' u u' : Value}

theorem like_unary (operator : Token.Kind) (h : v.Like F M v') :
    Like F M (unary operator v) (unary operator v') := by
  unfold unary
  split
  · cases h with
    | number value => exact .ok (.number _)
    | _ => exact .error _
  · rw [h.isTruthy_eq]
    exact .ok (.bool _)
  · exact .error _

theorem like_arithmetic {operation : Float → Float → Result}
    (hoperation : ∀ a b, Like F M (operation a b) (operation a b)) (h : v.Like F M v')
    (h' : u.Like F M u') : Like F M (arithmetic v u operation) (arithmetic v' u' operation) := by
  unfold arithmetic
  cases h with
  | number a => cases h' with
    | number b => exact hoperation a b
    | _ => exact .error _
  | _ => exact .error _

theorem like_divide (a b : Float) : Like F M (divide a b) (divide a b) := by
  unfold divide
  split
  · exact .error _
  · exact .ok (.number _)

theorem compare_like (h : v.Like F M v') (h' : u.Like F M u') : compare v' u' = compare v u := by
  have hleft := h.typeName_eq
  have hright := h'.typeName_eq
  cases h <;> cases h' <;> simp only [compare, hleft, hright]

theorem like_ordered (test : Ordering → Bool) (h : v.Like F M v') (h' : u.Like F M u') :
    Like F M (ordered v u test) (ordered v' u' test) := by
  unfold ordered
  rw [compare_like h h']
  cases compare v u with
  | ok order => exact .ok (.bool _)
  | error cause => exact .error cause

theorem isDecided_like (operator : Token.Kind) (h : v.Like F M v') :
    isDecided operator v' = isDecided operator v := by
  unfold isDecided
  rw [h.isTruthy_eq]

variable (hF : ∀ {c c'}, F c c' → c.Resembles c')

include hF

theorem like_add (h : v.Like F M v') (h' : u.Like F M u') : Like F M (add v u) (add v' u') := by
  have hleft := h.display_eq hF
  have hright := h'.display_eq hF
  cases h <;> cases h' <;> simp only [add, hleft, hright] <;>
    first | exact .error _ | exact .ok (.number _) | exact .ok (.string _)

theorem like_binary (operator : Token.Kind) (h : v.Like F M v') (h' : u.Like F M u') :
    Like F M (binary operator v u) (binary operator v' u') := by
  unfold binary
  split
  · exact .ok h'
  · exact like_add hF h h'
  · exact like_arithmetic (fun _ _ => .ok (.number _)) h h'
  · exact like_arithmetic (fun _ _ => .ok (.number _)) h h'
  · exact like_arithmetic like_divide h h'
  · exact like_ordered _ h h'
  · exact like_ordered _ h h'
  · exact like_ordered _ h h'
  · exact like_ordered _ h h'
  · rw [h.same_eq hF h']
    exact .ok (.bool _)
  · rw [h.same_eq hF h']
    exact .ok (.bool _)
  · exact .error _

end Operator

end TraitScript
