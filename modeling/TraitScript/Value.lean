import TraitScript.Frame
import TraitScript.Number.Written
import TraitScript.Tree

/-!
# Values

Numbers, strings, booleans and `nil` are plain data. Functions, classes, instances and traits have
an identity besides their contents: two of them are equal only if they are the same one. The fields
of an instance or class change, so they are kept by identity in the machine and not in the value.
-/

namespace TraitScript

structure Closure where
  id : Nat
  decl : FunctionDecl
  frame : FrameId
  /-- Whether calling it yields the receiver it is bound to. -/
  isInitializer : Bool

namespace Closure

def name? (closure : Closure) : Option String := closure.decl.name.map (·.lexeme)

def arity (closure : Closure) : Nat := closure.decl.params.length

def isGetter (closure : Closure) : Bool := closure.decl.isGetter

end Closure

abbrev MethodTable := Table Closure

/-- The class that a class itself is an instance of. Class methods are its methods. -/
structure Metaclass where
  name : String
  superclass : Option Metaclass
  methods : MethodTable

/-- A class: its own methods, those of its traits included, its metaclass and its superclass. -/
structure Class where
  id : Nat
  name : String
  metaclass : Metaclass
  superclass : Option Class
  methods : MethodTable

/-- The nearest method of a name, from the metaclass outward through its superclasses. -/
def Metaclass.findMethod (name : String) : Metaclass → Option Closure
  | ⟨_, superclass, methods⟩ =>
    match methods.find? name with
    | some method => some method
    | none =>
      match superclass with
      | some parent => parent.findMethod name
      | none => none
termination_by structural c => c

theorem Metaclass.findMethod_eq (name : String) (c : Metaclass) : c.findMethod name =
    match c.methods.find? name with
    | some method => some method
    | none => c.superclass.bind (·.findMethod name) := by
  obtain ⟨_, superclass, methods⟩ := c
  cases hown : methods.find? name <;> cases superclass <;> simp [findMethod, hown]

namespace Class

/-- The nearest method of a name, from the class outward through its superclasses. -/
def findMethod (name : String) : Class → Option Closure
  | ⟨_, _, _, superclass, methods⟩ =>
    match methods.find? name with
    | some method => some method
    | none =>
      match superclass with
      | some parent => parent.findMethod name
      | none => none
termination_by structural c => c

theorem findMethod_eq (name : String) (c : Class) : c.findMethod name =
    match c.methods.find? name with
    | some method => some method
    | none => c.superclass.bind (·.findMethod name) := by
  obtain ⟨_, _, _, superclass, methods⟩ := c
  cases hown : methods.find? name <;> cases superclass <;> simp [findMethod, hown]

/-- The name of the class that the class itself is an instance of. -/
def metaclassName (c : Class) : String := c.metaclass.name

/-- Class methods are looked up on the metaclass. -/
def findClassMethod (name : String) (c : Class) : Option Closure := c.metaclass.findMethod name

def initializer? (c : Class) : Option Closure := c.findMethod initializerName

/-- A class takes the arguments of its initializer. -/
def arity (c : Class) : Nat :=
  match c.initializer? with
  | some init => init.arity
  | none => 0

end Class

structure Instance where
  id : Nat
  definingClass : Class

/-- A bundle of methods and class methods that classes and other traits use. -/
structure Trait where
  id : Nat
  name : String
  methods : MethodTable
  classMethods : MethodTable

/-- A function provided by the host; what it does is kept in the machine. -/
structure NativeRef where
  id : Nat
  name : String
  arity : Nat
  deriving DecidableEq, Repr

inductive Value where
  | nil
  | bool (value : Bool)
  | number (value : Float)
  | string (text : String)
  | function (closure : Closure)
  | native (ref : NativeRef)
  | classValue (definition : Class)
  | object (inst : Instance)
  | traitValue (definition : Trait)

instance : Inhabited Value := ⟨.nil⟩

namespace Value

/-- Everything but `nil` and `false` counts as true. -/
def isTruthy : Value → Bool
  | .nil => false
  | .bool value => value
  | _ => true

/-- Equality without conversion; what has an identity equals only itself. -/
def same : Value → Value → Bool
  | .nil, .nil => true
  | .bool a, .bool b => a == b
  | .number a, .number b => a == b
  | .string a, .string b => a == b
  | .function a, .function b => a.id == b.id
  | .native a, .native b => a.id == b.id
  | .classValue a, .classValue b => a.id == b.id
  | .object a, .object b => a.id == b.id
  | .traitValue a, .traitValue b => a.id == b.id
  | _, _ => false

/-- The text a script prints for a value. -/
def display : Value → String
  | .nil => "nil"
  | .bool true => "true"
  | .bool false => "false"
  | .number value => Number.display value
  | .string text => text
  | .function closure =>
    match closure.name? with
    | some name => "<fn " ++ name ++ ">"
    | none => "<fn>"
  | .native ref => "<native fn " ++ ref.name ++ ">"
  | .classValue definition => "<class " ++ definition.name ++ ">"
  | .object inst => "<instance " ++ inst.definingClass.name ++ ">"
  | .traitValue definition => "<trait " ++ definition.name ++ ">"

/-- The identity under which the fields of an instance or class are kept. -/
def holder? : Value → Option Nat
  | .object inst => some inst.id
  | .classValue definition => some definition.id
  | _ => none

/-- The method that a property access on an instance or class finds when there is no field. -/
def findMethod (name : String) : Value → Option Closure
  | .object inst => inst.definingClass.findMethod name
  | .classValue definition => definition.findClassMethod name
  | _ => none

end Value
end TraitScript
