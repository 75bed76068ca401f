import TraitScript.Eval.Function

/-!
# Classes, traits and properties

Members of used traits are merged first, and two traits must not provide the same name. A class then
puts its own members over them, while a trait must not repeat a name. Declaring a class or trait
changes nothing before all of this has succeeded.
-/

namespace TraitScript.Eval

/-! ### Traits -/

/-- Methods and class methods of traits. -/
structure Members where
  methods : MethodTable := ∅
  classMethods : MethodTable := ∅
  /-- The traits themselves; only the record of a declaration needs them. -/
  traits : List Trait := []

/-- Adds entries to a table in which none of their names may occur. -/
def merge (line : Option Nat) (conflict : String → RuntimeError.Cause) :
    List (String × Closure) → MethodTable → Eval MethodTable
  | [], table => pure table
  | (name, method) :: rest, table =>
    if table.contains name then raise line (conflict name)
    else merge line conflict rest (table.insert name method)

/-- Adds the entries of one of the tables of a trait. -/
def mergeTable (line : Option Nat) (conflict : String → RuntimeError.Cause) (used : Trait)
    (ofClass : Bool) (theirs table : MethodTable) : Eval MethodTable := do
  let entries ← walk used ofClass theirs
  merge line conflict entries table

def evaluateTrait (self : Evaluators) (expr : Expr) : Eval Trait := do
  match ← self.evaluate expr with
  | .traitValue definition => pure definition
  | other =>
    match expr.name? with
    | some name => raiseAt name (.notTrait name.lexeme)
    | none => raise none (.notTrait other.display)

/-- Adds the members of used traits, one trait after another. -/
def useTraits (self : Evaluators) : List Expr → Members → Eval Members
  | [], members => pure members
  | expr :: rest, members => do
    let used ← evaluateTrait self expr
    let line := expr.name?.map (·.line)
    let methods ← mergeTable line .methodConflict used false used.methods members.methods
    let classMethods ← mergeTable line .classMethodConflict used true used.classMethods
      members.classMethods
    useTraits self rest { methods, classMethods, traits := members.traits ++ [used] }

/-- The line of a declared method, or of the trait around it. -/
def declLine (owner : Token) (decl : FunctionDecl) : Nat := (decl.name.getD owner).line

/-- Adds a trait's own methods, whose names must be new. -/
def addNewMethods (owner : Token) (conflict : String → RuntimeError.Cause) (frame : FrameId)
    (isInitializer : String → Bool) :
    List FunctionDecl → MethodTable → Eval MethodTable
  | [], table => pure table
  | decl :: rest, table => do
    if table.contains decl.key then raise (some (declLine owner decl)) (conflict decl.key)
    else
      let method ← makeClosure decl frame (isInitializer decl.key)
      addNewMethods owner conflict frame isInitializer rest (table.insert decl.key method)

def isInitializerName (name : String) : Bool := name == initializerName

def declareTrait (self : Evaluators) (name : Token) (body : ClassBody) : Eval Flow := do
  let used ← useTraits self body.traits {}
  let frame ← currentFrame
  let classMethods ← addNewMethods name .classMethodConflict frame (fun _ => false)
    body.classMethods used.classMethods
  let methods ← addNewMethods name .methodConflict frame isInitializerName body.methods used.methods
  let product := Value.traitValue { id := ← freshId, name := name.lexeme, methods, classMethods }
  define frame name.lexeme product
  record { product, declaration := .traitDecl name body, frame, used := used.traits }
  return .normal

/-! ### Classes -/

def evaluateSuperclass (self : Evaluators) (name : Token) : Option Expr → Eval (Option Class)
  | none => pure none
  | some expr => do
    match ← self.evaluate expr with
    | .classValue definition => pure (some definition)
    | _ => raiseAt (expr.name?.getD name) .superclassNotClass

/-- Puts a class's own methods over those it already has. -/
def addMethods (frame : FrameId) (isInitializer : String → Bool) :
    List FunctionDecl → MethodTable → Eval MethodTable
  | [], table => pure table
  | decl :: rest, table => do
    let method ← makeClosure decl frame (isInitializer decl.key)
    addMethods frame isInitializer rest (table.insert decl.key method)

/-- For a subclass, goes on in a new frame that binds `super`. -/
def enterSuperclass (declaration : Stmt) : Option Class → Eval Unit
  | none => pure ()
  | some superclass => do
    let frame ← newFrame (.superclass declaration superclass) (← currentFrame)
    define frame "super" (.classValue superclass)
    switchTo frame

def declareClass (self : Evaluators) (name : Token) (parent : Option Expr) (body : ClassBody) :
    Eval Flow := do
  let superclass ← evaluateSuperclass self name parent
  let used ← useTraits self body.traits {}
  let enclosing ← currentFrame
  enterSuperclass (.classDecl name parent body) superclass
  let frame ← currentFrame
  let classMethods ← addMethods frame (fun _ => false) body.classMethods used.classMethods
  let metaclass : Metaclass :=
    { name := name.lexeme ++ " meta", superclass := superclass.map (·.metaclass),
      methods := classMethods }
  let methods ← addMethods frame isInitializerName body.methods used.methods
  let product :=
    Value.classValue { id := ← newHolder, name := name.lexeme, metaclass, superclass, methods }
  switchTo enclosing
  define enclosing name.lexeme product
  record { product, declaration := .classDecl name parent body, frame, used := used.traits }
  return .normal

/-! ### Properties -/

/-- Binds a method to a receiver; a getter is run at once. -/
def bindMethod (self : Evaluators) (method : Closure) (receiver : Value) : Eval Value := do
  let bound ← bindReceiver method receiver
  if bound.isGetter then callClosure self bound [] else pure (.function bound)

/-- Reads a property: fields come before methods. -/
def getProperty (self : Evaluators) (object : Value) (name : Token) : Eval Value := do
  match object.holder? with
  | none => raiseAt name .propertyOfNonInstance
  | some holder =>
    match ← field? holder name.lexeme with
    | some value => pure value
    | none =>
      match object.findMethod name.lexeme with
      | some method => bindMethod self method object
      | none => raiseAt name (.undefinedProperty name.lexeme)

/-- The distance of `this` where `super` has a given one: one frame further in. Distances are words
of 64 bits. -/
def receiverDistance : Nat → Nat
  | 0 => Binary.twoTo 64 - 1
  | distance + 1 => distance

/-- The method that `super` finds: in a class method among the class methods of the superclass. -/
def superMethod (superclass : Class) (receiver : Value) (name : String) : Option Closure :=
  match receiver with
  | .classValue _ => superclass.findClassMethod name
  | _ => superclass.findMethod name

/-- The class to which `super` is bound at a distance. -/
def readSuperclass (distance : Nat) : Eval Class := do
  match ← readAt (← currentFrame) distance "super" with
  | .ok (.classValue superclass) => pure superclass
  | .error (.chainEnded hops distance) => fault (.chainEnded hops distance)
  | _ => fault .superNotClass

/-- The receiver of the method around an occurrence of `super` at a distance. -/
def readReceiver (distance : Nat) (keyword : Token) : Eval Value := do
  match ← readAt (← currentFrame) (receiverDistance distance) "this" with
  | .ok receiver => pure receiver
  | .error error => throw (.ofFrameError (some keyword.line) error)

/-- Reads a method of the superclass, bound to the receiver of the method around it. -/
def getSuper (self : Evaluators) (id : Nat) (keyword method : Token) : Eval Value := do
  match ← distance? id with
  | none => fault .superNotResolved
  | some distance =>
    let superclass ← readSuperclass distance
    let receiver ← readReceiver distance keyword
    match superMethod superclass receiver method.lexeme with
    | some found => bindMethod self found receiver
    | none => raiseAt method (.undefinedProperty method.lexeme)

end TraitScript.Eval
