import Std.Data.TreeMap
import TraitScript.Machine.Native
import TraitScript.Machine.World
import TraitScript.Resolve.Walk

/-!
# The machine

The state of a running script: its frames and which of them is current, the fields of its objects,
the distances that resolving has found, what was written, and the outside world. Every frame keeps
the part of the program it was made for, and every class and trait the declaration it was made by;
nothing a script does depends on that.
-/

namespace TraitScript

/-- The scope that a frame was made for. -/
inductive Origin where
  | globals
  | block (statements : List Stmt)
  /-- The clauses and the body of a `for`. -/
  | loop (statement : Stmt)
  /-- The parameters and the body of a function. -/
  | call (decl : FunctionDecl)
  /-- Around a method, where `this` is bound. -/
  | receiver (decl : FunctionDecl) (value : Value)
  /-- Around the members of a subclass, where `super` is bound. -/
  | superclass (declaration : Stmt) (value : Class)

/-- Where a class or trait comes from. -/
structure Provenance where
  /-- The class or trait itself. -/
  product : Value
  /-- The declaration that was executed. -/
  declaration : Stmt
  /-- The frame that was current while the members of the declaration were made. -/
  frame : FrameId
  /-- The traits that the declaration used. -/
  used : List Trait

structure Machine where
  frames : FrameStore Value
  /-- What each frame was made for, in the order of the frames. -/
  origins : Array Origin
  globals : FrameId
  /-- The frame of the code that is running. -/
  current : FrameId
  /-- The fields of instances and classes, by identity. -/
  fields : Array (Table Value)
  /-- Where all classes and traits come from, in the order in which they were made. -/
  provenances : List Provenance
  /-- The identity of the next function or trait. -/
  nextId : Nat
  /-- How many frames away the occurrences of local names are bound. -/
  distances : Std.TreeMap Nat Nat
  natives : Array Native
  output : String
  world : World

/-- A computation that changes the machine and may stop early. -/
abbrev Eval := EStateM Stop Machine

namespace Machine

/-! ### Setting up -/

def bare (world : World) : Machine where
  frames := FrameStore.empty.addEmpty none
  origins := #[.globals]
  globals := 0
  current := 0
  fields := #[]
  provenances := []
  nextId := 0
  distances := ∅
  natives := #[]
  output := ""
  world := world

def addNative (m : Machine) (native : Native) : Machine :=
  { m with
    frames :=
      m.frames.define m.globals native.name (.native ⟨m.natives.size, native.name, native.arity⟩)
    natives := m.natives.push native }

def start (natives : List Native) (world : World) : Machine := natives.foldl addNative (bare world)

def note (m : Machine) (binding : Resolve.Binding) : Machine :=
  match binding.distance with
  | some distance => { m with distances := m.distances.insert binding.id distance }
  | none => m

/-- Records what resolving has found, whether or not it found errors too. -/
def noteAll (m : Machine) (resolution : Resolution) : Machine := resolution.bindings.foldl note m

end Machine

namespace Eval

/-! ### Stopping -/

def raise {α : Type} (line : Option Nat) (cause : RuntimeError.Cause) : Eval α :=
  throw (.error ⟨cause, line⟩)

def raiseAt {α : Type} (token : Token) (cause : RuntimeError.Cause) : Eval α :=
  raise (some token.line) cause

def fault {α : Type} (f : Fault) : Eval α := throw (.fault f)

def outOfFuel {α : Type} : Eval α := throw .outOfFuel

/-! ### Frames -/

def newFrame (origin : Origin) (enclosing : FrameId) : Eval FrameId := fun m =>
  let id := m.frames.size
  .ok id { m with frames := m.frames.addEmpty (some enclosing), origins := m.origins.push origin }

def currentFrame : Eval FrameId := fun m => .ok m.current m

/-- Goes on in another frame. -/
def switchTo (frame : FrameId) : Eval Unit := fun m => .ok () { m with current := frame }

/-- Runs a computation in another frame and comes back, however it ends. -/
def inFrame {α : Type} (frame : FrameId) (action : Eval α) : Eval α := fun m =>
  let outside := m.current
  match action { m with current := frame } with
  | .ok a m => .ok a { m with current := outside }
  | .error e m => .error e { m with current := outside }

/-- Goes on in a copy of the current frame. -/
def nextIteration : Eval Unit := fun m =>
  let id := m.frames.size
  let origin := m.origins[m.current]?.getD .globals
  .ok () { m with frames := m.frames.snapshot m.current, origins := m.origins.push origin,
                  current := id }

def define (frame : FrameId) (name : String) (value : Value) : Eval Unit := fun m =>
  .ok () { m with frames := m.frames.define frame name value }

def declare (frame : FrameId) (name : String) : Eval Unit := fun m =>
  .ok () { m with frames := m.frames.declare frame name }

/-- The distance at which an occurrence is bound; there is none for globals. -/
def distance? (id : Nat) : Eval (Option Nat) := fun m => .ok m.distances[id]? m

def readAt (frame : FrameId) (distance : Nat) (name : String) : Eval (Except FrameError Value) :=
  fun m => .ok (m.frames.getAt frame distance name) m

/-- Reads an occurrence of a variable: by its distance, or among the globals. -/
def readVariable (id : Nat) (name : Token) : Eval Value := fun m =>
  let result := match m.distances[id]? with
    | some distance => m.frames.getAt m.current distance name.lexeme
    | none => m.frames.get m.globals name.lexeme
  match result with
  | .ok value => .ok value m
  | .error error => .error (.ofFrameError (some name.line) error) m

/-- The frame in which an occurrence of a variable is written: by its distance, or the globals. -/
def target (m : Machine) (id : Nat) (name : String) : Except FrameError FrameId :=
  match m.distances[id]? with
  | some distance => m.frames.locateAt m.current distance name
  | none => m.frames.locate m.globals name

def writeVariable (id : Nat) (name : Token) (value : Value) : Eval Unit := fun m =>
  match target m id name.lexeme with
  | .ok frame => .ok () { m with frames := m.frames.define frame name.lexeme value }
  | .error error => .error (.ofFrameError (some name.line) error) m

/-! ### Objects -/

/-- An identity for a function or trait. -/
def freshId : Eval Nat := fun m => .ok m.nextId { m with nextId := m.nextId + 1 }

/-- An identity for an instance or class, which has no fields yet. -/
def newHolder : Eval Nat := fun m =>
  let id := m.fields.size
  .ok id { m with fields := m.fields.push ∅ }

def field? (holder : Nat) (name : String) : Eval (Option Value) := fun m =>
  .ok (m.fields[holder]?.bind (·.find? name)) m

def setField (holder : Nat) (name : String) (value : Value) : Eval Unit := fun m =>
  .ok () { m with fields := m.fields.modify holder (·.insert name value) }

/-- Records where a class or trait comes from. -/
def record (provenance : Provenance) : Eval Unit := fun m =>
  .ok () { m with provenances := m.provenances ++ [provenance] }

/-! ### The outside world -/

/-- The entries of a table of a trait in the order in which they are walked. -/
def walk (used : Trait) (ofClass : Bool) (table : MethodTable) : Eval (List (String × Closure)) :=
  fun m => .ok (table.arrange (m.world.order used.id ofClass)).entries m

def write (text : String) : Eval Unit := fun m => .ok () { m with output := m.output ++ text }

/-- The bytes of the next line with its line feed, and those after it. -/
def splitLine (bytes : List UInt8) : List UInt8 × List UInt8 :=
  let line := bytes.takeWhile (· != 10)
  match bytes.drop line.length with
  | [] => (line, [])
  | feed :: rest => (line ++ [feed], rest)

def readLine : Eval (Option String) := fun m =>
  match m.world.input with
  | [] => .ok none m
  | bytes =>
    let (line, rest) := splitLine bytes
    let m := { m with world := { m.world with input := rest } }
    match Utf8.decode? line with
    | some text => .ok (some text) m
    | none => .error (.error ⟨.inputNotUtf8, none⟩) m

def readClock : Eval Float := fun m =>
  .ok (m.world.clock m.world.clockReadings)
    { m with world := { m.world with clockReadings := m.world.clockReadings + 1 } }

/-- The integer of a range that a random number stands for. -/
def pickFrom (low high : Int) (random : Nat) : Int := low + (random : Int) % (high - low + 1)

def pick (low high : Int) : Eval Int := fun m =>
  .ok (pickFrom low high (m.world.random m.world.randomPicks))
    { m with world := { m.world with randomPicks := m.world.randomPicks + 1 } }

end Eval
end TraitScript
