import TraitScript.Resolve.Walk

/-!
# Places in a program

What a program says about names, jumps and receivers, read off its text alone. A place is where
something stands: the scopes around it, innermost first, each with the names declared in it so far,
and the kind of function, class and loop it is in. `uses` lists everything in a tree that the rules
of scoping speak about, each with its place, in the order in which resolving visits them.

Resolving works on tables with marks and errors, and running works on frames; both are compared with
the places defined here.
-/

namespace TraitScript

/-- Methods of the instances of a class, and methods of the class itself. -/
inductive MethodKind where
  | ofInstance
  | ofClass
  deriving DecidableEq, Repr

/-- The kind of a member's body; only methods of instances can be initializers. -/
def MethodKind.bodyKind : MethodKind → FunctionDecl → Resolve.FunctionKind
  | ofInstance, decl => Resolve.methodKind decl
  | ofClass, _ => .method

/-- A part of the text that has names of its own. -/
inductive Site where
  | block (statements : List Stmt)
  /-- The clauses and the body of a `for`. -/
  | loop (statement : Stmt)
  /-- The parameters and the body of a function. -/
  | function (decl : FunctionDecl)
  /-- Around a method: the scope of `this`. -/
  | receiver (kind : MethodKind) (decl : FunctionDecl)
  /-- Around the members of a subclass: the scope of `super`. -/
  | superclass (declaration : Stmt)

/-- A scope around a place, with the names declared in it before that place. -/
structure Place.Scope where
  site : Site
  names : List String

structure Place where
  /-- The scopes around the place, innermost first. -/
  scopes : List Place.Scope := []
  functionKind : Resolve.FunctionKind := .none
  classKind : Resolve.ClassKind := .none
  /-- Whether a loop of the same function body is around the place. -/
  inLoop : Bool := false

namespace Place

def top : Place := {}

def sites (p : Place) : List Site := p.scopes.map (·.site)

def enter (site : Site) (names : List String) (p : Place) : Place :=
  { p with scopes := ⟨site, names⟩ :: p.scopes }

/-- Names are declared in the innermost scope; top-level code has none. -/
def declare (name : Token) (p : Place) : Place :=
  match p.scopes with
  | [] => p
  | scope :: outer =>
    { p with scopes := { scope with names := name.lexeme :: scope.names } :: outer }

def declare? (name : Option Token) (p : Place) : Place :=
  match name with
  | some name => p.declare name
  | none => p

def declareAll (names : List Token) (p : Place) : Place :=
  names.foldl (fun p name => p.declare name) p

/-- The scope of a function holds its parameters, and loops around it do not count. -/
def enterFunction (kind : Resolve.FunctionKind) (decl : FunctionDecl) (p : Place) : Place :=
  declareAll decl.params { p.enter (.function decl) [] with functionKind := kind, inLoop := false }

def enterLoop (p : Place) : Place := { p with inLoop := true }

def inClass (kind : Resolve.ClassKind) (p : Place) : Place := { p with classKind := kind }

/-- Where a block or the body of a function begins: directly inside a function no loop is open. -/
def IsEntry (p : Place) : Prop := ∀ decl outer, p.sites = .function decl :: outer → p.inLoop = false

def distance? (p : Place) (name : String) : Option Nat := p.scopes.findIdx? (name ∈ ·.names)

end Place

/-- Something in a program that the rules of scoping speak about. -/
inductive Use where
  | read (id : Nat) (name : Token)
  | write (id : Nat) (name : Token)
  | this (id : Nat) (keyword : Token)
  | super (id : Nat) (keyword : Token)
  | declare (name : Token)
  /-- The superclass of a class, or a trait that it uses. -/
  | reference (expr : Expr)
  | jump (keyword : Token) (kind : Jump)
  | returnValue (keyword : Token) (hasValue : Bool)

namespace Use

/-- The occurrence that is looked up, with its name. -/
def lookup? : Use → Option (Nat × String)
  | .read id name | .write id name => some (id, name.lexeme)
  | .this id keyword | .super id keyword => some (id, keyword.lexeme)
  | _ => none

def id? (use : Use) : Option Nat := use.lookup?.map Prod.fst

end Use

abbrev Uses := List (Place × Use)

mutual

/-- The place after a statement, which may have declared names. -/
def Stmt.after : Stmt → Place → Place
  | .variable name _, p => p.declare name
  | .ifElse _ thenBranch elseBranch, p => Stmt.after? elseBranch (thenBranch.after p)
  | .whileLoop _ body, p => body.after p
  | .function decl, p => p.declare? decl.name
  | .classDecl name _ _, p => p.declare name
  | .traitDecl name _, p => p.declare name
  | .expression _, p | .print _, p | .block _, p | .forLoop .., p | .jump .., p
  | .returnValue .., p => p

def Stmt.after? : Option Stmt → Place → Place
  | none, p => p
  | some stmt, p => stmt.after p

end

mutual

def Expr.uses : Expr → Place → Uses
  | .literal _, _ => []
  | .group inner, p => inner.uses p
  | .unary _ right, p => right.uses p
  | .binary left _ right, p => left.uses p ++ right.uses p
  | .logical left _ right, p => left.uses p ++ right.uses p
  | .conditional condition thenBranch elseBranch, p =>
    condition.uses p ++ thenBranch.uses p ++ elseBranch.uses p
  | .variable id name, p => [(p, .read id name)]
  | .assign id name value, p => value.uses p ++ [(p, .write id name)]
  | .call callee _ arguments, p => callee.uses p ++ Expr.usesAll arguments p
  | .function decl, p => decl.uses .function p
  | .get object _, p => object.uses p
  | .set object _ value, p => value.uses p ++ object.uses p
  | .this id keyword, p => [(p, .this id keyword)]
  | .super id keyword _, p => [(p, .super id keyword)]

def Expr.usesAll : List Expr → Place → Uses
  | [], _ => []
  | first :: rest, p => first.uses p ++ Expr.usesAll rest p

def Expr.uses? : Option Expr → Place → Uses
  | none, _ => []
  | some expr, p => expr.uses p

/-- Names of classes and traits that a class refers to. -/
def Expr.references : List Expr → Place → Uses
  | [], _ => []
  | first :: rest, p => (p, .reference first) :: first.uses p ++ Expr.references rest p

def FunctionDecl.uses : FunctionDecl → Resolve.FunctionKind → Place → Uses
  | ⟨name, params, body, isGetter⟩, kind, p =>
    let inside := p.enterFunction kind ⟨name, params, body, isGetter⟩
    params.map (fun param => (inside, .declare param)) ++ Stmt.usesAll body inside

/-- Members of one kind, each inside a scope of its own that holds `this`. -/
def FunctionDecl.usesAll (kind : MethodKind) : List FunctionDecl → Place → Uses
  | [], _ => []
  | decl :: rest, p =>
    decl.uses (kind.bodyKind decl) (p.enter (.receiver kind decl) ["this"]) ++
      FunctionDecl.usesAll kind rest p

def ClassBody.traitUses : ClassBody → Place → Uses
  | ⟨traits, _, _⟩, p => Expr.references traits p

def ClassBody.memberUses : ClassBody → Place → Uses
  | ⟨_, methods, classMethods⟩, p =>
    FunctionDecl.usesAll .ofInstance methods p ++ FunctionDecl.usesAll .ofClass classMethods p

def Stmt.uses : Stmt → Place → Uses
  | .expression value, p => value.uses p
  | .print value, p => value.uses p
  | .variable name initial, p => (p, .declare name) :: Expr.uses? initial (p.declare name)
  | .block statements, p => Stmt.usesAll statements (p.enter (.block statements) [])
  | .ifElse condition thenBranch elseBranch, p =>
    condition.uses p ++ thenBranch.uses p ++ Stmt.uses? elseBranch (thenBranch.after p)
  | .whileLoop condition body, p => condition.uses p ++ body.uses p.enterLoop
  | .forLoop initial condition increment body, p =>
    let first := p.enter (.loop (.forLoop initial condition increment body)) []
    let inside := Stmt.after? initial first
    Stmt.uses? initial first ++ Expr.uses? condition inside ++ Expr.uses? increment inside ++
      body.uses inside.enterLoop
  | .jump keyword kind, p => [(p, .jump keyword kind)]
  | .function decl, p =>
    let inside := p.declare? decl.name
    (decl.name.map fun name => (p, Use.declare name)).toList ++ decl.uses .function inside
  | .returnValue keyword value, p => (p, .returnValue keyword value.isSome) :: Expr.uses? value p
  | .classDecl name none body, p =>
    let inside := (p.declare name).inClass .plain
    (p, .declare name) :: body.traitUses inside ++ body.memberUses inside
  | .classDecl name (some parent) body, p =>
    let inside := (p.declare name).inClass .subclass
    (p, .declare name) :: (inside, .reference parent) :: parent.uses inside ++
      body.traitUses inside ++
      body.memberUses (inside.enter (.superclass (.classDecl name (some parent) body)) ["super"])
  | .traitDecl name body, p =>
    let inside := (p.declare name).inClass .plain
    (p, .declare name) :: body.traitUses inside ++ body.memberUses inside

def Stmt.usesAll : List Stmt → Place → Uses
  | [], _ => []
  | first :: rest, p => first.uses p ++ Stmt.usesAll rest (first.after p)

def Stmt.uses? : Option Stmt → Place → Uses
  | none, _ => []
  | some stmt, p => stmt.uses p

end

def Stmt.afterAll (statements : List Stmt) (p : Place) : Place :=
  statements.foldl (fun p stmt => stmt.after p) p

/-! ### Statements only add names to the innermost scope -/

namespace Place

/-- A place that differs from another at most in the names of the innermost scope. -/
structure Grows (p q : Place) : Prop where
  functionKind : q.functionKind = p.functionKind
  classKind : q.classKind = p.classKind
  inLoop : q.inLoop = p.inLoop
  sites : q.sites = p.sites
  outer : q.scopes.tail = p.scopes.tail

theorem Grows.refl (p : Place) : p.Grows p := ⟨rfl, rfl, rfl, rfl, rfl⟩

theorem Grows.trans {p q r : Place} (hpq : p.Grows q) (hqr : q.Grows r) : p.Grows r :=
  ⟨hqr.functionKind.trans hpq.functionKind, hqr.classKind.trans hpq.classKind,
    hqr.inLoop.trans hpq.inLoop,
    hqr.sites.trans hpq.sites, hqr.outer.trans hpq.outer⟩

theorem grows_declare (name : Token) (p : Place) : p.Grows (p.declare name) := by
  unfold declare
  split
  · exact .refl p
  next scope outer hscopes => exact ⟨rfl, rfl, rfl, by simp [sites, hscopes], by simp [hscopes]⟩

theorem grows_declare? (name : Option Token) (p : Place) : p.Grows (p.declare? name) := by
  cases name with
  | none => exact .refl p
  | some name => exact grows_declare name p

theorem grows_declareAll (names : List Token) (p : Place) : p.Grows (p.declareAll names) := by
  induction names generalizing p with
  | nil => exact .refl p
  | cons name rest ih => exact (grows_declare name p).trans (ih (p.declare name))

@[simp] theorem sites_enter (site : Site) (names : List String) (p : Place) :
    (p.enter site names).sites = site :: p.sites := rfl

/-- Inside a scope, growing changes that scope only. -/
theorem Grows.of_enter {site : Site} {names : List String} {p q : Place}
    (h : (p.enter site names).Grows q) :
    ∃ names', q.scopes = ⟨site, names'⟩ :: p.scopes := by
  have hsites : q.scopes.map (·.site) = site :: p.sites := h.sites
  have houter : q.scopes.tail = p.scopes := h.outer
  cases hscopes : q.scopes with
  | nil =>
      rw [hscopes] at hsites
      simp at hsites
  | cons scope outer =>
      rw [hscopes] at hsites houter
      have hsite : scope.site = site := (List.cons.inj hsites).1
      exact ⟨scope.names, by rw [← hsite, ← houter, List.tail_cons]⟩

@[simp] theorem sites_enterLoop (p : Place) : p.enterLoop.sites = p.sites := rfl

@[simp] theorem sites_inClass (kind : Resolve.ClassKind) (p : Place) :
    (p.inClass kind).sites = p.sites := rfl

@[simp] theorem sites_declare (name : Token) (p : Place) : (p.declare name).sites = p.sites :=
  (grows_declare name p).sites

@[simp] theorem sites_declare? (name : Option Token) (p : Place) :
    (p.declare? name).sites = p.sites :=
  (grows_declare? name p).sites

@[simp] theorem sites_enterFunction (kind : Resolve.FunctionKind) (decl : FunctionDecl)
    (p : Place) :
    (p.enterFunction kind decl).sites = .function decl :: p.sites :=
  (grows_declareAll _ _).sites

theorem inLoop_enterFunction (kind : Resolve.FunctionKind) (decl : FunctionDecl) (p : Place) :
    (p.enterFunction kind decl).inLoop = false :=
  (grows_declareAll _ _).inLoop

theorem declare_inClass (name : Token) (kind : Resolve.ClassKind) (p : Place) :
    (p.inClass kind).declare name = (p.declare name).inClass kind := by
  cases hscopes : p.scopes <;> simp [declare, inClass, hscopes]

theorem declare_enterLoop (name : Token) (p : Place) :
    p.enterLoop.declare name = (p.declare name).enterLoop := by
  cases hscopes : p.scopes <;> simp [declare, enterLoop, hscopes]

end Place

mutual

theorem Stmt.grows_after : (stmt : Stmt) → (p : Place) → p.Grows (stmt.after p)
  | .variable name _, p => Place.grows_declare name p
  | .ifElse _ thenBranch elseBranch, p =>
    (thenBranch.grows_after p).trans (Stmt.grows_after? elseBranch (thenBranch.after p))
  | .whileLoop _ body, p => body.grows_after p
  | .function decl, p => Place.grows_declare? decl.name p
  | .classDecl name _ _, p => Place.grows_declare name p
  | .traitDecl name _, p => Place.grows_declare name p
  | .expression _, p | .print _, p | .block _, p | .forLoop .., p | .jump .., p
  | .returnValue .., p => .refl p

theorem Stmt.grows_after? : (stmt : Option Stmt) → (p : Place) → p.Grows (Stmt.after? stmt p)
  | none, p => .refl p
  | some stmt, p => stmt.grows_after p

end

mutual

theorem Stmt.after_enterLoop :
    (stmt : Stmt) → (p : Place) → stmt.after p.enterLoop = (stmt.after p).enterLoop
  | .variable name _, p => Place.declare_enterLoop name p
  | .ifElse _ thenBranch elseBranch, p => by
    rw [Stmt.after, Stmt.after, Stmt.after_enterLoop thenBranch, Stmt.after?_enterLoop elseBranch]
  | .whileLoop _ body, p => body.after_enterLoop p
  | .function ⟨none, _, _, _⟩, p => rfl
  | .function ⟨some name, _, _, _⟩, p => Place.declare_enterLoop name p
  | .classDecl name _ _, p => Place.declare_enterLoop name p
  | .traitDecl name _, p => Place.declare_enterLoop name p
  | .expression _, _ | .print _, _ | .block _, _ | .forLoop .., _ | .jump .., _
  | .returnValue .., _ => rfl

theorem Stmt.after?_enterLoop :
    (stmt : Option Stmt) → (p : Place) →
      Stmt.after? stmt p.enterLoop = (Stmt.after? stmt p).enterLoop
  | none, _ => rfl
  | some stmt, p => stmt.after_enterLoop p

end

theorem Stmt.grows_afterAll (statements : List Stmt) (p : Place) :
    p.Grows (Stmt.afterAll statements p) := by
  induction statements generalizing p with
  | nil => exact .refl p
  | cons stmt rest ih => exact (stmt.grows_after p).trans (ih (stmt.after p))

/-- Everything a program uses, from top-level code. -/
def programUses (statements : List Stmt) : Uses := Stmt.usesAll statements .top

end TraitScript
