import TraitScript.Proofs.Scope.Distinct
import TraitScript.Proofs.Scope.Report
import TraitScript.Proofs.Scope.Trace

/-!
# The scopes of a program

Every scope of a program in the order in which they are closed, read off its text: the names that it
has from the start, what the statements directly in it declare, and everything inside it with its
place. From this follows which of its locals are never used.
-/

namespace TraitScript

namespace Declaration

/-- Where a name is declared first. -/
def first? (declared : List Declaration) (name : String) : Option Token :=
  (declared.find? (·.name.lexeme = name)).map (·.name)

/-- The first declarations of all names. -/
def firsts : List Declaration → List Token
  | [] => []
  | declaration :: rest =>
    declaration.name :: (firsts rest).filter (·.lexeme ≠ declaration.name.lexeme)

theorem first?_cons (declaration : Declaration) (rest : List Declaration) (name : String) :
    first? (declaration :: rest) name =
      if declaration.name.lexeme = name then some declaration.name else first? rest name := by
  rw [first?, first?, List.find?_cons]
  by_cases hname : declaration.name.lexeme = name <;> simp [hname]

theorem first?_append (first second : List Declaration) (name : String) :
    first? (first ++ second) name = (first? first name).or (first? second name) := by
  rw [first?, first?, first?, List.find?_append, Option.map_or]

theorem lexeme_of_first? {declared : List Declaration} {name : String} {t : Token}
    (h : first? declared name = some t) : t.lexeme = name := by
  obtain ⟨declaration, hfound, rfl⟩ := Option.map_eq_some_iff.1 h
  simpa using List.find?_some hfound

theorem mem_of_first? {declared : List Declaration} {name : String} {t : Token}
    (h : first? declared name = some t) :
    ∃ declaration ∈ declared, declaration.name = t := by
  obtain ⟨declaration, hfound, rfl⟩ := Option.map_eq_some_iff.1 h
  exact ⟨declaration, List.mem_of_find?_eq_some hfound, rfl⟩

theorem mem_firsts {declared : List Declaration} {t : Token} :
    t ∈ firsts declared ↔ first? declared t.lexeme = some t := by
  induction declared with
  | nil => simp [firsts, first?]
  | cons declaration rest ih =>
      rw [firsts, List.mem_cons, List.mem_filter, ih, first?_cons]
      by_cases hname : declaration.name.lexeme = t.lexeme
      · simp [hname, eq_comm]
      · have hne : ¬ t = declaration.name := fun h => hname (congrArg Token.lexeme h.symm)
        simp [hname, hne, Ne.symm hname]

theorem nodup_firsts (declared : List Declaration) : ((firsts declared).map (·.lexeme)).Nodup := by
  induction declared with
  | nil => exact List.nodup_nil
  | cons declaration rest ih =>
      rw [firsts, List.map_cons, List.nodup_cons]
      refine ⟨fun hmem => ?_, ih.sublist (List.filter_sublist.map _)⟩
      obtain ⟨t, ht, hlexeme⟩ := List.mem_map.1 hmem
      exact of_decide_eq_true (List.mem_filter.1 ht).2 hlexeme

end Declaration

structure Region where
  /-- How many scopes are around it. -/
  height : Nat
  /-- Parameters, or else `this` or `super`. -/
  given : List String
  declared : List Declaration
  uses : Uses

namespace Region

/-- The first declarations of locals that are not there from the start and that nothing reads. -/
def unused (r : Region) : List Token :=
  (Declaration.firsts r.declared).filter fun t =>
    !r.given.contains t.lexeme && !(r.uses.filterMap Resolve.reads?).contains (r.height, t.lexeme)

/-- The unused locals by line and by name. -/
def reported (r : Region) : List Token := Resolve.State.sortTokens r.unused

def reports (r : Region) : List ResolveError := r.reported.map fun t => ⟨.unusedLocal t.lexeme, t⟩

theorem mem_unused {r : Region} {t : Token} : t ∈ r.unused ↔
    Declaration.first? r.declared t.lexeme = some t ∧ t.lexeme ∉ r.given ∧
    (r.height, t.lexeme) ∉ r.uses.filterMap Resolve.reads? := by
  simp [unused, Declaration.mem_firsts]

theorem nodup_unused (r : Region) : (r.unused.map (·.lexeme)).Nodup :=
  (Declaration.nodup_firsts r.declared).sublist (List.filter_sublist.map _)

end Region

mutual

/-- The scopes inside an expression, in the order in which they are closed. -/
def Expr.regions : Expr → Place → List Region
  | .literal _, _ | .variable .., _ | .this .., _ | .super .., _ => []
  | .group inner, p => inner.regions p
  | .unary _ right, p => right.regions p
  | .binary left _ right, p => left.regions p ++ right.regions p
  | .logical left _ right, p => left.regions p ++ right.regions p
  | .conditional condition thenBranch elseBranch, p =>
    condition.regions p ++ thenBranch.regions p ++ elseBranch.regions p
  | .assign _ _ value, p => value.regions p
  | .call callee _ arguments, p => callee.regions p ++ Expr.regionsAll arguments p
  | .function decl, p => decl.regions .function p
  | .get object _, p => object.regions p
  | .set object _ value, p => value.regions p ++ object.regions p

def Expr.regionsAll : List Expr → Place → List Region
  | [], _ => []
  | first :: rest, p => first.regions p ++ Expr.regionsAll rest p

def Expr.regions? : Option Expr → Place → List Region
  | none, _ => []
  | some expr, p => expr.regions p

/-- The scope of a function has its parameters from the start. -/
def FunctionDecl.regions : FunctionDecl → Resolve.FunctionKind → Place → List Region
  | ⟨name, params, body, isGetter⟩, kind, p =>
    Stmt.regionsAll body (p.enterFunction kind ⟨name, params, body, isGetter⟩) ++
      [⟨p.scopes.length, params.map (·.lexeme), Stmt.declaresAll body,
        FunctionDecl.uses ⟨name, params, body, isGetter⟩ kind p⟩]

def FunctionDecl.regionsAll (kind : MethodKind) : List FunctionDecl → Place → List Region
  | [], _ => []
  | decl :: rest, p =>
    decl.regions (kind.bodyKind decl) (p.enter (.receiver kind decl) ["this"]) ++
      FunctionDecl.regionsAll kind rest p

def ClassBody.traitRegions : ClassBody → Place → List Region
  | ⟨traits, _, _⟩, p => Expr.regionsAll traits p

/-- All members are inside one scope, which has `this`. -/
def ClassBody.memberRegions : ClassBody → Place → List Region
  | ⟨traits, methods, classMethods⟩, p =>
    FunctionDecl.regionsAll .ofInstance methods p ++ FunctionDecl.regionsAll .ofClass
      classMethods p ++
      [⟨p.scopes.length, ["this"], [], ClassBody.memberUses ⟨traits, methods, classMethods⟩ p⟩]

def Stmt.regions : Stmt → Place → List Region
  | .expression value, p => value.regions p
  | .print value, p => value.regions p
  | .variable name initial, p => Expr.regions? initial (p.declare name)
  | .block statements, p =>
    let inside := p.enter (.block statements) []
    Stmt.regionsAll statements inside ++
      [⟨p.scopes.length, [], Stmt.declaresAll statements, Stmt.usesAll statements inside⟩]
  | .ifElse condition thenBranch elseBranch, p =>
    condition.regions p ++ thenBranch.regions p ++ Stmt.regions? elseBranch (thenBranch.after p)
  | .whileLoop condition body, p => condition.regions p ++ body.regions p.enterLoop
  | .forLoop initial condition increment body, p =>
    let first := p.enter (.loop (.forLoop initial condition increment body)) []
    let inside := Stmt.after? initial first
    Stmt.regions? initial first ++ Expr.regions? condition inside ++ Expr.regions? increment
      inside ++ body.regions inside.enterLoop ++
      [⟨p.scopes.length, [], Stmt.declares? initial ++ body.declares,
        (Stmt.forLoop initial condition increment body).uses p⟩]
  | .jump .., _ => []
  | .function decl, p => decl.regions .function (p.declare? decl.name)
  | .returnValue _ value, p => Expr.regions? value p
  | .classDecl name none body, p =>
    let inside := (p.declare name).inClass .plain
    body.traitRegions inside ++ body.memberRegions inside
  | .classDecl name (some parent) body, p =>
    let inside := (p.declare name).inClass .subclass
    let around := inside.enter (.superclass (.classDecl name (some parent) body)) ["super"]
    parent.regions inside ++ body.traitRegions inside ++ (body.memberRegions around ++
      [⟨inside.scopes.length, ["super"], [], body.memberUses around⟩])
  | .traitDecl name body, p =>
    let inside := (p.declare name).inClass .plain
    body.traitRegions inside ++ body.memberRegions inside

def Stmt.regionsAll : List Stmt → Place → List Region
  | [], _ => []
  | first :: rest, p => first.regions p ++ Stmt.regionsAll rest (first.after p)

def Stmt.regions? : Option Stmt → Place → List Region
  | none, _ => []
  | some stmt, p => stmt.regions p

end

/-- All scopes of a program. -/
def programRegions (statements : List Stmt) : List Region := Stmt.regionsAll statements .top

end TraitScript
