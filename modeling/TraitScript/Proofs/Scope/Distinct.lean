import Mathlib.Data.List.Nodup
import TraitScript.Proofs.Scope.Resolution

/-!
# One declaration for each name

A scope declares the names of its variables and parameters, and those of its functions, classes and
traits. In a program that is accepted no scope declares a name twice: the walk would have found the
name in the table of the scope when it came to the second declaration.
-/

namespace TraitScript

/-- A name that a scope declares, as a variable or parameter or else as a function, class or
trait. -/
structure Declaration where
  isVariable : Bool
  name : Token

def Declaration.names (declarations : List Declaration) : List String :=
  declarations.map (·.name.lexeme)

theorem Declaration.names_append (first second : List Declaration) :
    names (first ++ second) = names first ++ names second := List.map_append

mutual

/-- What a statement declares in the scope around it. -/
def Stmt.declares : Stmt → List Declaration
  | .variable name _ => [⟨true, name⟩]
  | .ifElse _ thenBranch elseBranch => thenBranch.declares ++ Stmt.declares? elseBranch
  | .whileLoop _ body => body.declares
  | .function decl => decl.name.toList.map fun name => ⟨false, name⟩
  | .classDecl name _ _ => [⟨false, name⟩]
  | .traitDecl name _ => [⟨false, name⟩]
  | .expression _ | .print _ | .block _ | .forLoop .. | .jump .. | .returnValue .. => []

def Stmt.declares? : Option Stmt → List Declaration
  | none => []
  | some stmt => stmt.declares

end

def Stmt.declaresAll (statements : List Stmt) : List Declaration := statements.flatMap Stmt.declares

/-- The scope of a function declares its parameters and the names of its body. -/
def FunctionDecl.declares (decl : FunctionDecl) : List Declaration :=
  decl.params.map (fun param => ⟨true, param⟩) ++ Stmt.declaresAll decl.body

mutual

/-- No scope inside declares a name twice. -/
def Expr.Distinct : Expr → Prop
  | .literal _ | .variable .. | .this .. | .super .. => True
  | .group inner => inner.Distinct
  | .unary _ right => right.Distinct
  | .binary left _ right => left.Distinct ∧ right.Distinct
  | .logical left _ right => left.Distinct ∧ right.Distinct
  | .conditional condition thenBranch elseBranch =>
    condition.Distinct ∧ thenBranch.Distinct ∧ elseBranch.Distinct
  | .assign _ _ value => value.Distinct
  | .call callee _ arguments => callee.Distinct ∧ Expr.DistinctAll arguments
  | .function decl => decl.Distinct
  | .get object _ => object.Distinct
  | .set object _ value => value.Distinct ∧ object.Distinct

def Expr.DistinctAll : List Expr → Prop
  | [] => True
  | first :: rest => first.Distinct ∧ Expr.DistinctAll rest

def Expr.Distinct? : Option Expr → Prop
  | none => True
  | some expr => expr.Distinct

def FunctionDecl.Distinct : FunctionDecl → Prop
  | ⟨name, params, body, isGetter⟩ =>
    (Declaration.names (FunctionDecl.declares ⟨name, params, body, isGetter⟩)).Nodup ∧
      Stmt.DistinctAll body

def FunctionDecl.DistinctAll : List FunctionDecl → Prop
  | [] => True
  | first :: rest => first.Distinct ∧ FunctionDecl.DistinctAll rest

def ClassBody.Distinct : ClassBody → Prop
  | ⟨traits, methods, classMethods⟩ =>
    Expr.DistinctAll traits ∧ FunctionDecl.DistinctAll methods ∧
      FunctionDecl.DistinctAll classMethods

def Stmt.Distinct : Stmt → Prop
  | .expression value | .print value => value.Distinct
  | .variable _ initial => Expr.Distinct? initial
  | .block statements =>
    (Declaration.names (Stmt.declaresAll statements)).Nodup ∧ Stmt.DistinctAll statements
  | .ifElse condition thenBranch elseBranch =>
    condition.Distinct ∧ thenBranch.Distinct ∧ Stmt.Distinct? elseBranch
  | .whileLoop condition body => condition.Distinct ∧ body.Distinct
  | .forLoop initial condition increment body =>
    (Declaration.names (Stmt.declares? initial ++ body.declares)).Nodup ∧ Stmt.Distinct? initial ∧
      Expr.Distinct? condition ∧
      Expr.Distinct? increment ∧ body.Distinct
  | .jump .. => True
  | .function decl => decl.Distinct
  | .returnValue _ value => Expr.Distinct? value
  | .classDecl _ superclass body => Expr.Distinct? superclass ∧ body.Distinct
  | .traitDecl _ body => body.Distinct

def Stmt.DistinctAll : List Stmt → Prop
  | [] => True
  | first :: rest => first.Distinct ∧ Stmt.DistinctAll rest

def Stmt.Distinct? : Option Stmt → Prop
  | none => True
  | some stmt => stmt.Distinct

end

theorem ClassBody.distinct_of {body : ClassBody} (htraits : Expr.DistinctAll body.traits)
    (hmembers : FunctionDecl.DistinctAll body.methods ∧
      FunctionDecl.DistinctAll body.classMethods) : body.Distinct := by
  cases body
  exact ⟨htraits, hmembers⟩

/-! ### Names of the innermost scope -/

namespace Place

/-- The names declared so far in the innermost scope. -/
def innermost (p : Place) : List String :=
  match p.scopes with
  | [] => []
  | scope :: _ => scope.names

theorem innermost_declare {p : Place} (hlocal : p.scopes ≠ []) (name : Token) :
    (p.declare name).innermost = name.lexeme :: p.innermost := by
  unfold declare innermost
  cases hscopes : p.scopes with
  | nil => exact absurd hscopes hlocal
  | cons scope outer => rfl

theorem Grows.local {p q : Place} (h : p.Grows q) (hlocal : p.scopes ≠ []) : q.scopes ≠ [] := by
  intro hnone
  have hsites : q.scopes.map (·.site) = p.scopes.map (·.site) := h.sites
  rw [hnone, List.map_nil] at hsites
  exact hlocal (List.map_eq_nil_iff.1 hsites.symm)

theorem local_enter (site : Site) (names : List String) (p : Place) :
    (p.enter site names).scopes ≠ [] := List.cons_ne_nil _ _

theorem local_enterFunction (kind : Resolve.FunctionKind) (decl : FunctionDecl) (p : Place) :
    (p.enterFunction kind decl).scopes ≠ [] :=
  (grows_declareAll decl.params _).local (List.cons_ne_nil _ _)

theorem innermost_declareAll {p : Place} (hlocal : p.scopes ≠ []) (names : List Token) :
    (p.declareAll names).innermost = (names.map (·.lexeme)).reverse ++ p.innermost := by
  induction names generalizing p with
  | nil => rfl
  | cons name rest ih =>
      have hrest := ih ((grows_declare name p).local hlocal)
      rw [declareAll] at hrest
      rw [declareAll, List.foldl_cons, hrest, innermost_declare hlocal]
      simp

end Place

mutual

theorem Stmt.innermost_after : (stmt : Stmt) → {p : Place} → p.scopes ≠ [] →
    (stmt.after p).innermost = (Declaration.names stmt.declares).reverse ++ p.innermost
  | .variable name _, _, hlocal => Place.innermost_declare hlocal name
  | .ifElse _ thenBranch elseBranch, p, hlocal => by
    rw [Stmt.after, Stmt.innermost_after? elseBranch ((thenBranch.grows_after p).local hlocal),
      Stmt.innermost_after thenBranch hlocal, Stmt.declares,
      Declaration.names_append, List.reverse_append, List.append_assoc]
  | .whileLoop _ body, _, hlocal => body.innermost_after hlocal
  | .function ⟨none, _, _, _⟩, _, _ => rfl
  | .function ⟨some name, _, _, _⟩, _, hlocal => Place.innermost_declare hlocal name
  | .classDecl name _ _, _, hlocal => Place.innermost_declare hlocal name
  | .traitDecl name _, _, hlocal => Place.innermost_declare hlocal name
  | .expression _, _, _ | .print _, _, _ | .block _, _, _ | .forLoop .., _, _ | .jump .., _, _
  | .returnValue .., _, _ => rfl

theorem Stmt.innermost_after? : (stmt : Option Stmt) → {p : Place} → p.scopes ≠ [] →
    (Stmt.after? stmt p).innermost =
    (Declaration.names (Stmt.declares? stmt)).reverse ++ p.innermost
  | none, _, _ => rfl
  | some stmt, _, hlocal => stmt.innermost_after hlocal

end

theorem Stmt.innermost_afterAll (statements : List Stmt) {p : Place} (hlocal : p.scopes ≠ []) :
    (Stmt.afterAll statements p).innermost =
      (Declaration.names (Stmt.declaresAll statements)).reverse ++ p.innermost := by
  induction statements generalizing p with
  | nil => rfl
  | cons stmt rest ih =>
      have hrest := ih ((stmt.grows_after p).local hlocal)
      rw [Stmt.afterAll] at hrest
      rw [Stmt.afterAll, List.foldl_cons, hrest, stmt.innermost_after hlocal]
      simp [Stmt.declaresAll, Declaration.names]

namespace Resolve

/-- If the innermost scope has no name twice before, it has none twice after. -/
def Keeps (p q : Place) : Prop := p.innermost.Nodup → q.innermost.Nodup

/-! ### Conditions for walking without errors -/

/-- A part of the walk that reports nothing only under a condition. -/
structure Checks (f : State → State) (p q : Place) (K : Prop) : Prop where
  walks : ∃ us, Walks f p q us
  holds : ∀ s, Tracks s p → (f s).errors = [] → K

section Rules

variable {f g : State → State} {p q r : Place} {K K' : Prop} {us : Uses}

theorem Walks.checks (h : Walks f p q us) : Checks f p q True := ⟨⟨us, h⟩, fun _ _ _ => trivial⟩

theorem Checks.imp (h : Checks f p q K) (himp : K → K') : Checks f p q K' :=
  ⟨h.walks, fun s hs hnone => himp (h.holds s hs hnone)⟩

theorem Checks.of_eq (h : Checks f p q K) (heq : ∀ s, g s = f s) : Checks g p q K := by
  rw [funext heq]
  exact h

theorem Checks.comp (hf : Checks f p q K) (hg : Checks g q r K') :
    Checks (fun s => g (f s)) p r (K ∧ K') := by
  obtain ⟨us, hwalk⟩ := hf.walks
  obtain ⟨vs, hwalk'⟩ := hg.walks
  refine ⟨⟨us ++ vs, hwalk.comp hwalk'⟩, fun s hs hnone => ?_⟩
  obtain ⟨htracks, -, -⟩ := hwalk s hs
  obtain ⟨-, -, hbefore⟩ := hwalk' (f s) htracks
  exact ⟨hf.holds s hs (hbefore hnone).1, hg.holds (f s) htracks hnone⟩

theorem errors_endScope {s : State} (hnone : s.endScope.errors = []) : s.errors = [] := by
  cases hstack : s.scopes with
  | nil => simpa [State.endScope, hstack] using hnone
  | cons scope outer =>
      simp only [State.endScope, hstack] at hnone
      exact (reportUnused_frame _ { s with scopes := outer }).2.2.2.2.2 hnone

theorem Checks.scoped {opening : State → State} {site : Site} {names : List String}
    (hopening : Walks opening p (p.enter site names) []) (h : Checks f (p.enter site names) q K)
    (hgrows : (p.enter site names).Grows q) : Checks (fun s => (f (opening s)).endScope) p p K := by
  obtain ⟨us, hwalk⟩ := h.walks
  refine ⟨⟨us, hopening.scoped hwalk hgrows⟩, fun s hs hnone => ?_⟩
  exact h.holds (opening s) (hopening s hs).1 (errors_endScope hnone)

theorem Checks.restoreClass {kind : ClassKind} (h : Checks f p (q.inClass kind) K)
    (hgrows : p.Grows q) :
    Checks (fun s => { f s with classKind := s.classKind }) p q K := by
  obtain ⟨us, hwalk⟩ := h.walks
  exact ⟨⟨us, hwalk.restoreClass hgrows⟩, h.holds⟩

theorem Checks.inLoop (h : Checks f p.enterLoop q.enterLoop K)
    (hdepth : ∀ s, (f s).loopDepth = s.loopDepth) (hgrows : p.Grows q) :
    Checks (inLoop f) p q K := by
  obtain ⟨us, hwalk⟩ := h.walks
  exact ⟨⟨us, hwalk.inLoop hdepth hgrows⟩, fun _ hs hnone => h.holds _ hs.openLoop hnone⟩

/-- Declaring a name reports nothing only if the scope does not have it yet. -/
theorem checks_declare (name : Token) (mustBeRead : Bool) (p : Place) :
    Checks (fun s => s.declare name mustBeRead) p (p.declare name) (Keeps p (p.declare name)) := by
  refine ⟨⟨_, walks_declare name mustBeRead p⟩, fun s hs hnone hnodup => ?_⟩
  cases hscopes : p.scopes with
  | nil =>
      unfold Place.declare
      rw [hscopes]
      exact hnodup
  | cons around arounds =>
      have hlocal : p.scopes ≠ [] := by simp [hscopes]
      rw [Place.innermost_declare hlocal, List.nodup_cons]
      refine ⟨fun hmem => ?_, hnodup⟩
      have hstack := hs.scopes
      rw [hscopes] at hstack
      obtain ⟨scope, outer, hholds, -, hcons⟩ := List.forall₂_cons_right_iff.1 hstack
      have hfound : scope.contains name.lexeme = true :=
        (hholds _).2 (by simpa [Place.innermost, hscopes] using hmem)
      simp [State.declare, hcons, hfound] at hnone

theorem checks_declareDefined (name : Token) (p : Place) :
    Checks (declareDefined name) p (p.declare name) (Keeps p (p.declare name)) :=
  ((checks_declare name true p).comp (walks_define name _).checks).imp And.left

theorem checks_declareParams (params : List Token) (p : Place) :
    Checks (declareParams params) p (p.declareAll params) (Keeps p (p.declareAll params)) := by
  induction params generalizing p with
  | nil => exact (walks_id p).checks.imp fun _ => id
  | cons param rest ih =>
      have hfirst := (checks_declare param false p).comp (walks_define param _).checks
      exact (hfirst.comp (ih (p.declare param))).imp fun h hnodup => h.2 (h.1.1 hnodup)

/-- The parameters of a function are distinct, as its scope is empty before. -/
theorem checks_enterFunction (kind : FunctionKind) (decl : FunctionDecl) (p : Place) :
    Checks (enterFunction kind decl.params) p (p.enterFunction kind decl)
      (p.enterFunction kind decl).innermost.Nodup := by
  have hkinds : Walks (fun s => { s with functionKind := kind, loopDepth := 0 }) p
      { p with functionKind := kind, inLoop := false } [] :=
    walks_quiet (fun _ hs => ⟨rfl, hs.classKind, by simp, hs.scopes⟩) (fun _ => rfl) (fun _ h => h)
  have hopening := (hkinds.comp (walks_beginScope (.function decl) _)).checks
  exact (hopening.comp (checks_declareParams decl.params _)).imp fun h => h.2 List.nodup_nil

theorem Checks.function {body : State → State} {kind : FunctionKind} {decl : FunctionDecl}
    (h : Checks body (p.enterFunction kind decl) q K)
    (hgrows : (p.enterFunction kind decl).Grows q) :
    Checks (fun s => leaveFunction s (body (enterFunction kind decl.params s))) p p
      ((p.enterFunction kind decl).innermost.Nodup ∧ K) := by
  obtain ⟨us, hwalk⟩ := h.walks
  refine ⟨⟨us, hwalk.function hgrows⟩, fun s hs hnone => ?_⟩
  exact ((checks_enterFunction kind decl p).comp h).holds s hs (errors_endScope hnone)

end Rules

/-! ### Whole trees -/

theorem innermost_enterFunction (kind : FunctionKind) (decl : FunctionDecl) (p : Place) :
    (p.enterFunction kind decl).innermost = (decl.params.map (·.lexeme)).reverse := by
  rw [Place.enterFunction, Place.innermost_declareAll (List.cons_ne_nil _ _)]
  exact List.append_nil _

theorem distinct_function {decl : FunctionDecl} {kind : FunctionKind} {p : Place}
    (hparams : (p.enterFunction kind decl).innermost.Nodup)
    (hbody : Keeps (p.enterFunction kind decl)
      (Stmt.afterAll decl.body (p.enterFunction kind decl))) :
    (Declaration.names decl.declares).Nodup := by
  have hall := hbody hparams
  rw [Stmt.innermost_afterAll decl.body (p.local_enterFunction kind decl), innermost_enterFunction,
    ← List.reverse_append, List.nodup_reverse] at hall
  simpa [FunctionDecl.declares, Declaration.names, Function.comp_def] using hall

mutual

theorem checks_expr : (e : Expr) → (p : Place) → Checks (expr e) p p e.Distinct
  | .literal _, p => (walks_id p).checks.of_eq fun s => by rw [expr]
  | .group inner, p => (checks_expr inner p).of_eq fun s => by rw [expr]
  | .unary _ right, p => (checks_expr right p).of_eq fun s => by rw [expr]
  | .binary left _ right, p =>
    ((checks_expr left p).comp (checks_expr right p)).of_eq fun s => by rw [expr]
  | .logical left _ right, p =>
    ((checks_expr left p).comp (checks_expr right p)).of_eq fun s => by rw [expr]
  | .conditional a b c, p =>
    (((checks_expr a p).comp (checks_expr b p)).comp (checks_expr c p) |>.imp
      fun h => ⟨h.1.1, h.1.2, h.2⟩).of_eq fun s => by rw [expr]
  | .variable id name, p => (walks_expr (.variable id name) p).checks
  | .assign id name value, p =>
    (((checks_expr value p).comp (walks_lookUp p (.write id name) false trivial rfl).checks).imp
      And.left).of_eq fun s => by rw [expr]
  | .call callee _ arguments, p =>
    ((checks_expr callee p).comp (checks_exprs arguments p)).of_eq fun s => by rw [expr]
  | .function decl, p => (checks_function .function decl p).of_eq fun s => by rw [expr]
  | .get object _, p => (checks_expr object p).of_eq fun s => by rw [expr]
  | .set object _ value, p =>
    ((checks_expr value p).comp (checks_expr object p)).of_eq fun s => by rw [expr]
  | .this id keyword, p => (walks_expr (.this id keyword) p).checks
  | .super id keyword method, p => (walks_expr (.super id keyword method) p).checks

theorem checks_exprs : (es : List Expr) → (p : Place) → Checks (exprs es) p p (Expr.DistinctAll es)
  | [], p => (walks_id p).checks.of_eq fun s => by rw [exprs]
  | first :: rest, p =>
    ((checks_expr first p).comp (checks_exprs rest p)).of_eq fun s => by rw [exprs]

theorem checks_expr? : (e : Option Expr) → (p : Place) → Checks (expr? e) p p (Expr.Distinct? e)
  | none, p => (walks_id p).checks.of_eq fun s => by rw [expr?]
  | some e, p => (checks_expr e p).of_eq fun s => by rw [expr?]

theorem checks_function (kind : FunctionKind) :
    (decl : FunctionDecl) → (p : Place) → Checks (function kind decl) p p decl.Distinct
  | ⟨name, params, body, isGetter⟩, p => by
    have hbody := (checks_stmts body (p.enterFunction kind ⟨name, params, body, isGetter⟩)).function
      (Stmt.grows_afterAll body _)
    exact (hbody.imp fun h => ⟨distinct_function h.1 h.2.2, h.2.1⟩).of_eq fun s => by rw [function]

theorem checks_methods (site : Site) : (decls : List FunctionDecl) → (p : Place) →
    Checks (methods decls) (p.enter site ["this"]) (p.enter site ["this"])
    (FunctionDecl.DistinctAll decls)
  | [], p => (walks_id _).checks.of_eq fun s => by rw [methods]
  | decl :: rest, p =>
    ((checks_function (methodKind decl) decl (p.enter site ["this"])).comp
      (checks_methods site rest p)).of_eq fun s => by rw [methods]

theorem checks_classMethods (site : Site) : (decls : List FunctionDecl) → (p : Place) →
    Checks (classMethods decls) (p.enter site ["this"]) (p.enter site ["this"])
    (FunctionDecl.DistinctAll decls)
  | [], p => (walks_id _).checks.of_eq fun s => by rw [classMethods]
  | decl :: rest, p =>
    ((checks_function .method decl (p.enter site ["this"])).comp
      (checks_classMethods site rest p)).of_eq fun s => by rw [classMethods]

theorem checks_members : (body : ClassBody) → (p : Place) →
    Checks (members body) p p
    (FunctionDecl.DistinctAll body.methods ∧ FunctionDecl.DistinctAll body.classMethods)
  | ⟨traits, instanceMethods, staticMethods⟩, p => by
    have hmembers := (checks_methods (.block []) instanceMethods p).comp
      (checks_classMethods (.block []) staticMethods p)
    exact (Checks.scoped (walks_beginImplicit "this" (.block []) p) hmembers (.refl _)).of_eq
      fun s => by rw [members]

theorem checks_uses :
    (body : ClassBody) → (p : Place) → Checks (uses body) p p (Expr.DistinctAll body.traits)
  | ⟨traits, _, _⟩, p => (checks_exprs traits p).of_eq fun s => by rw [uses]

theorem checks_stmt :
    (statement : Stmt) → (p : Place) →
      Checks (stmt statement) p (statement.after p)
      (statement.Distinct ∧ Keeps p (statement.after p))
  | .expression value, p => ((checks_expr value p).imp fun h => ⟨h, id⟩).of_eq fun s => by rw [stmt]
  | .print value, p => ((checks_expr value p).imp fun h => ⟨h, id⟩).of_eq fun s => by rw [stmt]
  | .variable name initial, p => by
    have hall :=
      ((checks_declare name true p).comp (checks_expr? initial _)).comp (walks_define name _).checks
    exact (hall.imp fun h => ⟨h.1.2, h.1.1⟩).of_eq fun s => by rw [stmt]
  | .block statements, p => by
    have hinside := checks_stmts statements (p.enter (.block statements) [])
    have hscoped := Checks.scoped (walks_beginScope (.block statements) p) hinside
      (Stmt.grows_afterAll statements _)
    refine (hscoped.imp fun h => ⟨⟨?_, h.1⟩, id⟩).of_eq fun s => by rw [stmt]
    have hnodup := h.2 List.nodup_nil
    rw [Stmt.innermost_afterAll statements (p.local_enter _ _)] at hnodup
    simpa [Place.innermost, Place.enter] using hnodup
  | .ifElse condition thenBranch elseBranch, p => by
    have hall :=
      ((checks_expr condition p).comp (checks_stmt thenBranch p)).comp (checks_stmt? elseBranch _)
    exact (hall.imp fun h => ⟨⟨h.1.1, h.1.2.1, h.2.1⟩, fun hnodup => h.2.2 (h.1.2.2 hnodup)⟩).of_eq
      fun s => by rw [stmt]
  | .whileLoop condition body, p => by
    have hbody := checks_stmt body p.enterLoop
    rw [Stmt.after_enterLoop] at hbody
    exact (((checks_expr condition p).comp
      (hbody.inLoop (loopDepth_stmt body) (body.grows_after p))).imp
      fun h => ⟨⟨h.1, h.2.1⟩, h.2.2⟩).of_eq fun s => by rw [stmt]
  | .forLoop initial condition increment body, p => by
    let first := p.enter (.loop (.forLoop initial condition increment body)) []
    have hinitial := checks_stmt? initial first
    have hbody := checks_stmt body (Stmt.after? initial first).enterLoop
    rw [Stmt.after_enterLoop] at hbody
    have hclauses := (hinitial.comp (checks_expr? condition _)).comp (checks_expr? increment _)
    have hinside := hclauses.comp (hbody.inLoop (loopDepth_stmt body) (body.grows_after _))
    have hscoped := Checks.scoped (walks_beginScope _ p) hinside
      ((Stmt.grows_after? initial first).trans (body.grows_after _))
    refine (hscoped.imp fun h => ⟨⟨?_, h.1.1.1.1, h.1.1.2, h.1.2, h.2.1⟩, id⟩).of_eq fun s => by
      rw [stmt]
    have hnodup := h.2.2 (h.1.1.1.2 List.nodup_nil)
    have hlocal : first.scopes ≠ [] := p.local_enter _ _
    change (body.after (Stmt.after? initial first)).innermost.Nodup at hnodup
    rw [body.innermost_after ((Stmt.grows_after? initial first).local hlocal),
      Stmt.innermost_after? initial hlocal] at hnodup
    rw [← List.append_assoc, ← List.reverse_append, ← Declaration.names_append] at hnodup
    simpa [first, Place.innermost, Place.enter] using hnodup
  | .jump keyword kind, p => ((walks_stmt (.jump keyword kind) p).checks).imp fun _ => ⟨trivial, id⟩
  | .function ⟨none, params, body, isGetter⟩, p =>
    ((checks_function .function ⟨none, params, body, isGetter⟩ p).imp fun h => ⟨h, id⟩).of_eq
      fun s => by rw [stmt]
  | .function ⟨some name, params, body, isGetter⟩, p => by
    have hall := (checks_declareDefined name p).comp
      (checks_function .function ⟨some name, params, body, isGetter⟩ _)
    exact (hall.imp fun h => ⟨h.2, h.1⟩).of_eq fun s => by rw [stmt]
  | .returnValue keyword value, p =>
    (((walks_checkReturn keyword value.isSome p).checks.comp (checks_expr? value p)).imp
      fun h => ⟨h.2, id⟩).of_eq fun s => by rw [stmt]
  | .classDecl name none body, p => by
    have hname := (walks_setClass .plain p).checks.comp (checks_declareDefined name _)
    rw [Place.declare_inClass] at hname
    have hall := (hname.comp (checks_uses body _)).comp (checks_members body _)
    have hclass := hall.restoreClass (Place.grows_declare name p)
    exact (hclass.imp fun h => ⟨⟨trivial, ClassBody.distinct_of h.1.2 h.2⟩, h.1.1.2⟩).of_eq
      fun s => by rw [stmt]
  | .classDecl name (some superclass) body, p => by
    have hname := (walks_setClass .plain p).checks.comp (checks_declareDefined name _)
    rw [Place.declare_inClass] at hname
    have hkind := (hname.comp (walks_checkSuperclass name superclass _).checks).comp
      (walks_setClass .subclass _).checks
    have hopening :=
      walks_beginImplicit "super" (.superclass (.classDecl name (some superclass) body))
        ((p.declare name).inClass .subclass)
    have hmembers := Checks.scoped hopening (checks_members body _) (.refl _)
    have hall := ((hkind.comp (checks_expr superclass _)).comp (checks_uses body _)).comp hmembers
    have hclass := hall.restoreClass (Place.grows_declare name p)
    exact (hclass.imp fun h => ⟨⟨h.1.1.2, ClassBody.distinct_of h.1.2 h.2⟩, h.1.1.1.1.1.2⟩).of_eq
      fun s => by rw [stmt]
  | .traitDecl name body, p => by
    have hname := (checks_declareDefined name p).comp (walks_setClass .plain _).checks
    have hall := (hname.comp (checks_uses body _)).comp (checks_members body _)
    have hclass := hall.restoreClass (Place.grows_declare name p)
    exact (hclass.imp fun h => ⟨ClassBody.distinct_of h.1.2 h.2, h.1.1.1⟩).of_eq fun s => by
      rw [stmt]

theorem checks_stmts : (statements : List Stmt) → (p : Place) →
    Checks (stmts statements) p (Stmt.afterAll statements p)
    (Stmt.DistinctAll statements ∧ Keeps p (Stmt.afterAll statements p))
  | [], p => ((walks_id p).checks.imp fun _ => ⟨trivial, id⟩).of_eq fun s => by rw [stmts]
  | first :: rest, p =>
    (((checks_stmt first p).comp (checks_stmts rest _)).imp
      fun h => ⟨⟨h.1.1, h.2.1⟩, fun hnodup => h.2.2 (h.1.2 hnodup)⟩).of_eq fun s => by rw [stmts]

theorem checks_stmt? : (statement : Option Stmt) → (p : Place) →
    Checks (stmt? statement) p (Stmt.after? statement p)
    (Stmt.Distinct? statement ∧ Keeps p (Stmt.after? statement p))
  | none, p => ((walks_id p).checks.imp fun _ => ⟨trivial, id⟩).of_eq fun s => by rw [stmt?]
  | some statement, p => (checks_stmt statement p).of_eq fun s => by rw [stmt?]

end

end Resolve

/-- No scope of a program that is accepted declares a name twice. -/
theorem distinct_of_resolve {statements : List Stmt} (hnone : (resolve statements).errors = []) :
    Stmt.DistinctAll statements :=
  ((Resolve.checks_stmts statements .top).holds {} Resolve.tracks_initial hnone).1

end TraitScript
