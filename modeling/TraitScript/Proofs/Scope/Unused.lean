import TraitScript.Proofs.Scope.Closing
import TraitScript.Proofs.Scope.OwnInitializer

/-!
# Unused locals are reported exactly

What a scope reports when it is closed is said by its text: the first declarations of its names,
less those that a variable inside it is bound to. Errors of other kinds make no difference, nor does
the order of the entries in the table of the scope.
-/

namespace TraitScript

namespace Resolve

open State

/-! ### Whole trees -/

mutual

theorem closes_expr :
    (e : Expr) → (p : Place) → Closes (expr e) p p (e.uses p) (e.parts p) [] (e.regions p)
  | .literal _, p => (closes_id p).onTracked fun s _ => by rw [expr]
  | .group inner, p => (closes_expr inner p).onTracked fun s _ => by rw [expr]
  | .unary _ right, p => (closes_expr right p).onTracked fun s _ => by rw [expr]
  | .binary left _ right, p =>
    ((closes_expr left p).comp (closes_expr right p)).onTracked fun s _ => by rw [expr]
  | .logical left _ right, p =>
    ((closes_expr left p).comp (closes_expr right p)).onTracked fun s _ => by rw [expr]
  | .conditional condition thenBranch elseBranch, p =>
    (((closes_expr condition p).comp (closes_expr thenBranch p)).comp
      (closes_expr elseBranch p)).onTracked fun s _ => by rw [expr]
  | .variable id name, p => (closes_resolveVariable id name p).onTracked fun s _ => by rw [expr]
  | .assign id name value, p => by
    have hwhole := (closes_expr value p).comp (closes_write id name p)
    simp only [List.append_nil] at hwhole
    exact hwhole.onTracked fun s _ => by rw [expr]
  | .call callee _ arguments, p =>
    ((closes_expr callee p).comp (closes_exprs arguments p)).onTracked fun s _ => by rw [expr]
  | .function decl, p => (closes_function .function decl p).onTracked fun s _ => by rw [expr]
  | .get object _, p => (closes_expr object p).onTracked fun s _ => by rw [expr]
  | .set object _ value, p =>
    ((closes_expr value p).comp (closes_expr object p)).onTracked fun s _ => by rw [expr]
  | .this id keyword, p => (closes_resolveThis id keyword p).onTracked fun s _ => by rw [expr]
  | .super id keyword _, p => (closes_resolveSuper id keyword p).onTracked fun s _ => by rw [expr]

theorem closes_exprs :
    (es : List Expr) → (p : Place) →
      Closes (exprs es) p p (Expr.usesAll es p) (Expr.partsAll es p) [] (Expr.regionsAll es p)
  | [], p => (closes_id p).onTracked fun s _ => by rw [exprs]
  | first :: rest, p =>
    ((closes_expr first p).comp (closes_exprs rest p)).onTracked fun s _ => by rw [exprs]

theorem closes_expr? :
    (e : Option Expr) → (p : Place) →
      Closes (expr? e) p p (Expr.uses? e p) (Expr.parts? e p) [] (Expr.regions? e p)
  | none, p => (closes_id p).onTracked fun s _ => by rw [expr?]
  | some e, p => (closes_expr e p).onTracked fun s _ => by rw [expr?]

theorem closes_references : (es : List Expr) → (p : Place) →
    Closes (exprs es) p p (Expr.references es p) (Expr.partsAll es p) [] (Expr.regionsAll es p)
  | [], p => (closes_id p).onTracked fun s _ => by rw [exprs]
  | first :: rest, p => by
    have hboth := (closes_expr first p).comp (closes_references rest p)
    exact (hboth.cons_silent (silent_reference p first) rfl).onTracked fun s _ => by rw [exprs]

theorem closes_function (kind : FunctionKind) : (decl : FunctionDecl) → (p : Place) →
    Closes (function kind decl) p p (decl.uses kind p) (decl.parts kind p) [] (decl.regions kind p)
  | ⟨name, params, body, isGetter⟩, p => by
    have hbody := closes_stmts body (p.enterFunction kind ⟨name, params, body, isGetter⟩)
    exact ((hbody.append_params params).function (Stmt.grows_afterAll body _)).onTracked
      fun s _ => by rw [function]

theorem closes_methods (site : Site) : (decls : List FunctionDecl) → (p : Place) →
    Closes (methods decls) (p.enter site ["this"]) (p.enter site ["this"])
    (FunctionDecl.usesAll .ofInstance decls p)
      (FunctionDecl.partsAll .ofInstance decls p) [] (FunctionDecl.regionsAll .ofInstance decls p)
  | [], p => (closes_id _).onTracked fun s _ => by rw [methods]
  | decl :: rest, p =>
    ((closes_function (methodKind decl) decl
      (p.enter (.receiver .ofInstance decl) ["this"])).change_site
      (inspects_function _ decl _) site |>.comp
      (closes_methods site rest p)).onTracked fun s _ => by rw [methods]

theorem closes_classMethods (site : Site) : (decls : List FunctionDecl) → (p : Place) →
    Closes (classMethods decls) (p.enter site ["this"]) (p.enter site ["this"])
    (FunctionDecl.usesAll .ofClass decls p)
      (FunctionDecl.partsAll .ofClass decls p) [] (FunctionDecl.regionsAll .ofClass decls p)
  | [], p => (closes_id _).onTracked fun s _ => by rw [classMethods]
  | decl :: rest, p =>
    ((closes_function .method decl (p.enter (.receiver .ofClass decl) ["this"])).change_site
      (inspects_function _ decl _) site |>.comp
      (closes_classMethods site rest p)).onTracked fun s _ => by rw [classMethods]

theorem closes_members :
    (body : ClassBody) → (p : Place) →
      Closes (members body) p p (body.memberUses p) (body.memberParts p) [] (body.memberRegions p)
  | ⟨_, instanceMethods, staticMethods⟩, p => by
    have hmembers := (closes_methods (.block []) instanceMethods p).comp
      (closes_classMethods (.block []) staticMethods p)
    exact (hmembers.inImplicit (.refl _)).onTracked fun s _ => by rw [members]

theorem closes_uses :
    (body : ClassBody) → (p : Place) →
      Closes (uses body) p p (body.traitUses p) (body.traitParts p) [] (body.traitRegions p)
  | ⟨traits, _, _⟩, p => (closes_references traits p).onTracked fun s _ => by rw [uses]

theorem closes_stmt : (statement : Stmt) → (p : Place) →
    Closes (stmt statement) p (statement.after p) (statement.uses p) (statement.parts p)
    statement.declares (statement.regions p)
  | .expression value, p => ((closes_expr value p).onTracked fun s _ => by rw [stmt]).part
  | .print value, p => ((closes_expr value p).onTracked fun s _ => by rw [stmt]).part
  | .variable name initial, p => by
    have hwhole :=
      ((closes_declare true name rfl).comp (closes_expr? initial (p.declare name))).comp
        (closes_define name _)
    simp only [List.append_nil] at hwhole
    exact (hwhole.onTracked fun s _ => by rw [stmt]).part
  | .block statements, p =>
    (((closes_stmts statements (p.enter (.block statements) [])).inScope
      (Stmt.grows_afterAll statements _)).onTracked fun s _ => by rw [stmt]).part
  | .ifElse condition thenBranch elseBranch, p => by
    have hwhole :=
      ((closes_expr condition p).comp (closes_stmt thenBranch p)).comp (closes_stmt? elseBranch _)
    exact (hwhole.onTracked fun s _ => by rw [stmt]).part
  | .whileLoop condition body, p => by
    have hbody := closes_stmt body p.enterLoop
    rw [Stmt.after_enterLoop] at hbody
    have hwhole :=
      (closes_expr condition p).comp (hbody.inLoop (loopDepth_stmt body) (body.grows_after p))
    exact (hwhole.onTracked fun s _ => by rw [stmt]).part
  | .forLoop initial condition increment body, p => by
    let first := p.enter (.loop (.forLoop initial condition increment body)) []
    have hinitial := closes_stmt? initial first
    have hbody := closes_stmt body (Stmt.after? initial first).enterLoop
    rw [Stmt.after_enterLoop] at hbody
    have hclauses := (hinitial.comp (closes_expr? condition _)).comp (closes_expr? increment _)
    have hinside := hclauses.comp (hbody.inLoop (loopDepth_stmt body) (body.grows_after _))
    have hscoped := hinside.inScope ((Stmt.grows_after? initial first).trans (body.grows_after _))
    simp only [List.append_nil] at hscoped
    exact (hscoped.onTracked fun s _ => by rw [stmt]).part
  | .jump keyword kind, p => ((closes_jump keyword kind p).onTracked fun s _ => by rw [stmt]).part
  | .function ⟨none, params, body, isGetter⟩, p =>
    ((closes_function .function ⟨none, params, body, isGetter⟩ p).onTracked
      fun s _ => by rw [stmt]).part
  | .function ⟨some name, params, body, isGetter⟩, p => by
    have hwhole := (closes_declareDefined false name rfl).comp
      (closes_function .function ⟨some name, params, body, isGetter⟩ (p.declare name))
    exact (hwhole.onTracked fun s _ => by rw [stmt]).part
  | .returnValue keyword value, p => by
    have hwhole := (closes_checkReturn keyword value.isSome p).comp (closes_expr? value p)
    exact (hwhole.onTracked fun s _ => by rw [stmt]).part
  | .classDecl name none body, p => by
    have hname :=
      (closes_setClass .plain p).comp
        (closes_declareDefined false name (show p.scopes = (p.inClass .plain).scopes from rfl))
    rw [Place.declare_inClass] at hname
    have hwhole := (hname.comp (closes_uses body _)).comp (closes_members body _)
    exact ((hwhole.restoreClass (Place.grows_declare name p)).onTracked
      fun s _ => by rw [stmt]).part
  | .classDecl name (some superclass) body, p => by
    have hname :=
      (closes_setClass .plain p).comp
        (closes_declareDefined false name (show p.scopes = (p.inClass .plain).scopes from rfl))
    rw [Place.declare_inClass] at hname
    have hkind :=
      (hname.comp (closes_checkSuperclass name superclass _)).comp (closes_setClass .subclass _)
    have hparent := (closes_expr superclass ((p.declare name).inClass .subclass)).cons_silent
      (silent_reference ((p.declare name).inClass .subclass) superclass) rfl
    let around := ((p.declare name).inClass .subclass).enter
      (.superclass (.classDecl name (some superclass) body)) ["super"]
    have hmembers := (closes_members body around).inImplicit (.refl _)
    have hwhole := ((hkind.comp hparent).comp (closes_uses body _)).comp hmembers
    exact ((hwhole.restoreClass (Place.grows_declare name p)).onTracked
      fun s _ => by rw [stmt]).part
  | .traitDecl name body, p => by
    have hname := (closes_declareDefined false name (show p.scopes = p.scopes from rfl)).comp
      (closes_setClass .plain _)
    have hwhole := (hname.comp (closes_uses body _)).comp (closes_members body _)
    exact ((hwhole.restoreClass (Place.grows_declare name p)).onTracked
      fun s _ => by rw [stmt]).part

theorem closes_stmts : (statements : List Stmt) → (p : Place) →
    Closes (stmts statements) p (Stmt.afterAll statements p) (Stmt.usesAll statements p)
    (Stmt.partsAll statements p)
      (Stmt.declaresAll statements) (Stmt.regionsAll statements p)
  | [], p => (closes_id p).onTracked fun s _ => by rw [stmts]
  | first :: rest, p =>
    ((closes_stmt first p).comp (closes_stmts rest _)).onTracked fun s _ => by rw [stmts]

theorem closes_stmt? : (statement : Option Stmt) → (p : Place) →
    Closes (stmt? statement) p (Stmt.after? statement p) (Stmt.uses? statement p)
    (Stmt.parts? statement p) (Stmt.declares? statement)
      (Stmt.regions? statement p)
  | none, p => (closes_id p).onTracked fun s _ => by rw [stmt?]
  | some statement, p => (closes_stmt statement p).onTracked fun s _ => by rw [stmt?]

end

end Resolve

/-! ### Whole programs -/

/-- A variable inside the scope of a region reads a name and is bound in that scope. -/
def Region.Reads (r : Region) (name : String) : Prop :=
  ∃ p id token, (p, .read id token) ∈ r.uses ∧ token.lexeme = name ∧
    p.distance? name = some (p.scopes.length - 1 - r.height)

namespace Region

variable {r : Region} {us : Uses}

/-- A name that scripts can declare counts as read if a variable reads it. -/
theorem LiesIn.reads_iff (h : r.LiesIn us) (hgenuine : Uses.Genuine us) {name : String}
    (hordinary : Ordinary name) :
    (r.height, name) ∈ r.uses.filterMap Resolve.reads? ↔ r.Reads name := by
  constructor
  · intro hread
    obtain ⟨⟨p, use⟩, hu, hreads⟩ := List.mem_filterMap.1 hread
    obtain ⟨hvariable, hheight⟩ :=
      Resolve.reads_of_reads? (hgenuine _ (h.within.subset hu)) hordinary hreads
    obtain ⟨id, token, rfl, rfl⟩ := Use.reads_iff.1 hvariable
    exact ⟨p, id, token, hu, rfl, Resolve.distance?_of_height? hheight⟩
  · rintro ⟨p, id, token, hu, rfl, hdistance⟩
    refine List.mem_filterMap.2 ⟨_, hu, ?_⟩
    have hdeeper : r.height < p.scopes.length := h.deeper _ hu
    have hheight : p.scopes.length - 1 - (p.scopes.length - 1 - r.height) = r.height := by omega
    simp only [Resolve.reads?, Place.height?, hdistance, Option.map_some, hheight]

theorem LiesIn.mem_reported (h : r.LiesIn us) (hgenuine : Uses.Genuine us) (token : Token) :
    token ∈ r.reported ↔ Declaration.first? r.declared token.lexeme = some token ∧
      token.lexeme ∉ r.given ∧ ¬ r.Reads token.lexeme := by
  rw [reported, (Resolve.perm_sortTokens _).mem_iff, mem_unused]
  refine and_congr_right fun hfirst => and_congr_right fun _ => not_congr (h.reads_iff hgenuine ?_)
  obtain ⟨declaration, hdeclaration, rfl⟩ := Declaration.mem_of_first? hfirst
  obtain ⟨place, hplace⟩ := h.listed declaration hdeclaration
  exact hgenuine _ (h.within.subset hplace)

end Region

/-- Of a program that is read from text, whatever else is wrong with it, the errors about unused
locals are those of its scopes in the order in which these are closed. Each scope reports at once
and whatever the order of the entries in its table, by line and by name, the first declarations of
just those names that are no parameters, `this` or `super` and that no variable is bound to. -/
theorem unused_locals_exact (source : Source) (firstId : Nat) :
    let statements := (parseProgram (.ofSource source) firstId).value
    (resolve statements).errors.filter (·.isUnused) =
      (programRegions statements).flatMap Region.reports ∧
      (resolve statements).bindings = (programUses statements).filterMap Resolve.binding? ∧
      ∀ r ∈ programRegions statements,
        (∃ before after s, programUses statements = before ++ r.uses ++ after ∧
            s.bindings = (before ++ r.uses).filterMap Resolve.binding? ∧
          r.ClosesIn s ∧ s.endScope.errors <+: (resolve statements).errors) ∧
        r.reported.Pairwise Token.Before ∧
        ∀ token, token ∈ r.reported ↔
          Declaration.first? r.declared token.lexeme = some token ∧ token.lexeme ∉ r.given ∧
          ¬ r.Reads token.lexeme := by
  intro statements
  have hcloses := Resolve.closes_stmts statements .top
  have hgenuine : Uses.Genuine (programUses statements) :=
    (parseProgram_written source firstId).2.meets
  have hdistinct : Resolve.State.Distinct {} := nofun
  refine ⟨?_, (Resolve.resolve_programUses statements).1, fun r hr => ?_⟩
  · obtain ⟨added, hadded, hfilter⟩ := hcloses.adds {} Resolve.tracks_initial hdistinct
    have herrors : (resolve statements).errors = added := hadded
    rw [herrors, hfilter, programRegions]
  · have hinside := hcloses.inside r hr
    exact ⟨hcloses.closings {} Resolve.tracks_initial hdistinct r hr,
      Resolve.pairwise_before_sortTokens r.nodup_unused,
      hinside.mem_reported hgenuine⟩

end TraitScript
