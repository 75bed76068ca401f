import TraitScript.Proofs.Scope.Place

/-!
# Places inside the members of a class

Where `super` stands there is a method around it, the scope of `this` around that method, and the
scope of `super` around all members of the class. What is between the occurrence and the method are
function bodies, blocks and loops only, so the class is the nearest one around the occurrence.
-/

namespace TraitScript

/-- Names that a script can declare and assign. -/
def Ordinary (name : String) : Prop := name ≠ "this" ∧ name ≠ "super"

def ClassBody.members (body : ClassBody) : MethodKind → List FunctionDecl
  | .ofInstance => body.methods
  | .ofClass => body.classMethods

/-- Whether a class has a method of a kind in its own body. -/
def Stmt.HasMember : Stmt → MethodKind → FunctionDecl → Prop
  | .classDecl _ _ body, kind, decl => decl ∈ body.members kind
  | _, _, _ => False

/-- A class that refers to its superclass and to its traits by name. -/
def Stmt.NamesParents : Stmt → Prop
  | .classDecl _ (some parent) body =>
    ∀ expr ∈ parent :: body.traits, ∃ id name, expr = .variable id name
  | _ => False

/-- Scopes in which a script declares names. -/
def Site.IsPlain : Site → Prop
  | .block _ | .loop _ | .function _ => True
  | .receiver .. | .superclass _ => False

/-- The scopes from a place up to the scope of `super` of the nearest class around it. -/
structure Place.SuperAt (p : Place) (distance : Nat) (declaration : Stmt) (kind : MethodKind)
    (decl : FunctionDecl) : Prop where
  distance_eq : p.distance? "super" = some distance
  two_le : 2 ≤ distance
  superclass : p.sites[distance]? = some (.superclass declaration)
  receiver : p.sites[distance - 1]? = some (.receiver kind decl)
  nearer : ∀ site ∈ p.sites.take (distance - 1), site.IsPlain
  member : declaration.HasMember kind decl
  named : declaration.NamesParents

/-- Names, keywords and references are as in trees read from text. -/
def Use.Genuine : Use → Prop
  | .read _ name | .write _ name | .declare name => Ordinary name.lexeme
  | .this _ keyword => keyword.lexeme = "this"
  | .super _ keyword => keyword.lexeme = "super"
  | .reference expr => ∃ id name, expr = .variable id name
  | .jump .. | .returnValue .. => True

def Uses.Genuine (us : Uses) : Prop := ∀ u ∈ us, u.2.Genuine

@[simp] theorem Uses.genuine_cons {u : Place × Use} {us : Uses} :
    Uses.Genuine (u :: us) ↔ u.2.Genuine ∧ Uses.Genuine us := by
  simp [Uses.Genuine]

@[simp] theorem Uses.genuine_append {us vs : Uses} :
    Uses.Genuine (us ++ vs) ↔ Uses.Genuine us ∧ Uses.Genuine vs := by
  simp [Uses.Genuine, or_imp, forall_and]

/-! ### Going inward -/

namespace Place

/-- Where a class is a subclass, the scopes of its members are around. -/
def InMember (p : Place) : Prop :=
  p.classKind = .subclass → ∃ distance declaration kind decl,
    p.SuperAt distance declaration kind decl

theorem InMember.of_eq {p q : Place} (h : p.InMember) (hscopes : q.scopes = p.scopes)
    (hkind : q.classKind = p.classKind) : q.InMember := by
  intro hsub
  obtain ⟨distance, declaration, kind, decl, hat⟩ := h (hkind ▸ hsub)
  refine ⟨distance, declaration, kind, decl, ?_, hat.two_le, ?_, ?_, ?_, hat.member, hat.named⟩
  · rw [distance?, hscopes]
    exact hat.distance_eq
  · rw [sites, hscopes]
    exact hat.superclass
  · rw [sites, hscopes]
    exact hat.receiver
  · rw [sites, hscopes]
    exact hat.nearer

/-- An ordinary name in the innermost scope hides no `super`. -/
theorem distance?_declare {p : Place} {name : Token} {other : String} (h : other ≠ name.lexeme) :
    (p.declare name).distance? other = p.distance? other := by
  unfold declare
  split
  · rfl
  next scope outer hscopes => simp [distance?, hscopes, List.findIdx?_cons, h]

theorem InMember.declare {p : Place} (h : p.InMember) {name : Token}
    (hname : Ordinary name.lexeme) : (p.declare name).InMember := by
  intro hsub
  obtain ⟨distance, declaration, kind, decl, hat⟩ := h ((grows_declare name p).classKind ▸ hsub)
  refine ⟨distance, declaration, kind, decl, ?_, hat.two_le, ?_, ?_, ?_, hat.member, hat.named⟩
  · rw [distance?_declare (Ne.symm hname.2)]
    exact hat.distance_eq
  · rw [sites_declare]
    exact hat.superclass
  · rw [sites_declare]
    exact hat.receiver
  · rw [sites_declare]
    exact hat.nearer

theorem InMember.declareAll {p : Place} (h : p.InMember) {names : List Token}
    (hnames : ∀ name ∈ names, Ordinary name.lexeme) :
    (p.declareAll names).InMember := by
  induction names generalizing p with
  | nil => exact h
  | cons name rest ih =>
      exact ih (h.declare (hnames name (List.mem_cons_self ..))) fun other hother =>
        hnames other (List.mem_cons_of_mem _ hother)

/-- A scope in which nothing is declared yet puts everything one scope further out. -/
theorem InMember.enter {p : Place} (h : p.InMember) (site : Site) (hplain : site.IsPlain) :
    (p.enter site []).InMember := by
  intro hsub
  obtain ⟨distance, declaration, kind, decl, hat⟩ := h hsub
  obtain ⟨n, rfl⟩ : ∃ n, distance = n + 1 := ⟨distance - 1, by have := hat.two_le; omega⟩
  refine ⟨n + 2, declaration, kind, decl, ?_,
    by omega, hat.superclass, hat.receiver, ?_, hat.member, hat.named⟩
  · have hinner : p.scopes.findIdx? ("super" ∈ ·.names) = some (n + 1) := hat.distance_eq
    simp [distance?, Place.enter, List.findIdx?_cons, hinner]
  · intro other hother
    rcases List.mem_cons.1 hother with rfl | hother
    · exact hplain
    · exact hat.nearer other hother

/-- A member of a subclass, with its own parameters only, stands two scopes inside the scope of
`super`. -/
theorem inMember_method {p : Place} {declaration : Stmt} {kind : MethodKind} {decl : FunctionDecl}
    (hmember : declaration.HasMember kind decl) (hnamed : declaration.NamesParents)
    (functionKind : Resolve.FunctionKind) (hparams : ∀ name ∈ decl.params, Ordinary name.lexeme) :
    (((p.enter (.superclass declaration) ["super"]).enter (.receiver kind decl)
      ["this"]).enterFunction functionKind decl).InMember := by
  refine InMember.declareAll
    (fun _ => ⟨2, declaration, kind, decl, ?_, Nat.le_refl 2, rfl, rfl, ?_, hmember, hnamed⟩)
      hparams
  · simp [distance?, Place.enter, List.findIdx?_cons]
  · intro site hsite
    rw [List.mem_singleton.1 hsite]
    trivial

theorem InMember.enterFunction {p : Place} (h : p.InMember) {decl : FunctionDecl}
    (kind : Resolve.FunctionKind) (hparams : ∀ name ∈ decl.params, Ordinary name.lexeme) :
    (p.enterFunction kind decl).InMember := by
  have hempty :
      { p.enter (.function decl) [] with functionKind := kind, inLoop := false }.InMember :=
    (h.enter (.function decl) trivial).of_eq rfl rfl
  exact hempty.declareAll hparams

/-- In a class without a superclass there is nothing to show. -/
theorem inMember_of_plain {p : Place} (h : p.classKind = .plain) : p.InMember := by
  intro hsub
  rw [h] at hsub
  cases hsub

end Place

mutual

theorem Stmt.inMember_after :
    (stmt : Stmt) → {p : Place} → p.InMember → Uses.Genuine (stmt.uses p) → (stmt.after p).InMember
  | .variable name _, p, h, huses => by
    rw [Stmt.uses, Uses.genuine_cons] at huses
    exact h.declare huses.1
  | .ifElse _ thenBranch elseBranch, p, h, huses => by
    rw [Stmt.uses, Uses.genuine_append, Uses.genuine_append] at huses
    exact Stmt.inMember_after? elseBranch (thenBranch.inMember_after h huses.1.2) huses.2
  | .whileLoop _ body, p, h, huses => by
    rw [Stmt.uses, Uses.genuine_append] at huses
    have hbody := body.inMember_after (h.of_eq (q := p.enterLoop) rfl rfl) huses.2
    rw [Stmt.after_enterLoop] at hbody
    exact hbody.of_eq rfl rfl
  | .function ⟨none, _, _, _⟩, _, h, _ => h
  | .function ⟨some name, _, _, _⟩, p, h, huses => by
    rw [Stmt.uses, Uses.genuine_append] at huses
    exact h.declare (huses.1 _ (List.mem_singleton_self _))
  | .classDecl name none _, p, h, huses | .classDecl name (some _) _, p, h, huses
  | .traitDecl name _, p, h, huses => by
    simp only [Stmt.uses, List.cons_append, Uses.genuine_cons] at huses
    exact h.declare huses.1
  | .expression _, _, h, _ | .print _, _, h, _ | .block _, _, h, _ | .forLoop .., _, h, _
  | .jump .., _, h, _ | .returnValue .., _, h, _ => h

theorem Stmt.inMember_after? :
    (stmt : Option Stmt) → {p : Place} → p.InMember → Uses.Genuine (Stmt.uses? stmt p) →
    (Stmt.after? stmt p).InMember
  | none, _, h, _ => h
  | some stmt, p, h, huses => by
    rw [Stmt.uses?] at huses
    exact stmt.inMember_after h huses

end

/-! ### Every occurrence of `super` -/

/-- Occurrences of `super` stand in members, as far as they stand in subclasses. -/
def Uses.SupersInMembers (us : Uses) : Prop :=
  ∀ (p : Place) (id : Nat) (keyword : Token), (p, .super id keyword) ∈ us → p.InMember

namespace Uses.SupersInMembers

theorem nil : Uses.SupersInMembers [] := fun _ _ _ h => nomatch h

theorem cons {p : Place} {use : Use} {us : Uses} (h : Uses.SupersInMembers us)
    (huse : ∀ id keyword, use ≠ .super id keyword) :
    Uses.SupersInMembers ((p, use) :: us) := by
  intro q id keyword hmem
  rcases List.mem_cons.1 hmem with heq | hrest
  · exact (huse id keyword (Prod.mk.inj heq).2.symm).elim
  · exact h q id keyword hrest

theorem append {us vs : Uses} (h : Uses.SupersInMembers us) (h' : Uses.SupersInMembers vs) :
    Uses.SupersInMembers (us ++ vs) :=
  fun p id keyword hmem => (List.mem_append.1 hmem).elim (h p id keyword) (h' p id keyword)

theorem single {p : Place} (h : p.InMember) (use : Use) : Uses.SupersInMembers [(p, use)] := by
  intro q id keyword hmem
  rw [(Prod.mk.inj (List.mem_singleton.1 hmem)).1]
  exact h

theorem of_variable (p : Place) (id : Nat) (name : Token) :
    Uses.SupersInMembers ((Expr.variable id name).uses p) := by
  rw [Expr.uses]
  exact nil.cons fun _ _ heq => nomatch heq

end Uses.SupersInMembers

/-- Superclasses and traits are named, so what a class refers to holds no `super`. -/
theorem Expr.supersInMembers_references {exprs : List Expr} {p : Place}
    (huses : Uses.Genuine (Expr.references exprs p)) :
    Uses.SupersInMembers (Expr.references exprs p) := by
  induction exprs with
  | nil =>
      rw [Expr.references]
      exact .nil
  | cons expr rest ih =>
      simp only [Expr.references, List.cons_append, Uses.genuine_cons,
        Uses.genuine_append] at huses ⊢
      obtain ⟨id, name, rfl⟩ := huses.1
      exact ((Uses.SupersInMembers.of_variable p id name).append (ih huses.2.2)).cons
        fun _ _ => nofun

theorem Expr.variable_of_mem_references {exprs : List Expr} {p : Place}
    (huses : Uses.Genuine (Expr.references exprs p)) :
    ∀ expr ∈ exprs, ∃ id name, expr = .variable id name := by
  induction exprs with
  | nil => exact nofun
  | cons expr rest ih =>
      simp only [Expr.references, List.cons_append, Uses.genuine_cons, Uses.genuine_append] at huses
      exact List.forall_mem_cons.2 ⟨huses.1, ih huses.2.2⟩

theorem ClassBody.supersInMembers_traitUses {body : ClassBody} {p : Place}
    (huses : Uses.Genuine (body.traitUses p)) :
    Uses.SupersInMembers (body.traitUses p) := by
  obtain ⟨traits, _, _⟩ := body
  rw [ClassBody.traitUses] at huses ⊢
  exact Expr.supersInMembers_references huses

theorem ClassBody.variable_of_mem_traits {body : ClassBody} {p : Place}
    (huses : Uses.Genuine (body.traitUses p)) :
    ∀ expr ∈ body.traits, ∃ id name, expr = .variable id name := by
  obtain ⟨traits, _, _⟩ := body
  rw [ClassBody.traitUses] at huses
  exact Expr.variable_of_mem_references huses

mutual

theorem Expr.supersInMembers :
    (expr : Expr) → {p : Place} → p.InMember → Uses.Genuine (expr.uses p) →
      Uses.SupersInMembers (expr.uses p)
  | .literal _, p, _, _ => by
    rw [Expr.uses]
    exact .nil
  | .group inner, p, h, huses | .unary _ inner, p, h, huses | .get inner _, p, h, huses => by
    rw [Expr.uses] at huses ⊢
    exact inner.supersInMembers h huses
  | .binary left _ right, p, h, huses | .logical left _ right, p, h, huses => by
    rw [Expr.uses, Uses.genuine_append] at huses
    rw [Expr.uses]
    exact (left.supersInMembers h huses.1).append (right.supersInMembers h huses.2)
  | .conditional condition thenBranch elseBranch, p, h, huses => by
    rw [Expr.uses, Uses.genuine_append, Uses.genuine_append] at huses
    rw [Expr.uses]
    exact ((condition.supersInMembers h huses.1.1).append
      (thenBranch.supersInMembers h huses.1.2)).append
      (elseBranch.supersInMembers h huses.2)
  | .variable _ _, p, h, _ | .this _ _, p, h, _ | .super _ _ _, p, h, _ => by
    rw [Expr.uses]
    exact .single h _
  | .assign _ _ value, p, h, huses => by
    rw [Expr.uses, Uses.genuine_append] at huses
    rw [Expr.uses]
    exact (value.supersInMembers h huses.1).append (.single h _)
  | .call callee _ arguments, p, h, huses => by
    rw [Expr.uses, Uses.genuine_append] at huses
    rw [Expr.uses]
    exact (callee.supersInMembers h huses.1).append (Expr.supersInMembersAll arguments h huses.2)
  | .function decl, p, h, huses => by
    rw [Expr.uses] at huses ⊢
    exact decl.supersInMembers _ (fun hparams => h.enterFunction _ hparams) huses
  | .set object _ value, p, h, huses => by
    rw [Expr.uses, Uses.genuine_append] at huses
    rw [Expr.uses]
    exact (value.supersInMembers h huses.1).append (object.supersInMembers h huses.2)

theorem Expr.supersInMembersAll :
    (exprs : List Expr) → {p : Place} → p.InMember → Uses.Genuine (Expr.usesAll exprs p) →
    Uses.SupersInMembers (Expr.usesAll exprs p)
  | [], p, _, _ => by
    rw [Expr.usesAll]
    exact .nil
  | first :: rest, p, h, huses => by
    rw [Expr.usesAll, Uses.genuine_append] at huses
    rw [Expr.usesAll]
    exact (first.supersInMembers h huses.1).append (Expr.supersInMembersAll rest h huses.2)

theorem Expr.supersInMembers? :
    (expr : Option Expr) → {p : Place} → p.InMember → Uses.Genuine (Expr.uses? expr p) →
    Uses.SupersInMembers (Expr.uses? expr p)
  | none, p, _, _ => by
    rw [Expr.uses?]
    exact .nil
  | some expr, p, h, huses => by
    rw [Expr.uses?] at huses ⊢
    exact expr.supersInMembers h huses

/-- The place of a function's body depends on where the function stands, and on its parameters being
ordinary. -/
theorem FunctionDecl.supersInMembers :
    (decl : FunctionDecl) → (kind : Resolve.FunctionKind) → {p : Place} →
    ((∀ name ∈ decl.params, Ordinary name.lexeme) → (p.enterFunction kind decl).InMember) →
    Uses.Genuine (decl.uses kind p) →
    Uses.SupersInMembers (decl.uses kind p)
  | ⟨name, params, body, isGetter⟩, kind, p, h, huses => by
    rw [FunctionDecl.uses, Uses.genuine_append] at huses
    rw [FunctionDecl.uses]
    have hinside := h fun param hparam => huses.1 _ (List.mem_map_of_mem hparam)
    refine Uses.SupersInMembers.append (fun _ _ _ hmem => ?_)
      (Stmt.supersInMembersAll body hinside huses.2)
    obtain ⟨param, -, heq⟩ := List.mem_map.1 hmem
    cases heq

theorem FunctionDecl.supersInMembersAll (kind : MethodKind) :
    (decls : List FunctionDecl) → {p : Place} →
    (∀ decl ∈ decls, (∀ name ∈ decl.params, Ordinary name.lexeme) →
      ((p.enter (.receiver kind decl) ["this"]).enterFunction (kind.bodyKind decl) decl).InMember) →
    Uses.Genuine (FunctionDecl.usesAll kind decls p) →
    Uses.SupersInMembers (FunctionDecl.usesAll kind decls p)
  | [], p, _, _ => by
    rw [FunctionDecl.usesAll]
    exact .nil
  | decl :: rest, p, h, huses => by
    rw [FunctionDecl.usesAll, Uses.genuine_append] at huses
    rw [FunctionDecl.usesAll]
    have hrest := FunctionDecl.supersInMembersAll kind rest
      (fun other hother => h other (List.mem_cons_of_mem _ hother)) huses.2
    exact (decl.supersInMembers _ (h decl (List.mem_cons_self ..)) huses.1).append hrest

theorem ClassBody.supersInMembers : (body : ClassBody) → {p : Place} →
    (∀ kind, ∀ decl ∈ body.members kind, (∀ name ∈ decl.params, Ordinary name.lexeme) →
      ((p.enter (.receiver kind decl) ["this"]).enterFunction (kind.bodyKind decl) decl).InMember) →
    Uses.Genuine (body.memberUses p) → Uses.SupersInMembers (body.memberUses p)
  | ⟨_, methods, classMethods⟩, p, h, huses => by
    rw [ClassBody.memberUses, Uses.genuine_append] at huses
    rw [ClassBody.memberUses]
    exact (FunctionDecl.supersInMembersAll .ofInstance methods (h .ofInstance) huses.1).append
      (FunctionDecl.supersInMembersAll .ofClass classMethods (h .ofClass) huses.2)

theorem Stmt.supersInMembers :
    (stmt : Stmt) → {p : Place} → p.InMember → Uses.Genuine (stmt.uses p) →
      Uses.SupersInMembers (stmt.uses p)
  | .expression value, p, h, huses | .print value, p, h, huses => by
    rw [Stmt.uses] at huses ⊢
    exact value.supersInMembers h huses
  | .variable name initial, p, h, huses => by
    rw [Stmt.uses, Uses.genuine_cons] at huses
    rw [Stmt.uses]
    exact (Expr.supersInMembers? initial (h.declare huses.1) huses.2).cons fun _ _ => nofun
  | .block statements, p, h, huses => by
    rw [Stmt.uses] at huses ⊢
    exact Stmt.supersInMembersAll statements (h.enter _ trivial) huses
  | .ifElse condition thenBranch elseBranch, p, h, huses => by
    rw [Stmt.uses, Uses.genuine_append, Uses.genuine_append] at huses
    rw [Stmt.uses]
    exact ((condition.supersInMembers h huses.1.1).append
      (thenBranch.supersInMembers h huses.1.2)).append
      (Stmt.supersInMembers? elseBranch (thenBranch.inMember_after h huses.1.2) huses.2)
  | .whileLoop condition body, p, h, huses => by
    rw [Stmt.uses, Uses.genuine_append] at huses
    rw [Stmt.uses]
    exact (condition.supersInMembers h huses.1).append
      (body.supersInMembers (h.of_eq (q := p.enterLoop) rfl rfl) huses.2)
  | .forLoop initial condition increment body, p, h, huses => by
    simp only [Stmt.uses, Uses.genuine_append] at huses
    rw [Stmt.uses]
    obtain ⟨⟨⟨hinitial, hcondition⟩, hincrement⟩, hbody⟩ := huses
    have hfirst := h.enter (.loop (.forLoop initial condition increment body)) trivial
    have hinside := Stmt.inMember_after? initial hfirst hinitial
    exact (((Stmt.supersInMembers? initial hfirst hinitial).append
      (Expr.supersInMembers? condition hinside hcondition)).append
      (Expr.supersInMembers? increment hinside hincrement)).append
      (body.supersInMembers (hinside.of_eq rfl rfl) hbody)
  | .jump _ _, p, h, _ => by
    rw [Stmt.uses]
    exact .single h _
  | .function ⟨none, params, body, isGetter⟩, p, h, huses => by
    rw [Stmt.uses] at huses ⊢
    exact FunctionDecl.supersInMembers _ _ (fun hparams => h.enterFunction _ hparams) huses
  | .function ⟨some name, params, body, isGetter⟩, p, h, huses => by
    rw [Stmt.uses, Uses.genuine_append] at huses
    rw [Stmt.uses]
    have hname : (p.declare name).InMember := h.declare (huses.1 _ (List.mem_singleton_self _))
    exact (Uses.SupersInMembers.single h _).append
      (FunctionDecl.supersInMembers _ _ (fun hparams => hname.enterFunction _ hparams) huses.2)
  | .returnValue _ value, p, h, huses => by
    rw [Stmt.uses, Uses.genuine_cons] at huses
    rw [Stmt.uses]
    exact (Expr.supersInMembers? value h huses.2).cons fun _ _ => nofun
  | .classDecl name none body, p, h, huses | .traitDecl name body, p, h, huses => by
    simp only [Stmt.uses, List.cons_append, Uses.genuine_cons, Uses.genuine_append] at huses ⊢
    refine ((ClassBody.supersInMembers_traitUses huses.2.1).append
      (body.supersInMembers (fun kind decl _ _ => ?_) huses.2.2)).cons fun _ _ => nofun
    exact Place.inMember_of_plain (Place.grows_declareAll _ _).classKind
  | .classDecl name (some parent) body, p, h, huses => by
    simp only [Stmt.uses, List.cons_append, Uses.genuine_cons, Uses.genuine_append] at huses ⊢
    obtain ⟨-, ⟨id, token, rfl⟩, ⟨-, htraits⟩, hmembers⟩ := huses
    have hparent := Uses.SupersInMembers.of_variable ((p.declare name).inClass .subclass) id token
    have hnamed : (Stmt.classDecl name (some (.variable id token)) body).NamesParents :=
      List.forall_mem_cons.2
      ⟨⟨id, token, rfl⟩, ClassBody.variable_of_mem_traits htraits⟩
    have hhas : ∀ kind, ∀ decl ∈ body.members kind,
        (Stmt.classDecl name (some (.variable id token)) body).HasMember kind decl :=
      fun _ _ hdecl => hdecl
    have hbody :=
      body.supersInMembers
        (fun kind decl hdecl hparams =>
            Place.inMember_method (hhas kind decl hdecl) hnamed _ hparams)
      hmembers
    refine Uses.SupersInMembers.cons (Uses.SupersInMembers.cons ?_ fun _ _ => nofun)
      fun _ _ => nofun
    exact (hparent.append (ClassBody.supersInMembers_traitUses htraits)).append hbody

theorem Stmt.supersInMembersAll :
    (statements : List Stmt) → {p : Place} → p.InMember → Uses.Genuine (Stmt.usesAll statements p) →
    Uses.SupersInMembers (Stmt.usesAll statements p)
  | [], p, _, _ => by
    rw [Stmt.usesAll]
    exact .nil
  | first :: rest, p, h, huses => by
    rw [Stmt.usesAll, Uses.genuine_append] at huses
    rw [Stmt.usesAll]
    exact (first.supersInMembers h huses.1).append
      (Stmt.supersInMembersAll rest (first.inMember_after h huses.1) huses.2)

theorem Stmt.supersInMembers? :
    (stmt : Option Stmt) → {p : Place} → p.InMember → Uses.Genuine (Stmt.uses? stmt p) →
    Uses.SupersInMembers (Stmt.uses? stmt p)
  | none, p, _, _ => by
    rw [Stmt.uses?]
    exact .nil
  | some stmt, p, h, huses => by
    rw [Stmt.uses?] at huses ⊢
    exact stmt.supersInMembers h huses

end

/-- In a program as read from text, the scopes of a member are around every occurrence of `super` in
a subclass. -/
theorem supersInMembers_programUses {statements : List Stmt}
    (huses : Uses.Genuine (programUses statements)) :
    Uses.SupersInMembers (programUses statements) :=
  Stmt.supersInMembersAll statements (fun hsub => nomatch hsub) huses

end TraitScript
