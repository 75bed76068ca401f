import TraitScript.Proofs.Scope.Mirror

/-!
# What a part of the walk leaves behind

Every part of the walk restores what it has changed for its own needs: the height of the stack of
scopes, the kinds of function and class, and the number of open loops. This holds from every state,
with or without errors, so also for trees that no text gives. Of the scopes around the innermost one
a part only marks entries as read.

What a part finds does not depend on what was found before it. So findings can be put in front of a
state before a walk or after it.
-/

namespace TraitScript

theorem forall₂_trans {α : Type} {R : α → α → Prop} (htrans : ∀ {a b c}, R a b → R b c → R a c)
    {first second third : List α} (h : List.Forall₂ R first second)
    (h' : List.Forall₂ R second third) : List.Forall₂ R first third := by
  induction h generalizing third with
  | nil =>
      cases h'
      exact .nil
  | cons hentry _ ih => cases h' with
    | cons hentry' hrest' => exact .cons (htrans hentry hentry') (ih hrest')

/-- Changing the entry of a name that a table has changes nothing else. -/
theorem Table.alike_insert {α : Type} {R : α → α → Prop} {table : Table α} {name : String}
    {old new : α} (hold : table.find? name = some old) (hsame : ∀ a, R a a) (hnew : R old new) :
    table.Alike id R (table.insert name new) := by
  obtain ⟨entries⟩ := table
  unfold Table.Alike
  simp only [Table.find?, Table.insert] at hold ⊢
  induction entries with
  | nil => cases hold
  | cons entry rest ih =>
      obtain ⟨key, value⟩ := entry
      rw [Table.lookup] at hold
      rw [Table.put]
      by_cases hkey : key = name
      · rw [if_pos hkey, Option.some_inj] at hold
        rw [if_pos hkey]
        exact .cons ⟨hkey.symm, hold ▸ hnew⟩
          (List.forall₂_same.2 fun other _ => ⟨rfl, hsame other.2⟩)
      · rw [if_neg hkey] at hold
        rw [if_neg hkey]
        exact .cons ⟨rfl, hsame value⟩ (ih hold)

namespace Resolve

open State

/-! ### Read marks -/

/-- An entry as it was, except that it may have been read since. -/
structure Local.UpToReads (entry later : Local) : Prop where
  token : later.token = entry.token
  mustBeRead : later.mustBeRead = entry.mustBeRead
  progress : later.progress = entry.progress ∨ later.progress = .read

theorem Local.UpToReads.refl (entry : Local) : entry.UpToReads entry := ⟨rfl, rfl, .inl rfl⟩

theorem Local.UpToReads.trans {entry middle later : Local} (h : entry.UpToReads middle)
    (h' : middle.UpToReads later) : entry.UpToReads later := by
  refine ⟨h'.token.trans h.token, h'.mustBeRead.trans h.mustBeRead, ?_⟩
  rcases h'.progress with hsame | hread
  · rw [hsame]
    exact h.progress
  · exact .inr hread

/-- The same names in the same order, some of them read since. -/
def UpToReads (scope later : Scope) : Prop := scope.Alike id Local.UpToReads later

theorem UpToReads.refl (scope : Scope) : UpToReads scope scope :=
  List.forall₂_same.2 fun entry _ => ⟨rfl, .refl entry.2⟩

theorem UpToReads.trans {scope middle later : Scope} (h : UpToReads scope middle)
    (h' : UpToReads middle later) : UpToReads scope later :=
  forall₂_trans (fun hentry hentry' => ⟨hentry'.1.trans hentry.1, hentry.2.trans hentry'.2⟩) h h'

theorem upToReads_same (scopes : List Scope) : List.Forall₂ UpToReads scopes scopes :=
  List.forall₂_same.2 fun scope _ => .refl scope

theorem upToReads_tail {scopes later : List Scope} (h : List.Forall₂ UpToReads scopes later) :
    List.Forall₂ UpToReads scopes.tail later.tail := by
  cases h with
  | nil => exact .nil
  | cons _ hrest => exact hrest

theorem upToReads_markRead (name : String) (scopes : List Scope) :
    List.Forall₂ UpToReads scopes (markRead name scopes) := by
  induction scopes with
  | nil => exact .nil
  | cons scope outer ih =>
      rw [markRead]
      cases hfound : scope.find? name with
      | some entry =>
          exact .cons (Table.alike_insert hfound Local.UpToReads.refl ⟨rfl, rfl, .inr rfl⟩)
            (upToReads_same outer)
      | none => exact .cons (.refl scope) ih

/-! ### Parts of the walk -/

/-- Two states between which the walk has come back to where it was: as many scopes are open, those
around the innermost one have only been read, and the kinds of function, class and loop are the
same. -/
structure Balanced (s later : State) : Prop where
  height : later.scopes.length = s.scopes.length
  outer : List.Forall₂ UpToReads s.scopes.tail later.scopes.tail
  functionKind : later.functionKind = s.functionKind
  classKind : later.classKind = s.classKind
  loopDepth : later.loopDepth = s.loopDepth

/-- A state in which more has been found before. -/
def State.after (s : State) (earlier : Resolution) : State :=
  { s with errors := earlier.errors ++ s.errors, bindings := earlier.bindings ++ s.bindings }

/-- A part of the walk comes back to where it was, and finds the same whatever was found before. -/
structure Balances (f : State → State) : Prop where
  balanced : ∀ s, Balanced s (f s)
  after : ∀ s earlier, f (s.after earlier) = (f s).after earlier

theorem Balanced.refl (s : State) : Balanced s s := ⟨rfl, upToReads_same _, rfl, rfl, rfl⟩

theorem Balanced.trans {s middle later : State} (h : Balanced s middle)
    (h' : Balanced middle later) : Balanced s later :=
  ⟨h'.height.trans h.height, forall₂_trans .trans h.outer h'.outer,
    h'.functionKind.trans h.functionKind, h'.classKind.trans h.classKind,
    h'.loopDepth.trans h.loopDepth⟩

theorem balances_id : Balances (fun s => s) := ⟨.refl, fun _ _ => rfl⟩

variable {f g : State → State}

theorem Balances.comp (hf : Balances f) (hg : Balances g) : Balances (fun s => g (f s)) where
  balanced s := (hf.balanced s).trans (hg.balanced (f s))
  after s earlier := by rw [hf.after, hg.after]

theorem Balances.of_eq (h : Balances f) (heq : ∀ s, g s = f s) : Balances g := by
  rw [funext heq]
  exact h

/-- What is asked about a state must not concern what was found before it. -/
theorem Balances.ite (hf : Balances f) (hg : Balances g) (asked : State → Prop)
    [DecidablePred asked] (hasked : ∀ s earlier, asked (s.after earlier) ↔ asked s) :
    Balances (fun s => if asked s then f s else g s) where
  balanced s := by
    split
    · exact hf.balanced s
    · exact hg.balanced s
  after s earlier := by
    simp only [hasked s earlier]
    split
    · exact hf.after s earlier
    · exact hg.after s earlier

theorem balances_error (token : Token) (cause : ResolveError.Cause) :
    Balances (fun s => s.error token cause) where
  balanced s := ⟨rfl, upToReads_same _, rfl, rfl, rfl⟩
  after s earlier := by simp [State.error, State.after]

/-! ### Names -/

/-- What is changed in the innermost scope alone leaves the walk where it was. -/
theorem balanced_innermost {s : State} {scope scope' : Scope} {outer : List Scope}
    (hscopes : s.scopes = scope :: outer) :
    Balanced s { s with scopes := scope' :: outer } := by
  refine ⟨?_, ?_, rfl, rfl, rfl⟩
  · rw [hscopes]
    rfl
  · rw [hscopes]
    exact upToReads_same outer

theorem balances_declare (name : Token) (mustBeRead : Bool) :
    Balances (fun s => s.declare name mustBeRead) where
  balanced s := by
    unfold State.declare
    split
    next => exact .refl s
    next scope outer hscopes =>
      split
      · exact (balances_error name .redeclared).balanced s
      · exact balanced_innermost hscopes
  after s earlier := by
    unfold State.declare
    simp only [State.after]
    split
    · rfl
    · split
      · simp [State.error]
      · rfl

theorem balances_define (name : Token) : Balances (fun s => s.define name) where
  balanced s := by
    unfold State.define
    split
    next => exact .refl s
    next scope outer hscopes =>
      split
      · split
        · exact balanced_innermost hscopes
        · exact .refl s
      · exact .refl s
  after s earlier := by
    unfold State.define
    simp only [State.after]
    split
    · rfl
    · split
      · split <;> rfl
      · rfl

theorem balances_declareDefined (name : Token) : Balances (declareDefined name) :=
  (balances_declare name true).comp (balances_define name)

theorem balances_declareParams (params : List Token) : Balances (declareParams params) := by
  induction params with
  | nil => exact balances_id
  | cons param rest ih =>
    exact ((balances_declare param false).comp (balances_define param)).comp ih

theorem balances_lookUp (id : Nat) (name : String) (isRead : Bool) :
    Balances (fun s => s.lookUp id name isRead) where
  balanced s := by
    have hscopes : List.Forall₂ UpToReads s.scopes
        (if isRead then markRead name s.scopes else s.scopes) := by
      split
      · exact upToReads_markRead name s.scopes
      · exact upToReads_same s.scopes
    exact ⟨hscopes.length_eq.symm, upToReads_tail hscopes, rfl, rfl, rfl⟩
  after s earlier := by simp [State.lookUp, State.after]

theorem balances_resolveVariable (id : Nat) (name : Token) : Balances (resolveVariable id name) :=
  ((balances_error name .readInOwnInitializer).ite balances_id
    (fun s => s.inOwnInitializer name.lexeme = true) fun _ _ => Iff.rfl).comp
    (balances_lookUp id name.lexeme true)

theorem balances_resolveThis (id : Nat) (keyword : Token) : Balances (resolveThis id keyword) :=
  (balances_error keyword .thisOutsideClass).ite (balances_lookUp id keyword.lexeme true)
    (·.classKind = .none) fun _ _ => Iff.rfl

theorem balances_resolveSuper (id : Nat) (keyword : Token) :
    Balances (resolveSuper id keyword) := by
  refine (((balances_error keyword .superOutsideClass).ite
    ((balances_error keyword .superWithoutSuperclass).ite
    (balances_lookUp id keyword.lexeme true) (·.classKind = .plain) fun _ _ => Iff.rfl)
    (·.classKind = .none) fun _ _ => Iff.rfl)).of_eq fun s => ?_
  unfold resolveSuper
  cases s.classKind <;> rfl

/-! ### Single statements -/

theorem balances_checkReturn (keyword : Token) (hasValue : Bool) :
    Balances (checkReturn keyword hasValue) :=
  ((balances_error keyword .returnAtTopLevel).ite balances_id (·.functionKind = .none)
    fun _ _ => Iff.rfl).comp
    ((balances_error keyword .valueFromInitializer).ite balances_id
      (fun s => (hasValue && s.functionKind == .initializer) = true) fun _ _ => Iff.rfl)

theorem balances_checkSuperclass (name : Token) (superclass : Expr) :
    Balances (checkSuperclass name superclass) := by
  unfold checkSuperclass
  cases superclass.name? with
  | none => exact balances_id
  | some parent =>
    exact (balances_error parent .inheritsFromItself).ite balances_id
      (fun _ => parent.lexeme = name.lexeme) fun _ _ => Iff.rfl

/-! ### What is entered and left -/

/-- A part inside a scope of its own; the scopes around that one have only been read. -/
theorem Balances.scoped (h : Balances f) (scope : Scope) :
    Balances (fun s => (f { s with scopes := scope :: s.scopes }).endScope) where
  balanced s := by
    obtain ⟨hheight, houter, hfunction, hclass, hloops⟩ :=
      h.balanced { s with scopes := scope :: s.scopes }
    unfold State.endScope
    split
    next hempty =>
      rw [hempty] at hheight
      cases hheight
    next inner outer hscopes =>
      rw [hscopes, List.tail_cons, List.tail_cons] at houter
      rw [reportUnused_eq]
      exact ⟨houter.length_eq.symm, upToReads_tail houter, hfunction, hclass, hloops⟩
  after s earlier := by
    have hafter := h.after { s with scopes := scope :: s.scopes } earlier
    change (f (State.after { s with scopes := scope :: s.scopes } earlier)).endScope = _
    rw [hafter]
    unfold State.endScope
    simp only [State.after]
    split
    · rfl
    · simp [reportUnused_eq]

/-- The kind of class is changed for a part and set back. -/
theorem Balances.inClass (hg : Balances g) (hf : Balances f) (kind : ClassKind) :
    Balances (fun s => { f { g s with classKind := kind } with classKind := s.classKind }) where
  balanced s := by
    have h := hg.balanced s
    have h' := hf.balanced { g s with classKind := kind }
    exact ⟨h'.height.trans h.height, forall₂_trans .trans h.outer h'.outer,
      h'.functionKind.trans h.functionKind, rfl,
      h'.loopDepth.trans h.loopDepth⟩
  after s earlier := by
    have h' := hf.after { g s with classKind := kind } earlier
    simp only [hg.after s earlier]
    change { f (State.after { g s with classKind := kind } earlier) with
      classKind := s.classKind } = _
    rw [h']
    rfl

/-- A body that comes back to as many loops as it was entered with leaves the loop around it. -/
theorem Balances.inLoop (h : Balances f) : Balances (inLoop f) where
  balanced s := by
    obtain ⟨hheight, houter, hfunction, hclass, hdepth⟩ := h.balanced s.openLoop
    refine ⟨hheight, houter, hfunction, hclass, ?_⟩
    show (f s.openLoop).loopDepth - 1 = s.loopDepth
    rw [hdepth]
    rfl
  after s earlier := by
    have h' := h.after s.openLoop earlier
    show (f (State.after s.openLoop earlier)).closeLoop = _
    rw [h']
    rfl

theorem Balances.function (h : Balances f) (kind : FunctionKind) (params : List Token) :
    Balances (fun s => leaveFunction s (f (enterFunction kind params s))) where
  balanced s := by
    have hinside := ((balances_declareParams params).comp h).scoped ∅
    obtain ⟨hheight, houter, -, hclass, -⟩ :=
      hinside.balanced { s with functionKind := kind, loopDepth := 0 }
    exact ⟨hheight, houter, rfl, hclass, rfl⟩
  after s earlier := by
    have hinside := (((balances_declareParams params).comp h).scoped ∅).after
      { s with functionKind := kind, loopDepth := 0 } earlier
    exact congrArg
      (fun t : State => { t with functionKind := s.functionKind, loopDepth := s.loopDepth }) hinside

/-! ### Whole trees -/

mutual

theorem balances_expr : (e : Expr) → Balances (expr e)
  | .literal _ => balances_id.of_eq (fun s => by rw [expr])
  | .group inner => (balances_expr inner).of_eq (fun s => by rw [expr])
  | .unary _ right => (balances_expr right).of_eq (fun s => by rw [expr])
  | .binary left _ right =>
    ((balances_expr left).comp (balances_expr right)).of_eq (fun s => by rw [expr])
  | .logical left _ right =>
    ((balances_expr left).comp (balances_expr right)).of_eq (fun s => by rw [expr])
  | .conditional condition thenBranch elseBranch =>
    (((balances_expr condition).comp (balances_expr thenBranch)).comp
      (balances_expr elseBranch)).of_eq (fun s => by rw [expr])
  | .variable id name => (balances_resolveVariable id name).of_eq (fun s => by rw [expr])
  | .assign id name value =>
    ((balances_expr value).comp (balances_lookUp id name.lexeme false)).of_eq
      (fun s => by rw [expr])
  | .call callee _ arguments =>
    ((balances_expr callee).comp (balances_exprs arguments)).of_eq (fun s => by rw [expr])
  | .function decl => (balances_function .function decl).of_eq (fun s => by rw [expr])
  | .get object _ => (balances_expr object).of_eq (fun s => by rw [expr])
  | .set object _ value =>
    ((balances_expr value).comp (balances_expr object)).of_eq (fun s => by rw [expr])
  | .this id keyword => (balances_resolveThis id keyword).of_eq (fun s => by rw [expr])
  | .super id keyword _ => (balances_resolveSuper id keyword).of_eq (fun s => by rw [expr])

theorem balances_exprs : (es : List Expr) → Balances (exprs es)
  | [] => balances_id.of_eq (fun s => by rw [exprs])
  | first :: rest =>
    ((balances_expr first).comp (balances_exprs rest)).of_eq (fun s => by rw [exprs])

theorem balances_expr? : (e : Option Expr) → Balances (expr? e)
  | none => balances_id.of_eq (fun s => by rw [expr?])
  | some e => (balances_expr e).of_eq (fun s => by rw [expr?])

theorem balances_function (kind : FunctionKind) :
    (decl : FunctionDecl) → Balances (function kind decl)
  | ⟨_, params, body, _⟩ =>
    ((balances_stmts body).function kind params).of_eq (fun s => by rw [function])

theorem balances_methods : (decls : List FunctionDecl) → Balances (methods decls)
  | [] => balances_id.of_eq (fun s => by rw [methods])
  | decl :: rest =>
    ((balances_function (methodKind decl) decl).comp (balances_methods rest)).of_eq
      (fun s => by rw [methods])

theorem balances_classMethods : (decls : List FunctionDecl) → Balances (classMethods decls)
  | [] => balances_id.of_eq (fun s => by rw [classMethods])
  | decl :: rest =>
    ((balances_function .method decl).comp (balances_classMethods rest)).of_eq
      (fun s => by rw [classMethods])

theorem balances_members : (body : ClassBody) → Balances (members body)
  | ⟨_, instanceMethods, staticMethods⟩ =>
    (((balances_methods instanceMethods).comp (balances_classMethods staticMethods)).scoped
      (Table.insert ∅ "this" ⟨none, .read, false⟩)).of_eq
      (fun s => by
        rw [members]
        rfl)

theorem balances_uses : (body : ClassBody) → Balances (uses body)
  | ⟨traits, _, _⟩ => (balances_exprs traits).of_eq (fun s => by rw [uses])

theorem balances_stmt : (statement : Stmt) → Balances (stmt statement)
  | .expression value => (balances_expr value).of_eq (fun s => by rw [stmt])
  | .print value => (balances_expr value).of_eq (fun s => by rw [stmt])
  | .variable name initial =>
    (((balances_declare name true).comp (balances_expr? initial)).comp (balances_define name)).of_eq
      (fun s => by rw [stmt])
  | .block statements => ((balances_stmts statements).scoped ∅).of_eq
      (fun s => by
        rw [stmt]
        rfl)
  | .ifElse condition thenBranch elseBranch =>
    (((balances_expr condition).comp (balances_stmt thenBranch)).comp
      (balances_stmt? elseBranch)).of_eq (fun s => by rw [stmt])
  | .whileLoop condition body =>
    ((balances_expr condition).comp (balances_stmt body).inLoop).of_eq (fun s => by rw [stmt])
  | .forLoop initial condition increment body =>
    ((((balances_stmt? initial).comp (balances_expr? condition)).comp
      ((balances_expr? increment).comp (balances_stmt body).inLoop)).scoped ∅).of_eq
      (fun s => by
        rw [stmt]
        rfl)
  | .jump keyword kind =>
    ((balances_error keyword (.jumpOutsideLoop kind)).ite balances_id (·.loopDepth = 0) fun _ _ =>
      Iff.rfl).of_eq (fun s => by rw [stmt])
  | .function ⟨none, params, body, isGetter⟩ =>
    (balances_function .function ⟨none, params, body, isGetter⟩).of_eq (fun s => by rw [stmt])
  | .function ⟨some name, params, body, isGetter⟩ =>
    ((balances_declareDefined name).comp
      (balances_function .function ⟨some name, params, body, isGetter⟩)).of_eq
      (fun s => by rw [stmt])
  | .returnValue keyword value =>
    ((balances_checkReturn keyword value.isSome).comp (balances_expr? value)).of_eq
      (fun s => by rw [stmt])
  | .classDecl name none body =>
    (balances_id.inClass (((balances_declareDefined name).comp (balances_uses body)).comp
      (balances_members body)) .plain).of_eq (fun s => by rw [stmt])
  | .classDecl name (some superclass) body => by
    have hname :=
      balances_id.inClass
        ((balances_declareDefined name).comp (balances_checkSuperclass name superclass)) .plain
    have hmembers := (balances_members body).scoped (Table.insert ∅ "super" ⟨none, .read, false⟩)
    refine (hname.inClass (((balances_expr superclass).comp (balances_uses body)).comp hmembers)
      .subclass).of_eq fun s => ?_
    rw [stmt]
    rfl
  | .traitDecl name body =>
    ((balances_declareDefined name).inClass ((balances_uses body).comp (balances_members body))
      .plain).of_eq (fun s => by rw [stmt])

theorem balances_stmts : (statements : List Stmt) → Balances (stmts statements)
  | [] => balances_id.of_eq (fun s => by rw [stmts])
  | first :: rest =>
    ((balances_stmt first).comp (balances_stmts rest)).of_eq (fun s => by rw [stmts])

theorem balances_stmt? : (statement : Option Stmt) → Balances (stmt? statement)
  | none => balances_id.of_eq (fun s => by rw [stmt?])
  | some statement => (balances_stmt statement).of_eq (fun s => by rw [stmt?])

end

/-- A statement leaves as many loops open as it was entered with. -/
theorem loopDepth_stmt (statement : Stmt) (s : State) :
    (stmt statement s).loopDepth = s.loopDepth :=
  ((balances_stmt statement).balanced s).loopDepth

end Resolve
end TraitScript
