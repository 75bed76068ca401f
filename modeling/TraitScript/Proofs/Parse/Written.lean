import TraitScript.Proofs.Parse.Occurrence

/-!
# Occurrences in programs that were read

Statements, declarations and whole programs: all that is returned, also after errors, is numbered
afresh and meets what the grammar asks of it. Any tokens at all give jumps inside loops. Scanning
makes genuine tokens, so programs read from text have genuine names.
-/

namespace TraitScript

variable {d : Demand}

/-! ### Class bodies -/

theorem Expr.references_append (first second : List Expr) (p : Place) :
    Expr.references (first ++ second) p = Expr.references first p ++ Expr.references second p := by
  induction first with
  | nil => simp [Expr.references]
  | cons e rest ih => simp [Expr.references, ih]

theorem FunctionDecl.usesAll_append (kind : MethodKind) (first second : List FunctionDecl)
    (p : Place) :
    FunctionDecl.usesAll kind (first ++ second) p =
      FunctionDecl.usesAll kind first p ++ FunctionDecl.usesAll kind second p := by
  induction first with
  | nil => simp [FunctionDecl.usesAll]
  | cons decl rest ih => simp [FunctionDecl.usesAll, ih]

/-- Members are listed by their sort, in whatever order they were read. -/
theorem ClassBody.Written.add {lo mid hi : Nat} {traits used : List Expr}
    {methods classMethods newMethods newClassMethods : List FunctionDecl}
    (hbody : ClassBody.Written d lo mid ⟨traits, methods, classMethods⟩)
    (hnew : ClassBody.Written d mid hi ⟨used, newMethods, newClassMethods⟩) (hlo : lo ≤ mid)
    (hhi : mid ≤ hi) :
    ClassBody.Written d lo hi ⟨traits ++ used, methods ++ newMethods,
      classMethods ++ newClassMethods⟩ := by
  classical
  intro p q
  have hall := (hbody p q).append (hnew p q) hlo hhi
  refine hall.perm ?_
  simp only [ClassBody.traitUses, ClassBody.memberUses, Expr.references_append,
    FunctionDecl.usesAll_append]
  generalize Expr.references traits p = a
  generalize Expr.references used p = a'
  generalize FunctionDecl.usesAll .ofInstance methods q = b
  generalize FunctionDecl.usesAll .ofInstance newMethods q = b'
  generalize FunctionDecl.usesAll .ofClass classMethods q = c
  generalize FunctionDecl.usesAll .ofClass newClassMethods q = c'
  rw [List.perm_iff_count]
  intro u
  simp only [List.count_append]
  omega

namespace Parse

variable {s : State} {loops : List Nat} {r : Rules}

/-! ### Statements -/

theorem written_uses? {lo hi : Nat} {expr : Option Expr}
    (h : ∀ e, expr = some e → e.Written d lo hi) (p : Place) :
    Uses.Written d lo hi (Expr.uses? expr p) := by
  cases expr with
  | none =>
      rw [Expr.uses?]
      exact .nil
  | some e =>
      rw [Expr.uses?]
      exact h e rfl p

theorem written_stmt_uses? {lo hi : Nat} {stmt : Option Stmt}
    (h : ∀ body, stmt = some body → body.Written d loops lo hi) {p : Place} (hp : p.Within loops) :
    Uses.Written d lo hi (Stmt.uses? stmt p) := by
  cases stmt with
  | none =>
      rw [Stmt.uses?]
      exact .nil
  | some body =>
      rw [Stmt.uses?]
      exact h body rfl p hp

theorem reads_expressionStatement (hr : r.Fresh d) (s : State) :
    Reads d loops (expressionStatement r)
      (fun stmt s' => stmt.Written d loops s.nextId s'.nextId) s := by
  refine (reads_expression hr s).bind fun value s₁ _ hvalue =>
    (reads_expectSymbol _ _).bind fun _ s₂ hle₂ _ => reads_pure _ fun p _ => ?_
  rw [Stmt.uses]
  exact (hvalue p).mono (Nat.le_refl _) hle₂

theorem reads_printStatement (hr : r.Fresh d) (s : State) :
    Reads d loops (printStatement r)
      (fun stmt s' => stmt.Written d loops s.nextId s'.nextId) s := by
  refine (reads_expression hr s).bind fun value s₁ _ hvalue =>
    (reads_expectSymbol _ _).bind fun _ s₂ hle₂ _ => reads_pure _ fun p _ => ?_
  rw [Stmt.uses]
  exact (hvalue p).mono (Nat.le_refl _) hle₂

theorem reads_expressionUnless (hr : r.Fresh d) (symbol : Symbol) (s : State) :
    Reads d loops (expressionUnless r symbol)
      (fun found s' => ∀ e, found = some e → e.Written d s.nextId s'.nextId) s := by
  refine (reads_check _).bind fun absent s₁ hle₁ _ => ?_
  split
  · exact reads_pure none (by simp)
  · refine (reads_expression hr s₁).bind fun e s₂ _ he => reads_pure (some e) fun other hother => ?_
    cases hother
    exact he.mono hle₁ (Nat.le_refl _)

theorem reads_returnStatement (hr : r.Fresh d) (keyword : Token) (s : State) :
    Reads d loops (returnStatement r keyword)
      (fun stmt s' => stmt.Written d loops s.nextId s'.nextId) s := by
  refine (reads_expressionUnless hr _ s).bind fun value s₁ _ hvalue =>
    (reads_expectSymbol _ _).bind fun _ s₂ hle₂ _ => ?_
  refine reads_pure _ fun p _ => ?_
  rw [Stmt.uses]
  exact ((written_uses? hvalue p).mono (Nat.le_refl _) hle₂).cons_silent rfl d.returnValue

theorem reads_jumpStatement (keyword : Token) (kind : Jump) (s : State) :
    Reads d loops (jumpStatement keyword kind)
      (fun stmt s' => stmt.Written d loops s.nextId s'.nextId) s := by
  refine reads_insideLoop.bind fun inside s₁ _ hinside => ?_
  split
  next hopen =>
    refine (reads_expectSymbol _ _).bind fun _ s₂ _ _ => reads_pure _ fun p hp => ?_
    rw [Stmt.uses]
    exact Uses.Written.nil.cons_silent rfl (d.jump (hp (hinside hopen)))
  next => exact reads_throw _

theorem reads_initialValue (hr : r.Fresh d) (s : State) :
    Reads d loops (initialValue r)
      (fun found s' => ∀ e, found = some e → e.Written d s.nextId s'.nextId) s := by
  refine (reads_acceptSymbol _).bind fun given s₁ hle₁ _ => ?_
  split
  · refine (reads_expression hr s₁).bind fun e s₂ _ he => reads_pure (some e) fun other hother => ?_
    cases hother
    exact he.mono hle₁ (Nat.le_refl _)
  · exact reads_pure none (by simp)

theorem reads_variableDeclaration (hr : r.Fresh d) (s : State) :
    Reads d loops (variableDeclaration r)
      (fun stmt s' => stmt.Written d loops s.nextId s'.nextId) s := by
  refine (reads_expectName _).bind fun name s₁ hle₁ hname =>
    (reads_initialValue hr s₁).bind fun initial s₂ hle₂ hinitial => ?_
  refine (reads_expectSymbol _ _).bind fun _ s₃ hle₃ _ => reads_pure _ fun p _ => ?_
  rw [Stmt.uses]
  exact ((written_uses? hinitial _).mono hle₁ hle₃).cons_silent rfl (d.declare hname.1 hname.2)

theorem reads_elseBranch (hr : r.Fresh d) (s : State) :
    Reads d loops (elseBranch r)
      (fun found s' => ∀ stmt, found = some stmt → stmt.Written d loops s.nextId s'.nextId) s := by
  refine (reads_acceptKeyword _).bind fun given s₁ hle₁ _ => ?_
  split
  · refine (hr.statement s₁).bind fun stmt s₂ _ hstmt =>
      reads_pure (some stmt) fun other hother => ?_
    cases hother
    exact hstmt.mono hle₁ (Nat.le_refl _)
  · exact reads_pure none (by simp)

theorem reads_ifStatement (hr : r.Fresh d) (s : State) :
    Reads d loops (ifStatement r) (fun stmt s' => stmt.Written d loops s.nextId s'.nextId) s := by
  refine (reads_expectSymbol _ _).bind fun _ s₁ hle₁ _ =>
    (reads_expression hr s₁).bind fun condition s₂ hle₂ hcondition => ?_
  refine (reads_expectSymbol _ _).bind fun _ s₃ hle₃ _ =>
    (hr.statement s₃).bind fun thenBranch s₄ hle₄ hthen => ?_
  refine (reads_elseBranch hr s₄).bind fun otherBranch s₅ hle₅ helse => reads_pure _ fun p hp => ?_
  rw [Stmt.uses]
  have hfirst := ((hcondition p).mono hle₁ hle₃).append (hthen p hp) (by omega) hle₄
  exact hfirst.append (written_stmt_uses? helse (hp.grows (thenBranch.grows_after p)))
    (by omega) hle₅

/-- Whatever loops are open around it, the body of a loop stands inside that loop. -/
theorem reads_loopBody (hr : r.Fresh d) (s : State) :
    Reads d loops (inLoop r.statement)
      (fun stmt s' => ∀ p : Place,
          Uses.Written d s.nextId s'.nextId (stmt.uses p.enterLoop)) s := by
  refine (reads_inLoop (fun lo (stmt : Stmt) hi => stmt.Written d (loops.modifyHead (· + 1)) lo hi)
      hr.statement s).mono ?_
  exact fun stmt s' _ h p => h _ (p.within_enterLoop _)

theorem reads_whileStatement (hr : r.Fresh d) (s : State) :
    Reads d loops (whileStatement r)
      (fun stmt s' => stmt.Written d loops s.nextId s'.nextId) s := by
  refine (reads_expectSymbol _ _).bind fun _ s₁ hle₁ _ =>
    (reads_expression hr s₁).bind fun condition s₂ hle₂ hcondition => ?_
  refine (reads_expectSymbol _ _).bind fun _ s₃ hle₃ _ =>
    (reads_loopBody hr s₃).bind fun body s₄ hle₄ hbody => reads_pure _ fun p _ => ?_
  rw [Stmt.uses]
  exact ((hcondition p).mono hle₁ hle₃).append (hbody _) (by omega) hle₄

theorem reads_forInitial (hr : r.Fresh d) (s : State) :
    Reads d loops (forInitial r)
      (fun found s' => ∀ stmt, found = some stmt → stmt.Written d loops s.nextId s'.nextId) s := by
  refine (reads_acceptSymbol _).bind fun absent s₁ hle₁ _ => ?_
  split
  · exact reads_pure none (by simp)
  · refine (reads_acceptKeyword _).bind fun isVariable s₂ hle₂ _ => ?_
    split
    · refine (reads_variableDeclaration hr s₂).bind fun stmt s₃ _ hstmt =>
        reads_pure (some stmt) fun other hother => ?_
      cases hother
      exact hstmt.mono (by omega) (Nat.le_refl _)
    · refine (reads_expressionStatement hr s₂).bind fun stmt s₃ _ hstmt =>
        reads_pure (some stmt) fun other hother => ?_
      cases hother
      exact hstmt.mono (by omega) (Nat.le_refl _)

theorem reads_forStatement (hr : r.Fresh d) (s : State) :
    Reads d loops (forStatement r) (fun stmt s' => stmt.Written d loops s.nextId s'.nextId) s := by
  refine (reads_expectSymbol _ _).bind fun _ s₁ hle₁ _ =>
    (reads_forInitial hr s₁).bind fun initial s₂ hle₂ hinitial => ?_
  refine (reads_expressionUnless hr _ s₂).bind fun condition s₃ hle₃ hcondition =>
    (reads_expectSymbol _ _).bind fun _ s₄ hle₄ _ => ?_
  refine (reads_expressionUnless hr _ s₄).bind fun increment s₅ hle₅ hincrement =>
    (reads_expectSymbol _ _).bind fun _ s₆ hle₆ _ => ?_
  refine (reads_loopBody hr s₆).bind fun body s₇ hle₇ hbody => reads_pure _ fun p hp => ?_
  rw [Stmt.uses]
  have hinner : (p.enter (.loop (.forLoop initial condition increment body)) []).Within loops := hp
  have hfirst := (written_stmt_uses? hinitial hinner).mono hle₁ (Nat.le_refl _)
  have hsecond := fun q => (written_uses? hcondition q).mono (Nat.le_refl _) hle₄
  have hthird := fun q => (written_uses? hincrement q).mono (Nat.le_refl _) hle₆
  exact ((hfirst.append (hsecond _) (by omega) (by omega)).append (hthird _) (by omega)
    (by omega)).append (hbody _) (by omega) hle₇

theorem reads_statementFrom (hr : r.Fresh d) {token : Token} {rule : Parser Stmt}
    (hrule : statementFrom r token = some rule) (s : State) :
    Reads d loops rule (fun stmt s' => stmt.Written d loops s.nextId s'.nextId) s := by
  unfold statementFrom at hrule
  split at hrule <;> cases hrule
  · exact reads_forStatement hr s
  · exact reads_ifStatement hr s
  · exact reads_whileStatement hr s
  · exact reads_returnStatement hr token s
  · exact reads_jumpStatement token .breakLoop s
  · exact reads_jumpStatement token .continueLoop s
  · exact reads_printStatement hr s
  · refine (reads_block hr s).bind fun statements s₁ _ hstatements => reads_pure _ fun p hp => ?_
    rw [Stmt.uses]
    exact hstatements _ hp

theorem reads_statement (hr : r.Fresh d) (s : State) :
    Reads d loops (statement r) (fun stmt s' => stmt.Written d loops s.nextId s'.nextId) s := by
  refine reads_next.bind fun token s₁ hle₁ _ => ?_
  split
  next rule hrule =>
    refine (reads_accept _).bind fun _ s₂ hle₂ _ =>
      (reads_statementFrom hr hrule s₂).mono fun stmt s₃ _ hstmt => ?_
    exact hstmt.mono (by omega) (Nat.le_refl _)
  next =>
    exact (reads_expressionStatement hr s₁).mono fun stmt s₂ _ hstmt =>
      hstmt.mono hle₁ (Nat.le_refl _)

/-! ### Classes, traits and functions -/

theorem reads_method (hr : r.Fresh d) (s : State) :
    Reads d loops (method r) (fun decl s' => decl.Written d s.nextId s'.nextId) s := by
  refine (reads_expectName _).bind fun name s₁ hle₁ _ =>
    (reads_acceptSymbol _).bind fun isGetter s₂ hle₂ _ => ?_
  split
  · refine (reads_inFunction (fun lo body hi => Stmt.WrittenAll d (0 :: loops) lo hi body)
      (reads_block hr) s₂).bind fun body s₃ _ hbody => reads_pure _ ?_
    exact (written_functionDecl true (by simp) hbody).mono (by omega) (Nat.le_refl _)
  · refine (reads_expectSymbol _ _).bind fun _ s₃ hle₃ _ =>
      (reads_functionRest hr _ _ s₃).mono fun decl s₄ _ hdecl => ?_
    exact hdecl.1.mono (by omega) (Nat.le_refl _)

/-- The names of a `use` clause are references to variables. -/
theorem reads_usedTraitsFrom (bound : Nat) :
    Reads d loops (usedTraitsFrom bound)
      (fun used s' => ∀ p, Uses.Written d s.nextId s'.nextId (Expr.references used p)) s := by
  have hone : ∀ {lo id hi : Nat} {name : Token} {rest : List Expr} (p : Place), lo ≤ id →
      id < hi → d.Name name →
      (∀ p, Uses.Written d (id + 1) hi (Expr.references rest p)) →
        Uses.Written d lo hi (Expr.references (.variable id name :: rest) p) := by
    intro lo id hi name rest p hlo hhi hname hrest
    have hvariable : (Expr.variable id name).Written d lo (id + 1) :=
      written_variable hlo (Nat.lt_succ_self id) hname
    rw [Expr.references, List.cons_append]
    exact ((hvariable p).append (hrest p) (by omega) hhi).cons_silent rfl d.reference
  have hnone : ∀ {lo hi : Nat} (p : Place), Uses.Written d lo hi (Expr.references [] p) := by
    intro lo hi p
    rw [Expr.references]
    exact .nil
  induction bound generalizing s with
  | zero =>
      refine (reads_expectName _).bind fun name s₁ hle₁ hname =>
        reads_freshId.bind fun id s₂ _ hid => reads_pure _ fun p => ?_
      exact hone p (by omega) hid.2 hname hnone
  | succ bound ih =>
      refine (reads_expectName _).bind fun name s₁ hle₁ hname =>
        reads_freshId.bind fun id s₂ _ hid => ?_
      refine (reads_acceptSymbol _).bind fun more s₃ hle₃ _ => ?_
      split
      · refine ih.bind fun used s₄ hle₄ hused => reads_pure _ fun p => ?_
        exact hone p (by omega) (by omega) hname fun q => (hused q).mono (by omega) (Nat.le_refl _)
      · exact reads_pure _ fun p => hone p (by omega) (by omega) hname hnone

theorem written_noMembers (lo hi : Nat) {used : List Expr}
    (h : ∀ p, Uses.Written d lo hi (Expr.references used p)) :
    ClassBody.Written d lo hi ⟨used, [], []⟩ := by
  intro p q
  simpa only [ClassBody.traitUses, ClassBody.memberUses, FunctionDecl.usesAll,
    List.append_nil] using h p

theorem reads_membersFrom (hr : r.Fresh d) (bound : Nat) {lo : Nat} {body : ClassBody}
    (hlo : lo ≤ s.nextId) (hbody : body.Written d lo s.nextId) :
    Reads d loops (membersFrom r bound body) (fun body s' => body.Written d lo s'.nextId) s := by
  induction bound generalizing body s with
  | zero => exact reads_pure body hbody
  | succ bound ih =>
      obtain ⟨traits, methods, classMethods⟩ := body
      refine (reads_check _).bind fun closing s₁ hle₁ _ =>
        reads_atEnd.bind fun ended s₂ hle₂ _ => ?_
      split
      · exact reads_pure _ (hbody.mono (Nat.le_refl _) (by omega))
      · refine (reads_acceptKeyword _).bind fun isUse s₃ hle₃ _ => ?_
        split
        · refine reads_remaining.bind fun left s₄ hle₄ _ =>
            (reads_usedTraitsFrom left).bind fun used s₅ hle₅ hused => ?_
          refine (reads_expectSymbol _ _).bind fun _ s₆ hle₆ _ => ih (by omega) ?_
          have hadd := (hbody.mono (Nat.le_refl _) (by omega)).add
            (written_noMembers s₄.nextId s₆.nextId fun p => (hused p).mono (Nat.le_refl _) hle₆)
            (by omega) (by omega)
          simpa using hadd
        · refine (reads_acceptKeyword _).bind fun isClass s₄ hle₄ _ => ?_
          split
          · refine (reads_method hr s₄).bind fun decl s₅ hle₅ hdecl => ih (by omega) ?_
            have hnew : ClassBody.Written d s₄.nextId s₅.nextId ⟨[], [], [decl]⟩ := fun p q => by
              simpa [ClassBody.traitUses, ClassBody.memberUses, FunctionDecl.usesAll,
                Expr.references] using hdecl _ _
            simpa using (hbody.mono (Nat.le_refl _) (by omega)).add hnew (by omega) hle₅
          · refine (reads_method hr s₄).bind fun decl s₅ hle₅ hdecl => ih (by omega) ?_
            have hnew : ClassBody.Written d s₄.nextId s₅.nextId ⟨[], [decl], []⟩ := fun p q => by
              simpa [ClassBody.traitUses, ClassBody.memberUses, FunctionDecl.usesAll,
                Expr.references] using hdecl _ _
            simpa using (hbody.mono (Nat.le_refl _) (by omega)).add hnew (by omega) hle₅

theorem reads_classBody (hr : r.Fresh d) (before after : Position) (s : State) :
    Reads d loops (classBody r before after)
      (fun body s' => body.Written d s.nextId s'.nextId) s := by
  refine (reads_expectSymbol _ _).bind fun _ s₁ hle₁ _ =>
    reads_remaining.bind fun bound s₂ hle₂ _ => ?_
  have hempty : ClassBody.Written d s.nextId s₂.nextId ⟨[], [], []⟩ :=
    written_noMembers _ _ fun p => by rw [Expr.references]; exact .nil
  refine (reads_membersFrom hr bound (by omega) hempty).bind fun body s₃ _ hbody =>
    (reads_expectSymbol _ _).bind fun _ s₄ hle₄ _ => ?_
  exact reads_pure body (hbody.mono (Nat.le_refl _) hle₄)

theorem reads_superclass (s : State) :
    Reads d loops superclass (fun parent s' => ∀ e, parent = some e →
      e.Written d s.nextId s'.nextId ∧ ∃ id name, e = .variable id name) s := by
  refine (reads_acceptSymbol _).bind fun given s₁ hle₁ _ => ?_
  split
  · refine (reads_expectName _).bind fun name s₂ hle₂ hname => reads_freshId.bind fun id s₃ _ hid =>
      reads_pure _ fun e he => ?_
    cases he
    exact ⟨written_variable (by omega) hid.2 hname, id, name, rfl⟩
  · exact reads_pure none (by simp)

theorem reads_classDeclaration (hr : r.Fresh d) (s : State) :
    Reads d loops (classDeclaration r)
      (fun stmt s' => stmt.Written d loops s.nextId s'.nextId) s := by
  refine (reads_expectName _).bind fun name s₁ hle₁ hname =>
    (reads_superclass s₁).bind fun parent s₂ hle₂ hparent => ?_
  refine (reads_classBody hr _ _ s₂).bind fun body s₃ hle₃ hbody => reads_pure _ fun p _ => ?_
  cases parent with
  | none =>
      rw [Stmt.uses, List.cons_append]
      exact ((hbody _ _).mono (by omega) (Nat.le_refl _)).cons_silent rfl
        (d.declare hname.1 hname.2)
  | some parent =>
      obtain ⟨hwritten, id, parentName, rfl⟩ := hparent parent rfl
      simp only [Stmt.uses, List.cons_append, List.append_assoc]
      have hparts := fun q q' q'' =>
        ((hwritten q).mono hle₁ (Nat.le_refl _)).append (hbody q' q'') (by omega) hle₃
      exact ((hparts _ _ _).cons_silent rfl d.reference).cons_silent rfl (d.declare hname.1 hname.2)

theorem reads_traitDeclaration (hr : r.Fresh d) (s : State) :
    Reads d loops (traitDeclaration r)
      (fun stmt s' => stmt.Written d loops s.nextId s'.nextId) s := by
  refine (reads_expectName _).bind fun name s₁ hle₁ hname =>
    (reads_classBody hr _ _ s₁).bind fun body s₂ _ hbody => reads_pure _ fun p _ => ?_
  rw [Stmt.uses, List.cons_append]
  exact ((hbody _ _).mono hle₁ (Nat.le_refl _)).cons_silent rfl (d.declare hname.1 hname.2)

theorem written_functionStmt {lo hi : Nat} {decl : FunctionDecl}
    (hname : ∀ name, decl.name = some name → d.Name name) (hdecl : decl.Written d lo hi) :
    (Stmt.function decl).Written d loops lo hi := by
  intro p _
  rw [Stmt.uses]
  cases hfound : decl.name with
  | none => exact hdecl _ _
  | some name =>
    exact (hdecl _ _).cons_silent rfl (d.declare (hname name hfound).1 (hname name hfound).2)

theorem reads_functionDeclaration (hr : r.Fresh d) (s : State) :
    Reads d loops (functionDeclaration r)
      (fun stmt s' => stmt.Written d loops s.nextId s'.nextId) s := by
  refine (reads_expectName _).bind fun name s₁ hle₁ hname =>
    (reads_expectSymbol _ _).bind fun _ s₂ hle₂ _ => ?_
  refine (reads_functionRest hr _ _ s₂).bind fun decl s₃ _ hdecl =>
    reads_pure _ (written_functionStmt (fun other hother => ?_) ?_)
  · rw [hdecl.2] at hother
    cases hother
    exact hname
  · exact hdecl.1.mono (by omega) (Nat.le_refl _)

theorem reads_declarationRule (hr : r.Fresh d) (s : State) :
    Reads d loops (declarationRule r)
      (fun stmt s' => stmt.Written d loops s.nextId s'.nextId) s := by
  refine (reads_acceptKeyword _).bind fun isClass s₁ hle₁ _ => ?_
  split
  · exact (reads_classDeclaration hr s₁).mono fun stmt s₂ _ h => h.mono hle₁ (Nat.le_refl _)
  · refine (reads_acceptKeyword _).bind fun isTrait s₂ hle₂ _ => ?_
    split
    · exact (reads_traitDeclaration hr s₂).mono fun stmt s₃ _ h => h.mono (by omega) (Nat.le_refl _)
    · refine reads_startsFunction.bind fun isFunction s₃ hle₃ _ => ?_
      split
      · refine (reads_accept _).bind fun _ s₄ hle₄ _ => ?_
        exact (reads_functionDeclaration hr s₄).mono fun stmt s₅ _ h =>
          h.mono (by omega) (Nat.le_refl _)
      · refine (reads_acceptKeyword _).bind fun isVariable s₄ hle₄ _ => ?_
        split
        · exact (reads_variableDeclaration hr s₄).mono fun stmt s₅ _ h =>
            h.mono (by omega) (Nat.le_refl _)
        · exact (reads_statement hr s₄).mono fun stmt s₅ _ h => h.mono (by omega) (Nat.le_refl _)

/-! ### All rules and whole programs -/

theorem mem_of_mem_skipFrom {previous token : Token} {tokens : List Token}
    (h : token ∈ skipFrom previous tokens) : token ∈ tokens := by
  induction tokens generalizing previous with
  | nil => exact h
  | cons first rest ih =>
      rw [skipFrom] at h
      split at h
      · exact h
      · exact List.mem_cons_of_mem _ (ih h)

theorem reads_recovering {α : Type} {x : Parser α} {Q : α → State → Prop}
    (h : Reads d loops x Q s) :
    Reads d loops (recovering x) (fun found s' => ∀ a, found = some a → Q a s') s := by
  intro hs
  have hx := h hs
  unfold recovering
  cases hresult : x s with
  | ok a s' =>
      rw [hresult] at hx
      refine ⟨hx.1, hx.2.1, fun other hother => ?_⟩
      cases hother
      exact hx.2.2
  | error e s' =>
      rw [hresult] at hx
      refine ⟨⟨fun token htoken => hx.1.rest token ?_, hx.1.last, hx.1.loops⟩, hx.2, by simp⟩
      change token ∈ skip s'.rest at htoken
      cases hrest : s'.rest with
      | nil =>
          rw [hrest] at htoken
          exact htoken
      | cons first rest =>
          rw [hrest] at htoken
          exact List.mem_cons_of_mem _ (mem_of_mem_skipFrom htoken)

theorem fresh_rules (d : Demand) (depth : Nat) : (rules depth).Fresh d := by
  induction depth with
  | zero =>
      have hrefuse : ∀ loops s, Reads d loops (fail .missingExpression : Parser Stmt)
          (fun stmt s' => stmt.Written d loops s.nextId s'.nextId) s :=
        fun _ _ => reads_fail _
      exact ⟨fun s => reads_fail _, fun s => reads_fail _, fun s => reads_fail _,
        fun s => reads_fail _, fun s => reads_fail _,
        fun s => reads_fail _, fun s => reads_fail _, fun s => reads_fail _, fun s =>
          reads_recovering (hrefuse _ s)⟩
  | succ depth ih =>
      exact ⟨reads_expression ih, reads_assignment ih, reads_conditional ih, reads_comparison ih,
        reads_term ih, reads_factor ih,
        reads_unary ih, reads_statement ih, fun s => reads_recovering (reads_declarationRule ih s)⟩

theorem reads_declarationsFrom (hr : r.Fresh d) (bound : Nat) :
    Reads d loops (declarationsFrom r bound)
      (fun statements s' => Stmt.WrittenAll d loops s.nextId s'.nextId statements) s := by
  induction bound generalizing s with
  | zero => exact reads_pure [] (writtenAll_nil _ _ _)
  | succ bound ih =>
      refine reads_atEnd.bind fun ended s₁ hle₁ _ => ?_
      split
      · exact reads_pure [] (writtenAll_nil _ _ _)
      · refine (hr.declaration s₁).bind fun found s₂ hle₂ hfound => ?_
        cases found with
        | none => exact ih.mono fun statements s₃ _ h => h.mono (by omega) (Nat.le_refl _)
        | some stmt =>
            refine ih.bind fun statements s₃ hle₃ h => reads_pure _ ?_
            exact writtenAll_cons ((hfound stmt rfl).mono (by omega) (Nat.le_refl _)) h
              (by omega) hle₃

end Parse

/-- A program that is read counts on, numbers its occurrences between the two counters and meets the
demand that its tokens meet. -/
theorem parseProgram_meets {scanned : Scanned} {firstId : Nat}
    (h : Parse.State.Meets d [0] (.initial scanned firstId)) :
    firstId ≤ (parseProgram scanned firstId).nextId ∧
      Uses.Written d firstId (parseProgram scanned firstId).nextId
      (programUses (parseProgram scanned firstId).value) := by
  have hread := Parse.reads_declarationsFrom (Parse.fresh_rules d (scanned.tokens.length + 1))
    scanned.tokens.length h
  unfold parseProgram Parse.program
  split at hread
  next heq =>
    rw [heq]
    exact ⟨hread.2.1, hread.2.2 .top (Place.within_closed _ _)⟩
  next heq =>
    rw [heq]
    refine ⟨hread.2, ?_⟩
    rw [programUses, Stmt.usesAll]
    exact .nil

theorem parseExpression_meets {scanned : Scanned} {firstId : Nat}
    (h : Parse.State.Meets d [0] (.initial scanned firstId)) :
    firstId ≤ (parseExpression scanned firstId).nextId ∧
      ∀ expr, (parseExpression scanned firstId).value = some expr →
        expr.Written d firstId (parseExpression scanned firstId).nextId := by
  have hlone : Parse.Reads d [0] (Parse.loneExpression scanned.tokens.length)
      (fun e s' => e.Written d firstId s'.nextId) (.initial scanned firstId) := by
    refine ((Parse.fresh_rules d _).expression _).bind fun e s₁ _ he =>
      Parse.reads_atEnd.bind fun ended s₂ hle₂ _ => ?_
    split
    · exact Parse.reads_pure e (he.mono (Nat.le_refl _) hle₂)
    · exact Parse.reads_fail _
  have hread := hlone h
  unfold parseExpression
  split at hread
  next heq =>
    rw [heq]
    refine ⟨hread.2.1, fun expr hexpr => ?_⟩
    cases hexpr
    exact hread.2.2
  next heq =>
    rw [heq]
    exact ⟨hread.2, by simp⟩

theorem written_print {d : Demand} {lo hi : Nat} {expr : Expr} (h : expr.Written d lo hi) :
    Uses.Written d lo hi (programUses [.print expr]) := by
  rw [programUses, Stmt.usesAll, Stmt.usesAll, Stmt.uses, List.append_nil]
  exact h .top

/-! ### Scanned tokens -/

theorem Scan.genuine_wordKind (lexeme : String) (line : Nat) :
    Token.Genuine ⟨Scan.wordKind lexeme, lexeme, line⟩ := by
  constructor
  · intro hkind
    show Keyword.ofText? lexeme = none
    change Scan.wordKind lexeme = .identifier at hkind
    unfold Scan.wordKind at hkind
    split at hkind
    · cases hkind
    · assumption
  · intro keyword hkind
    show lexeme = keyword.text
    change Scan.wordKind lexeme = .keyword keyword at hkind
    unfold Scan.wordKind at hkind
    split at hkind
    next found hfound =>
      cases hkind
      have htext := List.find?_some hfound
      exact (of_decide_eq_true htext).symm
    next => cases hkind

theorem Scan.genuine_findingOf {shape : Scan.Shape} {bytes : List UInt8} {kind : Token.Kind}
    {lexeme : String} (h : Scan.findingOf shape bytes = some (.token kind lexeme)) (line : Nat) :
    Token.Genuine ⟨kind, lexeme, line⟩ := by
  have hother : (∀ keyword, kind ≠ .keyword keyword) → kind ≠ .identifier →
      Token.Genuine ⟨kind, lexeme, line⟩ :=
    fun hkeyword hidentifier =>
      ⟨fun hk => (hidentifier hk).elim, fun keyword hk => (hkeyword keyword hk).elim⟩
  cases shape with
  | trivia | fault _ => cases h
  | symbol _ | number | string =>
      simp only [Scan.findingOf] at h
      split at h
      · cases h
        exact hother (by simp) (by simp)
      · cases h
  | word =>
      simp only [Scan.findingOf] at h
      split at h
      · cases h
        exact Scan.genuine_wordKind _ line
      · cases h

theorem Scan.genuine_itemsFrom (bound start line : Nat) (bytes : List UInt8) :
    ∀ item ∈ Scan.itemsFrom bound start line bytes, ∀ token,
      item.token? = some token → token.Genuine := by
  have hlast : ∀ (start line : Nat) (token : Token),
      Scan.Item.token? ⟨start, start, line, .token .eof ""⟩ = some token → token.Genuine := by
    intro start line token htoken
    cases htoken
    exact ⟨nofun, nofun⟩
  fun_induction Scan.itemsFrom bound start line bytes with
  | case1 | case2 =>
      intro item hitem token htoken
      rw [List.mem_singleton.1 hitem] at htoken
      exact hlast _ _ token htoken
  | case3 start line bound first rest piece bytes stop endLine finding hfinding ih =>
      intro item hitem token htoken
      rcases List.mem_cons.1 hitem with rfl | hrest
      · cases finding with
        | token kind lexeme =>
            cases htoken
            exact Scan.genuine_findingOf hfinding _
        | error cause => cases htoken
      · exact ih item hrest token htoken
  | case4 _ _ _ _ _ _ _ _ _ _ ih => exact ih

theorem Parse.State.Genuine.meets {scanned : Scanned} {firstId : Nat}
    (h : (State.initial scanned firstId).Genuine) :
    State.Meets .genuine [0] (.initial scanned firstId) := ⟨h.1, h.2, rfl⟩

theorem Scanned.genuine_ofSource (source : Source) (firstId : Nat) :
    (Parse.State.initial (.ofSource source) firstId).Genuine := by
  have hall : ∀ token ∈ (scan source).filterMap Scan.Item.token?, token.Genuine := by
    intro token htoken
    obtain ⟨item, hitem, hfound⟩ := List.mem_filterMap.1 htoken
    exact Scan.genuine_itemsFrom _ _ _ _ item hitem token hfound
  refine ⟨fun token htoken => hall token ((List.dropLast_sublist _).subset htoken), ?_⟩
  show (((scan source).filterMap Scan.Item.token?).getLast?.getD (.endOfSource 1)).Genuine
  cases hlast : ((scan source).filterMap Scan.Item.token?).getLast? with
  | none => exact ⟨nofun, nofun⟩
  | some token => exact hall token (List.mem_of_getLast? hlast)

/-- Programs read from text are genuine. -/
theorem parseProgram_written (source : Source) (firstId : Nat) :
    firstId ≤ (parseProgram (.ofSource source) firstId).nextId ∧
      Uses.Written .genuine firstId (parseProgram (.ofSource source) firstId).nextId
      (programUses (parseProgram (.ofSource source) firstId).value) :=
  parseProgram_meets (Scanned.genuine_ofSource source firstId).meets

theorem parseExpression_written (source : Source) (firstId : Nat) :
    firstId ≤ (parseExpression (.ofSource source) firstId).nextId ∧
      ∀ expr, (parseExpression (.ofSource source) firstId).value = some expr →
        expr.Written .genuine firstId (parseExpression (.ofSource source) firstId).nextId :=
  parseExpression_meets (Scanned.genuine_ofSource source firstId).meets

/-! ### Any tokens -/

theorem Parse.State.meets_jumpsInLoops (scanned : Scanned) (firstId : Nat) :
    State.Meets .jumpsInLoops [0] (.initial scanned firstId) :=
  ⟨fun _ _ => trivial, trivial, rfl⟩

end TraitScript
