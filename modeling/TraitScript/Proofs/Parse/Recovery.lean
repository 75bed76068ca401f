import TraitScript.Proofs.Parse.Twins
import TraitScript.Proofs.Parse.Written
import TraitScript.Proofs.Parse.Grammar

/-!
# Nothing is left over from an error

Reading a program goes from declaration to declaration. Wherever one of them starts, also after
errors and skipped tokens, no loop is open, and what is read and reported from there on is what a
new reader makes of the tokens that are left. Underneath, every parsing function leaves the count of
open loops as it was, however it ends.
-/

namespace TraitScript

open Parse

/-! ### Ids make no difference to a tree without ids -/

mutual

theorem Expr.withoutIds_mapIds (f : Nat → Nat) : (e : Expr) → (e.mapIds f).withoutIds = e.withoutIds
  | .literal _ => rfl
  | .group inner => by simp [Expr.mapIds, inner.withoutIds_mapIds f]
  | .unary _ right => by simp [Expr.mapIds, right.withoutIds_mapIds f]
  | .binary left _ right => by
    simp [Expr.mapIds, left.withoutIds_mapIds f, right.withoutIds_mapIds f]
  | .logical left _ right => by
    simp [Expr.mapIds, left.withoutIds_mapIds f, right.withoutIds_mapIds f]
  | .conditional a b c => by
    simp [Expr.mapIds, a.withoutIds_mapIds f, b.withoutIds_mapIds f, c.withoutIds_mapIds f]
  | .variable _ _ => rfl
  | .assign _ _ value => by simp [Expr.mapIds, value.withoutIds_mapIds f]
  | .call callee _ arguments => by
    simp [Expr.mapIds, callee.withoutIds_mapIds f, Expr.withoutIdsAll_mapIds f arguments]
  | .function decl => by simp [Expr.mapIds, decl.withoutIds_mapIds f]
  | .get object _ => by simp [Expr.mapIds, object.withoutIds_mapIds f]
  | .set object _ value => by
    simp [Expr.mapIds, object.withoutIds_mapIds f, value.withoutIds_mapIds f]
  | .this _ _ => rfl
  | .super _ _ _ => rfl

theorem Expr.withoutIdsAll_mapIds (f : Nat → Nat) :
    (es : List Expr) → Expr.withoutIdsAll (Expr.mapIdsAll f es) = Expr.withoutIdsAll es
  | [] => rfl
  | e :: es => by simp [Expr.mapIdsAll, e.withoutIds_mapIds f, Expr.withoutIdsAll_mapIds f es]

theorem Expr.withoutIds?_mapIds (f : Nat → Nat) :
    (e : Option Expr) → Expr.withoutIds? (Expr.mapIds? f e) = Expr.withoutIds? e
  | none => rfl
  | some e => by simp [Expr.mapIds?, e.withoutIds_mapIds f]

theorem FunctionDecl.withoutIds_mapIds (f : Nat → Nat) :
    (decl : FunctionDecl) → (decl.mapIds f).withoutIds = decl.withoutIds
  | ⟨_, _, body, _⟩ => by simp [FunctionDecl.mapIds, Stmt.withoutIdsAll_mapIds f body]

theorem FunctionDecl.withoutIdsAll_mapIds (f : Nat → Nat) :
    (decls : List FunctionDecl) →
      FunctionDecl.withoutIdsAll (FunctionDecl.mapIdsAll f decls) = FunctionDecl.withoutIdsAll decls
  | [] => rfl
  | decl :: decls => by
    simp [FunctionDecl.mapIdsAll, decl.withoutIds_mapIds f,
      FunctionDecl.withoutIdsAll_mapIds f decls]

theorem ClassBody.withoutIds_mapIds (f : Nat → Nat) :
    (body : ClassBody) → (body.mapIds f).withoutIds = body.withoutIds
  | ⟨traits, methods, classMethods⟩ => by
    simp [ClassBody.mapIds, Expr.withoutIdsAll_mapIds f traits,
      FunctionDecl.withoutIdsAll_mapIds f methods,
      FunctionDecl.withoutIdsAll_mapIds f classMethods]

theorem Stmt.withoutIds_mapIds (f : Nat → Nat) :
    (stmt : Stmt) → (stmt.mapIds f).withoutIds = stmt.withoutIds
  | .expression value => by simp [Stmt.mapIds, value.withoutIds_mapIds f]
  | .print value => by simp [Stmt.mapIds, value.withoutIds_mapIds f]
  | .variable _ initial => by simp [Stmt.mapIds, Expr.withoutIds?_mapIds f initial]
  | .block statements => by simp [Stmt.mapIds, Stmt.withoutIdsAll_mapIds f statements]
  | .ifElse condition thenBranch elseBranch => by
    simp [Stmt.mapIds, condition.withoutIds_mapIds f, thenBranch.withoutIds_mapIds f,
      Stmt.withoutIds?_mapIds f elseBranch]
  | .whileLoop condition body => by
    simp [Stmt.mapIds, condition.withoutIds_mapIds f, body.withoutIds_mapIds f]
  | .forLoop initial condition increment body => by
    simp [Stmt.mapIds, Stmt.withoutIds?_mapIds f initial, Expr.withoutIds?_mapIds f condition,
      Expr.withoutIds?_mapIds f increment,
      body.withoutIds_mapIds f]
  | .jump _ _ => rfl
  | .function decl => by simp [Stmt.mapIds, decl.withoutIds_mapIds f]
  | .returnValue _ value => by simp [Stmt.mapIds, Expr.withoutIds?_mapIds f value]
  | .classDecl _ superclass body => by
    simp [Stmt.mapIds, Expr.withoutIds?_mapIds f superclass, body.withoutIds_mapIds f]
  | .traitDecl _ body => by simp [Stmt.mapIds, body.withoutIds_mapIds f]

theorem Stmt.withoutIdsAll_mapIds (f : Nat → Nat) :
    (statements : List Stmt) →
      Stmt.withoutIdsAll (Stmt.mapIdsAll f statements) = Stmt.withoutIdsAll statements
  | [] => rfl
  | stmt :: rest => by
    simp [Stmt.mapIdsAll, stmt.withoutIds_mapIds f, Stmt.withoutIdsAll_mapIds f rest]

theorem Stmt.withoutIds?_mapIds (f : Nat → Nat) :
    (stmt : Option Stmt) → Stmt.withoutIds? (Stmt.mapIds? f stmt) = Stmt.withoutIds? stmt
  | none => rfl
  | some stmt => by simp [Stmt.mapIds?, stmt.withoutIds_mapIds f]

end

theorem Parse.Twin.later_renumbers (shift : Nat) :
    (Twin.later shift).trees.Renumbers (· + shift) where
  token h := h
  occurrence h := h
  receiver h := h
  declared h := h
  named h := h

/-- The ids a source is read with make no difference to its errors, and none to its statements but
for the ids. -/
theorem parseProgram_anyIds (scanned : Scanned) (hlast : scanned.last.kind = .eof)
    (firstId otherId : Nat) :
    (parseProgram scanned otherId).errors = (parseProgram scanned firstId).errors ∧
      Stmt.withoutIdsAll (parseProgram scanned otherId).value =
      Stmt.withoutIdsAll (parseProgram scanned firstId).value := by
  have hzero : ∀ shift, (parseProgram scanned shift).errors = (parseProgram scanned 0).errors ∧
      Stmt.withoutIdsAll (parseProgram scanned shift).value =
      Stmt.withoutIdsAll (parseProgram scanned 0).value := by
    intro shift
    have hboth : Parsed.Alike (.later shift) (Twin.later shift).StmtLists (parseProgram scanned 0)
        (parseProgram scanned shift) := by
      have hlater := parseProgram_alike (Twin.later_sources shift hlast) (Nat.zero_le 0)
      rwa [Nat.zero_add] at hlater
    refine ⟨Twin.eq_of_later_errors hboth.errors, ?_⟩
    rw [(hboth.value []).eq_mapIds (Twin.later_renumbers shift), Stmt.withoutIdsAll_mapIds]
  exact ⟨(hzero otherId).1.trans (hzero firstId).1.symm,
    (hzero otherId).2.trans (hzero firstId).2.symm⟩

namespace Parse

/-! ### Open loops -/

/-- A parser leaves the open loops as they were, with or without an error. -/
def KeepsLoops {α : Type} (x : Parser α) : Prop := ∀ s, (after x s).loopDepths = s.loopDepths

theorem keepsLoops_of_reads {α : Type} {x : Parser α} {Q : List Nat → State → α → State → Prop}
    (h : ∀ loops s, Reads .jumpsInLoops loops x (Q loops s) s) : KeepsLoops x := by
  intro s
  have hread := h s.loopDepths s ⟨fun _ _ => trivial, trivial, rfl⟩
  unfold after
  cases hx : x s with
  | ok a t =>
      rw [hx] at hread
      exact hread.1.loops
  | error e t =>
      rw [hx] at hread
      exact hread.1.loops

/-- All parsing functions leave the open loops as they were: those for expressions and function
bodies, those for statements with the bodies of loops, those for classes and traits, those for
declarations, which recover from errors, and those for single tokens. -/
structure Rules.KeepLoops (r : Rules) : Prop where
  expression : KeepsLoops (Parse.expression r)
  assignment : KeepsLoops (Parse.assignment r)
  conditional : KeepsLoops (Parse.conditional r)
  operators : ∀ operand ∈ logicalOr r :: operands r, KeepsLoops operand
  call : KeepsLoops (call r)
  callRest : ∀ callee, KeepsLoops (callRest r callee)
  arguments : KeepsLoops (arguments r)
  primary : KeepsLoops (primary r)
  parameters : KeepsLoops parameters
  functionRest : ∀ name beforeBody, KeepsLoops (functionRest r name beforeBody)
  functionBody : KeepsLoops (inFunction (block r))
  block : KeepsLoops (block r)
  statement : KeepsLoops (Parse.statement r)
  expressionStatement : KeepsLoops (expressionStatement r)
  printStatement : KeepsLoops (printStatement r)
  returnStatement : ∀ keyword, KeepsLoops (returnStatement r keyword)
  jumpStatement : ∀ keyword kind, KeepsLoops (jumpStatement keyword kind)
  ifStatement : KeepsLoops (ifStatement r)
  whileStatement : KeepsLoops (whileStatement r)
  forStatement : KeepsLoops (forStatement r)
  loopBody : KeepsLoops (inLoop r.statement)
  method : KeepsLoops (method r)
  classBody : ∀ before after, KeepsLoops (classBody r before after)
  classDeclaration : KeepsLoops (classDeclaration r)
  traitDeclaration : KeepsLoops (traitDeclaration r)
  functionDeclaration : KeepsLoops (functionDeclaration r)
  variableDeclaration : KeepsLoops (variableDeclaration r)
  declarationRule : KeepsLoops (declarationRule r)
  declaration : KeepsLoops (Parse.declaration r)
  declarations : ∀ bound, KeepsLoops (declarationsFrom r bound)
  loneExpression : KeepsLoops (loneExpressionWith r)
  accept : ∀ test, KeepsLoops (accept test)
  expect : ∀ test cause, KeepsLoops (expect test cause)
  report : ∀ token cause, KeepsLoops (report token cause)

theorem keepLoops_of_fresh {r : Rules} (hr : r.Fresh .jumpsInLoops) : r.KeepLoops where
  expression := keepsLoops_of_reads fun _ => reads_expression hr
  assignment := keepsLoops_of_reads fun _ => reads_assignment hr
  conditional := keepsLoops_of_reads fun _ => reads_conditional hr
  operators operand h := by
    simp only [operands, List.mem_cons, List.not_mem_nil, or_false] at h
    rcases h with rfl | rfl | rfl | rfl | rfl | rfl | rfl | rfl
    · exact keepsLoops_of_reads fun _ => reads_logicalOr hr
    · exact keepsLoops_of_reads fun _ => reads_unary hr
    · exact keepsLoops_of_reads fun _ => reads_factor hr
    · exact keepsLoops_of_reads fun _ => reads_term hr
    · exact keepsLoops_of_reads fun _ => reads_comparison hr
    · exact keepsLoops_of_reads fun _ => reads_equality hr
    · exact keepsLoops_of_reads fun _ => reads_logicalAnd hr
    · exact keepsLoops_of_reads fun _ => reads_assignment hr
  call := keepsLoops_of_reads fun _ => reads_call hr
  callRest callee := keepsLoops_of_reads fun _ s =>
    (reads_arguments hr s).bind fun _ _ _ _ => (reads_expectSymbol _ _).bind fun _ _ _ _ =>
      reads_pure (Q := fun _ _ => True) _ trivial
  arguments := keepsLoops_of_reads fun _ => reads_arguments hr
  primary := keepsLoops_of_reads fun _ => reads_primary hr
  parameters := keepsLoops_of_reads fun _ => reads_parameters
  functionRest name beforeBody := keepsLoops_of_reads fun _ => reads_functionRest hr name beforeBody
  functionBody := keepsLoops_of_reads fun loops =>
    reads_inFunction (fun lo body hi => Stmt.WrittenAll .jumpsInLoops (0 :: loops) lo hi body)
      (reads_block hr)
  block := keepsLoops_of_reads fun _ => reads_block hr
  statement := keepsLoops_of_reads fun _ => reads_statement hr
  expressionStatement := keepsLoops_of_reads fun _ => reads_expressionStatement hr
  printStatement := keepsLoops_of_reads fun _ => reads_printStatement hr
  returnStatement keyword := keepsLoops_of_reads fun _ => reads_returnStatement hr keyword
  jumpStatement keyword kind :=
    keepsLoops_of_reads
      (Q := fun loops s stmt s' => stmt.Written .jumpsInLoops loops s.nextId s'.nextId)
    fun _ => reads_jumpStatement keyword kind
  ifStatement := keepsLoops_of_reads fun _ => reads_ifStatement hr
  whileStatement := keepsLoops_of_reads fun _ => reads_whileStatement hr
  forStatement := keepsLoops_of_reads fun _ => reads_forStatement hr
  loopBody := keepsLoops_of_reads fun _ => reads_loopBody hr
  method := keepsLoops_of_reads fun _ => reads_method hr
  classBody before after := keepsLoops_of_reads fun _ => reads_classBody hr before after
  classDeclaration := keepsLoops_of_reads fun _ => reads_classDeclaration hr
  traitDeclaration := keepsLoops_of_reads fun _ => reads_traitDeclaration hr
  functionDeclaration := keepsLoops_of_reads fun _ => reads_functionDeclaration hr
  variableDeclaration := keepsLoops_of_reads fun _ => reads_variableDeclaration hr
  declarationRule := keepsLoops_of_reads fun _ => reads_declarationRule hr
  declaration := keepsLoops_of_reads fun _ s => reads_recovering (reads_declarationRule hr s)
  declarations bound := keepsLoops_of_reads fun _ _ => reads_declarationsFrom hr bound
  loneExpression := keepsLoops_of_reads (Q := fun _ _ _ _ => True) fun _ s =>
    (hr.expression s).bind fun _ _ _ _ => reads_atEnd.bind fun ended _ _ _ => by
      split
      · exact reads_pure _ trivial
      · exact reads_fail _
  accept test := keepsLoops_of_reads fun _ _ => reads_accept test
  expect test cause := keepsLoops_of_reads fun _ _ => reads_expect test cause
  report token cause := keepsLoops_of_reads fun _ _ => reads_report token cause

/-! ### Declaration by declaration -/

/-- The statements that the first declarations give, and the state in which the next one starts. A
declaration with errors gives no statement; at the end of the source no more of them start. -/
def declared (r : Rules) : (count : Nat) → State → List Stmt × State
  | 0, s => ([], s)
  | count + 1, s =>
    if s.rest.isEmpty then ([], s)
    else match r.declaration s with
      | .ok found t => (found.toList ++ (declared r count t).1, (declared r count t).2)
      | .error _ t => declared r count t

variable {r : Rules} {s : State}

theorem declarationsFrom_of_declaration {bound : Nat} {found : Option Stmt} {statements : List Stmt}
    {t u : State} (hend : ¬s.rest.isEmpty = true) (hfound : r.declaration s = .ok found t)
    (hlater : declarationsFrom r bound t = .ok statements u) :
    declarationsFrom r (bound + 1) s = .ok (found.toList ++ statements) u := by
  cases found with
  | none =>
      simp only [declarationsFrom, Bind.bind, EStateM.bind, atEnd, hend, if_false,
        Bool.false_eq_true, hfound]
      exact hlater
  | some stmt =>
      simp only [declarationsFrom, Bind.bind, EStateM.bind, atEnd, hend, if_false,
        Bool.false_eq_true, hfound, hlater]
      rfl

/-- Reading all declarations is reading some of them and then the others. -/
theorem declarationsFrom_declared (hloops : KeepsLoops r.declaration)
    (hr : ∀ s : State, s.last.kind = .eof → r.Onward s) (hsucceeds : Succeeds r.declaration)
    (count : Nat) (s : State) (hlast : s.last.kind = .eof) {bound : Nat}
    (hbound : s.rest.length ≤ bound) :
    (declared r count s).2.rest <:+ s.rest ∧ (declared r count s).2.last = s.last ∧
      (declared r count s).2.loopDepths = s.loopDepths ∧
      ∃ bound', (declared r count s).2.rest.length ≤ bound' ∧
        ∀ statements t, declarationsFrom r bound' (declared r count s).2 = .ok statements t →
          declarationsFrom r bound s = .ok ((declared r count s).1 ++ statements) t := by
  induction count generalizing s bound with
  | zero => exact ⟨List.suffix_refl _, rfl, rfl, bound, hbound, fun _ _ h => h⟩
  | succ count ih =>
      by_cases hend : s.rest.isEmpty = true
      · rw [declared, if_pos hend]
        exact ⟨List.suffix_refl _, rfl, rfl, bound, hbound, fun _ _ h => h⟩
      · have hrest : s.rest ≠ [] := fun h => hend (List.isEmpty_iff.2 h)
        obtain ⟨found, t, hfound⟩ := hsucceeds s
        have honward := (hr s hlast).declaration
        have hless := (hr s hlast).consumes hrest
        have hkept := hloops s
        simp only [Onward, after, hfound] at honward hless hkept
        cases bound with
        | zero => exact absurd (List.length_eq_zero_iff.1 (Nat.le_zero.1 hbound)) hrest
        | succ bound =>
            have hless' : t.rest.length ≤ bound := by omega
            obtain ⟨hsuffix, hsame, hopen, bound', hbound', hgo⟩ := ih t (honward.2 ▸ hlast) hless'
            rw [declared, if_neg hend, hfound]
            simp only [List.append_assoc]
            exact ⟨hsuffix.trans honward.1, hsame.trans honward.2, hopen.trans hkept, bound',
              hbound', fun statements u hstatements =>
                declarationsFrom_of_declaration hend hfound (hgo statements u hstatements)⟩

/-- Reading with some errors already recorded is reading without them. -/
theorem declarationsFrom_earlier (hlast : s.last.kind = .eof) (hloops : s.loopDepths = [0])
    {depth bound : Nat} (hdepth : s.rest.length < depth) (hbound : s.rest.length ≤ bound) :
    ∃ statements t, declarationsFrom (rules depth) bound s = .ok statements t ∧
      statements = (parseProgram ⟨s.rest, s.last, []⟩ s.nextId).value ∧
      t.errors = s.errors ++ (parseProgram ⟨s.rest, s.last, []⟩ s.nextId).errors := by
  let w : Twin := { Twin.same with earlier := s.errors }
  have hstates : w.States (.initial ⟨s.rest, s.last, []⟩ s.nextId) s :=
    ⟨List.forall₂_same.2 fun _ _ => rfl, rfl, hlast, hloops, ⟨[], (List.append_nil _).symm, .nil⟩,
      rfl, Nat.zero_le _⟩
  have hrules : (rules (s.rest.length + 1)).Parallel w (s.rest.length + 1) (rules depth) := by
    rw [rules_eq_iterate, rules_eq_iterate]
    exact parallel_iterate_of_le _ _ (Nat.le_refl _) hdepth
  have hboth :=
    parallel_declarationsFrom hrules (Nat.lt_succ_self _) (Nat.le_refl _) hbound _ _ hstates rfl
  obtain ⟨statements, t, hread⟩ := succeeds_declarationsFrom (succeeds_declaration depth) bound s
  obtain ⟨fresh, u, hfresh⟩ :=
    succeeds_declarationsFrom (succeeds_declaration (s.rest.length + 1)) s.rest.length
    (.initial ⟨s.rest, s.last, []⟩ s.nextId)
  rw [hfresh, hread] at hboth
  obtain ⟨⟨-, -, -, -, ⟨later, herrors, hlater⟩, -, -⟩, -, -, hstatements, -⟩ := hboth
  refine ⟨statements, t, hread, ?_, ?_⟩
  · rw [parseProgram, program, hfresh]
    exact (hstatements []).eq
  · rw [parseProgram, program, hfresh, herrors]
    exact congrArg _ (eq_of_forall₂ Twin.eq_of_errors hlater)

end Parse

/-- Nothing is left over from what was read before. After any number of declarations, with or
without errors, the reader stands at some later token with no loop open; the statements that come
from there on, and the errors that come on top of those it has, are the ones of a new reader on the
tokens that are left, and the same up to ids whatever ids that reader starts with. All parsing
functions leave the open loops as they were, however they end. -/
theorem recovery_leaves_no_residue (scanned : Scanned) (firstId : Nat)
    (hlast : scanned.last.kind = .eof) :
    (∀ count before s, declared (rules (scanned.tokens.length + 1)) count (.initial scanned firstId)
      = (before, s) →
      s.rest <:+ scanned.tokens ∧ s.last = scanned.last ∧ s.loopDepths = [0] ∧
      ∃ statements errors, (parseProgram scanned firstId).value = before ++ statements ∧
        (parseProgram scanned firstId).errors = s.errors ++ errors ∧
        (parseProgram ⟨s.rest, s.last, []⟩ s.nextId).value = statements ∧
        ∀ id, (parseProgram ⟨s.rest, s.last, []⟩ id).errors = errors ∧
          Stmt.withoutIdsAll (parseProgram ⟨s.rest, s.last, []⟩ id).value =
          Stmt.withoutIdsAll statements) ∧
    ∀ depth, (rules depth).KeepLoops := by
  have hkeep : ∀ depth, (rules depth).KeepLoops :=
    fun depth => keepLoops_of_fresh (fresh_rules _ depth)
  refine ⟨fun count before s hdeclared => ?_, hkeep⟩
  have hdeclaration : KeepsLoops (rules (scanned.tokens.length + 1)).declaration :=
    (hkeep scanned.tokens.length).declaration
  have hrules : ∀ s : State, s.last.kind = .eof → (rules (scanned.tokens.length + 1)).Onward s :=
    fun s hs => onward_of_parallel (parallel_rules _) hs (succeeds_declaration _)
  have hreached := declarationsFrom_declared hdeclaration hrules (succeeds_declaration _) count
    (.initial scanned firstId) hlast (Nat.le_refl _)
  rw [hdeclared] at hreached
  obtain ⟨hsuffix, hsame, hloops, bound, hbound, hgo⟩ := hreached
  have heof : s.last.kind = .eof := by rw [hsame]; exact hlast
  obtain ⟨statements, t, hread, hstatements, herrors⟩ :=
    declarationsFrom_earlier heof hloops (Nat.lt_succ_of_le hsuffix.length_le) hbound
  have hprogram : program scanned.tokens.length (.initial scanned firstId) =
      .ok (before ++ statements) t := hgo statements t hread
  refine ⟨hsuffix, hsame, hloops, statements, (parseProgram ⟨s.rest, s.last, []⟩ s.nextId).errors,
    ?_, ?_, hstatements.symm, fun id => ?_⟩
  · rw [parseProgram, hprogram]
  · rw [parseProgram, hprogram]
    exact herrors
  · obtain ⟨hsameErrors, hsameValue⟩ := parseProgram_anyIds ⟨s.rest, s.last, []⟩ heof s.nextId id
    exact ⟨hsameErrors, hsameValue.trans (congrArg _ hstatements.symm)⟩

/-- Two loops that are given up in the middle, one of them at an error inside a function of its
body, and then a jump outside of all loops. -/
def abandonedLoops : Scanned :=
  .ofSource "while (true) f(fun (a, ) { for (;;) print; }); break; print 1;".toUTF8.data.toList

theorem recovery_leaves_no_residue_loops :
    abandonedLoops.last.kind = .eof ∧
      ∃ before s, declared (rules (abandonedLoops.tokens.length + 1)) 2 (.initial abandonedLoops 0)
        = (before, s) ∧
        s.errors.length = 2 ∧ s.loopDepths = [0] ∧
        (parseProgram ⟨s.rest, s.last, []⟩ 7).errors.length = 2 ∧
        (parseProgram abandonedLoops 0).errors =
        s.errors ++ (parseProgram ⟨s.rest, s.last, []⟩ 7).errors := by
  have hlast : abandonedLoops.last.kind = .eof := by decide +kernel
  obtain ⟨-, -, hloops, statements, errors, -, herrors, -, hfresh⟩ :=
    (recovery_leaves_no_residue abandonedLoops 0 hlast).1 2 _ _ (Prod.eta _).symm
  refine ⟨hlast, _, _, (Prod.eta _).symm, by decide +kernel, hloops, by decide +kernel, ?_⟩
  rw [(hfresh 7).1]
  exact herrors

end TraitScript
