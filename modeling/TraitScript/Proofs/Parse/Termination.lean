import TraitScript.Proofs.Parse.Progress
import TraitScript.Proofs.Tree.Renumber

/-!
# Parsing ends

A program is read to the end of its source whatever errors it has. The rules and loops carry bounds,
and these are beside the point: no loop is ever stopped by its bound, no re-entry is refused, and
each declaration that starts before the end of the source takes at least one token with it, whether
it succeeds or fails.
-/

namespace TraitScript

open Parse

namespace Parse

/-! ### The same reading twice -/

/-- The same tokens and the same ids on both sides, so that only the bounds and what lies beyond
them may differ. -/
def Twin.same : Twin where
  token t t' := t' = t
  kind_eq h := congrArg Token.kind h
  shift := 0
  least := 0
  trees := .same
  of_token h := h
  of_name h _ _ := ⟨rfl, h⟩
  of_receiver h _ _ := ⟨rfl, h⟩
  of_declared h _ := h
  of_named h _ := h

theorem Twin.same_states {s : State} (heof : s.last.kind = .eof) : Twin.same.States s s where
  rest := List.forall₂_same.2 fun _ _ => rfl
  last := rfl
  eof := heof
  loopDepths := rfl
  errors := ⟨s.errors, rfl, List.forall₂_same.2 fun _ _ => ⟨rfl, rfl⟩⟩
  nextId := rfl
  least := Nat.zero_le _

theorem Twin.eq_of_errors {e e' : ParseError} (h : Twin.same.Errors e e') : e' = e := by
  obtain ⟨cause, token⟩ := e
  obtain ⟨cause', token'⟩ := e'
  obtain ⟨hcause, htoken⟩ := h
  cases hcause
  cases htoken
  rfl

theorem Twin.eq_of_states {s s' : State} (h : Twin.same.States s s') : s' = s := by
  have hrest : s'.rest = s.rest := eq_of_forall₂ id h.rest
  have herrors : s'.errors = s.errors := eq_of_forall₂ Twin.eq_of_errors (h.errors.forall₂ rfl)
  have hlast : s'.last = s.last := h.last
  have hnextId : s'.nextId = s.nextId := h.nextId
  have hloops := h.loopDepths
  cases s
  cases s'
  simp_all

variable {α : Type} {n : Nat}

/-- Readings that go alike on the same tokens have the same outcome. -/
theorem Parallel.eq {x y : Parser α} {Q : α → α → Nat → Prop} (h : Parallel .same n x y Q)
    (hQ : ∀ a b k, Q a b k → b = a) {s : State} (heof : s.last.kind = .eof)
    (hn : s.rest.length = n) : y s = x s := by
  have hboth := h s s (Twin.same_states heof) hn
  cases hx : x s with
  | ok a t =>
      cases hy : y s with
      | ok b t' =>
          simp only [hx, hy] at hboth
          rw [Twin.eq_of_states hboth.1, hQ a b _ hboth.2.2.2]
      | error e' t' => simp [hx, hy] at hboth
  | error e t =>
      cases hy : y s with
      | ok b t' => simp [hx, hy] at hboth
      | error e' t' =>
          simp only [hx, hy] at hboth
          rw [Twin.eq_of_states hboth.1, Twin.eq_of_errors hboth.2.2.2]

theorem Twin.same_blind (test : Token → Bool) : Twin.same.Blind test := fun ht => congrArg test ht

theorem Twin.same_exprs (e : Expr) : Twin.same.Exprs e e := fun marks => e.alike_refl marks

theorem Twin.eq_of_exprs {e e' : Expr} (h : Twin.same.Exprs e e') : e' = e := (h []).eq

theorem Twin.same_joins (node : Expr → Token → Expr → Expr) : Twin.same.Joins node := by
  intro left left' right right' t t' hleft ht hright
  rw [Twin.eq_of_exprs hleft, Twin.eq_of_exprs hright, show t' = t from ht]
  exact Twin.same_exprs _

/-! ### What one rule or loop does -/

/-- The state in which a parser ends, with or without an error. -/
def after (x : Parser α) (s : State) : State :=
  match x s with
  | .ok _ t => t
  | .error _ t => t

/-- A parser goes on from where it is, and never past the end of the source. -/
def Onward (x : Parser α) (s : State) : Prop :=
  (after x s).rest <:+ s.rest ∧ (after x s).last = s.last

theorem Parallel.onward {x : Parser α} {Q : α → α → Nat → Prop} (h : Parallel .same n x x Q)
    {s : State} (heof : s.last.kind = .eof) (hn : s.rest.length = n) : Onward x s := by
  have hboth := h s s (Twin.same_states heof) hn
  unfold Onward after
  cases hx : x s with
  | ok a t =>
      simp only [hx] at hboth
      exact ⟨hboth.2.1, hboth.2.2.1⟩
  | error e t =>
      simp only [hx] at hboth
      exact ⟨hboth.2.1, hboth.2.2.1⟩

/-- Every rule goes onward, and a declaration takes at least one token if there is one, also if it
fails. -/
structure Rules.Onward (r : Rules) (s : State) : Prop where
  expression : Parse.Onward r.expression s
  assignment : Parse.Onward r.assignment s
  conditional : Parse.Onward r.conditional s
  comparison : Parse.Onward r.comparison s
  term : Parse.Onward r.term s
  factor : Parse.Onward r.factor s
  unary : Parse.Onward r.unary s
  statement : Parse.Onward r.statement s
  declaration : Parse.Onward r.declaration s
  consumes : s.rest ≠ [] → (after r.declaration s).rest.length < s.rest.length

/-- The operands of the levels of binary operators. -/
def operands (r : Rules) : List (Parser Expr) :=
  [unary r, factor r, term r, comparison r, equality r, logicalAnd r, assignment r]

/-- No loop is stopped by its bound: any bound that allows a round for each token left has the same
outcome as the least such bound. -/
structure Rules.LoopsEnd (r : Rules) (s : State) : Prop where
  operators : ∀ operand ∈ operands r,
      ∀ (operator : Token → Bool) (node : Expr → Token → Expr → Expr) (left : Expr),
      ∀ bound ≥ s.rest.length,
    leftAssociativeFrom operand operator node bound left s =
    leftAssociativeFrom operand operator node s.rest.length left s
  parameters : ∀ count, ∀ bound ≥ s.rest.length, parametersFrom bound count s =
      parametersFrom s.rest.length count s
  statements : ∀ bound ≥ s.rest.length, statementsFrom r bound s = statementsFrom r s.rest.length s
  arguments : ∀ count, ∀ bound ≥ s.rest.length, argumentsFrom r bound count s =
      argumentsFrom r s.rest.length count s
  accesses : ∀ expr, ∀ bound ≥ s.rest.length, accessesFrom r bound expr s =
      accessesFrom r s.rest.length expr s
  usedTraits : ∀ bound ≥ s.rest.length, usedTraitsFrom bound s = usedTraitsFrom s.rest.length s
  members : ∀ body, ∀ bound ≥ s.rest.length, membersFrom r bound body s =
      membersFrom r s.rest.length body s
  declarations : ∀ bound ≥ s.rest.length, declarationsFrom r bound s =
      declarationsFrom r s.rest.length s

/-! ### Declarations up to the end -/

theorem declarationsFrom_atEnd (r : Rules) (bound : Nat) :
    StopsAtEnd (declarationsFrom r bound) [] := by
  intro s h
  cases bound with
  | zero => rfl
  | succ bound =>
      unfold declarationsFrom
      simp only [Bind.bind, EStateM.bind, atEnd, h]
      rfl

theorem parallel_declarationsFrom {w : Twin} {r r' : Rules} (hr : r.Parallel w n r')
    {bound bound' k : Nat} (hk : k < n) (hbound : k ≤ bound) (hbound' : k ≤ bound') :
    Parallel w k (declarationsFrom r bound) (declarationsFrom r' bound')
      fun statements statements' j => w.StmtLists statements statements' ∧ j = 0 := by
  induction bound generalizing bound' k with
  | zero =>
      obtain rfl : k = 0 := Nat.le_zero.1 hbound
      exact parallel_atStop (declarationsFrom_atEnd _ _) (declarationsFrom_atEnd _ _)
        ⟨fun _ => .nil, rfl⟩
  | succ bound ih =>
      cases bound' with
      | zero =>
          obtain rfl : k = 0 := Nat.le_zero.1 hbound'
          exact parallel_atStop (declarationsFrom_atEnd _ _) (declarationsFrom_atEnd _ _)
            ⟨fun _ => .nil, rfl⟩
      | succ bound' =>
          apply parallel_atEnd.bind
          rintro _ _ j - ⟨rfl, rfl, rfl⟩
          by_cases hstop : j = 0
          · rw [decide_eq_true hstop]
            exact parallel_pure _ _ ⟨fun _ => .nil, hstop⟩
          · rw [decide_eq_false hstop]
            apply (hr.declaration j hk).bind
            intro found found' l _ ⟨hl, hfound⟩
            have hless := hl (Nat.pos_of_ne_zero hstop)
            cases hfound with
            | none => exact ih (by omega) (by omega) (by omega)
            | some hstmt =>
                apply (ih (by omega) (by omega) (by omega)).bind
                intro statements statements' m _ ⟨hstatements, hm⟩
                exact parallel_pure _ _ ⟨fun marks => .cons (hstmt marks) (hstatements marks), hm⟩

/-- A parser that never gives up. -/
def Succeeds (x : Parser α) : Prop := ∀ s, ∃ a t, x s = .ok a t

theorem Succeeds.bind {β : Type} {x : Parser α} {f : α → Parser β} (hx : Succeeds x)
    (hf : ∀ a, Succeeds (f a)) : Succeeds (x >>= f) := by
  intro s
  obtain ⟨a, t, hfirst⟩ := hx s
  obtain ⟨b, u, hsecond⟩ := hf a t
  refine ⟨b, u, ?_⟩
  simp only [Bind.bind, EStateM.bind, hfirst]
  exact hsecond

theorem succeeds_pure (a : α) : Succeeds (pure a) := fun s => ⟨a, s, rfl⟩

theorem succeeds_recovering (x : Parser α) : Succeeds (recovering x) := by
  intro s
  unfold recovering
  cases x s with
  | ok a t => exact ⟨_, _, rfl⟩
  | error e t => exact ⟨_, _, rfl⟩

theorem succeeds_declarationsFrom {r : Rules} (hr : Succeeds r.declaration) (bound : Nat) :
    Succeeds (declarationsFrom r bound) := by
  induction bound with
  | zero => exact succeeds_pure []
  | succ bound ih =>
      apply Succeeds.bind fun s => ⟨_, s, rfl⟩
      intro ended
      cases ended with
      | true => exact succeeds_pure []
      | false =>
          apply hr.bind
          intro found
          cases found with
          | none => exact ih
          | some stmt => exact ih.bind fun _ => succeeds_pure _

/-! ### All states -/

theorem onward_of_parallel {r : Rules} {s : State} (hr : r.Parallel .same (s.rest.length + 1) r)
    (heof : s.last.kind = .eof) (hsucceeds : Succeeds r.declaration) : r.Onward s where
  expression := (hr.expression _ (Nat.lt_succ_self _)).onward heof rfl
  assignment := (hr.assignment _ (Nat.lt_succ_self _)).onward heof rfl
  conditional := (hr.conditional _ (Nat.lt_succ_self _)).onward heof rfl
  comparison := (hr.comparison _ (Nat.lt_succ_self _)).onward heof rfl
  term := (hr.term _ (Nat.lt_succ_self _)).onward heof rfl
  factor := (hr.factor _ (Nat.lt_succ_self _)).onward heof rfl
  unary := (hr.unary _ (Nat.lt_succ_self _)).onward heof rfl
  statement := (hr.statement _ (Nat.lt_succ_self _)).onward heof rfl
  declaration := (hr.declaration _ (Nat.lt_succ_self _)).onward heof rfl
  consumes hrest := by
    obtain ⟨found, t, hfound⟩ := hsucceeds s
    have hboth := hr.declaration _ (Nat.lt_succ_self _) s s (Twin.same_states heof) rfl
    simp only [hfound] at hboth
    rw [after, hfound]
    exact hboth.2.2.2.1 (List.length_pos_of_ne_nil hrest)

theorem parallel_operands {w : Twin} {r : Rules} (hr : r.Parallel w n r) {operand : Parser Expr}
    (h : operand ∈ operands r) :
    Parallel w n operand operand (Fewer n w.Exprs) := by
  simp only [operands, List.mem_cons, List.not_mem_nil, or_false] at h
  rcases h with rfl | rfl | rfl | rfl | rfl | rfl | rfl
  · exact parallel_unary hr
  · exact parallel_factor hr
  · exact parallel_term hr
  · exact parallel_comparison hr
  · exact parallel_equality hr
  · exact parallel_logicalAnd hr
  · exact parallel_assignment hr

theorem loopsEnd_of_parallel {r : Rules} {s : State} (hr : r.Parallel .same (s.rest.length + 1) r)
    (heof : s.last.kind = .eof) : r.LoopsEnd s where
  operators operand hoperand operator node left bound hbound := by
    have hoperands : ∀ k ≤ s.rest.length,
        Parallel .same k operand operand (Fewer k Twin.same.Exprs) :=
      fun k hk => parallel_operands (hr.mono (by omega)) hoperand
    have hloop := parallel_leftAssociativeFrom (Twin.same_blind operator) (Twin.same_joins node)
      hoperands (Nat.le_refl _) (Nat.le_refl _) hbound
      (Twin.same_exprs left)
    exact hloop.eq (fun _ _ _ => Twin.eq_of_exprs) heof rfl
  parameters count bound hbound := by
    have hloop := parallel_parametersFrom (w := .same) count (Nat.le_refl _) hbound
    exact hloop.eq (fun _ _ _ h => eq_of_forall₂ And.left h.2) heof rfl
  statements bound hbound := by
    have hloop := parallel_statementsFrom hr (Nat.lt_succ_self _) (Nat.le_refl _) hbound
    exact hloop.eq (fun _ _ _ h => (h []).eq) heof rfl
  arguments count bound hbound := by
    have hloop := parallel_argumentsFrom hr count (Nat.lt_succ_self _) (Nat.le_refl _) hbound
    exact hloop.eq (fun _ _ _ h => (h []).eq) heof rfl
  accesses expr bound hbound := by
    have hloop :=
      parallel_accessesFrom hr (Nat.le_succ _) (Nat.le_refl _) hbound (Twin.same_exprs expr)
    exact hloop.eq (fun _ _ _ => Twin.eq_of_exprs) heof rfl
  usedTraits bound hbound := by
    have hloop := parallel_usedTraitsFrom (w := .same) (Nat.le_refl _) hbound
    exact hloop.eq (fun _ _ _ h => (h.2 []).eq) heof rfl
  members body bound hbound := by
    have hloop := parallel_membersFrom hr (Nat.le_succ _) (Nat.le_refl _) hbound
      fun outside inside => body.alike_refl outside inside
    exact hloop.eq (fun _ _ _ h => (h [] []).eq) heof rfl
  declarations bound hbound := by
    have hloop := parallel_declarationsFrom hr (Nat.lt_succ_self _) (Nat.le_refl _) hbound
    exact hloop.eq (fun _ _ _ h => (h.1 []).eq) heof rfl

theorem succeeds_declaration (depth : Nat) : Succeeds (rules depth).declaration := by
  cases depth with
  | zero => exact succeeds_recovering (fail .missingExpression)
  | succ depth => exact succeeds_recovering (declarationRule (rules depth))

/-- An expression up to the end of the source, with any rules. -/
def loneExpressionWith (r : Rules) : Parser Expr := do
  let expr ← r.expression
  if ← atEnd then return expr else fail .trailingTokens

theorem loneExpression_eq (tokens : Nat) :
    loneExpression tokens = loneExpressionWith (rules (tokens + 1)) := rfl

theorem parallel_loneExpressionWith {w : Twin} {r r' : Rules} (hr : r.Parallel w (n + 1) r') :
    Parallel w n (loneExpressionWith r) (loneExpressionWith r') fun e e' _ => w.Exprs e e' := by
  apply (hr.expression n (Nat.lt_succ_self n)).bind
  intro expr expr' k _ ⟨_, hexpr⟩
  apply parallel_atEnd.bind
  rintro _ _ j - ⟨rfl, rfl, rfl⟩
  by_cases hend : j = 0
  · rw [decide_eq_true hend]
    exact parallel_pure _ _ hexpr
  · rw [decide_eq_false hend]
    exact parallel_fail _

end Parse

/-- Parsing ends, and always gets on: a program is read to the end of its source. The depth of the
rules, the bound on the declarations and the rules that would be asked beyond them make no
difference to the outcome, as long as there is one for each token, and the same holds of a single
expression. At every place in any source, whatever depth the rules have, no rule goes back or past
the end, a declaration takes a token if there is one, and no loop reaches its bound. -/
theorem parsing_ends (scanned : Scanned) (firstId : Nat) (hlast : scanned.last.kind = .eof) :
    (∃ statements t, program scanned.tokens.length (.initial scanned firstId) = .ok statements t ∧
      parseProgram scanned firstId = ⟨statements, t.errors, t.nextId⟩ ∧ t.rest = [] ∧
      t.last = scanned.last) ∧
    (∀ base depth bound, scanned.tokens.length < depth → scanned.tokens.length ≤ bound →
      declarationsFrom (Rules.step^[depth] base) bound (.initial scanned firstId) =
      program scanned.tokens.length (.initial scanned firstId)) ∧
    Onward (loneExpression scanned.tokens.length) (.initial scanned firstId) ∧
    (∀ base depth, scanned.tokens.length < depth →
      loneExpressionWith (Rules.step^[depth] base) (.initial scanned firstId) =
      loneExpression scanned.tokens.length (.initial scanned firstId)) ∧
    ∀ s : State, s.last.kind = .eof → ∀ depth, (rules depth).Onward s ∧
      (rules depth).LoopsEnd s := by
  have hrules : ∀ base depth, scanned.tokens.length < depth →
      (rules (scanned.tokens.length + 1)).Parallel .same (scanned.tokens.length + 1)
      (Rules.step^[depth] base) := by
    intro base depth hdepth
    rw [rules_eq_iterate]
    exact parallel_iterate_of_le _ _ (Nat.le_refl _) hdepth
  have hself :=
    parallel_rules (w := .same) (n := scanned.tokens.length + 1) (scanned.tokens.length + 1)
  refine ⟨?_, ?_, ?_, ?_, ?_⟩
  · obtain ⟨statements, t, hread⟩ :=
      succeeds_declarationsFrom (succeeds_declaration (scanned.tokens.length + 1))
        scanned.tokens.length
      (.initial scanned firstId)
    have hread' : program scanned.tokens.length (.initial scanned firstId) = .ok statements t :=
      hread
    have hboth := parallel_declarationsFrom hself (Nat.lt_succ_self _) (Nat.le_refl _)
      (Nat.le_refl _) (.initial scanned firstId)
      (.initial scanned firstId) (Twin.same_states hlast) rfl
    simp only [hread] at hboth
    obtain ⟨-, -, hsame, -, hempty⟩ := hboth
    refine ⟨statements, t, hread', ?_, List.length_eq_zero_iff.1 hempty, hsame⟩
    rw [parseProgram, hread']
  · intro base depth bound hdepth hbound
    have hloop := parallel_declarationsFrom (hrules base depth hdepth) (Nat.lt_succ_self _)
      (Nat.le_refl _) hbound
    exact hloop.eq (fun _ _ _ h => (h.1 []).eq) hlast rfl
  · rw [loneExpression_eq]
    exact (parallel_loneExpressionWith hself).onward hlast rfl
  · intro base depth hdepth
    exact (parallel_loneExpressionWith (hrules base depth hdepth)).eq
      (fun _ _ _ => Twin.eq_of_exprs) hlast rfl
  · intro s heof depth
    exact ⟨onward_of_parallel (parallel_rules depth) heof (succeeds_declaration depth),
      loopsEnd_of_parallel (parallel_rules depth) heof⟩

/-- Errors in the middle of a rule, an operator without its left side, and a block that is never
closed. -/
def brokenSource : Scanned :=
  .ofSource "fun f( { * 1; class } use, ; if (a { print -; }".toUTF8.data.toList

theorem parsing_ends_broken :
    brokenSource.last.kind = .eof ∧ (parseProgram brokenSource 0).errors ≠ [] ∧
      ∃ statements t, program brokenSource.tokens.length (.initial brokenSource 0) =
        .ok statements t ∧ t.rest = [] := by
  have hlast : brokenSource.last.kind = .eof := by decide +kernel
  obtain ⟨statements, t, hread, -, hrest, -⟩ := (parsing_ends brokenSource 0 hlast).1
  exact ⟨hlast, by decide +kernel, statements, t, hread, hrest⟩

end TraitScript
