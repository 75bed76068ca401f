import TraitScript.Parse.Program
import TraitScript.Proofs.Tree.Alike

/-!
# Two readings side by side

The same rules are run on two token lists that look the same to them: token by token the kinds
agree, while spellings, lines and the first free id may differ, and so may the rules that answer a
re-entry. The readings then go alike, step by step: both succeed or both fail, at corresponding
tokens, with trees of the same shape. Counting the tokens left on the way shows that every
successful rule has read a token, which is what a loop or a re-entry needs in order to end.
-/

namespace TraitScript.Parse

/-- How two readings differ: which tokens stand for which, how far the ids of the second are ahead,
and the errors it starts with. No id below `least` is handed out. What the trees are to have in
common follows for every leaf from the tokens and the id it is made of. -/
structure Twin where
  token : Token → Token → Prop
  kind_eq : ∀ {t t' : Token}, token t t' → t'.kind = t.kind
  shift : Nat
  least : Nat
  trees : Correspondence
  of_token : ∀ {t t' : Token}, token t t' → trees.token t t'
  of_name : ∀ {t t' : Token} {id : Nat} {marks : List Bool}, token t t' →
      t.isIdentifier = true → least ≤ id →
    trees.occurrence marks id t (id + shift) t'
  of_receiver : ∀ {t t' : Token} {id : Nat} {marks : List Bool} {keyword : Keyword}, token t t' →
      t.kind = .keyword keyword → least ≤ id →
    trees.receiver marks id t (id + shift) t'
  of_declared : ∀ {t t' : Token} {mark : Bool}, token t t' → t.isIdentifier = true →
      trees.declared mark t t'
  of_named : ∀ {t t' : Token} {mark : Bool}, token t t' → t.isIdentifier = true →
      trees.named mark t t'
  earlier : List ParseError := []

namespace Twin

/-- Errors with the same cause at corresponding tokens. -/
def Errors (w : Twin) (e e' : ParseError) : Prop := e'.cause = e.cause ∧ w.token e.token e'.token

/-- The second reading records the same errors behind those it has started with. -/
def Reported (w : Twin) (errors errors' : List ParseError) : Prop :=
  ∃ later, errors' = w.earlier ++ later ∧ List.Forall₂ w.Errors errors later

theorem Reported.add {w : Twin} {errors errors' : List ParseError} (h : w.Reported errors errors')
    {e e' : ParseError} (he : w.Errors e e') :
    w.Reported (errors ++ [e]) (errors' ++ [e']) := by
  obtain ⟨later, rfl, hlater⟩ := h
  exact ⟨later ++ [e'], List.append_assoc .., List.rel_append hlater (.cons he .nil)⟩

theorem Reported.forall₂ {w : Twin} {errors errors' : List ParseError}
    (h : w.Reported errors errors') (hearlier : w.earlier = []) :
    List.Forall₂ w.Errors errors errors' := by
  obtain ⟨later, rfl, hlater⟩ := h
  rwa [hearlier]

structure States (w : Twin) (s s' : State) : Prop where
  rest : List.Forall₂ w.token s.rest s'.rest
  last : w.token s.last s'.last
  eof : s.last.kind = .eof
  loopDepths : s'.loopDepths = s.loopDepths
  errors : w.Reported s.errors s'.errors
  nextId : s'.nextId = s.nextId + w.shift
  least : w.least ≤ s.nextId

-- Where a scope is marked makes no difference to these leaves, so two trees that are read
-- correspond under any marks.

def Exprs (w : Twin) (e e' : Expr) : Prop := ∀ marks, Expr.Alike w.trees marks e e'

def ExprLists (w : Twin) (es es' : List Expr) : Prop := ∀ marks, Expr.AlikeAll w.trees marks es es'

def ExprOptions (w : Twin) (e e' : Option Expr) : Prop := ∀ marks, Expr.Alike? w.trees marks e e'

def Functions (w : Twin) (decl decl' : FunctionDecl) : Prop :=
  ∀ marks, FunctionDecl.Alike w.trees marks decl decl'

def Bodies (w : Twin) (body body' : ClassBody) : Prop :=
  ∀ outside inside, ClassBody.Alike w.trees outside inside body body'

def Stmts (w : Twin) (stmt stmt' : Stmt) : Prop := ∀ marks, Stmt.Alike w.trees marks stmt stmt'

def StmtLists (w : Twin) (statements statements' : List Stmt) : Prop :=
  ∀ marks, Stmt.AlikeAll w.trees marks statements statements'

def StmtOptions (w : Twin) (stmt stmt' : Option Stmt) : Prop :=
  ∀ marks, Stmt.Alike? w.trees marks stmt stmt'

end Twin

/-- From corresponding states with `n` tokens left, two parsers both succeed or both fail, in
corresponding states further on in the tokens; if they succeed, the results and the number of tokens
left satisfy a condition. -/
def Parallel {α β : Type} (w : Twin) (n : Nat) (x : Parser α) (y : Parser β)
    (Q : α → β → Nat → Prop) : Prop :=
  ∀ s s', w.States s s' → s.rest.length = n → match x s, y s' with
    | .ok a t, .ok b t' => w.States t t' ∧ t.rest <:+ s.rest ∧ t.last = s.last ∧ Q a b t.rest.length
    | .error e t, .error e' t' =>
      w.States t t' ∧ t.rest <:+ s.rest ∧ t.last = s.last ∧ w.Errors e e'
    | _, _ => False

/-- Corresponding results, with fewer than `n` tokens left. -/
def Fewer {α β : Type} (n : Nat) (R : α → β → Prop) (a : α) (b : β) (k : Nat) : Prop :=
  k < n ∧ R a b

section Combinators

variable {α β γ δ : Type} {w : Twin} {n : Nat}

theorem Parallel.mono {x : Parser α} {y : Parser β} {Q Q' : α → β → Nat → Prop}
    (h : Parallel w n x y Q) (himp : ∀ a b k, k ≤ n → Q a b k → Q' a b k) :
    Parallel w n x y Q' := by
  intro s s' hs hn
  have hboth := h s s' hs hn
  cases hx : x s with
  | ok a t =>
      cases hy : y s' with
      | ok b t' =>
          simp only [hx, hy] at hboth ⊢
          obtain ⟨ht, hrest, hlast, hQ⟩ := hboth
          exact ⟨ht, hrest, hlast, himp a b _ (hn ▸ hrest.length_le) hQ⟩
      | error e' t' => simp [hx, hy] at hboth
  | error e t =>
      cases hy : y s' with
      | ok b t' => simp [hx, hy] at hboth
      | error e' t' =>
          simp only [hx, hy] at hboth ⊢
          exact hboth

theorem parallel_pure {Q : α → β → Nat → Prop} (a : α) (b : β) (h : Q a b n) :
    Parallel w n (pure a) (pure b) Q := by
  intro s s' hs hn
  exact ⟨hs, List.suffix_refl _, rfl, hn ▸ h⟩

theorem Parallel.bind {x : Parser α} {y : Parser β} {f : α → Parser γ} {g : β → Parser δ}
    {Q : α → β → Nat → Prop} {R : γ → δ → Nat → Prop} (hxy : Parallel w n x y Q)
    (hfg : ∀ a b k, k ≤ n → Q a b k → Parallel w k (f a) (g b) R) :
    Parallel w n (x >>= f) (y >>= g) R := by
  intro s s' hs hn
  have hfirst := hxy s s' hs hn
  simp only [Bind.bind, EStateM.bind]
  cases hx : x s with
  | error e t =>
      cases hy : y s' with
      | ok b t' => simp [hx, hy] at hfirst
      | error e' t' =>
          simp only [hx, hy] at hfirst ⊢
          exact hfirst
  | ok a t =>
      cases hy : y s' with
      | error e' t' => simp [hx, hy] at hfirst
      | ok b t' =>
          simp only [hx, hy] at hfirst ⊢
          obtain ⟨ht, hrest, hlast, hQ⟩ := hfirst
          have hsecond := hfg a b _ (hn ▸ hrest.length_le) hQ t t' ht rfl
          -- the second half starts where the first has ended, so its suffix is one of the whole
          cases hf : f a t with
          | error e u =>
              cases hg : g b t' with
              | ok d u' => simp [hf, hg] at hsecond
              | error e' u' =>
                  simp only [hf, hg] at hsecond ⊢
                  exact ⟨hsecond.1, hsecond.2.1.trans hrest, hsecond.2.2.1.trans hlast,
                    hsecond.2.2.2⟩
          | ok c u =>
              cases hg : g b t' with
              | error e' u' => simp [hf, hg] at hsecond
              | ok d u' =>
                  simp only [hf, hg] at hsecond ⊢
                  exact ⟨hsecond.1, hsecond.2.1.trans hrest, hsecond.2.2.1.trans hlast,
                    hsecond.2.2.2⟩

/-! ### Tokens -/

/-- A test does not tell the two sides apart. -/
def Twin.Blind (w : Twin) (test : Token → Bool) : Prop :=
  ∀ {t t' : Token}, w.token t t' → test t' = test t

theorem blind_isSymbol (symbol : Symbol) : w.Blind (·.isSymbol symbol) := by
  intro t t' ht
  simp only [Token.isSymbol, w.kind_eq ht]

theorem blind_isKeyword (keyword : Keyword) : w.Blind (·.isKeyword keyword) := by
  intro t t' ht
  simp only [Token.isKeyword, w.kind_eq ht]

theorem blind_isIdentifier : w.Blind (·.isIdentifier) := by
  intro t t' ht
  simp only [Token.isIdentifier, w.kind_eq ht]

theorem blind_isAnySymbol (symbols : List Symbol) : w.Blind (isAnySymbol symbols) := by
  intro t t' ht
  simp only [isAnySymbol, Token.isSymbol, w.kind_eq ht]


/-- Either both readings are at the end, or corresponding tokens come next. -/
theorem Twin.States.front {s s' : State} (hs : w.States s s') :
    (s.rest = [] ∧ s'.rest = []) ∨
      ∃ t t' rest rest', s.rest = t :: rest ∧ s'.rest = t' :: rest' ∧ w.token t t' ∧
        List.Forall₂ w.token rest rest' := by
  have hrest := hs.rest
  generalize s.rest = left at hrest
  generalize s'.rest = right at hrest
  cases hrest with
  | nil => exact .inl ⟨rfl, rfl⟩
  | cons ht htail => exact .inr ⟨_, _, _, _, rfl, rfl, ht, htail⟩

theorem parallel_next :
    Parallel w n next next fun t t' k => w.token t t' ∧ (n = 0 → t.kind = .eof) ∧ k = n := by
  intro s s' hs hn
  have htokens : w.token s.next s'.next ∧ (n = 0 → s.next.kind = .eof) := by
    unfold State.next
    rcases hs.front with ⟨hleft, hright⟩ | ⟨t, t', rest, rest', hleft, hright, ht, -⟩
    · rw [hleft, hright]
      exact ⟨hs.last, fun _ => hs.eof⟩
    · rw [hleft] at hn
      rw [hleft, hright]
      exact ⟨ht, fun hzero => by simp [hzero] at hn⟩
  exact ⟨hs, List.suffix_refl _, rfl, htokens.1, htokens.2, hn⟩

theorem parallel_check {test : Token → Bool} (htest : w.Blind test) :
    Parallel w n (check test) (check test) fun a b k => b = a ∧ (n = 0 → a = false) ∧ k = n := by
  intro s s' hs hn
  have hsame : s'.check test = s.check test ∧ (n = 0 → s.check test = false) := by
    unfold State.check
    rcases hs.front with ⟨hleft, hright⟩ | ⟨t, t', rest, rest', hleft, hright, ht, -⟩
    · rw [hleft, hright]
      exact ⟨rfl, fun _ => rfl⟩
    · rw [hleft] at hn
      rw [hleft, hright]
      exact ⟨htest ht, fun hzero => by simp [hzero] at hn⟩
  exact ⟨hs, List.suffix_refl _, rfl, hsame.1, hsame.2, hn⟩

theorem parallel_atEnd :
    Parallel w n atEnd atEnd fun a b k => a = decide (n = 0) ∧ b = decide (n = 0) ∧ k = n := by
  intro s s' hs hn
  have hlength := hs.rest.length_eq
  have hempty : ∀ {tokens : List Token}, tokens.length = n → tokens.isEmpty = decide (n = 0) := by
    rintro tokens rfl
    cases tokens <;> simp
  exact ⟨hs, List.suffix_refl _, rfl, hempty hn, hempty (hlength ▸ hn), hn⟩

theorem parallel_remaining :
    Parallel w n remaining remaining fun a b k => a = n ∧ b = n ∧ k = n := by
  intro s s' hs hn
  exact ⟨hs, List.suffix_refl _, rfl, hn, hs.rest.length_eq ▸ hn, hn⟩

theorem accept_nil (test : Token → Bool) {s : State} (h : s.rest = []) :
    accept test s = .ok none s := by
  unfold accept
  rw [h]

theorem accept_cons (test : Token → Bool) {s : State} {t : Token} {rest : List Token}
    (h : s.rest = t :: rest) :
    accept test s = if test t then .ok (some t) { s with rest } else .ok none s := by
  unfold accept
  rw [h]

theorem expect_nil (test : Token → Bool) (cause : ParseError.Cause) {s : State} (h : s.rest = []) :
    expect test cause s = .error ⟨cause, s.last⟩ s := by
  unfold expect
  rw [h]

theorem expect_cons (test : Token → Bool) (cause : ParseError.Cause) {s : State} {t : Token}
    {rest : List Token} (h : s.rest = t :: rest) :
    expect test cause s = if test t then .ok t { s with rest } else .error ⟨cause, t⟩ s := by
  unfold expect
  rw [h]

/-- What a test lets through is read on both sides or on neither. -/
theorem parallel_accept {test : Token → Bool} (htest : w.Blind test) :
    Parallel w n (accept test) (accept test) fun a b k =>
      (a = none ∧ b = none ∧ k = n) ∨ ∃ t t', a = some t ∧ b = some t' ∧ w.token t t' ∧
        test t = true ∧ k + 1 = n := by
  intro s s' hs hn
  rcases hs.front with ⟨hleft, hright⟩ | ⟨t, t', rest, rest', hleft, hright, ht, hrest⟩
  · rw [accept_nil test hleft, accept_nil test hright]
    exact ⟨hs, List.suffix_refl _, rfl, .inl ⟨rfl, rfl, hn⟩⟩
  · rw [accept_cons test hleft, accept_cons test hright, htest ht]
    by_cases hpass : test t = true
    · rw [if_pos hpass, if_pos hpass]
      have hlength : rest.length + 1 = n := by simpa [hleft] using hn
      exact ⟨⟨hrest, hs.last, hs.eof, hs.loopDepths, hs.errors, hs.nextId, hs.least⟩,
        hleft ▸ List.suffix_cons .., rfl,
        .inr ⟨t, t', rfl, rfl, ht, hpass, hlength⟩⟩
    · rw [if_neg hpass, if_neg hpass]
      exact ⟨hs, List.suffix_refl _, rfl, .inl ⟨rfl, rfl, hn⟩⟩

/-- Any token but the end of the source can be read. -/
theorem parallel_advance :
    Parallel w n (accept fun _ => true) (accept fun _ => true) fun _ _ k => 0 < n → k + 1 = n := by
  intro s s' hs hn
  rcases hs.front with ⟨hleft, hright⟩ | ⟨t, t', rest, rest', hleft, hright, ht, hrest⟩
  · have hzero : n = 0 := by simpa [hleft] using hn.symm
    rw [accept_nil _ hleft, accept_nil _ hright]
    exact ⟨hs, List.suffix_refl _, rfl, fun hpos => absurd hzero (Nat.ne_of_gt hpos)⟩
  · have hlength : rest.length + 1 = n := by simpa [hleft] using hn
    rw [accept_cons _ hleft, accept_cons _ hright]
    exact ⟨⟨hrest, hs.last, hs.eof, hs.loopDepths, hs.errors, hs.nextId, hs.least⟩,
      hleft ▸ List.suffix_cons .., rfl, fun _ => hlength⟩

theorem parallel_expect {test : Token → Bool} (htest : w.Blind test) (cause : ParseError.Cause) :
    Parallel w n (expect test cause) (expect test cause) fun t t' k =>
      w.token t t' ∧ test t = true ∧ k + 1 = n := by
  intro s s' hs hn
  rcases hs.front with ⟨hleft, hright⟩ | ⟨t, t', rest, rest', hleft, hright, ht, hrest⟩
  · rw [expect_nil test cause hleft, expect_nil test cause hright]
    exact ⟨hs, List.suffix_refl _, rfl, rfl, hs.last⟩
  · rw [expect_cons test cause hleft, expect_cons test cause hright, htest ht]
    by_cases hpass : test t = true
    · rw [if_pos hpass, if_pos hpass]
      have hlength : rest.length + 1 = n := by simpa [hleft] using hn
      exact ⟨⟨hrest, hs.last, hs.eof, hs.loopDepths, hs.errors, hs.nextId, hs.least⟩,
        hleft ▸ List.suffix_cons .., rfl, ht, hpass, hlength⟩
    · rw [if_neg hpass, if_neg hpass]
      exact ⟨hs, List.suffix_refl _, rfl, rfl, ht⟩

/-- A symbol or keyword is read on both sides or on neither. -/
def Accepted (n : Nat) (a b : Bool) (k : Nat) : Prop :=
  (a = false ∧ b = false ∧ k = n) ∨ (a = true ∧ b = true ∧ k + 1 = n)

theorem parallel_acceptSymbol (symbol : Symbol) :
    Parallel w n (acceptSymbol symbol) (acceptSymbol symbol) (Accepted n) := by
  apply (parallel_accept (blind_isSymbol symbol)).bind
  rintro a b k - (⟨rfl, rfl, rfl⟩ | ⟨t, t', rfl, rfl, -, -, hk⟩)
  · exact parallel_pure _ _ (.inl ⟨rfl, rfl, rfl⟩)
  · exact parallel_pure _ _ (.inr ⟨rfl, rfl, hk⟩)

theorem parallel_acceptKeyword (keyword : Keyword) :
    Parallel w n (acceptKeyword keyword) (acceptKeyword keyword) (Accepted n) := by
  apply (parallel_accept (blind_isKeyword keyword)).bind
  rintro a b k - (⟨rfl, rfl, rfl⟩ | ⟨t, t', rfl, rfl, -, -, hk⟩)
  · exact parallel_pure _ _ (.inl ⟨rfl, rfl, rfl⟩)
  · exact parallel_pure _ _ (.inr ⟨rfl, rfl, hk⟩)

theorem parallel_checkSymbol (symbol : Symbol) :
    Parallel w n (checkSymbol symbol) (checkSymbol symbol) fun a b k =>
      b = a ∧ (n = 0 → a = false) ∧ k = n :=
  parallel_check (blind_isSymbol symbol)

theorem parallel_expectSymbol (symbol : Symbol) (position : Position) :
    Parallel w n (expectSymbol symbol position) (expectSymbol symbol position) fun t t' k =>
      w.token t t' ∧ k + 1 = n :=
  (parallel_expect (blind_isSymbol symbol) _).mono fun _ _ _ _ h => ⟨h.1, h.2.2⟩

theorem parallel_expectName (role : NameRole) :
    Parallel w n (expectName role) (expectName role) fun t t' k =>
      w.token t t' ∧ t.isIdentifier = true ∧ k + 1 = n :=
  parallel_expect blind_isIdentifier _

/-! ### Errors and ids -/

theorem parallel_throw {Q : α → β → Nat → Prop} {e e' : ParseError} (h : w.Errors e e') :
    Parallel w n (throw e) (throw e') Q := by
  intro s s' hs _
  exact ⟨hs, List.suffix_refl _, rfl, h⟩

theorem parallel_fail {Q : α → β → Nat → Prop} (cause : ParseError.Cause) :
    Parallel w n (fail cause) (fail cause) Q := by
  intro s s' hs hn
  have hnext := parallel_next s s' hs hn
  exact ⟨hs, List.suffix_refl _, rfl, rfl, hnext.2.2.2.1⟩

theorem parallel_report {t t' : Token} (ht : w.token t t') (cause : ParseError.Cause) :
    Parallel w n (report t cause) (report t' cause) fun _ _ k => k = n := by
  intro s s' hs hn
  exact ⟨⟨hs.rest, hs.last, hs.eof, hs.loopDepths, hs.errors.add ⟨rfl, ht⟩, hs.nextId, hs.least⟩,
    List.suffix_refl _, rfl, hn⟩

theorem parallel_freshId :
    Parallel w n freshId freshId fun id id' k => id' = id + w.shift ∧ w.least ≤ id ∧ k = n := by
  intro s s' hs hn
  have hnext : s'.nextId + 1 = s.nextId + 1 + w.shift := by rw [hs.nextId, Nat.add_right_comm]
  exact ⟨⟨hs.rest, hs.last, hs.eof, hs.loopDepths, hs.errors, hnext, Nat.le_succ_of_le hs.least⟩,
    List.suffix_refl _, rfl, hs.nextId,
    hs.least, hn⟩

/-! ### Loops and function bodies -/

theorem parallel_insideLoop : Parallel w n insideLoop insideLoop fun a b k => b = a ∧ k = n := by
  intro s s' hs hn
  exact ⟨hs, List.suffix_refl _, rfl, by rw [hs.loopDepths], hn⟩

theorem Twin.States.withLoops {s s' : State} (hs : w.States s s') (depths : List Nat) :
    w.States { s with loopDepths := depths } { s' with loopDepths := depths } :=
  ⟨hs.rest, hs.last, hs.eof, rfl, hs.errors, hs.nextId, hs.least⟩

/-- Counting loops makes no difference to what is read. -/
theorem parallel_thenAlways {x : Parser α} {y : Parser β} {Q : α → β → Nat → Prop}
    (before after : List Nat → List Nat) (h : Parallel w n x y Q) :
    Parallel w n (fun s => thenAlways x (fun t => { t with loopDepths := after t.loopDepths })
      { s with loopDepths := before s.loopDepths })
      (fun s => thenAlways y (fun t => { t with loopDepths := after t.loopDepths })
          { s with loopDepths := before s.loopDepths }) Q := by
  intro s s' hs hn
  have hinside := h _ _ (hs.withLoops (before s.loopDepths)) hn
  simp only [thenAlways, hs.loopDepths]
  cases hx : x { s with loopDepths := before s.loopDepths } with
  | ok a t =>
      cases hy : y { s' with loopDepths := before s.loopDepths } with
      | ok b t' =>
          simp only [hx, hy] at hinside ⊢
          obtain ⟨ht, hrest, hlast, hQ⟩ := hinside
          exact ⟨ht.loopDepths ▸ ht.withLoops _, hrest, hlast, hQ⟩
      | error e' t' => simp [hx, hy] at hinside
  | error e t =>
      cases hy : y { s' with loopDepths := before s.loopDepths } with
      | ok b t' => simp [hx, hy] at hinside
      | error e' t' =>
          simp only [hx, hy] at hinside ⊢
          obtain ⟨ht, hrest, hlast, herror⟩ := hinside
          exact ⟨ht.loopDepths ▸ ht.withLoops _, hrest, hlast, herror⟩

theorem State.mapLoops_eq (change : Nat → Nat) (s : State) :
    s.mapLoops change = { s with loopDepths := s.loopDepths.modifyHead change } := by
  obtain ⟨rest, last, depths, errors, nextId⟩ := s
  cases depths <;> rfl

theorem parallel_inLoop {x : Parser α} {y : Parser β} {Q : α → β → Nat → Prop}
    (h : Parallel w n x y Q) :
    Parallel w n (inLoop x) (inLoop y) Q := by
  have hcounted := parallel_thenAlways (List.modifyHead (· + 1)) (List.modifyHead (· - 1)) h
  simp only [← State.mapLoops_eq] at hcounted
  exact hcounted

theorem parallel_inFunction {x : Parser α} {y : Parser β} {Q : α → β → Nat → Prop}
    (h : Parallel w n x y Q) :
    Parallel w n (inFunction x) (inFunction y) Q :=
  parallel_thenAlways (0 :: ·) (·.drop 1) h

/-! ### Choosing a rule and recovering -/

/-- A rule that is chosen by the next token has that token behind it; at the end of the source no
rule is chosen. -/
theorem parallel_dispatch {choose : Token → Option (Parser α)} {choose' : Token → Option (Parser β)}
    {other : Parser α} {other' : Parser β} {Q : α → β → Nat → Prop}
    (heof : ∀ t : Token, t.kind = .eof → choose t = none)
    (hchoose : ∀ t t', w.token t t' →
      Option.Rel (fun rule rule' => ∀ k, k + 1 = n → Parallel w k rule rule' Q)
      (choose t) (choose' t'))
    (hother : Parallel w n other other' Q) :
    Parallel w n (dispatch choose other) (dispatch choose' other') Q := by
  apply parallel_next.bind
  rintro t t' k - ⟨ht, hend, rfl⟩
  rcases rel_cases (hchoose t t' ht) with ⟨hleft, hright⟩ | ⟨rule, rule', hleft, hright, hrule⟩
  · rw [hleft, hright]
    exact hother
  · have hpos : 0 < k := by
      apply Nat.pos_of_ne_zero
      intro hzero
      simp [heof t (hend hzero)] at hleft
    rw [hleft, hright]
    apply parallel_advance.bind
    intro a b j _ hj
    exact hrule j (hj hpos)

/-- Skipping stops at corresponding tokens. -/
theorem forall₂_skipFrom {tokens tokens' : List Token} (h : List.Forall₂ w.token tokens tokens')
    {t t' : Token} (ht : w.token t t') :
    List.Forall₂ w.token (skipFrom t tokens) (skipFrom t' tokens') := by
  induction h generalizing t t' with
  | nil => exact .nil
  | @cons u u' rest rest' hu hrest ih =>
      have hsame : (t'.isSymbol .semicolon || startsStatement u') =
          (t.isSymbol .semicolon || startsStatement u) := by
        have hclosed : t'.isSymbol .semicolon = t.isSymbol .semicolon :=
          blind_isSymbol .semicolon ht
        simp only [hclosed, startsStatement, w.kind_eq hu]
      unfold skipFrom
      rw [hsame]
      split
      · exact .cons hu hrest
      · exact ih hu

theorem skipFrom_suffix (previous : Token) (tokens : List Token) :
    skipFrom previous tokens <:+ tokens := by
  induction tokens generalizing previous with
  | nil => exact List.suffix_refl _
  | cons token rest ih =>
      unfold skipFrom
      split
      · exact List.suffix_refl _
      · exact (ih token).trans (List.suffix_cons ..)

/-- Skipping always drops the token at fault. -/
theorem skip_suffix (tokens : List Token) : skip tokens <:+ tokens.tail := by
  cases tokens with
  | nil => exact List.suffix_refl _
  | cons token rest => exact skipFrom_suffix token rest

/-- After a failed rule at least one token is dropped, so that recovering always gets on. -/
theorem parallel_recovering {x : Parser α} {y : Parser β} {R : α → β → Prop}
    (h : Parallel w n x y (Fewer n R)) :
    Parallel w n (recovering x) (recovering y) fun a b k => (0 < n → k < n) ∧ Option.Rel R a b := by
  intro s s' hs hn
  have hrule := h s s' hs hn
  unfold recovering
  cases hx : x s with
  | ok a t =>
      cases hy : y s' with
      | ok b t' =>
          simp only [hx, hy] at hrule ⊢
          obtain ⟨ht, hrest, hlast, hfewer, hR⟩ := hrule
          exact ⟨ht, hrest, hlast, fun _ => hfewer, .some hR⟩
      | error e' t' => simp [hx, hy] at hrule
  | error e t =>
      cases hy : y s' with
      | ok b t' => simp [hx, hy] at hrule
      | error e' t' =>
          simp only [hx, hy] at hrule ⊢
          obtain ⟨ht, hrest, hlast, herror⟩ := hrule
          have hskip : List.Forall₂ w.token (skip t.rest) (skip t'.rest) := by
            rcases ht.front with ⟨hleft, hright⟩ | ⟨u, u', rest, rest', hleft, hright, hu, htail⟩
            · rw [hleft, hright]
              exact .nil
            · rw [hleft, hright]
              exact forall₂_skipFrom htail hu
          have hshort : (skip t.rest).length ≤ t.rest.length - 1 := by
            have hle := (skip_suffix t.rest).length_le
            rwa [List.length_tail] at hle
          have hle := hrest.length_le
          exact ⟨⟨hskip, ht.last, ht.eof, ht.loopDepths, ht.errors.add herror, ht.nextId, ht.least⟩,
            ((skip_suffix t.rest).trans (List.tail_suffix _)).trans hrest, hlast, fun hpos => by
              omega, .none⟩

/-- At the end of the source a parser succeeds without reading. -/
def StopsAtEnd {α : Type} (x : Parser α) (a : α) : Prop := ∀ s : State, s.rest = [] → x s = .ok a s

theorem parallel_atStop {x : Parser α} {y : Parser β} {Q : α → β → Nat → Prop} {a : α} {b : β}
    (hx : StopsAtEnd x a) (hy : StopsAtEnd y b) (h : Q a b 0) : Parallel w 0 x y Q := by
  intro s s' hs hn
  have hleft : s.rest = [] := List.length_eq_zero_iff.1 hn
  have hright : s'.rest = [] := List.length_eq_zero_iff.1 (hs.rest.length_eq ▸ hn)
  rw [hx s hleft, hy s' hright]
  exact ⟨hs, List.suffix_refl _, rfl, hn ▸ h⟩

theorem acceptSymbol_atEnd (symbol : Symbol) : StopsAtEnd (acceptSymbol symbol) false := by
  intro s h
  unfold acceptSymbol
  simp only [Bind.bind, EStateM.bind, accept_nil _ h]
  rfl

end Combinators

/-! ### The rules -/

/-- Re-entries with fewer than `n` tokens left go alike, and each of them reads a token. -/
structure Rules.Parallel (w : Twin) (n : Nat) (r r' : Rules) : Prop where
  expression : ∀ k < n, Parse.Parallel w k r.expression r'.expression (Fewer k w.Exprs)
  assignment : ∀ k < n, Parse.Parallel w k r.assignment r'.assignment (Fewer k w.Exprs)
  conditional : ∀ k < n, Parse.Parallel w k r.conditional r'.conditional (Fewer k w.Exprs)
  comparison : ∀ k < n, Parse.Parallel w k r.comparison r'.comparison (Fewer k w.Exprs)
  term : ∀ k < n, Parse.Parallel w k r.term r'.term (Fewer k w.Exprs)
  factor : ∀ k < n, Parse.Parallel w k r.factor r'.factor (Fewer k w.Exprs)
  unary : ∀ k < n, Parse.Parallel w k r.unary r'.unary (Fewer k w.Exprs)
  statement : ∀ k < n, Parse.Parallel w k r.statement r'.statement (Fewer k w.Stmts)
  /-- A declaration may fail without reading a token at the end of the source only. -/
  declaration : ∀ k < n, Parse.Parallel w k r.declaration r'.declaration fun a b j =>
      (0 < k → j < k) ∧ Option.Rel w.Stmts a b

section Expressions

variable {w : Twin} {n : Nat} {r r' : Rules}

/-! ### Levels of binary operators -/

theorem leftAssociativeFrom_atEnd (operand : Parser Expr) (operator : Token → Bool)
    (node : Expr → Token → Expr → Expr) (bound : Nat) (left : Expr) :
    StopsAtEnd (leftAssociativeFrom operand operator node bound left) left := by
  intro s h
  cases bound with
  | zero => rfl
  | succ bound =>
      unfold leftAssociativeFrom
      simp only [Bind.bind, EStateM.bind, accept_nil operator h]
      rfl

/-- The node of a binary level is made of its parts. -/
def Twin.Joins (w : Twin) (node : Expr → Token → Expr → Expr) : Prop :=
  ∀ {left left' right right' t t'}, w.Exprs left left' → w.token t t' → w.Exprs right right' →
    w.Exprs (node left t right) (node left' t' right')

theorem joins_binary : w.Joins .binary :=
  fun hleft ht hright marks => .binary (hleft marks) (w.of_token ht) (hright marks)

theorem joins_logical : w.Joins .logical :=
  fun hleft ht hright marks => .logical (hleft marks) (w.of_token ht) (hright marks)

/-- Any two bounds that allow a round for every token left are the same. -/
theorem parallel_leftAssociativeFrom {operand operand' : Parser Expr} {operator : Token → Bool}
    (hoperator : w.Blind operator) {node : Expr → Token → Expr → Expr} (hnode : w.Joins node)
    (hoperand : ∀ k ≤ n, Parallel w k operand operand' (Fewer k w.Exprs)) {bound bound' k : Nat}
    (hk : k ≤ n) (hbound : k ≤ bound) (hbound' : k ≤ bound') {left left' : Expr}
    (hleft : w.Exprs left left') :
    Parallel w k (leftAssociativeFrom operand operator node bound left)
      (leftAssociativeFrom operand' operator node bound' left')
      fun e e' _ => w.Exprs e e' := by
  induction bound generalizing bound' k left left' with
  | zero =>
      obtain rfl : k = 0 := Nat.le_zero.1 hbound
      exact parallel_atStop (leftAssociativeFrom_atEnd _ _ _ _ _)
        (leftAssociativeFrom_atEnd _ _ _ _ _) hleft
  | succ bound ih =>
      cases bound' with
      | zero =>
          obtain rfl : k = 0 := Nat.le_zero.1 hbound'
          exact parallel_atStop (leftAssociativeFrom_atEnd _ _ _ _ _)
            (leftAssociativeFrom_atEnd _ _ _ _ _) hleft
      | succ bound' =>
          apply (parallel_accept hoperator).bind
          rintro a b j - (⟨rfl, rfl, rfl⟩ | ⟨t, t', rfl, rfl, ht, -, hj⟩)
          · exact parallel_pure _ _ hleft
          · apply (hoperand j (by omega)).bind
            intro right right' i _ ⟨hi, hright⟩
            exact ih (by omega) (by omega) (by omega) (hnode hleft ht hright)

theorem parallel_leftAssociative {operand operand' : Parser Expr} {operator : Token → Bool}
    (hoperator : w.Blind operator) {node : Expr → Token → Expr → Expr} (hnode : w.Joins node)
    (hoperand : ∀ k ≤ n, Parallel w k operand operand' (Fewer k w.Exprs)) {k : Nat} (hk : k ≤ n) :
    Parallel w k (leftAssociative operand operator node) (leftAssociative operand' operator node)
      (Fewer k w.Exprs) := by
  apply (hoperand k hk).bind
  intro left left' j _ ⟨hj, hleft⟩
  apply parallel_remaining.bind
  rintro bound bound' i - ⟨rfl, rfl, rfl⟩
  apply (parallel_leftAssociativeFrom hoperator hnode hoperand (by omega) (Nat.le_refl _)
    (Nat.le_refl _) hleft).mono
  intro e e' l hl he
  exact ⟨by omega, he⟩

/-! ### Functions -/

theorem parallel_checkCount (count : Nat) (cause : ParseError.Cause) :
    Parallel w n (checkCount count cause) (checkCount count cause) fun _ _ k => k = n := by
  unfold checkCount
  split
  · apply parallel_next.bind
    rintro t t' k - ⟨ht, -, rfl⟩
    exact parallel_report ht cause
  · exact parallel_pure () () rfl

/-- Names that are declared. -/
def Twin.Names (w : Twin) : List Token → List Token → Prop :=
  List.Forall₂ fun t t' => w.token t t' ∧ t.isIdentifier = true

theorem parallel_parametersFrom {bound bound' : Nat} (count : Nat) (hbound : n ≤ bound)
    (hbound' : n ≤ bound') :
    Parallel w n (parametersFrom bound count) (parametersFrom bound' count) (Fewer n w.Names) := by
  induction bound generalizing n bound' count with
  | zero =>
      -- without a token the name is missing, whatever would come after it
      cases bound' with
      | zero =>
          apply (parallel_checkCount _ _).bind
          rintro _ _ k - rfl
          apply (parallel_expectName _).bind
          intro t t' j _ ⟨ht, hname, hj⟩
          exact parallel_pure _ _ ⟨by omega, .cons ⟨ht, hname⟩ .nil⟩
      | succ bound' =>
          apply (parallel_checkCount _ _).bind
          rintro _ _ k - rfl
          apply (parallel_expectName _).bind
          intro t t' j _ ⟨_, _, hj⟩
          omega
  | succ bound ih =>
      cases bound' with
      | zero =>
          apply (parallel_checkCount _ _).bind
          rintro _ _ k - rfl
          apply (parallel_expectName _).bind
          intro t t' j _ ⟨_, _, hj⟩
          omega
      | succ bound' =>
          apply (parallel_checkCount _ _).bind
          rintro _ _ k - rfl
          apply (parallel_expectName _).bind
          intro t t' j _ ⟨ht, hname, hj⟩
          apply (parallel_acceptSymbol _).bind
          rintro more more' i - (⟨rfl, rfl, rfl⟩ | ⟨rfl, rfl, hi⟩)
          · exact parallel_pure _ _ ⟨by omega, .cons ⟨ht, hname⟩ .nil⟩
          · apply (ih (count + 1) (n := i) (by omega) (by omega)).bind
            intro params params' l _ ⟨hl, hparams⟩
            exact parallel_pure _ _ ⟨by omega, .cons ⟨ht, hname⟩ hparams⟩

theorem parallel_parameters :
    Parallel w n parameters parameters fun params params' _ => w.Names params params' := by
  apply (parallel_checkSymbol _).bind
  rintro _ closing k - ⟨rfl, -, rfl⟩
  cases closing with
  | true => exact parallel_pure _ _ .nil
  | false =>
      apply parallel_remaining.bind
      rintro bound bound' j - ⟨rfl, rfl, rfl⟩
      exact (parallel_parametersFrom 0 (Nat.le_refl _) (Nat.le_refl _)).mono fun _ _ _ _ h => h.2

theorem statementsFrom_atEnd (r : Rules) (bound : Nat) :
    StopsAtEnd (statementsFrom r bound) [] := by
  intro s h
  cases bound with
  | zero => rfl
  | succ bound =>
      unfold statementsFrom
      simp only [Bind.bind, EStateM.bind, checkSymbol, check, State.check, atEnd, h]
      rfl

/-- Statements up to a brace or the end; each round reads a token. -/
theorem parallel_statementsFrom (hr : r.Parallel w n r') {bound bound' k : Nat} (hk : k < n)
    (hbound : k ≤ bound) (hbound' : k ≤ bound') :
    Parallel w k (statementsFrom r bound) (statementsFrom r' bound') fun statements statements' _ =>
      w.StmtLists statements statements' := by
  induction bound generalizing bound' k with
  | zero =>
      obtain rfl : k = 0 := Nat.le_zero.1 hbound
      exact parallel_atStop (statementsFrom_atEnd _ _) (statementsFrom_atEnd _ _) fun _ => .nil
  | succ bound ih =>
      cases bound' with
      | zero =>
          obtain rfl : k = 0 := Nat.le_zero.1 hbound'
          exact parallel_atStop (statementsFrom_atEnd _ _) (statementsFrom_atEnd _ _) fun _ => .nil
      | succ bound' =>
          apply (parallel_checkSymbol _).bind
          rintro _ closing j - ⟨rfl, -, rfl⟩
          apply parallel_atEnd.bind
          rintro _ _ i - ⟨rfl, rfl, rfl⟩
          by_cases hstop : (closing || decide (i = 0)) = true
          · rw [hstop]
            exact parallel_pure _ _ fun _ => .nil
          · rw [Bool.not_eq_true] at hstop
            rw [hstop]
            have hpos : 0 < i := by
              rw [Bool.or_eq_false_iff, decide_eq_false_iff_not] at hstop
              omega
            apply (hr.declaration i hk).bind
            intro found found' l _ ⟨hl, hfound⟩
            have hless := hl hpos
            cases hfound with
            | none => exact ih (by omega) (by omega) (by omega)
            | some hstmt =>
                apply (ih (by omega) (by omega) (by omega)).bind
                intro statements statements' m _ hstatements
                exact parallel_pure _ _ fun marks => .cons (hstmt marks) (hstatements marks)

theorem parallel_block (hr : r.Parallel w n r') {k : Nat} (hk : k < n) :
    Parallel w k (block r) (block r') (Fewer k w.StmtLists) := by
  apply parallel_remaining.bind
  rintro bound bound' j - ⟨rfl, rfl, rfl⟩
  apply (parallel_statementsFrom hr hk (Nat.le_refl _) (Nat.le_refl _)).bind
  intro statements statements' i _ hstatements
  apply (parallel_expectSymbol _ _).bind
  intro _ _ l _ ⟨_, hl⟩
  exact parallel_pure _ _ ⟨by omega, hstatements⟩

theorem parallel_functionRest (hr : r.Parallel w n r') {k : Nat} (hk : k < n)
    {name name' : Option Token} (hname : Option.Rel w.token name name') (position : Position) :
    Parallel w k (functionRest r name position) (functionRest r' name' position)
      (Fewer k fun decl decl' => w.Functions decl decl' ∧ decl.name = name ∧
        decl'.name = name') := by
  apply parallel_parameters.bind
  intro params params' j _ hparams
  apply (parallel_expectSymbol _ _).bind
  intro _ _ i _ ⟨_, hi⟩
  apply (parallel_expectSymbol _ _).bind
  intro _ _ l _ ⟨_, hl⟩
  apply (parallel_inFunction (parallel_block hr (by omega))).bind
  intro body body' m _ ⟨hm, hbody⟩
  exact parallel_pure _ _
    ⟨by omega, fun marks => .intro false (rel_weaken hname w.of_token)
      (hparams.imp fun _ _ h => w.of_declared h.1 h.2) (hbody _), rfl, rfl⟩

/-! ### Primary expressions -/

theorem exprs_literal (value : Literal) : w.Exprs (.literal value) (.literal value) :=
  fun _ => .literal

/-- The right side of an orphan operator is read and dropped. -/
theorem parallel_orphanOperand {operators operators' : List (List Symbol × Parser Expr)}
    (h : List.Forall₂ (fun entry entry' => entry'.1 = entry.1 ∧
      ∀ k < n, Parallel w k entry.2 entry'.2 (Fewer k w.Exprs)) operators operators') :
    Parallel w n (orphanOperand operators) (orphanOperand operators') (Fewer n w.Exprs) := by
  induction h with
  | nil => exact parallel_fail _
  | @cons entry entry' rest rest' hentry _ ih =>
      obtain ⟨symbols, operand⟩ := entry
      obtain ⟨symbols', operand'⟩ := entry'
      obtain ⟨rfl, hoperand⟩ := hentry
      apply (parallel_accept (blind_isAnySymbol _)).bind
      rintro a b k - (⟨rfl, rfl, rfl⟩ | ⟨t, t', rfl, rfl, ht, -, hk⟩)
      · exact ih
      · apply (parallel_report ht _).bind
        rintro _ _ j - rfl
        apply (hoperand j (by omega)).bind
        intro _ _ i _ ⟨hi, _⟩
        exact parallel_pure _ _ ⟨by omega, exprs_literal _⟩

theorem parallel_orphanOperators (hr : r.Parallel w n r') :
    Parallel w n (orphanOperand (orphanOperators r)) (orphanOperand (orphanOperators r'))
      (Fewer n w.Exprs) := by
  apply parallel_orphanOperand
  exact .cons ⟨rfl, hr.comparison⟩
    (.cons ⟨rfl, hr.term⟩
      (.cons ⟨rfl, hr.factor⟩ (.cons ⟨rfl, hr.unary⟩ (.cons ⟨rfl, hr.assignment⟩ .nil))))

theorem parallel_groupRest (hr : r.Parallel w n r') {k : Nat} (hk : k < n) :
    Parallel w k (groupRest r) (groupRest r') (Fewer k w.Exprs) := by
  apply (hr.expression k hk).bind
  intro inner inner' j _ ⟨hj, hinner⟩
  apply (parallel_expectSymbol _ _).bind
  intro _ _ i _ _
  exact parallel_pure _ _ ⟨by omega, fun marks => .group (hinner marks)⟩

/-- Rules that start behind the token which chose them. -/
def Behind (w : Twin) (n : Nat) {α β : Type} (R : α → β → Prop) (rule : Parser α)
    (rule' : Parser β) : Prop :=
  ∀ k, k + 1 = n → Parallel w k rule rule' (Fewer n R)

theorem behind_pure {α β : Type} {R : α → β → Prop} {a : α} {b : β} (h : R a b) :
    Behind w n R (pure a) (pure b) :=
  fun k hk => parallel_pure _ _ ⟨by omega, h⟩

theorem behind_of_fewer {α β : Type} {R : α → β → Prop} {rule : Parser α} {rule' : Parser β}
    (h : ∀ k < n, Parallel w k rule rule' (Fewer k R)) : Behind w n R rule rule' :=
  fun k hk => (h k (by omega)).mono fun _ _ _ _ hfewer => ⟨by have := hfewer.1; omega, hfewer.2⟩

theorem behind_keywordExpression (hr : r.Parallel w n r') {t t' : Token} (ht : w.token t t')
    {keyword : Keyword} (hkind : t.kind = .keyword keyword) :
    Option.Rel (Behind w n w.Exprs) (keywordExpression r t keyword)
      (keywordExpression r' t' keyword) := by
  cases keyword with
  | falseWord => exact .some (behind_pure (exprs_literal _))
  | trueWord => exact .some (behind_pure (exprs_literal _))
  | nilWord => exact .some (behind_pure (exprs_literal _))
  | thisWord =>
      apply Option.Rel.some
      intro k hk
      apply parallel_freshId.bind
      rintro id _ j - ⟨rfl, hleast, rfl⟩
      exact parallel_pure _ _ ⟨by omega, fun marks => .this (w.of_receiver ht hkind hleast)⟩
  | superWord =>
      apply Option.Rel.some
      intro k hk
      apply (parallel_expectSymbol _ _).bind
      intro _ _ j _ _
      apply (parallel_expectName _).bind
      intro method method' i _ ⟨hmethod, _, _⟩
      apply parallel_freshId.bind
      rintro id _ l - ⟨rfl, hleast, rfl⟩
      exact parallel_pure _ _
        ⟨by omega, fun marks => .super (w.of_receiver ht hkind hleast) (w.of_token hmethod)⟩
  | funWord =>
      apply Option.Rel.some
      intro k hk
      apply (parallel_expectSymbol _ _).bind
      intro _ _ j _ ⟨_, hj⟩
      apply (parallel_functionRest hr (by omega) .none _).bind
      intro decl decl' i _ ⟨hi, hdecl, _, _⟩
      exact parallel_pure _ _ ⟨by omega, fun marks => .function (hdecl marks)⟩
  | _ => exact .none

theorem behind_primaryFrom (hr : r.Parallel w n r') {t t' : Token} (ht : w.token t t') :
    Option.Rel (Behind w n w.Exprs) (primaryFrom r t) (primaryFrom r' t') := by
  unfold primaryFrom
  rw [w.kind_eq ht]
  cases hkind : t.kind with
  | number value => exact .some (behind_pure (exprs_literal _))
  | string contents => exact .some (behind_pure (exprs_literal _))
  | identifier =>
      apply Option.Rel.some
      intro k hk
      apply parallel_freshId.bind
      rintro id _ j - ⟨rfl, hleast, rfl⟩
      exact parallel_pure _ _
        ⟨by omega, fun marks =>
              .variable (w.of_name ht (by simp [Token.isIdentifier, hkind]) hleast)⟩
  | keyword keyword => exact behind_keywordExpression hr ht hkind
  | symbol symbol =>
      cases symbol with
      | leftParen => exact .some (behind_of_fewer fun k hk => parallel_groupRest hr hk)
      | _ => exact .none
  | eof => exact .none

theorem parallel_primary (hr : r.Parallel w n r') :
    Parallel w n (primary r) (primary r') (Fewer n w.Exprs) := by
  apply parallel_dispatch
  · intro t heof
    simp only [primaryFrom, heof]
  · intro t t' ht
    exact behind_primaryFrom hr ht
  · exact parallel_orphanOperators hr

/-! ### Calls and properties -/

theorem parallel_argumentsFrom (hr : r.Parallel w n r') {bound bound' k : Nat} (count : Nat)
    (hk : k < n) (hbound : k ≤ bound) (hbound' : k ≤ bound') :
    Parallel w k (argumentsFrom r bound count) (argumentsFrom r' bound' count) fun es es' _ =>
      w.ExprLists es es' := by
  induction bound generalizing k bound' count with
  | zero =>
      cases bound' with
      | zero =>
          apply (parallel_checkCount _ _).bind
          rintro _ _ j - rfl
          apply (hr.assignment j hk).bind
          intro e e' i _ ⟨_, he⟩
          exact parallel_pure _ _ fun marks => .cons (he marks) .nil
      | succ bound' =>
          apply (parallel_checkCount _ _).bind
          rintro _ _ j - rfl
          apply (hr.assignment j hk).bind
          intro _ _ i _ ⟨hi, _⟩
          omega
  | succ bound ih =>
      cases bound' with
      | zero =>
          apply (parallel_checkCount _ _).bind
          rintro _ _ j - rfl
          apply (hr.assignment j hk).bind
          intro _ _ i _ ⟨hi, _⟩
          omega
      | succ bound' =>
          apply (parallel_checkCount _ _).bind
          rintro _ _ j - rfl
          apply (hr.assignment j hk).bind
          intro e e' i _ ⟨hi, he⟩
          apply (parallel_acceptSymbol _).bind
          rintro more more' l - (⟨rfl, rfl, rfl⟩ | ⟨rfl, rfl, hl⟩)
          · exact parallel_pure _ _ fun marks => .cons (he marks) .nil
          · apply (ih (count + 1) (k := l) (by omega) (by omega) (by omega)).bind
            intro es es' m _ hes
            exact parallel_pure _ _ fun marks => .cons (he marks) (hes marks)

theorem parallel_arguments (hr : r.Parallel w n r') {k : Nat} (hk : k < n) :
    Parallel w k (arguments r) (arguments r') fun es es' _ => w.ExprLists es es' := by
  apply (parallel_checkSymbol _).bind
  rintro _ closing j - ⟨rfl, -, rfl⟩
  cases closing with
  | true => exact parallel_pure _ _ fun _ => .nil
  | false =>
      apply parallel_remaining.bind
      rintro bound bound' i - ⟨rfl, rfl, rfl⟩
      exact parallel_argumentsFrom hr 0 hk (Nat.le_refl _) (Nat.le_refl _)

theorem parallel_callRest (hr : r.Parallel w n r') {k : Nat} (hk : k < n) {callee callee' : Expr}
    (hcallee : w.Exprs callee callee') :
    Parallel w k (callRest r callee) (callRest r' callee') (Fewer k w.Exprs) := by
  apply (parallel_arguments hr hk).bind
  intro es es' j _ hes
  apply (parallel_expectSymbol _ _).bind
  intro paren paren' i _ ⟨hparen, hi⟩
  exact parallel_pure _ _
    ⟨by omega, fun marks => .call (hcallee marks) (w.of_token hparen) (hes marks)⟩

theorem accessesFrom_atEnd (r : Rules) (bound : Nat) (expr : Expr) :
    StopsAtEnd (accessesFrom r bound expr) expr := by
  intro s h
  cases bound with
  | zero => rfl
  | succ bound =>
      unfold accessesFrom
      simp only [Bind.bind, EStateM.bind, acceptSymbol_atEnd _ s h, Bool.false_eq_true, if_false]
      rfl

theorem parallel_accessesFrom (hr : r.Parallel w n r') {bound bound' k : Nat} (hk : k ≤ n)
    (hbound : k ≤ bound) (hbound' : k ≤ bound') {expr expr' : Expr} (hexpr : w.Exprs expr expr') :
    Parallel w k (accessesFrom r bound expr) (accessesFrom r' bound' expr')
      fun e e' _ => w.Exprs e e' := by
  induction bound generalizing bound' k expr expr' with
  | zero =>
      obtain rfl : k = 0 := Nat.le_zero.1 hbound
      exact parallel_atStop (accessesFrom_atEnd _ _ _) (accessesFrom_atEnd _ _ _) hexpr
  | succ bound ih =>
      cases bound' with
      | zero =>
          obtain rfl : k = 0 := Nat.le_zero.1 hbound'
          exact parallel_atStop (accessesFrom_atEnd _ _ _) (accessesFrom_atEnd _ _ _) hexpr
      | succ bound' =>
          apply (parallel_acceptSymbol _).bind
          rintro isCall isCall' j - (⟨rfl, rfl, rfl⟩ | ⟨rfl, rfl, hj⟩)
          · apply (parallel_acceptSymbol _).bind
            rintro isGet isGet' i - (⟨rfl, rfl, rfl⟩ | ⟨rfl, rfl, hi⟩)
            · exact parallel_pure _ _ hexpr
            · apply (parallel_expectName _).bind
              intro name name' l _ ⟨hname, _, hl⟩
              exact ih (by omega) (by omega) (by omega) fun marks =>
                .get (hexpr marks) (w.of_token hname)
          · apply (parallel_callRest hr (by omega) hexpr).bind
            intro e e' i _ ⟨hi, he⟩
            exact ih (by omega) (by omega) (by omega) he

theorem parallel_call (hr : r.Parallel w n r') :
    Parallel w n (call r) (call r') (Fewer n w.Exprs) := by
  apply (parallel_primary hr).bind
  intro expr expr' k _ ⟨hk, hexpr⟩
  apply parallel_remaining.bind
  rintro bound bound' j - ⟨rfl, rfl, rfl⟩
  apply (parallel_accessesFrom hr (by omega) (Nat.le_refl _) (Nat.le_refl _) hexpr).mono
  intro e e' i hi he
  exact ⟨by omega, he⟩

end Expressions

end TraitScript.Parse
