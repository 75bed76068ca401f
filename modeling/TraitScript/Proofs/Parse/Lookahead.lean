import TraitScript.Proofs.Parse.Derivable

/-!
# Looking ahead

Each rule looks at most one token ahead, two for `fun`. What an expression cannot go on with depends
on its rank alone. A reader takes given tokens if it takes exactly these, records no error and
returns the expected result wherever the token after them is as demanded.
-/

namespace TraitScript.Grammar

/-! ### What can follow an expression -/

def Rank.order : Rank → Nat
  | primary => 0
  | call => 1
  | unary => 2
  | factor => 3
  | term => 4
  | comparison => 5
  | equality => 6
  | logicalAnd => 7
  | logicalOr => 8
  | conditional => 9
  | assignment => 10
  | comma => 11

/-- The place in the order of ranks of the rule that goes on with a token after an operand, and 12
if none does. -/
def continues : Token.Kind → Nat
  | .symbol .leftParen | .symbol .dot => 1
  | .symbol .slash | .symbol .star => 3
  | .symbol .minus | .symbol .plus => 4
  | .symbol .greater | .symbol .greaterEqual | .symbol .less | .symbol .lessEqual => 5
  | .symbol .bangEqual | .symbol .equalEqual => 6
  | .keyword .andWord => 7
  | .keyword .orWord => 8
  | .symbol .question => 9
  | .symbol .equal => 10
  | .symbol .comma => 11
  | _ => 12

theorem continues_operator {level : Level} {kind : Token.Kind} (h : level.isOperator kind = true) :
    continues kind = level.rank.order := by
  unfold Level.isOperator at h
  split at h
  all_goals first | rfl | cases h

theorem order_operand (level : Level) : level.operand.order < level.rank.order := by
  cases level <;> decide

/-- No expression of the given or a tighter rank goes on with the next token. -/
def Follows (rank : Rank) : Option Token → Prop :=
  fun next => ∀ token, next = some token → rank.order < continues token.kind

theorem Follows.mono {rank rank' : Rank} {next : Option Token} (h : Follows rank next)
    (hle : rank'.order ≤ rank.order) : Follows rank' next :=
  fun token htoken => Nat.lt_of_le_of_lt hle (h token htoken)

theorem Follows.or {rank : Rank} {next next' : Option Token} (h : Follows rank next)
    (h' : Follows rank next') :
    Follows rank (next.or next') := by
  cases next with
  | none => exact h'
  | some token => exact h

theorem follows_primary (next : Option Token) : Follows .primary next := by
  intro token _
  show 0 < continues token.kind
  unfold continues
  split <;> decide

theorem follows_symbol {rank : Rank} {token : Token} {symbol : Symbol}
    (htoken : token.isSymbol symbol = true) (h : rank.order < continues (.symbol symbol)) :
    Follows rank (some token) := by
  intro next hnext
  cases hnext
  rw [Token.isSymbol_iff.1 htoken]
  exact h

theorem follows_operand {level : Level} {left : Expr} {us : List Token} {next : Option Token}
    (hfirst : Heads (.operators level left) us) (hnext : Follows level.rank next) :
    Follows level.operand (us.head?.or next) := by
  have hlt := order_operand level
  refine Follows.or (fun token htoken => ?_) (hnext.mono (Nat.le_of_lt hlt))
  rw [continues_operator (hfirst token htoken)]
  exact hlt

end TraitScript.Grammar

namespace TraitScript.Parse

open Grammar

/-! ### Reading exactly given tokens -/

/-- From every state in which given tokens come first and the one after them is as demanded, reading
takes these tokens and records no error. If `l` is set a loop is open. -/
def Takes {α : Type} (x : Parser α) (l : Bool) (ts : List Token) (E : Option Token → Prop)
    (Q : α → Prop) : Prop :=
  ∀ (s : State) (rest : List Token), s.rest = ts ++ rest → E rest.head? → s.loopDepths ≠ [] →
    (l = true → s.inLoop = true) →
    ∃ a s', x s = .ok a s' ∧ s'.rest = rest ∧ s'.errors = s.errors ∧
      s'.loopDepths = s.loopDepths ∧ Q a

/-- Any token may come next. -/
def Anything : Option Token → Prop := fun _ => True

/-- The next token, if there is one, fails a test. -/
def Lacks (test : Token → Bool) : Option Token → Prop :=
  fun next => ∀ token, next = some token → test token = false

/-- The next token passes a test. -/
def Faces (test : Token → Bool) : Option Token → Prop :=
  fun next => ∃ token, next = some token ∧ test token = true

section Rules

variable {α β : Type} {x : Parser α} {f : α → Parser β} {l : Bool} {ts us : List Token}
  {E E' : Option Token → Prop} {Q Q' : α → Prop}
  {R : β → Prop}

theorem Takes.mono (h : Takes x l ts E Q) (hE : ∀ next, E' next → E next) (hQ : ∀ a, Q a → Q' a) :
    Takes x l ts E' Q' := by
  intro s rest hrest hnext hloops hl
  obtain ⟨a, s', hx, hs', herrors, hloops', ha⟩ := h s rest hrest (hE _ hnext) hloops hl
  exact ⟨a, s', hx, hs', herrors, hloops', hQ a ha⟩

theorem takes_pure {a : α} (h : Q a) : Takes (pure a) l [] E Q :=
  fun s _ hrest _ _ _ => ⟨a, s, rfl, hrest, rfl, rfl, h⟩

theorem Takes.bind (hx : Takes x l ts E Q) (hf : ∀ a, Q a → Takes (f a) l us E' R)
    (hends : ∀ next, E' next → E (us.head?.or next)) :
    Takes (x >>= f) l (ts ++ us) E' R := by
  intro s rest hrest hnext hloops hl
  rw [List.append_assoc] at hrest
  obtain ⟨a, s₁, hx, hs₁, herrors₁, hloops₁, ha⟩ :=
    hx s (us ++ rest) hrest (by rw [List.head?_append]; exact hends _ hnext) hloops hl
  have hl₁ : l = true → s₁.inLoop = true := by
    rw [State.inLoop, hloops₁]
    exact hl
  obtain ⟨b, s₂, hf, hs₂, herrors₂, hloops₂, hb⟩ := hf a ha s₁ rest hs₁ hnext (hloops₁ ▸ hloops) hl₁
  refine ⟨b, s₂, ?_, hs₂, herrors₂.trans herrors₁, hloops₂.trans hloops₁, hb⟩
  simp only [Bind.bind, EStateM.bind, hx]
  exact hf

/-- First one token, whatever comes after it. -/
theorem Takes.token {token : Token} {a : α} (hx : Takes x l [token] Anything (· = a))
    (hf : Takes (f a) l us E' R) :
    Takes (x >>= f) l (token :: us) E' R := hx.bind (fun _ ha => ha ▸ hf) fun _ _ => trivial

/-- First a look at what comes next. -/
theorem Takes.look {a : α} (hx : Takes x l [] E (· = a)) (hf : Takes (f a) l us E' R)
    (hends : ∀ next, E' next → E (us.head?.or next)) :
    Takes (x >>= f) l us E' R := hx.bind (fun _ ha => ha ▸ hf) hends

/-- First something that takes nothing and looks at nothing. -/
theorem Takes.idle (hx : Takes x l [] Anything Q) (hf : ∀ a, Q a → Takes (f a) l us E' R) :
    Takes (x >>= f) l us E' R :=
  hx.bind hf fun _ _ => trivial

/-- Nothing is taken after the first part. -/
theorem Takes.last (hx : Takes x l ts E Q) (hf : ∀ a, Q a → Takes (f a) l [] E' R)
    (hends : ∀ next, E' next → E next) :
    Takes (x >>= f) l ts E' R := by
  have hboth := hx.bind hf hends
  rw [List.append_nil] at hboth
  exact hboth

end Rules

/-! ### Tokens -/

section Tokens

variable {α : Type} {l : Bool} {test : Token → Bool} {token : Token} {us : List Token}
  {E : Option Token → Prop}

theorem takes_expect (cause : ParseError.Cause) (h : test token = true) :
    Takes (expect test cause) l [token] Anything (· = token) := by
  intro s rest hrest _ _ _
  refine ⟨token, { s with rest }, ?_, rfl, rfl, rfl, rfl⟩
  simp [expect, hrest, h]

theorem takes_accept (h : test token = true) :
    Takes (accept test) l [token] Anything (· = some token) := by
  intro s rest hrest _ _ _
  refine ⟨some token, { s with rest }, ?_, rfl, rfl, rfl, rfl⟩
  simp [accept, hrest, h]

theorem takes_accept_none : Takes (accept test) l [] (Lacks test) (· = none) := by
  intro s rest hrest hnext _ _
  refine ⟨none, s, ?_, hrest, rfl, rfl, rfl⟩
  rw [List.nil_append] at hrest
  cases rest with
  | nil => simp [accept, hrest]
  | cons token rest => simp [accept, hrest, hnext token rfl]

theorem takes_isSome_accept (h : test token = true) :
    Takes (do return (← accept test).isSome) l [token] Anything (· = true) :=
  (takes_accept h).last (fun _ ha => takes_pure (by rw [ha]; rfl)) fun _ _ => trivial

theorem takes_isSome_accept_none :
    Takes (do return (← accept test).isSome) l [] (Lacks test) (· = false) :=
  takes_accept_none.last (fun _ ha => takes_pure (by rw [ha]; rfl)) fun _ h => h

theorem takes_acceptSymbol {symbol : Symbol} (h : token.isSymbol symbol = true) :
    Takes (acceptSymbol symbol) l [token] Anything (· = true) :=
  takes_isSome_accept h

theorem takes_acceptSymbol_not (symbol : Symbol) :
    Takes (acceptSymbol symbol) l [] (Lacks (·.isSymbol symbol)) (· = false) :=
  takes_isSome_accept_none

theorem takes_acceptKeyword {keyword : Keyword} (h : token.isKeyword keyword = true) :
    Takes (acceptKeyword keyword) l [token] Anything (· = true) := takes_isSome_accept h

theorem takes_acceptKeyword_not (keyword : Keyword) :
    Takes (acceptKeyword keyword) l [] (Lacks (·.isKeyword keyword)) (· = false) :=
  takes_isSome_accept_none

theorem takes_expectSymbol {symbol : Symbol} (position : Position)
    (h : token.isSymbol symbol = true) :
    Takes (expectSymbol symbol position) l [token] Anything (· = token) := takes_expect _ h

theorem takes_expectName (role : NameRole) (h : token.isIdentifier = true) :
    Takes (expectName role) l [token] Anything (· = token) :=
  takes_expect _ h

theorem takes_check : Takes (check test) l [] (Faces test) (· = true) := by
  intro s rest hrest hnext _ _
  obtain ⟨token, htoken, htest⟩ := hnext
  refine ⟨true, s, ?_, hrest, rfl, rfl, rfl⟩
  cases rest with
  | nil => cases htoken
  | cons first rest =>
      cases htoken
      simp [check, State.check, hrest, htest]

theorem takes_check_not : Takes (check test) l [] (Lacks test) (· = false) := by
  intro s rest hrest hnext _ _
  refine ⟨false, s, ?_, hrest, rfl, rfl, rfl⟩
  cases rest with
  | nil => simp [check, State.check, hrest]
  | cons first rest => simp [check, State.check, hrest, hnext first rfl]

theorem takes_atEnd_not : Takes atEnd l [] (Faces fun _ => true) (· = false) := by
  intro s rest hrest hnext _ _
  obtain ⟨token, htoken, -⟩ := hnext
  refine ⟨false, s, ?_, hrest, rfl, rfl, rfl⟩
  cases rest with
  | nil => cases htoken
  | cons first rest => simp [atEnd, hrest]

theorem takes_atEnd : Takes atEnd l [] (· = none) (· = true) := by
  intro s rest hrest hnext _ _
  refine ⟨true, s, ?_, hrest, rfl, rfl, rfl⟩
  rw [List.head?_eq_none_iff] at hnext
  simp [atEnd, hrest, hnext]

theorem takes_freshId : Takes freshId l [] Anything fun _ => True :=
  fun s _ hrest _ _ _ =>
    ⟨s.nextId, { s with nextId := s.nextId + 1 }, rfl, hrest, rfl, rfl, trivial⟩

theorem takes_insideLoop : Takes insideLoop true [] Anything (· = true) :=
  fun s _ hrest _ _ hl => ⟨_, s, rfl, hrest, rfl, rfl, hl rfl⟩

theorem takes_checkCount {count : Nat} (cause : ParseError.Cause) (h : count < 255) :
    Takes (checkCount count cause) l [] Anything fun _ => True := by
  have hcount : ¬ maxArguments ≤ count := Nat.not_le_of_lt h
  unfold checkCount
  rw [if_neg hcount]
  exact takes_pure trivial

/-- As many rounds are allowed as there are tokens to take. -/
theorem takes_remaining {f : Nat → Parser α} {Q : α → Prop}
    (h : ∀ bound, us.length ≤ bound → Takes (f bound) l us E Q) :
    Takes (remaining >>= f) l us E Q := by
  intro s rest hrest hnext hloops hl
  exact h s.rest.length (by rw [hrest, List.length_append]; omega) s rest hrest hnext hloops hl

theorem takes_startsFunction {f : Bool → Parser α} {Q : α → Prop} {starts : Bool}
    (hstarts : ∀ (s : State) (rest : List Token), s.rest = us ++ rest → s.startsFunction = starts)
    (h : Takes (f starts) l us E Q) :
    Takes (startsFunction >>= f) l us E Q := by
  intro s rest hrest hnext hloops hl
  have hboth : (startsFunction >>= f) s = f starts s := by
    show f s.startsFunction s = _
    rw [hstarts s rest hrest]
  rw [hboth]
  exact h s rest hrest hnext hloops hl

theorem takes_dispatch {choose : Token → Option (Parser α)} {x other : Parser α} {Q : α → Prop}
    (hchoose : choose token = some x) (hx : Takes x l us E Q) :
    Takes (dispatch choose other) l (token :: us) E Q := by
  intro s rest hrest hnext hloops hl
  obtain ⟨a, s', hx, hs', herrors, hloops', ha⟩ :=
    hx { s with rest := us ++ rest } rest rfl hnext hloops hl
  refine ⟨a, s', ?_, hs', herrors, hloops', ha⟩
  have hfirst : s.next = token := by rw [State.next, hrest]; rfl
  simp only [dispatch, Bind.bind, EStateM.bind, next, hfirst, hchoose, accept, hrest,
    List.cons_append, if_true]
  exact hx

theorem takes_dispatch_none {choose : Token → Option (Parser α)} {other : Parser α} {Q : α → Prop}
    (hchoose : choose token = none) (hother : Takes other l (token :: us) E Q) :
    Takes (dispatch choose other) l (token :: us) E Q := by
  intro s rest hrest hnext hloops hl
  have hfirst : s.next = token := by rw [State.next, hrest]; rfl
  have hboth : dispatch choose other s = other s := by
    simp only [dispatch, Bind.bind, EStateM.bind, next, hfirst, hchoose]
  rw [hboth]
  exact hother s rest hrest hnext hloops hl

end Tokens

/-! ### Loops, function bodies and recovery -/

section Nesting

variable {α : Type} {x : Parser α} {l : Bool} {ts : List Token} {E : Option Token → Prop}
  {Q : α → Prop}

theorem takes_inLoop (h : Takes x true ts E Q) : Takes (inLoop x) l ts E Q := by
  intro s rest hrest hnext hloops _
  obtain ⟨depth, outer, houter⟩ : ∃ depth outer, s.loopDepths = depth :: outer :=
    List.exists_cons_of_ne_nil hloops
  obtain ⟨a, s', hx, hs', herrors, hloops', ha⟩ :=
    h { s with loopDepths := (depth + 1) :: outer } rest hrest hnext (by simp)
      (by simp [State.inLoop])
  refine ⟨a, { s' with loopDepths := depth :: outer }, ?_, hs', herrors, houter.symm, ha⟩
  have hinside : s.mapLoops (· + 1) = { s with loopDepths := (depth + 1) :: outer } := by
    rw [State.mapLoops, houter]
  have hback : s'.mapLoops (· - 1) = { s' with loopDepths := depth :: outer } := by
    rw [State.mapLoops, hloops']
    simp
  simp only [inLoop, thenAlways, hinside, hx, hback]

theorem takes_inFunction (h : Takes x false ts E Q) : Takes (inFunction x) l ts E Q := by
  intro s rest hrest hnext hloops _
  obtain ⟨a, s', hx, hs', herrors, hloops', ha⟩ :=
    h { s with loopDepths := 0 :: s.loopDepths } rest hrest hnext (by simp) (by simp)
  refine ⟨a, { s' with loopDepths := s'.loopDepths.drop 1 }, ?_, hs', herrors,
    by simp [hloops'], ha⟩
  simp only [inFunction, thenAlways, hx]

theorem takes_recovering (h : Takes x l ts E Q) :
    Takes (recovering x) l ts E fun found => ∃ a, found = some a ∧ Q a := by
  intro s rest hrest hnext hloops hl
  obtain ⟨a, s', hx, hs', herrors, hloops', ha⟩ := h s rest hrest hnext hloops hl
  refine ⟨some a, s', ?_, hs', herrors, hloops', a, rfl, ha⟩
  simp only [recovering, hx]

end Nesting

/-! ### Next tokens -/

theorem lacks_none {test : Token → Bool} : Lacks test none := by
  intro token htoken
  cases htoken

theorem lacks_some {test : Token → Bool} {token : Token} (h : test token = false) :
    Lacks test (some token) := by
  intro next hnext
  cases hnext
  exact h

theorem lacks_symbol {rank : Rank} {symbol : Symbol} {next : Option Token} (h : Follows rank next)
    (hsymbol : continues (.symbol symbol) ≤ rank.order) : Lacks (·.isSymbol symbol) next := by
  intro token htoken
  rw [← Bool.not_eq_true, Token.isSymbol_iff]
  intro hkind
  have hlt := h token htoken
  rw [hkind] at hlt
  omega

theorem follows_of_faces {rank : Rank} {symbol : Symbol} {next : Option Token}
    (h : Faces (·.isSymbol symbol) next) (hlt : rank.order < continues (.symbol symbol)) :
    Follows rank next := by
  obtain ⟨token, rfl, htoken⟩ := h
  exact follows_symbol htoken hlt

theorem lacks_of_opens {test : Token.Kind → Bool} {test' : Token → Bool} {ts : List Token}
    (h : Opens test ts) (hno : ∀ token, test' token = true → test token.kind = false)
    (next : Option Token) : Lacks test' (ts.head?.or next) := by
  cases ts with
  | nil => exact h.elim
  | cons first rest =>
      apply lacks_some
      rw [← Bool.not_eq_true]
      intro hfirst
      have htest := h.1
      rw [hno first hfirst] at htest
      cases htest

theorem lacks_symbol_of_opens {test : Token.Kind → Bool} {symbol : Symbol} {ts : List Token}
    (h : Opens test ts) (hno : test (.symbol symbol) = false) (next : Option Token) :
    Lacks (·.isSymbol symbol) (ts.head?.or next) :=
  lacks_of_opens h (fun token htoken => by rw [Token.isSymbol_iff.1 htoken, hno]) next

theorem lacks_keyword_of_opens {test : Token.Kind → Bool} {keyword : Keyword} {ts : List Token}
    (h : Opens test ts) (hno : test (.keyword keyword) = false) (next : Option Token) :
    Lacks (·.isKeyword keyword) (ts.head?.or next) :=
  lacks_of_opens h (fun token htoken => by rw [Token.isKeyword_iff.1 htoken, hno]) next

end TraitScript.Parse
