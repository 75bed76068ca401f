import Mathlib.Data.List.Nodup
import Mathlib.Data.List.Perm.Basic
import TraitScript.Parse.Program
import TraitScript.Proofs.Scope.Member

/-!
# Occurrences in trees that were read

Whatever the tokens are, and also when the reader reports errors and goes on, the trees it returns
number their occurrences afresh: the ids of a tree are pairwise different and lie between the
counter before and the counter after. Every use meets what the grammar asks of it: a class refers to
its superclass and its traits by name, and a jump stands inside a loop of the same function body. If
the tokens are as scanning makes them, names are no reserved words, and `this` and `super` are
spelled as such.

The count of open loops is what the reader knows of loops. A rule leaves it as it was, also when it
gives up, so it fits the place at which the tree will stand.
-/

namespace TraitScript

/-- The spelling of a token fits its kind. -/
def Token.Genuine (token : Token) : Prop :=
  (token.kind = .identifier → Keyword.ofText? token.lexeme = none) ∧
    ∀ keyword, token.kind = .keyword keyword → token.lexeme = keyword.text

theorem Token.Genuine.ordinary {token : Token} (h : token.Genuine)
    (hname : token.isIdentifier = true) : Ordinary token.lexeme := by
  have hkind : token.kind = .identifier := by
    unfold Token.isIdentifier at hname
    split at hname
    · assumption
    · cases hname
  have hnone := h.1 hkind
  constructor
  · intro hthis
    rw [hthis] at hnone
    exact absurd hnone (by decide)
  · intro hsuper
    rw [hsuper] at hnone
    exact absurd hnone (by decide)

/-- A condition on tokens, and one on uses at their places that the grammar guarantees for such
tokens. -/
structure Demand where
  token : Token → Prop
  use : Place → Use → Prop
  read : ∀ {p : Place} {id : Nat} {name : Token}, token name → name.isIdentifier = true →
      use p (.read id name)
  write : ∀ {p : Place} {id : Nat} {name : Token}, use p (.read id name) → use p (.write id name)
  this : ∀ {p : Place} {id : Nat} {keyword : Token}, token keyword →
      keyword.kind = .keyword .thisWord → use p (.this id keyword)
  super : ∀ {p : Place} {id : Nat} {keyword : Token}, token keyword →
      keyword.kind = .keyword .superWord → use p (.super id keyword)
  declare : ∀ {p : Place} {name : Token}, token name → name.isIdentifier = true →
      use p (.declare name)
  reference : ∀ {p : Place} {id : Nat} {name : Token}, use p (.reference (.variable id name))
  jump : ∀ {p : Place} {keyword : Token} {kind : Jump}, p.inLoop = true → use p (.jump keyword kind)
  returnValue : ∀ {p : Place} {keyword : Token} {hasValue : Bool},
      use p (.returnValue keyword hasValue)

namespace Demand

/-- What holds of trees that were read from text. -/
def genuine : Demand where
  token := Token.Genuine
  use _ use := use.Genuine
  read h hname := h.ordinary hname
  write h := h
  this h hkind := h.2 _ hkind
  super h hkind := h.2 _ hkind
  declare h hname := h.ordinary hname
  reference := ⟨_, _, rfl⟩
  jump _ := trivial
  returnValue := trivial

/-- Whatever the tokens are, jumps stand inside loops. -/
def jumpsInLoops : Demand where
  token _ := True
  use p use := ∀ keyword kind, use = .jump keyword kind → p.inLoop = true
  read := by simp
  write := by simp
  this := by simp
  super := by simp
  declare := by simp
  reference := by simp
  jump h _ _ _ := h
  returnValue := by simp

/-- A token that can name something. -/
def Name (d : Demand) (name : Token) : Prop := d.token name ∧ name.isIdentifier = true

end Demand

/-- A place inside a loop, if one is open in the innermost function body. -/
def Place.Within (p : Place) (loops : List Nat) : Prop := loops.headD 0 ≠ 0 → p.inLoop = true

theorem Place.within_enterLoop (p : Place) (loops : List Nat) : p.enterLoop.Within loops :=
  fun _ => rfl

theorem Place.within_closed (p : Place) (outer : List Nat) : p.Within (0 :: outer) :=
  fun h => absurd rfl h

theorem Place.Within.grows {p q : Place} {loops : List Nat} (h : p.Within loops)
    (hgrows : p.Grows q) : q.Within loops :=
  fun hopen => hgrows.inLoop.trans (h hopen)

def Uses.ids (us : Uses) : List Nat := us.filterMap (·.2.id?)

@[simp] theorem Uses.ids_nil : Uses.ids [] = [] := rfl

@[simp] theorem Uses.ids_append (us vs : Uses) : Uses.ids (us ++ vs) = Uses.ids us ++ Uses.ids vs :=
  List.filterMap_append

/-- The occurrences are numbered afresh, from one counter up to another, and all uses meet a
demand. -/
structure Uses.Written (d : Demand) (lo hi : Nat) (us : Uses) : Prop where
  nodup : (Uses.ids us).Nodup
  range : ∀ id ∈ Uses.ids us, lo ≤ id ∧ id < hi
  meets : ∀ u ∈ us, d.use u.1 u.2

variable {d : Demand}

namespace Uses.Written

variable {lo lo' mid hi hi' : Nat} {us vs : Uses}

theorem nil : Uses.Written d lo hi [] := ⟨List.nodup_nil, by simp, by simp⟩

theorem mono (h : Uses.Written d lo hi us) (hlo : lo' ≤ lo) (hhi : hi ≤ hi') :
    Uses.Written d lo' hi' us :=
  ⟨h.nodup, fun id hid =>
    ⟨Nat.le_trans hlo (h.range id hid).1, Nat.lt_of_lt_of_le (h.range id hid).2 hhi⟩, h.meets⟩

theorem perm (h : Uses.Written d lo hi us) (hperm : us.Perm vs) : Uses.Written d lo hi vs :=
  ⟨(hperm.filterMap _).nodup_iff.1 h.nodup, fun id hid =>
    h.range id ((hperm.filterMap _).mem_iff.2 hid),
    fun u hu => h.meets u (hperm.mem_iff.2 hu)⟩

/-- Parts that are read one after the other do not share ids. -/
theorem append (h : Uses.Written d lo mid us) (h' : Uses.Written d mid hi vs) (hlo : lo ≤ mid)
    (hhi : mid ≤ hi) :
    Uses.Written d lo hi (us ++ vs) := by
  refine ⟨?_, fun id hid => ?_, fun u hu => (List.mem_append.1 hu).elim (h.meets u) (h'.meets u)⟩
  · rw [Uses.ids_append, List.nodup_append]
    refine ⟨h.nodup, h'.nodup, fun a ha b hb hab => ?_⟩
    have hlt := (h.range a ha).2
    have hle := (h'.range b hb).1
    omega
  · rw [Uses.ids_append, List.mem_append] at hid
    rcases hid with hid | hid
    · have hrange := h.range id hid
      exact ⟨hrange.1, by omega⟩
    · have hrange := h'.range id hid
      exact ⟨by omega, hrange.2⟩

theorem swap (h : Uses.Written d lo hi (us ++ vs)) : Uses.Written d lo hi (vs ++ us) :=
  h.perm List.perm_append_comm

theorem cons_silent (h : Uses.Written d lo hi us) {p : Place} {use : Use} (hid : use.id? = none)
    (hmeets : d.use p use) :
    Uses.Written d lo hi ((p, use) :: us) := by
  have hids : Uses.ids ((p, use) :: us) = Uses.ids us := List.filterMap_cons_none hid
  refine ⟨hids ▸ h.nodup, hids ▸ h.range, fun u hu => ?_⟩
  rcases List.mem_cons.1 hu with rfl | hold
  · exact hmeets
  · exact h.meets u hold

/-- One occurrence with an id of its own. -/
theorem single {p : Place} {use : Use} {id : Nat} (hid : use.id? = some id) (hlo : lo ≤ id)
    (hhi : id < hi) (hmeets : d.use p use) :
    Uses.Written d lo hi [(p, use)] := by
  have hids : Uses.ids [(p, use)] = [id] := List.filterMap_cons_some hid
  refine ⟨hids ▸ List.nodup_singleton id, fun other hother => ?_, fun u hu => ?_⟩
  · rw [hids, List.mem_singleton] at hother
    subst hother
    exact ⟨hlo, hhi⟩
  · rw [List.mem_singleton.1 hu]
    exact hmeets

end Uses.Written

def Expr.Written (d : Demand) (lo hi : Nat) (expr : Expr) : Prop :=
  ∀ p, Uses.Written d lo hi (expr.uses p)

def FunctionDecl.Written (d : Demand) (lo hi : Nat) (decl : FunctionDecl) : Prop :=
  ∀ kind p, Uses.Written d lo hi (decl.uses kind p)

/-- Statements stand at places that fit the loops that were open when they were read. -/
def Stmt.Written (d : Demand) (loops : List Nat) (lo hi : Nat) (stmt : Stmt) : Prop :=
  ∀ p : Place, p.Within loops → Uses.Written d lo hi (stmt.uses p)

def Stmt.WrittenAll (d : Demand) (loops : List Nat) (lo hi : Nat) (statements : List Stmt) : Prop :=
  ∀ p : Place, p.Within loops → Uses.Written d lo hi (Stmt.usesAll statements p)

/-- The members of a body stand at other places than the names of its traits. -/
def ClassBody.Written (d : Demand) (lo hi : Nat) (body : ClassBody) : Prop :=
  ∀ p q, Uses.Written d lo hi (body.traitUses p ++ body.memberUses q)

theorem Expr.Written.mono {lo lo' hi hi' : Nat} {expr : Expr} (h : expr.Written d lo hi)
    (hlo : lo' ≤ lo) (hhi : hi ≤ hi') :
    expr.Written d lo' hi' := fun p => (h p).mono hlo hhi

theorem Stmt.Written.mono {loops : List Nat} {lo lo' hi hi' : Nat} {stmt : Stmt}
    (h : stmt.Written d loops lo hi) (hlo : lo' ≤ lo) (hhi : hi ≤ hi') :
    stmt.Written d loops lo' hi' := fun p hp => (h p hp).mono hlo hhi

theorem Stmt.WrittenAll.mono {loops : List Nat} {lo lo' hi hi' : Nat} {statements : List Stmt}
    (h : Stmt.WrittenAll d loops lo hi statements) (hlo : lo' ≤ lo) (hhi : hi ≤ hi') :
    Stmt.WrittenAll d loops lo' hi' statements :=
  fun p hp => (h p hp).mono hlo hhi

theorem ClassBody.Written.mono {lo lo' hi hi' : Nat} {body : ClassBody} (h : body.Written d lo hi)
    (hlo : lo' ≤ lo) (hhi : hi ≤ hi') :
    body.Written d lo' hi' := fun p q => (h p q).mono hlo hhi

theorem FunctionDecl.Written.mono {lo lo' hi hi' : Nat} {decl : FunctionDecl}
    (h : decl.Written d lo hi) (hlo : lo' ≤ lo) (hhi : hi ≤ hi') :
    decl.Written d lo' hi' := fun kind p => (h kind p).mono hlo hhi

namespace Parse

variable {α β : Type} {s : State} {loops : List Nat}

/-- The tokens of a state are as scanning makes them. -/
def State.Genuine (s : State) : Prop := (∀ token ∈ s.rest, token.Genuine) ∧ s.last.Genuine

/-- The tokens of a state meet a demand, and these loops are open. -/
structure State.Meets (d : Demand) (loops : List Nat) (s : State) : Prop where
  rest : ∀ token ∈ s.rest, d.token token
  last : d.token s.last
  loops : s.loopDepths = loops

/-- Reading keeps the demand on the tokens and the open loops, counts on, and if it succeeds what it
returns satisfies a condition. -/
def Reads (d : Demand) (loops : List Nat) (x : Parser α) (Q : α → State → Prop) (s : State) :
    Prop :=
  s.Meets d loops → match x s with
    | .ok a s' => s'.Meets d loops ∧ s.nextId ≤ s'.nextId ∧ Q a s'
    | .error _ s' => s'.Meets d loops ∧ s.nextId ≤ s'.nextId

theorem Reads.mono {x : Parser α} {Q Q' : α → State → Prop} (h : Reads d loops x Q s)
    (himp : ∀ a s', s.nextId ≤ s'.nextId → Q a s' → Q' a s') : Reads d loops x Q' s := by
  intro hs
  have hx := h hs
  split at hx
  · exact ⟨hx.1, hx.2.1, himp _ _ hx.2.1 hx.2.2⟩
  · exact hx

theorem reads_pure {Q : α → State → Prop} (a : α) (h : Q a s) : Reads d loops (pure a) Q s :=
  fun hs => ⟨hs, Nat.le_refl _, h⟩

theorem reads_fail {Q : α → State → Prop} (cause : ParseError.Cause) :
    Reads d loops (fail cause) Q s := fun hs => ⟨hs, Nat.le_refl _⟩

theorem reads_throw {Q : α → State → Prop} (error : ParseError) : Reads d loops (throw error) Q s :=
  fun hs => ⟨hs, Nat.le_refl _⟩

theorem Reads.bind {x : Parser α} {f : α → Parser β} {Q : α → State → Prop} {Q' : β → State → Prop}
    (hx : Reads d loops x Q s)
    (hf : ∀ a s', s.nextId ≤ s'.nextId → Q a s' → Reads d loops (f a) Q' s') :
    Reads d loops (x >>= f) Q' s := by
  intro hs
  have hfirst := hx hs
  simp only [Bind.bind, EStateM.bind]
  cases hresult : x s with
  | ok a s' =>
      rw [hresult] at hfirst
      have hsecond := hf a s' hfirst.2.1 hfirst.2.2 hfirst.1
      split at hsecond
      next heq =>
        simp only [heq]
        exact ⟨hsecond.1, Nat.le_trans hfirst.2.1 hsecond.2.1, hsecond.2.2⟩
      next heq =>
        simp only [heq]
        exact ⟨hsecond.1, Nat.le_trans hfirst.2.1 hsecond.2⟩
  | error e s' =>
      rw [hresult] at hfirst
      exact hfirst

/-! ### Tokens -/

theorem State.Meets.tail {token : Token} {rest : List Token} (hs : s.Meets d loops)
    (hrest : s.rest = token :: rest) :
    State.Meets d loops { s with rest } :=
  ⟨fun other hother => hs.rest other (by simp [hrest, hother]), hs.last, hs.loops⟩

theorem reads_next : Reads d loops next (fun token _ => d.token token) s := by
  refine fun hs => ⟨hs, Nat.le_refl _, ?_⟩
  unfold State.next
  cases hrest : s.rest with
  | nil => exact hs.last
  | cons token rest => exact hs.rest token (by simp [hrest])

theorem reads_check (test : Token → Bool) : Reads d loops (check test) (fun _ _ => True) s :=
  fun hs => ⟨hs, Nat.le_refl _, trivial⟩

theorem reads_atEnd : Reads d loops atEnd (fun _ _ => True) s :=
  fun hs => ⟨hs, Nat.le_refl _, trivial⟩

theorem reads_remaining : Reads d loops remaining (fun _ _ => True) s :=
  fun hs => ⟨hs, Nat.le_refl _, trivial⟩

theorem reads_insideLoop :
    Reads d loops insideLoop (fun inside _ => inside = true → loops.headD 0 ≠ 0) s := by
  refine fun hs => ⟨hs, Nat.le_refl _, fun hinside => ?_⟩
  rw [← hs.loops]
  exact bne_iff_ne.1 hinside

theorem reads_startsFunction : Reads d loops startsFunction (fun _ _ => True) s :=
  fun hs => ⟨hs, Nat.le_refl _, trivial⟩

theorem reads_accept (test : Token → Bool) :
    Reads d loops (accept test)
      (fun found _ => ∀ token, found = some token → d.token token ∧ test token = true) s := by
  intro hs
  unfold accept
  cases hrest : s.rest with
  | nil => exact ⟨hs, Nat.le_refl _, by simp⟩
  | cons token rest =>
      by_cases htest : test token = true
      · simp only [htest, if_true]
        refine ⟨hs.tail hrest, Nat.le_refl _, fun other hother => ?_⟩
        cases hother
        exact ⟨hs.rest token (by simp [hrest]), htest⟩
      · simp only [htest]
        exact ⟨hs, Nat.le_refl _, by simp⟩

theorem reads_expect (test : Token → Bool) (cause : ParseError.Cause) :
    Reads d loops (expect test cause) (fun token _ => d.token token ∧ test token = true) s := by
  intro hs
  unfold expect
  cases hrest : s.rest with
  | nil => exact ⟨hs, Nat.le_refl _⟩
  | cons token rest =>
      by_cases htest : test token = true
      · simp only [htest, if_true]
        exact ⟨hs.tail hrest, Nat.le_refl _, hs.rest token (by simp [hrest]), trivial⟩
      · simp only [htest]
        exact ⟨hs, Nat.le_refl _⟩

theorem reads_acceptSymbol (symbol : Symbol) :
    Reads d loops (acceptSymbol symbol) (fun _ _ => True) s :=
  (reads_accept _).bind fun _ _ _ _ => reads_pure _ trivial

theorem reads_acceptKeyword (keyword : Keyword) :
    Reads d loops (acceptKeyword keyword) (fun _ _ => True) s :=
  (reads_accept _).bind fun _ _ _ _ => reads_pure _ trivial

theorem reads_expectSymbol (symbol : Symbol) (position : Position) :
    Reads d loops (expectSymbol symbol position) (fun _ _ => True) s :=
  (reads_expect _ _).mono fun _ _ _ _ => trivial

theorem reads_expectName (role : NameRole) :
    Reads d loops (expectName role) (fun name _ => d.Name name) s := reads_expect _ _

theorem reads_report (token : Token) (cause : ParseError.Cause) :
    Reads d loops (report token cause) (fun _ _ => True) s :=
  fun hs => ⟨⟨hs.rest, hs.last, hs.loops⟩, Nat.le_refl _, trivial⟩

theorem reads_freshId : Reads d loops freshId (fun id s' => s.nextId ≤ id ∧ id < s'.nextId) s :=
  fun hs => ⟨⟨hs.rest, hs.last, hs.loops⟩, Nat.le_succ _, Nat.le_refl _, Nat.lt_succ_self _⟩

/-! ### Loops and function bodies -/

/-- A change of the open loops that leaves everything else as it is. -/
structure State.Shifts (change : State → State) (loops loops' : List Nat) : Prop where
  rest : ∀ s, (change s).rest = s.rest
  last : ∀ s, (change s).last = s.last
  nextId : ∀ s, (change s).nextId = s.nextId
  loops : ∀ s : State, s.loopDepths = loops → (change s).loopDepths = loops'

theorem State.Shifts.meets {change : State → State} {loops' : List Nat}
    (h : State.Shifts change loops loops') (hs : s.Meets d loops) :
    (change s).Meets d loops' :=
  ⟨by rw [h.rest]; exact hs.rest, by rw [h.last]; exact hs.last, h.loops s hs.loops⟩

/-- What is opened before a part and closed after it, however that part ends, is open in that part
only. -/
theorem reads_thenAlways {x : Parser α} {Q : Nat → α → Nat → Prop} {before after : State → State}
    {inner : List Nat} (hbefore : State.Shifts before loops inner)
    (hafter : State.Shifts after inner loops)
    (h : ∀ s, Reads d inner x (fun a s' => Q s.nextId a s'.nextId) s) (s : State) :
    Reads d loops (fun s => thenAlways x after (before s))
      (fun a s' => Q s.nextId a s'.nextId) s := by
  intro hs
  have hx := h (before s) (hbefore.meets hs)
  simp only [thenAlways]
  cases hresult : x (before s) with
  | ok a s' =>
      rw [hresult, hbefore.nextId] at hx
      simp only [hafter.nextId]
      exact ⟨hafter.meets hx.1, hx.2⟩
  | error e s' =>
      rw [hresult, hbefore.nextId] at hx
      simp only [hafter.nextId]
      exact ⟨hafter.meets hx.1, hx.2⟩

theorem shifts_mapLoops (change : Nat → Nat) (loops : List Nat) :
    State.Shifts (State.mapLoops change) loops (loops.modifyHead change) := by
  constructor
  case loops =>
    intro s hs
    unfold State.mapLoops
    rw [← hs]
    split
    next hnone => rw [hnone, List.modifyHead_nil]
    next hsome => rw [hsome, List.modifyHead_cons]
  all_goals
    intro s
    unfold State.mapLoops
    split <;> rfl

/-- The body of a loop is read with one more loop open. -/
theorem reads_inLoop {x : Parser α} (Q : Nat → α → Nat → Prop)
    (h : ∀ s, Reads d (loops.modifyHead (· + 1)) x (fun a s' => Q s.nextId a s'.nextId) s)
    (s : State) :
    Reads d loops (inLoop x) (fun a s' => Q s.nextId a s'.nextId) s := by
  have hclosed : (loops.modifyHead (· + 1)).modifyHead (· - 1) = loops := by cases loops <;> simp
  have hafter := shifts_mapLoops (· - 1) (loops.modifyHead (· + 1))
  rw [hclosed] at hafter
  exact reads_thenAlways (shifts_mapLoops _ _) hafter h s

/-- The body of a function is read with no loop open. -/
theorem reads_inFunction {x : Parser α} (Q : Nat → α → Nat → Prop)
    (h : ∀ s, Reads d (0 :: loops) x (fun a s' => Q s.nextId a s'.nextId) s) (s : State) :
    Reads d loops (inFunction x) (fun a s' => Q s.nextId a s'.nextId) s := by
  have hbefore : State.Shifts (fun s => { s with loopDepths := 0 :: s.loopDepths })
      loops (0 :: loops) :=
    ⟨fun _ => rfl, fun _ => rfl, fun _ => rfl, fun _ hs => congrArg _ hs⟩
  have hafter : State.Shifts (fun s => { s with loopDepths := s.loopDepths.drop 1 })
      (0 :: loops) loops :=
    ⟨fun _ => rfl, fun _ => rfl, fun _ => rfl, fun _ hs => congrArg _ hs⟩
  exact reads_thenAlways hbefore hafter h s

/-! ### The rules -/

/-- All rules number what they read. -/
structure Rules.Fresh (d : Demand) (r : Rules) : Prop where
  expression : ∀ {loops : List Nat} (s : State),
      Reads d loops r.expression (fun e s' => e.Written d s.nextId s'.nextId) s
  assignment : ∀ {loops : List Nat} (s : State),
      Reads d loops r.assignment (fun e s' => e.Written d s.nextId s'.nextId) s
  conditional : ∀ {loops : List Nat} (s : State),
      Reads d loops r.conditional (fun e s' => e.Written d s.nextId s'.nextId) s
  comparison : ∀ {loops : List Nat} (s : State),
      Reads d loops r.comparison (fun e s' => e.Written d s.nextId s'.nextId) s
  term : ∀ {loops : List Nat} (s : State),
      Reads d loops r.term (fun e s' => e.Written d s.nextId s'.nextId) s
  factor : ∀ {loops : List Nat} (s : State),
      Reads d loops r.factor (fun e s' => e.Written d s.nextId s'.nextId) s
  unary : ∀ {loops : List Nat} (s : State),
      Reads d loops r.unary (fun e s' => e.Written d s.nextId s'.nextId) s
  statement : ∀ {loops : List Nat} (s : State),
      Reads d loops r.statement (fun stmt s' => stmt.Written d loops s.nextId s'.nextId) s
  declaration : ∀ {loops : List Nat} (s : State), Reads d loops r.declaration
      (fun found s' => ∀ stmt, found = some stmt → stmt.Written d loops s.nextId s'.nextId) s

variable {r : Rules}

/-! ### Levels of binary operators -/

theorem reads_leftAssociativeFrom {operand : Parser Expr} (operator : Token → Bool)
    {node : Expr → Token → Expr → Expr}
    (hoperand : ∀ s, Reads d loops operand (fun e s' => e.Written d s.nextId s'.nextId) s)
    (hnode : ∀ left token right p, (node left token right).uses p = left.uses p ++ right.uses p)
    (bound : Nat) {lo : Nat} {left : Expr} (hlo : lo ≤ s.nextId)
    (hleft : left.Written d lo s.nextId) :
    Reads d loops (leftAssociativeFrom operand operator node bound left)
      (fun e s' => e.Written d lo s'.nextId) s := by
  induction bound generalizing left s with
  | zero => exact reads_pure left hleft
  | succ bound ih =>
      refine (reads_accept operator).bind fun found s₁ hle₁ _ => ?_
      cases found with
      | none => exact reads_pure left (hleft.mono (Nat.le_refl _) hle₁)
      | some token =>
          refine (hoperand s₁).bind fun right s₂ hle₂ hright => ih (by omega) fun p => ?_
          rw [hnode]
          exact ((hleft p).mono (Nat.le_refl _) hle₁).append (hright p) (by omega) hle₂

theorem reads_leftAssociative {operand : Parser Expr} (operator : Token → Bool)
    {node : Expr → Token → Expr → Expr}
    (hoperand : ∀ s, Reads d loops operand (fun e s' => e.Written d s.nextId s'.nextId) s)
    (hnode : ∀ left token right p, (node left token right).uses p = left.uses p ++ right.uses p)
    (s : State) :
    Reads d loops (leftAssociative operand operator node)
      (fun e s' => e.Written d s.nextId s'.nextId) s := by
  refine (hoperand s).bind fun left s₁ hle₁ hleft => reads_remaining.bind fun bound s₂ hle₂ _ => ?_
  exact reads_leftAssociativeFrom operator hoperand hnode bound (by omega)
    (hleft.mono (Nat.le_refl _) hle₂)

theorem uses_binary (left : Expr) (token : Token) (right : Expr) (p : Place) :
    (Expr.binary left token right).uses p = left.uses p ++ right.uses p := by rw [Expr.uses]

theorem uses_logical (left : Expr) (token : Token) (right : Expr) (p : Place) :
    (Expr.logical left token right).uses p = left.uses p ++ right.uses p := by rw [Expr.uses]

/-! ### Functions -/

theorem reads_checkCount (count : Nat) (cause : ParseError.Cause) :
    Reads d loops (checkCount count cause) (fun _ _ => True) s := by
  unfold checkCount
  split
  · exact reads_next.bind fun _ _ _ _ => reads_report _ _
  · exact reads_pure () trivial

theorem reads_parametersFrom (bound count : Nat) :
    Reads d loops (parametersFrom bound count)
      (fun params _ => ∀ param ∈ params, d.Name param) s := by
  induction bound generalizing count s with
  | zero =>
      refine (reads_checkCount _ _).bind fun _ s₁ _ _ =>
        (reads_expectName _).bind fun param s₂ _ hparam => reads_pure _ ?_
      simpa using hparam
  | succ bound ih =>
      refine (reads_checkCount _ _).bind fun _ s₁ _ _ =>
        (reads_expectName _).bind fun param s₂ _ hparam => ?_
      refine (reads_acceptSymbol _).bind fun more s₃ _ _ => ?_
      cases more with
      | true =>
          refine (ih (count + 1)).bind fun params s₄ _ hparams => reads_pure _ ?_
          simpa using ⟨hparam, hparams⟩
      | false => exact reads_pure _ (by simpa using hparam)

theorem reads_parameters (s : State) :
    Reads d loops parameters (fun params _ => ∀ param ∈ params, d.Name param) s := by
  refine (reads_check _).bind fun closing s₁ _ _ => ?_
  split
  · exact reads_pure [] (by simp)
  · exact reads_remaining.bind fun bound s₂ _ _ => reads_parametersFrom bound 0

theorem writtenAll_nil (loops : List Nat) (lo hi : Nat) : Stmt.WrittenAll d loops lo hi [] :=
  fun p _ => by
  rw [Stmt.usesAll]
  exact .nil

theorem writtenAll_cons {lo mid hi : Nat} {stmt : Stmt} {rest : List Stmt}
    (hstmt : stmt.Written d loops lo mid) (hrest : Stmt.WrittenAll d loops mid hi rest)
    (hlo : lo ≤ mid) (hhi : mid ≤ hi) : Stmt.WrittenAll d loops lo hi (stmt :: rest) := by
  intro p hp
  rw [Stmt.usesAll]
  exact (hstmt p hp).append (hrest _ (hp.grows (stmt.grows_after p))) hlo hhi

/-- Statements up to a closing brace, at whatever place they stand. -/
theorem reads_statementsFrom (hr : r.Fresh d) (bound : Nat) :
    Reads d loops (statementsFrom r bound)
      (fun statements s' => Stmt.WrittenAll d loops s.nextId s'.nextId statements) s := by
  induction bound generalizing s with
  | zero => exact reads_pure [] (writtenAll_nil _ _ _)
  | succ bound ih =>
      refine (reads_check _).bind fun closing s₁ hle₁ _ =>
        reads_atEnd.bind fun ended s₂ hle₂ _ => ?_
      split
      · exact reads_pure [] (writtenAll_nil _ _ _)
      · refine (hr.declaration s₂).bind fun found s₃ hle₃ hfound => ?_
        cases found with
        | none => exact ih.mono fun statements s₄ _ h => h.mono (by omega) (Nat.le_refl _)
        | some stmt =>
            refine ih.bind fun statements s₄ hle₄ h => reads_pure _ ?_
            exact writtenAll_cons ((hfound stmt rfl).mono (by omega) (Nat.le_refl _)) h
              (by omega) hle₄

theorem reads_block (hr : r.Fresh d) (s : State) :
    Reads d loops (block r)
      (fun statements s' => Stmt.WrittenAll d loops s.nextId s'.nextId statements) s := by
  refine reads_remaining.bind fun bound s₁ hle₁ _ =>
    (reads_statementsFrom hr bound).bind fun statements s₂ hle₂ h => ?_
  exact (reads_expectSymbol _ _).bind fun _ s₃ hle₃ _ => reads_pure _ (h.mono hle₁ hle₃)

/-- Parameters are declared and not looked up, so only the body of a function has ids. -/
theorem written_functionDecl {lo hi : Nat} {name : Option Token} {params : List Token}
    {body : List Stmt} (isGetter : Bool) (hparams : ∀ param ∈ params, d.Name param)
    (hbody : Stmt.WrittenAll d (0 :: loops) lo hi body) :
    FunctionDecl.Written d lo hi ⟨name, params, body, isGetter⟩ := by
  intro kind p
  have hsilent : ∀ (params : List Token) (inside : Place) (us : Uses),
      (∀ param ∈ params, d.Name param) → Uses.Written d lo hi us →
      Uses.Written d lo hi (params.map (fun param => (inside, Use.declare param)) ++ us) := by
    intro params inside us hall hus
    induction params with
    | nil => exact hus
    | cons param rest ih =>
        have hparam := hall param (List.mem_cons_self ..)
        exact (ih fun other hother => hall other (List.mem_cons_of_mem _ hother)).cons_silent rfl
          (d.declare hparam.1 hparam.2)
  rw [FunctionDecl.uses]
  refine hsilent params _ _ hparams (hbody _ fun hopen => absurd rfl hopen)

theorem reads_functionRest (hr : r.Fresh d) (name : Option Token) (beforeBody : Position)
    (s : State) :
    Reads d loops (functionRest r name beforeBody)
      (fun decl s' => decl.Written d s.nextId s'.nextId ∧ decl.name = name) s := by
  refine (reads_parameters s).bind fun params s₁ hle₁ hparams =>
    (reads_expectSymbol _ _).bind fun _ s₂ hle₂ _ => ?_
  refine (reads_expectSymbol _ _).bind fun _ s₃ hle₃ _ => ?_
  refine (reads_inFunction (fun lo body hi => Stmt.WrittenAll d (0 :: loops) lo hi body)
    (reads_block hr) s₃).bind fun body s₄ hle₄ hbody => reads_pure _ ?_
  exact ⟨(written_functionDecl false hparams hbody).mono (by omega) (Nat.le_refl _), rfl⟩

/-! ### Expressions -/

theorem written_literal (lo hi : Nat) (value : Literal) : (Expr.literal value).Written d lo hi :=
  fun p => by
  rw [Expr.uses]
  exact .nil

theorem written_variable {lo hi id : Nat} {name : Token} (hlo : lo ≤ id) (hhi : id < hi)
    (hname : d.Name name) :
    (Expr.variable id name).Written d lo hi := fun p => by
  rw [Expr.uses]
  exact .single rfl hlo hhi (d.read hname.1 hname.2)

theorem reads_orphanOperand {operators : List (List Symbol × Parser Expr)}
    (h : ∀ entry ∈ operators, ∀ s,
      Reads d loops entry.2 (fun e s' => e.Written d s.nextId s'.nextId) s)
    (s : State) :
    Reads d loops (orphanOperand operators) (fun e s' => e.Written d s.nextId s'.nextId) s := by
  induction operators generalizing s with
  | nil => exact reads_fail _
  | cons entry rest ih =>
      obtain ⟨symbols, operand⟩ := entry
      refine (reads_accept _).bind fun found s₁ hle₁ _ => ?_
      cases found with
      | none =>
          refine (ih (fun entry hentry => h entry (List.mem_cons_of_mem _ hentry)) s₁).mono
            fun e s₂ _ he => ?_
          exact he.mono hle₁ (Nat.le_refl _)
      | some token =>
          refine (reads_report _ _).bind fun _ s₂ _ _ =>
            (h _ (List.mem_cons_self ..) s₂).bind fun _ s₃ _ _ => ?_
          exact reads_pure _ (written_literal _ _ _)

/-- An expression that starts with a token that meets the demand. -/
theorem reads_primaryFrom (hr : r.Fresh d) {token : Token} (htoken : d.token token)
    {rule : Parser Expr} (hrule : primaryFrom r token = some rule) (s : State) :
    Reads d loops rule (fun e s' => e.Written d s.nextId s'.nextId) s := by
  unfold primaryFrom at hrule
  split at hrule
  next => cases hrule; exact reads_pure _ (written_literal _ _ _)
  next => cases hrule; exact reads_pure _ (written_literal _ _ _)
  next hkind =>
    cases hrule
    have hname : d.Name token := ⟨htoken, by simp [Token.isIdentifier, hkind]⟩
    exact reads_freshId.bind fun id s₁ _ hid => reads_pure _ (written_variable hid.1 hid.2 hname)
  next keyword hkind =>
    unfold keywordExpression at hrule
    split at hrule
    next => cases hrule; exact reads_pure _ (written_literal _ _ _)
    next => cases hrule; exact reads_pure _ (written_literal _ _ _)
    next => cases hrule; exact reads_pure _ (written_literal _ _ _)
    next =>
      cases hrule
      refine reads_freshId.bind fun id s₁ _ hid => reads_pure _ fun p => ?_
      rw [Expr.uses]
      exact .single rfl hid.1 hid.2 (d.this htoken hkind)
    next =>
      cases hrule
      refine (reads_expectSymbol _ _).bind fun _ s₁ hle₁ _ =>
        (reads_expectName _).bind fun method s₂ hle₂ _ => ?_
      refine reads_freshId.bind fun id s₃ _ hid => reads_pure _ fun p => ?_
      rw [Expr.uses]
      exact .single rfl (by omega) hid.2 (d.super htoken hkind)
    next =>
      cases hrule
      refine (reads_expectSymbol _ _).bind fun _ s₁ hle₁ _ =>
        (reads_functionRest hr _ _ s₁).bind fun decl s₂ hle₂ hdecl => ?_
      refine reads_pure _ fun p => ?_
      rw [Expr.uses]
      exact (hdecl.1 _ p).mono hle₁ (Nat.le_refl _)
    next => cases hrule
  next =>
    cases hrule
    refine (hr.expression s).bind fun inner s₁ hle₁ hinner =>
      (reads_expectSymbol _ _).bind fun _ s₂ hle₂ _ => reads_pure _ fun p => ?_
    rw [Expr.uses]
    exact (hinner p).mono (Nat.le_refl _) hle₂
  next => cases hrule

theorem reads_primary (hr : r.Fresh d) (s : State) :
    Reads d loops (primary r) (fun e s' => e.Written d s.nextId s'.nextId) s := by
  refine reads_next.bind fun token s₁ hle₁ htoken => ?_
  split
  next rule hrule =>
    refine (reads_accept _).bind fun _ s₂ hle₂ _ =>
      (reads_primaryFrom hr htoken hrule s₂).mono fun e s₃ _ he => ?_
    exact he.mono (by omega) (Nat.le_refl _)
  next =>
    refine (reads_orphanOperand (fun entry hentry s => ?_) s₁).mono fun e s₂ _ he =>
      he.mono hle₁ (Nat.le_refl _)
    simp only [orphanOperators, List.mem_cons, List.not_mem_nil, or_false] at hentry
    rcases hentry with rfl | rfl | rfl | rfl | rfl
    · exact hr.comparison s
    · exact hr.term s
    · exact hr.factor s
    · exact hr.unary s
    · exact hr.assignment s

theorem reads_argumentsFrom (hr : r.Fresh d) (bound count : Nat) :
    Reads d loops (argumentsFrom r bound count)
      (fun es s' => ∀ p, Uses.Written d s.nextId s'.nextId (Expr.usesAll es p)) s := by
  have hlast : ∀ {lo hi : Nat} {e : Expr} (p : Place), e.Written d lo hi →
      Uses.Written d lo hi (Expr.usesAll [e] p) := by
    intro lo hi e p he
    rw [Expr.usesAll, Expr.usesAll, List.append_nil]
    exact he p
  induction bound generalizing count s with
  | zero =>
      refine (reads_checkCount _ _).bind fun _ s₁ hle₁ _ => (hr.assignment s₁).bind fun e s₂ _ he =>
        reads_pure _ fun p => ?_
      exact hlast p (he.mono hle₁ (Nat.le_refl _))
  | succ bound ih =>
      refine (reads_checkCount _ _).bind fun _ s₁ hle₁ _ =>
        (hr.assignment s₁).bind fun e s₂ hle₂ he => ?_
      refine (reads_acceptSymbol _).bind fun more s₃ hle₃ _ => ?_
      cases more with
      | true =>
          refine (ih (count + 1)).bind fun es s₄ hle₄ hes => reads_pure _ fun p => ?_
          rw [Expr.usesAll]
          exact ((he p).mono hle₁ hle₃).append (hes p) (by omega) hle₄
      | false => exact reads_pure _ fun p => hlast p (he.mono hle₁ hle₃)

theorem reads_arguments (hr : r.Fresh d) (s : State) :
    Reads d loops (arguments r)
      (fun es s' => ∀ p, Uses.Written d s.nextId s'.nextId (Expr.usesAll es p)) s := by
  refine (reads_check _).bind fun closing s₁ hle₁ _ => ?_
  split
  · exact reads_pure [] fun p => by rw [Expr.usesAll]; exact .nil
  · refine reads_remaining.bind fun bound s₂ hle₂ _ =>
      (reads_argumentsFrom hr bound 0).mono fun es s₃ _ hes p => ?_
    exact (hes p).mono (by omega) (Nat.le_refl _)

theorem reads_callRest (hr : r.Fresh d) {lo : Nat} {callee : Expr} (hlo : lo ≤ s.nextId)
    (hcallee : callee.Written d lo s.nextId) :
    Reads d loops (callRest r callee) (fun e s' => e.Written d lo s'.nextId) s := by
  refine (reads_arguments hr s).bind fun es s₁ hle₁ hes =>
    (reads_expectSymbol _ _).bind fun paren s₂ hle₂ _ => reads_pure _ fun p => ?_
  rw [Expr.uses]
  exact (hcallee p).append ((hes p).mono (Nat.le_refl _) hle₂) hlo (by omega)

theorem reads_accessesFrom (hr : r.Fresh d) (bound : Nat) {lo : Nat} {expr : Expr}
    (hlo : lo ≤ s.nextId) (hexpr : expr.Written d lo s.nextId) :
    Reads d loops (accessesFrom r bound expr) (fun e s' => e.Written d lo s'.nextId) s := by
  induction bound generalizing expr s with
  | zero => exact reads_pure expr hexpr
  | succ bound ih =>
      refine (reads_acceptSymbol _).bind fun isCall s₁ hle₁ _ => ?_
      split
      · refine (reads_callRest hr (by omega) (hexpr.mono (Nat.le_refl _) hle₁)).bind
          fun e s₂ hle₂ he => ih (by omega) he
      · refine (reads_acceptSymbol _).bind fun isGet s₂ hle₂ _ => ?_
        split
        · refine (reads_expectName _).bind fun name s₃ hle₃ _ => ih (by omega) fun p => ?_
          rw [Expr.uses]
          exact (hexpr p).mono (Nat.le_refl _) (by omega)
        · exact reads_pure expr (hexpr.mono (Nat.le_refl _) (by omega))

theorem reads_call (hr : r.Fresh d) (s : State) :
    Reads d loops (call r) (fun e s' => e.Written d s.nextId s'.nextId) s := by
  refine (reads_primary hr s).bind fun expr s₁ hle₁ hexpr =>
    reads_remaining.bind fun bound s₂ hle₂ _ => ?_
  exact reads_accessesFrom hr bound (by omega) (hexpr.mono (Nat.le_refl _) hle₂)

theorem reads_unary (hr : r.Fresh d) (s : State) :
    Reads d loops (unary r) (fun e s' => e.Written d s.nextId s'.nextId) s := by
  refine (reads_accept _).bind fun found s₁ hle₁ _ => ?_
  cases found with
  | none => exact (reads_call hr s₁).mono fun e s₂ _ he => he.mono hle₁ (Nat.le_refl _)
  | some operator =>
      refine (hr.unary s₁).bind fun right s₂ hle₂ hright => reads_pure _ fun p => ?_
      rw [Expr.uses]
      exact (hright p).mono hle₁ (Nat.le_refl _)

theorem reads_factor (hr : r.Fresh d) (s : State) :
    Reads d loops (factor r) (fun e s' => e.Written d s.nextId s'.nextId) s :=
  reads_leftAssociative _ (reads_unary hr) uses_binary s

theorem reads_term (hr : r.Fresh d) (s : State) :
    Reads d loops (term r) (fun e s' => e.Written d s.nextId s'.nextId) s :=
  reads_leftAssociative _ (reads_factor hr) uses_binary s

theorem reads_comparison (hr : r.Fresh d) (s : State) :
    Reads d loops (comparison r) (fun e s' => e.Written d s.nextId s'.nextId) s :=
  reads_leftAssociative _ (reads_term hr) uses_binary s

theorem reads_equality (hr : r.Fresh d) (s : State) :
    Reads d loops (equality r) (fun e s' => e.Written d s.nextId s'.nextId) s :=
  reads_leftAssociative _ (reads_comparison hr) uses_binary s

theorem reads_logicalAnd (hr : r.Fresh d) (s : State) :
    Reads d loops (logicalAnd r) (fun e s' => e.Written d s.nextId s'.nextId) s :=
  reads_leftAssociative _ (reads_equality hr) uses_logical s

theorem reads_logicalOr (hr : r.Fresh d) (s : State) :
    Reads d loops (logicalOr r) (fun e s' => e.Written d s.nextId s'.nextId) s :=
  reads_leftAssociative _ (reads_logicalAnd hr) uses_logical s

theorem reads_conditional (hr : r.Fresh d) (s : State) :
    Reads d loops (conditional r) (fun e s' => e.Written d s.nextId s'.nextId) s := by
  refine (reads_logicalOr hr s).bind fun condition s₁ hle₁ hcondition =>
    (reads_acceptSymbol _).bind fun more s₂ hle₂ _ => ?_
  split
  · refine (hr.expression s₂).bind fun thenBranch s₃ hle₃ hthen =>
      (reads_expectSymbol _ _).bind fun _ s₄ hle₄ _ => ?_
    refine (hr.conditional s₄).bind fun elseBranch s₅ hle₅ helse => reads_pure _ fun p => ?_
    rw [Expr.uses]
    have hfirst := ((hcondition p).mono (Nat.le_refl _) hle₂).append (hthen p) (by omega) hle₃
    exact (hfirst.mono (Nat.le_refl _) hle₄).append (helse p) (by omega) hle₅
  · exact reads_pure condition (hcondition.mono (Nat.le_refl _) hle₂)

/-- An assignment keeps the id of its variable, or the occurrences of its object. -/
theorem written_assignTo {lo mid hi : Nat} {target value expr : Expr}
    (h : assignTo target value = some expr) (htarget : target.Written d lo mid)
    (hvalue : value.Written d mid hi) (hlo : lo ≤ mid) (hhi : mid ≤ hi) : expr.Written d lo hi := by
  unfold assignTo at h
  split at h
  next id name =>
    cases h
    intro p
    have hread := htarget p
    rw [Expr.uses] at hread
    have hrange := hread.range id (by simp [Uses.ids, Use.id?, Use.lookup?])
    have hwrite : Uses.Written d lo mid [(p, .write id name)] :=
      .single rfl hrange.1 hrange.2 (d.write (hread.meets _ (List.mem_singleton_self _)))
    rw [Expr.uses]
    exact (hwrite.append (hvalue p) hlo hhi).swap
  next object name =>
    cases h
    intro p
    have hpair := (htarget p).append (hvalue p) hlo hhi
    simp only [Expr.uses] at hpair ⊢
    exact hpair.swap
  next => cases h

theorem reads_assignment (hr : r.Fresh d) (s : State) :
    Reads d loops (assignment r) (fun e s' => e.Written d s.nextId s'.nextId) s := by
  refine (reads_conditional hr s).bind fun target s₁ hle₁ htarget =>
    (reads_accept _).bind fun found s₂ hle₂ _ => ?_
  have htarget₂ := htarget.mono (Nat.le_refl _) hle₂
  cases found with
  | none => exact reads_pure target htarget₂
  | some equals =>
      refine (hr.assignment s₂).bind fun value s₃ hle₃ hvalue => ?_
      split
      next expr hexpr =>
        exact reads_pure expr (written_assignTo hexpr htarget₂ hvalue (by omega) hle₃)
      next =>
        exact (reads_report _ _).bind fun _ s₄ hle₄ _ =>
          reads_pure target (htarget₂.mono (Nat.le_refl _) (by omega))

theorem reads_expression (hr : r.Fresh d) (s : State) :
    Reads d loops (expression r) (fun e s' => e.Written d s.nextId s'.nextId) s :=
  reads_leftAssociative _ (reads_assignment hr) uses_binary s

end Parse
end TraitScript
