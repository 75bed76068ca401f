import TraitScript.Proofs.Token.Coverage

/-!
# Scanning with a cursor

A scanner that goes through a source byte by byte. It looks at most two bytes ahead, where the end
of the source looks like a zero byte, and every byte that it reads and every slice that it takes has
to be in range. Whenever it is asked for the next item it passes over blanks and comments, reads one
piece and checks that it is text.

Asked again and again, it yields the items of a scan and then nothing any more; it never leaves the
source, never stands still, and never meets a number that cannot be read or a lexeme that is not
text after its parts were.
-/

namespace TraitScript.Scan

/-- What must not happen to a scanner. -/
inductive Misstep where
  | outOfRange
  | standstill
  | invalidNumber
  | lexemeNotUtf8
  deriving DecidableEq, Repr

/-- Where the current piece starts, which byte comes next, and on which line. -/
structure Cursor where
  start : Nat := 0
  position : Nat := 0
  line : Nat := 1

/-- What a piece was found to be. -/
inductive Outcome where
  | nothing
  | token (kind : Token.Kind)
  | error (cause : LexError)

namespace Cursor

variable (source : Source)

/-! ### The scanner -/

def atEnd (c : Cursor) : Bool := source.length ≤ c.position

/-- The next byte, or zero at the end. -/
def peek (c : Cursor) : UInt8 := source[c.position]?.getD 0

/-- The byte after the next, or zero. -/
def peekNext (c : Cursor) : UInt8 := source[c.position + 1]?.getD 0

def advance (c : Cursor) : Except Misstep (UInt8 × Cursor) :=
  match source[c.position]? with
  | some byte => .ok (byte, { c with position := c.position + 1 })
  | none => .error .outOfRange

/-- Takes the next byte if it is the expected one. -/
def accept (expected : UInt8) (c : Cursor) : Except Misstep (Bool × Cursor) := do
  if !c.atEnd source && c.peek source == expected then
    let (_, c) ← c.advance source
    return (true, c)
  else
    return (false, c)

/-- The bytes from one place to another, which must be in range. -/
def range (start stop : Nat) : Except Misstep (List UInt8) :=
  if start ≤ stop ∧ stop ≤ source.length then .ok (slice source start stop) else .error .outOfRange

/-- Takes bytes as long as a condition holds, counting line breaks or not. -/
def skipWhile (counting : Bool) (condition : Cursor → Bool) (c : Cursor) : Except Misstep Cursor :=
  if condition c then
    match _h : source[c.position]? with
    | some byte => skipWhile counting condition { c with
        position := c.position + 1
        line := if counting && byte == newline then c.line + 1 else c.line }
    | none => .error .outOfRange
  else
    .ok c
termination_by source.length - c.position
decreasing_by
  obtain ⟨hlt, -⟩ := List.getElem?_eq_some_iff.1 _h
  exact Nat.sub_lt_sub_left hlt (Nat.lt_succ_self _)

theorem le_of_accept {source : Source} {expected : UInt8} {c c' : Cursor} {accepted : Bool}
    (h : c.accept source expected = .ok (accepted, c')) : c.position ≤ c'.position := by
  unfold accept advance at h
  split at h
  · cases hbyte : source[c.position]? with
    | none =>
        rw [hbyte] at h
        cases h
    | some byte =>
        rw [hbyte] at h
        cases h
        exact Nat.le_succ _
  · cases h
    exact Nat.le_refl _

/-- Takes a block comment whose opening is taken. -/
def blockComment (depth : Nat) (c : Cursor) : Except Misstep (Option LexError × Cursor) :=
  match _h : source[c.position]? with
  | none => .ok (some .unclosedComment, c)
  | some byte =>
    let ahead : Cursor := { c with position := c.position + 1 }
    if byte = newline then blockComment depth { ahead with line := c.line + 1 }
    else if byte = star then
      match haccept : ahead.accept source slash with
      | .ok (true, c') => if depth ≤ 1 then .ok (none, c') else blockComment (depth - 1) c'
      | .ok (false, c') => blockComment depth c'
      | .error misstep => .error misstep
    else if byte = slash then
      match haccept : ahead.accept source star with
      | .ok (true, c') => blockComment (depth + 1) c'
      | .ok (false, c') => blockComment depth c'
      | .error misstep => .error misstep
    else blockComment depth ahead
termination_by source.length - c.position
decreasing_by
  all_goals
    obtain ⟨hlt, -⟩ := List.getElem?_eq_some_iff.1 _h
    first
      | exact Nat.sub_lt_sub_left hlt (Nat.lt_succ_self _)
      | exact Nat.sub_lt_sub_left hlt (le_of_accept haccept)

def skipDigits (c : Cursor) : Except Misstep Cursor :=
  c.skipWhile source false fun c => isDigit (c.peek source)

/-- Takes the digits of a number, and those after a point. -/
def skipNumber (c : Cursor) : Except Misstep Cursor := do
  let c ← c.skipDigits source
  if c.peek source == point && isDigit (c.peekNext source) then
    let (_, c) ← c.advance source
    c.skipDigits source
  else
    return c

def scanNumber (c : Cursor) : Except Misstep (Outcome × Cursor) := do
  let c ← c.skipNumber source
  match Utf8.decode? (← range source c.start c.position) with
  | none => return (.error .notUtf8, c)
  | some text =>
    match Number.ofText? text with
    | some value => return (.token (.number value), c)
    | none => throw .invalidNumber

def scanWord (c : Cursor) : Except Misstep (Outcome × Cursor) := do
  let c ← c.skipWhile source false fun c => isWordByte (c.peek source)
  let bytes ← range source c.start c.position
  match Keyword.all.find? fun k => Utf8.encode k.text = bytes with
  | some k => return (.token (.keyword k), c)
  | none => return (.token .identifier, c)

def scanString (c : Cursor) : Except Misstep (Outcome × Cursor) := do
  let c ← c.skipWhile source true fun c => !c.atEnd source && c.peek source != quote
  if c.atEnd source then
    return (.error .unclosedString, c)
  else
    let (_, c) ← c.advance source
    match Utf8.decode? (← range source (c.start + 1) (c.position - 1)) with
    | some text => return (.token (.string text), c)
    | none => return (.error .notUtf8, c)

def scanSlash (c : Cursor) : Except Misstep (Outcome × Cursor) := do
  let (line, c) ← c.accept source slash
  if line then
    -- Line breaks are found by a search through what is left.
    let left ← range source c.position source.length
    return (.nothing, { c with position := c.position + run (· != newline) left })
  let (block, c) ← c.accept source star
  if block then
    match ← c.blockComment source 1 with
    | (none, c) => return (.nothing, c)
    | (some cause, c) => return (.error cause, c)
  return (.token (.symbol .slash), c)

def scanSymbol (byte : UInt8) (c : Cursor) : Except Misstep (Outcome × Cursor) := do
  match Symbol.ofChar? (Char.ofUInt8 byte) with
  | none => return (.error (.unexpectedByte byte), c)
  | some s =>
    match s.withEqual? with
    | none => return (.token (.symbol s), c)
    | some longer =>
      let (equal, c) ← c.accept source equalSign
      return (.token (.symbol (if equal then longer else s)), c)

def scanToken (c : Cursor) : Except Misstep (Outcome × Cursor) := do
  let (byte, c) ← c.advance source
  if byte = newline then return (.nothing, { c with line := c.line + 1 })
  else if isBlank byte then return (.nothing, c)
  else if isDigit byte then c.scanNumber source
  else if isLetter byte then c.scanWord source
  else if byte = quote then c.scanString source
  else if byte = slash then c.scanSlash source
  else if byte = star then
    let (stray, c) ← c.accept source slash
    return (if stray then .error .strayCommentEnd else .token (.symbol .star), c)
  else c.scanSymbol source byte

/-- The next item, if there is one. -/
def next (c : Cursor) : Except Misstep (Option Item × Cursor) :=
  if source.length < c.position then .ok (none, c)
  else if c.position = source.length then
    .ok (some (endAt c.position c.line), { c with position := c.position + 1 })
  else
    match ({ c with start := c.position } : Cursor).scanToken source with
    | .error misstep => .error misstep
    | .ok (.error cause, after) =>
      .ok (some ⟨after.start, after.position, after.line, .error cause⟩, after)
    | .ok (.token kind, after) => do
      match Utf8.decode? (← range source after.start after.position) with
      | some lexeme =>
        return (some ⟨after.start, after.position, after.line, .token kind lexeme⟩, after)
      | none => throw .lexemeNotUtf8
    | .ok (.nothing, after) =>
      if c.position < after.position then next after else .error .standstill
termination_by source.length + 1 - c.position

/-- The answer when the next item is asked for once more after a number of times. -/
def answer (c : Cursor) : (asked : Nat) → Except Misstep (Option Item)
  | 0 => return (← c.next source).1
  | asked + 1 => do
    let (_, after) ← c.next source
    answer after asked

/-! ### Moving on -/

/-- The cursor after more bytes. -/
def past (c : Cursor) (bytes : List UInt8) : Cursor :=
  { c with position := c.position + bytes.length, line := c.line + bytes.count newline }

variable {source} {c : Cursor} {left rest bytes : List UInt8} {byte : UInt8}

theorem past_nil (c : Cursor) : c.past [] = c := rfl

theorem past_past (c : Cursor) (bytes more : List UInt8) :
    (c.past bytes).past more = c.past (bytes ++ more) := by
  simp only [past, List.length_append, List.count_append, Nat.add_assoc]

theorem past_of_ne (h : byte ≠ newline) :
    c.past [byte] = { c with position := c.position + 1 } := by
  simp [past, h]

theorem getElem?_position (h : source.drop c.position = left) :
    source[c.position]? = left.head? := by
  rw [← h, List.head?_drop]

theorem drop_past (h : source.drop c.position = bytes ++ rest) :
    source.drop (c.past bytes).position = rest := by
  rw [past, ← List.drop_drop, h, List.drop_left]

theorem atEnd_eq (h : source.drop c.position = left) : c.atEnd source = left.isEmpty := by
  rw [atEnd, ← h, Bool.eq_iff_iff, decide_eq_true_iff, List.isEmpty_iff, List.drop_eq_nil_iff]

theorem peek_eq (h : source.drop c.position = left) : c.peek source = left.head?.getD 0 := by
  rw [peek, getElem?_position h]

theorem peekNext_eq (h : source.drop c.position = left) :
    c.peekNext source = left.tail.head?.getD 0 := by
  rw [peekNext, ← h, List.tail_drop, List.head?_drop]

theorem advance_eq (h : source.drop c.position = byte :: rest) :
    c.advance source = .ok (byte, { c with position := c.position + 1 }) := by
  rw [advance, getElem?_position h]
  rfl

theorem accept_of_head (h : source.drop c.position = byte :: rest) (hbyte : byte ≠ newline) :
    c.accept source byte = .ok (true, c.past [byte]) := by
  rw [accept, atEnd_eq h, peek_eq h, advance_eq h, past_of_ne hbyte]
  simp [bind, Except.bind, pure, Except.pure]

theorem accept_of_ne {expected : UInt8} (h : source.drop c.position = left)
    (hhead : left.head? ≠ some expected) :
    c.accept source expected = .ok (false, c) := by
  rw [accept, atEnd_eq h, peek_eq h]
  cases left with
  | nil => rfl
  | cons byte rest =>
      have hbyte : byte ≠ expected := fun heq => hhead (congrArg some heq)
      simp [hbyte, pure, Except.pure]

theorem range_eq {start stop : Nat} (h : start ≤ stop) (hstop : stop ≤ source.length) :
    range source start stop = .ok (slice source start stop) :=
  if_pos ⟨h, hstop⟩

/-- Bytes are skipped up to the first that fails a test which the end of the source fails too. -/
theorem skipWhile_eq {counting : Bool} {condition : Cursor → Bool} {test : UInt8 → Bool}
    (hcondition : ∀ c : Cursor, condition c = (source.drop c.position).head?.any test)
    (hcounting : counting = true ∨ test newline = false) (h : source.drop c.position = left) :
    c.skipWhile source counting condition = .ok (c.past (left.takeWhile test)) := by
  induction left generalizing c with
  | nil =>
      rw [skipWhile, hcondition, h]
      rfl
  | cons byte rest ih =>
      rw [skipWhile, hcondition, h, List.head?_cons, Option.any_some]
      by_cases hbyte : test byte
      · have hmoved :
            ({ c with
              position := c.position + 1,
              line := if counting && byte == newline then c.line + 1 else c.line } : Cursor) =
            c.past [byte] := by
          by_cases hline : byte = newline
          · rw [hline] at hbyte ⊢
            rw [hcounting.resolve_right (by simp [hbyte])]
            rfl
          · rw [past_of_ne hline]
            simp [hline]
        have hrest : source.drop (c.past [byte]).position = rest := drop_past h
        rw [if_pos hbyte, List.takeWhile_cons_of_pos hbyte]
        split
        next other hother =>
          obtain rfl : byte = other := by simpa [getElem?_position h] using hother
          rw [hmoved, ih hrest, past_past, List.singleton_append]
        next hnone => simp [getElem?_position h] at hnone
      · rw [if_neg hbyte, List.takeWhile_cons_of_neg hbyte]
        rfl

/-! ### Comments -/

/-- One step within a comment. -/
theorem blockComment_cons (depth : Nat) (h : source.drop c.position = byte :: rest) :
    c.blockComment source depth =
      if byte = star ∧ rest.head? = some slash then
        if depth ≤ 1 then .ok (none, c.past [star, slash])
        else (c.past [star, slash]).blockComment source (depth - 1)
      else if byte = slash ∧ rest.head? = some star then
        (c.past [slash, star]).blockComment source (depth + 1)
      else (c.past [byte]).blockComment source depth := by
  have hrest : source.drop (c.past [byte]).position = rest := drop_past h
  rw [blockComment]
  split
  next hnone => simp [getElem?_position h] at hnone
  next other hother =>
    obtain rfl : byte = other := by simpa [getElem?_position h] using hother
    dsimp only
    by_cases hnewline : byte = newline
    · subst hnewline
      rfl
    rw [if_neg hnewline, ← past_of_ne hnewline]
    -- The next byte is taken too if both make a delimiter.
    have hahead : ∀ {expected : UInt8}, expected ≠ newline →
        (c.past [byte]).accept source expected =
          if rest.head? = some expected then .ok (true, c.past [byte, expected])
          else .ok (false, c.past [byte]) := by
      intro expected hexpected
      split
      next hhead =>
        obtain ⟨tail, rfl⟩ := List.head?_eq_some_iff.1 hhead
        rw [accept_of_head hrest hexpected, past_past, List.singleton_append]
      next hhead => exact accept_of_ne hrest hhead
    have hclose := hahead (show slash ≠ newline by decide)
    have hopen := hahead (show star ≠ newline by decide)
    by_cases hstar : byte = star
    · subst hstar
      rw [if_pos rfl]
      by_cases hhead : rest.head? = some slash
      · rw [if_pos hhead] at hclose
        rw [if_pos (c := _ ∧ _) ⟨rfl, hhead⟩]
        split <;> rename_i haccept <;> cases hclose.symm.trans haccept
        rfl
      · rw [if_neg hhead] at hclose
        rw [if_neg (c := _ ∧ _) fun hboth => hhead hboth.2, if_neg (c := _ ∧ _) fun hboth =>
          absurd hboth.1 (by decide)]
        split <;> rename_i haccept <;> cases hclose.symm.trans haccept
        rfl
    rw [if_neg hstar, if_neg (c := byte = star ∧ _) fun hboth => hstar hboth.1]
    by_cases hslash : byte = slash
    · subst hslash
      rw [if_pos rfl]
      by_cases hhead : rest.head? = some star
      · rw [if_pos hhead] at hopen
        rw [if_pos (c := _ ∧ _) ⟨rfl, hhead⟩]
        split <;> rename_i haccept <;> cases hopen.symm.trans haccept
        rfl
      · rw [if_neg hhead] at hopen
        rw [if_neg (c := _ ∧ _) fun hboth => hhead hboth.2]
        split <;> rename_i haccept <;> cases hopen.symm.trans haccept
        rfl
    rw [if_neg hslash, if_neg fun hboth => hslash hboth.1]

theorem blockComment_close (depth : Nat) (h : source.drop c.position = star :: slash :: rest) :
    c.blockComment source depth =
      if depth ≤ 1 then .ok (none, c.past [star, slash])
      else (c.past [star, slash]).blockComment source (depth - 1) := by
  rw [blockComment_cons depth h, if_pos ⟨rfl, rfl⟩]

theorem blockComment_open (depth : Nat) (h : source.drop c.position = slash :: star :: rest) :
    c.blockComment source depth = (c.past [slash, star]).blockComment source (depth + 1) := by
  rw [blockComment_cons depth h, if_neg (fun hboth => absurd hboth.1 (by decide)),
    if_pos ⟨rfl, rfl⟩]

/-- Comments are left where they were computed to end. -/
theorem blockComment_eq {depth : Nat} (h : source.drop c.position = left) :
    c.blockComment source depth = .ok (match commentLength depth left with
      | some length => (none, c.past (left.take length))
      | none => (some .unclosedComment, c.past left)) := by
  induction depth, left using commentLength.induct generalizing c with
  | case1 depth =>
      rw [blockComment, commentLength]
      split
      next => rfl
      next byte hbyte => simp [getElem?_position h] at hbyte
  | case2 depth rest hone =>
      rw [blockComment_close depth h, commentLength, if_pos hone, if_pos hone]
      rfl
  | case3 depth rest hmore ih =>
      have hrest : source.drop (c.past [star, slash]).position = rest := drop_past h
      rw [blockComment_close depth h, commentLength, if_neg hmore, if_neg hmore, ih hrest]
      cases commentLength (depth - 1) rest <;> simp only [past_past, Option.map_some,
        Option.map_none] <;> rfl
  | case4 depth rest ih =>
      have hrest : source.drop (c.past [slash, star]).position = rest := drop_past h
      rw [blockComment_open depth h, commentLength, ih hrest]
      cases commentLength (depth + 1) rest <;> simp only [past_past, Option.map_some,
        Option.map_none] <;> rfl
  | case5 depth byte rest hclose hopen ih =>
      have hrest : source.drop (c.past [byte]).position = rest := drop_past h
      rw [blockComment_cons depth h, if_neg ?_, if_neg ?_,
        commentLength.eq_4 _ _ _ hclose hopen, ih hrest]
      · cases commentLength depth rest <;> simp only [past_past, Option.map_some,
          Option.map_none] <;> rfl
      · rintro ⟨hbyte, hhead⟩
        obtain ⟨more, hmore⟩ := List.head?_eq_some_iff.1 hhead
        exact hopen more hbyte hmore
      · rintro ⟨hbyte, hhead⟩
        obtain ⟨more, hmore⟩ := List.head?_eq_some_iff.1 hhead
        exact hclose more hbyte hmore

/-! ### Pieces -/

/-- A cursor that has taken the first byte of a piece. -/
structure Begun (source : Source) (first : UInt8) (rest : List UInt8) (c : Cursor) : Prop where
  position : c.position = c.start + 1
  drop : source.drop c.start = first :: rest

variable {first : UInt8}

theorem Begun.drop_position (h : c.Begun source first rest) : source.drop c.position = rest := by
  rw [h.position, ← List.drop_drop, h.drop]
  rfl

theorem Begun.length_eq (h : c.Begun source first rest) :
    source.length = c.start + 1 + rest.length := by
  have hlength := congrArg List.length h.drop
  rw [List.length_drop, List.length_cons] at hlength
  omega

/-- The bytes of a piece are in range. -/
theorem Begun.range_eq (h : c.Begun source first rest) {extra : Nat}
    (hextra : extra ≤ rest.length) :
    range source c.start (c.past (rest.take extra)).position = .ok (first :: rest.take extra) := by
  have hposition : (c.past (rest.take extra)).position = c.start + 1 + extra := by
    rw [past, h.position, List.length_take, Nat.min_eq_left hextra]
  have hlength := h.length_eq
  rw [hposition, Cursor.range_eq (by omega) (by omega), (slice_cons h.drop extra).1]

/-- What a finding comes to before its text is looked at. -/
def outcome : Option Finding → Outcome
  | none => .nothing
  | some (.token kind _) => .token kind
  | some (.error cause) => .error cause

theorem skipDigits_eq (h : source.drop c.position = left) :
    c.skipDigits source = .ok (c.past (left.takeWhile isDigit)) := by
  refine skipWhile_eq (fun c => ?_) (.inr (by decide)) h
  rw [peek_eq rfl]
  cases (source.drop c.position).head? <;> rfl

theorem skipNumber_eq (h : source.drop c.position = rest) :
    c.skipNumber source = .ok (c.past (rest.take (munchNumber rest).extra)) := by
  have hpoint : ¬ point = newline := by decide
  simp only [skipNumber, skipDigits_eq h, bind, Except.bind, pure, Except.pure]
  rcases run_cases isDigit rest with hall | ⟨whole, byte, after, hwhole, hbyte, rfl⟩
  · have hend : source.drop (c.past rest).position = [] := drop_past (by rw [h, List.append_nil])
    rw [munchNumber_of_digits hall, List.takeWhile_eq_self_iff.2 hall,
      List.take_length, peek_eq hend]
    rfl
  · have hleft : source.drop (c.past whole).position = byte :: after := drop_past h
    have hwholeTaken : (whole ++ byte :: after).takeWhile isDigit = whole := by
      rw [List.takeWhile_append_of_pos hwhole, List.takeWhile_cons_of_neg (by simp [hbyte]),
        List.append_nil]
    rw [hwholeTaken, peek_eq hleft, peekNext_eq hleft]
    rcases munchNumber_append_cons hwhole hbyte after with
      ⟨digit, more, rfl, rfl, hdigit, hmunch⟩ | ⟨hnot, hmunch⟩
    · have hafter : source.drop ((c.past whole).past [point]).position = digit :: more :=
        drop_past hleft
      have htaken : (whole ++ point :: digit :: more).take (whole.length + 2 + run isDigit more) =
          whole ++ ([point] ++ digit :: more.take (run isDigit more)) := by
        rw [Nat.add_assoc, List.take_length_add_append, Nat.add_comm 2]
        simp
      rw [if_pos (by simp [hdigit]), advance_eq hleft, ← past_of_ne hpoint]
      dsimp only
      rw [skipDigits_eq hafter, past_past, past_past, hmunch, List.takeWhile_cons_of_pos hdigit,
        ← take_run, htaken]
    · rw [hmunch, List.take_left, if_neg]
      intro hboth
      simp only [List.head?_cons, Option.getD_some, List.tail_cons, Bool.and_eq_true,
        beq_iff_eq] at hboth
      cases after with
      | nil => exact absurd hboth.2 (by decide)
      | cons digit more => exact hnot ⟨hboth.1, digit, more, rfl, hboth.2⟩

theorem scanNumber_eq (h : c.Begun source first rest) (hfirst : isDigit first) :
    c.scanNumber source = .ok
      (outcome (findingOf (munchNumber rest).shape (first :: rest.take (munchNumber rest).extra)),
      c.past (rest.take (munchNumber rest).extra)) := by
  obtain ⟨hextra, hdescribes⟩ := fits_munchNumber hfirst rest
  have hshape : (munchNumber rest).shape = .number := by
    unfold munchNumber
    dsimp only
    split
    · split <;> rfl
    · rfl
  rw [hshape] at hdescribes ⊢
  obtain ⟨lexeme, hlexeme, hvalue⟩ := hdescribes.1.exists_text
  simp only [scanNumber, skipNumber_eq h.drop_position, bind, Except.bind]
  rw [show (c.past (rest.take (munchNumber rest).extra)).start = c.start from rfl,
    h.range_eq hextra]
  simp only [hlexeme, hvalue, findingOf, Shape.finding?, outcome]
  rfl

theorem scanWord_eq (h : c.Begun source first rest) (hfirst : isLetter first) :
    c.scanWord source = .ok (outcome (findingOf .word (first :: rest.take (run isWordByte rest))),
      c.past (rest.take (run isWordByte rest))) := by
  obtain ⟨hextra, hdescribes⟩ := fits_munchWord hfirst rest
  obtain ⟨lexeme, hlexeme⟩ := hdescribes.1.exists_text
  have hskip : c.skipWhile source false (fun c => isWordByte (c.peek source)) =
      .ok (c.past (rest.take (run isWordByte rest))) := by
    rw [take_run]
    refine skipWhile_eq (fun c => ?_) (.inr (by decide)) h.drop_position
    rw [peek_eq rfl]
    cases (source.drop c.position).head? <;> rfl
  have hfind : (Keyword.all.find? fun k => Utf8.encode k.text =
      first :: rest.take (run isWordByte rest)) = Keyword.ofText? lexeme := by
    rw [Keyword.ofText?]
    congr 1
    funext k
    rw [← Utf8.decode?_eq_some_iff.1 hlexeme]
    exact decide_eq_decide.2 Utf8.encode_injective.eq_iff
  simp only [scanWord, hskip, bind, Except.bind]
  rw [show (c.past (rest.take (run isWordByte rest))).start = c.start from rfl, h.range_eq hextra]
  simp only [hfind, findingOf, hlexeme, Shape.finding?, wordKind, outcome]
  cases Keyword.ofText? lexeme <;> rfl

theorem scanString_eq (h : c.Begun source quote rest) :
    c.scanString source = .ok
      (outcome (findingOf (munchString rest).shape (quote :: rest.take (munchString rest).extra)),
      c.past (rest.take (munchString rest).extra)) := by
  have hskip : c.skipWhile source true (fun c => !c.atEnd source && c.peek source != quote) =
      .ok (c.past (rest.takeWhile (· != quote))) := by
    refine skipWhile_eq (fun c => ?_) (.inl rfl) h.drop_position
    rw [atEnd_eq rfl, peek_eq rfl]
    cases source.drop c.position <;> rfl
  simp only [scanString, hskip, bind, Except.bind, pure, Except.pure]
  rcases run_cases (· != quote) rest with hall | ⟨contents, byte, after, hcontents, hbyte, rfl⟩
  · have hend : source.drop (c.past rest).position = [] :=
      drop_past (by rw [h.drop_position, List.append_nil])
    rw [List.takeWhile_eq_self_iff.2 hall, atEnd_eq hend, munchString_unclosed hall,
      List.take_length]
    rfl
  · obtain rfl : byte = quote := by simpa using hbyte
    have htaken : (contents ++ quote :: after).takeWhile (· != quote) = contents := by
      rw [List.takeWhile_append_of_pos hcontents, List.takeWhile_cons_of_neg (by decide),
        List.append_nil]
    have hleft : source.drop (c.past contents).position = quote :: after :=
      drop_past h.drop_position
    have hpiece : (contents ++ quote :: after).take (contents.length + 1) =
        contents ++ [quote] := by
      rw [List.take_length_add_append]
      rfl
    have hclosed : ({ c.past contents with position := (c.past contents).position + 1 } : Cursor) =
        c.past (contents ++ [quote]) := by
      rw [← past_of_ne (show quote ≠ newline by decide), past_past]
    have hrange : range source (c.start + 1) (c.position + contents.length) = .ok contents := by
      have hlength := h.length_eq
      rw [List.length_append, List.length_cons] at hlength
      rw [h.position, range_eq (by omega) (by omega), slice, ← h.position, h.drop_position,
        Nat.add_sub_cancel_left, List.take_left]
    rw [htaken, atEnd_eq hleft, munchString_closed hcontents, hpiece, advance_eq hleft, hclosed]
    have hinside : (c.past (contents ++ [quote])).position - 1 = c.position + contents.length := by
      simp [past]
    dsimp only
    rw [show (c.past (contents ++ [quote])).start = c.start from rfl, hinside, hrange]
    simp only [findingOf, decode?_quoted, List.isEmpty_cons, Bool.false_eq_true, if_false]
    cases Utf8.decode? contents with
    | none => rfl
    | some text => simp only [Option.map_some, Shape.finding?, unquote_quoted, outcome]

theorem outcome_symbol {symbol : Symbol} (hbytes : Utf8.encode symbol.text = bytes) :
    outcome (findingOf (.symbol symbol) bytes) = .token (.symbol symbol) := by
  simp only [findingOf, ← hbytes, Utf8.decode?_encode, Shape.finding?, outcome]

theorem scanSlash_eq (h : c.Begun source slash rest) :
    c.scanSlash source =
      .ok (outcome (findingOf (munchSlash rest).shape (slash :: rest.take (munchSlash rest).extra)),
      c.past (rest.take (munchSlash rest).extra)) := by
  have hleft := h.drop_position
  by_cases hslash : rest.head? = some slash
  · obtain ⟨tail, rfl⟩ := List.head?_eq_some_iff.1 hslash
    have hrange : range source (c.past [slash]).position source.length = .ok tail := by
      rw [range_eq ?_ (Nat.le_refl _), slice_length, drop_past hleft]
      rw [past, h.position, h.length_eq]
      simp
    have hmoved :
        ({ c.past [slash] with position := (c.past [slash]).position + run (· != newline) tail } :
          Cursor) =
        c.past (slash :: tail.take (run (· != newline) tail)) := by
      have hnone : newline ∉ tail.take (run (· != newline) tail) := fun hmem => by
        simpa using forall_mem_take_run (· != newline) tail newline hmem
      have hlength : (tail.take (run (· != newline) tail)).length = run (· != newline) tail := by
        rw [List.length_take, Nat.min_eq_left (run_le _ _)]
      simp only [past, List.length_cons, List.length_nil, hlength, List.count_cons, List.count_nil,
        List.count_eq_zero.2 hnone]
      congr 1
      omega
    rw [munchSlash_line, Nat.add_comm, List.take_succ_cons]
    simp only [scanSlash, accept_of_head hleft (show slash ≠ newline by decide), hrange, hmoved,
      bind, Except.bind, pure, Except.pure, if_true]
    rfl
  by_cases hstar : rest.head? = some star
  · obtain ⟨tail, rfl⟩ := List.head?_eq_some_iff.1 hstar
    have htail : source.drop (c.past [star]).position = tail := drop_past hleft
    simp only [scanSlash, accept_of_ne hleft hslash,
      accept_of_head hleft (show star ≠ newline by decide), blockComment_eq htail,
      bind, Except.bind, pure, Except.pure, if_true, Bool.false_eq_true, if_false, munchSlash_block]
    cases hlength : commentLength 1 tail with
    | some length =>
        simp only [past_past, Nat.add_comm 1, List.take_succ_cons]
        rfl
    | none =>
        simp only [past_past, Nat.add_comm 1, List.take_succ_cons, List.take_length]
        rfl
  · simp only [scanSlash, accept_of_ne hleft hslash, accept_of_ne hleft hstar, bind, Except.bind,
      pure, Except.pure, Bool.false_eq_true, if_false]
    rw [munchSlash_other hslash hstar, List.take_zero, past_nil,
      outcome_symbol (show Utf8.encode Symbol.slash.text = [slash] from rfl)]

theorem scanSymbol_eq {symbol : Symbol} (h : c.Begun source first rest)
    (hsymbol : Symbol.ofChar? (Char.ofUInt8 first) = some symbol) :
    c.scanSymbol source first = .ok
      (outcome (findingOf (munchSymbol symbol rest).shape
        (first :: rest.take (munchSymbol symbol rest).extra)),
      c.past (rest.take (munchSymbol symbol rest).extra)) := by
  have hleft := h.drop_position
  have hbytes := encode_text_of_ofChar? hsymbol
  simp only [scanSymbol, hsymbol]
  cases hlonger : symbol.withEqual? with
  | none =>
      have hmunch : munchSymbol symbol rest = ⟨.symbol symbol, 0⟩ := by
        simp only [munchSymbol, hlonger]
      rw [hmunch, List.take_zero, past_nil, outcome_symbol hbytes]
      rfl
  | some longer =>
      by_cases hequal : rest.head? = some equalSign
      · obtain ⟨tail, rfl⟩ := List.head?_eq_some_iff.1 hequal
        have hmunch : munchSymbol symbol (equalSign :: tail) = ⟨.symbol longer, 1⟩ := by
          rw [munchSymbol_eq, hlonger]
          exact if_pos rfl
        have hboth : Utf8.encode longer.text = [first, equalSign] := by
          rw [encode_text_of_withEqual? hlonger, hbytes]
          rfl
        simp only [accept_of_head hleft (show equalSign ≠ newline by decide), bind, Except.bind,
          pure, Except.pure, if_true, hmunch,
          List.take_succ_cons, List.take_zero, outcome_symbol hboth]
      · have hmunch : munchSymbol symbol rest = ⟨.symbol symbol, 0⟩ := by
          rw [munchSymbol_eq, hlonger]
          exact if_neg hequal
        simp only [accept_of_ne hleft hequal, bind, Except.bind, pure, Except.pure,
          Bool.false_eq_true, if_false, hmunch, List.take_zero,
          past_nil, outcome_symbol hbytes]

/-- One piece is read as it is munched. -/
theorem scanToken_eq (hstart : c.start = c.position) (h : source.drop c.position = first :: rest) :
    c.scanToken source = .ok
      (outcome (findingOf (munch first rest).shape (first :: rest.take (munch first rest).extra)),
      c.past (first :: rest.take (munch first rest).extra)) := by
  have hpast : ∀ bytes, c.past (first :: bytes) = (c.past [first]).past bytes :=
    fun bytes => (past_past c [first] bytes).symm
  have hbegun : (c.past [first]).Begun source first rest :=
    ⟨by rw [past, ← hstart]; rfl, hstart ▸ h⟩
  simp only [scanToken, advance_eq h, bind, Except.bind, pure, Except.pure]
  by_cases hnewline : first = newline
  · subst hnewline
    rfl
  rw [if_neg hnewline, hpast, ← past_of_ne hnewline, munch]
  by_cases hblank : isBlank first = true
  · rw [if_pos hblank, if_pos hblank]
    rfl
  rw [if_neg hblank, if_neg hblank]
  by_cases hdigit : isDigit first = true
  · rw [if_pos hdigit, if_pos hdigit]
    exact scanNumber_eq hbegun hdigit
  rw [if_neg hdigit, if_neg hdigit]
  by_cases hletter : isLetter first = true
  · rw [if_pos hletter, if_pos hletter]
    exact scanWord_eq hbegun hletter
  rw [if_neg hletter, if_neg hletter]
  by_cases hquote : first = quote
  · subst hquote
    rw [if_pos rfl, if_pos rfl]
    exact scanString_eq hbegun
  rw [if_neg hquote, if_neg hquote]
  by_cases hslash : first = slash
  · subst hslash
    rw [if_pos rfl, if_pos rfl]
    exact scanSlash_eq hbegun
  rw [if_neg hslash, if_neg hslash]
  by_cases hstar : first = star
  · subst hstar
    have hleft := hbegun.drop_position
    rw [if_pos rfl]
    by_cases hstray : rest.head? = some slash
    · obtain ⟨tail, rfl⟩ := List.head?_eq_some_iff.1 hstray
      rw [if_pos (c := _ ∧ _) ⟨rfl, hstray⟩, accept_of_head hleft (by decide)]
      rfl
    · have hmunch : munchSymbol .star rest = ⟨.symbol .star, 0⟩ := rfl
      have hsymbol : Symbol.ofChar? (Char.ofUInt8 star) = some .star := rfl
      rw [if_neg (c := _ ∧ _) fun hboth => hstray hboth.2, accept_of_ne hleft hstray, hsymbol]
      dsimp only
      rw [hmunch, List.take_zero, past_nil,
        outcome_symbol (show Utf8.encode Symbol.star.text = [star] from rfl)]
      rfl
  rw [if_neg hstar, if_neg fun hboth => hstar hboth.1]
  cases hsymbol : Symbol.ofChar? (Char.ofUInt8 first) with
  | some symbol => exact scanSymbol_eq hbegun hsymbol
  | none =>
      rw [scanSymbol, hsymbol]
      rfl

/-! ### Items -/

/-- The items that are still to come. -/
def upcoming (source : Source) (c : Cursor) : List Item :=
  if c.position ≤ source.length then
    itemsFrom source.length c.position c.line (source.drop c.position) else []

theorem upcoming_of_lt (h : source.length < c.position) : c.upcoming source = [] :=
  if_neg (Nat.not_le_of_lt h)

theorem upcoming_of_end (h : c.position = source.length) :
    c.upcoming source = [endAt c.position c.line] := by
  rw [upcoming, if_pos (Nat.le_of_eq h), h, List.drop_length]
  cases source.length <;> rfl

/-- The cursor after a piece is within the source. -/
theorem past_piece (h : source.drop c.position = first :: rest)
    (hbytes : bytes = first :: rest.take (munch first rest).extra) :
    (c.past bytes).position = c.position + 1 + (munch first rest).extra ∧
      (c.past bytes).position ≤ source.length ∧
      slice source c.position (c.past bytes).position = bytes ∧
      source.drop (c.past bytes).position = rest.drop (munch first rest).extra := by
  have hextra := (fits_munch first rest).1
  have hlength := congrArg List.length h
  rw [List.length_drop, List.length_cons] at hlength
  have hposition : (c.past bytes).position = c.position + 1 + (munch first rest).extra := by
    show c.position + bytes.length = _
    rw [hbytes, List.length_cons, List.length_take, Nat.min_eq_left hextra]
    omega
  obtain ⟨hslice, hdrop⟩ := slice_cons h (munch first rest).extra
  rw [hposition, hslice, hbytes, hdrop]
  exact ⟨rfl, by omega, rfl, rfl⟩

/-- A piece makes at most one item, and the others come after it. -/
theorem upcoming_cons (h : source.drop c.position = first :: rest)
    (hbytes : bytes = first :: rest.take (munch first rest).extra) :
    c.upcoming source = ((findingOf (munch first rest).shape bytes).map fun finding =>
      (⟨c.position, (c.past bytes).position, (c.past bytes).line, finding⟩ : Item)).toList ++
        (c.past bytes).upcoming source := by
  obtain ⟨hposition, hle, -, hdrop⟩ := past_piece h hbytes
  have hlength := congrArg List.length h
  rw [List.length_drop, List.length_cons] at hlength
  obtain ⟨bound, hbound⟩ : ∃ bound, source.length = bound + 1 := ⟨source.length - 1, by omega⟩
  have hline : (c.past bytes).line = c.line + bytes.count newline := rfl
  rw [upcoming, if_pos (by omega), h, hbound, itemsFrom_cons bound c.position c.line rfl, ← hbytes,
    upcoming, if_pos hle, hdrop, hposition,
    hline, hbound]
  congr 1
  apply itemsFrom_of_le <;> rw [List.length_drop] <;> omega

/-- The next item is the first of those to come, and leaves the others. -/
theorem next_eq (source : Source) (c : Cursor) :
    ∃ after, c.next source = .ok ((c.upcoming source).head?, after) ∧
      after.upcoming source = (c.upcoming source).tail := by
  induction hleft : source.length + 1 - c.position using Nat.strongRecOn generalizing c with
  | _ remaining ih =>
      rw [next]
      by_cases hpast : source.length < c.position
      · rw [if_pos hpast, upcoming_of_lt hpast]
        exact ⟨c, rfl, upcoming_of_lt hpast⟩
      rw [if_neg hpast]
      by_cases hend : c.position = source.length
      · rw [if_pos hend, upcoming_of_end hend]
        exact ⟨_, rfl, upcoming_of_lt (by rw [← hend]; exact Nat.lt_succ_self _)⟩
      rw [if_neg hend]
      obtain ⟨first, rest, hdrop⟩ : ∃ first rest, source.drop c.position = first :: rest :=
        List.exists_cons_of_ne_nil fun hnil => by
          have := List.drop_eq_nil_iff.1 hnil
          omega
      obtain ⟨bytes, hbytes⟩ :
          ∃ bytes, bytes = first :: rest.take (munch first rest).extra := ⟨_, rfl⟩
      have hscan : ({ c with start := c.position } : Cursor).scanToken source =
          .ok (outcome (findingOf (munch first rest).shape bytes),
            { c.past bytes with start := c.position }) := by
        rw [hbytes]
        exact scanToken_eq rfl hdrop
      obtain ⟨hposition, hle, hslice, -⟩ := past_piece hdrop hbytes
      have hlonger : c.position < (c.past bytes).position := by omega
      obtain ⟨-, hdescribes⟩ := fits_munch first rest
      rw [← hbytes] at hdescribes
      rw [hscan, upcoming_cons hdrop hbytes]
      rcases findingOf_cases hdescribes with ⟨hnone, -⟩ | ⟨finding, hsome, hfinding⟩
      · rw [hnone]
        dsimp only [outcome]
        rw [if_pos hlonger]
        exact ih _ (by show source.length + 1 - (c.past bytes).position < _; omega)
          { c.past bytes with start := c.position } rfl
      · rw [hsome]
        cases finding with
        | error cause => exact ⟨{ c.past bytes with start := c.position }, rfl, rfl⟩
        | token kind lexeme =>
            have hrange : range source c.position (c.past bytes).position = .ok bytes := by
              rw [range_eq (Nat.le_of_lt hlonger) hle, hslice]
            have hlexeme : Utf8.decode? bytes = some lexeme := Utf8.decode?_eq_some_iff.2 hfinding.1
            refine ⟨{ c.past bytes with start := c.position }, ?_, rfl⟩
            simp only [outcome, hrange, hlexeme, bind, Except.bind]
            rfl

theorem answer_eq (source : Source) (c : Cursor) (asked : Nat) :
    c.answer source asked = .ok (c.upcoming source)[asked]? := by
  induction asked generalizing c with
  | zero =>
      obtain ⟨after, hnext, -⟩ := next_eq source c
      rw [answer, hnext, List.head?_eq_getElem?]
      rfl
  | succ asked ih =>
      obtain ⟨after, hnext, hafter⟩ := next_eq source c
      rw [answer, hnext]
      show answer source after asked = _
      rw [ih, hafter, List.getElem?_tail]

end Cursor

/-- The items of a scan cover the source. The end of the source comes last and only there. All
others stand for spans one after another: a token for its lexeme, the longest of its class from
there on, and a fault for one unexpected byte, a stray end of a comment, a string that is not text,
or a string or comment that is left open; between them there are only blanks and comments. A scanner
that goes through the source with a cursor yields the same items one by one and then nothing, and
never makes a misstep. -/
theorem items_cover_source (source : Source) :
    (∃ front line, scan source = front ++ [endAt source.length line] ∧
      front.Pairwise (fun item later => item.stop ≤ later.start) ∧
      ∀ item ∈ front, item.start < item.stop ∧ item.stop ≤ source.length ∧
        item.finding.Describes (slice source item.start item.stop) (source.drop item.stop)) ∧
    (∀ before item after, scan source = before ++ item :: after →
      Gap (source.drop item.start)
      (slice source ((before.getLast?.map (·.stop)).getD 0) item.start)) ∧
    ∀ asked, Cursor.answer source {} asked = .ok (scan source)[asked]? := by
  have hcovers := covers_scan source
  refine ⟨?_, fun before item after hitems => hcovers.gap hitems, fun asked => ?_⟩
  · obtain ⟨front, line, hfront, hpairs, hitems⟩ := hcovers.exists_front
    exact ⟨front, line, hfront, hpairs, fun item hitem => (hitems item hitem).2⟩
  · rw [Cursor.answer_eq]
    have hupcoming : Cursor.upcoming source {} = scan source := if_pos (Nat.zero_le _)
    rw [hupcoming]

end TraitScript.Scan
