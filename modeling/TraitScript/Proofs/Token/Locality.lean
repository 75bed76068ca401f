import Mathlib.Data.List.TakeWhile
import TraitScript.Token.Scan

/-!
# Pieces and what follows them

How far a piece reaches is settled by its own bytes and a little of what comes next. A blank settles
it for all pieces but three: a line comment goes on up to a line break, and an open string or
comment up to the end. So what follows a piece can be exchanged for anything that begins with a
blank, or for nothing.
-/

namespace TraitScript.Scan

/-- Nothing comes next, or a blank. -/
def BlankAhead (after : List UInt8) : Prop := ∀ byte, after.head? = some byte → isBlank byte

theorem blankAhead_nil : BlankAhead [] := nofun

theorem blankAhead_cons {byte : UInt8} (h : isBlank byte) (rest : List UInt8) :
    BlankAhead (byte :: rest) := by
  intro first hfirst
  cases hfirst
  exact h

/-- That a piece ends before a blank: a line comment does only if the blank is a line break, an open
string or comment never. -/
def Shape.EndsBefore (bytes after : List UInt8) : Shape → Prop
  | .trivia => [slash, slash] <+: bytes → after.head? = some newline
  | .fault .unclosedComment | .fault .unclosedString => False
  | _ => True

section Exchange

variable {test : UInt8 → Bool} {front after after' : List UInt8}

/-! ### Runs -/

theorem run_le (test : UInt8 → Bool) (bytes : List UInt8) : run test bytes ≤ bytes.length :=
  (List.takeWhile_prefix test).length_le

theorem run_append (test : UInt8 → Bool) (front after : List UInt8) :
    run test (front ++ after) =
      if run test front = front.length then front.length + run test after else run test front := by
  unfold run
  rw [List.takeWhile_append]
  split
  · rw [List.length_append]
  · rfl

theorem run_eq_zero (h : ∀ byte, after.head? = some byte → test byte = false) :
    run test after = 0 := by
  cases after with
  | nil => rfl
  | cons byte rest => rw [run, List.takeWhile_cons_of_neg (by simp [h byte rfl]), List.length_nil]

/-- A run that ends early, or could go on only into what cannot go on with it. -/
theorem run_exchange (hle : run test (front ++ after) ≤ front.length)
    (hstop : run test (front ++ after) = front.length → run test after' = 0) :
    run test (front ++ after') = run test (front ++ after) := by
  have hfront := run_le test front
  rw [run_append] at hle hstop
  rw [run_append, run_append]
  split
  next hall =>
    rw [if_pos hall] at hle hstop
    have hafter : run test after = 0 := by omega
    rw [hstop (by omega), hafter]
  next => rfl

theorem not_isWordByte_of_isBlank {byte : UInt8} (h : isBlank byte) : isWordByte byte = false := by
  simp only [isBlank, Bool.or_eq_true, beq_iff_eq] at h
  rcases h with ((rfl | rfl) | rfl) | rfl <;> rfl

theorem not_isDigit_of_isBlank {byte : UInt8} (h : isBlank byte) : isDigit byte = false :=
  (Bool.or_eq_false_iff.1 (not_isWordByte_of_isBlank h)).2

theorem BlankAhead.run_isDigit (h : BlankAhead after) : run isDigit after = 0 :=
  run_eq_zero fun byte hbyte => not_isDigit_of_isBlank (h byte hbyte)

theorem BlankAhead.run_isWordByte (h : BlankAhead after) : run isWordByte after = 0 :=
  run_eq_zero fun byte hbyte => not_isWordByte_of_isBlank (h byte hbyte)

theorem BlankAhead.head?_ne {byte : UInt8} (h : BlankAhead after) (hbyte : isBlank byte = false) :
    after.head? ≠ some byte := by
  intro hhead
  rw [h byte hhead] at hbyte
  cases hbyte

/-! ### Comments -/

theorem bounds_of_commentLength {depth length : Nat} (h : commentLength depth front = some length) :
    2 ≤ length ∧ length ≤ front.length := by
  induction depth, front using commentLength.induct generalizing length with
  | case1 depth => rw [commentLength] at h; cases h
  | case2 depth rest hdepth =>
      rw [commentLength, if_pos hdepth] at h
      cases h
      simp
  | case3 depth rest hdepth ih =>
      rw [commentLength, if_neg hdepth] at h
      obtain ⟨length, hinner, rfl⟩ := Option.map_eq_some_iff.1 h
      have := ih hinner
      simp only [List.length_cons]
      omega
  | case4 depth rest ih =>
      rw [commentLength] at h
      obtain ⟨length, hinner, rfl⟩ := Option.map_eq_some_iff.1 h
      have := ih hinner
      simp only [List.length_cons]
      omega
  | case5 depth byte rest hclose hopen ih =>
      rw [commentLength.eq_4 _ _ _ hclose hopen] at h
      obtain ⟨length, hinner, rfl⟩ := Option.map_eq_some_iff.1 h
      have := ih hinner
      simp only [List.length_cons]
      omega

/-- A comment that is closed within `front` is closed there whatever follows. -/
theorem commentLength_exchange {depth length : Nat}
    (h : commentLength depth (front ++ after) = some length) (hle : length ≤ front.length) :
    commentLength depth (front ++ after') = some length := by
  have hbounds := bounds_of_commentLength h
  induction depth, front using commentLength.induct generalizing length with
  | case1 depth =>
      rw [List.length_nil] at hle
      omega
  | case2 depth rest hdepth =>
      simp only [List.cons_append] at h ⊢
      rw [commentLength, if_pos hdepth] at h ⊢
      exact h
  | case3 depth rest hdepth ih =>
      simp only [List.cons_append, List.length_cons] at h hle ⊢
      rw [commentLength, if_neg hdepth] at h ⊢
      obtain ⟨length, hinner, rfl⟩ := Option.map_eq_some_iff.1 h
      rw [ih hinner (by omega) (bounds_of_commentLength hinner)]
      rfl
  | case4 depth rest ih =>
      simp only [List.cons_append, List.length_cons] at h hle ⊢
      rw [commentLength] at h ⊢
      obtain ⟨length, hinner, rfl⟩ := Option.map_eq_some_iff.1 h
      rw [ih hinner (by omega) (bounds_of_commentLength hinner)]
      rfl
  | case5 depth byte rest hclose hopen ih =>
      -- A comment takes two bytes at least, so that whether the first two are a delimiter can be
      -- seen within `front`.
      rcases rest with _ | ⟨second, tail⟩
      · simp only [List.length_singleton] at hle
        omega
      · have hother : ∀ more, commentLength depth (byte :: second :: tail ++ more) =
            (commentLength depth (second :: tail ++ more)).map (· + 1) := by
          intro more
          refine commentLength.eq_4 _ _ _ (fun _ hbyte htail => ?_) (fun _ hbyte htail => ?_)
          · exact hclose tail hbyte (congrArg (· :: tail) (List.cons.inj htail).1)
          · exact hopen tail hbyte (congrArg (· :: tail) (List.cons.inj htail).1)
        rw [hother] at h ⊢
        obtain ⟨length, hinner, rfl⟩ := Option.map_eq_some_iff.1 h
        rw [ih hinner (by simp only [List.length_cons] at hle ⊢; omega)
          (bounds_of_commentLength hinner)]
        rfl

/-! ### Strings, numbers and symbols -/

theorem munchString_exchange {piece : Piece} (h : munchString (front ++ after) = piece)
    (hle : piece.extra ≤ front.length)
    (hends : piece.extra = front.length → piece.shape.EndsBefore (quote :: front) after') :
    munchString (front ++ after') = piece := by
  have hrun := run_le (· != quote) (front ++ after)
  unfold munchString at h ⊢
  dsimp only at h ⊢
  rw [List.length_append] at h hrun
  by_cases hopen : run (· != quote) (front ++ after) = front.length + after.length
  · rw [if_pos hopen] at h
    subst h
    simp only at hle hends
    exact (hends (by omega)).elim
  · rw [if_neg hopen] at h
    subst h
    simp only at hle
    have hshort : run (· != quote) (front ++ after) < front.length := by omega
    have hlonger : run (· != quote) (front ++ after) ≠ (front ++ after').length := by
      rw [List.length_append]
      omega
    rw [run_exchange (Nat.le_of_lt hshort) fun hall => absurd hall (Nat.ne_of_lt hshort),
      if_neg hlonger]

/-- How many bytes a point and the digits after it take. -/
def fractionLength : List UInt8 → Nat
  | byte :: digit :: after => if byte = point ∧ isDigit digit then 2 + run isDigit after else 0
  | _ => 0

theorem munchNumber_eq (bytes : List UInt8) :
    munchNumber bytes =
      ⟨.number, run isDigit bytes + fractionLength (bytes.drop (run isDigit bytes))⟩ := by
  unfold munchNumber
  dsimp only
  rcases bytes.drop (run isDigit bytes) with _ | ⟨byte, _ | ⟨digit, after⟩⟩
  · rfl
  · by_cases hpoint : byte = point
    · subst hpoint
      rfl
    · simp [fractionLength]
  · by_cases hpoint : byte = point
    · subst hpoint
      show (if isDigit digit then
          (⟨.number, run isDigit bytes + 2 + run isDigit after⟩ : Piece)
        else ⟨.number, run isDigit bytes⟩) = _
      by_cases hdigit : isDigit digit
      · rw [if_pos hdigit, fractionLength, if_pos ⟨rfl, hdigit⟩, Nat.add_assoc]
      · rw [if_neg hdigit, fractionLength, if_neg fun hboth => hdigit hboth.2, Nat.add_zero]
    · simp [fractionLength, hpoint]

theorem fractionLength_blankAhead (byte : UInt8) (h : BlankAhead after) :
    fractionLength (byte :: after) = 0 := by
  rcases after with _ | ⟨next, more⟩
  · rfl
  · have hnext : isDigit next = false := not_isDigit_of_isBlank (h next rfl)
    simp [fractionLength, hnext]

theorem fractionLength_exchange (hle : fractionLength (front ++ after) ≤ front.length)
    (hblank : BlankAhead after') :
    fractionLength (front ++ after') = fractionLength (front ++ after) := by
  rcases front with _ | ⟨byte, _ | ⟨digit, tail⟩⟩
  · -- Nothing is left of `front`: neither what came after it nor a blank is a fraction.
    rw [List.nil_append, List.nil_append]
    rw [List.nil_append, List.length_nil, Nat.le_zero] at hle
    rw [hle]
    rcases after' with _ | ⟨first, more⟩
    · rfl
    · have hpoint : first ≠ point :=
        fun heq => hblank.head?_ne (show isBlank point = false from rfl) (congrArg some heq)
      cases more <;> simp [fractionLength, hpoint]
  · have hnone : fractionLength ([byte] ++ after) = 0 := by
      rcases after with _ | ⟨digit, more⟩
      · rfl
      · simp only [List.singleton_append, fractionLength, List.length_singleton] at hle ⊢
        split at hle
        · omega
        · rw [if_neg (by assumption)]
    rw [hnone]
    exact fractionLength_blankAhead byte hblank
  · simp only [List.cons_append, fractionLength, List.length_cons] at hle ⊢
    split
    next hfraction =>
      rw [if_pos hfraction] at hle
      have hrun : run isDigit (tail ++ after') = run isDigit (tail ++ after) :=
        run_exchange (by omega) fun _ => hblank.run_isDigit
      rw [hrun]
    next => rfl

theorem munchNumber_exchange (hle : (munchNumber (front ++ after)).extra ≤ front.length)
    (hblank : BlankAhead after') :
    munchNumber (front ++ after') = munchNumber (front ++ after) := by
  rw [munchNumber_eq] at hle
  dsimp only at hle
  have hdigits : run isDigit (front ++ after') = run isDigit (front ++ after) :=
    run_exchange (by omega) fun _ => hblank.run_isDigit
  have hwhole : run isDigit (front ++ after) ≤ front.length := by omega
  rw [List.drop_append_of_le_length hwhole] at hle
  have hfraction : fractionLength (front.drop (run isDigit (front ++ after)) ++ after') =
      fractionLength (front.drop (run isDigit (front ++ after)) ++ after) :=
    fractionLength_exchange (by rw [List.length_drop]; omega) hblank
  rw [munchNumber_eq, munchNumber_eq, hdigits, List.drop_append_of_le_length hwhole,
    List.drop_append_of_le_length hwhole, hfraction]

theorem munchSymbol_eq (symbol : Symbol) (bytes : List UInt8) : munchSymbol symbol bytes =
    match symbol.withEqual? with
    | some longer =>
      if bytes.head? = some equalSign then ⟨.symbol longer, 1⟩ else ⟨.symbol symbol, 0⟩
    | none => ⟨.symbol symbol, 0⟩ := by
  unfold munchSymbol
  cases symbol.withEqual? with
  | none => rfl
  | some longer =>
      rcases bytes with _ | ⟨byte, tail⟩
      · rfl
      · by_cases hequal : byte = equalSign
        · subst hequal
          rfl
        · simp [hequal]

theorem munchSymbol_exchange {symbol : Symbol}
    (hle : (munchSymbol symbol (front ++ after)).extra ≤ front.length)
    (hblank : BlankAhead after') :
    munchSymbol symbol (front ++ after') = munchSymbol symbol (front ++ after) := by
  rw [munchSymbol_eq] at hle
  rw [munchSymbol_eq, munchSymbol_eq]
  cases hlonger : symbol.withEqual? with
  | none => rfl
  | some longer =>
      rw [hlonger] at hle
      rcases front with _ | ⟨byte, tail⟩
      · have hafter : after.head? ≠ some equalSign := by
          intro hhead
          simp [hhead] at hle
        have hafter' : after'.head? ≠ some equalSign := hblank.head?_ne rfl
        simp [hafter, hafter']
      · rfl

theorem munchSlash_line (bytes : List UInt8) :
    munchSlash (slash :: bytes) = ⟨.trivia, 1 + run (· != newline) bytes⟩ := rfl

theorem munchSlash_block (bytes : List UInt8) : munchSlash (star :: bytes) =
    match commentLength 1 bytes with
    | some length => ⟨.trivia, 1 + length⟩
    | none => ⟨.fault .unclosedComment, 1 + bytes.length⟩ := rfl

theorem munchSlash_other {bytes : List UInt8} (hslash : bytes.head? ≠ some slash)
    (hstar : bytes.head? ≠ some star) :
    munchSlash bytes = ⟨.symbol .slash, 0⟩ := by
  unfold munchSlash
  split
  next => exact (hslash rfl).elim
  next => exact (hstar rfl).elim
  next => rfl

theorem munchSlash_exchange {piece : Piece} (h : munchSlash (front ++ after) = piece)
    (hle : piece.extra ≤ front.length) (hblank : BlankAhead after')
    (hends : piece.extra = front.length → piece.shape.EndsBefore (slash :: front) after') :
    munchSlash (front ++ after') = piece := by
  rcases front with _ | ⟨byte, tail⟩
  · rw [List.nil_append] at h ⊢
    rw [List.length_nil] at hle
    rw [munchSlash_other (hblank.head?_ne rfl) (hblank.head?_ne rfl), ← h]
    refine (munchSlash_other (fun hhead => ?_) (fun hhead => ?_)).symm
    · obtain ⟨more, rfl⟩ := List.head?_eq_some_iff.1 hhead
      rw [munchSlash_line] at h
      subst h
      simp at hle
    · obtain ⟨more, rfl⟩ := List.head?_eq_some_iff.1 hhead
      rw [munchSlash_block] at h
      split at h <;> subst h <;> simp at hle
  rw [List.cons_append] at h ⊢
  rw [List.length_cons] at hle hends
  by_cases hslash : byte = slash
  · subst hslash
    rw [munchSlash_line] at h ⊢
    subst h
    dsimp only at hle hends
    have hrun : run (· != newline) (tail ++ after') = run (· != newline) (tail ++ after) := by
      refine run_exchange (by omega) fun hall => run_eq_zero fun first hfirst => ?_
      have hnewline : after'.head? = some newline := hends (by omega) ⟨tail, rfl⟩
      rw [hnewline] at hfirst
      cases hfirst
      rfl
    rw [hrun]
  by_cases hstar : byte = star
  · subst hstar
    rw [munchSlash_block] at h ⊢
    cases hlength : commentLength 1 (tail ++ after) with
    | none =>
        rw [hlength] at h
        subst h
        dsimp only [List.length_append] at hle hends
        exact (hends (by rw [List.length_append] at hle ⊢; omega)).elim
    | some length =>
        rw [hlength] at h
        subst h
        dsimp only at hle
        rw [commentLength_exchange hlength (by omega)]
  · have hother : ∀ more, munchSlash (byte :: more) = ⟨.symbol .slash, 0⟩ := fun more =>
      munchSlash_other (by simpa using hslash) (by simpa using hstar)
    rw [hother] at h ⊢
    exact h

/-! ### All pieces -/

/-- What follows a piece can be exchanged for what begins with a blank, if a piece that has nothing
else behind it ends before it. -/
theorem munch_exchange {first : UInt8} {piece : Piece} (h : munch first (front ++ after) = piece)
    (hle : piece.extra ≤ front.length) (hblank : BlankAhead after')
    (hends : piece.extra = front.length → piece.shape.EndsBefore (first :: front) after') :
    munch first (front ++ after') = piece := by
  unfold munch at h ⊢
  by_cases hisBlank : isBlank first
  · rwa [if_pos hisBlank] at h ⊢
  rw [if_neg hisBlank] at h ⊢
  by_cases hdigit : isDigit first
  · rw [if_pos hdigit] at h ⊢
    rw [← h] at hle ⊢
    exact munchNumber_exchange hle hblank
  rw [if_neg hdigit] at h ⊢
  by_cases hletter : isLetter first
  · rw [if_pos hletter] at h ⊢
    rw [← h] at hle ⊢
    rw [run_exchange hle fun _ => hblank.run_isWordByte]
  rw [if_neg hletter] at h ⊢
  by_cases hquote : first = quote
  · subst hquote
    rw [if_pos rfl] at h ⊢
    exact munchString_exchange h hle hends
  rw [if_neg hquote] at h ⊢
  by_cases hslash : first = slash
  · subst hslash
    rw [if_pos rfl] at h ⊢
    exact munchSlash_exchange h hle hblank hends
  rw [if_neg hslash] at h ⊢
  by_cases hstray : first = star ∧ (front ++ after).head? = some slash
  · rw [if_pos hstray] at h
    subst h
    obtain ⟨byte, tail, rfl⟩ := List.exists_cons_of_length_pos hle
    exact if_pos hstray
  · have hstray' : ¬ (first = star ∧ (front ++ after').head? = some slash) := by
      cases front with
      | nil => exact fun hboth => hblank.head?_ne rfl hboth.2
      | cons byte tail => exact hstray
    rw [if_neg hstray] at h
    rw [if_neg hstray']
    cases hsymbol : Symbol.ofChar? (Char.ofUInt8 first) with
    | some symbol =>
        rw [hsymbol] at h
        dsimp only at h
        rw [← h] at hle ⊢
        exact munchSymbol_exchange hle hblank
    | none =>
        rw [hsymbol] at h
        exact h

end Exchange

end TraitScript.Scan
