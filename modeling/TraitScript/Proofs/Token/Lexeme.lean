import TraitScript.Proofs.Token.Locality

/-!
# Lexical classes

What numbers, words, string literals, symbols and comments look like, said without reference to how
they are scanned, and that munching takes the longest piece of its class. A block comment goes up to
the delimiter that closes it when every delimiter that opens a comment inside is closed in turn; a
comment is left open exactly when no piece after its opening is of that form.
-/

namespace TraitScript.Scan

/-! ### Tokens -/

/-- Digits, and possibly a point and more digits. -/
def IsNumber (bytes : List UInt8) : Prop :=
  ∃ whole, whole ≠ [] ∧ (∀ byte ∈ whole, isDigit byte) ∧
    (bytes = whole ∨ ∃ fraction, fraction ≠ [] ∧ (∀ byte ∈ fraction, isDigit byte) ∧
      bytes = whole ++ point :: fraction)

/-- A letter or underscore, and letters, underscores and digits. -/
def IsWord (bytes : List UInt8) : Prop :=
  ∃ first rest, isLetter first ∧ (∀ byte ∈ rest, isWordByte byte) ∧ bytes = first :: rest

/-- Two quotes with none in between. -/
def IsString (bytes : List UInt8) : Prop :=
  ∃ contents, quote ∉ contents ∧ bytes = quote :: (contents ++ [quote])

def IsSymbol (bytes : List UInt8) : Prop := ∃ s : Symbol, bytes = Utf8.encode s.text

def IsToken (bytes : List UInt8) : Prop :=
  IsNumber bytes ∨ IsWord bytes ∨ IsString bytes ∨ IsSymbol bytes

/-- A byte that is no blank and with which no token starts. -/
def Unexpected (byte : UInt8) : Prop := isBlank byte = false ∧ ∀ rest, ¬ IsToken (byte :: rest)

/-- Bytes of a class, of which no longer piece from the same place on is of the class. -/
def Longest (IsIn : List UInt8 → Prop) (bytes after : List UInt8) : Prop :=
  IsIn bytes ∧ ∀ piece, piece <+: bytes ++ after → IsIn piece → piece.length ≤ bytes.length

/-! ### Comments -/

/-- What follows the opening of a block comment, with the delimiter that closes it. -/
inductive CommentRest : List UInt8 → Prop
  | close : CommentRest [star, slash]
  | nested {inner rest : List UInt8} : CommentRest inner → CommentRest rest →
      CommentRest (slash :: star :: (inner ++ rest))
  | other {byte : UInt8} {rest : List UInt8} :
      ¬ [star, slash] <+: byte :: rest → ¬ [slash, star] <+: byte :: rest → CommentRest rest →
      CommentRest (byte :: rest)

/-- A blank or a comment. A line comment goes on to the end of its line. -/
inductive Trivia (after : List UInt8) : List UInt8 → Prop
  | blank {byte : UInt8} : isBlank byte → Trivia after [byte]
  | lineComment {text : List UInt8} : newline ∉ text → after = [] ∨ after.head? = some newline →
      Trivia after (slash :: slash :: text)
  | blockComment {rest : List UInt8} : CommentRest rest → Trivia after (slash :: star :: rest)

/-- Blanks and comments one after another. -/
inductive Gap (after : List UInt8) : List UInt8 → Prop
  | nil : Gap after []
  | cons {piece rest : List UInt8} : Trivia (rest ++ after) piece → Gap after rest →
      Gap after (piece ++ rest)

/-- What a shape says of a piece and of what comes after it. -/
def Shape.Describes (bytes after : List UInt8) : Shape → Prop
  | .trivia => Trivia after bytes
  | .symbol s => bytes = Utf8.encode s.text ∧ Longest IsSymbol bytes after
  | .word => Longest IsWord bytes after
  | .number => Longest IsNumber bytes after
  | .string => Longest IsString bytes after
  | .fault (.unexpectedByte byte) => bytes = [byte] ∧ Unexpected byte
  | .fault .strayCommentEnd => bytes = [star, slash]
  | .fault .unclosedComment =>
    after = [] ∧ ∃ text, bytes = slash :: star :: text ∧ ∀ piece, piece <+: text →
      ¬ CommentRest piece
  | .fault .unclosedString => after = [] ∧ ∃ text, bytes = quote :: text ∧ quote ∉ text
  | .fault .notUtf8 => False

/-! ### Runs -/

section Runs

variable {bytes piece : List UInt8}

theorem take_run (test : UInt8 → Bool) (bytes : List UInt8) :
    bytes.take (run test bytes) = bytes.takeWhile test :=
  (List.prefix_iff_eq_take.1 (List.takeWhile_prefix test)).symm

theorem forall_mem_take_run (test : UInt8 → Bool) (bytes : List UInt8) :
    ∀ byte ∈ bytes.take (run test bytes), test byte := by
  intro byte hbyte
  rw [take_run] at hbyte
  exact List.mem_takeWhile_imp hbyte

/-- Bytes at the front that satisfy a test are within the run. -/
theorem length_le_run {test : UInt8 → Bool} (hpiece : piece <+: bytes)
    (htest : ∀ byte ∈ piece, test byte) : piece.length ≤ run test bytes := by
  obtain ⟨rest, rfl⟩ := hpiece
  rw [run, List.takeWhile_append_of_pos htest, List.length_append]
  exact Nat.le_add_right _ _

theorem run_eq_length {test : UInt8 → Bool} (htest : ∀ byte ∈ bytes, test byte) :
    run test bytes = bytes.length := by
  rw [run, List.takeWhile_eq_self_iff.2 htest]

/-- A run ends at a byte that fails the test. -/
theorem run_append_cons {test : UInt8 → Bool} {byte : UInt8} (htest : ∀ byte ∈ piece, test byte)
    (hbyte : test byte = false) (rest : List UInt8) :
    run test (piece ++ byte :: rest) = piece.length := by
  rw [run, List.takeWhile_append_of_pos htest, List.takeWhile_cons_of_neg (by simp [hbyte]),
    List.append_nil]

/-- A run goes to the end, or to a byte that fails the test. -/
theorem run_cases (test : UInt8 → Bool) (bytes : List UInt8) :
    (∀ byte ∈ bytes, test byte) ∨ ∃ piece byte rest, (∀ byte ∈ piece, test byte) ∧
      test byte = false ∧ bytes = piece ++ byte :: rest := by
  induction bytes with
  | nil => exact .inl (by simp)
  | cons first rest ih =>
      by_cases hfirst : test first
      · rcases ih with hall | ⟨piece, byte, after, hpiece, hbyte, rfl⟩
        · exact .inl (List.forall_mem_cons.2 ⟨hfirst, hall⟩)
        · exact .inr ⟨first :: piece, byte, after,
            List.forall_mem_cons.2 ⟨hfirst, hpiece⟩, hbyte, rfl⟩
      · exact .inr ⟨[], first, rest, by simp, by simpa using hfirst, rfl⟩

end Runs

/-! ### Block comments -/

theorem CommentRest.ne_nil {bytes : List UInt8} (h : CommentRest bytes) : bytes ≠ [] := by
  cases h <;> simp

section Comments

variable {depth : Nat} {byte : UInt8} {bytes rest : List UInt8}

theorem commentLength_close (depth : Nat) (rest : List UInt8) :
    commentLength depth (star :: slash :: rest) =
      if depth ≤ 1 then some 2 else (commentLength (depth - 1) rest).map (· + 2) :=
  commentLength.eq_2 ..

theorem commentLength_open (depth : Nat) (rest : List UInt8) :
    commentLength depth (slash :: star :: rest) = (commentLength (depth + 1) rest).map (· + 2) :=
  commentLength.eq_3 ..

theorem commentLength_other (hclose : ¬ [star, slash] <+: byte :: rest)
    (hopen : ¬ [slash, star] <+: byte :: rest) :
    commentLength depth (byte :: rest) = (commentLength depth rest).map (· + 1) := by
  refine commentLength.eq_4 _ _ _ (fun others hbyte hrest => hclose ?_)
    (fun others hbyte hrest => hopen ?_)
  · rw [hbyte, hrest]
    exact ⟨others, rfl⟩
  · rw [hbyte, hrest]
    exact ⟨others, rfl⟩

/-- The rest of a comment takes one level off. -/
theorem CommentRest.commentLength_append (h : CommentRest bytes) (depth : Nat) (more : List UInt8) :
    commentLength (depth + 1) (bytes ++ more) =
      if depth = 0 then some bytes.length
      else (commentLength depth more).map (· + bytes.length) := by
  induction h generalizing depth more with
  | close =>
      rw [List.cons_append, List.cons_append, commentLength_close]
      simp
  | @nested inner rest _ _ ihInner ihRest =>
      have hsplit : slash :: star :: (inner ++ rest) ++ more =
          slash :: star :: (inner ++ (rest ++ more)) := by simp
      have hlength : ∀ n, n + rest.length + inner.length + 2 =
          n + (slash :: star :: (inner ++ rest)).length := by
        intro n
        simp only [List.length_cons, List.length_append]
        omega
      rw [hsplit, commentLength_open, ihInner, if_neg (Nat.succ_ne_zero depth), ihRest]
      split
      · simpa using hlength 0
      · simp only [Option.map_map, Function.comp_def, hlength]
  | @other byte rest hclose hopen hrest ih =>
      obtain ⟨second, tail, rfl⟩ := List.exists_cons_of_ne_nil hrest.ne_nil
      have hclose' : ¬ [star, slash] <+: byte :: (second :: tail ++ more) := by simpa using hclose
      have hopen' : ¬ [slash, star] <+: byte :: (second :: tail ++ more) := by simpa using hopen
      rw [List.cons_append, commentLength_other hclose' hopen', ih]
      split
      · simp
      · simp only [Option.map_map]
        rfl

/-- What was taken of comments is as many rests as there were levels. -/
theorem exists_commentRests {length : Nat} (hdepth : 0 < depth)
    (h : commentLength depth bytes = some length) :
    ∃ parts : List (List UInt8), parts.length = depth ∧ (∀ part ∈ parts, CommentRest part) ∧
      bytes.take length = parts.flatten := by
  induction depth, bytes using commentLength.induct generalizing length with
  | case1 depth => rw [commentLength] at h; cases h
  | case2 depth rest hone =>
      rw [commentLength, if_pos hone] at h
      cases h
      exact ⟨[[star, slash]], by simp; omega, by simp [CommentRest.close], rfl⟩
  | case3 depth rest hmore ih =>
      rw [commentLength, if_neg hmore] at h
      obtain ⟨length, hinner, rfl⟩ := Option.map_eq_some_iff.1 h
      obtain ⟨parts, hparts, hrests, htake⟩ := ih (by omega) hinner
      refine ⟨[star, slash] :: parts, by simp; omega, List.forall_mem_cons.2 ⟨.close, hrests⟩, ?_⟩
      rw [List.take_succ_cons, List.take_succ_cons, htake]
      rfl
  | case4 depth rest ih =>
      rw [commentLength] at h
      obtain ⟨length, hinner, rfl⟩ := Option.map_eq_some_iff.1 h
      obtain ⟨parts, hparts, hrests, htake⟩ := ih (Nat.succ_pos _) hinner
      -- One level more was opened than is left: the first two rests belong to the comment inside
      -- and to the one around it.
      obtain ⟨inner, parts, rfl⟩ := List.exists_cons_of_length_eq_add_one hparts
      obtain ⟨outer, others, rfl⟩ : ∃ outer others, parts = outer :: others :=
        List.exists_cons_of_length_pos (by simp at hparts; omega)
      obtain ⟨hin, hrests⟩ := List.forall_mem_cons.1 hrests
      obtain ⟨hout, hothers⟩ := List.forall_mem_cons.1 hrests
      refine ⟨(slash :: star :: (inner ++ outer)) :: others,
        by simpa using hparts, List.forall_mem_cons.2 ⟨.nested hin hout, hothers⟩, ?_⟩
      rw [List.take_succ_cons, List.take_succ_cons, htake]
      simp
  | case5 depth byte rest hclose hopen ih =>
      rw [commentLength.eq_4 _ _ _ hclose hopen] at h
      obtain ⟨length, hinner, rfl⟩ := Option.map_eq_some_iff.1 h
      obtain ⟨parts, hparts, hrests, htake⟩ := ih hdepth hinner
      obtain ⟨part, others, rfl⟩ : ∃ part others, parts = part :: others :=
        List.exists_cons_of_ne_nil fun hnil => by simp [hnil] at hparts; omega
      obtain ⟨hpart, hothers⟩ := List.forall_mem_cons.1 hrests
      have hfront : byte :: part <+: byte :: rest := by
        have hwithin : part <+: rest.take length := by
          rw [htake]
          exact ⟨others.flatten, rfl⟩
        exact List.cons_prefix_cons.2 ⟨rfl, hwithin.trans (List.take_prefix ..)⟩
      have hnew : CommentRest (byte :: part) := by
        refine .other (fun hdelimiter => ?_) (fun hdelimiter => ?_) hpart
        · obtain ⟨more, hmore⟩ := hdelimiter.trans hfront
          obtain ⟨hbyte, hrest⟩ := List.cons.inj hmore
          exact hclose more hbyte.symm hrest.symm
        · obtain ⟨more, hmore⟩ := hdelimiter.trans hfront
          obtain ⟨hbyte, hrest⟩ := List.cons.inj hmore
          exact hopen more hbyte.symm hrest.symm
      refine ⟨(byte :: part) :: others, hparts, List.forall_mem_cons.2 ⟨hnew, hothers⟩, ?_⟩
      rw [List.take_succ_cons, htake]
      rfl

theorem commentRest_of_commentLength {length : Nat} (h : commentLength 1 bytes = some length) :
    CommentRest (bytes.take length) := by
  obtain ⟨parts, hparts, hrests, htake⟩ := exists_commentRests Nat.one_pos h
  obtain ⟨part, rfl⟩ := List.length_eq_one_iff.1 hparts
  rw [htake, List.flatten_singleton]
  exact hrests part (List.mem_singleton_self part)

/-- Nothing closes a comment that is left open. -/
theorem not_commentRest_of_commentLength {piece : List UInt8} (h : commentLength 1 bytes = none)
    (hpiece : piece <+: bytes) :
    ¬ CommentRest piece := by
  intro hrest
  obtain ⟨more, rfl⟩ := hpiece
  rw [hrest.commentLength_append 0 more] at h
  cases h

end Comments

/-! ### Symbols -/

section Symbols

variable {byte : UInt8} {rest : List UInt8} {s : Symbol}

theorem encode_text_of_ofChar? (h : Symbol.ofChar? (Char.ofUInt8 byte) = some s) :
    Utf8.encode s.text = [byte] := by
  have hbyte : (Char.ofUInt8 byte).toUInt8 = byte := by
    show byte.toUInt32.toUInt8 = byte
    simp
  generalize Char.ofUInt8 byte = c at h hbyte
  unfold Symbol.ofChar? at h
  split at h <;> cases h <;> rw [← hbyte] <;> rfl

theorem encode_text_of_withEqual? {longer : Symbol} (h : s.withEqual? = some longer) :
    Utf8.encode longer.text = Utf8.encode s.text ++ [equalSign] := by
  cases s <;> cases h <;> rfl

/-- A symbol is a single character, or such a symbol and an equals sign. -/
theorem symbol_cases (h : Utf8.encode s.text = byte :: rest) :
    (rest = [] ∧ Symbol.ofChar? (Char.ofUInt8 byte) = some s) ∨
      (rest = [equalSign] ∧ ∃ shorter, Symbol.ofChar? (Char.ofUInt8 byte) = some shorter ∧
        shorter.withEqual? = some s) := by
  cases s with
  | bangEqual | equalEqual | greaterEqual | lessEqual =>
      cases h
      exact .inr ⟨rfl, _, rfl, rfl⟩
  | leftParen | rightParen | leftBrace | rightBrace | comma | dot | minus | plus | semicolon | slash
  | star | question | colon | bang | equal | greater | less =>
      cases h
      exact .inl ⟨rfl, rfl⟩

/-- No longer symbol starts with a symbol that takes no equals sign, or that none follows. -/
theorem longest_symbol (h : Symbol.ofChar? (Char.ofUInt8 byte) = some s)
    (hequal : s.withEqual? = none ∨ rest.head? ≠ some equalSign) :
    Longest IsSymbol [byte] rest := by
  refine ⟨⟨s, (encode_text_of_ofChar? h).symm⟩, ?_⟩
  rintro piece hpiece ⟨other, rfl⟩
  cases hother : Utf8.encode other.text with
  | nil => exact Nat.zero_le _
  | cons first tail =>
      rw [hother] at hpiece
      obtain ⟨rfl, htail⟩ := List.cons_prefix_cons.1 hpiece
      rcases symbol_cases hother with ⟨rfl, -⟩ | ⟨rfl, shorter, hshorter, hlonger⟩
      · exact Nat.le_refl _
      · obtain rfl : s = shorter := Option.some.inj (h.symm.trans hshorter)
        obtain ⟨more, hmore⟩ := htail
        obtain rfl : equalSign :: more = rest := hmore
        rcases hequal with hnone | hhead
        · rw [hlonger] at hnone
          cases hnone
        · exact (hhead rfl).elim

theorem longest_symbol_equal {longer : Symbol} (h : Symbol.ofChar? (Char.ofUInt8 byte) = some s)
    (hlonger : s.withEqual? = some longer) :
    [byte, equalSign] = Utf8.encode longer.text ∧ Longest IsSymbol [byte, equalSign] rest := by
  have hbytes : [byte, equalSign] = Utf8.encode longer.text := by
    rw [encode_text_of_withEqual? hlonger, encode_text_of_ofChar? h]
    rfl
  refine ⟨hbytes, ⟨longer, hbytes⟩, ?_⟩
  rintro piece - ⟨other, rfl⟩
  cases hother : Utf8.encode other.text with
  | nil => exact Nat.zero_le _
  | cons first tail =>
      rcases symbol_cases hother with ⟨rfl, -⟩ | ⟨rfl, -⟩
      · exact Nat.le_succ _
      · exact Nat.le_refl _

end Symbols

/-! ### Pieces -/

section Pieces

variable {first : UInt8} {rest : List UInt8}

/-- A piece is as its shape says. -/
def Piece.Fits (first : UInt8) (rest : List UInt8) (piece : Piece) : Prop :=
  piece.extra ≤ rest.length ∧
    piece.shape.Describes (first :: rest.take piece.extra) (rest.drop piece.extra)

theorem fits_munchSymbol {s : Symbol} (h : Symbol.ofChar? (Char.ofUInt8 first) = some s) :
    (munchSymbol s rest).Fits first rest := by
  unfold munchSymbol
  split
  next longer tail hlonger =>
    exact ⟨Nat.succ_le_succ (Nat.zero_le _), longest_symbol_equal h hlonger⟩
  next hnot =>
    refine ⟨Nat.zero_le _, (encode_text_of_ofChar? h).symm, longest_symbol h ?_⟩
    cases hlonger : s.withEqual? with
    | none => exact .inl rfl
    | some longer =>
        refine .inr fun hhead => ?_
        obtain ⟨tail, hrest⟩ := List.head?_eq_some_iff.1 hhead
        exact hnot longer tail hlonger hrest

/-- A piece that is at least as long as any other of its class. -/
theorem longest_of_take {IsIn : List UInt8 → Prop} {extra : Nat} (hextra : extra ≤ rest.length)
    (hin : IsIn (first :: rest.take extra))
    (hle : ∀ piece, piece <+: first :: rest → IsIn piece → piece.length ≤ extra + 1) :
    Longest IsIn (first :: rest.take extra) (rest.drop extra) := by
  refine ⟨hin, fun piece hpiece hother => ?_⟩
  rw [List.cons_append, List.take_append_drop] at hpiece
  rw [List.length_cons, List.length_take, Nat.min_eq_left hextra]
  exact hle piece hpiece hother

theorem munchString_unclosed (h : ∀ byte ∈ rest, byte != quote) :
    munchString rest = ⟨.fault .unclosedString, rest.length⟩ := by
  have hrun : run (· != quote) rest = rest.length := run_eq_length h
  simp only [munchString, hrun, if_true]

theorem munchString_closed {contents after : List UInt8} (h : ∀ byte ∈ contents, byte != quote) :
    munchString (contents ++ quote :: after) = ⟨.string, contents.length + 1⟩ := by
  have hne : contents.length ≠ (contents ++ quote :: after).length := by simp
  have hrun : run (· != quote) (contents ++ quote :: after) = contents.length :=
    run_append_cons h (by decide) after
  simp only [munchString, hrun, if_neg hne]

theorem fits_munchString (rest : List UInt8) : (munchString rest).Fits quote rest := by
  rcases run_cases (· != quote) rest with hall | ⟨contents, byte, after, hcontents, hbyte, rfl⟩
  · rw [munchString_unclosed hall]
    refine ⟨Nat.le_refl _, List.drop_length, rest, by rw [List.take_length], fun hmem => ?_⟩
    simpa using hall quote hmem
  · obtain rfl : byte = quote := by simpa using hbyte
    have hextra : contents.length + 1 ≤ (contents ++ quote :: after).length := by simp
    rw [munchString_closed hcontents]
    refine ⟨hextra, longest_of_take hextra
      ⟨contents, fun hmem => by simpa using hcontents quote hmem, ?_⟩ ?_⟩
    · rw [List.take_length_add_append]
      rfl
    · -- Another string from the same quote on has its contents within the run.
      rintro piece hpiece ⟨other, hother, rfl⟩
      have hwithin : other <+: contents ++ quote :: after :=
        (List.prefix_append ..).trans (List.cons_prefix_cons.1 hpiece).2
      have hle : other.length ≤ run (· != quote) (contents ++ quote :: after) :=
        length_le_run hwithin fun byte hmem => by
        simpa using fun heq : byte = quote => hother (heq ▸ hmem)
      rw [run_append_cons hcontents hbyte] at hle
      simpa using hle

theorem IsNumber.isDigit_head {byte : UInt8} (h : IsNumber (byte :: rest)) : isDigit byte := by
  obtain ⟨whole, hne, hdigits, hbytes⟩ := h
  obtain ⟨digit, others, rfl⟩ := List.exists_cons_of_ne_nil hne
  have hdigit := hdigits digit (List.mem_cons_self ..)
  rcases hbytes with hbytes | ⟨fraction, -, -, hbytes⟩
  · rw [(List.cons.inj hbytes).1]
    exact hdigit
  · rw [(List.cons.inj hbytes).1]
    exact hdigit

/-- How a number can go on after its digits. -/
theorem IsNumber.length_le {piece whole after : List UInt8} {byte : UInt8} (h : IsNumber piece)
    (hwhole : ∀ byte ∈ whole, isDigit byte) (hbyte : isDigit byte = false)
    (hpiece : piece <+: whole ++ byte :: after) :
    piece.length ≤ whole.length ∨ byte = point ∧ ∃ fraction, fraction ≠ [] ∧
      (∀ byte ∈ fraction, isDigit byte) ∧ fraction <+: after ∧
      piece.length = whole.length + 1 + fraction.length := by
  have hpoint : isDigit point = false := by decide
  have hrun := run_append_cons hwhole hbyte after
  obtain ⟨digits, -, hdigits, rfl | ⟨fraction, hne, hfraction, rfl⟩⟩ := h
  · left
    rw [← hrun]
    exact length_le_run hpiece hdigits
  · obtain ⟨more, hmore⟩ := hpiece
    rw [List.append_assoc, List.cons_append] at hmore
    rw [← hmore, run_append_cons hdigits hpoint] at hrun
    obtain ⟨rfl, htail⟩ := List.append_inj hmore hrun
    obtain ⟨rfl, rfl⟩ := List.cons.inj htail
    exact .inr ⟨rfl, fraction, hne, hfraction, List.prefix_append .., by simp; omega⟩

theorem munchNumber_of_digits (h : ∀ byte ∈ rest, isDigit byte) :
    munchNumber rest = ⟨.number, rest.length⟩ := by
  simp only [munchNumber, run_eq_length h, List.drop_length]

/-- Digits go on after a point if there is one more. -/
theorem munchNumber_append_cons {whole : List UInt8} {byte : UInt8}
    (hwhole : ∀ byte ∈ whole, isDigit byte) (hbyte : isDigit byte = false) (after : List UInt8) :
    (∃ digit more, byte = point ∧ after = digit :: more ∧ isDigit digit ∧
      munchNumber (whole ++ byte :: after) = ⟨.number, whole.length + 2 + run isDigit more⟩) ∨
    (¬ (byte = point ∧ ∃ digit more, after = digit :: more ∧ isDigit digit) ∧
      munchNumber (whole ++ byte :: after) = ⟨.number, whole.length⟩) := by
  simp only [munchNumber, run_append_cons hwhole hbyte, List.drop_left]
  split
  next digit more hafter =>
    obtain ⟨rfl, rfl⟩ := List.cons.inj hafter
    by_cases hdigit : isDigit digit
    · exact .inl ⟨digit, more, rfl, rfl, hdigit, if_pos hdigit⟩
    · refine .inr ⟨?_, if_neg hdigit⟩
      rintro ⟨-, other, tail, htail, hother⟩
      cases htail
      exact hdigit hother
  next hnot =>
    refine .inr ⟨?_, rfl⟩
    rintro ⟨rfl, digit, more, rfl, -⟩
    exact hnot digit more rfl

theorem fits_munchNumber (hfirst : isDigit first) (rest : List UInt8) :
    (munchNumber rest).Fits first rest := by
  rcases run_cases isDigit rest with hall | ⟨whole, byte, after, hwhole, hbyte, rfl⟩
  · rw [munchNumber_of_digits hall]
    refine ⟨Nat.le_refl _,
      longest_of_take (Nat.le_refl _)
      ⟨first :: rest, by simp, List.forall_mem_cons.2 ⟨hfirst, hall⟩, ?_⟩ ?_⟩
    · rw [List.take_length]
      exact .inl rfl
    · exact fun piece hpiece _ => hpiece.length_le
  · have hdigits : ∀ byte ∈ first :: whole, isDigit byte := List.forall_mem_cons.2 ⟨hfirst, hwhole⟩
    have hlength :=
      fun piece (hpiece : piece <+: first :: (whole ++ byte :: after)) (hnumber : IsNumber piece) =>
        hnumber.length_le hdigits hbyte hpiece
    rcases munchNumber_append_cons hwhole hbyte after with
      ⟨digit, more, rfl, rfl, hdigit, hmunch⟩ | ⟨hnot, hmunch⟩
    · rw [hmunch]
      have hle := run_le isDigit more
      have hextra : whole.length + 2 + run isDigit more ≤
          (whole ++ point :: digit :: more).length := by simp; omega
      refine ⟨hextra, longest_of_take hextra ⟨first :: whole,
        by simp, hdigits, .inr ⟨digit :: more.take (run isDigit more), by simp, ?_, ?_⟩⟩ ?_⟩
      · exact List.forall_mem_cons.2 ⟨hdigit, forall_mem_take_run isDigit more⟩
      · rw [Nat.add_assoc, List.take_length_add_append, Nat.add_comm 2]
        rfl
      · intro piece hpiece hnumber
        show piece.length ≤ whole.length + 2 + run isDigit more + 1
        rcases hlength piece hpiece hnumber with
          hshort | ⟨-, fraction, -, hfraction, hwithin, hlong⟩
        · rw [List.length_cons] at hshort
          omega
        · have hfractionLe := length_le_run hwithin hfraction
          rw [List.length_cons] at hlong
          have hrun : run isDigit (digit :: more) = 1 + run isDigit more := by
            rw [run, List.takeWhile_cons_of_pos hdigit, List.length_cons, Nat.add_comm]
            rfl
          omega
    · rw [hmunch]
      have hextra : whole.length ≤ (whole ++ byte :: after).length := by simp
      refine ⟨hextra, longest_of_take hextra ⟨first :: whole, by simp, hdigits, .inl ?_⟩ ?_⟩
      · rw [List.take_left]
      · intro piece hpiece hnumber
        rcases hlength piece hpiece hnumber with
          hshort | ⟨rfl, fraction, hne, hfraction, hwithin, -⟩
        · exact hshort
        · obtain ⟨digit, others, rfl⟩ := List.exists_cons_of_ne_nil hne
          obtain ⟨more, rfl⟩ := hwithin
          exact (hnot ⟨rfl, digit, others ++ more, rfl,
            hfraction digit (List.mem_cons_self ..)⟩).elim

theorem fits_munchWord (hfirst : isLetter first) (rest : List UInt8) :
    (⟨.word, run isWordByte rest⟩ : Piece).Fits first rest := by
  refine ⟨run_le _ _,
    longest_of_take (run_le _ _) ⟨first, _, hfirst, forall_mem_take_run isWordByte rest, rfl⟩ ?_⟩
  rintro piece hpiece ⟨letter, tail, -, htail, rfl⟩
  exact Nat.succ_le_succ (length_le_run (List.cons_prefix_cons.1 hpiece).2 htail)

theorem fits_munchSlash (rest : List UInt8) : (munchSlash rest).Fits slash rest := by
  unfold munchSlash
  split
  next tail =>
    have hle := run_le (· != newline) tail
    refine ⟨by simp only [List.length_cons]; omega, ?_⟩
    show Trivia _ _
    rw [Nat.add_comm, List.take_succ_cons, List.drop_succ_cons]
    refine .lineComment
      (fun hmem => by simpa using forall_mem_take_run (· != newline) tail newline hmem) ?_
    rcases run_cases (· != newline) tail with hall | ⟨text, byte, after, htext, hbyte, rfl⟩
    · left
      rw [run_eq_length hall, List.drop_length]
    · right
      rw [run_append_cons htext hbyte, List.drop_left]
      simpa using hbyte
  next tail =>
    cases hlength : commentLength 1 tail with
    | some length =>
        have hle := (bounds_of_commentLength hlength).2
        refine ⟨by simp only [List.length_cons]; omega, ?_⟩
        show Trivia ((star :: tail).drop (1 + length)) (slash :: (star :: tail).take (1 + length))
        rw [Nat.add_comm, List.take_succ_cons]
        exact .blockComment (commentRest_of_commentLength hlength)
    | none =>
        refine ⟨by simp only [List.length_cons]; omega, ?_, tail, ?_, fun piece hpiece =>
                     not_commentRest_of_commentLength hlength hpiece⟩
        · rw [Nat.add_comm, List.drop_succ_cons, List.drop_length]
        · rw [Nat.add_comm, List.take_succ_cons, List.take_length]
          rfl
  next => exact ⟨Nat.zero_le _, rfl, longest_symbol (s := .slash) rfl (.inl rfl)⟩

/-- Munching takes the longest piece of its class, up to the end if a string or comment is left
open. -/
theorem fits_munch (first : UInt8) (rest : List UInt8) : (munch first rest).Fits first rest := by
  unfold munch
  split
  next hblank => exact ⟨Nat.zero_le _, .blank hblank⟩
  next hblank =>
    split
    next hdigit => exact fits_munchNumber hdigit rest
    next hdigit =>
      split
      next hletter => exact fits_munchWord hletter rest
      next hletter =>
        split
        next hquote =>
          subst hquote
          exact fits_munchString rest
        next hquote =>
          split
          next hslash =>
            subst hslash
            exact fits_munchSlash rest
          next hslash =>
            split
            next hstray =>
              obtain ⟨rfl, hhead⟩ := hstray
              obtain ⟨tail, rfl⟩ := List.head?_eq_some_iff.1 hhead
              exact ⟨Nat.succ_le_succ (Nat.zero_le _), rfl⟩
            next hstray =>
              split
              next s hsymbol => exact fits_munchSymbol hsymbol
              next hsymbol =>
                refine ⟨Nat.zero_le _, rfl, by simpa using hblank, fun tail htoken => ?_⟩
                rcases htoken with
                  hnumber | ⟨letter, others, hletter', -, hword⟩ | ⟨contents, -, hstring⟩ | ⟨s, hs⟩
                · exact hdigit hnumber.isDigit_head
                · rw [← (List.cons.inj hword).1] at hletter'
                  exact hletter hletter'
                · exact hquote (List.cons.inj hstring).1
                · rcases symbol_cases hs.symm with ⟨-, hfound⟩ | ⟨-, shorter, hfound, -⟩
                  · rw [hsymbol] at hfound
                    cases hfound
                  · rw [hsymbol] at hfound
                    cases hfound

end Pieces

end TraitScript.Scan
