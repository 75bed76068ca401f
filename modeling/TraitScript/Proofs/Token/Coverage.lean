import TraitScript.Proofs.Text.Utf8
import TraitScript.Proofs.Token.Joined

/-!
# What a scan covers

The items of a scan stand for pieces of the source in order, and between them there are only blanks
and comments. The lexeme of a token is its piece, and whatever is no token is a fault of one of five
forms.
-/

namespace TraitScript.Scan

/-! ### Findings -/

/-- What a finding says of a piece and of what comes after it. -/
def Finding.Describes (bytes after : List UInt8) : Finding → Prop
  | .token kind lexeme => Utf8.encode lexeme = bytes ∧
    match kind with
    | .symbol s => lexeme = s.text ∧ Longest IsSymbol bytes after
    | .keyword k => lexeme = k.text ∧ Longest IsWord bytes after
    | .identifier => (∀ k : Keyword, lexeme ≠ k.text) ∧ Longest IsWord bytes after
    | .string contents => lexeme = "\"" ++ contents ++ "\"" ∧ Longest IsString bytes after
    | .number value => Number.ofText? lexeme = some value ∧ Longest IsNumber bytes after
    | .eof => False
  | .error .notUtf8 =>
    ∃ contents, quote ∉ contents ∧ bytes = quote :: (contents ++ [quote]) ∧
      Utf8.decode? contents = none
  | .error cause => (Shape.fault cause).Describes bytes after

theorem lt_of_isWordByte {byte : UInt8} (h : isWordByte byte) : byte < 128 := by
  simp only [isWordByte, isLetter, isDigit, Bool.or_eq_true, Bool.and_eq_true, decide_eq_true_eq,
    beq_iff_eq, UInt8.le_iff_toNat_le,
    UInt8.lt_iff_toNat_lt, ← UInt8.toNat_inj] at h ⊢
  simp at h ⊢
  omega

theorem isDigit_ofUInt8 (byte : UInt8) : (Char.ofUInt8 byte).isDigit = isDigit byte := by
  have hval : (Char.ofUInt8 byte).val = byte.toUInt32 := rfl
  simp only [Char.isDigit, isDigit, hval]
  simp [UInt8.le_iff_toNat_le, UInt32.le_iff_toNat_le]

theorem decode?_quoted (contents : List UInt8) :
    Utf8.decode? (quote :: (contents ++ [quote])) = (Utf8.decode? contents).map fun text =>
      "\"" ++ text ++ "\"" := by
  cases hcontents : Utf8.decode? contents with
  | some text =>
      rw [Option.map_some, Utf8.decode?_eq_some_iff, Utf8.encode_append, Utf8.encode_append,
        Utf8.decode?_eq_some_iff.1 hcontents]
      rfl
  | none =>
      cases hwhole : Utf8.decode? (quote :: (contents ++ [quote])) with
      | none => rfl
      | some lexeme =>
          have hquote : quote < 128 := by decide
          have hfirst : quote.IsUTF8FirstByte := by decide
          obtain ⟨after, hafter⟩ :=
            Utf8.exists_encode_of_cons hquote (Utf8.decode?_eq_some_iff.1 hwhole)
          obtain ⟨inner, hinner⟩ := Utf8.exists_encode_of_concat hfirst hafter
          rw [Utf8.decode?_eq_some_iff.2 hinner] at hcontents
          cases hcontents

theorem unquote_quoted (text : String) : unquote ("\"" ++ text ++ "\"") = text := by
  simp [unquote, String.toList_append]

theorem ofText?_ofList {first : Char} {rest : List Char} (hfirst : first.isDigit) :
    Number.ofText? (String.ofList (first :: rest)) = Number.magnitude? (first :: rest) := by
  have hsign : Number.splitSign (first :: rest) = (false, first :: rest) := by
    unfold Number.splitSign
    split
    next heq =>
      cases heq
      cases hfirst
    next heq =>
      cases heq
      cases hfirst
    next => rfl
  have hlower : first.toLower = first := by
    simp only [Char.isDigit, Bool.and_eq_true, decide_eq_true_eq, UInt32.le_iff_toNat_le] at hfirst
    unfold Char.toLower
    split
    next h =>
      simp only [UInt32.le_iff_toNat_le] at h
      simp at h hfirst
      omega
    next => rfl
  have hname : ∀ letter others, letter.isDigit = false →
      (first :: rest).map Char.toLower ≠ letter :: others := by
    intro letter others hletter heq
    rw [List.map_cons, hlower] at heq
    rw [← (List.cons.inj heq).1, hfirst] at hletter
    cases hletter
  have hinf : (first :: rest).map Char.toLower ≠ "inf".toList := hname 'i' ['n', 'f'] rfl
  have hinfinity : (first :: rest).map Char.toLower ≠ "infinity".toList :=
    hname 'i' ['n', 'f', 'i', 'n', 'i', 't', 'y'] rfl
  have hnan : (first :: rest).map Char.toLower ≠ "nan".toList := hname 'n' ['a', 'n'] rfl
  simp only [Number.ofText?, String.toList_ofList, hsign, hinf, hinfinity, hnan, decide_false,
    Bool.or_self, Bool.false_eq_true, if_false]
  cases Number.magnitude? (first :: rest) <;> rfl

/-- Digits, with a point and digits after it or without, are a number in any notation. -/
theorem ofText?_eq_numberValue {text : List Char} (whole : List Char) (hne : whole ≠ [])
    (hwhole : ∀ c ∈ whole, c.isDigit)
    (htext : text = whole ∨ ∃ fraction, (∀ c ∈ fraction, c.isDigit) ∧
      text = whole ++ '.' :: fraction) :
    Number.ofText? (String.ofList text) = some (numberValue (String.ofList text)) := by
  obtain ⟨first, others, rfl⟩ := List.exists_cons_of_ne_nil hne
  have hfirst := hwhole first (List.mem_cons_self ..)
  have htake : (first :: others).takeWhile Char.isDigit = first :: others :=
    List.takeWhile_eq_self_iff.2 hwhole
  have hdrop : (first :: others).dropWhile Char.isDigit = [] := List.dropWhile_eq_nil_iff.2 hwhole
  rcases htext with rfl | ⟨fraction, hfraction, rfl⟩
  · simp only [ofText?_ofList hfirst, Number.magnitude?, numberValue,
      String.toList_ofList, htake, hdrop]
    rfl
  · have hpoint : ¬ Char.isDigit '.' := by decide
    have htake' : (first :: others ++ '.' :: fraction).takeWhile Char.isDigit =
        first :: others := by
      rw [List.takeWhile_append_of_pos hwhole, List.takeWhile_cons_of_neg hpoint, List.append_nil]
    have hdrop' : (first :: others ++ '.' :: fraction).dropWhile Char.isDigit =
        '.' :: fraction := by
      rw [List.dropWhile_append_of_pos hwhole, List.dropWhile_cons_of_neg hpoint]
    have hafter : fraction.takeWhile Char.isDigit = fraction :=
      List.takeWhile_eq_self_iff.2 hfraction
    have hend : fraction.dropWhile Char.isDigit = [] := List.dropWhile_eq_nil_iff.2 hfraction
    rw [List.cons_append] at htake' hdrop' ⊢
    simp only [ofText?_ofList hfirst, Number.magnitude?, numberValue, String.toList_ofList, htake',
      hdrop', hafter, hend]
    rfl

/-- The text of a number is always read, with the value that the scanner gives to it. -/
theorem IsNumber.exists_text {bytes : List UInt8} (h : IsNumber bytes) :
    ∃ lexeme, Utf8.decode? bytes = some lexeme ∧
      Number.ofText? lexeme = some (numberValue lexeme) := by
  obtain ⟨whole, hne, hwhole, hbytes⟩ := h
  have hdigit : ∀ {byte}, isDigit byte → byte < 128 :=
    fun hbyte => lt_of_isWordByte (by simp [isWordByte, hbyte])
  have hchars : ∀ {digits : List UInt8}, (∀ byte ∈ digits, isDigit byte) →
      ∀ c ∈ digits.map Char.ofUInt8, c.isDigit := by
    intro digits hdigits c hc
    obtain ⟨byte, hbyte, rfl⟩ := List.mem_map.1 hc
    rw [isDigit_ofUInt8]
    exact hdigits byte hbyte
  have hlt : ∀ byte ∈ bytes, byte < 128 := by
    rcases hbytes with rfl | ⟨fraction, -, hfraction, rfl⟩
    · exact fun byte hbyte => hdigit (hwhole byte hbyte)
    · intro byte hbyte
      rcases List.mem_append.1 hbyte with hin | hin
      · exact hdigit (hwhole byte hin)
      · rcases List.mem_cons.1 hin with rfl | hin
        · decide
        · exact hdigit (hfraction byte hin)
  refine ⟨_, Utf8.decode?_of_lt hlt,
    ofText?_eq_numberValue (whole.map Char.ofUInt8) (by simpa using hne) (hchars hwhole) ?_⟩
  rcases hbytes with rfl | ⟨fraction, -, hfraction, rfl⟩
  · exact .inl rfl
  · exact .inr ⟨fraction.map Char.ofUInt8, hchars hfraction,
      by rw [List.map_append, List.map_cons]; rfl⟩

theorem IsWord.exists_text {bytes : List UInt8} (h : IsWord bytes) :
    ∃ lexeme, Utf8.decode? bytes = some lexeme := by
  obtain ⟨first, rest, hfirst, hrest, rfl⟩ := h
  refine ⟨_, Utf8.decode?_of_lt
    (List.forall_mem_cons.2
      ⟨lt_of_isWordByte ?_, fun byte hbyte => lt_of_isWordByte (hrest byte hbyte)⟩)⟩
  simp [isWordByte, hfirst]

/-- A word is a keyword exactly if it is the text of one. -/
theorem wordKind_cases (lexeme : String) :
    (∃ k : Keyword, lexeme = k.text ∧ wordKind lexeme = .keyword k) ∨
      ((∀ k : Keyword, lexeme ≠ k.text) ∧ wordKind lexeme = .identifier) := by
  unfold wordKind Keyword.ofText?
  cases hfind : Keyword.all.find? (·.text = lexeme) with
  | some k =>
      have htext : k.text = lexeme := by simpa using List.find?_some hfind
      exact .inl ⟨k, htext.symm, rfl⟩
  | none =>
      refine .inr ⟨fun k heq => ?_, rfl⟩
      have hall : k ∈ Keyword.all := by cases k <;> decide
      exact List.find?_eq_none.1 hfind k hall (by simp [heq])

/-- A piece is passed over if it is blank or a comment, and otherwise there is a finding that
describes it. -/
theorem findingOf_cases {shape : Shape} {bytes after : List UInt8}
    (h : shape.Describes bytes after) :
    (findingOf shape bytes = none ∧ Trivia after bytes) ∨
      ∃ finding, findingOf shape bytes = some finding ∧ finding.Describes bytes after := by
  cases shape with
  | trivia => exact .inl ⟨rfl, h⟩
  | symbol s =>
      obtain ⟨rfl, hlongest⟩ := h
      exact .inr ⟨.token (.symbol s) s.text,
        by simp only [findingOf, Utf8.decode?_encode, Shape.finding?], rfl, rfl, hlongest⟩
  | word =>
      obtain ⟨lexeme, hlexeme⟩ := h.1.exists_text
      refine .inr ⟨.token (wordKind lexeme) lexeme,
        by simp only [findingOf, hlexeme, Shape.finding?], Utf8.decode?_eq_some_iff.1 hlexeme, ?_⟩
      rcases wordKind_cases lexeme with ⟨k, htext, hkind⟩ | ⟨htexts, hkind⟩
      · rw [hkind]
        exact ⟨htext, h⟩
      · rw [hkind]
        exact ⟨htexts, h⟩
  | number =>
      obtain ⟨lexeme, hlexeme, hvalue⟩ := h.1.exists_text
      exact .inr ⟨.token (.number (numberValue lexeme)) lexeme,
        by simp only [findingOf, hlexeme, Shape.finding?],
        Utf8.decode?_eq_some_iff.1 hlexeme, hvalue, h⟩
  | string =>
      obtain ⟨contents, hcontents, rfl⟩ := h.1
      cases htext : Utf8.decode? contents with
      | some text =>
          have hlexeme := decode?_quoted contents
          rw [htext, Option.map_some] at hlexeme
          exact .inr ⟨.token (.string text) ("\"" ++ text ++ "\""),
            by simp only [findingOf, hlexeme, Shape.finding?, unquote_quoted],
            Utf8.decode?_eq_some_iff.1 hlexeme, rfl, h⟩
      | none =>
          have hlexeme := decode?_quoted contents
          rw [htext, Option.map_none] at hlexeme
          exact .inr ⟨.error .notUtf8,
            by simp only [findingOf, hlexeme], contents, hcontents, rfl, htext⟩
  | fault cause =>
      refine .inr ⟨.error cause, rfl, ?_⟩
      cases cause with
      | notUtf8 => exact h.elim
      | unexpectedByte _ | strayCommentEnd | unclosedComment | unclosedString => exact h

/-! ### Spans -/

/-- The bytes of a source from one place to another. -/
def slice (source : Source) (start stop : Nat) : List UInt8 :=
  (source.drop start).take (stop - start)

section Slices

variable {source : Source} {start between stop : Nat}

theorem slice_self (source : Source) (start : Nat) : slice source start start = [] := by
  rw [slice, Nat.sub_self, List.take_zero]

theorem slice_append_drop (h : start ≤ stop) :
    slice source start stop ++ source.drop stop = source.drop start := by
  have hdrop : source.drop stop = (source.drop start).drop (stop - start) := by
    rw [List.drop_drop, Nat.add_sub_cancel' h]
  rw [slice, hdrop, List.take_append_drop]

theorem slice_append (h : start ≤ between) (h' : between ≤ stop) :
    slice source start between ++ slice source between stop = slice source start stop := by
  have hdrop : source.drop between = (source.drop start).drop (between - start) := by
    rw [List.drop_drop, Nat.add_sub_cancel' h]
  have hlength : stop - start = between - start + (stop - between) := by omega
  rw [slice, slice, slice, hdrop, hlength, List.take_add]

theorem slice_length (source : Source) (start : Nat) :
    slice source start source.length = source.drop start := by
  rw [slice, ← List.length_drop, List.take_length]

/-- The piece at a place. -/
theorem slice_cons {first : UInt8} {rest : List UInt8} (h : source.drop start = first :: rest)
    (extra : Nat) :
    slice source start (start + 1 + extra) = first :: rest.take extra ∧
      source.drop (start + 1 + extra) = rest.drop extra := by
  have hextra : start + 1 + extra - start = extra + 1 := by omega
  rw [slice, h, hextra, List.take_succ_cons, Nat.add_assoc, ← List.drop_drop, h, Nat.add_comm,
    List.drop_succ_cons]
  exact ⟨rfl, rfl⟩

end Slices

/-! ### Coverage -/

/-- Items that stand for all of a source from a place on, with nothing but blanks and comments
between them. -/
inductive Covers (source : Source) : (start : Nat) → List Item → Prop
  | last {start line : Nat} : start ≤ source.length → Gap [] (source.drop start) →
      Covers source start [endAt source.length line]
  | item {start : Nat} {item : Item} {items : List Item} :
      start ≤ item.start → item.start < item.stop → item.stop ≤ source.length →
      Gap (source.drop item.start) (slice source start item.start) →
      item.finding.Describes (slice source item.start item.stop) (source.drop item.stop) →
      Covers source item.stop items →
      Covers source start (item :: items)

section Covers

variable {source : Source} {start stop : Nat} {items : List Item}

/-- Blanks and comments in front may be passed over. -/
theorem Covers.pass (hstop : start ≤ stop)
    (htrivia : Trivia (source.drop stop) (slice source start stop)) (h : Covers source stop items) :
    Covers source start items := by
  cases h with
  | last hle hgap =>
      refine .last (Nat.le_trans hstop hle) ?_
      rw [← slice_append_drop hstop]
      refine .cons ?_ hgap
      rw [List.append_nil]
      exact htrivia
  | item hle hspan hend hgap hfinding hitems =>
      refine .item (Nat.le_trans hstop hle) hspan hend ?_ hfinding hitems
      rw [← slice_append hstop hle]
      refine .cons ?_ hgap
      rw [slice_append_drop hle]
      exact htrivia

theorem covers_itemsFrom (source : Source) (bound start line : Nat) {rest : List UInt8}
    (hstart : start ≤ source.length) (hrest : source.drop start = rest)
    (hbound : rest.length ≤ bound) : Covers source start (itemsFrom bound start line rest) := by
  have hend : ∀ {start line}, start ≤ source.length → source.drop start = [] →
      Covers source start [endAt start line] := by
    intro start line hle hdrop
    obtain rfl : start = source.length := Nat.le_antisymm hle (List.drop_eq_nil_iff.1 hdrop)
    refine .last (Nat.le_refl _) ?_
    rw [hdrop]
    exact .nil
  induction bound generalizing start line rest with
  | zero =>
      obtain rfl : rest = [] := List.length_eq_zero_iff.1 (Nat.le_zero.1 hbound)
      exact hend hstart hrest
  | succ bound ih =>
      cases rest with
      | nil => exact hend hstart hrest
      | cons first rest =>
          obtain ⟨piece, hpiece⟩ : ∃ piece, munch first rest = piece := ⟨_, rfl⟩
          have hfits := fits_munch first rest
          rw [hpiece] at hfits
          obtain ⟨hextra, hdescribes⟩ := hfits
          obtain ⟨hslice, hdrop⟩ := slice_cons hrest piece.extra
          have hlength : source.length = start + 1 + rest.length := by
            have := congrArg List.length hrest
            rw [List.length_drop, List.length_cons] at this
            omega
          have hstop : start + 1 + piece.extra ≤ source.length := by omega
          have hitems :=
            ih (start + 1 + piece.extra) (line + (first :: rest.take piece.extra).count newline)
              hstop hdrop (by
            rw [List.length_drop]
            rw [List.length_cons] at hbound
            omega)
          rw [itemsFrom_cons bound start line hpiece]
          rw [← hslice, ← hdrop] at hdescribes
          rcases findingOf_cases hdescribes with ⟨hnone, htrivia⟩ | ⟨finding, hsome, hfinding⟩
          · rw [← hslice, hnone]
            rw [← hslice] at hitems
            exact hitems.pass (by omega) htrivia
          · rw [← hslice, hsome]
            rw [← hslice] at hitems
            refine .item (Nat.le_refl _) ?_ hstop ?_ hfinding hitems
            · show start < start + 1 + piece.extra
              omega
            · rw [slice_self]
              exact .nil

theorem covers_scan (source : Source) : Covers source 0 (scan source) :=
  covers_itemsFrom source source.length 0 1 (Nat.zero_le _) rfl (Nat.le_refl _)

/-- The items stand for spans one after another, and the end comes last. -/
theorem Covers.exists_front (h : Covers source start items) :
    ∃ front line, items = front ++ [endAt source.length line] ∧
      front.Pairwise (fun item later => item.stop ≤ later.start) ∧
      ∀ item ∈ front, start ≤ item.start ∧ item.start < item.stop ∧ item.stop ≤ source.length ∧
        item.finding.Describes (slice source item.start item.stop) (source.drop item.stop) := by
  induction h with
  | last _ _ => exact ⟨[], _, rfl, .nil, by simp⟩
  | @item start item items hle hspan hend _ hfinding _ ih =>
      obtain ⟨front, line, rfl, hpairs, hfront⟩ := ih
      refine ⟨item :: front, line, rfl,
        List.pairwise_cons.2 ⟨fun later hlater => (hfront later hlater).1, hpairs⟩, ?_⟩
      refine List.forall_mem_cons.2 ⟨⟨hle, hspan, hend, hfinding⟩, fun later hlater => ?_⟩
      obtain ⟨hstart, hrest⟩ := hfront later hlater
      exact ⟨by omega, hrest⟩

/-- Between an item and the one before it there are only blanks and comments. -/
theorem Covers.gap (h : Covers source start items) {before after : List Item} {item : Item}
    (hitems : items = before ++ item :: after) :
    Gap (source.drop item.start)
      (slice source ((before.getLast?.map (·.stop)).getD start) item.start) := by
  induction h generalizing before with
  | @last start line _ hgap =>
      cases before with
      | nil =>
          obtain ⟨rfl, -⟩ := List.cons.inj hitems
          simp only [endAt, List.drop_length, List.getLast?_nil, Option.map_none,
            Option.getD_none, slice_length]
          exact hgap
      | cons first others => simp at hitems
  | @item start first items hle _ _ hgap _ _ ih =>
      cases before with
      | nil =>
          obtain ⟨rfl, -⟩ := List.cons.inj hitems
          exact hgap
      | cons other others =>
          obtain ⟨rfl, hrest⟩ := List.cons.inj hitems
          have hinner := ih hrest
          cases hlast : others.getLast? with
          | none =>
              rw [hlast] at hinner
              rw [List.getLast?_eq_none_iff.1 hlast]
              exact hinner
          | some nearest =>
              rw [hlast] at hinner
              rw [List.getLast?_cons, hlast]
              exact hinner

end Covers

end TraitScript.Scan
