import TraitScript.Proofs.Number.Double
import TraitScript.Proofs.Token.Coverage

/-!
# How tokens are spelled

Symbols and keywords have one spelling each. A name is a word that no keyword is spelled like, so it
has no blanks and parentheses in it and does not start like a number. The value of a number is one,
infinity included. Whatever the source is, its tokens are of this kind.
-/

namespace TraitScript

/-- A word that no keyword is spelled like. -/
structure IsName (text : String) : Prop where
  word : Scan.IsWord (Utf8.encode text)
  ordinary : ∀ keyword : Keyword, text ≠ keyword.text

namespace Token

def Spelled (token : Token) : Prop :=
  match token.kind with
  | .symbol s => token.lexeme = s.text
  | .keyword k => token.lexeme = k.text
  | .identifier => IsName token.lexeme
  | .number value => Binary.ofFloat value ≠ .nan
  | .string _ | .eof => True

/-- A token that is a symbol or a keyword, spelled as such. -/
def Is (token : Token) (kind : Kind) (text : String) : Prop :=
  token.kind = kind ∧ token.lexeme = text

def IsNamed (token : Token) : Prop := token.kind = .identifier ∧ IsName token.lexeme

variable {token : Token}

theorem Spelled.symbol (h : token.Spelled) {s : Symbol} (hsymbol : token.isSymbol s = true) :
    token.Is (.symbol s) s.text := by
  unfold isSymbol at hsymbol
  split at hsymbol
  next s' hkind =>
    obtain rfl := beq_iff_eq.1 hsymbol
    rw [Spelled, hkind] at h
    exact ⟨hkind, h⟩
  next => cases hsymbol

theorem Spelled.keyword (h : token.Spelled) {k : Keyword} (hkind : token.kind = .keyword k) :
    token.Is (.keyword k) k.text := by
  rw [Spelled, hkind] at h
  exact ⟨hkind, h⟩

theorem Spelled.named (h : token.Spelled) (hname : token.isIdentifier = true) : token.IsNamed := by
  unfold isIdentifier at hname
  split at hname
  next hkind =>
    rw [Spelled, hkind] at h
    exact ⟨hkind, h⟩
  next => cases hname

theorem Spelled.number (h : token.Spelled) {value : Float} (hkind : token.kind = .number value) :
    Binary.ofFloat value ≠ .nan := by
  rw [Spelled, hkind] at h
  exact h

end Token

/-! ### Names -/

theorem Scan.not_isDigit_of_isLetter {byte : UInt8} (h : Scan.isLetter byte = true) :
    Scan.isDigit byte = false := by
  rw [Scan.isDigit, Bool.and_eq_false_iff]
  simp only [Scan.isLetter, Bool.or_eq_true, Bool.and_eq_true, decide_eq_true_eq, beq_iff_eq,
    UInt8.le_iff_toNat_le, ← UInt8.toNat_inj,
    decide_eq_false_iff_not] at h ⊢
  simp at h ⊢
  omega

namespace IsName

variable {text : String}

theorem ofUInt8_ne {byte : UInt8} {c : Char} (hbyte : Scan.isWordByte byte = true)
    (hc : Scan.isWordByte c.toUInt8 = false) : Char.ofUInt8 byte ≠ c := by
  rintro rfl
  have hsame : (Char.ofUInt8 byte).toUInt8 = byte := UInt8.toUInt8_toUInt32 byte
  rw [hsame, hbyte] at hc
  cases hc

/-- A name consists of letters, digits and underscores and does not start with a digit. -/
theorem exists_chars (h : IsName text) :
    ∃ first rest, text.toList = (first :: rest).map Char.ofUInt8 ∧ Scan.isLetter first = true ∧
    ∀ byte ∈ first :: rest, Scan.isWordByte byte = true := by
  obtain ⟨first, rest, hfirst, hrest, hbytes⟩ := h.word
  have hall : ∀ byte ∈ first :: rest, Scan.isWordByte byte = true :=
    List.forall_mem_cons.2 ⟨by simp [Scan.isWordByte, hfirst], hrest⟩
  have htext := Utf8.decode?_of_lt fun byte hbyte => Scan.lt_of_isWordByte (hall byte hbyte)
  rw [← hbytes, Utf8.decode?_encode, Option.some_inj, hbytes] at htext
  exact ⟨first, rest, by rw [htext, String.toList_ofList], hfirst, hall⟩

theorem notMem (h : IsName text) {c : Char} (hc : Scan.isWordByte c.toUInt8 = false) :
    c ∉ text.toList := by
  obtain ⟨first, rest, htext, -, hall⟩ := h.exists_chars
  rw [htext]
  intro hmem
  obtain ⟨byte, hbyte, heq⟩ := List.mem_map.1 hmem
  exact ofUInt8_ne (hall byte hbyte) hc heq

theorem not_isDigit (h : IsName text) {c : Char} (hc : text.toList.head? = some c) :
    c.isDigit = false := by
  obtain ⟨first, rest, htext, hfirst, -⟩ := h.exists_chars
  rw [htext, List.map_cons, List.head?_cons, Option.some_inj] at hc
  rw [← hc, Scan.isDigit_ofUInt8]
  exact Scan.not_isDigit_of_isLetter hfirst

end IsName

/-! ### Scanned tokens -/

theorem Scan.Finding.Describes.spelled {bytes after : List UInt8} {kind : Token.Kind}
    {lexeme : String} (h : Scan.Finding.Describes bytes after (.token kind lexeme)) (line : Nat) :
    Token.Spelled ⟨kind, lexeme, line⟩ := by
  obtain ⟨rfl, hkind⟩ := h
  unfold Token.Spelled
  cases kind with
  | symbol s => exact hkind.1
  | keyword k => exact hkind.1
  | identifier => exact ⟨hkind.2.1, hkind.1⟩
  | number value =>
      obtain ⟨hread, hlongest⟩ := hkind
      obtain ⟨lexeme', hdecode, hvalue⟩ := hlongest.1.exists_text
      rw [Utf8.decode?_encode, Option.some_inj] at hdecode
      subst hdecode
      rw [hread, Option.some_inj] at hvalue
      rw [hvalue]
      exact Binary.ofFloat_ofScientific_ne_nan _ _ _
  | string contents => trivial
  | eof => trivial

theorem Scan.spelled_of_mem_scan {source : Source} {item : Scan.Item} (hitem : item ∈ scan source)
    {token : Token} (htoken : item.token? = some token) : token.Spelled := by
  obtain ⟨front, line, hfront, -, hall⟩ := (Scan.covers_scan source).exists_front
  rw [hfront, List.mem_append, List.mem_singleton] at hitem
  rcases hitem with hitem | rfl
  · have hdescribes := (hall item hitem).2.2.2
    obtain ⟨start, stop, line, finding⟩ := item
    cases finding with
    | token kind lexeme =>
        cases htoken
        exact hdescribes.spelled line
    | error cause => cases htoken
  · cases htoken
    trivial

/-- The tokens of a source, the one at its end included. -/
theorem Scanned.spelled_ofSource (source : Source) :
    (∀ token ∈ (Scanned.ofSource source).tokens, token.Spelled) ∧
      (Scanned.ofSource source).last.Spelled := by
  have hall : ∀ token ∈ (scan source).filterMap Scan.Item.token?, token.Spelled := by
    intro token htoken
    obtain ⟨item, hitem, hfound⟩ := List.mem_filterMap.1 htoken
    exact Scan.spelled_of_mem_scan hitem hfound
  refine ⟨fun token htoken => hall token ((List.dropLast_sublist _).subset htoken), ?_⟩
  change (((scan source).filterMap Scan.Item.token?).getLast?.getD (.endOfSource 1)).Spelled
  cases hlast : ((scan source).filterMap Scan.Item.token?).getLast? with
  | none => trivial
  | some token => exact hall token (List.mem_of_getLast? hlast)

end TraitScript
