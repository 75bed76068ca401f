import TraitScript.Text.Utf8

/-!
# Encoding and decoding

Decoding finds the one text that a sequence of bytes encodes. Bytes below 128 always encode
characters of their own, and one at the end of an encoded text never belongs to the character
before.
-/

namespace TraitScript.Utf8

theorem decode?_eq_some_iff {bytes : List UInt8} {text : String} :
    decode? bytes = some text ↔ encode text = bytes := by
  unfold decode? encode String.fromUTF8?
  constructor
  · intro h
    split at h
    next hvalid =>
      cases h
      rfl
    next => cases h
  · rintro rfl
    have hbytes : (⟨text.toUTF8.data.toList.toArray⟩ : ByteArray) = text.toByteArray := rfl
    simp only [hbytes, text.isValidUTF8, dif_pos]
    rfl

theorem encode_injective : Function.Injective encode := by
  intro s t h
  have hs := decode?_eq_some_iff.2 h
  rw [decode?_eq_some_iff.2 rfl] at hs
  exact (Option.some.inj hs).symm

theorem decode?_encode (text : String) : decode? (encode text) = some text :=
  decode?_eq_some_iff.2 rfl

theorem encode_eq_flatMap (text : String) :
    encode text = text.toList.flatMap String.utf8EncodeChar := by
  have hbytes : text.toByteArray = text.toList.utf8Encode := by simp
  rw [encode, String.toUTF8_eq_toByteArray, hbytes, List.utf8Encode, List.data_toByteArray]

@[simp] theorem encode_append (s t : String) : encode (s ++ t) = encode s ++ encode t := by
  simp [encode_eq_flatMap]

/-- Bytes below 128 are the encodings of the characters with their numbers. -/
theorem utf8EncodeChar_ofUInt8 {byte : UInt8} (h : byte < 128) :
    String.utf8EncodeChar (Char.ofUInt8 byte) = [byte] := by
  have hval : (Char.ofUInt8 byte).val = byte.toUInt32 := rfl
  have hsize : (Char.ofUInt8 byte).utf8Size = 1 := by
    rw [Char.utf8Size_eq_one_iff, hval, UInt32.le_iff_toNat_le, UInt8.toNat_toUInt32]
    have := UInt8.lt_iff_toNat_lt.1 h
    exact Nat.le_of_lt_succ this
  rw [String.utf8EncodeChar_eq_singleton hsize, hval]
  simp

theorem decode?_of_lt {bytes : List UInt8} (h : ∀ byte ∈ bytes, byte < 128) :
    decode? bytes = some (String.ofList (bytes.map Char.ofUInt8)) := by
  rw [decode?_eq_some_iff, encode_eq_flatMap, String.toList_ofList]
  induction bytes with
  | nil => rfl
  | cons byte rest ih =>
      obtain ⟨hbyte, hrest⟩ := List.forall_mem_cons.1 h
      rw [List.map_cons, List.flatMap_cons, ih hrest, utf8EncodeChar_ofUInt8 hbyte,
        List.singleton_append]

/-- After a byte below 128 a text goes on with another character. -/
theorem exists_encode_of_cons {text : String} {byte : UInt8} {bytes : List UInt8}
    (hbyte : byte < 128) (h : encode text = byte :: bytes) :
    ∃ inner, encode inner = bytes := by
  have hsplit : text.toByteArray = [Char.ofUInt8 byte].utf8Encode ++ bytes.toByteArray := by
    rw [List.utf8Encode_singleton, utf8EncodeChar_ofUInt8 hbyte, ← List.toByteArray_append]
    apply ByteArray.ext
    rw [List.data_toByteArray, ← Array.toList_inj]
    exact h
  have hvalid := text.isValidUTF8
  rw [hsplit, ByteArray.isValidUTF8_utf8Encode_singleton_append_iff] at hvalid
  obtain ⟨inner, hinner⟩ := hvalid
  refine ⟨String.ofList inner, ?_⟩
  have hbytes := congrArg (fun array => array.data.toList) hinner
  simp only [List.utf8Encode, List.data_toByteArray] at hbytes
  rw [encode_eq_flatMap, String.toList_ofList, ← hbytes]

/-- A byte that starts a character, at the end of a text, is its last character. -/
theorem exists_encode_of_concat {text : String} {bytes : List UInt8} {byte : UInt8}
    (hbyte : byte.IsUTF8FirstByte) (h : encode text = bytes ++ [byte]) :
    ∃ inner, encode inner = bytes := by
  rw [encode_eq_flatMap] at h
  rcases List.eq_nil_or_concat text.toList with hnil | ⟨front, last, hconcat⟩
  · simp [hnil] at h
  · rw [hconcat, List.concat_eq_append, List.flatMap_append, List.flatMap_singleton] at h
    obtain ⟨start, final, hlast⟩ :=
      (List.eq_nil_or_concat (String.utf8EncodeChar last)).resolve_left String.utf8EncodeChar_ne_nil
    rw [hlast, List.concat_eq_append, ← List.append_assoc] at h
    obtain ⟨hfront, hfinal⟩ := List.append_inj' h rfl
    obtain rfl : final = byte := by simpa using hfinal
    have hlength : start.length < (String.utf8EncodeChar last).length := by simp [hlast]
    have hget : (String.utf8EncodeChar last)[start.length] = final := by simp [hlast]
    have hstart : start.length = 0 := by
      rw [← hget] at hbyte
      exact UInt8.isUTF8FirstByte_getElem_utf8EncodeChar.1 hbyte
    rw [List.length_eq_zero_iff.1 hstart, List.append_nil] at hfront
    refine ⟨String.ofList front, ?_⟩
    rw [encode_eq_flatMap, String.toList_ofList, hfront]

end TraitScript.Utf8
