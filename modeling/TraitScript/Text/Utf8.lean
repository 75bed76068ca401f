/-!
# Bytes as text

Source text and input lines arrive as bytes. A lead byte fixes the ranges of the bytes that must
follow it; the first place where a byte falls outside its range, or is missing, is the fault of the
text.
-/

namespace TraitScript.Utf8

/-- The text whose encoding the bytes are. -/
def decode? (bytes : List UInt8) : Option String := String.fromUTF8? ⟨bytes.toArray⟩

def encode (text : String) : List UInt8 := text.toUTF8.data.toList

/-- Where a byte sequence stops being text. -/
inductive Fault where
  /-- `length` bytes from `index` on belong to no character. -/
  | invalid (index length : Nat)
  /-- The input ends inside the character that starts at `index`. -/
  | incomplete (index : Nat)
  deriving DecidableEq, Repr

def Fault.message : Fault → String
  | .invalid index length => s!"invalid utf-8 sequence of {length} bytes from index {index}"
  | .incomplete index => s!"incomplete utf-8 byte sequence from index {index}"

structure Range where
  first : UInt8
  last : UInt8

def Range.contains (r : Range) (byte : UInt8) : Bool := r.first ≤ byte && byte ≤ r.last

/-- Any byte that may continue a character. -/
def continuation : Range := ⟨0x80, 0xbf⟩

/-- The ranges of the bytes that follow a lead byte, or `none` if no character starts with it.
Overlong forms, surrogates and values above the last code point are excluded by the second byte. -/
def followers? (lead : UInt8) : Option (List Range) :=
  if lead < 0x80 then some []
  else if lead < 0xc2 then none
  else if lead < 0xe0 then some [continuation]
  else if lead = 0xe0 then some [⟨0xa0, 0xbf⟩, continuation]
  else if lead = 0xed then some [⟨0x80, 0x9f⟩, continuation]
  else if lead < 0xf0 then some [continuation, continuation]
  else if lead = 0xf0 then some [⟨0x90, 0xbf⟩, continuation, continuation]
  else if lead < 0xf4 then some [continuation, continuation, continuation]
  else if lead = 0xf4 then some [⟨0x80, 0x8f⟩, continuation, continuation]
  else none

/-- Checks the bytes after a lead byte at `start`, of which `seen` bytes fit so far. -/
def checkFollowers (start : Nat) :
    (seen : Nat) → List Range → List UInt8 → Except Fault (List UInt8)
  | _, [], rest => .ok rest
  | _, _ :: _, [] => .error (.incomplete start)
  | seen, range :: ranges, byte :: rest =>
    if range.contains byte then checkFollowers start (seen + 1) ranges rest
    else .error (.invalid start seen)

/-- Checks character after character; each takes at least one of the `bound` bytes. -/
def faultFrom : (bound start : Nat) → List UInt8 → Option Fault
  | 0, _, _ => none
  | _, _, [] => none
  | bound + 1, start, lead :: rest =>
    match followers? lead with
    | none => some (.invalid start 1)
    | some ranges =>
      match checkFollowers start 1 ranges rest with
      | .error fault => some fault
      | .ok remaining => faultFrom bound (start + 1 + ranges.length) remaining

/-- The first fault of a byte sequence, if it is not text. -/
def fault? (bytes : List UInt8) : Option Fault := faultFrom bytes.length 0 bytes

end TraitScript.Utf8
