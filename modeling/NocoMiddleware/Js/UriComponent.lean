import NocoMiddleware.Foundation.PrefixCode
import NocoMiddleware.Js.Value
import NocoMiddleware.Js.WellFormed

/-!
# `encodeURIComponent` and `decodeURIComponent`

All but a few ASCII characters are written as their UTF-8 bytes, each with a `%` and two
hexadecimal digits.  A string with a lone surrogate cannot be written, and a text that is not
written in UTF-8 cannot be read; both functions then throw a `URIError`, here `none`.
-/

namespace NocoMiddleware
namespace Js

open NocoMiddleware.Foundation

/-- `%`. -/
def percentUnit : CodeUnit := 37

/-! ## Writing -/

/-- The characters that are not escaped. -/
def isUnreserved (c : Char) : Bool :=
  let code := c.toNat
  (48 ≤ code && code ≤ 57) || (65 ≤ code && code ≤ 90) || (97 ≤ code && code ≤ 122) ||
    c ∈ ['-', '_', '.', '!', '~', '*', '\'', '(', ')']

/-- A hexadecimal digit, in upper case. -/
def hexUnit (digit : Nat) : CodeUnit :=
  UInt16.ofNat (if digit < 10 then 48 + digit else 55 + digit)

def escapeByte (byte : UInt8) : JsString :=
  [percentUnit, hexUnit (byte.toNat / 16), hexUnit (byte.toNat % 16)]

def escapeChar (c : Char) : JsString :=
  if isUnreserved c then utf16 c else (String.utf8EncodeChar c).flatMap escapeByte

/-- `encodeURIComponent`. -/
def encodeURIComponent (text : JsString) : Option JsString :=
  (chars text).map fun cs => cs.flatMap escapeChar

/-! ## Reading -/

/-- Reads `%` with two digits. -/
def readEscape : Reader UInt8 CodeUnit
  | percent :: high :: low :: rest => do
      if percent ≠ percentUnit then none
      let highDigit ← radixDigit 16 high
      let lowDigit ← radixDigit 16 low
      return (UInt8.ofNat (16 * highDigit + lowDigit), rest)
  | _ => none

def readEscapes : Nat → Reader (List UInt8) CodeUnit
  | 0, text => some ([], text)
  | count + 1, text => do
      let (byte, rest) ← readEscape text
      let (bytes, rest) ← readEscapes count rest
      return (byte :: bytes, rest)

/-- The number of bytes that the first one announces, by its leading one bits. -/
def sequenceLength (first : UInt8) : Option Nat :=
  let byte := first.toNat
  if byte < 0x80 then some 1
  else if byte < 0xC0 then none
  else if byte < 0xE0 then some 2
  else if byte < 0xF0 then some 3
  else if byte < 0xF8 then some 4
  else none

/-- The character that bytes are the UTF-8 form of. -/
def readEscapedChar (text : JsString) : Option (Char × JsString) := do
  let (first, _) ← readEscape text
  let count ← sequenceLength first
  let (bytes, rest) ← readEscapes count text
  let c ← bytes.toByteArray.utf8DecodeChar? 0
  return (c, rest)

/-- Reads one character, or a unit as it is. -/
def readPiece : Reader JsString CodeUnit
  | [] => none
  | unit :: rest =>
      if unit = percentUnit then
        (readEscapedChar (unit :: rest)).map fun (c, rest) => (utf16 c, rest)
      else some ([unit], rest)

/-- `decodeURIComponent`. -/
def decodeURIComponent (text : JsString) : Option JsString :=
  (Reader.readAll readPiece text).map List.flatten

/-! ## Round trip -/

theorem radixDigit_hexUnit {digit : Nat} (h : digit < 16) :
    radixDigit 16 (hexUnit digit) = some digit := by
  revert digit
  decide

theorem readEscape_escapeByte (byte : UInt8) (rest : JsString) :
    readEscape (escapeByte byte ++ rest) = some (byte, rest) := by
  have hlt : byte.toNat < 256 := byte.toNat_lt
  have hhigh := radixDigit_hexUnit (show byte.toNat / 16 < 16 by omega)
  have hlow := radixDigit_hexUnit (show byte.toNat % 16 < 16 by omega)
  have hbyte : UInt8.ofNat (16 * (byte.toNat / 16) + byte.toNat % 16) = byte := by
    rw [Nat.div_add_mod, UInt8.ofNat_toNat]
  simp only [escapeByte, List.cons_append, List.nil_append, readEscape, ne_eq, not_true_eq_false,
    if_false, hhigh, hlow, Option.pure_def, Option.bind_eq_bind, Option.bind_some, hbyte]

theorem readEscapes_flatMap (bytes : List UInt8) (rest : JsString) :
    readEscapes bytes.length (bytes.flatMap escapeByte ++ rest) = some (bytes, rest) := by
  induction bytes with
  | nil => rfl
  | cons byte bytes ih =>
      rw [List.flatMap_cons, List.append_assoc, List.length_cons, readEscapes,
        readEscape_escapeByte]
      simp [ih]

/-- The first byte of a character announces all of them. -/
theorem sequenceLength_head {c : Char} {first : UInt8} {more : List UInt8}
    (h : String.utf8EncodeChar c = first :: more) :
    sequenceLength first = some (first :: more).length := by
  have hvalid : c.toNat.isValidChar := c.valid
  have hlt : c.val.toNat < 0x110000 := by
    show c.toNat < 0x110000
    unfold Nat.isValidChar at hvalid
    omega
  have hbyte : ∀ {n : Nat}, n < 256 → (UInt8.ofNat n).toNat = n := by
    intro n hn
    rw [UInt8.toNat_ofNat']
    omega
  unfold String.utf8EncodeChar at h
  dsimp only at h
  unfold sequenceLength
  split at h
  · next hone =>
      obtain ⟨rfl, rfl⟩ := List.cons.inj h
      rw [hbyte (by omega)]
      simp only [List.length_cons, List.length_nil]
      rw [if_pos (by omega)]
  · split at h
    · next htwo =>
        obtain ⟨rfl, rfl⟩ := List.cons.inj h
        rw [hbyte (by omega)]
        simp only [List.length_cons, List.length_nil]
        rw [if_neg (by omega), if_neg (by omega), if_pos (by omega)]
    · split at h
      · next hthree =>
          obtain ⟨rfl, rfl⟩ := List.cons.inj h
          rw [hbyte (by omega)]
          simp only [List.length_cons, List.length_nil]
          rw [if_neg (by omega), if_neg (by omega), if_neg (by omega), if_pos (by omega)]
      · obtain ⟨rfl, rfl⟩ := List.cons.inj h
        rw [hbyte (by omega)]
        simp only [List.length_cons, List.length_nil]
        rw [if_neg (by omega), if_neg (by omega), if_neg (by omega), if_neg (by omega),
          if_pos (by omega)]

theorem readEscapedChar_escaped (c : Char) (rest : JsString) :
    readEscapedChar ((String.utf8EncodeChar c).flatMap escapeByte ++ rest) = some (c, rest) := by
  cases hbytes : String.utf8EncodeChar c with
  | nil => exact absurd hbytes String.utf8EncodeChar_ne_nil
  | cons first more =>
      have hfirst := readEscape_escapeByte first (more.flatMap escapeByte ++ rest)
      have hlength := sequenceLength_head hbytes
      have hall := readEscapes_flatMap (first :: more) rest
      have hdecode : (first :: more).toByteArray.utf8DecodeChar? 0 = some c := by
        have h := ByteArray.utf8DecodeChar?_utf8EncodeChar_append (b := ByteArray.empty) (c := c)
        rwa [ByteArray.append_empty, hbytes] at h
      rw [← List.append_assoc, ← List.flatMap_cons] at hfirst
      simp only [readEscapedChar, hfirst, hlength, hall, hdecode, Option.pure_def,
        Option.bind_eq_bind, Option.bind_some]

theorem toNat_of_isUnreserved {c : Char} (h : isUnreserved c = true) :
    c.toNat < 0x80 ∧ c.toNat ≠ 37 := by
  unfold isUnreserved at h
  simp only [Bool.or_eq_true, Bool.and_eq_true, decide_eq_true_eq] at h
  rcases h with halphanum | hmark
  · omega
  · revert hmark
    simp only [List.mem_cons, List.not_mem_nil, or_false]
    rintro (rfl | rfl | rfl | rfl | rfl | rfl | rfl | rfl | rfl) <;> decide

theorem utf16_of_isUnreserved {c : Char} (h : isUnreserved c = true) :
    utf16 c = [UInt16.ofNat c.toNat] ∧ UInt16.ofNat c.toNat ≠ percentUnit := by
  obtain ⟨hlt, hne⟩ := toNat_of_isUnreserved h
  constructor
  · rw [utf16, codePointUnits, if_pos (by omega)]
  · intro heq
    have hunit := congrArg UInt16.toNat heq
    rw [UInt16.toNat_ofNat'] at hunit
    have hpercent : percentUnit.toNat = 37 := rfl
    omega

/-- Every character is read back, whatever follows. -/
theorem reads_escapeChar : Reads readPiece escapeChar utf16 where
  word_ne_nil c := by
    unfold escapeChar
    split
    · next h =>
        rw [(utf16_of_isUnreserved h).1]
        exact List.cons_ne_nil _ []
    · cases hbytes : String.utf8EncodeChar c with
      | nil => exact absurd hbytes String.utf8EncodeChar_ne_nil
      | cons first more => exact List.cons_ne_nil _ _
  read_word c rest := by
    unfold escapeChar
    split
    · next h =>
        obtain ⟨hunit, hne⟩ := utf16_of_isUnreserved h
        rw [hunit, List.singleton_append, readPiece, if_neg hne]
    · have hread := readEscapedChar_escaped c rest
      cases hbytes : String.utf8EncodeChar c with
      | nil => exact absurd hbytes String.utf8EncodeChar_ne_nil
      | cons first more =>
          rw [hbytes] at hread
          show readPiece (percentUnit :: _) = _
          rw [readPiece, if_pos rfl]
          exact congrArg (Option.map fun piece : Char × JsString => (utf16 piece.1, piece.2)) hread

/-- The units that an encoded text is made of: unreserved characters and escapes. -/
def isComponentUnit (unit : CodeUnit) : Bool :=
  unit = percentUnit || isUnreserved (Char.ofNat unit.toNat)

theorem isComponentUnit_hexUnit {digit : Nat} (h : digit < 16) :
    isComponentUnit (hexUnit digit) = true := by
  revert digit
  decide

theorem isComponentUnit_of_mem_escapeByte {byte : UInt8} {unit : CodeUnit}
    (h : unit ∈ escapeByte byte) : isComponentUnit unit = true := by
  have hlt : byte.toNat < 256 := byte.toNat_lt
  unfold escapeByte at h
  simp only [List.mem_cons, List.not_mem_nil, or_false] at h
  rcases h with rfl | rfl | rfl
  · rfl
  · exact isComponentUnit_hexUnit (by omega)
  · exact isComponentUnit_hexUnit (by omega)

/-- No delimiter of a URL is left in an encoded text. -/
theorem isComponentUnit_of_mem {text encoded : JsString} {unit : CodeUnit}
    (h : encodeURIComponent text = some encoded) (hunit : unit ∈ encoded) :
    isComponentUnit unit = true := by
  obtain ⟨cs, -, rfl⟩ := Option.map_eq_some_iff.mp h
  obtain ⟨c, -, hmem⟩ := List.mem_flatMap.mp hunit
  unfold escapeChar at hmem
  split at hmem
  · next hunreserved =>
      obtain ⟨hlt, -⟩ := toNat_of_isUnreserved hunreserved
      rw [(utf16_of_isUnreserved hunreserved).1, List.mem_singleton] at hmem
      have hchar : Char.ofNat unit.toNat = c := by
        rw [hmem, UInt16.toNat_ofNat', Nat.mod_eq_of_lt (by omega), Char.ofNat_toNat]
      rw [isComponentUnit, hchar, hunreserved, Bool.or_true]
  · obtain ⟨byte, -, hbyte⟩ := List.mem_flatMap.mp hmem
    exact isComponentUnit_of_mem_escapeByte hbyte

/-- What is encoded is decoded again. -/
theorem decodeURIComponent_encodeURIComponent {text encoded : JsString}
    (h : encodeURIComponent text = some encoded) : decodeURIComponent encoded = some text := by
  obtain ⟨cs, hcs, rfl⟩ := Option.map_eq_some_iff.mp h
  rw [decodeURIComponent, reads_escapeChar.readAll, Option.map_some, ← List.flatMap_def,
    flatMap_utf16_of_chars hcs]

end Js
end NocoMiddleware
