import NocoMiddleware.Js.Text
import Mathlib.Data.List.Basic
import Mathlib.Tactic.Common

/-!
# Well-formed strings

A string without lone surrogates is a sequence of characters, the Unicode scalar values.  UTF-8
has no words for surrogates, so only these strings have a UTF-8 form of their own;
`toWellFormed` puts U+FFFD for each lone surrogate.
-/

namespace NocoMiddleware
namespace Js

/-- The character of a code point; a surrogate is none. -/
def codePointChar (code : Nat) : Option Char :=
  if h : code.isValidChar then some (Char.ofNatAux code h) else none

/-- The characters of a string without lone surrogates. -/
def chars (text : JsString) : Option (List Char) :=
  (codePoints text).mapM codePointChar

/-- The code units of a code point. -/
def codePointUnits (code : Nat) : JsString :=
  if code < 0x10000 then [UInt16.ofNat code]
  else
    [UInt16.ofNat (0xD800 + (code - 0x10000) / 0x400),
      UInt16.ofNat (0xDC00 + (code - 0x10000) % 0x400)]

/-- The code units of a character. -/
def utf16 (c : Char) : JsString :=
  codePointUnits c.toNat

/-- U+FFFD. -/
def replacementChar : Char :=
  '\uFFFD'

/-- The characters of a string, with U+FFFD for each lone surrogate. -/
def replacedChars (text : JsString) : List Char :=
  (codePoints text).map fun code => (codePointChar code).getD replacementChar

/-- `String.prototype.toWellFormed`. -/
def toWellFormed (text : JsString) : JsString :=
  (replacedChars text).flatMap utf16

example : toWellFormed [0x61, 0xD83D, 0xDE00, 0xDE00] = [0x61, 0xD83D, 0xDE00, 0xFFFD] := by
  decide

/-! ## Code points of characters -/

theorem codePointChar_toNat (c : Char) : codePointChar c.toNat = some c := by
  have hvalid : c.toNat.isValidChar := c.valid
  rw [codePointChar, dif_pos hvalid]
  rfl

theorem codePointChar_eq_none_iff {code : Nat} : codePointChar code = none ↔ ¬ code.isValidChar := by
  unfold codePointChar
  by_cases hvalid : code.isValidChar
  · rw [dif_pos hvalid]
    exact iff_of_false nofun (not_not.mpr hvalid)
  · rw [dif_neg hvalid]
    exact iff_of_true rfl hvalid

theorem toNat_of_codePointChar {code : Nat} {c : Char} (h : codePointChar code = some c) :
    c.toNat = code := by
  have hvalid : code.isValidChar := by
    by_contra hnot
    rw [codePointChar_eq_none_iff.mpr hnot] at h
    contradiction
  rw [codePointChar, dif_pos hvalid] at h
  obtain rfl := Option.some.inj h
  exact UInt32.toNat_ofNatLT

theorem not_surrogate {unit : CodeUnit} (h : unit.toNat.isValidChar) :
    isHighSurrogate unit = false ∧ isLowSurrogate unit = false := by
  unfold Nat.isValidChar at h
  unfold isHighSurrogate isLowSurrogate
  simp only [Bool.and_eq_false_iff, decide_eq_false_iff_not]
  omega

theorem codePoints_cons {first : CodeUnit} (rest : JsString)
    (hhigh : isHighSurrogate first = false) :
    codePoints (first :: rest) = first.toNat :: codePoints rest := by
  cases rest with
  | nil => rfl
  | cons second rest => simp [codePoints, hhigh]

theorem pairCodePoint_of_units {high low : CodeUnit} {a b : Nat}
    (hhigh : high.toNat = 0xD800 + a) (hlow : low.toNat = 0xDC00 + b) :
    pairCodePoint high low = 0x10000 + a * 0x400 + b := by
  unfold pairCodePoint
  omega

theorem pairCodePoint_bounds {high low : CodeUnit} (hhigh : isHighSurrogate high = true)
    (hlow : isLowSurrogate low = true) :
    ¬ pairCodePoint high low < 0x10000 ∧ pairCodePoint high low < 0x110000 ∧
      (pairCodePoint high low - 0x10000) / 0x400 = high.toNat - 0xD800 ∧
      (pairCodePoint high low - 0x10000) % 0x400 = low.toNat - 0xDC00 := by
  unfold isHighSurrogate at hhigh
  unfold isLowSurrogate at hlow
  unfold pairCodePoint
  simp only [Bool.and_eq_true, decide_eq_true_eq] at hhigh hlow
  omega

theorem codePointUnits_toNat (unit : CodeUnit) : codePointUnits unit.toNat = [unit] := by
  have hlt : unit.toNat < 0x10000 := unit.toNat_lt
  rw [codePointUnits, if_pos hlt, UInt16.ofNat_toNat]

theorem codePointUnits_pair {high low : CodeUnit} (hhigh : isHighSurrogate high = true)
    (hlow : isLowSurrogate low = true) :
    codePointUnits (pairCodePoint high low) = [high, low] := by
  obtain ⟨hlarge, -, hfirst, hsecond⟩ := pairCodePoint_bounds hhigh hlow
  have hhigh' : 0xD800 + (high.toNat - 0xD800) = high.toNat := by
    simp only [isHighSurrogate, Bool.and_eq_true, decide_eq_true_eq] at hhigh
    omega
  have hlow' : 0xDC00 + (low.toNat - 0xDC00) = low.toNat := by
    simp only [isLowSurrogate, Bool.and_eq_true, decide_eq_true_eq] at hlow
    omega
  rw [codePointUnits, if_neg hlarge, hfirst, hsecond, hhigh', hlow', UInt16.ofNat_toNat,
    UInt16.ofNat_toNat]

/-- The units of the code points of a string are the string. -/
theorem flatMap_codePointUnits (text : JsString) :
    (codePoints text).flatMap codePointUnits = text := by
  induction text using codePoints.induct with
  | case1 => rfl
  | case2 single =>
      rw [codePoints, List.flatMap_singleton]
      exact codePointUnits_toNat single
  | case3 first second rest hpair ih =>
      rw [codePoints, if_pos hpair, List.flatMap_cons, ih]
      rw [Bool.and_eq_true] at hpair
      rw [codePointUnits_pair hpair.1 hpair.2]
      rfl
  | case4 first second rest hpair ih =>
      rw [codePoints, if_neg hpair, List.flatMap_cons, ih, codePointUnits_toNat]
      rfl

/-- The units of a character are one code point. -/
theorem codePoints_utf16_append (c : Char) (rest : JsString) :
    codePoints (utf16 c ++ rest) = c.toNat :: codePoints rest := by
  have hvalid : c.toNat.isValidChar := c.valid
  unfold utf16 codePointUnits
  by_cases hsmall : c.toNat < 0x10000
  · have hunit : (UInt16.ofNat c.toNat).toNat = c.toNat := by
      rw [UInt16.toNat_ofNat']
      omega
    rw [if_pos hsmall, List.singleton_append, codePoints_cons rest (not_surrogate _).1, hunit]
    rwa [hunit]
  · unfold Nat.isValidChar at hvalid
    have hhigh : (UInt16.ofNat (0xD800 + (c.toNat - 0x10000) / 0x400)).toNat =
        0xD800 + (c.toNat - 0x10000) / 0x400 := by
      rw [UInt16.toNat_ofNat']
      omega
    have hlow : (UInt16.ofNat (0xDC00 + (c.toNat - 0x10000) % 0x400)).toNat =
        0xDC00 + (c.toNat - 0x10000) % 0x400 := by
      rw [UInt16.toNat_ofNat']
      omega
    have hpair : (isHighSurrogate (UInt16.ofNat (0xD800 + (c.toNat - 0x10000) / 0x400)) &&
        isLowSurrogate (UInt16.ofNat (0xDC00 + (c.toNat - 0x10000) % 0x400))) = true := by
      rw [isHighSurrogate, isLowSurrogate, hhigh, hlow]
      simp only [Bool.and_eq_true, decide_eq_true_eq]
      omega
    have hcode : pairCodePoint (UInt16.ofNat (0xD800 + (c.toNat - 0x10000) / 0x400))
        (UInt16.ofNat (0xDC00 + (c.toNat - 0x10000) % 0x400)) = c.toNat := by
      rw [pairCodePoint_of_units hhigh hlow, Nat.add_assoc, Nat.div_add_mod']
      omega
    rw [if_neg hsmall]
    show codePoints (_ :: _ :: rest) = _
    rw [codePoints, if_pos hpair, hcode]

/-- The code points of characters are these characters. -/
theorem codePoints_flatMap_utf16 (cs : List Char) :
    codePoints (cs.flatMap utf16) = cs.map Char.toNat := by
  induction cs with
  | nil => rfl
  | cons c cs ih => rw [List.flatMap_cons, codePoints_utf16_append, ih, List.map_cons]

/-! ## Characters of strings -/

theorem map_toNat_of_mapM {codes : List Nat} {cs : List Char}
    (h : codes.mapM codePointChar = some cs) : cs.map Char.toNat = codes := by
  induction codes generalizing cs with
  | nil =>
      obtain rfl := Option.some.inj h
      rfl
  | cons code codes ih =>
      rw [List.mapM_cons] at h
      cases hcode : codePointChar code with
      | none => simp [hcode] at h
      | some c =>
          cases hrest : codes.mapM codePointChar with
          | none => simp [hcode, hrest] at h
          | some rest =>
              obtain rfl : c :: rest = cs := by simpa [hcode, hrest] using h
              rw [List.map_cons, ih hrest, toNat_of_codePointChar hcode]

/-- The units of the characters of a string are the string. -/
theorem flatMap_utf16_of_chars {text : JsString} {cs : List Char} (h : chars text = some cs) :
    cs.flatMap utf16 = text := by
  have hcodes := map_toNat_of_mapM h
  have hunits := flatMap_codePointUnits text
  rw [← hcodes, List.flatMap_map] at hunits
  exact hunits

theorem chars_flatMap_utf16 (cs : List Char) : chars (cs.flatMap utf16) = some cs := by
  rw [chars, codePoints_flatMap_utf16]
  induction cs with
  | nil => rfl
  | cons c cs ih => simp [List.map_cons, List.mapM_cons, codePointChar_toNat, ih]

theorem chars_eq_some_iff {text : JsString} {cs : List Char} :
    chars text = some cs ↔ cs.flatMap utf16 = text := by
  constructor
  · exact flatMap_utf16_of_chars
  · rintro rfl
    exact chars_flatMap_utf16 cs

theorem flatMap_utf16_injective {first second : List Char}
    (h : first.flatMap utf16 = second.flatMap utf16) : first = second := by
  have hchars := chars_flatMap_utf16 first
  rw [h, chars_flatMap_utf16] at hchars
  exact (Option.some.inj hchars).symm

/-- The replacements leave a string alone exactly if it is well formed. -/
theorem toWellFormed_eq_self_iff {text : JsString} :
    toWellFormed text = text ↔ (chars text).isSome = true := by
  rw [Option.isSome_iff_exists]
  constructor
  · intro h
    exact ⟨replacedChars text, chars_eq_some_iff.mpr h⟩
  · rintro ⟨cs, hcs⟩
    have hreplaced : replacedChars text = cs := by
      rw [replacedChars, ← map_toNat_of_mapM hcs, List.map_map]
      have hchar : ∀ c ∈ cs, ((fun code => (codePointChar code).getD replacementChar) ∘
          Char.toNat) c = c := by
        intro c _
        simp [codePointChar_toNat]
      rw [List.map_congr_left hchar, List.map_id']
    rw [toWellFormed, hreplaced]
    exact chars_eq_some_iff.mp hcs

/-- A text without surrogates is well formed. -/
theorem isSome_chars {text : JsString} (h : ∀ unit ∈ text, unit.toNat.isValidChar) :
    (chars text).isSome = true := by
  rw [Option.isSome_iff_exists]
  induction text with
  | nil => exact ⟨[], rfl⟩
  | cons unit text ih =>
      obtain ⟨cs, hcs⟩ := ih fun other hother => h other (List.mem_cons_of_mem unit hother)
      have hvalid := h unit List.mem_cons_self
      refine ⟨Char.ofNat unit.toNat :: cs, ?_⟩
      rw [chars_eq_some_iff] at hcs ⊢
      have hunit : (Char.ofNat unit.toNat).toNat = unit.toNat := by
        apply toNat_of_codePointChar
        rw [codePointChar, dif_pos hvalid, Char.ofNat, dif_pos hvalid]
      rw [List.flatMap_cons, hcs, utf16, hunit, codePointUnits_toNat]
      rfl

end Js
end NocoMiddleware
