import Mathlib.Data.List.DropRight
import Mathlib.Data.UInt

/-!
# JavaScript strings

A JavaScript string is a finite sequence of 16-bit code units.  The middleware
receives its strings from JSON bodies, URL segments, tokens and NocoDB, so a
string may hold any code unit, lone surrogates included.  Operations of the
language that the middleware uses are given here with the meaning the language
specification fixes: `trim`, `startsWith`, `slice`, and the iteration by code
points that regular expressions with the `u` flag perform.
-/

namespace NocoMiddleware
namespace Js

/-- One UTF-16 code unit. -/
abbrev CodeUnit := UInt16

/-- A string of the language: its code units in order. -/
abbrev JsString := List CodeUnit

/-- A string literal of the source.  All of them are ASCII, where a character
is one code unit. -/
def js (literal : String) : JsString :=
  literal.toList.map fun character => UInt16.ofNat character.toNat

/-- A property of all units of a text, checked unit by unit. -/
theorem forall_units {text : JsString} {property : CodeUnit → Prop} [DecidablePred property]
    (h : text.all (fun unit => property unit) = true) : ∀ unit ∈ text, property unit := by
  simpa using h

/-- A text that is not empty is truthy. -/
theorem filter_ne_nil {text : JsString} (h : text ≠ []) :
    (some text).filter (fun text => text ≠ []) = some text := by
  rw [Option.filter_some, if_pos (by simpa using h)]

/-! ## Delimiters -/

/-- `"`. -/
def quotationMark : CodeUnit := 34
/-- `(`. -/
def leftParenthesis : CodeUnit := 40
/-- `)`. -/
def rightParenthesis : CodeUnit := 41
/-- `,`. -/
def commaUnit : CodeUnit := 44
/-- `-`. -/
def hyphenUnit : CodeUnit := 45
/-- `.`. -/
def fullStop : CodeUnit := 46
/-- `~`. -/
def tildeUnit : CodeUnit := 126

/-! ## Trimming -/

/-- The code units that `trim` strips: the white space and line terminators of
the language.  All of them lie outside the surrogate range. -/
def isWhiteSpace (unit : CodeUnit) : Bool :=
  let code := unit.toNat
  (9 ≤ code && code ≤ 13) || code = 0x20 || code = 0xA0 || code = 0x1680 ||
    (0x2000 ≤ code && code ≤ 0x200A) || code = 0x2028 || code = 0x2029 ||
    code = 0x202F || code = 0x205F || code = 0x3000 || code = 0xFEFF

/-- `String.prototype.trim`. -/
def trim (text : JsString) : JsString :=
  (text.dropWhile isWhiteSpace).rdropWhile isWhiteSpace

@[simp] theorem trim_nil : trim [] = [] := rfl

/-- A string whose first and last code units are not white space is unchanged
by trimming. -/
theorem trim_eq_self {text : JsString}
    (hhead : ∀ unit ∈ text.head?, isWhiteSpace unit = false)
    (hlast : ∀ unit ∈ text.getLast?, isWhiteSpace unit = false) :
    trim text = text := by
  cases text with
  | nil => rfl
  | cons first rest =>
      have hfirst : isWhiteSpace first = false := hhead first rfl
      have hdrop : (first :: rest).dropWhile isWhiteSpace = first :: rest := by
        simp [hfirst]
      unfold trim
      rw [hdrop, List.rdropWhile_eq_self_iff]
      intro hne
      have := hlast _ (List.getLast?_eq_getLast_of_ne_nil hne)
      simp [this]

/-- The first and the last code unit of a trimmed string are not white space. -/
theorem edges_of_trim (text : JsString) :
    (∀ unit ∈ (trim text).head?, isWhiteSpace unit = false) ∧
      (∀ unit ∈ (trim text).getLast?, isWhiteSpace unit = false) := by
  constructor
  · intro unit hunit
    obtain ⟨tail, htail⟩ := List.rdropWhile_prefix isWhiteSpace (l := text.dropWhile isWhiteSpace)
    have hhead : (text.dropWhile isWhiteSpace).head? = some unit := by
      have htrim : (trim text).head? = some unit := hunit
      rw [← htail, List.head?_append, ← trim, htrim, Option.some_or]
    have hnot := List.head?_dropWhile_not isWhiteSpace text
    rwa [hhead] at hnot
  · intro unit hunit
    obtain ⟨hne, rfl⟩ := List.mem_getLast?_eq_getLast hunit
    exact eq_false_of_ne_true (List.rdropWhile_last_not isWhiteSpace _ hne)

/-- Trimming again does nothing. -/
@[simp] theorem trim_trim (text : JsString) : trim (trim text) = trim text :=
  trim_eq_self (edges_of_trim text).1 (edges_of_trim text).2

/-- Trimming does nothing to a text without white space. -/
theorem trim_of_not_isWhiteSpace {text : JsString}
    (h : ∀ unit ∈ text, isWhiteSpace unit = false) : trim text = text :=
  trim_eq_self (fun unit hunit => h unit (List.mem_of_mem_head? hunit))
    (fun unit hunit => h unit (List.mem_of_mem_getLast? hunit))

/-! ## Code points -/

/-- A code unit that opens a surrogate pair. -/
def isHighSurrogate (unit : CodeUnit) : Bool :=
  0xD800 ≤ unit.toNat && unit.toNat ≤ 0xDBFF

/-- A code unit that closes a surrogate pair. -/
def isLowSurrogate (unit : CodeUnit) : Bool :=
  0xDC00 ≤ unit.toNat && unit.toNat ≤ 0xDFFF

/-- The code point that a surrogate pair stands for. -/
def pairCodePoint (high low : CodeUnit) : Nat :=
  0x10000 + (high.toNat - 0xD800) * 0x400 + (low.toNat - 0xDC00)

/-- The code points of a string, as the string iterator and regular
expressions with the `u` flag read them: a lone surrogate stands for itself. -/
def codePoints : JsString → List Nat
  | [] => []
  | [unit] => [unit.toNat]
  | first :: second :: rest =>
      if isHighSurrogate first && isLowSurrogate second then
        pairCodePoint first second :: codePoints rest
      else
        first.toNat :: codePoints (second :: rest)

@[simp] theorem codePoints_nil : codePoints [] = [] := rfl

theorem codePoints_eq_nil_iff (text : JsString) : codePoints text = [] ↔ text = [] := by
  constructor
  · intro h
    match text with
    | [] => rfl
    | [_] => simp [codePoints] at h
    | first :: second :: rest =>
        unfold codePoints at h
        split at h <;> simp at h
  · rintro rfl
    rfl

/-- A code unit that is no surrogate is a code point of its string. -/
theorem mem_codePoints_of_mem {text : JsString} {unit : CodeUnit} (h : unit ∈ text)
    (hhigh : isHighSurrogate unit = false) (hlow : isLowSurrogate unit = false) :
    unit.toNat ∈ codePoints text := by
  induction text using codePoints.induct with
  | case1 => simp at h
  | case2 single =>
      obtain rfl := List.mem_singleton.mp h
      simp [codePoints]
  | case3 first second rest hpair ih =>
      rw [codePoints, if_pos hpair]
      simp only [Bool.and_eq_true] at hpair
      have hne_first : unit ≠ first := by
        rintro rfl
        simp [hhigh] at hpair
      have hne_second : unit ≠ second := by
        rintro rfl
        simp [hlow] at hpair
      have hrest : unit ∈ rest := by
        simpa [hne_first, hne_second] using h
      exact List.mem_cons_of_mem _ (ih hrest)
  | case4 first second rest hpair ih =>
      rw [codePoints, if_neg hpair]
      rcases List.mem_cons.mp h with rfl | hrest
      · exact List.mem_cons_self
      · exact List.mem_cons_of_mem _ (ih hrest)

/-- The first code point of a string that does not start with a surrogate is
its first code unit. -/
theorem codePoints_head {first : CodeUnit} {rest : JsString}
    (hhigh : isHighSurrogate first = false) :
    (codePoints (first :: rest)).head? = some first.toNat := by
  cases rest with
  | nil => rfl
  | cons second rest => simp [codePoints, hhigh]

/-- The last code point of a string that does not end with a surrogate is its
last code unit. -/
theorem codePoints_getLast {text : JsString} {last : CodeUnit}
    (h : text.getLast? = some last) (hlow : isLowSurrogate last = false) :
    (codePoints text).getLast? = some last.toNat := by
  induction text using codePoints.induct with
  | case1 => simp at h
  | case2 single =>
      obtain rfl : single = last := by simpa using h
      rfl
  | case3 first second rest hpair ih =>
      rw [codePoints, if_pos hpair]
      cases rest with
      | nil =>
          obtain rfl : second = last := by simpa using h
          simp [hlow] at hpair
      | cons third rest =>
          have hrest : (third :: rest).getLast? = some last := by simpa using h
          have hne : codePoints (third :: rest) ≠ [] := by
            simp [codePoints_eq_nil_iff]
          rw [List.getLast?_cons_of_ne_nil hne]
          exact ih hrest
  | case4 first second rest hpair ih =>
      rw [codePoints, if_neg hpair]
      have hrest : (second :: rest).getLast? = some last := by simpa using h
      have hne : codePoints (second :: rest) ≠ [] := by
        simp [codePoints_eq_nil_iff]
      rw [List.getLast?_cons_of_ne_nil hne]
      exact ih hrest

/-- White space code units are not surrogates. -/
theorem isWhiteSpace_not_surrogate {unit : CodeUnit} (h : isWhiteSpace unit = true) :
    isHighSurrogate unit = false ∧ isLowSurrogate unit = false := by
  simp only [isWhiteSpace, isHighSurrogate, isLowSurrogate, Bool.or_eq_true,
    Bool.and_eq_true, decide_eq_true_eq, Bool.and_eq_false_iff,
    decide_eq_false_iff_not] at *
  omega

end Js
end NocoMiddleware
