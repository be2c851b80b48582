import NocoMiddleware.Filter.FilterUtil

/-!
# Logical table names

`TABLE_NAME_PATTERN` of `table-name.ts`, and the facts about valid names that
the rest of the development uses: a valid name is nonempty, is unchanged by
trimming and contains neither a quotation mark nor a control character, so
`filterEq` accepts it as a value.
-/

namespace NocoMiddleware
namespace Tables

open Js Foundation

/-- The Unicode property tables of the JavaScript engine: `\p{L}` and `\p{N}` on
code points, with the facts about them that are used here.  On ASCII they are
the letters and the digits, and white space belongs to neither. -/
structure UnicodeClasses where
  letter : Nat → Bool
  number : Nat → Bool
  letter_ascii : ∀ code < 128,
    letter code = ((65 ≤ code && code ≤ 90) || (97 ≤ code && code ≤ 122))
  number_ascii : ∀ code < 128, number code = (48 ≤ code && code ≤ 57)
  whiteSpace_excluded : ∀ unit : CodeUnit, isWhiteSpace unit = true →
    letter unit.toNat = false ∧ number unit.toNat = false

namespace UnicodeClasses

/-- Property tables that know ASCII only. -/
def ascii : UnicodeClasses where
  letter code := (65 ≤ code && code ≤ 90) || (97 ≤ code && code ≤ 122)
  number code := 48 ≤ code && code ≤ 57
  letter_ascii _ _ := rfl
  number_ascii _ _ := rfl
  whiteSpace_excluded unit h := by
    simp only [isWhiteSpace, Bool.or_eq_true, Bool.and_eq_true, decide_eq_true_eq] at h
    simp only [Bool.or_eq_false_iff, Bool.and_eq_false_iff, decide_eq_false_iff_not]
    omega

end UnicodeClasses

section

variable (unicode : UnicodeClasses)

/-- `[\p{L}\p{N}_-]` -/
def isEdgeCode (code : Nat) : Bool :=
  unicode.letter code || unicode.number code || code = 95 || code = 45

/-- `[\p{L}\p{N} _-]` -/
def isInnerCode (code : Nat) : Bool :=
  isEdgeCode unicode code || code = 32

/-- `/^[\p{L}\p{N}_-](?:[\p{L}\p{N} _-]{0,253}[\p{L}\p{N}_-])?$/u`, a pattern over
code points. -/
def tableNamePattern : Pattern Nat :=
  .andThen (.symbol (isEdgeCode unicode))
    (.optional
      (.andThen (.upTo 253 (.symbol (isInnerCode unicode))) (.symbol (isEdgeCode unicode))))

/-- `isValidTableName`. -/
def isValidTableName (name : JsString) : Bool :=
  (tableNamePattern unicode).test (codePoints name)

theorem isValidTableName_iff (name : JsString) :
    isValidTableName unicode name = true ↔
      ∃ first, isEdgeCode unicode first = true ∧
        (codePoints name = [first] ∨
          ∃ middle last, middle.length ≤ 253 ∧
            (∀ code ∈ middle, isInnerCode unicode code = true) ∧
            isEdgeCode unicode last = true ∧ codePoints name = first :: (middle ++ [last])) := by
  simp only [isValidTableName, Pattern.test_iff, tableNamePattern,
    Pattern.mem_language_andThen, Pattern.mem_language_symbol, Pattern.mem_language_optional,
    Pattern.mem_language_upTo_symbol]
  constructor
  · rintro ⟨_, ⟨first, hfirst, rfl⟩, rest,
      ⟨middle, ⟨hlength, hmiddle⟩, _, ⟨last, hlast, rfl⟩, rfl⟩ | rfl, hname⟩
    · exact ⟨first, hfirst, Or.inr ⟨middle, last, hlength, hmiddle, hlast, by simp [← hname]⟩⟩
    · exact ⟨first, hfirst, Or.inl (by simp [← hname])⟩
  · rintro ⟨first, hfirst, hname | ⟨middle, last, hlength, hmiddle, hlast, hname⟩⟩
    · exact ⟨[first], ⟨first, hfirst, rfl⟩, [], Or.inr rfl, by simp [hname]⟩
    · exact ⟨[first], ⟨first, hfirst, rfl⟩, middle ++ [last],
        Or.inl ⟨middle, ⟨hlength, hmiddle⟩, [last], ⟨last, hlast, rfl⟩, rfl⟩, by simp [hname]⟩

variable {unicode}

theorem isInnerCode_of_isEdgeCode {code : Nat} (h : isEdgeCode unicode code = true) :
    isInnerCode unicode code = true := by
  simp [isInnerCode, h]

/-- The code points of a valid name: all are inner ones, the outermost two are
edges. -/
theorem codePoints_of_isValidTableName {name : JsString}
    (h : isValidTableName unicode name = true) :
    (∀ code ∈ codePoints name, isInnerCode unicode code = true) ∧
      (∀ code ∈ (codePoints name).head?, isEdgeCode unicode code = true) ∧
      (∀ code ∈ (codePoints name).getLast?, isEdgeCode unicode code = true) ∧
      codePoints name ≠ [] := by
  obtain ⟨first, hfirst, hname | ⟨middle, last, -, hmiddle, hlast, hname⟩⟩ :=
    (isValidTableName_iff unicode name).mp h
  · simp [hname, hfirst, isInnerCode_of_isEdgeCode]
  · refine ⟨?_, ?_, ?_, by simp [hname]⟩
    · intro code hcode
      rw [hname, List.mem_cons, List.mem_append, List.mem_singleton] at hcode
      rcases hcode with rfl | hcode | rfl
      · exact isInnerCode_of_isEdgeCode hfirst
      · exact hmiddle code hcode
      · exact isInnerCode_of_isEdgeCode hlast
    · intro code hcode
      obtain rfl : first = code := by simpa [hname] using hcode
      exact hfirst
    · intro code hcode
      have hlast_code : (codePoints name).getLast? = some last := by
        rw [hname, ← List.cons_append, List.getLast?_append]
        rfl
      obtain rfl : last = code := by simpa [hlast_code] using hcode
      exact hlast

/-- An edge code unit is not white space. -/
theorem not_isWhiteSpace_of_isEdgeCode {unit : CodeUnit}
    (h : isEdgeCode unicode unit.toNat = true) : isWhiteSpace unit = false := by
  by_contra hspace
  rw [Bool.not_eq_false] at hspace
  obtain ⟨hletter, hnumber⟩ := unicode.whiteSpace_excluded unit hspace
  simp only [isEdgeCode, hletter, hnumber, Bool.false_or, Bool.or_eq_true,
    decide_eq_true_eq] at h
  simp only [isWhiteSpace, Bool.or_eq_true, Bool.and_eq_true, decide_eq_true_eq] at hspace
  omega

/-- The ASCII code units of a valid name are letters, digits, spaces, `_` and
`-`. -/
theorem ascii_of_mem {name : JsString} (h : isValidTableName unicode name = true)
    {unit : CodeUnit} (hunit : unit ∈ name) (hascii : unit.toNat < 128) :
    32 ≤ unit.toNat ∧ unit.toNat ≠ 127 ∧ unit ≠ quotationMark := by
  have hhigh : isHighSurrogate unit = false := by
    simp only [isHighSurrogate, Bool.and_eq_false_iff, decide_eq_false_iff_not]
    omega
  have hlow : isLowSurrogate unit = false := by
    simp only [isLowSurrogate, Bool.and_eq_false_iff, decide_eq_false_iff_not]
    omega
  have hinner := (codePoints_of_isValidTableName h).1 _ (mem_codePoints_of_mem hunit hhigh hlow)
  simp only [isInnerCode, isEdgeCode, unicode.letter_ascii _ hascii,
    unicode.number_ascii _ hascii, Bool.or_eq_true, Bool.and_eq_true,
    decide_eq_true_eq] at hinner
  refine ⟨by omega, by omega, ?_⟩
  rintro rfl
  revert hinner
  decide

/-- Trimming leaves a valid name unchanged. -/
theorem trim_of_isValidTableName {name : JsString} (h : isValidTableName unicode name = true) :
    trim name = name := by
  obtain ⟨-, hhead, hlast, -⟩ := codePoints_of_isValidTableName h
  refine trim_eq_self ?_ ?_
  · intro unit hunit
    by_contra hspace
    rw [Bool.not_eq_false] at hspace
    obtain ⟨hhigh, -⟩ := isWhiteSpace_not_surrogate hspace
    cases name with
    | nil => simp at hunit
    | cons first rest =>
        obtain rfl : first = unit := by simpa using hunit
        have hedge := hhead _ (codePoints_head hhigh)
        rw [not_isWhiteSpace_of_isEdgeCode hedge] at hspace
        contradiction
  · intro unit hunit
    by_contra hspace
    rw [Bool.not_eq_false] at hspace
    obtain ⟨-, hlow⟩ := isWhiteSpace_not_surrogate hspace
    have hedge := hlast _ (codePoints_getLast hunit hlow)
    rw [not_isWhiteSpace_of_isEdgeCode hedge] at hspace
    contradiction

theorem ne_nil_of_isValidTableName {name : JsString}
    (h : isValidTableName unicode name = true) : name ≠ [] := by
  rw [Ne, ← codePoints_eq_nil_iff]
  exact (codePoints_of_isValidTableName h).2.2.2

theorem isEdgeCode_of_ascii {code : Nat} (hcode : code < 128)
    (h : isEdgeCode .ascii code = true) : isEdgeCode unicode code = true := by
  rw [isEdgeCode, unicode.letter_ascii code hcode, unicode.number_ascii code hcode]
  exact h

theorem isInnerCode_of_ascii {code : Nat} (hcode : code < 128)
    (h : isInnerCode .ascii code = true) : isInnerCode unicode code = true := by
  simp only [isInnerCode, Bool.or_eq_true] at h ⊢
  rcases h with h | h
  · exact Or.inl (isEdgeCode_of_ascii hcode h)
  · exact Or.inr h

/-- An ASCII name that is valid for ASCII property tables is valid for all. -/
theorem isValidTableName_of_ascii {name : JsString} (hascii : ∀ code ∈ codePoints name, code < 128)
    (h : isValidTableName .ascii name = true) : isValidTableName unicode name = true := by
  obtain ⟨first, hfirst, hname⟩ := (isValidTableName_iff _ name).mp h
  refine (isValidTableName_iff unicode name).mpr ⟨first, ?_, ?_⟩
  · refine isEdgeCode_of_ascii (hascii first ?_) hfirst
    rcases hname with hname | ⟨middle, last, -, -, -, hname⟩
    · simp [hname]
    · simp [hname]
  · rcases hname with hname | ⟨middle, last, hlength, hmiddle, hlast, hname⟩
    · exact Or.inl hname
    · refine Or.inr ⟨middle, last, hlength, fun code hcode => ?_, ?_, hname⟩
      · exact isInnerCode_of_ascii (hascii code (by simp [hname, hcode])) (hmiddle code hcode)
      · exact isEdgeCode_of_ascii (hascii last (by simp [hname])) hlast

theorem mem_of_mem_leadUnits {text : JsString} {unit : CodeUnit}
    (h : unit ∈ Filter.leadUnits text) : unit ∈ text := by
  induction text using Filter.leadUnits.induct with
  | case1 => exact h
  | case2 single => exact h
  | case3 first second rest hpair ih =>
      rw [Filter.leadUnits, if_pos hpair] at h
      rcases List.mem_cons.mp h with rfl | h
      · exact List.mem_cons_self
      · exact List.mem_cons_of_mem _ (List.mem_cons_of_mem _ (ih h))
  | case4 first second rest hpair ih =>
      rw [Filter.leadUnits, if_neg hpair] at h
      rcases List.mem_cons.mp h with rfl | h
      · exact List.mem_cons_self
      · exact List.mem_cons_of_mem _ (ih h)

/-- A valid table name is a valid filter value and is quoted as it is. -/
theorem formatFilterValue_of_isValidTableName {name : JsString}
    (h : isValidTableName unicode name = true) :
    Filter.formatFilterValue (.string name) =
      .ok (quotationMark :: name ++ [quotationMark]) := by
  have hquote : quotationMark ∉ name := fun hmem =>
    (ascii_of_mem h hmem (by decide)).2.2 rfl
  have hcontrol : Filter.hasControlCharacter name = false := by
    rw [Filter.hasControlCharacter, List.any_eq_false]
    intro unit hunit hcode
    simp only [Bool.or_eq_true, decide_eq_true_eq, UInt16.lt_iff_toNat_lt,
      ← UInt16.toNat_inj] at hcode
    have hascii : unit.toNat < 128 := by
      rcases hcode with hcode | hcode
      · exact lt_trans hcode (by decide)
      · rw [hcode]
        decide
    obtain ⟨hprint, hdelete, -⟩ := ascii_of_mem h (mem_of_mem_leadUnits hunit) hascii
    rcases hcode with hcode | hcode
    · exact absurd hcode (Nat.not_lt.mpr hprint)
    · exact hdelete hcode
  simp [Filter.formatFilterValue, trim_of_isValidTableName h, ne_nil_of_isValidTableName h,
    hquote, hcontrol]

end

example : isValidTableName .ascii (js "Customer Orders_2") = true := by decide
example : isValidTableName .ascii (js " leading") = false := by decide

end Tables
end NocoMiddleware
