import NocoMiddleware.Auth.BootstrapAdminService
import NocoMiddleware.Foundation.PrefixCode
import NocoMiddleware.Js.WellFormed

/-!
# The token for administrators

`assertBootstrapAllowed` compares the UTF-8 bytes of two tokens.  Different sequences of
characters have different bytes, but `Buffer.from` writes a lone surrogate as U+FFFD, so the
tokens agree if they do after this replacement.
-/

namespace NocoMiddleware
namespace Auth

open NocoMiddleware.Js NocoMiddleware.Foundation

/-- Reads the character that bytes begin with. -/
def readUtf8 : Reader Char UInt8 := fun bytes =>
  (bytes.toByteArray.utf8DecodeChar? 0).map fun c => (c, bytes.drop c.utf8Size)

theorem reads_utf8 : Reads readUtf8 String.utf8EncodeChar id where
  word_ne_nil _ := String.utf8EncodeChar_ne_nil
  read_word c rest := by
    unfold readUtf8
    rw [List.toByteArray_append, ByteArray.utf8DecodeChar?_utf8EncodeChar_append, Option.map_some,
      ← String.length_utf8EncodeChar, List.drop_left]
    rfl

/-- The bytes of a character are its UTF-8 bytes. -/
theorem utf8Bytes_toNat (c : Char) :
    utf8Bytes c.toNat = (String.utf8EncodeChar c).map UInt8.toNat := by
  have hvalid : c.toNat.isValidChar := c.valid
  have hval : c.val.toNat = c.toNat := rfl
  unfold Nat.isValidChar at hvalid
  have hpoint : (if 0xD800 ≤ c.toNat ∧ c.toNat ≤ 0xDFFF then 0xFFFD else c.toNat) = c.toNat :=
    if_neg (by omega)
  unfold utf8Bytes String.utf8EncodeChar
  dsimp only
  rw [hpoint, hval]
  by_cases hone : c.toNat < 0x80
  · rw [if_pos hone, if_pos (show c.toNat ≤ 0x7F by omega)]
    simp only [List.map_cons, List.map_nil, UInt8.toNat_ofNat', List.cons.injEq, and_true]
    omega
  · rw [if_neg hone, if_neg (show ¬ c.toNat ≤ 0x7F by omega)]
    by_cases htwo : c.toNat < 0x800
    · rw [if_pos htwo, if_pos (show c.toNat ≤ 0x7FF by omega)]
      simp only [List.map_cons, List.map_nil, UInt8.toNat_ofNat', List.cons.injEq, and_true]
      omega
    · rw [if_neg htwo, if_neg (show ¬ c.toNat ≤ 0x7FF by omega)]
      by_cases hthree : c.toNat < 0x10000
      · rw [if_pos hthree, if_pos (show c.toNat ≤ 0xFFFF by omega)]
        simp only [List.map_cons, List.map_nil, UInt8.toNat_ofNat', List.cons.injEq, and_true]
        omega
      · rw [if_neg hthree, if_neg (show ¬ c.toNat ≤ 0xFFFF by omega)]
        simp only [List.map_cons, List.map_nil, UInt8.toNat_ofNat', List.cons.injEq, and_true]
        omega

theorem codePoints_lt {text : JsString} {code : Nat} (h : code ∈ codePoints text) :
    code < 0x110000 := by
  induction text using codePoints.induct with
  | case1 => contradiction
  | case2 single =>
      have hlt : single.toNat < 0x10000 := single.toNat_lt
      rw [codePoints, List.mem_singleton] at h
      omega
  | case3 first second rest hpair ih =>
      rw [codePoints, if_pos hpair, List.mem_cons] at h
      rcases h with hcode | h
      · rw [Bool.and_eq_true] at hpair
        rw [hcode]
        exact (pairCodePoint_bounds hpair.1 hpair.2).2.1
      · exact ih h
  | case4 first second rest hpair ih =>
      have hlt : first.toNat < 0x10000 := first.toNat_lt
      rw [codePoints, if_neg hpair, List.mem_cons] at h
      rcases h with rfl | h
      · omega
      · exact ih h

/-- The bytes of a lone surrogate are those of U+FFFD. -/
theorem utf8Bytes_replaced {code : Nat} (h : code < 0x110000) :
    utf8Bytes code = utf8Bytes ((codePointChar code).getD replacementChar).toNat := by
  cases hchar : codePointChar code with
  | some c => rw [Option.getD_some, toNat_of_codePointChar hchar]
  | none =>
      have hsurrogate : 0xD800 ≤ code ∧ code ≤ 0xDFFF := by
        have hnot := codePointChar_eq_none_iff.mp hchar
        unfold Nat.isValidChar at hnot
        omega
      unfold utf8Bytes
      dsimp only
      rw [if_pos hsurrogate]
      rfl

/-- `Buffer.from` writes the UTF-8 form of the characters of a string. -/
theorem bufferFrom_eq (text : JsString) :
    bufferFrom text = ((replacedChars text).flatMap String.utf8EncodeChar).map UInt8.toNat := by
  rw [bufferFrom, replacedChars, List.flatMap_map, List.map_flatMap]
  apply List.flatMap_congr
  intro code hcode
  rw [utf8Bytes_replaced (codePoints_lt hcode), utf8Bytes_toNat]

/-- Strings have the same bytes exactly if they agree after the replacement. -/
theorem bufferFrom_eq_iff {first second : JsString} :
    bufferFrom first = bufferFrom second ↔ toWellFormed first = toWellFormed second := by
  rw [bufferFrom_eq, bufferFrom_eq]
  constructor
  · intro h
    have hbytes := List.map_injective_iff.mpr (fun _ _ => UInt8.toNat_inj.mp) h
    have hchars := reads_utf8.flatMap_injective Function.injective_id hbytes
    rw [toWellFormed, toWellFormed, hchars]
  · intro h
    rw [flatMap_utf16_injective h]

/-! ## Main result -/

theorem allowed_iff_of_ne_nil {configured provided : JsString} (hconfigured : configured ≠ [])
    (hprovided : provided ≠ []) :
    assertBootstrapAllowed (some configured) (some provided) = .ok () ↔
      toWellFormed provided = toWellFormed configured := by
  rw [← bufferFrom_eq_iff, assertBootstrapAllowed, filter_ne_nil hconfigured]
  dsimp only
  rw [filter_ne_nil hprovided]
  dsimp only
  by_cases hbytes : bufferFrom provided = bufferFrom configured
  · rw [hbytes, if_neg (not_not.mpr rfl), if_neg (not_not.mpr rfl)]
    exact iff_of_true rfl rfl
  · rw [if_pos hbytes, ite_self]
    exact iff_of_false nofun hbytes

/-- A token that is missing or empty is not accepted, and nothing is without a configured one. -/
theorem given_of_allowed {configuredToken bootstrapToken : Option JsString}
    (h : assertBootstrapAllowed configuredToken bootstrapToken = .ok ()) :
    ∃ configured provided, configuredToken = some configured ∧ bootstrapToken = some provided ∧
      configured ≠ [] ∧ provided ≠ [] := by
  cases configuredToken with
  | none => contradiction
  | some configured =>
      by_cases hconfigured : configured = []
      · rw [hconfigured] at h
        contradiction
      · rw [assertBootstrapAllowed, filter_ne_nil hconfigured] at h
        cases bootstrapToken with
        | none => contradiction
        | some provided =>
            by_cases hprovided : provided = []
            · rw [hprovided] at h
              contradiction
            · exact ⟨configured, provided, rfl, rfl, hconfigured, hprovided⟩

/-- The token of a request is accepted exactly if both tokens are given, neither is empty, and they
are equal up to lone surrogates; well-formed tokens are accepted exactly if they are equal. -/
theorem token_accepted_iff (configuredToken bootstrapToken : Option JsString) :
    (assertBootstrapAllowed configuredToken bootstrapToken = .ok () ↔
      ∃ configured provided, configuredToken = some configured ∧ bootstrapToken = some provided ∧
        configured ≠ [] ∧ provided ≠ [] ∧ toWellFormed provided = toWellFormed configured) ∧
      ∀ configured provided, toWellFormed configured = configured →
        toWellFormed provided = provided →
          (assertBootstrapAllowed (some configured) (some provided) = .ok () ↔
            configured ≠ [] ∧ provided = configured) := by
  constructor
  · constructor
    · intro h
      obtain ⟨configured, provided, rfl, rfl, hconfigured, hprovided⟩ := given_of_allowed h
      exact ⟨configured, provided, rfl, rfl, hconfigured, hprovided,
        (allowed_iff_of_ne_nil hconfigured hprovided).mp h⟩
    · rintro ⟨configured, provided, rfl, rfl, hconfigured, hprovided, h⟩
      exact (allowed_iff_of_ne_nil hconfigured hprovided).mpr h
  · intro configured provided hconfigured hprovided
    constructor
    · intro h
      obtain ⟨_, _, ⟨⟩, ⟨⟩, hne, hne'⟩ := given_of_allowed h
      have hequal := (allowed_iff_of_ne_nil hne hne').mp h
      rw [hconfigured, hprovided] at hequal
      exact ⟨hne, hequal⟩
    · rintro ⟨hne, rfl⟩
      exact (allowed_iff_of_ne_nil hne hne).mpr rfl

end Auth
end NocoMiddleware
