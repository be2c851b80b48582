import NocoMiddleware.Js.Text

/-!
# Splitting strings

`split` by a regular expression that matches a nonempty run of separators, such as
`/\s+/`, and `split` by one code unit.  The callers drop empty pieces; what then remains
are the words of the text (`words`), and the words of joined texts are their words one
after the other.
-/

namespace NocoMiddleware
namespace Js

section

variable (separates : CodeUnit → Bool)

/-- `text.split(/S+/)` for the separators `S`: the pieces between maximal runs. -/
def splitRuns : JsString → List JsString
  | [] => [[]]
  | unit :: rest =>
      if separates unit then
        if rest.head?.any separates then splitRuns rest else [] :: splitRuns rest
      else (splitRuns rest).modifyHead (unit :: ·)

/-- The nonempty pieces of a text. -/
def words (text : JsString) : List JsString :=
  (splitRuns separates text).filter (· ≠ [])

end

variable {separates : CodeUnit → Bool}

/-- Splitting at runs and splitting at each separator agree in the first piece, and in the
others up to empty pieces. -/
theorem splitRuns_splitOnP (separates : CodeUnit → Bool) (text : JsString) :
    ∃ first others others', splitRuns separates text = first :: others ∧
      text.splitOnP separates = first :: others' ∧
      others.filter (· ≠ []) = others'.filter (· ≠ []) := by
  induction text with
  | nil => exact ⟨[], [], [], rfl, List.splitOnP_nil, rfl⟩
  | cons unit rest ih =>
      obtain ⟨first, others, others', hruns, hsplit, hrest⟩ := ih
      rw [List.splitOnP_cons_eq_if_modifyHead, hsplit, splitRuns, hruns]
      by_cases hunit : separates unit = true
      · rw [if_pos hunit, if_pos hunit]
        split
        · next hnext =>
            -- the next unit separates as well, so the first piece is empty
            obtain ⟨other, hother, hseparates⟩ := (Option.any_eq_true _ _).mp hnext
            obtain ⟨tail, rfl⟩ := List.head?_eq_some_iff.mp hother
            rw [List.splitOnP_cons_eq_if_modifyHead, if_pos hseparates] at hsplit
            obtain ⟨rfl, -⟩ := List.cons.inj hsplit
            exact ⟨[], others, [] :: others', rfl, rfl, by simpa using hrest⟩
        · refine ⟨[], first :: others, first :: others', rfl, rfl, ?_⟩
          simp only [List.filter_cons, hrest]
      · rw [if_neg hunit, if_neg hunit]
        exact ⟨unit :: first, others, others', rfl, rfl, hrest⟩

theorem words_eq_splitOnP (text : JsString) :
    words separates text = (text.splitOnP separates).filter (· ≠ []) := by
  obtain ⟨first, others, others', hruns, hsplit, hrest⟩ := splitRuns_splitOnP separates text
  rw [words, hruns, hsplit, List.filter_cons, List.filter_cons, hrest]

@[simp] theorem words_nil : words separates [] = [] := rfl

/-- A word is a nonempty part of the text without a separator. -/
theorem of_mem_splitRuns {text piece : JsString} (h : piece ∈ splitRuns separates text) :
    ∀ unit ∈ piece, separates unit = false ∧ unit ∈ text := by
  induction text generalizing piece with
  | nil =>
      obtain rfl := List.mem_singleton.mp h
      simp
  | cons first rest ih =>
      have hrest : ∀ {other}, other ∈ splitRuns separates rest →
          ∀ unit ∈ other, separates unit = false ∧ unit ∈ first :: rest :=
        fun hother unit hunit =>
          ⟨(ih hother unit hunit).1, List.mem_cons_of_mem _ (ih hother unit hunit).2⟩
      rw [splitRuns] at h
      split_ifs at h with hfirst hnext
      · exact hrest h
      · rcases List.mem_cons.mp h with rfl | h
        · simp
        · exact hrest h
      · cases hpieces : splitRuns separates rest with
        | nil =>
            rw [hpieces] at h
            contradiction
        | cons head others =>
            rw [hpieces] at h hrest
            rcases List.mem_cons.mp h with rfl | h
            · intro unit hunit
              rcases List.mem_cons.mp hunit with rfl | hunit
              · exact ⟨by simpa using hfirst, List.mem_cons_self⟩
              · exact hrest List.mem_cons_self unit hunit
            · exact hrest (List.mem_cons_of_mem _ h)

theorem of_mem_words {text word : JsString} (h : word ∈ words separates text) :
    word ≠ [] ∧ ∀ unit ∈ word, separates unit = false ∧ unit ∈ text := by
  obtain ⟨hpiece, hne⟩ := List.mem_filter.mp h
  exact ⟨by simpa using hne, of_mem_splitRuns hpiece⟩

/-- A separator ends a word. -/
theorem words_append_cons (first second : JsString) {unit : CodeUnit}
    (h : separates unit = true) :
    words separates (first ++ unit :: second) =
      words separates first ++ words separates second := by
  simp only [words_eq_splitOnP, List.splitOnP_append_cons _ _ h, List.filter_append]

/-- A nonempty text without a separator is a word. -/
theorem words_of_not_separates {text : JsString} (hne : text ≠ [])
    (h : ∀ unit ∈ text, separates unit = false) : words separates text = [text] := by
  rw [words_eq_splitOnP, List.splitOnP_eq_singleton h]
  simp [hne]

/-- The words of texts that are joined by a separator. -/
theorem words_intercalate {unit : CodeUnit} (h : separates unit = true)
    (texts : List JsString) :
    words separates ([unit].intercalate texts) = texts.flatMap (words separates) := by
  induction texts with
  | nil => rfl
  | cons first rest ih =>
      cases rest with
      | nil => simp
      | cons second rest =>
          rw [List.intercalate_cons_cons, List.append_assoc, List.singleton_append,
            words_append_cons _ _ h, ih, List.flatMap_cons (x := first)]

example : splitRuns isWhiteSpace (js " a  b ") = [[], js "a", js "b", []] := by decide

end Js
end NocoMiddleware
