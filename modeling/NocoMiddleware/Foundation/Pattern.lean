import Mathlib.Computability.Language

/-!
# Anchored patterns over predicates

Regular patterns whose atoms are predicates on the alphabet, so that a
character class over a large alphabet is one atom.  `Pattern.language` is the
meaning of a pattern, `Pattern.test` the executable whole-word matcher by
derivatives, and `test_iff` their agreement.  The last section computes the
languages of the usual derived forms: literals, classes, `p+`, `p?` and
`p{0,n}`.
-/

namespace NocoMiddleware
namespace Foundation

open Computability

/-- Patterns over an alphabet `σ`. -/
inductive Pattern (σ : Type*) where
  | nothing
  | empty
  | symbol (p : σ → Bool)
  | either (left right : Pattern σ)
  | andThen (first second : Pattern σ)
  | many (body : Pattern σ)

namespace Pattern

variable {σ : Type*}

/-- The words that a pattern matches as a whole. -/
def language : Pattern σ → Language σ
  | nothing => 0
  | empty => 1
  | symbol p => {word | ∃ a, p a = true ∧ word = [a]}
  | either left right => left.language + right.language
  | andThen first second => first.language * second.language
  | many body => body.language∗

@[simp] theorem mem_language_empty (word : List σ) :
    word ∈ (empty : Pattern σ).language ↔ word = [] :=
  Language.mem_one word

@[simp] theorem mem_language_nothing (word : List σ) :
    word ∉ (nothing : Pattern σ).language :=
  Language.notMem_zero word

@[simp] theorem mem_language_symbol (p : σ → Bool) (word : List σ) :
    word ∈ (symbol p).language ↔ ∃ a, p a = true ∧ word = [a] :=
  Iff.rfl

@[simp] theorem mem_language_either (left right : Pattern σ) (word : List σ) :
    word ∈ (either left right).language ↔ word ∈ left.language ∨ word ∈ right.language :=
  Language.mem_add _ _ _

@[simp] theorem mem_language_andThen (first second : Pattern σ) (word : List σ) :
    word ∈ (andThen first second).language ↔
      ∃ u ∈ first.language, ∃ v ∈ second.language, u ++ v = word :=
  Language.mem_mul

/-! ## The matcher -/

/-- The pattern matches the empty word. -/
def nullable : Pattern σ → Bool
  | nothing => false
  | empty => true
  | symbol _ => false
  | either left right => left.nullable || right.nullable
  | andThen first second => first.nullable && second.nullable
  | many _ => true

/-- Alternative that drops a dead branch. -/
def eitherOf : Pattern σ → Pattern σ → Pattern σ
  | nothing, right => right
  | left, nothing => left
  | left, right => either left right

/-- Sequence that propagates a dead part and drops an empty one. -/
def sequenceOf : Pattern σ → Pattern σ → Pattern σ
  | nothing, _ => nothing
  | empty, second => second
  | first, second => andThen first second

/-- The words that may follow `a` in a match. -/
def derivative (a : σ) : Pattern σ → Pattern σ
  | nothing => nothing
  | empty => nothing
  | symbol p => if p a then empty else nothing
  | either left right => eitherOf (left.derivative a) (right.derivative a)
  | andThen first second =>
      if first.nullable then
        eitherOf (sequenceOf (first.derivative a) second) (second.derivative a)
      else sequenceOf (first.derivative a) second
  | many body => sequenceOf (body.derivative a) (many body)

/-- Whether the pattern matches the whole word. -/
def test (pattern : Pattern σ) : List σ → Bool
  | [] => pattern.nullable
  | a :: word => (pattern.derivative a).test word

theorem nullable_iff (pattern : Pattern σ) :
    pattern.nullable = true ↔ [] ∈ pattern.language := by
  induction pattern with
  | nothing => simp [nullable]
  | empty => simp [nullable]
  | symbol p => simp [nullable]
  | either left right ihleft ihright => simp [nullable, ihleft, ihright]
  | andThen first second ihfirst ihsecond => simp [nullable, ihfirst, ihsecond]
  | many body _ => simp [nullable, language, Language.nil_mem_kstar]

theorem mem_language_eitherOf (left right : Pattern σ) (word : List σ) :
    word ∈ (eitherOf left right).language ↔ word ∈ left.language ∨ word ∈ right.language := by
  unfold eitherOf
  split <;> simp

theorem mem_language_sequenceOf (first second : Pattern σ) (word : List σ) :
    word ∈ (sequenceOf first second).language ↔
      ∃ u ∈ first.language, ∃ v ∈ second.language, u ++ v = word := by
  unfold sequenceOf
  split <;> simp

/-- A nonempty word of a product begins in the first factor, or the first
factor matches the empty word and it begins in the second. -/
theorem cons_mem_mul {l m : Language σ} {a : σ} {word : List σ} :
    a :: word ∈ l * m ↔
      (∃ u, a :: u ∈ l ∧ ∃ v ∈ m, u ++ v = word) ∨ ([] ∈ l ∧ a :: word ∈ m) := by
  rw [Language.mem_mul]
  constructor
  · rintro ⟨u, hu, v, hv, huv⟩
    cases u with
    | nil =>
        rw [List.nil_append] at huv
        subst huv
        exact Or.inr ⟨hu, hv⟩
    | cons b u =>
        obtain ⟨rfl, rfl⟩ := List.cons.inj huv
        exact Or.inl ⟨u, hu, v, hv, rfl⟩
  · rintro (⟨u, hu, v, hv, rfl⟩ | ⟨hnil, hword⟩)
    · exact ⟨a :: u, hu, v, hv, rfl⟩
    · exact ⟨[], hnil, a :: word, hword, rfl⟩

/-- A nonempty word of an iteration begins with a nonempty word of the body. -/
theorem cons_mem_kstar {l : Language σ} {a : σ} {word : List σ} :
    a :: word ∈ l∗ ↔ ∃ u, a :: u ∈ l ∧ ∃ v ∈ l∗, u ++ v = word := by
  constructor
  · intro h
    obtain ⟨parts, hflatten, hparts⟩ := Language.mem_kstar_iff_exists_nonempty.mp h
    cases parts with
    | nil => simp at hflatten
    | cons part parts =>
        obtain ⟨hpart, hne⟩ := hparts part List.mem_cons_self
        cases part with
        | nil => exact absurd rfl hne
        | cons b u =>
            rw [List.flatten_cons, List.cons_append] at hflatten
            obtain ⟨rfl, rfl⟩ := List.cons.inj hflatten
            refine ⟨u, hpart, parts.flatten, ?_, rfl⟩
            exact Language.join_mem_kstar fun part hmem =>
              (hparts part (List.mem_cons_of_mem _ hmem)).1
  · rintro ⟨u, hu, v, hv, rfl⟩
    rw [← Language.one_add_self_mul_kstar_eq_kstar, Language.mem_add]
    exact Or.inr (Language.append_mem_mul hu hv)

/-- The derivative of a pattern matches the words that complete its first
symbol. -/
theorem mem_language_derivative (pattern : Pattern σ) (a : σ) (word : List σ) :
    word ∈ (pattern.derivative a).language ↔ a :: word ∈ pattern.language := by
  induction pattern generalizing word with
  | nothing => simp [derivative]
  | empty => simp [derivative]
  | symbol p =>
      by_cases h : p a = true
      · simp [derivative, h]
      · simp [derivative, h]
  | either left right ihleft ihright =>
      simp [derivative, mem_language_eitherOf, ihleft, ihright]
  | andThen first second ihfirst ihsecond =>
      have hmul : a :: word ∈ (andThen first second).language ↔
          (∃ u, a :: u ∈ first.language ∧ ∃ v ∈ second.language, u ++ v = word) ∨
            ([] ∈ first.language ∧ a :: word ∈ second.language) := cons_mem_mul
      rw [hmul, ← nullable_iff]
      by_cases h : first.nullable = true
      · simp [derivative, h, mem_language_eitherOf, mem_language_sequenceOf,
          ihfirst, ihsecond]
      · simp [derivative, h, mem_language_sequenceOf, ihfirst]
  | many body ih =>
      have hstar : a :: word ∈ (many body).language ↔
          ∃ u, a :: u ∈ body.language ∧ ∃ v ∈ (many body).language, u ++ v = word :=
        cons_mem_kstar
      rw [hstar]
      simp [derivative, mem_language_sequenceOf, ih]

/-- The matcher decides membership in the language of the pattern. -/
theorem test_iff (pattern : Pattern σ) (word : List σ) :
    pattern.test word = true ↔ word ∈ pattern.language := by
  induction word generalizing pattern with
  | nil => exact nullable_iff pattern
  | cons a word ih => rw [test, ih, mem_language_derivative]

/-! ## Derived forms -/

/-- `p?` -/
def optional (pattern : Pattern σ) : Pattern σ :=
  either pattern empty

/-- `p+` -/
def oneOrMore (pattern : Pattern σ) : Pattern σ :=
  andThen pattern (many pattern)

/-- `p{0,n}` -/
def upTo : Nat → Pattern σ → Pattern σ
  | 0, _ => empty
  | n + 1, pattern => optional (andThen pattern (upTo n pattern))

/-- A fixed word. -/
def literal [DecidableEq σ] : List σ → Pattern σ
  | [] => empty
  | a :: word => andThen (symbol fun b => b = a) (literal word)

@[simp] theorem mem_language_optional (pattern : Pattern σ) (word : List σ) :
    word ∈ pattern.optional.language ↔ word ∈ pattern.language ∨ word = [] := by
  simp [optional]

@[simp] theorem mem_language_literal [DecidableEq σ] (word other : List σ) :
    other ∈ (literal word).language ↔ other = word := by
  induction word generalizing other with
  | nil => simp [literal]
  | cons a word ih =>
      simp only [literal, mem_language_andThen, mem_language_symbol, decide_eq_true_eq, ih]
      constructor
      · rintro ⟨u, ⟨b, rfl, rfl⟩, v, rfl, rfl⟩
        rfl
      · rintro rfl
        exact ⟨[a], ⟨a, rfl, rfl⟩, word, rfl, rfl⟩

/-- `p*` over a class: words of members. -/
@[simp] theorem mem_language_many_symbol (p : σ → Bool) (word : List σ) :
    word ∈ (many (symbol p)).language ↔ ∀ a ∈ word, p a = true := by
  induction word with
  | nil =>
      have hnil : [] ∈ (many (symbol p)).language := Language.nil_mem_kstar _
      simp [hnil]
  | cons a word ih =>
      have hstar : a :: word ∈ (many (symbol p)).language ↔
          ∃ u, a :: u ∈ (symbol p).language ∧
            ∃ v ∈ (many (symbol p)).language, u ++ v = word := cons_mem_kstar
      rw [hstar]
      constructor
      · rintro ⟨u, hu, v, hv, rfl⟩
        obtain ⟨b, hb, hword⟩ := hu
        obtain ⟨rfl, rfl⟩ := List.cons.inj hword
        exact List.forall_mem_cons.mpr ⟨hb, ih.mp hv⟩
      · intro h
        obtain ⟨ha, hword⟩ := List.forall_mem_cons.mp h
        exact ⟨[], ⟨a, ha, rfl⟩, word, ih.mpr hword, rfl⟩

/-- `p+` over a class: nonempty words of members. -/
@[simp] theorem mem_language_oneOrMore_symbol (p : σ → Bool) (word : List σ) :
    word ∈ (oneOrMore (symbol p)).language ↔ word ≠ [] ∧ ∀ a ∈ word, p a = true := by
  simp only [oneOrMore, mem_language_andThen, mem_language_symbol, mem_language_many_symbol]
  constructor
  · rintro ⟨u, ⟨a, ha, rfl⟩, v, hv, rfl⟩
    exact ⟨by simp, List.forall_mem_cons.mpr ⟨ha, hv⟩⟩
  · rintro ⟨hne, hall⟩
    obtain ⟨a, word, rfl⟩ := List.exists_cons_of_ne_nil hne
    obtain ⟨ha, hword⟩ := List.forall_mem_cons.mp hall
    exact ⟨[a], ⟨a, ha, rfl⟩, word, hword, rfl⟩

/-- `p{0,n}` over a class: words of at most `n` members. -/
@[simp] theorem mem_language_upTo_symbol (p : σ → Bool) (n : Nat) (word : List σ) :
    word ∈ (upTo n (symbol p)).language ↔ word.length ≤ n ∧ ∀ a ∈ word, p a = true := by
  induction n generalizing word with
  | zero =>
      simp only [upTo, mem_language_empty, Nat.le_zero, List.length_eq_zero_iff]
      constructor
      · rintro rfl
        simp
      · exact fun h => h.1
  | succ n ih =>
      simp only [upTo, mem_language_optional, mem_language_andThen, mem_language_symbol, ih]
      constructor
      · rintro (⟨u, ⟨a, ha, rfl⟩, v, ⟨hlength, hall⟩, rfl⟩ | rfl)
        · exact ⟨by simpa using hlength, List.forall_mem_cons.mpr ⟨ha, hall⟩⟩
        · simp
      · rintro ⟨hlength, hall⟩
        cases word with
        | nil => exact Or.inr rfl
        | cons a word =>
            obtain ⟨ha, hword⟩ := List.forall_mem_cons.mp hall
            refine Or.inl ⟨[a], ⟨a, ha, rfl⟩, word, ⟨?_, hword⟩, rfl⟩
            simpa using hlength

/-- The words of an iteration are the concatenations of words of the body. -/
theorem mem_language_many (body : Pattern σ) (word : List σ) :
    word ∈ (many body).language ↔
      ∃ parts : List (List σ), word = parts.flatten ∧ ∀ part ∈ parts, part ∈ body.language :=
  Language.mem_kstar

end Pattern

end Foundation
end NocoMiddleware
