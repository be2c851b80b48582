import Mathlib.Logic.Relation
import Mathlib.Tactic.Common

/-!
# Invariants of chains of steps, and unique keys

A relation `Preserves` a property if every step does; the property then holds
along every chain of steps.  `AtMostOne` says that a list holds at most one
element with a property, and `UniqueKeys` that it holds at most one for each key;
both with the three ways in which a table changes: an element is added, dropped or
replaced.
-/

namespace NocoMiddleware
namespace Foundation

section

variable {σ ι : Type*} {invariant : σ → Prop}

/-- Every step keeps the property. -/
def Preserves (step : σ → σ → Prop) (invariant : σ → Prop) : Prop :=
  ∀ state state', step state state' → invariant state → invariant state'

namespace Preserves

theorem reflTransGen {step : σ → σ → Prop} (h : Preserves step invariant) :
    Preserves (Relation.ReflTransGen step) invariant := by
  intro state state' hchain hinvariant
  induction hchain with
  | refl => exact hinvariant
  | tail _ hstep ih => exact h _ _ hstep ih

theorem or {first second : σ → σ → Prop} (hfirst : Preserves first invariant)
    (hsecond : Preserves second invariant) :
    Preserves (fun state state' => first state state' ∨ second state state') invariant := by
  rintro state state' (hstep | hstep)
  · exact hfirst _ _ hstep
  · exact hsecond _ _ hstep

theorem exists_index {step : ι → σ → σ → Prop} (h : ∀ index, Preserves (step index) invariant) :
    Preserves (fun state state' => ∃ index, step index state state') invariant := by
  rintro state state' ⟨index, hstep⟩
  exact h index _ _ hstep

/-- Some steps, each of one kind or for an element of a list, one after the other. -/
theorem someOf {step : σ → σ → Prop} {steps : ι → σ → σ → Prop} {indices : List ι}
    (hstep : Preserves step invariant)
    (hsteps : ∀ index ∈ indices, Preserves (steps index) invariant) :
    Preserves (Relation.ReflTransGen fun state state' =>
      step state state' ∨ ∃ index ∈ indices, steps index state state') invariant := by
  apply reflTransGen
  apply hstep.or
  rintro state state' ⟨index, hindex, hnext⟩
  exact hsteps index hindex state state' hnext

theorem andThen {first second : σ → σ → Prop} (hfirst : Preserves first invariant)
    (hsecond : Preserves second invariant) :
    Preserves (fun state state' => ∃ middle, first state middle ∧ second middle state')
      invariant := by
  rintro state state' ⟨middle, hstep, hrest⟩ hinvariant
  exact hsecond _ _ hrest (hfirst _ _ hstep hinvariant)

end Preserves

end

section

variable {α : Type*} {property : α → Prop}

/-- At most one element with a property. -/
def AtMostOne (property : α → Prop) (elements : List α) : Prop :=
  ∀ first ∈ elements, ∀ second ∈ elements, property first → property second → first = second

namespace AtMostOne

theorem of_subset {fewer elements : List α} (h : AtMostOne property elements)
    (hsubset : ∀ element ∈ fewer, element ∈ elements) : AtMostOne property fewer :=
  fun first hfirst second hsecond =>
    h first (hsubset first hfirst) second (hsubset second hsecond)

theorem singleton (element : α) : AtMostOne property [element] := by
  intro first hfirst second hsecond _ _
  rw [List.mem_singleton.mp hfirst, List.mem_singleton.mp hsecond]

/-- Adding an element, where there is none with the property if it has it. -/
theorem append_singleton {elements : List α} {added : α} (h : AtMostOne property elements)
    (hfree : property added → ∀ element ∈ elements, ¬ property element) :
    AtMostOne property (elements ++ [added]) := by
  intro first hfirst second hsecond hproperty hproperty'
  rw [List.mem_append, List.mem_singleton] at hfirst hsecond
  rcases hfirst with hfirst | rfl
  · rcases hsecond with hsecond | rfl
    · exact h first hfirst second hsecond hproperty hproperty'
    · exact absurd hproperty (hfree hproperty' first hfirst)
  · rcases hsecond with hsecond | rfl
    · exact absurd hproperty' (hfree hproperty second hsecond)
    · rfl

/-- Replacing an element by one that has the property only if no other element has it. -/
theorem replace_of_free {elements replaced : List α} {old new : α}
    (h : AtMostOne property elements)
    (hfree : property new → ∀ element ∈ elements, property element → element = old)
    (hreplaced : ∀ element ∈ replaced, (element ∈ elements ∧ element ≠ old) ∨ element = new) :
    AtMostOne property replaced := by
  intro first hfirst second hsecond hfirstProperty hsecondProperty
  rcases hreplaced first hfirst with ⟨hfirst, hne⟩ | rfl
  · rcases hreplaced second hsecond with ⟨hsecond, -⟩ | rfl
    · exact h first hfirst second hsecond hfirstProperty hsecondProperty
    · exact absurd (hfree hsecondProperty first hfirst hfirstProperty) hne
  · rcases hreplaced second hsecond with ⟨hsecond, hne⟩ | rfl
    · exact absurd (hfree hfirstProperty second hsecond hsecondProperty) hne
    · rfl

/-- Replacing an element by one that has the property only if the old one had it. -/
theorem replace {elements replaced : List α} {old new : α} (h : AtMostOne property elements)
    (hold : old ∈ elements) (hproperty : property new → property old)
    (hreplaced : ∀ element ∈ replaced, (element ∈ elements ∧ element ≠ old) ∨ element = new) :
    AtMostOne property replaced :=
  h.replace_of_free (fun hnew element helement hsame =>
    h element helement old hold hsame (hproperty hnew)) hreplaced

end AtMostOne

end

section

variable {α κ : Type*} {key : α → Option κ}

/-- At most one element for each key. -/
def UniqueKeys (key : α → Option κ) (elements : List α) : Prop :=
  ∀ k, AtMostOne (fun element => key element = some k) elements

namespace UniqueKeys

theorem of_subset {fewer elements : List α} (h : UniqueKeys key elements)
    (hsubset : ∀ element ∈ fewer, element ∈ elements) : UniqueKeys key fewer :=
  fun k => (h k).of_subset hsubset

theorem singleton (element : α) : UniqueKeys key [element] :=
  fun _ => .singleton element

/-- Adding an element whose key is not taken. -/
theorem append_singleton {elements : List α} {added : α} (h : UniqueKeys key elements)
    (hfree : ∀ k, key added = some k → ∀ element ∈ elements, key element ≠ some k) :
    UniqueKeys key (elements ++ [added]) :=
  fun k => (h k).append_singleton (hfree k)

/-- Replacing an element by one whose key no other element has. -/
theorem replace_of_free {elements replaced : List α} {old new : α} (h : UniqueKeys key elements)
    (hfree : ∀ k, key new = some k → ∀ element ∈ elements, key element = some k → element = old)
    (hreplaced : ∀ element ∈ replaced, (element ∈ elements ∧ element ≠ old) ∨ element = new) :
    UniqueKeys key replaced :=
  fun k => (h k).replace_of_free (hfree k) hreplaced

/-- Replacing an element by one with the same key or none. -/
theorem replace {elements replaced : List α} {old new : α} (h : UniqueKeys key elements)
    (hold : old ∈ elements) (hkey : ∀ k, key new = some k → key old = some k)
    (hreplaced : ∀ element ∈ replaced, (element ∈ elements ∧ element ≠ old) ∨ element = new) :
    UniqueKeys key replaced :=
  fun k => (h k).replace hold (hkey k) hreplaced

end UniqueKeys

end

end Foundation
end NocoMiddleware
