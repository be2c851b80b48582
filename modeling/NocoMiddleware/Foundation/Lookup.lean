import Mathlib.Data.List.Nodup
import Mathlib.Tactic.Common

/-!
# Lookups in a list

The first element of a list with a decidable property, as a store looks a row up by a key:
what it is, when it is a given element, and what becomes of it when an element is added at
the end or replaced.
-/

namespace NocoMiddleware
namespace Foundation

variable {α : Type} {p : α → Prop} [DecidablePred p] {list : List α} {a : α}

theorem of_find (h : list.find? (fun b => p b) = some a) : a ∈ list ∧ p a := by
  have hproperty := List.find?_some h
  rw [decide_eq_true_iff] at hproperty
  exact ⟨List.mem_of_find?_eq_some h, hproperty⟩

theorem find_eq_none : list.find? (fun b => p b) = none ↔ ∀ b ∈ list, ¬ p b := by
  simp only [List.find?_eq_none, decide_eq_true_iff]

theorem find_of_mem (ha : a ∈ list) (hp : p a) : ∃ b, list.find? (fun b => p b) = some b := by
  cases hfind : list.find? fun b => p b with
  | none => exact absurd hp (find_eq_none.mp hfind a ha)
  | some b => exact ⟨b, rfl⟩

/-- The only element with the property is found. -/
theorem find_of_unique (ha : a ∈ list) (hp : p a) (hunique : ∀ b ∈ list, p b → b = a) :
    list.find? (fun b => p b) = some a := by
  obtain ⟨b, hfind⟩ := find_of_mem ha hp
  obtain ⟨hb, hpb⟩ := of_find hfind
  rw [hfind, hunique b hb hpb]

theorem find_of_key {κ : Type} [DecidableEq κ] {key : α → κ} (hkeys : (list.map key).Nodup)
    (ha : a ∈ list) : list.find? (fun b => key b = key a) = some a := by
  apply find_of_unique ha (Eq.refl (key a))
  intro b hb hkey
  exact List.inj_on_of_nodup_map hkeys hb ha hkey

/-! ## One more element -/

theorem find_concat_of_some {b : α} (h : list.find? (fun b => p b) = some a) :
    (list ++ [b]).find? (fun b => p b) = some a := by
  rw [List.find?_append, h, Option.some_or]

theorem find_concat_of_not (hp : ¬ p a) :
    (list ++ [a]).find? (fun b => p b) = list.find? fun b => p b := by
  rw [List.find?_append, List.find?_cons_of_neg (by simpa using hp), List.find?_nil,
    Option.or_none]

theorem find_concat_of_none (h : list.find? (fun b => p b) = none) (hp : p a) :
    (list ++ [a]).find? (fun b => p b) = some a := by
  rw [List.find?_append, h, Option.none_or, List.find?_cons_of_pos (by simpa using hp)]

/-! ## A replaced element -/

/-- A replacement that does not change the property does not change the lookup, but for the
element itself. -/
theorem find_replace [DecidableEq α] {a' : α} (hp : p a' ↔ p a) :
    (list.map fun b => if b = a then a' else b).find? (fun b => p b) =
      (list.find? fun b => p b).map fun b => if b = a then a' else b := by
  have hsame : ((fun b => decide (p b)) ∘ fun b => if b = a then a' else b) =
      fun b => decide (p b) := by
    funext b
    show decide (p (if b = a then a' else b)) = decide (p b)
    by_cases heq : b = a
    · rw [heq, if_pos rfl, decide_eq_decide]
      exact hp
    · rw [if_neg heq]
  rw [List.find?_map, hsame]

/-- An element that gets the property is found, if no other element was. -/
theorem find_replace_of_first [DecidableEq α] {a' : α} (ha : a ∈ list) (hp : p a')
    (hfirst : ∀ b, list.find? (fun b => p b) = some b → b = a) :
    (list.map fun b => if b = a then a' else b).find? (fun b => p b) = some a' := by
  induction list with
  | nil => contradiction
  | cons b rest ih =>
      rw [List.map_cons]
      by_cases heq : b = a
      · rw [if_pos heq, List.find?_cons_of_pos (by simpa using hp)]
      · have hnot : ¬ p b := by
          intro hb
          exact heq (hfirst b (List.find?_cons_of_pos (by simpa using hb)))
        have hfind : ∀ tail : List α,
            (b :: tail).find? (fun b => p b) = tail.find? fun b => p b :=
          fun tail => List.find?_cons_of_neg (by simpa using hnot)
        rw [if_neg heq, hfind]
        apply ih
        · exact (List.mem_cons.mp ha).resolve_left (Ne.symm heq)
        · rwa [hfind] at hfirst

end Foundation
end NocoMiddleware
