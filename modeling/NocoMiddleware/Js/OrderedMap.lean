import Mathlib.Data.List.Nodup
import Mathlib.Tactic.Common
import NocoMiddleware.Foundation.Lookup

/-!
# JavaScript maps

A `Map` of the language: entries with distinct keys, in insertion order.  Setting
an existing key keeps its position, deleting and setting again moves it to the
end.
-/

namespace NocoMiddleware
namespace Js

open Foundation

/-- A `Map`. -/
@[ext] structure OrderedMap (κ ν : Type) where
  entries : List (κ × ν)
  nodup : (entries.map Prod.fst).Nodup

namespace OrderedMap

variable {κ ν : Type} [DecidableEq κ]

instance [DecidableEq ν] : DecidableEq (OrderedMap κ ν) :=
  fun first second => decidable_of_iff (first.entries = second.entries) OrderedMap.ext_iff.symm

/-- `new Map()`. -/
def empty : OrderedMap κ ν :=
  ⟨[], List.nodup_nil⟩

/-- `map.get(key)`. -/
def get (map : OrderedMap κ ν) (key : κ) : Option ν :=
  (map.entries.find? fun entry => entry.1 = key).map Prod.snd

/-- `map.size`. -/
def size (map : OrderedMap κ ν) : Nat :=
  map.entries.length

/-- Deletes the entries that a predicate rejects. -/
def filter (p : κ × ν → Bool) (map : OrderedMap κ ν) : OrderedMap κ ν where
  entries := map.entries.filter p
  nodup := map.nodup.sublist (List.filter_sublist.map Prod.fst)

/-- `map.delete(key)`. -/
def delete (map : OrderedMap κ ν) (key : κ) : OrderedMap κ ν :=
  map.filter fun entry => entry.1 ≠ key

/-- Deletes the oldest entries, leaving at most `count`. -/
def keepNewest (count : Nat) (map : OrderedMap κ ν) : OrderedMap κ ν where
  entries := map.entries.drop (map.size - count)
  nodup := map.nodup.sublist ((List.drop_sublist _ _).map Prod.fst)

/-- `map.set(key, value)`. -/
def set (map : OrderedMap κ ν) (key : κ) (value : ν) : OrderedMap κ ν :=
  if h : key ∈ map.entries.map Prod.fst then
    { entries := map.entries.map fun entry => if entry.1 = key then (key, value) else entry
      nodup := by
        have hkeys : (map.entries.map fun entry =>
            if entry.1 = key then (key, value) else entry).map Prod.fst =
              map.entries.map Prod.fst := by
          rw [List.map_map]
          apply List.map_congr_left
          intro entry _
          by_cases hkey : entry.1 = key
          · simp [hkey]
          · simp [hkey]
        rw [hkeys]
        exact map.nodup }
  else
    { entries := map.entries ++ [(key, value)]
      nodup := by
        rw [List.map_append, List.nodup_append]
        refine ⟨map.nodup, by simp, ?_⟩
        rintro other hother _ hkey rfl
        obtain rfl : other = key := by simpa using hkey
        exact h hother }

@[simp] theorem get_empty (key : κ) : (empty : OrderedMap κ ν).get key = none := rfl

/-- The value of a key is the one of its only entry. -/
theorem get_eq_some_iff (map : OrderedMap κ ν) (key : κ) (value : ν) :
    map.get key = some value ↔ (key, value) ∈ map.entries := by
  unfold get
  rw [Option.map_eq_some_iff]
  constructor
  · rintro ⟨entry, hfind, rfl⟩
    obtain ⟨hmem, hkey⟩ := of_find hfind
    rwa [← hkey]
  · intro hmem
    exact ⟨(key, value), find_of_key map.nodup hmem, rfl⟩

theorem get_filter (p : κ × ν → Bool) (map : OrderedMap κ ν) (key : κ) (value : ν) :
    (map.filter p).get key = some value ↔ map.get key = some value ∧ p (key, value) = true := by
  simp only [get_eq_some_iff, filter, List.mem_filter]

@[simp] theorem get_delete_self (map : OrderedMap κ ν) (key : κ) :
    (map.delete key).get key = none := by
  rw [Option.eq_none_iff_forall_ne_some]
  intro value hvalue
  simpa using ((get_filter _ _ _ _).mp hvalue).2

theorem get_delete_of_ne (map : OrderedMap κ ν) {key other : κ} (hne : other ≠ key) :
    (map.delete key).get other = map.get other := by
  ext value
  rw [delete, get_filter]
  simp [hne]

/-- What is found after deleting a key was there under another key. -/
theorem get_of_get_delete {map : OrderedMap κ ν} {key other : κ} {value : ν}
    (h : (map.delete key).get other = some value) :
    other ≠ key ∧ map.get other = some value := by
  obtain ⟨hget, hne⟩ := (get_filter _ _ _ _).mp h
  exact ⟨by simpa using hne, hget⟩

theorem get_of_get_keepNewest {count : Nat} {map : OrderedMap κ ν} {key : κ} {value : ν}
    (h : (map.keepNewest count).get key = some value) : map.get key = some value := by
  rw [get_eq_some_iff] at h ⊢
  exact List.mem_of_mem_drop h

theorem mem_entries_set (map : OrderedMap κ ν) (key other : κ) (value found : ν) :
    (other, found) ∈ (map.set key value).entries ↔
      (other = key ∧ found = value) ∨ (other ≠ key ∧ (other, found) ∈ map.entries) := by
  unfold set
  split
  · next hkey =>
      obtain ⟨entry, hentry, hfst⟩ := List.mem_map.mp hkey
      simp only [List.mem_map]
      constructor
      · rintro ⟨old, hold, heq⟩
        by_cases hsame : old.1 = key
        · rw [if_pos hsame, Prod.mk.injEq] at heq
          exact Or.inl ⟨heq.1.symm, heq.2.symm⟩
        · rw [if_neg hsame] at heq
          subst heq
          exact Or.inr ⟨hsame, hold⟩
      · rintro (⟨rfl, rfl⟩ | ⟨hne, hmem⟩)
        · exact ⟨entry, hentry, by simp [hfst]⟩
        · exact ⟨(other, found), hmem, by simp [hne]⟩
  · next hkey =>
      have hne : (other, found) ∈ map.entries → other ≠ key := by
        rintro hmem rfl
        exact hkey (List.mem_map.mpr ⟨_, hmem, rfl⟩)
      simp only [List.mem_append, List.mem_singleton, Prod.mk.injEq]
      tauto

@[simp] theorem get_set_self (map : OrderedMap κ ν) (key : κ) (value : ν) :
    (map.set key value).get key = some value := by
  rw [get_eq_some_iff, mem_entries_set]
  exact Or.inl ⟨rfl, rfl⟩

theorem get_set_of_ne (map : OrderedMap κ ν) {key other : κ} (value : ν) (hne : other ≠ key) :
    (map.set key value).get other = map.get other := by
  ext found
  rw [get_eq_some_iff, get_eq_some_iff, mem_entries_set]
  simp [hne]

theorem get_set (map : OrderedMap κ ν) (key other : κ) (value : ν) :
    (map.set key value).get other = if other = key then some value else map.get other := by
  split
  · next h =>
      subst h
      exact get_set_self map other value
  · next h => exact get_set_of_ne map value h

end OrderedMap

end Js
end NocoMiddleware
