import Mathlib.Data.List.Basic
import Mathlib.Tactic.Common

/-!
# Codes that are read from the front

A symbol is written as a word, and a sequence of symbols as the words one after the other.  A
reader takes one symbol off the front of an input.  If it takes back every word, whatever
follows, then it takes back every sequence, and different sequences are written differently.
-/

namespace NocoMiddleware
namespace Foundation

variable {α β δ : Type}

/-- Reads one symbol and leaves the rest of the input. -/
abbrev Reader (δ β : Type) :=
  List β → Option (δ × List β)

/-- Reads at most `fuel` symbols, to the end of the input. -/
def Reader.readUpTo (read : Reader δ β) : Nat → List β → Option (List δ)
  | _, [] => some []
  | 0, _ :: _ => none
  | fuel + 1, first :: input => do
      let (symbol, rest) ← read (first :: input)
      let symbols ← readUpTo read fuel rest
      return symbol :: symbols

/-- Reads symbols to the end of the input. -/
def Reader.readAll (read : Reader δ β) (input : List β) : Option (List δ) :=
  read.readUpTo input.length input

/-- The reader takes back the word of every symbol, as the value of the symbol. -/
structure Reads (read : Reader δ β) (write : α → List β) (value : α → δ) : Prop where
  word_ne_nil : ∀ symbol, write symbol ≠ []
  read_word : ∀ symbol rest, read (write symbol ++ rest) = some (value symbol, rest)

namespace Reads

variable {read : Reader δ β} {write : α → List β} {value : α → δ}

theorem readUpTo (h : Reads read write value) {symbols : List α} {fuel : Nat}
    (hfuel : symbols.length ≤ fuel) :
    read.readUpTo fuel (symbols.flatMap write) = some (symbols.map value) := by
  induction symbols generalizing fuel with
  | nil => cases fuel <;> rfl
  | cons symbol symbols ih =>
      cases fuel with
      | zero =>
          rw [List.length_cons] at hfuel
          omega
      | succ fuel =>
          rw [List.length_cons] at hfuel
          have hrest := ih (show symbols.length ≤ fuel by omega)
          have hread := h.read_word symbol (symbols.flatMap write)
          rw [List.flatMap_cons, List.map_cons]
          cases hinput : write symbol ++ symbols.flatMap write with
          | nil => exact absurd (List.append_eq_nil_iff.mp hinput).1 (h.word_ne_nil symbol)
          | cons first input =>
              rw [hinput] at hread
              simp [Reader.readUpTo, hread, hrest]

theorem length_le (h : Reads read write value) (symbols : List α) :
    symbols.length ≤ (symbols.flatMap write).length := by
  induction symbols with
  | nil => simp
  | cons symbol symbols ih =>
      have hpos := List.length_pos_of_ne_nil (h.word_ne_nil symbol)
      rw [List.flatMap_cons, List.length_append, List.length_cons]
      omega

/-- What is written is read back. -/
theorem readAll (h : Reads read write value) (symbols : List α) :
    read.readAll (symbols.flatMap write) = some (symbols.map value) :=
  h.readUpTo (h.length_le symbols)

/-- Different sequences are written differently. -/
theorem flatMap_injective (h : Reads read write value) (hvalue : Function.Injective value) :
    Function.Injective fun symbols : List α => symbols.flatMap write := by
  intro first second heq
  have hread := h.readAll first
  rw [show first.flatMap write = second.flatMap write from heq, h.readAll second] at hread
  exact (List.map_injective_iff.mpr hvalue (Option.some.inj hread)).symm

end Reads

end Foundation
end NocoMiddleware
