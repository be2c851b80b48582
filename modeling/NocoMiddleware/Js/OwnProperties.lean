import NocoMiddleware.Js.Json

/-!
# Own properties

The language lists the own properties of an object in a fixed order: first the array indices,
ascending, then the other keys as they were added.  `setMember` creates or overwrites one
property in a list of properties; where the keys come in order it only appends.  `JSON.parse`
builds its objects with it, so the members of the values that it returns are in order.
-/

namespace NocoMiddleware
namespace Js

/-! ## The order of keys -/

/-- The array index that a key is: the number, below `2^32 - 1`, whose text is the key. -/
def arrayIndex (key : JsString) : Option Nat :=
  if (JsNumber.ofNat (digitsValue key)).text = key ∧ digitsValue key < 2 ^ 32 - 1 then
    some (digitsValue key)
  else none

/-- The first key is listed before the second one, which is another key. -/
def precedes (first second : JsString) : Bool :=
  match arrayIndex first, arrayIndex second with
  | some n, some m => n < m
  | some _, none => true
  | none, some _ => false
  | none, none => first ≠ second

example : precedes (js "2") (js "10") = true ∧ precedes (js "10") (js "") = true ∧
    precedes (js "01") (js "1") = false := by decide

section

variable {first second third key : JsString}

theorem text_of_arrayIndex {n : Nat} (h : arrayIndex key = some n) :
    (JsNumber.ofNat n).text = key := by
  unfold arrayIndex at h
  split at h
  · next hindex =>
      rw [← Option.some.inj h]
      exact hindex.1
  · cases h

/-- An index is the index of one key. -/
theorem eq_of_arrayIndex {n : Nat} (hfirst : arrayIndex first = some n)
    (hsecond : arrayIndex second = some n) : first = second := by
  rw [← text_of_arrayIndex hfirst, text_of_arrayIndex hsecond]

theorem ne_of_precedes (h : precedes first second = true) : first ≠ second := by
  rintro rfl
  unfold precedes at h
  cases hindex : arrayIndex first with
  | none => simp [hindex] at h
  | some n => simp [hindex] at h

/-- Of two keys one precedes the other. -/
theorem precedes_total (hne : first ≠ second) :
    precedes first second = true ∨ precedes second first = true := by
  unfold precedes
  cases hfirst : arrayIndex first with
  | none =>
      cases hsecond : arrayIndex second with
      | none => exact Or.inl (by simpa using hne)
      | some m => exact Or.inr rfl
  | some n =>
      cases hsecond : arrayIndex second with
      | none => exact Or.inl rfl
      | some m =>
          have hindices : n ≠ m := by
            rintro rfl
            exact hne (eq_of_arrayIndex hfirst hsecond)
          simp only [decide_eq_true_eq]
          omega

/-- A key that comes before a key, but not after it, comes before all later keys. -/
theorem precedes_trans (h : precedes key first = true) (hnot : precedes first key = false)
    (hnext : precedes first second = true) : precedes key second = true := by
  unfold precedes at h hnot hnext ⊢
  cases hkey : arrayIndex key with
  | none =>
      -- of two keys that are no indices, each may come first
      cases hfirst : arrayIndex first with
      | none =>
          simp only [hkey, hfirst, decide_eq_true_eq, decide_eq_false_iff_not] at h hnot
          exact absurd h.symm hnot
      | some n => simp [hkey, hfirst] at h
  | some k =>
      cases hsecond : arrayIndex second with
      | none => rfl
      | some m =>
          cases hfirst : arrayIndex first with
          | none => simp [hfirst, hsecond] at hnext
          | some n =>
              simp only [hkey, hfirst, hsecond, decide_eq_true_eq] at h hnext ⊢
              omega

end

/-! ## Setting a property -/

section

variable {α β : Type} {members : List (JsString × α)} {key : JsString} {value : α}

/-- The keys of the members are distinct and in the order in which the language lists them. -/
def InOrder (members : List (JsString × α)) : Prop :=
  (members.map Prod.fst).Pairwise fun first second => precedes first second = true

instance (members : List (JsString × α)) : Decidable (InOrder members) :=
  inferInstanceAs (Decidable (List.Pairwise _ _))

/-- The own properties after `object[key] = value`: a value is overwritten where it is, a new
key goes to its place in the order. -/
def setMember (members : List (JsString × α)) (key : JsString) (value : α) :
    List (JsString × α) :=
  if ∃ member ∈ members, member.1 = key then
    members.map fun member => if member.1 = key then (key, value) else member
  else
    members.takeWhile (fun member => precedes member.1 key) ++ (key, value) ::
      members.dropWhile fun member => precedes member.1 key

/-- A key that comes after all others is appended. -/
theorem setMember_of_inOrder (h : InOrder (members ++ [(key, value)])) :
    setMember members key value = members ++ [(key, value)] := by
  unfold InOrder at h
  rw [List.map_append, List.pairwise_append] at h
  have hbefore : ∀ member ∈ members, precedes member.1 key = true := by
    intro member hmember
    exact h.2.2 member.1 (List.mem_map_of_mem hmember) key (by simp)
  have hnew : ¬ ∃ member ∈ members, member.1 = key := by
    rintro ⟨member, hmember, heq⟩
    exact ne_of_precedes (hbefore member hmember) heq
  rw [setMember, if_neg hnew, List.takeWhile_eq_self_iff.mpr hbefore,
    List.dropWhile_eq_nil_iff.mpr hbefore]

theorem mem_setMember {member : JsString × α} (h : member ∈ setMember members key value) :
    member = (key, value) ∨ member ∈ members := by
  unfold setMember at h
  split at h
  · obtain ⟨old, hold, rfl⟩ := List.mem_map.mp h
    by_cases hkey : old.1 = key
    · exact Or.inl (if_pos hkey)
    · rw [if_neg hkey]
      exact Or.inr hold
  · rcases List.mem_append.mp h with hleft | hright
    · exact Or.inr (List.takeWhile_subset _ hleft)
    · rcases List.mem_cons.mp hright with heq | hright
      · exact Or.inl heq
      · exact Or.inr (List.dropWhile_subset _ hright)

/-- The new key precedes the members that do not precede it. -/
theorem precedes_of_mem_dropWhile (h : InOrder members)
    (hnew : ¬ ∃ member ∈ members, member.1 = key) :
    ∀ member ∈ members.dropWhile (fun member => precedes member.1 key),
      precedes key member.1 = true := by
  have hother : ∀ member ∈ members.dropWhile fun member => precedes member.1 key,
      member.1 ≠ key := by
    intro member hmember heq
    exact hnew ⟨member, List.dropWhile_subset _ hmember, heq⟩
  have hnot := List.head?_dropWhile_not (fun member => precedes member.1 key) members
  have hsuffix := List.dropWhile_suffix (l := members) fun member => precedes member.1 key
  have hright := List.Pairwise.sublist (hsuffix.sublist.map Prod.fst) h
  cases hdrop : members.dropWhile fun member => precedes member.1 key with
  | nil => simp
  | cons member rest =>
      rw [hdrop] at hnot hother hright
      have hmember : precedes key member.1 = true := by
        apply (precedes_total (hother member List.mem_cons_self)).resolve_left
        exact ne_true_of_eq_false hnot
      -- the members after the first one follow it, and so they follow the new key
      intro last hlast
      rcases List.mem_cons.mp hlast with rfl | hlast
      · exact hmember
      · have hnext := (List.pairwise_cons.mp hright).1 last.1 (List.mem_map_of_mem hlast)
        exact precedes_trans hmember hnot hnext

/-- Setting a property keeps the order. -/
theorem inOrder_setMember (h : InOrder members) : InOrder (setMember members key value) := by
  unfold setMember
  split
  · have hkeys : (members.map fun member => if member.1 = key then (key, value) else member).map
        Prod.fst = members.map Prod.fst := by
      rw [List.map_map]
      apply List.map_congr_left
      intro member _
      by_cases hkey : member.1 = key
      · simp [hkey]
      · simp [hkey]
    unfold InOrder
    rw [hkeys]
    exact h
  · next hnew =>
      have hafter := precedes_of_mem_dropWhile h hnew
      unfold InOrder at h ⊢
      rw [List.pairwise_map] at h ⊢
      rw [← List.takeWhile_append_dropWhile (l := members)
        (p := fun member => precedes member.1 key), List.pairwise_append] at h
      obtain ⟨hleft, hright, hcross⟩ := h
      rw [List.pairwise_append, List.pairwise_cons]
      refine ⟨hleft, ⟨hafter, hright⟩, ?_⟩
      intro member hmember last hlast
      rcases List.mem_cons.mp hlast with rfl | hlast
      · have hbefore := List.mem_takeWhile_imp hmember
        exact hbefore
      · exact hcross member hmember last hlast

end

/-! ## The values of `JSON.parse` -/

namespace Json

/-- The rule for JSON values: a property of the entries of an array, or of the values in an
object, goes over to it. -/
theorem rule {motive : Json → Prop} (hnull : motive .null)
    (hboolean : ∀ value, motive (.boolean value)) (hnumber : ∀ value, motive (.number value))
    (hstring : ∀ value, motive (.string value))
    (harray : ∀ entries, (∀ entry ∈ entries, motive entry) → motive (.array entries))
    (hobject : ∀ members, (∀ member ∈ members, motive member.2) → motive (.object members)) :
    ∀ value, motive value
  | .null => hnull
  | .boolean value => hboolean value
  | .number value => hnumber value
  | .string value => hstring value
  | .array entries => harray entries fun entry _ =>
      rule hnull hboolean hnumber hstring harray hobject entry
  | .object members => hobject members fun member hmember => by
      have hsize := List.sizeOf_lt_of_mem hmember
      exact rule hnull hboolean hnumber hstring harray hobject member.2
termination_by value => sizeOf value
decreasing_by
  · decreasing_tactic
  · obtain ⟨key, value⟩ := member
    simp only [Prod.mk.sizeOf_spec, object.sizeOf_spec] at hsize ⊢
    omega

/-- The first value is part of the second one, or the second one itself. -/
inductive Within : Json → Json → Prop where
  | refl (value : Json) : Within value value
  | entry {value entry : Json} {entries : List Json} (hentry : entry ∈ entries)
      (hvalue : Within value entry) : Within value (.array entries)
  | member {value : Json} {member : JsString × Json} {members : List (JsString × Json)}
      (hmember : member ∈ members) (hvalue : Within value member.2) :
      Within value (.object members)

/-- The members of every object in the value have a property. -/
def EveryObject (property : List (JsString × Json) → Prop) (value : Json) : Prop :=
  ∀ members, Within (.object members) value → property members

/-- The members of every object in the value are in order. -/
def WellFormed (value : Json) : Prop :=
  EveryObject InOrder value

mutual

/-- The value that `JSON.parse` makes of a document: the members of an object are set one
after the other, so that the last one of a key counts. -/
def parsed : Json → Json
  | null => null
  | boolean value => boolean value
  | number value => number value
  | string value => string value
  | array entries => array (parsedEntries entries)
  | object members => object (parsedMembers [] members)

/-- The entries of an array. -/
def parsedEntries : List Json → List Json
  | [] => []
  | entry :: entries => parsed entry :: parsedEntries entries

/-- The members of an object, after those that are already set. -/
def parsedMembers (set : List (JsString × Json)) :
    List (JsString × Json) → List (JsString × Json)
  | [] => set
  | (key, value) :: members => parsedMembers (setMember set key (parsed value)) members

end

example : parsed (.object [(js "b", .null), (js "7", .null), (js "b", .boolean true)]) =
    .object [(js "7", .null), (js "b", .boolean true)] := rfl

section

variable {value : Json} {entries : List Json} {members set : List (JsString × Json)}

theorem parsedEntries_eq_map : parsedEntries entries = entries.map parsed := by
  induction entries with
  | nil => rfl
  | cons entry entries ih => rw [parsedEntries, ih, List.map_cons]

theorem everyObject_array_iff {property : List (JsString × Json) → Prop} :
    EveryObject property (.array entries) ↔ ∀ entry ∈ entries, EveryObject property entry := by
  constructor
  · intro h entry hentry members hwithin
    exact h members (.entry hentry hwithin)
  · intro h members hwithin
    cases hwithin with
    | entry hentry hvalue => exact h _ hentry members hvalue

theorem everyObject_object_iff {property : List (JsString × Json) → Prop} :
    EveryObject property (.object members) ↔
      property members ∧ ∀ member ∈ members, EveryObject property member.2 := by
  constructor
  · intro h
    refine ⟨h members (.refl _), fun member hmember inner hwithin => ?_⟩
    exact h inner (.member hmember hwithin)
  · rintro ⟨hproperty, hmembers⟩ inner hwithin
    cases hwithin with
    | refl => exact hproperty
    | member hmember hvalue => exact hmembers _ hmember inner hvalue

/-- A value that is neither an array nor an object has nothing in it. -/
theorem everyObject_of_leaf {property : List (JsString × Json) → Prop}
    (harray : ∀ entries, value ≠ .array entries) (hobject : ∀ members, value ≠ .object members) :
    EveryObject property value := by
  intro members hwithin
  cases hwithin with
  | refl => exact absurd rfl (hobject members)
  | entry _ _ => exact absurd rfl (harray _)
  | member _ _ => exact absurd rfl (hobject _)

/-- Setting well-formed members one after the other. -/
theorem wellFormed_parsedMembers (horder : InOrder set)
    (hset : ∀ member ∈ set, WellFormed member.2)
    (hmembers : ∀ member ∈ members, WellFormed (parsed member.2)) :
    WellFormed (.object (parsedMembers set members)) := by
  induction members generalizing set with
  | nil => exact everyObject_object_iff.mpr ⟨horder, hset⟩
  | cons member members ih =>
      obtain ⟨key, value⟩ := member
      apply ih (inOrder_setMember horder)
      · intro member hmember
        rcases mem_setMember hmember with rfl | hmember
        · exact hmembers (key, value) List.mem_cons_self
        · exact hset member hmember
      · intro member hmember
        exact hmembers member (List.mem_cons_of_mem _ hmember)

theorem wellFormed_parsed (document : Json) : WellFormed (parsed document) := by
  induction document using Json.rule with
  | hnull => exact everyObject_of_leaf (by simp [parsed]) (by simp [parsed])
  | hboolean value => exact everyObject_of_leaf (by simp [parsed]) (by simp [parsed])
  | hnumber value => exact everyObject_of_leaf (by simp [parsed]) (by simp [parsed])
  | hstring value => exact everyObject_of_leaf (by simp [parsed]) (by simp [parsed])
  | harray entries ih =>
      show EveryObject InOrder _
      rw [parsed, parsedEntries_eq_map, everyObject_array_iff]
      intro entry hentry
      obtain ⟨document, hdocument, rfl⟩ := List.mem_map.mp hentry
      exact ih document hdocument
  | hobject members ih =>
      rw [parsed]
      exact wellFormed_parsedMembers List.Pairwise.nil (by simp) ih

/-- Members that are in order are set as they are. -/
theorem parsedMembers_of_inOrder (horder : InOrder (set ++ members))
    (hmembers : ∀ member ∈ members, parsed member.2 = member.2) :
    parsedMembers set members = set ++ members := by
  induction members generalizing set with
  | nil => rw [parsedMembers, List.append_nil]
  | cons member members ih =>
      obtain ⟨key, value⟩ := member
      have hsplit : set ++ (key, value) :: members = (set ++ [(key, value)]) ++ members := by
        rw [List.append_assoc, List.singleton_append]
      have hvalue : parsed value = value := hmembers (key, value) List.mem_cons_self
      rw [hsplit] at horder ⊢
      have hnext : InOrder (set ++ [(key, value)]) := by
        unfold InOrder at horder ⊢
        rw [List.map_append] at horder
        exact (List.pairwise_append.mp horder).1
      rw [parsedMembers, hvalue, setMember_of_inOrder hnext]
      apply ih horder
      intro member hmember
      exact hmembers member (List.mem_cons_of_mem _ hmember)

theorem parsed_of_wellFormed (h : WellFormed value) : parsed value = value := by
  induction value using Json.rule with
  | hnull => rfl
  | hboolean value => rfl
  | hnumber value => rfl
  | hstring value => rfl
  | harray entries ih =>
      have hentries := everyObject_array_iff.mp h
      rw [parsed, parsedEntries_eq_map, List.map_congr_left (g := id), List.map_id]
      intro entry hentry
      exact ih entry hentry (hentries entry hentry)
  | hobject members ih =>
      obtain ⟨horder, hmembers⟩ := everyObject_object_iff.mp h
      rw [parsed, @parsedMembers_of_inOrder members [] horder, List.nil_append]
      intro member hmember
      exact ih member hmember (hmembers member hmember)

/-- The well-formed values are those that `JSON.parse` returns. -/
theorem wellFormed_iff : WellFormed value ↔ ∃ document, parsed document = value := by
  constructor
  · intro h
    exact ⟨value, parsed_of_wellFormed h⟩
  · rintro ⟨document, rfl⟩
    exact wellFormed_parsed document

end

end Json

end Js
end NocoMiddleware
