import NocoMiddleware.Js.OwnProperties

/-!
# `SanitizeMiddleware`

`sanitizeValue` rebuilds a request value with every string sanitized.  It fills an object
literal by assignment, and an assignment to `__proto__` creates no property: it calls the
setter that the literal inherits, which replaces the prototype of the literal.
-/

namespace NocoMiddleware
namespace Middleware

open Js

/-! ## Objects with prototypes -/

/-- A value of the language without functions.  The prototype of an object is `none` for
`Object.prototype`, which every literal has. -/
inductive JsTree where
  | null
  | boolean (value : Bool)
  | number (value : JsNumber)
  | string (value : JsString)
  | array (entries : List JsTree)
  | object (prototype : Option JsTree) (members : List (JsString × JsTree))

/-- `__proto__`. -/
def protoKey : JsString := js "__proto__"

/-- A literal that is being filled. -/
structure Literal where
  prototype : Option JsTree := none
  members : List (JsString × JsTree) := []

/-- `result[key] = value`, for a key that was not assigned before.  The setter of `__proto__`
takes an object, an array or `null` for the prototype and ignores any other value. -/
def Literal.assign (result : Literal) (key : JsString) (value : JsTree) : Literal :=
  if key = protoKey then
    match value with
    | .null | .array _ | .object _ _ => { result with prototype := some value }
    | _ => result
  else { result with members := setMember result.members key value }

/-! ## The middleware -/

section

variable (sanitizeHtml : JsString → JsString)

mutual

/-- `sanitizeValue`, with options for `sanitizeHtml`. -/
def sanitized : Json → JsTree
  | .null => .null
  | .boolean value => .boolean value
  | .number value => .number value
  | .string value => .string (sanitizeHtml value)
  | .array entries => .array (sanitizedItems entries)
  | .object members =>
      let result := sanitizedEntries {} members
      .object result.prototype result.members

/-- `value.map(...)`. -/
def sanitizedItems : List Json → List JsTree
  | [] => []
  | item :: items => sanitized item :: sanitizedItems items

/-- The loop over `Object.entries(value)`. -/
def sanitizedEntries (result : Literal) : List (JsString × Json) → Literal
  | [] => result
  | (key, val) :: entries => sanitizedEntries (result.assign key (sanitized val)) entries

end

mutual

/-- A JSON value with its strings replaced, and with everything else as it is: the keys of
its objects and their order, the entries of its arrays, and the prototypes, which are those
of literals. -/
def rebuilt : Json → JsTree
  | .null => .null
  | .boolean value => .boolean value
  | .number value => .number value
  | .string value => .string (sanitizeHtml value)
  | .array entries => .array (rebuiltItems entries)
  | .object members => .object none (rebuiltMembers members)

/-- The entries of an array. -/
def rebuiltItems : List Json → List JsTree
  | [] => []
  | item :: items => rebuilt item :: rebuiltItems items

/-- The members of an object. -/
def rebuiltMembers : List (JsString × Json) → List (JsString × JsTree)
  | [] => []
  | (key, value) :: members => (key, rebuilt value) :: rebuiltMembers members

end

end

/-- A JSON value as a value of the language. -/
def ofJson : Json → JsTree := rebuilt id

/-- `sanitizeValue`; there are no options where they are `false`. -/
def sanitizeValue (sanitizeOptions : Option (JsString → JsString)) (value : Json) : JsTree :=
  match sanitizeOptions with
  | none => ofJson value
  | some sanitizeHtml => sanitized sanitizeHtml value

/-- `sanitizeBody`, on the body of a request. -/
def sanitizeBody (options : Option (JsString → JsString)) (body : Json) : JsTree :=
  match body with
  | .array _ | .object _ => sanitizeValue options body
  | body => ofJson body

/-! ## What is rebuilt -/

section

variable {f : JsString → JsString} {result : Literal} {key : JsString} {value : JsTree}
  {items : List Json} {entries : List (JsString × Json)}

theorem sanitizedItems_eq_map : sanitizedItems f items = items.map (sanitized f) := by
  induction items with
  | nil => rfl
  | cons item items ih => rw [sanitizedItems, ih, List.map_cons]

theorem rebuiltItems_eq_map : rebuiltItems f items = items.map (rebuilt f) := by
  induction items with
  | nil => rfl
  | cons item items ih => rw [rebuiltItems, ih, List.map_cons]

theorem rebuiltMembers_eq_map :
    rebuiltMembers f entries = entries.map fun entry => (entry.1, rebuilt f entry.2) := by
  induction entries with
  | nil => rfl
  | cons entry entries ih => rw [rebuiltMembers, ih, List.map_cons]

theorem assign_of_ne (hkey : key ≠ protoKey) :
    result.assign key value =
      { result with members := setMember result.members key value } := by
  unfold Literal.assign
  rw [if_neg hkey]

@[simp] theorem members_assign_protoKey : (result.assign protoKey value).members =
    result.members := by
  unfold Literal.assign
  rw [if_pos rfl]
  cases value <;> rfl

/-- The loop sets a property for every key but `__proto__`. -/
theorem members_sanitizedEntries
    (horder : InOrder (result.members ++
      (entries.filter fun entry => entry.1 ≠ protoKey).map fun entry =>
        (entry.1, sanitized f entry.2))) :
    (sanitizedEntries f result entries).members = result.members ++
      (entries.filter fun entry => entry.1 ≠ protoKey).map fun entry =>
        (entry.1, sanitized f entry.2) := by
  induction entries generalizing result with
  | nil => simp [sanitizedEntries]
  | cons entry entries ih =>
      obtain ⟨key, val⟩ := entry
      rw [sanitizedEntries]
      by_cases hkey : key = protoKey
      · subst hkey
        rw [List.filter_cons_of_neg (by simp)] at horder ⊢
        rw [ih (by rwa [members_assign_protoKey]), members_assign_protoKey]
      · rw [List.filter_cons_of_pos (by simpa using hkey), List.map_cons] at horder ⊢
        -- the key comes after those that are set already
        have hnext : InOrder (result.members ++ [(key, sanitized f val)]) := by
          unfold InOrder at horder ⊢
          apply List.Pairwise.sublist _ horder
          apply List.Sublist.map
          exact List.Sublist.append_left (by simp) _
        have hmembers : (result.assign key (sanitized f val)).members =
            result.members ++ [(key, sanitized f val)] := by
          rw [assign_of_ne hkey]
          exact setMember_of_inOrder hnext
        have hsplit : ∀ rest : List (JsString × JsTree),
            result.members ++ (key, sanitized f val) :: rest =
              (result.assign key (sanitized f val)).members ++ rest := by
          intro rest
          rw [hmembers, List.append_assoc, List.singleton_append]
        rw [hsplit] at horder ⊢
        exact ih horder

/-- Without the key the prototype is left alone. -/
theorem prototype_sanitizedEntries (hkey : protoKey ∉ entries.map Prod.fst) :
    (sanitizedEntries f result entries).prototype = result.prototype := by
  induction entries generalizing result with
  | nil => rfl
  | cons entry entries ih =>
      obtain ⟨key, val⟩ := entry
      rw [List.map_cons, List.mem_cons, not_or] at hkey
      rw [sanitizedEntries, ih hkey.2, assign_of_ne (Ne.symm hkey.1)]

/-- What becomes of an object: the property for `__proto__` is missing. -/
theorem sanitized_object (horder : InOrder entries) :
    ∃ prototype, sanitized f (.object entries) = .object prototype
        ((entries.filter fun entry => entry.1 ≠ protoKey).map fun entry =>
          (entry.1, sanitized f entry.2)) ∧
      (protoKey ∉ entries.map Prod.fst → prototype = none) := by
  have hkept : InOrder ((entries.filter fun entry => entry.1 ≠ protoKey).map fun entry =>
      (entry.1, sanitized f entry.2)) := by
    unfold InOrder at horder ⊢
    rw [List.map_map]
    exact List.Pairwise.sublist (List.filter_sublist.map Prod.fst) horder
  refine ⟨(sanitizedEntries f {} entries).prototype, ?_, fun hkey => ?_⟩
  · rw [sanitized]
    congr 1
    exact members_sanitizedEntries hkept
  · exact prototype_sanitizedEntries hkey

/-- An object keeps its keys only if none of them is `__proto__`. -/
theorem sanitized_object_eq_iff (horder : InOrder entries) :
    sanitized f (.object entries) = rebuilt f (.object entries) ↔
      protoKey ∉ entries.map Prod.fst ∧
        ∀ entry ∈ entries, sanitized f entry.2 = rebuilt f entry.2 := by
  obtain ⟨prototype, hsanitized, hprototype⟩ := sanitized_object (f := f) horder
  rw [hsanitized, rebuilt, rebuiltMembers_eq_map, JsTree.object.injEq]
  constructor
  · rintro ⟨-, hmembers⟩
    -- as many entries are left as there were, so none was dropped
    have hlength := congrArg List.length hmembers
    rw [List.length_map, List.length_map] at hlength
    have hall := List.filter_eq_self.mp (List.filter_sublist.eq_of_length hlength)
    have hkept := List.filter_eq_self.mpr hall
    rw [hkept] at hmembers
    constructor
    · intro hkey
      obtain ⟨entry, hentry, heq⟩ := List.mem_map.mp hkey
      exact of_decide_eq_true (hall entry hentry) heq
    · intro entry hentry
      exact congrArg Prod.snd (List.map_inj_left.mp hmembers entry hentry)
  · rintro ⟨hkey, hvalues⟩
    have hkept : entries.filter (fun entry => entry.1 ≠ protoKey) = entries := by
      apply List.filter_eq_self.mpr
      intro entry hentry
      apply decide_eq_true
      intro heq
      exact hkey (List.mem_map.mpr ⟨entry, hentry, heq⟩)
    refine ⟨hprototype hkey, ?_⟩
    rw [hkept]
    apply List.map_congr_left
    intro entry hentry
    rw [hvalues entry hentry]

/-- A well-formed value is rebuilt as it is exactly if no object in it has the key. -/
theorem sanitized_eq_iff {value : Json} (h : value.WellFormed) :
    sanitized f value = rebuilt f value ↔
      value.EveryObject fun members => protoKey ∉ members.map Prod.fst := by
  induction value using Json.rule with
  | hnull => exact iff_of_true rfl (Json.everyObject_of_leaf (by simp) (by simp))
  | hboolean value => exact iff_of_true rfl (Json.everyObject_of_leaf (by simp) (by simp))
  | hnumber value => exact iff_of_true rfl (Json.everyObject_of_leaf (by simp) (by simp))
  | hstring value => exact iff_of_true rfl (Json.everyObject_of_leaf (by simp) (by simp))
  | harray items ih =>
      have hitems := Json.everyObject_array_iff.mp h
      rw [Json.everyObject_array_iff, sanitized, rebuilt, JsTree.array.injEq,
        sanitizedItems_eq_map, rebuiltItems_eq_map, List.map_inj_left]
      constructor
      · intro heq item hitem
        exact (ih item hitem (hitems item hitem)).mp (heq item hitem)
      · intro hnone item hitem
        exact (ih item hitem (hitems item hitem)).mpr (hnone item hitem)
  | hobject members ih =>
      obtain ⟨horder, hmembers⟩ := Json.everyObject_object_iff.mp h
      rw [Json.everyObject_object_iff, sanitized_object_eq_iff horder]
      apply and_congr_right
      intro _
      constructor
      · intro heq member hmember
        exact (ih member hmember (hmembers member hmember)).mp (heq member hmember)
      · intro hnone member hmember
        exact (ih member hmember (hmembers member hmember)).mpr (hnone member hmember)

/-- Of the values that `JSON.parse` returns, exactly those without a key `__proto__` keep their
structure when they are sanitized. -/
theorem sanitize_preserves_iff (sanitizeHtml : JsString → JsString) (document : Json) :
    sanitizeValue (some sanitizeHtml) document.parsed = rebuilt sanitizeHtml document.parsed ↔
      ∀ members, Json.Within (.object members) document.parsed →
        protoKey ∉ members.map Prod.fst :=
  sanitized_eq_iff (Json.wellFormed_parsed document)

/-- A body that makes itself an administrator. -/
def hostileBody : Json :=
  .object [(protoKey, .object [(js "admin", .boolean true)]), (js "name", .string (js "x"))]

/-- The key is dropped, and the object behind it has become the prototype. -/
theorem hostileBody_not_preserved :
    sanitizeBody (some id) hostileBody.parsed =
        .object (some (.object none [(js "admin", .boolean true)]))
          [(js "name", .string (js "x"))] ∧
      ¬ ∀ (sanitizeHtml : JsString → JsString) (document : Json),
        sanitizeValue (some sanitizeHtml) document.parsed =
          rebuilt sanitizeHtml document.parsed := by
  have hbody : sanitizeBody (some id) hostileBody.parsed =
      .object (some (.object none [(js "admin", .boolean true)]))
        [(js "name", .string (js "x"))] := rfl
  refine ⟨hbody, fun h => ?_⟩
  have hrebuilt : sanitizeBody (some id) hostileBody.parsed =
      .object none [(protoKey, .object none [(js "admin", .boolean true)]),
        (js "name", .string (js "x"))] := h id hostileBody
  rw [hbody] at hrebuilt
  cases hrebuilt

end

end Middleware
end NocoMiddleware
