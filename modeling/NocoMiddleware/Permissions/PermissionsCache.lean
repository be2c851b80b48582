import NocoMiddleware.Js.OrderedMap
import NocoMiddleware.Permissions.CrudAction

/-!
# The permission cache

The in-memory cache of `PermissionsService`: a map from user ids to permissions
with an expiry time, which is checked when an entry is read.
-/

namespace NocoMiddleware
namespace Permissions

open NocoMiddleware.Js

/-- A `Set<CrudAction>`. -/
abbrev ActionSet := List CrudAction

/-- `actions.add(action)`. -/
def ActionSet.add (actions : ActionSet) (action : CrudAction) : ActionSet :=
  if actions.contains action then actions else actions ++ [action]

theorem ActionSet.mem_add (actions : ActionSet) (action other : CrudAction) :
    other ∈ actions.add action ↔ other ∈ actions ∨ other = action := by
  unfold ActionSet.add
  split
  · next h =>
      constructor
      · exact Or.inl
      · rintro (hmem | rfl)
        · exact hmem
        · simpa using h
  · simp

/-- `UserPermissions`. -/
structure UserPermissions where
  userId : JsNumber
  username : JsValue
  roles : List JsValue
  permissions : OrderedMap JsValue ActionSet
  deriving DecidableEq

/-- The permissions allow the action on the table. -/
def UserPermissions.allows (value : UserPermissions) (table : JsString) (action : CrudAction) :
    Bool :=
  match value.permissions.get (.string table) with
  | none => false
  | some actions => actions.contains action

/-- An entry of the cache. -/
structure CacheEntry where
  value : UserPermissions
  expiresAt : Nat
  deriving DecidableEq

/-- `permissionsCache`. -/
abbrev PermissionsCache := OrderedMap JsNumber CacheEntry

/-- `PERMISSIONS_CACHE_TTL_MS`. -/
def permissionsCacheTtlMs : Nat := 5 * 60 * 1000

/-- `PERMISSIONS_CACHE_MAX_ENTRIES`. -/
def permissionsCacheMaxEntries : Nat := 1000

namespace PermissionsCache

/-- The entry that answers a lookup of a user at a time: it must not be expired. -/
def live (cache : PermissionsCache) (now : Nat) (userId : JsNumber) : Option UserPermissions :=
  ((cache.get userId).filter fun cached => now < cached.expiresAt).map CacheEntry.value

/-- `cachePermissions`: drops expired entries, then the entry of the user, then the
oldest ones while the cache is full, and inserts. -/
def cachePermissions (cache : PermissionsCache) (now : Nat) (userId : JsNumber)
    (value : UserPermissions) : PermissionsCache :=
  let unexpired := cache.filter fun entry => now < entry.2.expiresAt
  let others := unexpired.delete userId
  let kept := others.keepNewest (permissionsCacheMaxEntries - 1)
  kept.set userId ⟨value, now + permissionsCacheTtlMs⟩

/-- `clearCache`. -/
def clear (cache : PermissionsCache) (userId : Option JsNumber) : PermissionsCache :=
  match userId with
  | some id => if id.truthy then cache.delete id else .empty
  | none => .empty

end PermissionsCache

/-- A call of `clearCache` with this argument drops the entry of the user. -/
def Covers (cleared : Option JsNumber) (userId : JsNumber) : Prop :=
  ∀ id, cleared = some id → id.truthy = true → id = userId

instance (cleared : Option JsNumber) (userId : JsNumber) : Decidable (Covers cleared userId) :=
  match cleared with
  | none => isTrue fun _ h => by cases h
  | some id =>
      decidable_of_iff (id.truthy = true → id = userId)
        ⟨fun h other hother htruthy => by
          obtain rfl := Option.some.inj hother
          exact h htruthy, fun h htruthy => h id rfl htruthy⟩

namespace PermissionsCache

theorem live_eq_some_iff (cache : PermissionsCache) (now : Nat) (userId : JsNumber)
    (value : UserPermissions) :
    cache.live now userId = some value ↔
      ∃ entry, cache.get userId = some entry ∧ now < entry.expiresAt ∧ entry.value = value := by
  simp only [live, Option.map_eq_some_iff, Option.filter_eq_some_iff, decide_eq_true_eq]
  constructor
  · rintro ⟨entry, ⟨hget, hfresh⟩, hvalue⟩
    exact ⟨entry, hget, hfresh, hvalue⟩
  · rintro ⟨entry, hget, hfresh, hvalue⟩
    exact ⟨entry, ⟨hget, hfresh⟩, hvalue⟩

@[simp] theorem live_empty (now : Nat) (userId : JsNumber) :
    live .empty now userId = none := rfl

/-- An entry that is live later was live earlier. -/
theorem live_of_le {cache : PermissionsCache} {now later : Nat} {userId : JsNumber}
    {value : UserPermissions} (hle : now ≤ later) (h : cache.live later userId = some value) :
    cache.live now userId = some value := by
  obtain ⟨entry, hget, hfresh, hvalue⟩ := (live_eq_some_iff _ _ _ _).mp h
  exact (live_eq_some_iff _ _ _ _).mpr ⟨entry, hget, lt_of_le_of_lt hle hfresh, hvalue⟩

/-- After an insertion a live entry is the new one or was there before. -/
theorem live_cachePermissions {cache : PermissionsCache} {now later : Nat}
    {userId other : JsNumber} {value found : UserPermissions}
    (h : (cache.cachePermissions now userId value).live later other = some found) :
    (other = userId ∧ found = value) ∨
      (other ≠ userId ∧ cache.live later other = some found) := by
  obtain ⟨entry, hget, hfresh, rfl⟩ := (live_eq_some_iff _ _ _ _).mp h
  by_cases hother : other = userId
  · subst hother
    rw [cachePermissions, OrderedMap.get_set_self] at hget
    obtain rfl := Option.some.inj hget
    exact Or.inl ⟨rfl, rfl⟩
  · rw [cachePermissions, OrderedMap.get_set_of_ne _ _ hother] at hget
    have hdelete := OrderedMap.get_of_get_keepNewest hget
    have hold := (OrderedMap.get_of_get_delete hdelete).2
    have hcache := ((OrderedMap.get_filter _ _ _ _).mp hold).1
    exact Or.inr ⟨hother, (live_eq_some_iff _ _ _ _).mpr ⟨entry, hcache, hfresh, rfl⟩⟩

/-- A call of `clearCache` leaves the entries of the users it does not cover. -/
theorem live_clear_eq_some_iff (cache : PermissionsCache) (cleared : Option JsNumber)
    (now : Nat) (userId : JsNumber) (value : UserPermissions) :
    (cache.clear cleared).live now userId = some value ↔
      ¬ Covers cleared userId ∧ cache.live now userId = some value := by
  cases cleared with
  | none =>
      have hcovers : Covers none userId := by
        intro id h
        cases h
      simp [clear, hcovers]
  | some id =>
      by_cases htruthy : id.truthy = true
      · by_cases hid : userId = id
        · subst hid
          have hcovers : Covers (some userId) userId := fun other h _ =>
            (Option.some.inj h).symm
          simp [clear, htruthy, live, hcovers]
        · have hcovers : ¬ Covers (some id) userId := fun h =>
            hid (h id rfl htruthy).symm
          simp [clear, htruthy, live, hcovers, OrderedMap.get_delete_of_ne _ hid]
      · have hcovers : Covers (some id) userId := by
          intro other h hother
          obtain rfl := Option.some.inj h
          exact absurd hother htruthy
        simp [clear, htruthy, hcovers]

end PermissionsCache

end Permissions
end NocoMiddleware
