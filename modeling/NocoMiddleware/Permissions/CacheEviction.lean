import NocoMiddleware.Permissions.PermissionsCache

/-!
# What an insertion into the permission cache removes

The loops of `cachePermissions` of `permissions.service.ts` are the filter and the truncation of
`PermissionsCache.cachePermissions`.  In a cache that is ordered by expiry an insertion for a
user removes the entry of the user, the expired entries and, from a full cache, those that
expire first.
-/

namespace NocoMiddleware
namespace Permissions
namespace PermissionsCache

open NocoMiddleware.Js

/-! ## The loops -/

/-- `for (const [id, entry] of this.permissionsCache)`: expired entries are deleted. -/
def deleteExpired (cache : PermissionsCache) (now : Nat) : PermissionsCache :=
  cache.entries.foldl (fun remaining entry =>
    if entry.2.expiresAt ≤ now then remaining.delete entry.1 else remaining) cache

/-- `this.permissionsCache.delete(oldest)`. -/
def deleteOldest (cache : PermissionsCache) : PermissionsCache :=
  match cache.entries with
  | [] => cache
  | oldest :: _ => cache.delete oldest.1

/-- Only the oldest entry goes. -/
theorem entries_deleteOldest (cache : PermissionsCache) :
    (deleteOldest cache).entries = cache.entries.tail := by
  unfold deleteOldest
  split
  · next hempty => rw [hempty, List.tail_nil]
  · next oldest rest hentries =>
      have hnodup := cache.nodup
      rw [hentries, List.map_cons, List.nodup_cons] at hnodup
      show cache.entries.filter _ = _
      rw [hentries, List.filter_cons_of_neg (by simp), List.tail_cons, List.filter_eq_self]
      intro entry hentry
      rw [decide_eq_true_iff]
      intro heq
      exact hnodup.1 (heq ▸ List.mem_map_of_mem hentry)

/-- `while (this.permissionsCache.size >= PERMISSIONS_CACHE_MAX_ENTRIES)`. -/
def deleteWhileFull (cache : PermissionsCache) : PermissionsCache :=
  if permissionsCacheMaxEntries ≤ cache.size then deleteWhileFull (deleteOldest cache) else cache
termination_by cache.size
decreasing_by
  simp only [OrderedMap.size, entries_deleteOldest, List.length_tail]
  have hmax : 0 < permissionsCacheMaxEntries := by decide
  have hsize : permissionsCacheMaxEntries ≤ cache.entries.length := by assumption
  omega

theorem entries_foldl_delete (expired : JsNumber × CacheEntry → Prop) [DecidablePred expired]
    (entries : List (JsNumber × CacheEntry)) (cache : PermissionsCache) :
    (entries.foldl (fun remaining entry =>
      if expired entry then remaining.delete entry.1 else remaining) cache).entries =
        cache.entries.filter fun entry =>
          ¬ ∃ other ∈ entries, expired other ∧ entry.1 = other.1 := by
  induction entries generalizing cache with
  | nil => simp
  | cons first rest ih =>
      rw [List.foldl_cons, ih]
      split
      · next hexpired =>
          show (cache.entries.filter _).filter _ = _
          rw [List.filter_filter]
          apply List.filter_congr
          intro entry _
          rw [Bool.eq_iff_iff]
          simp only [List.exists_mem_cons_iff, hexpired, Bool.and_eq_true, decide_eq_true_eq,
            true_and, not_or]
          exact and_comm
      · next hfresh =>
          apply List.filter_congr
          intro entry _
          simp [hfresh]

theorem deleteExpired_eq (cache : PermissionsCache) (now : Nat) :
    deleteExpired cache now = cache.filter fun entry => now < entry.2.expiresAt := by
  apply OrderedMap.ext
  rw [deleteExpired, entries_foldl_delete fun entry => entry.2.expiresAt ≤ now]
  apply List.filter_congr
  intro entry hentry
  rw [decide_eq_decide]
  constructor
  · intro hnone
    by_contra hexpired
    exact hnone ⟨entry, hentry, Nat.le_of_not_lt hexpired, rfl⟩
  · rintro hfresh ⟨other, hother, hexpired, hkey⟩
    -- the keys are distinct, so the expired entry is the same one
    obtain rfl := List.inj_on_of_nodup_map cache.nodup hentry hother hkey
    omega

theorem entries_deleteWhileFull (cache : PermissionsCache) :
    (deleteWhileFull cache).entries =
      cache.entries.drop (cache.entries.length - (permissionsCacheMaxEntries - 1)) := by
  have hmax : 0 < permissionsCacheMaxEntries := by decide
  induction cache using deleteWhileFull.induct with
  | case1 cache hfull ih =>
      have hlength : permissionsCacheMaxEntries ≤ cache.entries.length := hfull
      have hcount : 1 + (cache.entries.length - 1 - (permissionsCacheMaxEntries - 1)) =
          cache.entries.length - (permissionsCacheMaxEntries - 1) := by omega
      rw [deleteWhileFull, if_pos hfull, ih, entries_deleteOldest, List.length_tail,
        ← List.drop_one, List.drop_drop, hcount]
  | case2 cache hroom =>
      have hlength : ¬ permissionsCacheMaxEntries ≤ cache.entries.length := hroom
      have hzero : cache.entries.length - (permissionsCacheMaxEntries - 1) = 0 := by omega
      rw [deleteWhileFull, if_neg hroom, hzero, List.drop_zero]

theorem entries_keepNewest (count : Nat) (cache : PermissionsCache) :
    (cache.keepNewest count).entries = cache.entries.drop (cache.entries.length - count) := rfl

theorem deleteWhileFull_eq (cache : PermissionsCache) :
    deleteWhileFull cache = cache.keepNewest (permissionsCacheMaxEntries - 1) := by
  apply OrderedMap.ext
  rw [entries_deleteWhileFull, entries_keepNewest]

/-- The statements of `cachePermissions`. -/
theorem cachePermissions_eq_loops (cache : PermissionsCache) (now : Nat) (userId : JsNumber)
    (value : UserPermissions) :
    cache.cachePermissions now userId value =
      (deleteWhileFull ((deleteExpired cache now).delete userId)).set userId
        ⟨value, now + permissionsCacheTtlMs⟩ := by
  rw [deleteWhileFull_eq, deleteExpired_eq]
  rfl

/-! ## Insertions -/

/-- The entries are in the order of their expiry. -/
def Ordered (cache : PermissionsCache) : Prop :=
  cache.entries.Pairwise fun earlier later => earlier.2.expiresAt ≤ later.2.expiresAt

/-- An insertion for a user at a time.  Of the entries of other users that are not expired it
keeps the last ones, as many as there is room for, and evicts those that expire before them. -/
structure Insertion (before after : PermissionsCache) (now : Nat) (userId : JsNumber)
    (value : UserPermissions) (evicted kept : List (JsNumber × CacheEntry)) : Prop where
  others : (before.entries.filter fun entry =>
    entry.1 ≠ userId ∧ now < entry.2.expiresAt) = evicted ++ kept
  entries : after.entries = kept ++ [(userId, ⟨value, now + permissionsCacheTtlMs⟩)]
  full : evicted ≠ [] → kept.length + 1 = permissionsCacheMaxEntries
  first : ∀ gone ∈ evicted, ∀ entry ∈ kept, gone.2.expiresAt ≤ entry.2.expiresAt

section

variable {cache : PermissionsCache} {now : Nat} {userId : JsNumber} {value : UserPermissions}

theorem entries_set_of_not_mem (entry : CacheEntry)
    (h : userId ∉ cache.entries.map Prod.fst) :
    (OrderedMap.set cache userId entry).entries = cache.entries ++ [(userId, entry)] := by
  rw [OrderedMap.set, dif_neg h]

/-- The entries of other users that are not expired. -/
def others (cache : PermissionsCache) (now : Nat) (userId : JsNumber) :
    List (JsNumber × CacheEntry) :=
  cache.entries.filter fun entry => entry.1 ≠ userId ∧ now < entry.2.expiresAt

theorem entries_cachePermissions (cache : PermissionsCache) (now : Nat) (userId : JsNumber)
    (value : UserPermissions) :
    (cache.cachePermissions now userId value).entries =
      (others cache now userId).drop
          ((others cache now userId).length - (permissionsCacheMaxEntries - 1)) ++
        [(userId, ⟨value, now + permissionsCacheTtlMs⟩)] := by
  have hothers : ((cache.filter fun entry => now < entry.2.expiresAt).delete userId).entries =
      others cache now userId := by
    show (cache.entries.filter _).filter _ = _
    rw [List.filter_filter, others]
    apply List.filter_congr
    intro entry _
    rw [Bool.decide_and]
  have habsent : userId ∉ ((((cache.filter fun entry => now < entry.2.expiresAt).delete
      userId).keepNewest (permissionsCacheMaxEntries - 1)).entries).map Prod.fst := by
    rw [entries_keepNewest, hothers, List.mem_map]
    rintro ⟨entry, hentry, rfl⟩
    have hother := (List.mem_filter.mp (List.mem_of_mem_drop hentry)).2
    simp at hother
  rw [cachePermissions, entries_set_of_not_mem _ habsent, entries_keepNewest, hothers]

/-- What `cachePermissions` removes from an ordered cache. -/
theorem insertion_cachePermissions (hordered : Ordered cache) :
    ∃ evicted kept, Insertion cache (cache.cachePermissions now userId value) now userId value
      evicted kept := by
  refine ⟨(others cache now userId).take
      ((others cache now userId).length - (permissionsCacheMaxEntries - 1)),
    (others cache now userId).drop
      ((others cache now userId).length - (permissionsCacheMaxEntries - 1)), ?_⟩
  constructor
  · exact (List.take_append_drop _ _).symm
  · exact entries_cachePermissions cache now userId value
  · intro hevicted
    have hmax : 0 < permissionsCacheMaxEntries := by decide
    have hlength := List.length_pos_iff.mpr hevicted
    rw [List.length_take] at hlength
    rw [List.length_drop]
    omega
  · intro gone hgone entry hentry
    have hothers : (others cache now userId).Pairwise fun earlier later =>
        earlier.2.expiresAt ≤ later.2.expiresAt := hordered.filter _
    rw [← List.take_append_drop ((others cache now userId).length -
      (permissionsCacheMaxEntries - 1)) (others cache now userId), List.pairwise_append] at hothers
    exact hothers.2.2 gone hgone entry hentry

/-! ## Caches at a time -/

/-- At a time: the cache has room, its entries are in the order of their expiry, and none lives
longer than one that would be inserted now. -/
structure Tidy (cache : PermissionsCache) (clock : Nat) : Prop where
  size : cache.size ≤ permissionsCacheMaxEntries
  ordered : Ordered cache
  expiry : ∀ entry ∈ cache.entries, entry.2.expiresAt ≤ clock + permissionsCacheTtlMs

theorem tidy_empty (clock : Nat) : Tidy .empty clock where
  size := Nat.zero_le _
  ordered := List.Pairwise.nil
  expiry := by simp [OrderedMap.empty]

theorem Tidy.later {clock : Nat} (h : Tidy cache now) (hlater : now ≤ clock) :
    Tidy cache clock := by
  refine ⟨h.size, h.ordered, ?_⟩
  intro entry hentry
  have := h.expiry entry hentry
  omega

/-- Entries may go. -/
theorem Tidy.of_sublist {fewer : PermissionsCache} (h : Tidy cache now)
    (hsublist : fewer.entries.Sublist cache.entries) : Tidy fewer now := by
  constructor
  · exact hsublist.length_le.trans h.size
  · exact h.ordered.sublist hsublist
  · exact fun entry hentry => h.expiry entry (hsublist.subset hentry)

theorem Tidy.clear (h : Tidy cache now) (cleared : Option JsNumber) :
    Tidy (cache.clear cleared) now := by
  unfold PermissionsCache.clear
  split
  · split
    · exact h.of_sublist List.filter_sublist
    · exact tidy_empty now
  · exact tidy_empty now

theorem sublist_others (cache : PermissionsCache) (now : Nat) (userId : JsNumber) (count : Nat) :
    ((others cache now userId).drop count).Sublist cache.entries :=
  (List.drop_sublist _ _).trans List.filter_sublist

theorem Tidy.cachePermissions (h : Tidy cache now) :
    Tidy (cache.cachePermissions now userId value) now := by
  have hentries := entries_cachePermissions cache now userId value
  have hsublist := sublist_others cache now userId
    ((others cache now userId).length - (permissionsCacheMaxEntries - 1))
  constructor
  · have hmax : 0 < permissionsCacheMaxEntries := by decide
    rw [OrderedMap.size, hentries, List.length_append, List.length_drop, List.length_singleton]
    omega
  · rw [Ordered, hentries, List.pairwise_append]
    refine ⟨h.ordered.sublist hsublist, List.pairwise_singleton _ _, ?_⟩
    intro entry hentry last hlast
    rw [List.mem_singleton.mp hlast]
    exact h.expiry entry (hsublist.subset hentry)
  · intro entry hentry
    rw [hentries, List.mem_append, List.mem_singleton] at hentry
    rcases hentry with hold | rfl
    · exact h.expiry entry (hsublist.subset hold)
    · exact le_rfl

/-- An entry after an insertion is the new one or was there before. -/
theorem mem_cachePermissions {entry : JsNumber × CacheEntry}
    (h : entry ∈ (cache.cachePermissions now userId value).entries) :
    entry ∈ cache.entries ∨ entry = (userId, ⟨value, now + permissionsCacheTtlMs⟩) := by
  rw [entries_cachePermissions, List.mem_append, List.mem_singleton] at h
  exact h.imp_left fun hold => (sublist_others cache now userId _).subset hold

end

end PermissionsCache
end Permissions
end NocoMiddleware
