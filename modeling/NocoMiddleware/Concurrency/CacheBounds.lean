import NocoMiddleware.Concurrency.Threads
import NocoMiddleware.Permissions.CacheEviction
import NocoMiddleware.Permissions.PermissionSemantics

/-!
# The permission cache along interleaved calls

Any programs of the services, interleaved operation by operation: loads that hit or insert,
in any order, and calls of `clearCache`.  The cache stays bounded and in the order of expiry,
and what a lookup finds has been inserted for its user less than five minutes before.
-/

namespace NocoMiddleware
namespace Concurrency

open NocoMiddleware.Js NocoMiddleware.Store NocoMiddleware.Permissions NocoMiddleware.Foundation
open PermissionsCache

/-! ## One operation -/

/-- What an operation does to the cache: it inserts, clears, or leaves the cache alone. -/
inductive CacheMove (world world' : World) : Op → Prop
  | insert (userId : JsNumber) (value : UserPermissions)
      (hcache : world'.cache = world.cache.cachePermissions world'.clock userId value) :
      CacheMove world world' (.cachePermissions userId value)
  | clear (cleared : Option JsNumber) (hcache : world'.cache = world.cache.clear cleared) :
      CacheMove world world' (.clearCache cleared)
  | keep {op : Op} (hop : ∀ userId value, op ≠ .cachePermissions userId value)
      (hcache : world'.cache = world.cache) : CacheMove world world' op

section

variable {faults : Bool} {world world' : World}

theorem cacheMove_of_step {op : Op} {answer : Except Exception (Res op)}
    (h : (nocodb faults).contract.step op world answer world') :
    world.clock ≤ world'.clock ∧ CacheMove world world' op := by
  obtain ⟨choice, earlier, hearlier, ⟨hrequest, -, rfl⟩ | hanswer⟩ := answer_of_step h
  · refine ⟨hearlier.clock, .keep ?_ hearlier.cache⟩
    rintro userId value rfl
    contradiction
  · obtain rfl : (Store.answer choice earlier op).2 = world' := by rw [hanswer]
    -- all operations but the two on the cache leave it alone
    have hkept : (∀ userId value, op ≠ .cachePermissions userId value) →
        (Store.answer choice earlier op).2.cache = earlier.cache →
          (Store.answer choice earlier op).2.clock = earlier.clock →
            world.clock ≤ (Store.answer choice earlier op).2.clock ∧
              CacheMove world (Store.answer choice earlier op).2 op := by
      intro hop hcache hclock
      rw [hclock]
      exact ⟨hearlier.clock, .keep hop (hcache.trans hearlier.cache)⟩
    cases op with
    | cachePermissions userId value =>
        have hworld : (Store.answer choice earlier (.cachePermissions userId value)).2 =
            earlier.setCache (earlier.cache.cachePermissions earlier.clock userId value) := by
          rw [Store.answer]
        rw [hworld]
        constructor
        · rw [World.clock_setCache]
          exact hearlier.clock
        · apply CacheMove.insert
          rw [World.cache_setCache, World.clock_setCache, hearlier.cache]
    | clearCache cleared =>
        refine ⟨hearlier.clock, .clear cleared ?_⟩
        show earlier.cache.clear cleared = world.cache.clear cleared
        rw [hearlier.cache]
    | _ =>
        refine hkept (by simp) ?_ ?_ <;> simp only [Store.answer] <;> (try split) <;>
          simp only [World.cache_setTable, World.clock_setTable]

/-- An operation leaves a tidy cache behind. -/
theorem tidy_of_step {op : Op} {answer : Except Exception (Res op)}
    (htidy : Tidy world.cache world.clock)
    (h : (nocodb faults).contract.step op world answer world') :
    Tidy world'.cache world'.clock := by
  obtain ⟨hclock, hmove⟩ := cacheMove_of_step h
  have hlater := htidy.later hclock
  cases hmove with
  | insert userId value hcache =>
      rw [hcache]
      exact hlater.cachePermissions
  | clear cleared hcache =>
      rw [hcache]
      exact hlater.clear cleared
  | keep _ hcache => rwa [hcache]

end

/-! ## Interleaved calls -/

section

variable {ι α : Type} [DecidableEq ι] {faults : Bool} {first config next : ServiceConfig ι α}

/-- A thread performs an operation, and is answered. -/
def Performs (faults : Bool) (config next : ServiceConfig ι α) (event : ServiceEvent ι) : Prop :=
  Step (nocodb faults).contract AnyOrder config next ∧ next.history = config.history ++ [event]

theorem step_of_performs {event : ServiceEvent ι} (h : Performs faults config next event) :
    (nocodb faults).contract.step event.op config.world event.answer next.world := by
  obtain ⟨hstep, hhistory⟩ := h
  cases hstep with
  | perform hnext hguard hstep =>
      obtain rfl := List.singleton_inj.mp (List.append_cancel_left hhistory)
      exact hstep

/-- In the run up to a configuration the value was inserted for the user, and expires as given. -/
def InsertedIn (faults : Bool) (first config : ServiceConfig ι α) (userId : JsNumber)
    (cached : CacheEntry) : Prop :=
  ∃ before after thread answer,
    Interleaved (nocodb faults).contract AnyOrder first before ∧
    Performs faults before after ⟨thread, .cachePermissions userId cached.value, answer⟩ ∧
    Interleaved (nocodb faults).contract AnyOrder after config ∧
    cached.expiresAt = after.world.clock + permissionsCacheTtlMs

theorem InsertedIn.tail {userId : JsNumber} {cached : CacheEntry}
    (h : InsertedIn faults first config userId cached)
    (hstep : Step (nocodb faults).contract AnyOrder config next) :
    InsertedIn faults first next userId cached := by
  obtain ⟨before, after, thread, answer, hbefore, hinsert, hafter, hexpires⟩ := h
  exact ⟨before, after, thread, answer, hbefore, hinsert, hafter.tail hstep, hexpires⟩

theorem tidy_of_interleaved (htidy : Tidy first.world.cache first.world.clock)
    (hrun : Interleaved (nocodb faults).contract AnyOrder first config) :
    Tidy config.world.cache config.world.clock := by
  induction hrun with
  | refl => exact htidy
  | tail _ hstep ih =>
      cases hstep with
      | perform _ _ hstep => exact tidy_of_step ih hstep

/-- Every entry was inserted in the run. -/
theorem origin_of_interleaved (hempty : first.world.cache = .empty)
    (hrun : Interleaved (nocodb faults).contract AnyOrder first config) :
    ∀ entry ∈ config.world.cache.entries, InsertedIn faults first config entry.1 entry.2 := by
  induction hrun with
  | refl =>
      rw [hempty]
      intro entry hentry
      contradiction
  | @tail config next hrun hstep ih =>
      intro entry hentry
      have hmove := hstep
      cases hmove with
      | @perform thread op _ answer world _ _ hanswer =>
          change entry ∈ world.cache.entries at hentry
          -- only an insertion brings in an entry that was not there before
          have hkept : entry ∈ config.world.cache.entries →
              InsertedIn faults first _ entry.1 entry.2 := fun hold => (ih entry hold).tail hstep
          cases (cacheMove_of_step hanswer).2 with
          | insert userId value hcache =>
              rw [hcache] at hentry
              rcases mem_cachePermissions hentry with hold | rfl
              · exact hkept hold
              · exact ⟨config, _, thread, answer, hrun, ⟨hstep, rfl⟩, .refl, rfl⟩
          | clear cleared hcache =>
              apply hkept
              rw [hcache] at hentry
              unfold PermissionsCache.clear at hentry
              split at hentry
              · split at hentry
                · exact (List.mem_filter.mp hentry).1
                · contradiction
              · contradiction
          | keep _ hcache =>
              apply hkept
              rwa [hcache] at hentry

/-- A lookup that hits answers the call of `getUserPermissions` that makes it. -/
theorem threads_of_hit {tablePrefix : JsString} {second : UserPermissions → Service α}
    {thread : ι} {userId : JsNumber} {value : UserPermissions}
    (hthread : config.threads thread = getUserPermissions tablePrefix userId >>= second)
    (hperforms : Performs faults config next ⟨thread, .cacheGet userId, .ok (some value)⟩) :
    next.threads thread = second value := by
  obtain ⟨hstep, hhistory⟩ := hperforms
  cases hstep with
  | @perform other op rest answer world hnext _ _ =>
      have hevent := List.singleton_inj.mp (List.append_cancel_left hhistory)
      injection hevent with hother hop hanswer
      subst hother hop
      obtain rfl := eq_of_heq hanswer
      rw [hthread] at hnext
      injection hnext with _ hrest
      rw [← hrest]
      exact Config.threads_advance_self _ _ _ _

/-- What a lookup finds is an entry that is not expired when it answers. -/
theorem entry_of_cacheGet {world world' : World} {userId : JsNumber} {value : UserPermissions}
    (h : (nocodb faults).contract.step (.cacheGet userId) world (.ok (some value)) world') :
    ∃ cached, (userId, cached) ∈ world.cache.entries ∧ cached.value = value ∧
      world'.clock < cached.expiresAt := by
  obtain ⟨choice, earlier, hearlier, ⟨hrequest, -, -⟩ | hanswer⟩ := answer_of_step h
  · contradiction
  · simp only [answer, Prod.mk.injEq, Except.ok.injEq] at hanswer
    obtain ⟨hlive, rfl⟩ := hanswer
    obtain ⟨cached, hget, hfresh, hvalue⟩ := (live_eq_some_iff _ _ _ _).mp hlive
    rw [hearlier.cache, OrderedMap.get_eq_some_iff] at hget
    exact ⟨cached, hget, hvalue, hfresh⟩

/-- Along every interleaving that starts with an empty cache: the cache holds at most 1000
entries, one for each user, in the order of expiry; a lookup that hits finds what was inserted
for its user less than five minutes before, and answers `getUserPermissions`; and an insertion
removes the entry of its user, the expired entries and, from a full cache, those that expire
first. -/
theorem cache_bounded_and_fresh (hempty : first.world.cache = .empty)
    (hrun : Interleaved (nocodb faults).contract AnyOrder first config) :
    config.world.cache.size ≤ 1000 ∧ (config.world.cache.entries.map Prod.fst).Nodup ∧
      Ordered config.world.cache ∧
      (∀ next thread userId value,
        Performs faults config next ⟨thread, .cacheGet userId, .ok (some value)⟩ →
        (∃ expiresAt, InsertedIn faults first config userId ⟨value, expiresAt⟩ ∧
          expiresAt ≤ next.world.clock + 5 * 60 * 1000 ∧ next.world.clock < expiresAt) ∧
        ∀ tablePrefix second,
          config.threads thread = getUserPermissions tablePrefix userId >>= second →
          next.threads thread = second value) ∧
      ∀ next thread userId value answer,
        Performs faults config next ⟨thread, .cachePermissions userId value, answer⟩ →
        ∃ evicted kept, Insertion config.world.cache next.world.cache next.world.clock userId
          value evicted kept := by
  have htidy : Tidy config.world.cache config.world.clock := by
    apply tidy_of_interleaved _ hrun
    rw [hempty]
    exact tidy_empty _
  refine ⟨htidy.size, config.world.cache.nodup, htidy.ordered, ?_, ?_⟩
  · intro next thread userId value hperforms
    have hstep := step_of_performs hperforms
    obtain ⟨cached, hcached, rfl, hfresh⟩ := entry_of_cacheGet hstep
    have horigin := origin_of_interleaved hempty hrun (userId, cached) hcached
    refine ⟨⟨cached.expiresAt, horigin, ?_, hfresh⟩, ?_⟩
    · have hexpiry := htidy.expiry (userId, cached) hcached
      have hclock := (cacheMove_of_step hstep).1
      change cached.expiresAt ≤ config.world.clock + 5 * 60 * 1000 at hexpiry
      omega
    · intro tablePrefix second hthread
      exact threads_of_hit hthread hperforms
  · intro next thread userId value answer hperforms
    cases (cacheMove_of_step (step_of_performs hperforms)).2 with
    | insert _ _ hcache =>
        rw [hcache]
        exact insertion_cachePermissions htidy.ordered
    | keep hop _ => exact absurd rfl (hop userId value)

end

/-- Two calls for user 7, on a store in which the user has role 3. -/
def twoLoads : ServiceConfig (Fin 2) UserPermissions :=
  .start (fun _ => getUserPermissions [] (.ofNat 7)) readerWorld

/-- The last event is a lookup of the user by the second call, which hits. -/
def secondHits (config : ServiceConfig (Fin 2) UserPermissions) : Bool :=
  match config.history.getLast? with
  | some ⟨1, .cacheGet userId, .ok (some _)⟩ => userId = .ofNat 7
  | _ => false

theorem performs_of_secondHits {config next : ServiceConfig (Fin 2) UserPermissions}
    (hstep : Step (nocodb true).contract AnyOrder config next) (hhits : secondHits next = true) :
    ∃ value, Performs true config next ⟨1, .cacheGet (.ofNat 7), .ok (some value)⟩ := by
  have hmove := hstep
  cases hmove with
  | @perform thread op rest answer world hnext _ hanswer =>
      rw [secondHits, Config.advance, List.getLast?_concat] at hhits
      split at hhits
      · next userId value hevent =>
          obtain rfl : userId = .ofNat 7 := of_decide_eq_true hhits
          refine ⟨value, hstep, ?_⟩
          rw [Config.advance, Option.some.inj hevent]
      · contradiction

theorem cache_bounded_and_fresh_twoLoads :
    ∃ (config next : ServiceConfig (Fin 2) UserPermissions) (value : UserPermissions),
      Interleaved (nocodb true).contract AnyOrder twoLoads config ∧
        Performs true config next ⟨1, .cacheGet (.ofNat 7), .ok (some value)⟩ ∧
        config.world.cache.size ≤ 1000 ∧
        ∃ expiresAt, InsertedIn true twoLoads config (.ofNat 7) ⟨value, expiresAt⟩ ∧
          expiresAt ≤ next.world.clock + 5 * 60 * 1000 ∧ next.world.clock < expiresAt := by
  obtain ⟨config, hrun, hcheck⟩ := System.exists_interleaved (by decide +kernel :
    ((nocodb true).schedule AnyOrder (List.replicate 10 (0, promptly 9)) twoLoads).any
      (fun config => ((nocodb true).move AnyOrder 1 (promptly 9) config).any secondHits) = true)
  obtain ⟨next, hmove, hhits⟩ := (Option.any_eq_true _ _).mp hcheck
  obtain ⟨value, hperforms⟩ := performs_of_secondHits (System.step_of_move hmove) hhits
  obtain ⟨hsize, -, -, hlookups, -⟩ := cache_bounded_and_fresh rfl hrun
  exact ⟨config, next, value, hrun, hperforms, hsize, (hlookups next 1 _ value hperforms).1⟩

end Concurrency
end NocoMiddleware
