import NocoMiddleware.Foundation.Invariant
import NocoMiddleware.Runs.Calls

/-!
# Cache coherence over sequential runs

A cache is coherent if each live entry allows exactly what the system tables grant.
The calls that clear the cache keep it coherent.  `createRole`, `createLocalUser`
and `bootstrapAdmin` add grants without clearing it, so they do so only when the
grants they add concern no user with a live entry.
-/

namespace NocoMiddleware
namespace Runs

open NocoMiddleware.Js NocoMiddleware.Tables NocoMiddleware.Store NocoMiddleware.Permissions
open NocoMiddleware.Users NocoMiddleware.Roles NocoMiddleware.Auth NocoMiddleware.Foundation

/-- Every live entry allows exactly what the system tables grant. -/
def Coherent (tablePrefix : JsString) (world : World) : Prop :=
  ∀ userId value, world.cache.live world.clock userId = some value → ∀ table action,
    value.allows table action = true ↔ Grants tablePrefix world userId table action

/-- The cache is coherent, and the system tables are different tables. -/
def CacheInvariant (tablePrefix : JsString) (world : World) : Prop :=
  Coherent tablePrefix world ∧ DistinctTables tablePrefix world.tables

section

variable {tablePrefix : JsString}

/-- The grants of a user depend on which roles it holds and on the permission rows. -/
theorem grants_congr {world world' : World} {userId : JsNumber}
    (htables : world'.tables = world.tables)
    (hroles : ∀ roleId, HoldsRole tablePrefix world' userId roleId ↔
      HoldsRole tablePrefix world userId roleId)
    (hpermissions : systemRows tablePrefix world' .tablePermissions =
      systemRows tablePrefix world .tablePermissions) (table : JsString) (action : CrudAction) :
    Grants tablePrefix world' userId table action ↔
      Grants tablePrefix world userId table action := by
  simp only [Grants, htables, hroles, hpermissions]

/-- A cache stays coherent if what is live was live before and is still granted. -/
theorem Coherent.of_live {world world' : World} (h : Coherent tablePrefix world)
    (hlive : ∀ userId value, world'.cache.live world'.clock userId = some value →
      world.cache.live world.clock userId = some value ∧
        ∀ table action, Grants tablePrefix world' userId table action ↔
          Grants tablePrefix world userId table action) : Coherent tablePrefix world' := by
  intro userId value hvalue table action
  obtain ⟨hbefore, hgrants⟩ := hlive userId value hvalue
  rw [h userId value hbefore table action, hgrants]

theorem grants_of_unchanged {world world' : World} (h : Unchanged world world')
    (userId : JsNumber) (table : JsString) (action : CrudAction) :
    Grants tablePrefix world' userId table action ↔
      Grants tablePrefix world userId table action := by
  refine grants_congr h.tables (fun roleId => ?_) (h.systemRows_eq _ _) table action
  simp only [HoldsRole, h.systemRows_eq]

/-! ## Changes that keep the cache coherent -/

theorem cacheInvariant_unchanged : Preserves Unchanged (CacheInvariant tablePrefix) := by
  rintro world world' h ⟨hcoherent, hdistinct⟩
  refine ⟨hcoherent.of_live fun userId value hlive => ⟨h.live hlive, ?_⟩, ?_⟩
  · exact grants_of_unchanged h userId
  · rwa [h.tables]

/-- Clearing the whole cache makes it coherent. -/
theorem cacheInvariant_cleared_none {world world' : World} (h : Cleared none world world')
    (hdistinct : DistinctTables tablePrefix world.tables) :
    CacheInvariant tablePrefix world' := by
  refine ⟨fun userId value hlive => ?_, by rwa [h.tables]⟩
  obtain ⟨hcovers, -⟩ := h.live hlive
  exact absurd (fun id hid => by cases hid) hcovers

/-- A new or removed assignment concerns its user only. -/
theorem holdsRole_of_changed {change : Change} {world world' : World} {userId : JsNumber}
    (h : Changed tablePrefix .userRoles change world world')
    (hdistinct : DistinctTables tablePrefix world.tables)
    (hother : ∀ before after : Table, change.Applies before after → ∀ roleId,
      (∃ row ∈ after.rows, Assigns row userId roleId) ↔
        ∃ row ∈ before.rows, Assigns row userId roleId) (roleId : Nat) :
    HoldsRole tablePrefix world' userId roleId ↔ HoldsRole tablePrefix world userId roleId := by
  obtain ⟨before, after, hbefore, hafter, happlies⟩ := h.applies
  rw [HoldsRole, HoldsRole, hbefore, hafter, hother before after happlies,
    h.systemRows_of_ne hdistinct (by decide)]

theorem grants_of_changed_userRoles {change : Change} {world world' : World}
    {userId : JsNumber} (h : Changed tablePrefix .userRoles change world world')
    (hdistinct : DistinctTables tablePrefix world.tables)
    (hother : ∀ before after : Table, change.Applies before after → ∀ roleId,
      (∃ row ∈ after.rows, Assigns row userId roleId) ↔
        ∃ row ∈ before.rows, Assigns row userId roleId) (table : JsString)
    (action : CrudAction) :
    Grants tablePrefix world' userId table action ↔
      Grants tablePrefix world userId table action :=
  grants_congr h.tables (holdsRole_of_changed h hdistinct hother)
    (h.systemRows_of_ne hdistinct (by decide)) table action

theorem assigns_of_insert {row : Row} {owner userId roleId : JsNumber}
    (howner : IsAssignment owner roleId row) (hne : userId ≠ owner) (before after : Table)
    (h : (Change.insert row).Applies before after) (id : Nat) :
    (∃ other ∈ after.rows, Assigns other userId id) ↔
      ∃ other ∈ before.rows, Assigns other userId id := by
  obtain ⟨hfresh, rfl⟩ := h
  have hrow : ¬ Assigns row userId id := by
    rintro ⟨huser, -⟩
    exact hne (JsValue.number.inj (huser.symm.trans howner.1))
  simp [Table.rows_insert, or_and_right, exists_or, hrow]

theorem assigns_of_remove {row : Row} {owner userId roleId : JsNumber}
    (howner : IsAssignment owner roleId row) (hne : userId ≠ owner) (before after : Table)
    (h : (Change.remove row).Applies before after) (id : Nat) :
    (∃ other ∈ after.rows, Assigns other userId id) ↔
      ∃ other ∈ before.rows, Assigns other userId id := by
  obtain ⟨hmem, rfl⟩ := h
  constructor
  · rintro ⟨other, hother, hassigns⟩
    exact ⟨other, (Table.mem_delete.mp hother).1, hassigns⟩
  · rintro ⟨other, hother, hassigns⟩
    refine ⟨other, Table.mem_delete.mpr ⟨hother, fun hid => ?_⟩, hassigns⟩
    -- only the removed row has its key, and it is of another user
    rw [Table.eq_of_id_eq hother hmem hid] at hassigns
    exact hne (JsValue.number.inj (hassigns.1.symm.trans howner.1))

/-- A change of the assignments of a user followed by a `clearCache` of that user. -/
theorem cacheInvariant_changed_cleared {change : Change} {world middle world' : World}
    {owner : JsNumber} (hchanged : Changed tablePrefix .userRoles change world middle)
    (hcleared : Cleared (some owner) middle world')
    (hother : ∀ userId, userId ≠ owner → ∀ before after : Table,
      change.Applies before after → ∀ roleId,
        (∃ row ∈ after.rows, Assigns row userId roleId) ↔
          ∃ row ∈ before.rows, Assigns row userId roleId)
    (hinvariant : CacheInvariant tablePrefix world) : CacheInvariant tablePrefix world' := by
  obtain ⟨hcoherent, hdistinct⟩ := hinvariant
  refine ⟨hcoherent.of_live fun userId value hlive => ?_, ?_⟩
  · obtain ⟨hcovers, hlive⟩ := hcleared.live hlive
    have hne : userId ≠ owner := by
      rintro rfl
      exact hcovers fun id hid _ => (Option.some.inj hid).symm
    refine ⟨hchanged.live hlive, fun table action => ?_⟩
    rw [grants_congr hcleared.tables
      (fun roleId => by simp only [HoldsRole, hcleared.systemRows_eq])
      (hcleared.systemRows_eq _ _)]
    exact grants_of_changed_userRoles hchanged hdistinct (hother userId hne) table action
  · rwa [hcleared.tables, hchanged.tables]

theorem cacheInvariant_assigned (userId roleId : JsNumber) :
    Preserves (Assigned tablePrefix userId roleId) (CacheInvariant tablePrefix) := by
  rintro world world' ⟨middle, ⟨-, row, hassignment, -, hchanged⟩, hcleared⟩
  exact cacheInvariant_changed_cleared hchanged hcleared
    fun other hne => assigns_of_insert hassignment hne

theorem cacheInvariant_assignedSome (userId : JsNumber) (roleIds : List JsNumber) :
    Preserves (AssignedSome tablePrefix userId roleIds) (CacheInvariant tablePrefix) :=
  cacheInvariant_unchanged.someOf fun roleId _ => cacheInvariant_assigned userId roleId

theorem cacheInvariant_removed (userId roleId : JsNumber) :
    Preserves (Removed tablePrefix userId roleId) (CacheInvariant tablePrefix) := by
  rintro world world' ⟨row, middle, hassignment, hchanged, hcleared⟩
  exact cacheInvariant_changed_cleared hchanged hcleared
    fun other hne => assigns_of_remove hassignment hne

theorem tables_of_upserted {dto : SetTablePermissionsDto} {world world' : World}
    (h : Upserted tablePrefix dto world world') : world'.tables = world.tables := by
  obtain ⟨-, ⟨row, -, hchanged⟩ | ⟨-, row, -, hchanged⟩⟩ := h
  · exact hchanged.tables
  · exact hchanged.tables

theorem cacheInvariant_permissionsSet (dto : SetTablePermissionsDto) :
    Preserves (PermissionsSet tablePrefix dto) (CacheInvariant tablePrefix) := by
  rintro world world' ⟨middle, hupserted, hcleared⟩ ⟨-, hdistinct⟩
  refine cacheInvariant_cleared_none hcleared ?_
  rwa [tables_of_upserted hupserted]

theorem cacheInvariant_permissionsSetSome (dtos : List SetTablePermissionsDto) :
    Preserves (PermissionsSetSome tablePrefix dtos) (CacheInvariant tablePrefix) :=
  cacheInvariant_unchanged.someOf fun dto _ => cacheInvariant_permissionsSet dto

/-- A load caches what the system tables grant. -/
theorem cacheInvariant_loaded (userId : JsNumber) :
    Preserves (Loaded tablePrefix userId) (CacheInvariant tablePrefix) := by
  rintro world world' (h | ⟨value, hallows, htables, hrows, hclock, hcache⟩) hinvariant
  · exact cacheInvariant_unchanged _ _ h hinvariant
  · obtain ⟨hcoherent, hdistinct⟩ := hinvariant
    have hgrants : ∀ other table action, Grants tablePrefix world' other table action ↔
        Grants tablePrefix world other table action := by
      intro other table action
      simp only [Grants, HoldsRole, systemRows, htables, hrows]
    refine ⟨fun other found hlive table action => ?_, by rwa [htables]⟩
    rw [hcache] at hlive
    rw [hgrants]
    rcases PermissionsCache.live_cachePermissions hlive with ⟨rfl, rfl⟩ | ⟨-, hbefore⟩
    · exact hallows table action
    · exact hcoherent other found (PermissionsCache.live_of_le hclock hbefore) table action

/-! ## Changes that leave the cache alone -/

/-- The user has no live entry in the cache. -/
def NotCached (world : World) (userId : JsNumber) : Prop :=
  world.cache.live world.clock userId = none

/-- A change of a table leaves the cache coherent if the grants of every user with a
live entry stay what they were. -/
theorem cacheInvariant_changed {table : SystemTable} {change : Change} {world world' : World}
    (h : Changed tablePrefix table change world world')
    (hinvariant : CacheInvariant tablePrefix world)
    (hgrants : ∀ userId, ¬ NotCached world userId → ∀ table action,
      Grants tablePrefix world' userId table action ↔
        Grants tablePrefix world userId table action) : CacheInvariant tablePrefix world' := by
  obtain ⟨hcoherent, hdistinct⟩ := hinvariant
  refine ⟨hcoherent.of_live fun userId value hlive => ?_, by rwa [h.tables]⟩
  have hbefore := h.live hlive
  refine ⟨hbefore, hgrants userId fun hnone => ?_⟩
  rw [NotCached, hbefore] at hnone
  contradiction

/-- A new role changes the grants of the users only that are assigned to it
already. -/
theorem cacheInvariant_role_inserted {row : Row} {world world' : World}
    (h : Changed tablePrefix .roles (.insert row) world world')
    (hinvariant : CacheInvariant tablePrefix world)
    (hunassigned : ∀ userId, ¬ NotCached world userId →
      ∀ other ∈ systemRows tablePrefix world .userRoles, ¬ Assigns other userId row.id) :
    CacheInvariant tablePrefix world' := by
  have hdistinct := hinvariant.2
  refine cacheInvariant_changed h hinvariant fun userId hcached => ?_
  refine grants_congr h.tables (fun roleId => ?_) (h.systemRows_of_ne hdistinct (by decide))
  obtain ⟨before, after, hbefore, hafter, hfresh, rfl⟩ := h.applies
  rw [HoldsRole, HoldsRole, h.systemRows_of_ne hdistinct (by decide), hbefore, hafter,
    Table.rows_insert]
  constructor
  · rintro ⟨hpositive, ⟨other, hother, hassigns⟩, role, hrole, hid⟩
    refine ⟨hpositive, ⟨other, hother, hassigns⟩, role, ?_, hid⟩
    rw [List.mem_append, List.mem_singleton] at hrole
    rcases hrole with hrole | rfl
    · exact hrole
    · rw [← hid] at hassigns
      exact absurd hassigns (hunassigned userId hcached other hother)
  · rintro ⟨hpositive, hassigned, role, hrole, hid⟩
    exact ⟨hpositive, hassigned, role, List.mem_append_left _ hrole, hid⟩

/-- The rows of the users grant nothing. -/
theorem cacheInvariant_userInserted (row : Row) :
    Preserves (UserInserted tablePrefix row) (CacheInvariant tablePrefix) := by
  rintro world world' ⟨-, -, h⟩ hinvariant
  have hdistinct := hinvariant.2
  refine cacheInvariant_changed h hinvariant fun userId _ => ?_
  refine grants_congr h.tables (fun roleId => ?_) (h.systemRows_of_ne hdistinct (by decide))
  rw [HoldsRole, HoldsRole, h.systemRows_of_ne hdistinct (by decide),
    h.systemRows_of_ne hdistinct (by decide)]

/-- A new assignment of a user without a live entry. -/
theorem cacheInvariant_assignment_inserted {row : Row} {owner roleId : JsNumber}
    {world world' : World} (h : Changed tablePrefix .userRoles (.insert row) world world')
    (howner : IsAssignment owner roleId row) (hnotCached : NotCached world owner)
    (hinvariant : CacheInvariant tablePrefix world) : CacheInvariant tablePrefix world' := by
  refine cacheInvariant_changed h hinvariant fun userId hcached => ?_
  have hne : userId ≠ owner := by
    rintro rfl
    exact hcached hnotCached
  exact grants_of_changed_userRoles h hinvariant.2 (assigns_of_insert howner hne)

theorem notCached_of_live {world world' : World} {userId : JsNumber}
    (hlive : ∀ value, world'.cache.live world'.clock userId = some value →
      world.cache.live world.clock userId = some value) (h : NotCached world userId) :
    NotCached world' userId := by
  rw [NotCached, Option.eq_none_iff_forall_ne_some]
  intro value hvalue
  have hbefore := hlive value hvalue
  rw [h] at hbefore
  contradiction

theorem cacheInvariant_assignedQuietly (userId : JsNumber) :
    Preserves (AssignedQuietly tablePrefix userId)
      (fun world => CacheInvariant tablePrefix world ∧ NotCached world userId) := by
  refine (Preserves.or ?_ (Preserves.exists_index ?_)).reflTransGen
  · rintro world world' h ⟨hinvariant, hnotCached⟩
    exact ⟨cacheInvariant_unchanged _ _ h hinvariant,
      notCached_of_live (fun _ hlive => h.live hlive) hnotCached⟩
  · rintro roleId world world' ⟨-, row, hassignment, -, hchanged⟩ ⟨hinvariant, hnotCached⟩
    exact ⟨cacheInvariant_assignment_inserted hchanged hassignment hnotCached hinvariant,
      notCached_of_live (fun _ hlive => hchanged.live hlive) hnotCached⟩

/-- New users have no live entry. -/
def NewUsersNotCached (tablePrefix : JsString) (world world' : World) : Prop :=
  ∀ user ∈ systemRows tablePrefix world' .users, user ∉ systemRows tablePrefix world .users →
    NotCached world (.ofNat user.id)

theorem mem_users_of_assignedQuietly {userId : JsNumber} {user : Row} {world world' : World}
    (h : AssignedQuietly tablePrefix userId world world')
    (huser : user ∈ systemRows tablePrefix world .users) :
    user ∈ systemRows tablePrefix world' .users := by
  have hstep : Preserves (fun first second => Unchanged first second ∨
      ∃ roleId, Inserted tablePrefix userId roleId first second)
      (fun state => user ∈ systemRows tablePrefix state .users) := by
    rintro first second (hunchanged | ⟨roleId, -, row, -, -, hchanged⟩) hmem
    · rwa [hunchanged.systemRows_eq]
    · exact hchanged.mem_of_insert hmem
  exact hstep.reflTransGen _ _ h huser

theorem cacheInvariant_userCreated {world world' : World}
    (h : UserCreated tablePrefix world world')
    (hnotCached : NewUsersNotCached tablePrefix world world')
    (hinvariant : CacheInvariant tablePrefix world) : CacheInvariant tablePrefix world' := by
  rcases h with h | ⟨user, middle, hinserted, hquiet⟩
  · exact cacheInvariant_unchanged _ _ h hinvariant
  · obtain ⟨hnew, hmem⟩ := hinserted.2.2.inserted_mem
    have hnone := hnotCached user (mem_users_of_assignedQuietly hquiet hmem) hnew
    refine (cacheInvariant_assignedQuietly _ _ _ hquiet ⟨?_, ?_⟩).1
    · exact cacheInvariant_userInserted user _ _ hinserted hinvariant
    · exact notCached_of_live (fun _ hlive => hinserted.2.2.live hlive) hnone

/-- The user that `bootstrapAdmin` finds has no live entry, or has the admin role
already. -/
def AdminNotCached (tablePrefix : JsString) (dto : BootstrapAdminDto) (world : World) : Prop :=
  ∀ user ∈ systemRows tablePrefix world .users, IsNamed (js "username") dto.username user →
    ∀ role ∈ systemRows tablePrefix world .roles, IsNamed (js "role_name") (js "admin") role →
      NotCached world (.ofNat user.id) ∨
        ∃ row ∈ systemRows tablePrefix world .userRoles,
          IsAssignment (.ofNat user.id) (.ofNat role.id) row

theorem cacheInvariant_bootstrapped {dto : BootstrapAdminDto} {world world' : World}
    (h : Bootstrapped tablePrefix dto world world')
    (hadmin : AdminNotCached tablePrefix dto world)
    (hnotCached : NewUsersNotCached tablePrefix world world')
    (hinvariant : CacheInvariant tablePrefix world) : CacheInvariant tablePrefix world' := by
  rcases h with h | ⟨user, huser, hname, role, hrole, hroleName, habsent, row, hassignment, -,
    hchanged⟩ | ⟨user, middle, hinserted, hrest⟩
  · exact cacheInvariant_unchanged _ _ h hinvariant
  · rcases hadmin user huser hname role hrole hroleName with hnone | ⟨other, hother, hsame⟩
    · exact cacheInvariant_assignment_inserted hchanged hassignment hnone hinvariant
    · exact absurd hsame (habsent other hother)
  · have hmiddle := cacheInvariant_userInserted user _ _ hinserted hinvariant
    obtain ⟨hnew, hmem⟩ := hinserted.2.2.inserted_mem
    rcases hrest with hrest | ⟨row, roleId, hassignment, -, hchanged⟩
    · exact cacheInvariant_unchanged _ _ hrest hmiddle
    · have hnone := hnotCached user (hchanged.mem_of_insert hmem) hnew
      refine cacheInvariant_assignment_inserted hchanged hassignment ?_ hmiddle
      exact notCached_of_live (fun _ hlive => hinserted.2.2.live hlive) hnone

/-! ## Runs -/

/-- The grants that the call adds without clearing the cache concern no user with a
live entry. -/
def Call.Careful (tablePrefix : JsString) (world world' : World) : Call → Prop
  | .createRole _ =>
      ∀ role ∈ systemRows tablePrefix world' .roles,
        role ∉ systemRows tablePrefix world .roles → ∀ userId, ¬ NotCached world userId →
          ∀ row ∈ systemRows tablePrefix world .userRoles, ¬ Assigns row userId role.id
  | .createLocalUser _ => NewUsersNotCached tablePrefix world world'
  | .bootstrapAdmin _ dto _ =>
      AdminNotCached tablePrefix dto world ∧ NewUsersNotCached tablePrefix world world'
  | _ => True

/-- One successful call other than the seeding at startup, or the passage of time. -/
def SequentialStep (tablePrefix : JsString) (allowed : Call → World → World → Prop)
    (world world' : World) : Prop :=
  (∃ elapsed, world' = world.advance elapsed) ∨
    ∃ call : Call, call ≠ .seedDefaultPermissions ∧
      call.Performs tablePrefix false world true world' ∧ allowed call world world'

theorem cacheInvariant_sequentialStep :
    Preserves (SequentialStep tablePrefix fun call world world' =>
      call.Careful tablePrefix world world') (CacheInvariant tablePrefix) := by
  rintro world world' (⟨elapsed, rfl⟩ | ⟨call, hseed, hperforms, hcareful⟩) hinvariant
  · exact cacheInvariant_unchanged _ _ (Unchanged.advance world elapsed) hinvariant
  have heffect := Call.effect_of_performs hperforms
  cases call with
  | seedDefaultPermissions => exact absurd rfl hseed
  | createRole dto =>
      obtain ⟨row, hchanged⟩ := heffect
      obtain ⟨hnew, hmem⟩ := hchanged.inserted_mem
      exact cacheInvariant_role_inserted hchanged hinvariant (hcareful row hmem hnew)
  | deleteRole roleId =>
      obtain ⟨row, middle, hchanged, hcleared⟩ := heffect
      refine cacheInvariant_cleared_none hcleared ?_
      rw [hchanged.tables]
      exact hinvariant.2
  | setTablePermissions dto => exact cacheInvariant_permissionsSet _ _ _ heffect hinvariant
  | batchSetPermissions dto => exact cacheInvariant_permissionsSetSome _ _ _ heffect hinvariant
  | copyPermissions sourceRoleId targetRoleId =>
      exact cacheInvariant_permissionsSetSome _ _ _ heffect hinvariant
  | deleteRolePermissions roleId =>
      obtain ⟨middle, hdeleted, hcleared⟩ := heffect
      refine cacheInvariant_cleared_none hcleared ?_
      rw [hdeleted.tables]
      exact hinvariant.2
  | assignRole dto => exact cacheInvariant_assigned _ _ _ _ heffect hinvariant
  | assignMultipleRoles dto => exact cacheInvariant_assignedSome _ _ _ _ heffect hinvariant
  | removeRole userId roleId => exact cacheInvariant_removed _ _ _ _ heffect hinvariant
  | createLocalUser dto => exact cacheInvariant_userCreated heffect hcareful hinvariant
  | bootstrapAdmin configuredToken dto bootstrapToken =>
      exact cacheInvariant_bootstrapped heffect hcareful.1 hcareful.2 hinvariant
  | getUserPermissions userId => exact cacheInvariant_loaded userId _ _ heffect hinvariant

/-- What `getUserPermissions` returns from a coherent cache. -/
theorem allows_of_exec {world final : World} {userId : JsNumber} {value : UserPermissions}
    (hcoherent : Coherent tablePrefix world)
    (hexec : Exec (nocodb false).contract (getUserPermissions tablePrefix userId) world
      (.ok value) final) (table : JsString) (action : CrudAction) :
    value.allows table action = true ↔ Grants tablePrefix world userId table action := by
  rcases wp_sound wp_getUserPermissions hexec with ⟨found, hlive, hvalue, -⟩ | hloads
  · obtain rfl : value = found := Except.ok.inj hvalue
    exact hcoherent userId value hlive table action
  · exact hloads.1 table action

theorem coherent_of_empty {world : World} (hempty : world.cache = .empty) :
    Coherent tablePrefix world := by
  intro userId value hlive
  rw [hempty, PermissionsCache.live_empty] at hlive
  contradiction

/-- Along every run of successful calls that are careful, `getUserPermissions` returns
the grants of the current store, as it does with an empty cache. -/
theorem coherent_along_careful_runs (tablePrefix : JsString) {first world : World}
    (hempty : first.cache = .empty) (hdistinct : DistinctTables tablePrefix first.tables)
    (hrun : Relation.ReflTransGen (SequentialStep tablePrefix fun call world world' =>
      call.Careful tablePrefix world world') first world)
    {userId : JsNumber} {value fresh : UserPermissions} {final final' : World}
    (hvalue : Exec (nocodb false).contract (getUserPermissions tablePrefix userId) world
      (.ok value) final)
    (hfresh : Exec (nocodb false).contract (getUserPermissions tablePrefix userId)
      (world.setCache .empty) (.ok fresh) final')
    (table : JsString) (action : CrudAction) :
    value.allows table action = fresh.allows table action := by
  have hinvariant := cacheInvariant_sequentialStep.reflTransGen _ _ hrun
    ⟨coherent_of_empty hempty, hdistinct⟩
  have hcached := allows_of_exec hinvariant.1 hvalue table action
  have hrecomputed := allows_of_exec (coherent_of_empty (World.cache_setCache world _))
    hfresh table action
  rw [Bool.eq_iff_iff, hcached, hrecomputed]
  exact Iff.rfl

end

/-! ## A stale entry -/

/-- A store with the roles 1 (`admin`) and 3 (`reader`) and the user 7 (`alice`), a
reader. -/
def aliceWorld : World :=
  .holding []
    [(js "users", .ofRows [.ofCells 7 [(js "username", .string (js "alice"))]]),
      (js "roles", .ofRows
        [.ofCells 1 [(js "role_name", .string (js "admin"))],
          .ofCells 3 [(js "role_name", .string (js "reader"))]]),
      (js "user_roles", .ofRows
        [.ofCells 1 [(js "user_id", .number (.ofNat 7)), (js "role_id", .number (.ofNat 3))]]),
      (js "table_permissions", .ofRows
        [.ofCells 1 [(js "role_id", .number (.ofNat 3)),
            (js "table_name", .string (js "orders")), (js "can_read", .boolean true)],
          .ofCells 2 [(js "role_id", .number (.ofNat 1)),
            (js "table_name", .string (js "orders")), (js "can_create", .boolean true)]])]

/-- Whether a load under given choices allows an action. -/
def observed (userId : JsNumber) (count : Nat) (world : World) (table : JsString)
    (action : CrudAction) : Option Bool :=
  ((nocodb false).run (getUserPermissions [] userId) (prompt count) world).bind fun outcome =>
    outcome.1.toOption.map fun value => value.allows table action

theorem exec_of_observed {userId : JsNumber} {count : Nat} {world : World} {table : JsString}
    {action : CrudAction} {allowed : Bool}
    (h : observed userId count world table action = some allowed) :
    ∃ value final, Exec (nocodb false).contract (getUserPermissions [] userId) world
      (.ok value) final ∧ value.allows table action = allowed := by
  obtain ⟨⟨result, final⟩, hrun, hresult⟩ := Option.bind_eq_some_iff.mp h
  cases result with
  | error exception => cases hresult
  | ok value => exact ⟨value, final, System.exec_of_run _ hrun, Option.some.inj hresult⟩

/-- The store with the permissions of alice in the cache. -/
def cachedWorld : World :=
  settle false (getUserPermissions [] (.ofNat 7)) (prompt 10) aliceWorld

/-- The step that fills the cache. -/
theorem cachedWorld_performs :
    (Call.getUserPermissions (.ofNat 7)).Performs [] false aliceWorld true cachedWorld :=
  completes_of_run (by decide +kernel)

theorem coherent_along_careful_runs_alice :
    ∃ value fresh final final',
      Exec (nocodb false).contract (getUserPermissions [] (.ofNat 7)) cachedWorld
          (.ok value) final ∧
        Exec (nocodb false).contract (getUserPermissions [] (.ofNat 7))
          (cachedWorld.setCache .empty) (.ok fresh) final' ∧
        value.allows (js "orders") .read = fresh.allows (js "orders") .read := by
  obtain ⟨value, final, hvalue, -⟩ := exec_of_observed
    (by decide +kernel : observed (.ofNat 7) 1 cachedWorld (js "orders") .read = some true)
  obtain ⟨fresh, final', hfresh, -⟩ := exec_of_observed
    (by decide +kernel :
      observed (.ofNat 7) 10 (cachedWorld.setCache .empty) (js "orders") .read = some true)
  refine ⟨value, fresh, final, final', hvalue, hfresh, ?_⟩
  have hrun : Relation.ReflTransGen (SequentialStep [] fun call world world' =>
      call.Careful [] world world') aliceWorld cachedWorld :=
    .single (Or.inr ⟨_, fun h => (by cases h), cachedWorld_performs, trivial⟩)
  exact coherent_along_careful_runs [] rfl (distinctTables_systemTables []) hrun hvalue hfresh _ _

/-- A request to make alice an administrator. -/
def bootstrapAlice : Service BootstrappedAdmin :=
  bootstrapAdmin [] (some (js "token"))
    ⟨js "alice", js "alice@example.com", js "Secret#2345678"⟩ (some (js "token"))

/-- The store after alice became an administrator. -/
def bootstrappedWorld : World :=
  settle false bootstrapAlice (prompt 8) cachedWorld

/-- `bootstrapAdmin` for an existing user leaves a stale entry in the cache. -/
theorem stale_after_bootstrapAdmin :
    ¬ ∀ world, Relation.ReflTransGen (SequentialStep [] fun _ _ _ => True) aliceWorld world →
      ∀ userId value fresh final final',
        Exec (nocodb false).contract (getUserPermissions [] userId) world (.ok value) final →
        Exec (nocodb false).contract (getUserPermissions [] userId) (world.setCache .empty)
          (.ok fresh) final' →
        ∀ table action, value.allows table action = fresh.allows table action := by
  intro h
  have hbootstrap : (Call.bootstrapAdmin (some (js "token"))
      ⟨js "alice", js "alice@example.com", js "Secret#2345678"⟩ (some (js "token"))).Performs
      [] false cachedWorld true bootstrappedWorld := completes_of_run (by decide +kernel)
  have hrun : Relation.ReflTransGen (SequentialStep [] fun _ _ _ => True) aliceWorld
      bootstrappedWorld :=
    .tail (.single (Or.inr ⟨_, fun h => (by cases h), cachedWorld_performs, trivial⟩))
      (Or.inr ⟨_, fun h => (by cases h), hbootstrap, trivial⟩)
  obtain ⟨value, final, hvalue, hdenied⟩ := exec_of_observed
    (by decide +kernel :
      observed (.ofNat 7) 1 bootstrappedWorld (js "orders") .create = some false)
  obtain ⟨fresh, final', hfresh, hallowed⟩ := exec_of_observed
    (by decide +kernel :
      observed (.ofNat 7) 10 (bootstrappedWorld.setCache .empty) (js "orders") .create =
        some true)
  have hequal := h _ hrun _ value fresh final final' hvalue hfresh (js "orders") .create
  rw [hdenied, hallowed] at hequal
  contradiction

end Runs
end NocoMiddleware
