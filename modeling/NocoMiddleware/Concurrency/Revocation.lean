import NocoMiddleware.Concurrency.Threads
import NocoMiddleware.Permissions.PermissionsManagementService
import NocoMiddleware.Permissions.PermissionSemantics
import NocoMiddleware.Roles.RolesService
import NocoMiddleware.Users.UserRolesService

/-!
# Loads that overlap with revocations

`getUserPermissions` lists the grants of a user and inserts them into the cache some
steps later; a call that takes rights away writes and then clears the cache.  As long
as no load inserts after such a write and such a clear have both come between one of
its listings and the insertion, a load that starts when a revocation has returned
answers with listings made after the writes of the revocation.
-/

namespace NocoMiddleware
namespace Concurrency

open NocoMiddleware.Js NocoMiddleware.Filter NocoMiddleware.Tables NocoMiddleware.Store
open NocoMiddleware.Permissions NocoMiddleware.Foundation

/-- The calls that are interleaved. -/
inductive Participant where
  | getUserPermissions (userId : JsNumber)
  | removeRole (userId roleId : JsNumber)
  | deleteRole (roleId : JsNumber)
  | setTablePermissions (dto : SetTablePermissionsDto)
  | deleteRolePermissions (roleId : JsNumber)

/-- The code of a call; only a load answers with permissions. -/
def Participant.program (tablePrefix : JsString) :
    Participant → Service (Option UserPermissions)
  | getUserPermissions userId => do
      let value ← Permissions.getUserPermissions tablePrefix userId
      return some value
  | removeRole userId roleId => do
      Users.removeRole tablePrefix userId roleId
      return none
  | deleteRole roleId => do
      Roles.deleteRole tablePrefix roleId
      return none
  | setTablePermissions dto => do
      let _ ← Permissions.setTablePermissions tablePrefix dto
      return none
  | deleteRolePermissions roleId => do
      Permissions.deleteRolePermissions tablePrefix roleId
      return none

/-- The call may take rights from the user. -/
def Participant.Revokes (call : Participant) (userId : JsNumber) : Prop :=
  match call with
  | getUserPermissions _ => False
  | removeRole other _ => other = userId
  | _ => True

instance (call : Participant) (userId : JsNumber) : Decidable (call.Revokes userId) :=
  match call with
  | .getUserPermissions _ => inferInstanceAs (Decidable False)
  | .removeRole other _ => inferInstanceAs (Decidable (other = userId))
  | .deleteRole _ => inferInstanceAs (Decidable True)
  | .setTablePermissions _ => inferInstanceAs (Decidable True)
  | .deleteRolePermissions _ => inferInstanceAs (Decidable True)

/-- The user for whom the step inserts into the cache. -/
def cachesFor : Op → Option JsNumber
  | .cachePermissions userId _ => some userId
  | _ => none

section

variable {ι : Type} [DecidableEq ι]

/-- The thread lists records. -/
def lists (thread : ι) (event : ServiceEvent ι) : Bool :=
  event.thread = thread &&
    match event.op with
    | .listAll _ _ _ => true
    | _ => false

/-- The thread asks for a write. -/
def writes (thread : ι) (event : ServiceEvent ι) : Bool :=
  event.thread = thread && event.op.isWrite

/-- The thread drops the entry of a user from the cache. -/
def clears (thread : ι) (userId : JsNumber) (event : ServiceEvent ι) : Bool :=
  event.thread = thread &&
    match event.op with
    | .clearCache cleared => Covers cleared userId
    | _ => false

/-- A revocation has written and cleared the cache after the thread has listed. -/
def Overtaken (calls : ι → Participant) (history : List (ServiceEvent ι)) (thread : ι)
    (userId : JsNumber) : Prop :=
  ∃ mutation, (calls mutation).Revokes userId ∧
    occurInOrder [lists thread, writes mutation, clears mutation userId] history = true

/-- A thread inserts into the cache only if it has not been overtaken. -/
def NotOvertaken {α : Type} (calls : ι → Participant) (config : ServiceConfig ι α)
    (thread : ι) (op : Op) : Prop :=
  ∀ userId ∈ cachesFor op, ¬ Overtaken calls config.history thread userId

instance [Fintype ι] (calls : ι → Participant) (history : List (ServiceEvent ι)) (thread : ι)
    (userId : JsNumber) : Decidable (Overtaken calls history thread userId) :=
  inferInstanceAs (Decidable (∃ _, _ ∧ _))

instance [Fintype ι] {α : Type} (calls : ι → Participant) (config : ServiceConfig ι α)
    (thread : ι) (op : Op) : Decidable (NotOvertaken calls config thread op) :=
  inferInstanceAs (Decidable (∀ _ ∈ cachesFor op, _))

/-- The entry of the cache for the user is the one that the thread has inserted. -/
def InsertedLast (history : List (ServiceEvent ι)) (thread : ι) (userId : JsNumber)
    (value : UserPermissions) : Prop :=
  ∃ before answer after,
    history = before ++ ⟨thread, .cachePermissions userId value, answer⟩ :: after ∧
      ∀ event ∈ after, event.op.dropsEntry userId = false

/-- The load answers with what the source has listed: it is the source itself and has
not found the user in the cache, or it has found what the source has inserted. -/
def AnswersFrom (history : List (ServiceEvent ι)) (load source : ι) (userId : JsNumber)
    (value : UserPermissions) : Prop :=
  ∃ before cached after,
    history = before ++ ⟨load, .cacheGet userId, .ok cached⟩ :: after ∧
      ((cached = none ∧ source = load) ∨
        (cached = some value ∧ InsertedLast before source userId value))

end

/-! ## The calls alone -/

/-- Only a load inserts into the cache, and for its own user. -/
def InsertsOwn (call : Participant) (op : Op) : Prop :=
  ∀ userId ∈ cachesFor op, call = .getUserPermissions userId

theorem insertsOwn_of_none {call : Participant} {op : Op} (h : cachesFor op = none) :
    InsertsOwn call op := by
  intro userId hmem
  rw [h] at hmem
  contradiction

section

variable {ι : Type} {tablePrefix : JsString} {thread : ι} {call : Participant}
variable {rely : (op : Op) → Except Exception (Res op) → Prop}

/-- A result is reached without another first event. -/
def KeepsFirst {α : Type} (first : ServiceEvent ι) (result : Except Exception α)
    (events : List (ServiceEvent ι)) : Prop :=
  result.isOk = true → ∃ rest, events = first :: rest

theorem keepsFirst_of_error {α : Type} (first : ServiceEvent ι) (exception : Exception)
    (events : List (ServiceEvent ι)) :
    KeepsFirst first (.error exception : Except Exception α) events :=
  fun h => by cases h

theorem wp_loadTablePermissions_recorded {userId : JsNumber} {username : JsValue}
    {roleNames : List JsValue} {existingRoleIds activeRoleIds : List JsNumber}
    {first : ServiceEvent ι} {rest : List (ServiceEvent ι)} :
    wp (recorded thread (fun _ => InsertsOwn (.getUserPermissions userId)) rely)
      (loadTablePermissions tablePrefix userId username roleNames existingRoleIds activeRoleIds)
      (KeepsFirst first) (first :: rest) := by
  refine wp_next_getTableByName (insertsOwn_of_none rfl) (keepsFirst_of_error first)
    fun tables _ => ?_
  cases resolve tablePrefix tables SystemTable.tablePermissions.name with
  | none => exact fun _ => ⟨_, rfl⟩
  | some permissionsTable =>
      refine wp_next_ofExcept (keepsFirst_of_error first) fun filter _ => ?_
      refine wp_next (insertsOwn_of_none rfl) (keepsFirst_of_error first) fun records _ => ?_
      refine wp_next ?_ (keepsFirst_of_error first) fun _ _ => fun _ => ⟨_, rfl⟩
      intro other hother
      rw [Option.some.inj hother]

theorem wp_loadRoles_recorded {userId : JsNumber} {username : JsValue}
    {roleIds : List JsNumber} {first : ServiceEvent ι} {rest : List (ServiceEvent ι)} :
    wp (recorded thread (fun _ => InsertsOwn (.getUserPermissions userId)) rely)
      (loadRoles tablePrefix userId username roleIds) (KeepsFirst first) (first :: rest) := by
  refine wp_next_getTableByName (insertsOwn_of_none rfl) (keepsFirst_of_error first)
    fun tables _ => ?_
  cases resolve tablePrefix tables SystemTable.roles.name with
  | none => exact fun _ => ⟨_, rfl⟩
  | some rolesTable =>
      refine wp_next_ofExcept (keepsFirst_of_error first) fun filter _ => ?_
      refine wp_next (insertsOwn_of_none rfl) (keepsFirst_of_error first) fun roles _ => ?_
      show wp _ (if _ then _ else _) _ _
      split
      · exact fun _ => ⟨_, rfl⟩
      · exact wp_loadTablePermissions_recorded

theorem wp_loadUserRoles_recorded {userId : JsNumber} {username : JsValue}
    {first : ServiceEvent ι} {rest : List (ServiceEvent ι)} :
    wp (recorded thread (fun _ => InsertsOwn (.getUserPermissions userId)) rely)
      (loadUserRoles tablePrefix userId username) (KeepsFirst first) (first :: rest) := by
  refine wp_next_getTableByName (insertsOwn_of_none rfl) (keepsFirst_of_error first)
    fun tables _ => ?_
  cases resolve tablePrefix tables SystemTable.userRoles.name with
  | none => exact fun _ => ⟨_, rfl⟩
  | some userRolesTable =>
      refine wp_next_ofExcept (keepsFirst_of_error first) fun filter _ => ?_
      refine wp_next (insertsOwn_of_none rfl) (keepsFirst_of_error first) fun userRoles _ => ?_
      show wp _ (if _ then _ else _) _ _
      split
      · exact fun _ => ⟨_, rfl⟩
      · exact wp_loadRoles_recorded

/-- A load looks its user up in the cache first, and answers with what it finds. -/
theorem wp_getUserPermissions_recorded {userId : JsNumber} :
    wp (recorded thread (fun _ => InsertsOwn (.getUserPermissions userId)) rely)
      (getUserPermissions tablePrefix userId)
      (fun result events => ∀ value, result = .ok value → ∃ cached rest,
        events = ⟨thread, .cacheGet userId, .ok cached⟩ :: rest ∧
          (cached = none ∨ cached = some value))
      [] := by
  refine wp_next (insertsOwn_of_none rfl) (fun _ _ _ h => by cases h) fun cached _ => ?_
  cases cached with
  | some value =>
      intro other hother
      obtain rfl := Except.ok.inj hother
      exact ⟨some value, [], rfl, Or.inr rfl⟩
  | none =>
      have hload : wp (recorded thread (fun _ => InsertsOwn (.getUserPermissions userId)) rely)
          (loadUserPermissions tablePrefix userId)
          (KeepsFirst (⟨thread, .cacheGet userId, .ok none⟩ : ServiceEvent ι))
          [⟨thread, .cacheGet userId, .ok none⟩] := by
        refine wp_next_getTableByName (insertsOwn_of_none rfl) (keepsFirst_of_error _)
          fun tables _ => ?_
        cases resolve tablePrefix tables SystemTable.users.name with
        | none => exact fun _ => ⟨_, rfl⟩
        | some usersTable =>
            refine wp_next (insertsOwn_of_none rfl) (keepsFirst_of_error _) fun user _ => ?_
            exact wp_loadUserRoles_recorded
      refine wp_mono hload fun result events hresult value hvalue => ?_
      obtain ⟨rest, hrest⟩ := hresult (by rw [hvalue]; rfl)
      exact ⟨none, rest, hrest, Or.inl rfl⟩

/-- The last step before a result is a `clearCache`. -/
def ClearsLast {α : Type} (thread : ι) (cleared : Option JsNumber) (result : Except Exception α)
    (events : List (ServiceEvent ι)) : Prop :=
  result.isOk = true → ∃ earlier answer, events = earlier ++ [⟨thread, .clearCache cleared, answer⟩]

theorem clearsLast_of_error {α : Type} (thread : ι) (cleared : Option JsNumber)
    (exception : Exception) (events : List (ServiceEvent ι)) :
    ClearsLast thread cleared (.error exception : Except Exception α) events :=
  fun h => by cases h

theorem wp_removeRole_recorded {userId roleId : JsNumber} {events : List (ServiceEvent ι)} :
    wp (recorded thread (fun _ => InsertsOwn call) rely)
      (Users.removeRole tablePrefix userId roleId) (ClearsLast thread (some userId)) events := by
  have hfail := @clearsLast_of_error ι Unit thread (some userId)
  refine wp_next_getTableByName (insertsOwn_of_none rfl) hfail fun tables _ => ?_
  cases resolve tablePrefix tables SystemTable.userRoles.name with
  | none => exact hfail _ _
  | some userRolesTable =>
      refine wp_next_ofExcept hfail fun filter _ => ?_
      refine wp_next_findOne (insertsOwn_of_none rfl) hfail fun records _ => ?_
      cases records.head? with
      | none => exact hfail _ _
      | some assignment =>
          refine wp_next_ofExcept hfail fun recordId _ => ?_
          refine wp_next (insertsOwn_of_none rfl) hfail fun _ _ => ?_
          exact wp_last (insertsOwn_of_none rfl) hfail fun _ _ _ => ⟨_, _, rfl⟩

theorem wp_deleteRole_recorded {roleId : JsNumber} {events : List (ServiceEvent ι)} :
    wp (recorded thread (fun _ => InsertsOwn call) rely)
      (Roles.deleteRole tablePrefix roleId) (ClearsLast thread none) events := by
  have hfail := @clearsLast_of_error ι Unit thread none
  refine wp_next_getTableByName (insertsOwn_of_none rfl) hfail fun tables _ => ?_
  cases resolve tablePrefix tables SystemTable.roles.name with
  | none => exact hfail _ _
  | some rolesTable =>
      refine wp_next (insertsOwn_of_none rfl) hfail fun _ _ => ?_
      exact wp_last (insertsOwn_of_none rfl) hfail fun _ _ _ => ⟨_, _, rfl⟩

theorem wp_setTablePermissions_clearing {dto : SetTablePermissionsDto}
    {events : List (ServiceEvent ι)} :
    wp (recorded thread (fun _ => InsertsOwn call) rely)
      (setTablePermissions tablePrefix dto) (ClearsLast thread none) events := by
  have hfail := @clearsLast_of_error ι NocoRecord thread none
  refine wp_next_getTableByName (insertsOwn_of_none rfl) hfail fun tables _ => ?_
  cases resolve tablePrefix tables SystemTable.tablePermissions.name with
  | none => exact hfail _ _
  | some permissionsTable =>
      refine wp_next_ofExcept hfail fun filter _ => ?_
      refine wp_next_findOne (insertsOwn_of_none rfl) hfail fun records _ => ?_
      cases records.head? with
      | none =>
          refine wp_next (insertsOwn_of_none rfl) hfail fun _ _ => ?_
          exact wp_next (insertsOwn_of_none rfl) hfail fun _ _ _ => ⟨_, _, rfl⟩
      | some existing =>
          refine wp_next_ofExcept hfail fun recordId _ => ?_
          refine wp_next (insertsOwn_of_none rfl) hfail fun _ _ => ?_
          exact wp_next (insertsOwn_of_none rfl) hfail fun _ _ _ => ⟨_, _, rfl⟩

theorem wp_deleteRolePermissions_recorded {roleId : JsNumber} {events : List (ServiceEvent ι)} :
    wp (recorded thread (fun _ => InsertsOwn call) rely)
      (deleteRolePermissions tablePrefix roleId) (ClearsLast thread none) events := by
  have hfail := @clearsLast_of_error ι Unit thread none
  refine wp_next_getTableByName (insertsOwn_of_none rfl) hfail fun tables _ => ?_
  cases resolve tablePrefix tables SystemTable.tablePermissions.name with
  | none => exact hfail _ _
  | some permissionsTable =>
      refine wp_next_ofExcept hfail fun filter _ => ?_
      refine wp_next (insertsOwn_of_none rfl) hfail fun permissions _ => ?_
      rw [wp_bind]
      -- the deletions before the `clearCache` may be any number
      refine wp_forM (fun _ _ => True) ?_ ?_ trivial
      · intro perm remaining earlier _
        refine wp_next_ofExcept hfail fun recordId _ => ?_
        exact wp_last (insertsOwn_of_none rfl) hfail fun _ _ => trivial
      · intro earlier _
        exact wp_last (insertsOwn_of_none rfl) hfail fun _ _ _ => ⟨_, _, rfl⟩

variable [DecidableEq ι]

/-- What a call has done when it returns: a load has looked its user up first, and a
revocation has cleared the cache last. -/
structure Returned (call : Participant) (thread : ι)
    (result : Except Exception (Option UserPermissions)) (events : List (ServiceEvent ι)) :
    Prop where
  looked : ∀ userId value, call = .getUserPermissions userId → result = .ok (some value) →
    ∃ cached rest, events = ⟨thread, .cacheGet userId, .ok cached⟩ :: rest ∧
      (cached = none ∨ cached = some value)
  cleared : ∀ userId, call.Revokes userId → result.isOk = true →
    ∃ earlier last, events = earlier ++ [last] ∧ clears thread userId last = true

theorem wp_returned_of_clearsLast {α : Type} {program : Service α} {cleared : Option JsNumber}
    (hload : ∀ userId, call ≠ .getUserPermissions userId)
    (hcovers : ∀ userId, call.Revokes userId → Covers cleared userId)
    (h : wp (recorded thread (fun _ => InsertsOwn call) rely) program
      (ClearsLast thread cleared) []) :
    wp (recorded thread (fun _ => InsertsOwn call) rely) (program >>= fun _ => pure none)
      (Returned call thread) [] := by
  rw [wp_bind]
  refine wp_mono h fun result events hclears => ?_
  cases result with
  | error exception =>
      exact ⟨fun userId _ hcall => absurd hcall (hload userId), fun _ _ hok => by cases hok⟩
  | ok value =>
      obtain ⟨earlier, answer, rfl⟩ := hclears rfl
      refine ⟨fun userId _ hcall => absurd hcall (hload userId), fun userId hrevokes _ => ?_⟩
      refine ⟨earlier, _, rfl, ?_⟩
      simpa [clears] using hcovers userId hrevokes

theorem wp_program_recorded :
    wp (recorded thread (fun _ => InsertsOwn call) rely) (call.program tablePrefix)
      (Returned call thread) [] := by
  have hcovers : ∀ userId, Covers none userId := fun _ _ h => by cases h
  cases call with
  | getUserPermissions userId =>
      show wp _ (_ >>= _) _ _
      rw [wp_bind]
      refine wp_mono wp_getUserPermissions_recorded fun result events hresult => ?_
      cases result with
      | error exception => exact ⟨fun _ _ _ h => (by cases h), fun _ _ hok => by cases hok⟩
      | ok value =>
          refine ⟨fun other found hcall hfound => ?_, fun _ hrevokes => hrevokes.elim⟩
          obtain rfl := Participant.getUserPermissions.inj hcall
          obtain rfl := Option.some.inj (Except.ok.inj hfound)
          exact hresult value rfl
  | removeRole userId roleId =>
      refine wp_returned_of_clearsLast (by nofun) ?_ wp_removeRole_recorded
      rintro other rfl id hid -
      exact (Option.some.inj hid).symm
  | deleteRole roleId =>
      exact wp_returned_of_clearsLast (by nofun) (fun _ _ => hcovers _) wp_deleteRole_recorded
  | setTablePermissions dto =>
      exact wp_returned_of_clearsLast (by nofun) (fun _ _ => hcovers _)
        wp_setTablePermissions_clearing
  | deleteRolePermissions roleId =>
      exact wp_returned_of_clearsLast (by nofun) (fun _ _ => hcovers _)
        wp_deleteRolePermissions_recorded

end

/-! ## The cache -/

section

variable {ι : Type} [DecidableEq ι] {calls : ι → Participant} {faults : Bool}

/-- The entry that the cache may have for the user is older than the history, or a load
has inserted it that was not overtaken. -/
def Traced (calls : ι → Participant) (history : List (ServiceEvent ι)) (userId : JsNumber)
    (value : UserPermissions) : Prop :=
  (∀ event ∈ history, event.op.dropsEntry userId = false) ∨
    ∃ source before answer after,
      history = before ++ ⟨source, .cachePermissions userId value, answer⟩ :: after ∧
        (∀ event ∈ after, event.op.dropsEntry userId = false) ∧
        calls source = .getUserPermissions userId ∧ ¬ Overtaken calls before source userId

/-- What is in the cache, and what was found there, can be traced. -/
structure Ledger (calls : ι → Participant) (history : List (ServiceEvent ι)) (world : World) :
    Prop where
  entries : ∀ userId value, world.cache.live world.clock userId = some value →
    Traced calls history userId value
  lookups : ∀ before load userId value after,
    history = before ++ ⟨load, .cacheGet userId, .ok (some value)⟩ :: after →
      Traced calls before userId value

theorem Traced.append {history : List (ServiceEvent ι)} {userId : JsNumber}
    {value : UserPermissions} (h : Traced calls history userId value) {event : ServiceEvent ι}
    (hevent : event.op.dropsEntry userId = false) :
    Traced calls (history ++ [event]) userId value := by
  have hkept : ∀ events : List (ServiceEvent ι),
      (∀ other ∈ events, other.op.dropsEntry userId = false) →
        ∀ other ∈ events ++ [event], other.op.dropsEntry userId = false := by
    intro events hevents other hother
    rcases List.mem_append.mp hother with hother | hother
    · exact hevents other hother
    · rwa [List.mem_singleton.mp hother]
  rcases h with hnone | ⟨source, before, answer, after, rfl, hafter, hrest⟩
  · exact Or.inl (hkept history hnone)
  · exact Or.inr ⟨source, before, answer, after ++ [event], by simp, hkept after hafter, hrest⟩

/-- A step keeps the ledger if only loads insert, and only when they are not
overtaken. -/
theorem Ledger.of_step {history : List (ServiceEvent ι)} {world world' : World} {thread : ι}
    {op : Op} {result : Except Exception (Res op)} (hledger : Ledger calls history world)
    (hinserts : InsertsOwn (calls thread) op)
    (hguard : ∀ userId ∈ cachesFor op, ¬ Overtaken calls history thread userId)
    (hstep : (nocodb faults).contract.step op world result world') :
    Ledger calls (history ++ [⟨thread, op, result⟩]) world' := by
  refine ⟨fun userId value hlive => ?_, fun before load userId value after hsplit => ?_⟩
  · rcases live_of_step hstep hlive with rfl | ⟨hkept, hlive⟩
    · exact Or.inr ⟨thread, history, result, [], rfl, by simp, hinserts userId rfl,
        hguard userId rfl⟩
    · exact (hledger.entries userId value hlive).append hkept
  · rcases List.eq_nil_or_concat after with rfl | ⟨earlier, last, rfl⟩
    · obtain ⟨rfl, hevent⟩ := List.append_inj' hsplit rfl
      cases List.singleton_inj.mp hevent
      exact hledger.entries userId value (live_of_cacheGet hstep)
    · rw [List.concat_eq_append, ← List.cons_append, ← List.append_assoc] at hsplit
      exact hledger.lookups before load userId value earlier (List.append_inj' hsplit rfl).1

end

/-! ## Runs -/

section

variable {ι : Type} [DecidableEq ι] {tablePrefix : JsString} {calls : ι → Participant}

/-- The calls keep the ledger as long as no load inserts that has been overtaken. -/
theorem outlined_of_interleaved {first : World}
    {config : ServiceConfig ι (Option UserPermissions)}
    (hrun : Interleaved (nocodb true).contract (NotOvertaken calls)
      (Config.start (fun thread => (calls thread).program tablePrefix) first) config) :
    Outlined (Ledger calls) (fun thread _ => InsertsOwn (calls thread)) (fun _ _ => True)
      (fun thread => Returned (calls thread) thread) config := by
  have hpreserves : Preserves (Step (nocodb true).contract (NotOvertaken calls))
      (Outlined (Ledger calls) (fun thread _ => InsertsOwn (calls thread)) (fun _ _ => True)
        (fun thread => Returned (calls thread) thread)) :=
    preserves_outlined fun _ _ _ _ _ hledger hinserts hguard hstep =>
      ⟨trivial, hledger.of_step hinserts hguard hstep⟩
  refine hpreserves.reflTransGen _ _ hrun ⟨⟨?_, ?_⟩, fun thread => wp_program_recorded⟩
  · exact fun _ _ _ => Or.inl fun _ hevent => by cases hevent
  · intro before load userId value after hsplit
    cases before <;> cases hsplit

theorem writes_of_clears {mutation : ι} {userId : JsNumber} {event : ServiceEvent ι}
    (h : clears mutation userId event = true) : writes mutation event = false := by
  obtain ⟨thread, op, answer⟩ := event
  cases op <;> simp_all [clears, writes, Op.isWrite]

theorem dropsEntry_of_clears {mutation : ι} {userId : JsNumber} {event : ServiceEvent ι}
    (h : clears mutation userId event = true) : event.op.dropsEntry userId = true := by
  obtain ⟨thread, op, answer⟩ := event
  cases op <;> simp_all [clears, Op.dropsEntry]

/-- A load that is not overtaken by a revocation that has cleared the cache has listed
after its writes. -/
theorem not_before_of_not_overtaken {history before after : List (ServiceEvent ι)}
    {clear : ServiceEvent ι} {mutation source : ι} {userId : JsNumber}
    (hsplit : history = before ++ clear :: after)
    (hclear : clears mutation userId clear = true)
    (hafter : ∀ event ∈ after, event.thread ≠ mutation)
    (hnot : occurInOrder [lists source, writes mutation, clears mutation userId]
      (before ++ [clear]) = false) :
    occurInOrder [lists source, writes mutation] history = false := by
  have hcleared : ∀ event ∈ clear :: after, writes mutation event = false := by
    intro event hevent
    rcases List.mem_cons.mp hevent with rfl | hevent
    · exact writes_of_clears hclear
    · simp [writes, hafter event hevent]
  rw [Bool.eq_false_iff]
  intro hoccur
  rw [hsplit] at hoccur
  -- the revocation does not write after it has cleared the cache
  have hbefore : occurInOrder ([lists source] ++ [writes mutation]) before = true :=
    occurInOrder_of_append hoccur hcleared
  have hovertaken : occurInOrder [lists source, writes mutation, clears mutation userId]
      (before ++ [clear]) = true := by
    refine (occurInOrder_append_iff _ _ _).mpr
      ⟨[lists source, writes mutation], [clears mutation userId], rfl, hbefore, ?_⟩
    simp [occurInOrder, hclear]
  rw [hnot] at hovertaken
  contradiction

/-- Once a revocation has returned, a load that starts answers with what was listed after
the writes of the revocation, in every interleaving in which no load inserts into the
cache that has been overtaken by a revocation. -/
theorem lists_after_revocation (tablePrefix : JsString) (calls : ι → Participant)
    {first : World} {returned final : ServiceConfig ι (Option UserPermissions)}
    (hbefore : Interleaved (nocodb true).contract (NotOvertaken calls)
      (Config.start (fun thread => (calls thread).program tablePrefix) first) returned)
    (hafter : Interleaved (nocodb true).contract (NotOvertaken calls) returned final)
    {mutation load : ι} {userId : JsNumber} {outcome : Option UserPermissions}
    {value : UserPermissions} (hrevokes : (calls mutation).Revokes userId)
    (hreturned : returned.threads mutation = .done (.ok outcome))
    (hload : calls load = .getUserPermissions userId)
    (hstarts : returned.eventsOf load = [])
    (hvalue : final.threads load = .done (.ok (some value))) :
    ∃ source, calls source = .getUserPermissions userId ∧
      AnswersFrom final.history load source userId value ∧
      occurInOrder [lists source, writes mutation] final.history = false := by
  have houtlined := outlined_of_interleaved hbefore
  have hmutation := houtlined.threads mutation
  rw [hreturned, wp_done] at hmutation
  obtain ⟨earlier, clear, hevents, hclear⟩ := hmutation.cleared userId hrevokes rfl
  obtain ⟨before, between, hhistory, hbetween⟩ := Config.exists_last hevents
  obtain ⟨-, later, hlater, hothers⟩ := done_of_interleaved hafter hreturned
  have hfinal := outlined_of_interleaved (hbefore.trans hafter)
  have hloaded := hfinal.threads load
  rw [hvalue, wp_done] at hloaded
  obtain ⟨cached, rest, hlookups, hcached⟩ := hloaded.looked userId value hload rfl
  obtain ⟨head, tail, hhead⟩ := Config.exists_first hlookups
  have hfresh : ∀ event ∈ returned.history, event.thread ≠ load := by
    intro event hevent
    simpa using List.filter_eq_nil_iff.mp hstarts event hevent
  -- the lookup of the load comes after the revocation has returned
  obtain ⟨since, rfl, -⟩ := exists_of_not_mem_left (hhead.symm.trans hlater)
    fun hevent => hfresh _ hevent rfl
  have hsplit : final.history = before ++ clear :: (between ++ later) := by
    rw [hlater, hhistory, List.append_assoc, List.cons_append]
  have hsilent : ∀ event ∈ between ++ later, event.thread ≠ mutation := by
    intro event hevent
    rcases List.mem_append.mp hevent with hevent | hevent
    · exact hbetween event hevent
    · exact hothers event hevent
  rcases hcached with rfl | rfl
  · -- the load has not found its user in the cache and lists itself
    refine ⟨load, hload, ⟨_, none, tail, hhead, Or.inl ⟨rfl, rfl⟩⟩, ?_⟩
    refine not_before_of_not_overtaken hsplit hclear hsilent ?_
    rw [Bool.eq_false_iff]
    intro hoccur
    obtain ⟨event, hevent, hlists⟩ := exists_of_occurInOrder hoccur List.mem_cons_self
    have hmem : event ∈ returned.history := by
      rw [hhistory]
      rcases List.mem_append.mp hevent with hevent | hevent
      · exact List.mem_append_left _ hevent
      · rw [List.mem_singleton.mp hevent]
        simp
    rw [lists, Bool.and_eq_true, decide_eq_true_eq] at hlists
    exact hfresh event hmem hlists.1
  · -- the entry that the load has found was inserted after the revocation has cleared
    have hdrops : clear.op.dropsEntry userId = true := dropsEntry_of_clears hclear
    rcases hfinal.shared.lookups _ _ _ _ _ hhead with
      huntouched | ⟨source, listed, answer, after, hlisted, hkept, hsource, hnot⟩
    · have hmem : clear ∈ returned.history ++ since := by
        rw [hhistory]
        simp
      rw [huntouched clear hmem] at hdrops
      contradiction
    · refine ⟨source, hsource, ⟨_, some value, tail, hhead, Or.inr ⟨rfl, listed, answer, after,
        hlisted, hkept⟩⟩, ?_⟩
      refine not_before_of_not_overtaken hsplit hclear hsilent ?_
      have hclearNot : clear ∉ (⟨source, .cachePermissions userId value, answer⟩ :
          ServiceEvent ι) :: after := by
        intro hmem
        rcases List.mem_cons.mp hmem with rfl | hmem
        · simp [clears] at hclear
        · rw [hkept clear hmem] at hdrops
          contradiction
      rw [hhistory, List.append_assoc, List.cons_append] at hlisted
      obtain ⟨rest, rfl⟩ := exists_of_not_mem_right hlisted hclearNot
      rw [Bool.eq_false_iff]
      intro hoccur
      refine hnot ⟨mutation, hrevokes, ?_⟩
      rw [List.append_cons]
      exact (occurInOrder_append_iff _ _ _).mpr
        ⟨_, [], (List.append_nil _).symm, hoccur, occurInOrder_nil _⟩

end

/-- User 7 is loaded, loses role 3, and is loaded again. -/
def loadsAndRemoval : Fin 3 → Participant
  | 1 => .removeRole (.ofNat 7) (.ofNat 3)
  | _ => .getUserPermissions (.ofNat 7)

/-- The three calls on a store in which role 3 is assigned to user 7. -/
def threeCalls : ServiceConfig (Fin 3) (Option UserPermissions) :=
  .start (fun thread => (loadsAndRemoval thread).program []) readerWorld

/-- The removal has returned, and the second load has not started. -/
def removalReturned (config : ServiceConfig (Fin 3) (Option UserPermissions)) : Bool :=
  (match config.outcome 1 with
    | some (.ok none) => true
    | _ => false) && (config.eventsOf 2).isEmpty

/-- The answer of the second load. -/
def secondAnswer (config : ServiceConfig (Fin 3) (Option UserPermissions)) :
    Option UserPermissions :=
  match config.outcome 2 with
  | some (.ok value) => value
  | _ => none

/-- The first load runs to its end before the removal starts. -/
def loadThenRemoval : List (Fin 3 × Choice) :=
  List.replicate 10 (0, promptly 9) ++ List.replicate 4 (1, promptly 9)

/-- The removal runs between the last listing of the first load and its insertion. -/
def removalBeforeInsertion : List (Fin 3 × Choice) :=
  List.replicate 9 (0, promptly 9) ++ List.replicate 4 (1, promptly 9)

/-- Only the first load inserts into the cache, and the second one finds its user there. -/
def onlyFirstLoads (event : ServiceEvent (Fin 3)) : Bool :=
  match event with
  | ⟨thread, .cachePermissions _ _, _⟩ => thread = 0
  | ⟨thread, .cacheGet _, .ok none⟩ => thread = 0
  | _ => true

/-- Under given moves the removal returns and then the second load answers, both with a
given check. -/
def answersAfterRemoval (guard : ServiceConfig (Fin 3) (Option UserPermissions) → Fin 3 → Op → Prop)
    [∀ config thread op, Decidable (guard config thread op)]
    (first second : List (Fin 3 × Choice))
    (check : ServiceConfig (Fin 3) (Option UserPermissions) → UserPermissions → Bool) : Bool :=
  ((nocodb true).schedule guard first threeCalls).any fun returned =>
    removalReturned returned && ((nocodb true).schedule guard second returned).any fun final =>
      (secondAnswer final).any (check final)

theorem exists_of_answersAfterRemoval
    {guard : ServiceConfig (Fin 3) (Option UserPermissions) → Fin 3 → Op → Prop}
    [∀ config thread op, Decidable (guard config thread op)]
    {first second : List (Fin 3 × Choice)}
    {check : ServiceConfig (Fin 3) (Option UserPermissions) → UserPermissions → Bool}
    (h : answersAfterRemoval guard first second check = true) :
    ∃ returned final value, Interleaved (nocodb true).contract guard threeCalls returned ∧
      Interleaved (nocodb true).contract guard returned final ∧
      returned.threads 1 = .done (.ok none) ∧ returned.eventsOf 2 = [] ∧
      final.threads 2 = .done (.ok (some value)) ∧ check final value = true := by
  obtain ⟨returned, hbefore, hcheck⟩ := System.exists_interleaved h
  rw [Bool.and_eq_true] at hcheck
  obtain ⟨hremoval, hschedule⟩ := hcheck
  obtain ⟨final, hafter, hanswer⟩ := System.exists_interleaved hschedule
  obtain ⟨value, hvalue, hcheck⟩ := (Option.any_eq_true _ _).mp hanswer
  rw [removalReturned, Bool.and_eq_true, List.isEmpty_iff] at hremoval
  refine ⟨returned, final, value, hbefore, hafter, ?_, hremoval.2, ?_, hcheck⟩
  · apply Config.threads_of_outcome
    have houtcome := hremoval.1
    split at houtcome
    · assumption
    · contradiction
  · apply Config.threads_of_outcome
    unfold secondAnswer at hvalue
    split at hvalue
    · next houtcome => rw [houtcome, hvalue]
    · contradiction

theorem lists_after_revocation_reader :
    ∃ (returned final : ServiceConfig (Fin 3) (Option UserPermissions)) (value : UserPermissions),
      Interleaved (nocodb true).contract (NotOvertaken loadsAndRemoval) threeCalls returned ∧
        Interleaved (nocodb true).contract (NotOvertaken loadsAndRemoval) returned final ∧
        final.threads 2 = .done (.ok (some value)) ∧
        ∃ source, loadsAndRemoval source = .getUserPermissions (.ofNat 7) ∧
          AnswersFrom final.history 2 source (.ofNat 7) value ∧
          occurInOrder [lists source, writes 1] final.history = false := by
  obtain ⟨returned, final, value, hbefore, hafter, hreturned, hstarts, hvalue, -⟩ :=
    exists_of_answersAfterRemoval (by decide +kernel :
      answersAfterRemoval (NotOvertaken loadsAndRemoval) loadThenRemoval
        (List.replicate 5 (2, promptly 9)) (fun _ _ => true) = true)
  refine ⟨returned, final, value, hbefore, hafter, hvalue, ?_⟩
  exact lists_after_revocation [] loadsAndRemoval hbefore hafter rfl hreturned rfl hstarts hvalue

/-- A removal that runs between the listings of a load and its insertion is undone in
the cache: a load that starts when it has returned is answered with the removed rights,
by a call that has listed before the removal has written. -/
theorem removed_rights_served :
    ∃ (returned final : ServiceConfig (Fin 3) (Option UserPermissions)) (value : UserPermissions),
      Interleaved (nocodb true).contract AnyOrder threeCalls returned ∧
        Interleaved (nocodb true).contract AnyOrder returned final ∧
        returned.threads 1 = .done (.ok none) ∧ returned.eventsOf 2 = [] ∧
        final.threads 2 = .done (.ok (some value)) ∧
        value.allows (js "orders") .read = true ∧
        ¬ ∃ source, AnswersFrom final.history 2 source (.ofNat 7) value ∧
          occurInOrder [lists source, writes 1] final.history = false := by
  obtain ⟨returned, final, value, hbefore, hafter, hreturned, hstarts, hvalue, hcheck⟩ :=
    exists_of_answersAfterRemoval (by decide +kernel :
      answersAfterRemoval AnyOrder removalBeforeInsertion [(0, promptly 9), (2, promptly 9)]
        (fun final value => value.allows (js "orders") .read && final.history.all onlyFirstLoads &&
          occurInOrder [lists 0, writes 1] final.history) = true)
  simp only [Bool.and_eq_true, List.all_eq_true] at hcheck
  obtain ⟨⟨hallows, honly⟩, hoccur⟩ := hcheck
  refine ⟨returned, final, value, hbefore, hafter, hreturned, hstarts, hvalue, hallows, ?_⟩
  rintro ⟨source, ⟨before, cached, after, hhistory, hsource⟩, hnot⟩
  rcases hsource with ⟨rfl, rfl⟩ | ⟨rfl, earlier, answer, later, rfl, -⟩
  · -- the second load has found its user in the cache
    have hlookup := honly ⟨2, .cacheGet (.ofNat 7), .ok none⟩ (by rw [hhistory]; simp)
    contradiction
  · -- the first load has inserted what it has found
    have hinserted := honly ⟨source, .cachePermissions (.ofNat 7) value, answer⟩
      (by rw [hhistory]; simp)
    obtain rfl : source = 0 := of_decide_eq_true hinserted
    rw [hoccur] at hnot
    contradiction

end Concurrency
end NocoMiddleware
