import NocoMiddleware.Runs.KeyUniqueness
import NocoMiddleware.Store.SameRows

/-!
# Assigning several roles

`assignMultipleRoles` assigns the listed roles one after the other and skips those that the
user has by then.  The rows afterwards are the old ones and one new row for each listed role
that the user did not have; a run that fails has assigned the roles before the failing one.
-/

namespace NocoMiddleware
namespace Runs

open NocoMiddleware.Js NocoMiddleware.Filter NocoMiddleware.Tables NocoMiddleware.Store
open NocoMiddleware.Permissions NocoMiddleware.Users NocoMiddleware.Auth
open NocoMiddleware.Foundation

/-- The user has an assignment of the role. -/
def RoleAssigned (userId roleId : JsNumber) (rows : List Row) : Prop :=
  ∃ row ∈ rows, IsAssignment userId roleId row

instance (userId roleId : JsNumber) (rows : List Row) :
    Decidable (RoleAssigned userId roleId rows) :=
  inferInstanceAs (Decidable (∃ row ∈ rows, IsAssignment userId roleId row))

/-- The listed roles that the user does not have, each of them once. -/
def newRoleIds (userId : JsNumber) (roleIds : List JsNumber) (rows : List Row) : List JsNumber :=
  (roleIds.filter fun roleId => ¬ RoleAssigned userId roleId rows).dedup

/-- The added rows are one assignment for each listed role that the user did not have. -/
structure AddsRoles (userId : JsNumber) (roleIds : List JsNumber) (rows created : List Row)
    (added : List JsNumber) : Prop where
  keys : created.map assignmentKey = added.map fun roleId => some (userId, roleId)
  nodup : added.Nodup
  mem : ∀ roleId, roleId ∈ added ↔ roleId ∈ roleIds ∧ ¬ RoleAssigned userId roleId rows
  unique : UniqueKeys assignmentKey (rows ++ created)

/-- The roles of the user are the old ones and the listed ones, one row each, and all other
rows of the store are as before. -/
structure RolesUnited (tablePrefix : JsString) (userId : JsNumber) (roleIds : List JsNumber)
    (world world' : World) : Prop where
  tables : world'.tables = world.tables
  elsewhere : ∀ tableId, (∀ found,
      resolve tablePrefix world.tables SystemTable.userRoles.name = some found →
        found.id ≠ tableId) → world'.rows tableId = world.rows tableId
  rows : ∃ created, systemRows tablePrefix world' .userRoles =
      systemRows tablePrefix world .userRoles ++ created ∧
    ∀ row ∈ created, ∃ roleId ∈ roleIds, IsAssignment userId roleId row
  union : ∀ roleId, RoleAssigned userId roleId (systemRows tablePrefix world' .userRoles) ↔
    RoleAssigned userId roleId (systemRows tablePrefix world .userRoles) ∨ roleId ∈ roleIds
  unique : UniqueKeys assignmentKey (systemRows tablePrefix world' .userRoles)

section

variable {tablePrefix : JsString} {userId roleId : JsNumber} {roleIds added : List JsNumber}
  {rows created : List Row} {row : Row}

theorem roleAssigned_append :
    RoleAssigned userId roleId (rows ++ created) ↔
      RoleAssigned userId roleId rows ∨ RoleAssigned userId roleId created := by
  unfold RoleAssigned
  simp only [List.mem_append, or_and_right, exists_or]

/-! ## One role after the other -/

namespace AddsRoles

theorem nil (userId : JsNumber) (hunique : UniqueKeys assignmentKey rows) :
    AddsRoles userId [] rows [] [] where
  keys := rfl
  nodup := List.nodup_nil
  mem roleId := by simp
  unique := by rwa [List.append_nil]

theorem roleAssigned_created_iff (h : AddsRoles userId roleIds rows created added) :
    RoleAssigned userId roleId created ↔ roleId ∈ added := by
  have hkey : RoleAssigned userId roleId created ↔
      some (userId, roleId) ∈ created.map assignmentKey := by
    unfold RoleAssigned
    rw [List.mem_map]
    simp only [assignmentKey_eq_some_iff]
  rw [hkey, h.keys, List.mem_map]
  constructor
  · rintro ⟨other, hother, heq⟩
    obtain rfl : other = roleId := congrArg Prod.snd (Option.some.inj heq)
    exact hother
  · intro hmem
    exact ⟨roleId, hmem, rfl⟩

/-- A role that the user does not have yet is added. -/
theorem assigned (h : AddsRoles userId roleIds rows created added)
    (hassignment : IsAssignment userId roleId row)
    (habsent : ¬ RoleAssigned userId roleId (rows ++ created)) :
    AddsRoles userId (roleIds ++ [roleId]) rows (created ++ [row]) (added ++ [roleId]) := by
  have hkey := (assignmentKey_eq_some_iff row userId roleId).mpr hassignment
  obtain ⟨hold, hnew⟩ : ¬ RoleAssigned userId roleId rows ∧ roleId ∉ added := by
    rw [roleAssigned_append, not_or, h.roleAssigned_created_iff] at habsent
    exact habsent
  constructor
  · rw [List.map_append, List.map_append, h.keys, List.map_singleton, List.map_singleton, hkey]
  · rw [List.nodup_append]
    refine ⟨h.nodup, List.nodup_singleton roleId, ?_⟩
    rintro other hother _ hlast rfl
    rw [List.mem_singleton] at hlast
    exact hnew (hlast ▸ hother)
  · intro other
    rw [List.mem_append, List.mem_append, h.mem, List.mem_singleton]
    constructor
    · rintro (⟨hlisted, hnot⟩ | rfl)
      · exact ⟨Or.inl hlisted, hnot⟩
      · exact ⟨Or.inr rfl, hold⟩
    · rintro ⟨hlisted | rfl, hnot⟩
      · exact Or.inl ⟨hlisted, hnot⟩
      · exact Or.inr rfl
  · rw [← List.append_assoc]
    apply h.unique.append_singleton
    intro key hnewKey other hother hsame
    rw [← hnewKey, hkey, assignmentKey_eq_some_iff] at hsame
    exact habsent ⟨other, hother, hsame⟩

/-- A role that the user has is skipped. -/
theorem skipped (h : AddsRoles userId roleIds rows created added)
    (hheld : RoleAssigned userId roleId (rows ++ created)) :
    AddsRoles userId (roleIds ++ [roleId]) rows created added := by
  refine ⟨h.keys, h.nodup, fun other => ?_, h.unique⟩
  rw [h.mem, List.mem_append, List.mem_singleton]
  constructor
  · exact fun hother => ⟨Or.inl hother.1, hother.2⟩
  · rintro ⟨hlisted | rfl, hnot⟩
    · exact ⟨hlisted, hnot⟩
    · -- the user got the role in an earlier round
      rw [roleAssigned_append, h.roleAssigned_created_iff, h.mem] at hheld
      exact hheld.resolve_left hnot

/-- The number of added rows. -/
theorem length_created (h : AddsRoles userId roleIds rows created added) :
    created.length = (newRoleIds userId roleIds rows).length := by
  have hperm : added.Perm (newRoleIds userId roleIds rows) := by
    apply (List.perm_ext_iff_of_nodup h.nodup (List.nodup_dedup _)).mpr
    intro other
    rw [List.mem_dedup, List.mem_filter, decide_eq_true_iff, h.mem]
  rw [← hperm.length_eq, ← List.length_map (f := assignmentKey), h.keys, List.length_map]

/-- The roles of the user are the old ones and the listed ones. -/
theorem roleAssigned_iff (h : AddsRoles userId roleIds rows created added) :
    RoleAssigned userId roleId (rows ++ created) ↔
      RoleAssigned userId roleId rows ∨ roleId ∈ roleIds := by
  rw [roleAssigned_append, h.roleAssigned_created_iff, h.mem]
  constructor
  · exact fun hhas => hhas.imp_right And.left
  · rintro (hold | hlisted)
    · exact Or.inl hold
    · by_cases hold : RoleAssigned userId roleId rows
      · exact Or.inl hold
      · exact Or.inr ⟨hlisted, hold⟩

theorem exists_of_mem (h : AddsRoles userId roleIds rows created added) (hrow : row ∈ created) :
    ∃ roleId ∈ roleIds, IsAssignment userId roleId row := by
  have hkey : assignmentKey row ∈ created.map assignmentKey := List.mem_map_of_mem hrow
  rw [h.keys] at hkey
  obtain ⟨roleId, hadded, heq⟩ := List.mem_map.mp hkey
  exact ⟨roleId, ((h.mem roleId).mp hadded).1, (assignmentKey_eq_some_iff _ _ _).mp heq.symm⟩

end AddsRoles

/-! ## The loop -/

/-- What the rounds for some listed roles have done. -/
structure RoundsDone (tablePrefix : JsString) (userId : JsNumber) (roleIds : List JsNumber)
    (results : List NocoRecord) (world world' : World) : Prop where
  tables : world'.tables = world.tables
  elsewhere : ∀ tableId, (∀ found,
      resolve tablePrefix world.tables SystemTable.userRoles.name = some found →
        found.id ≠ tableId) → world'.rows tableId = world.rows tableId
  rows : ∃ created added, systemRows tablePrefix world' .userRoles =
      systemRows tablePrefix world .userRoles ++ created ∧ results.length = created.length ∧
    AddsRoles userId roleIds (systemRows tablePrefix world .userRoles) created added

variable {faults : Bool} {results : List NocoRecord} {world middle world' : World}

theorem RoundsDone.assigned (h : RoundsDone tablePrefix userId roleIds results world middle)
    (record : NocoRecord) (hassigned : Assigned tablePrefix userId roleId middle world') :
    RoundsDone tablePrefix userId (roleIds ++ [roleId]) (results ++ [record]) world world' := by
  obtain ⟨created, added, hrows, hlength, hadds⟩ := h.rows
  obtain ⟨last, ⟨habsent, row, hassignment, -, hchanged⟩, hcleared⟩ := hassigned
  constructor
  · rw [hcleared.tables, hchanged.tables, h.tables]
  · intro tableId hne
    rw [← h.tables] at hne
    rw [hcleared.rows, hchanged.rows_of_ne hne]
    rw [h.tables] at hne
    exact h.elsewhere tableId hne
  · obtain ⟨before, after, hbefore, hafter, hfresh, rfl⟩ := hchanged.applies
    refine ⟨created ++ [row], added ++ [roleId], ?_, ?_, ?_⟩
    · rw [hcleared.systemRows_eq, hafter, Table.rows_insert, ← hbefore, hrows, List.append_assoc]
    · rw [List.length_append, List.length_append, hlength]
      rfl
    · apply hadds.assigned hassignment
      rw [← hrows]
      rintro ⟨other, hother, hsame⟩
      exact habsent other hother hsame

theorem RoundsDone.skipped (h : RoundsDone tablePrefix userId roleIds results world middle)
    (hunchanged : Unchanged middle world')
    (hheld : RoleAssigned userId roleId (systemRows tablePrefix middle .userRoles)) :
    RoundsDone tablePrefix userId (roleIds ++ [roleId]) results world world' := by
  obtain ⟨created, added, hrows, hlength, hadds⟩ := h.rows
  constructor
  · rw [hunchanged.tables, h.tables]
  · intro tableId hne
    rw [hunchanged.rows, h.elsewhere tableId hne]
  · refine ⟨created, added, ?_, hlength, hadds.skipped ?_⟩
    · rw [hunchanged.systemRows_eq, hrows]
    · rwa [← hrows]

/-- One round assigns the role, skips it because the user has it, or fails without a conflict
and changes nothing. -/
theorem wp_assignNextRole_done
    (h : RoundsDone tablePrefix userId roleIds results world middle) :
    wp (nocodb faults).contract (assignNextRole tablePrefix userId results roleId)
      (fun result world' => match result with
        | .ok next => RoundsDone tablePrefix userId (roleIds ++ [roleId]) next world world'
        | .error exception => exception.isConflict = false ∧ Unchanged middle world')
      middle := by
  rw [assignNextRole, wp_tryCatch, wp_bind]
  refine wp_mono wp_assignRole_outcome fun result w₁ h₁ => ?_
  cases result with
  | ok record => exact h.assigned record h₁
  | error exception =>
      obtain ⟨hunchanged, hheld⟩ := h₁
      show wp _ (if exception.isConflict then _ else _) _ w₁
      by_cases hconflict : exception.isConflict = true
      · rw [if_pos hconflict]
        exact h.skipped hunchanged (hheld hconflict)
      · rw [if_neg hconflict]
        exact ⟨by simpa using hconflict, hunchanged⟩

theorem wp_assignMultipleRoles_done {dto : AssignMultipleRolesDto}
    (hunique : UniqueKeys assignmentKey (systemRows tablePrefix world .userRoles)) :
    wp (nocodb faults).contract (assignMultipleRoles tablePrefix dto)
      (fun result world' => ∀ answer, result = .ok answer →
        answer.assignedCount = answer.results.length ∧
          RoundsDone tablePrefix dto.userId dto.roleIds answer.results world world') world := by
  rw [assignMultipleRoles, wp_bind]
  refine wp_foldlM
    (fun results remaining world' => ∃ completed, dto.roleIds = completed ++ remaining ∧
      RoundsDone tablePrefix dto.userId completed results world world') ?_ ?_ ⟨[], rfl, ?_⟩
  · rintro results roleId remaining w₁ ⟨completed, hsplit, hdone⟩
    refine wp_mono (wp_assignNextRole_done hdone) fun result w₂ h₂ => ?_
    cases result with
    | error exception =>
        intro answer hanswer
        contradiction
    | ok next => exact ⟨completed ++ [roleId], by rw [hsplit, List.append_assoc]; rfl, h₂⟩
  · rintro results w₁ ⟨completed, hsplit, hdone⟩ answer hanswer
    obtain rfl := Except.ok.inj hanswer
    rw [List.append_nil] at hsplit
    rw [hsplit]
    exact ⟨rfl, hdone⟩
  · refine ⟨rfl, fun _ _ => rfl, [], [], (List.append_nil _).symm, rfl, .nil _ hunique⟩

theorem RoundsDone.united (h : RoundsDone tablePrefix userId roleIds results world world') :
    RolesUnited tablePrefix userId roleIds world world' := by
  obtain ⟨created, added, hrows, -, hadds⟩ := h.rows
  constructor
  · exact h.tables
  · exact h.elsewhere
  · exact ⟨created, hrows, fun row hrow => hadds.exists_of_mem hrow⟩
  · intro roleId
    rw [hrows]
    exact hadds.roleAssigned_iff
  · rw [hrows]
    exact hadds.unique

end

/-- Assigning several roles unites the roles of the user with the list and counts the listed
roles that are new; if it fails, the rows are those of assigning the roles before the failing
one. -/
theorem roles_united (tablePrefix : JsString) {faults : Bool} {dto : AssignMultipleRolesDto}
    {world world' : World} {result : Except Exception AssignedRoles}
    (hunique : UniqueKeys assignmentKey (systemRows tablePrefix world .userRoles))
    (hexec : Exec (nocodb faults).contract (assignMultipleRoles tablePrefix dto) world result
      world') :
    (∀ answer, result = .ok answer →
      RolesUnited tablePrefix dto.userId dto.roleIds world world' ∧
      answer.assignedCount = answer.results.length ∧
      answer.assignedCount = (newRoleIds dto.userId dto.roleIds
        (systemRows tablePrefix world .userRoles)).length) ∧
    ∀ exception, result = .error exception → exception.isConflict = false ∧
      ∃ completed roleId rest answer middle, dto.roleIds = completed ++ roleId :: rest ∧
        Exec (nocodb faults).contract (assignMultipleRoles tablePrefix ⟨dto.userId, completed⟩)
          world (.ok answer) middle ∧
        world'.tables = middle.tables ∧ world'.rows = middle.rows := by
  constructor
  · intro answer hanswer
    obtain ⟨hcount, hdone⟩ := wp_sound (wp_assignMultipleRoles_done hunique) hexec answer hanswer
    obtain ⟨created, added, -, hlength, hadds⟩ := hdone.rows
    refine ⟨hdone.united, hcount, ?_⟩
    rw [hcount, hlength, hadds.length_created]
  · rintro exception rfl
    obtain ⟨outcome, middle, hloop, hrest⟩ := exec_bind hexec
    cases outcome with
    | ok results => cases hrest
    | error thrown =>
        obtain ⟨herror, rfl⟩ := hrest
        obtain rfl := Except.error.inj herror
        obtain ⟨completed, roleId, rest, results, before, hsplit, hcompleted, hfailing⟩ :=
          exec_foldlM_error hloop
        -- the rounds before the failing one are a call for the completed roles
        have hbefore : Exec (nocodb faults).contract
            (assignMultipleRoles tablePrefix ⟨dto.userId, completed⟩) world _ before :=
          hcompleted.bind (.done _ _)
        obtain ⟨-, hdone⟩ := wp_sound (wp_assignMultipleRoles_done hunique) hbefore _ rfl
        obtain ⟨hconflict, hunchanged⟩ := wp_sound (wp_assignNextRole_done hdone) hfailing
        exact ⟨hconflict, completed, roleId, rest, _, before, hsplit, hbefore, hunchanged.tables,
          hunchanged.rows⟩

/-- The user 7 gets two roles, one of which it has. -/
theorem roles_united_reader :
    ∃ answer world', Exec (nocodb true).contract
        (assignMultipleRoles [] ⟨.ofNat 7, [.ofNat 3, .ofNat 4, .ofNat 4]⟩) readerWorld
        (.ok answer) world' ∧
      RolesUnited [] (.ofNat 7) [.ofNat 3, .ofNat 4, .ofNat 4] readerWorld world' ∧
      answer.assignedCount = 1 := by
  have hcompletes : Completes true
      (assignMultipleRoles [] ⟨.ofNat 7, [.ofNat 3, .ofNat 4, .ofNat 4]⟩) readerWorld true
      (settle true (assignMultipleRoles [] ⟨.ofNat 7, [.ofNat 3, .ofNat 4, .ofNat 4]⟩)
        (prompt 9) readerWorld) := completes_of_run (by decide +kernel)
  obtain ⟨result, hexec, hok⟩ := hcompletes
  cases result with
  | error exception => cases hok
  | ok answer =>
      have hunique : UniqueKeys assignmentKey (systemRows [] readerWorld .userRoles) :=
        UniqueKeys.singleton _
      have hnew : (newRoleIds (.ofNat 7) [.ofNat 3, .ofNat 4, .ofNat 4]
          (systemRows [] readerWorld .userRoles)).length = 1 := by decide
      obtain ⟨hunited, -, hcount⟩ := (roles_united [] hunique hexec).1 answer rfl
      exact ⟨answer, _, hexec, hunited, hcount.trans hnew⟩

end Runs
end NocoMiddleware
