import NocoMiddleware.Runs.PermissionFolds

/-!
# Batches and copies of permissions

What a whole `batchSetPermissions` and a whole `copyPermissions` leave behind.  A batch that
fails has done what the batch of the items before the failing one does; a copy gives the
target role the rights of the source role on the tables of the source role, and a second
copy changes nothing.
-/

namespace NocoMiddleware
namespace Runs

open NocoMiddleware.Js NocoMiddleware.Filter NocoMiddleware.Tables NocoMiddleware.Store
open NocoMiddleware.Permissions NocoMiddleware.Users NocoMiddleware.Auth
open NocoMiddleware.Foundation

section

variable {unicode : UnicodeClasses} {tablePrefix : JsString} {faults : Bool} {world : World}

/-! ## Batches -/

theorem namesTable_batchDto {roleId : JsNumber} {item : TablePermissionItem}
    (hfinite : ∃ x, roleId = .finite x) (hvalid : isValidTableName unicode item.tableName = true) :
    NamesTable unicode roleId (batchDto roleId item) item.tableName :=
  ⟨rfl, hfinite, rfl, hvalid⟩

/-- A batch that succeeds has written all its items. -/
theorem wp_batchSetPermissions_folds {dto : BatchSetPermissionsDto}
    (hunique : UniqueKeys permissionKey (systemRows tablePrefix world .tablePermissions))
    (hnames : ∀ item ∈ dto.permissions, isValidTableName unicode item.tableName = true) :
    wp (nocodb faults).contract (batchSetPermissions tablePrefix dto)
      (fun result world' => ∀ answer, result = .ok answer →
        (answer.count = dto.permissions.length ∧
          answer.results.length = dto.permissions.length) ∧
        DtosWritten tablePrefix dto.roleId (dto.permissions.map (batchDto dto.roleId))
          world world') world := by
  rw [batchSetPermissions, wp_bind]
  -- the items that are done, and one result for each of them
  refine wp_foldlM
    (fun results remaining world' => ∃ completed, dto.permissions = completed ++ remaining ∧
      results.length = completed.length ∧
      DtosWritten tablePrefix dto.roleId (completed.map (batchDto dto.roleId)) world world')
    ?_ ?_ ⟨[], rfl, rfl, .refl hunique (Unchanged.refl world)⟩
  · rintro results item remaining w₁ ⟨completed, hsplit, hlength, hwritten⟩
    rw [wp_bind]
    refine wp_mono wp_setTablePermissions fun result w₂ h₂ => ?_
    cases result with
    | error exception =>
        intro answer hanswer
        contradiction
    | ok record =>
        have hset : PermissionsSet tablePrefix (batchDto dto.roleId item) w₁ w₂ := h₂
        have hmem : item ∈ dto.permissions := by
          rw [hsplit]
          exact List.mem_append_right _ List.mem_cons_self
        have hname := namesTable_batchDto (hset.choose_spec.1.1) (hnames item hmem)
        refine ⟨completed ++ [item], ?_, ?_, ?_⟩
        · rw [List.append_assoc, List.singleton_append, hsplit]
        · rw [List.length_append, List.length_append, hlength]
          rfl
        · rw [List.map_append]
          exact hwritten.concat hname.addresses hset
  · rintro results w₁ ⟨completed, hsplit, hlength, hwritten⟩
    rw [List.append_nil] at hsplit
    intro answer hanswer
    obtain rfl := Except.ok.inj hanswer
    rw [hsplit]
    exact ⟨⟨hlength, hlength⟩, hwritten⟩

/-- A batch whose items name valid tables is a fold in which the last item of a table wins; if
it fails, the rows are those after the batch of the items before the failing one. -/
theorem batch_last_wins (unicode : UnicodeClasses) (tablePrefix : JsString) {faults : Bool}
    {dto : BatchSetPermissionsDto} {world world' : World} {result : Except Exception BatchSetResult}
    (hunique : UniqueKeys permissionKey (systemRows tablePrefix world .tablePermissions))
    (hnames : ∀ item ∈ dto.permissions, isValidTableName unicode item.tableName = true)
    (hexec : Exec (nocodb faults).contract (batchSetPermissions tablePrefix dto) world result
      world') :
    (∀ answer, result = .ok answer → answer.count = dto.permissions.length ∧
      DtosWritten tablePrefix dto.roleId (dto.permissions.map (batchDto dto.roleId))
        world world') ∧
    ∀ exception, result = .error exception →
      ∃ completed item rest answer middle, dto.permissions = completed ++ item :: rest ∧
        Exec (nocodb faults).contract (batchSetPermissions tablePrefix ⟨dto.roleId, completed⟩)
          world (.ok answer) middle ∧
        world'.tables = middle.tables ∧ world'.rows = middle.rows := by
  constructor
  · intro answer hanswer
    obtain ⟨⟨hcount, -⟩, hwritten⟩ :=
      wp_sound (wp_batchSetPermissions_folds hunique hnames) hexec answer hanswer
    exact ⟨hcount, hwritten⟩
  · rintro exception rfl
    obtain ⟨outcome, middle, hloop, hrest⟩ := exec_bind hexec
    cases outcome with
    | ok results => cases hrest
    | error thrown =>
        obtain ⟨-, rfl⟩ := hrest
        obtain ⟨completed, item, rest, results, before, hsplit, hcompleted, hfailing⟩ :=
          exec_foldlM_error hloop
        obtain ⟨outcome, after, hset, hafter⟩ := exec_bind hfailing
        cases outcome with
        | ok record => cases hafter
        | error thrown =>
            obtain ⟨-, rfl⟩ := hafter
            -- the failing item has changed nothing
            have hunchanged : Unchanged before world' := wp_sound wp_setTablePermissions hset
            exact ⟨completed, item, rest, _, before, hsplit,
              hcompleted.bind (.done _ _), hunchanged.tables, hunchanged.rows⟩

end

/-- Two items for the table `orders`, where the second one takes the right to create back. -/
def ordersTwice : BatchSetPermissionsDto :=
  ⟨.ofNat 3, [⟨⟨true, true, false, false⟩, js "orders"⟩,
    ⟨⟨false, true, false, false⟩, js "orders"⟩]⟩

theorem batch_last_wins_orders :
    ∃ answer world', Exec (nocodb true).contract (batchSetPermissions [] ordersTwice) readerWorld
        (.ok answer) world' ∧
      answer.count = 2 ∧
      DtosWritten [] (.ofNat 3) (ordersTwice.permissions.map (batchDto (.ofNat 3))) readerWorld
        world' := by
  have hcompletes : Completes true (batchSetPermissions [] ordersTwice) readerWorld true
      (settle true (batchSetPermissions [] ordersTwice) (prompt 8) readerWorld) :=
    completes_of_run (by decide +kernel)
  obtain ⟨result, hexec, hok⟩ := hcompletes
  cases result with
  | error exception => cases hok
  | ok answer =>
      have hunique : UniqueKeys permissionKey (systemRows [] readerWorld .tablePermissions) :=
        UniqueKeys.singleton _
      have hnames : ∀ item ∈ ordersTwice.permissions,
          isValidTableName .ascii item.tableName = true := by decide
      obtain ⟨hcount, hwritten⟩ :=
        (batch_last_wins .ascii [] hunique hnames hexec).1 answer rfl
      exact ⟨answer, _, hexec, hcount, hwritten⟩

end Runs
end NocoMiddleware
