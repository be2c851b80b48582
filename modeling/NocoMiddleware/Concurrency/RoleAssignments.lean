import NocoMiddleware.Concurrency.Threads
import NocoMiddleware.Runs.KeyUniqueness

/-!
# Interleaved assignments of one role

`assignRole` looks an assignment up and then creates it.  Interleaved calls keep at
most one row of an assignment as long as each create request finds none, and then
`removeRole` removes the role.  Two calls that both look up before either creates
leave two rows, of which `removeRole` removes one.
-/

namespace NocoMiddleware
namespace Concurrency

open NocoMiddleware.Js NocoMiddleware.Filter NocoMiddleware.Tables NocoMiddleware.Store
open NocoMiddleware.Permissions NocoMiddleware.Users NocoMiddleware.Runs NocoMiddleware.Foundation

/-- A create request finds no assignment of the role to the user. -/
def Unassigned {ι α : Type} (tablePrefix : JsString) (userId roleId : JsNumber)
    (config : ServiceConfig ι α) (_ : ι) (op : Op) : Prop :=
  op.createsIn.isSome = true →
    ∀ row ∈ systemRows tablePrefix config.world .userRoles, ¬ IsAssignment userId roleId row

instance {ι α : Type} (tablePrefix : JsString) (userId roleId : JsNumber)
    (config : ServiceConfig ι α) (thread : ι) (op : Op) :
    Decidable (Unassigned tablePrefix userId roleId config thread op) :=
  inferInstanceAs (Decidable (_ → _))

/-- The only write is the creation of an assignment of the role to the user. -/
def OnlyAssigns (tablePrefix : JsString) (tables : List TableMeta) (userId roleId : JsNumber)
    (op : Op) : Prop :=
  op.isWrite = true →
    ∃ found assignedAt, resolve tablePrefix tables SystemTable.userRoles.name = some found ∧
      op = .create found.id (assignmentData userId roleId assignedAt)

section

variable {ι : Type} {faults : Bool} {tablePrefix : JsString} {userId roleId : JsNumber}

theorem wp_assignRole_recorded {tables : List TableMeta} {thread : ι}
    {events : List (ServiceEvent ι)} :
    wp (recorded thread (fun _ => OnlyAssigns tablePrefix tables userId roleId)
        (SeesTables tables))
      (assignRole tablePrefix ⟨userId, roleId⟩) (fun _ _ => True) events := by
  have hfail : ∀ (exception : Exception) (events : List (ServiceEvent ι)), True :=
    fun _ _ => trivial
  refine wp_next_getTableByName (by nofun) hfail fun found hfound => ?_
  obtain rfl : found = tables := hfound
  cases hresolve : resolve tablePrefix found SystemTable.userRoles.name with
  | none => trivial
  | some userRolesTable =>
      refine wp_next_ofExcept hfail fun filter _ => ?_
      refine wp_next_findOne (by nofun) hfail fun records _ => ?_
      cases records.head? with
      | some existing => trivial
      | none =>
          refine wp_next (by nofun) hfail fun assignedAt _ => ?_
          refine wp_next ?_ hfail fun result _ => ?_
          · exact fun _ => ⟨userRolesTable, assignedAt, hresolve, rfl⟩
          · exact wp_next (by nofun) hfail fun _ _ => trivial

/-- A creation of an assignment that finds none keeps at most one. -/
theorem atMostOne_of_onlyAssigns {op : Op} {world world' : World}
    {result : Except Exception (Res op)}
    (hone : AtMostOne (IsAssignment userId roleId) (systemRows tablePrefix world .userRoles))
    (hop : OnlyAssigns tablePrefix world.tables userId roleId op)
    (hunassigned : op.createsIn.isSome = true →
      ∀ row ∈ systemRows tablePrefix world .userRoles, ¬ IsAssignment userId roleId row)
    (hstep : (nocodb faults).contract.step op world result world') :
    AtMostOne (IsAssignment userId roleId) (systemRows tablePrefix world' .userRoles) := by
  cases hwrite : op.isWrite with
  | false => rwa [systemRows_of_step hstep hwrite]
  | true =>
      obtain ⟨found, assignedAt, hresolve, rfl⟩ := hop hwrite
      have habsent := hunassigned rfl
      have hcreate : wp (nocodb faults).contract
          (create found.id (assignmentData userId roleId assignedAt))
          (fun _ later => AtMostOne (IsAssignment userId roleId)
            (systemRows tablePrefix later .userRoles)) world := by
        refine wp_create_changed (Unchanged.refl world) hresolve ?_ ?_
        · intro _ later hlater
          rwa [hlater.systemRows_eq]
        · intro row later hcells hchanged
          obtain ⟨before, after, hbefore, hafter, hfresh, rfl⟩ := hchanged.applies
          rw [hbefore] at hone habsent
          rw [hafter, Table.rows_insert]
          exact hone.append_singleton fun _ => habsent
      exact hcreate.2 _ _ hstep

variable [DecidableEq ι]

/-- Interleaved assignments of a role keep at most one row of it as long as each create
request finds none. -/
theorem atMostOne_of_interleaved {first : World}
    (hfirst : AtMostOne (IsAssignment userId roleId) (systemRows tablePrefix first .userRoles))
    {config : ServiceConfig ι NocoRecord}
    (hrun : Interleaved (nocodb faults).contract (Unassigned tablePrefix userId roleId)
      (Config.start (fun _ => assignRole tablePrefix ⟨userId, roleId⟩) first) config) :
    AtMostOne (IsAssignment userId roleId) (systemRows tablePrefix config.world .userRoles) := by
  have hpreserves : Preserves (Step (nocodb faults).contract
      (Unassigned tablePrefix userId roleId))
      (Outlined (fun _ (world : World) => world.tables = first.tables ∧
          AtMostOne (IsAssignment userId roleId) (systemRows tablePrefix world .userRoles))
        (fun (_ : ι) _ => OnlyAssigns tablePrefix first.tables userId roleId)
        (SeesTables first.tables) (fun _ (_ : Except Exception NocoRecord) _ => True)) := by
    refine preserves_outlined fun config thread op answer world hshared hpermits hguard hstep => ?_
    obtain ⟨htables, hone⟩ := hshared
    rw [← htables] at hpermits
    refine ⟨?_, (tables_of_step hstep).trans htables,
      atMostOne_of_onlyAssigns hone hpermits hguard hstep⟩
    rw [← htables]
    exact seesTables_of_step hstep
  refine (hpreserves.reflTransGen _ _ hrun ⟨⟨rfl, hfirst⟩, fun thread => ?_⟩).shared.2
  exact wp_assignRole_recorded

/-- After interleaved assignments of a role whose create requests each find no row of
it, a successful `removeRole` leaves no row of it. -/
theorem removeRole_leaves_none (tablePrefix : JsString) (userId roleId : JsNumber)
    {first : World}
    (hfirst : AtMostOne (IsAssignment userId roleId) (systemRows tablePrefix first .userRoles))
    {config : ServiceConfig ι NocoRecord}
    (hrun : Interleaved (nocodb true).contract (Unassigned tablePrefix userId roleId)
      (Config.start (fun _ => assignRole tablePrefix ⟨userId, roleId⟩) first) config)
    {world : World}
    (hremoved : (Call.removeRole userId roleId).Performs tablePrefix true config.world true
      world) :
    ∀ row ∈ systemRows tablePrefix world .userRoles, ¬ IsAssignment userId roleId row :=
  not_isAssignment_of_removed (atMostOne_of_interleaved hfirst hrun)
    (Call.effect_of_performs hremoved)

end

/-- Two calls that assign role 4 to user 7. -/
def twoAssignments : ServiceConfig (Fin 2) NocoRecord :=
  .start (fun _ => assignRole [] ⟨.ofNat 7, .ofNat 4⟩) readerWorld

/-- The first call runs to its end before the second one starts. -/
def oneAfterTheOther : List (Fin 2 × Choice) :=
  List.replicate 5 (0, promptly 9) ++ List.replicate 2 (1, promptly 10)

/-- Both calls look the assignment up before either creates it. -/
def bothAtOnce : List (Fin 2 × Choice) :=
  (List.replicate 5 [(0, promptly 9), (1, promptly 10)]).flatten

theorem removeRole_leaves_none_reader :
    ∃ (config : ServiceConfig (Fin 2) NocoRecord) (world : World),
      Interleaved (nocodb true).contract (Unassigned [] (.ofNat 7) (.ofNat 4)) twoAssignments
          config ∧
        (∀ thread, (config.outcome thread).isSome = true) ∧
        (Call.removeRole (.ofNat 7) (.ofNat 4)).Performs [] true config.world true world ∧
        ∀ row ∈ systemRows [] world .userRoles, ¬ IsAssignment (.ofNat 7) (.ofNat 4) row := by
  obtain ⟨config, hrun, hcheck⟩ := System.exists_interleaved
    (by decide +kernel : ((nocodb true).schedule (Unassigned [] (.ofNat 7) (.ofNat 4))
      oneAfterTheOther twoAssignments).any (fun config =>
        decide (∀ thread, (config.outcome thread).isSome = true) &&
          succeedsWith true (removeRole [] (.ofNat 7) (.ofNat 4)) (prompt 4) (fun _ => true)
            config.world) = true)
  rw [Bool.and_eq_true, decide_eq_true_eq] at hcheck
  obtain ⟨world, hremoved, -⟩ := completes_of_succeedsWith hcheck.2
  refine ⟨config, world, hrun, hcheck.1, hremoved, ?_⟩
  have hfirst : AtMostOne (IsAssignment (.ofNat 7) (.ofNat 4))
      (systemRows [] readerWorld .userRoles) := AtMostOne.singleton _
  exact removeRole_leaves_none [] (.ofNat 7) (.ofNat 4) hfirst hrun hremoved

/-- Two calls that look the assignment up before either creates it both succeed, and the
removal of the role leaves one of their rows. -/
theorem role_survives_removal :
    ∃ (config : ServiceConfig (Fin 2) NocoRecord) (world : World),
      Interleaved (nocodb true).contract AnyOrder twoAssignments config ∧
        (∀ thread, (config.outcome thread).isSome = true) ∧
        (Call.removeRole (.ofNat 7) (.ofNat 4)).Performs [] true config.world true world ∧
        ∃ row ∈ systemRows [] world .userRoles, IsAssignment (.ofNat 7) (.ofNat 4) row := by
  obtain ⟨config, hrun, hcheck⟩ := System.exists_interleaved
    (by decide +kernel : ((nocodb true).schedule AnyOrder bothAtOnce twoAssignments).any
      (fun config => decide (∀ thread, (config.outcome thread).isSome = true) &&
        succeedsWith true (removeRole [] (.ofNat 7) (.ofNat 4)) (prompt 4)
          (fun world => decide (∃ row ∈ systemRows [] world .userRoles,
            IsAssignment (.ofNat 7) (.ofNat 4) row)) config.world) = true)
  rw [Bool.and_eq_true, decide_eq_true_eq] at hcheck
  obtain ⟨world, hremoved, hrow⟩ := completes_of_succeedsWith hcheck.2
  exact ⟨config, world, hrun, hcheck.1, hremoved, of_decide_eq_true hrow⟩

end Concurrency
end NocoMiddleware
