import Mathlib.Data.Set.Insert
import Mathlib.Tactic.Common

/-!
# Role-based policies and their logs

A `RolePolicy` says which roles there are, which users have them and what each role may do on
each table; `Allows` is the decision.  A policy changes by single edits.  After any list of
edits the decision is read off the list: of every assignment, every role and every pair of a
role and a table, the last edit counts.  Edits that do not concern a user leave the decisions
about it as they are.
-/

namespace NocoMiddleware
namespace Foundation

/-! ## The last write of a list -/

section

variable {ε β σ : Type*} {writes : ε → Option β}

/-- The value that the last write of a list leaves; an entry may write nothing. -/
def lastWrite (writes : ε → Option β) (initial : β) (entries : List ε) : β :=
  entries.foldl (fun value entry => (writes entry).getD value) initial

@[simp] theorem lastWrite_nil (initial : β) : lastWrite writes initial [] = initial := rfl

@[simp] theorem lastWrite_cons (initial : β) (entry : ε) (entries : List ε) :
    lastWrite writes initial (entry :: entries) =
      lastWrite writes ((writes entry).getD initial) entries := rfl

/-- What a fold leaves at a place that every step overwrites or leaves alone. -/
theorem read_foldl {step : σ → ε → σ} (read : σ → β)
    (h : ∀ state entry, read (step state entry) = (writes entry).getD (read state))
    (entries : List ε) (state : σ) :
    read (entries.foldl step state) = lastWrite writes (read state) entries := by
  induction entries generalizing state with
  | nil => rfl
  | cons entry entries ih =>
      rw [List.foldl_cons, ih, h, lastWrite_cons]

end

/-! ## Policies -/

/-- Which roles there are, which users have them, and what they may do on each table. -/
@[ext] structure RolePolicy (υ ρ τ α : Type*) where
  roles : Set ρ
  assigned : Set (υ × ρ)
  rights : ρ → τ → Option (Set α)

/-- A single change of a policy. -/
inductive PolicyEdit (υ ρ τ α : Type*) where
  | addRole (role : ρ)
  | dropRole (role : ρ)
  | assign (user : υ) (role : ρ)
  | unassign (user : υ) (role : ρ)
  | setRights (role : ρ) (table : τ) (actions : Set α)
  | dropRights (role : ρ) (table : τ)

namespace RolePolicy

variable {υ ρ τ α : Type*}

open Classical in
/-- The rights with those of one role on one table replaced. -/
noncomputable def withRights (policy : RolePolicy υ ρ τ α) (role : ρ) (table : τ)
    (actions : Option (Set α)) : RolePolicy υ ρ τ α :=
  { policy with
    rights := fun other name =>
      if other = role ∧ name = table then actions else policy.rights other name }

/-- The policy after a change. -/
noncomputable def edit (policy : RolePolicy υ ρ τ α) :
    PolicyEdit υ ρ τ α → RolePolicy υ ρ τ α
  | .addRole role => { policy with roles := insert role policy.roles }
  | .dropRole role => { policy with roles := policy.roles \ {role} }
  | .assign user role => { policy with assigned := insert (user, role) policy.assigned }
  | .unassign user role => { policy with assigned := policy.assigned \ {(user, role)} }
  | .setRights role table actions => policy.withRights role table (some actions)
  | .dropRights role table => policy.withRights role table none

/-- The policy after some changes. -/
noncomputable def edits (policy : RolePolicy υ ρ τ α) (log : List (PolicyEdit υ ρ τ α)) :
    RolePolicy υ ρ τ α :=
  log.foldl edit policy

@[simp] theorem edits_nil (policy : RolePolicy υ ρ τ α) : policy.edits [] = policy := rfl

@[simp] theorem edits_cons (policy : RolePolicy υ ρ τ α) (entry : PolicyEdit υ ρ τ α)
    (log : List (PolicyEdit υ ρ τ α)) :
    policy.edits (entry :: log) = (policy.edit entry).edits log := rfl

theorem edits_append (policy : RolePolicy υ ρ τ α) (first second : List (PolicyEdit υ ρ τ α)) :
    policy.edits (first ++ second) = (policy.edits first).edits second :=
  List.foldl_append

end RolePolicy

/-! ## What a log says -/

namespace PolicyEdit

variable {υ ρ τ α : Type*}

open Classical in
/-- What a change says about the existence of a role. -/
noncomputable def presence (role : ρ) : PolicyEdit υ ρ τ α → Option Prop
  | .addRole other => if role = other then some True else none
  | .dropRole other => if role = other then some False else none
  | _ => none

open Classical in
/-- What a change says about an assignment. -/
noncomputable def assignment (user : υ) (role : ρ) : PolicyEdit υ ρ τ α → Option Prop
  | .assign other given => if user = other ∧ role = given then some True else none
  | .unassign other taken => if user = other ∧ role = taken then some False else none
  | _ => none

open Classical in
/-- What a change says about the rights of a role on a table. -/
noncomputable def tableRights (role : ρ) (table : τ) :
    PolicyEdit υ ρ τ α → Option (Option (Set α))
  | .setRights other name actions =>
      if role = other ∧ table = name then some (some actions) else none
  | .dropRights other name => if role = other ∧ table = name then some none else none
  | _ => none

end PolicyEdit

namespace RolePolicy

variable {υ ρ τ α : Type*} {policy : RolePolicy υ ρ τ α} {user : υ} {role : ρ} {table : τ}
  {action : α}

theorem mem_roles_edit (policy : RolePolicy υ ρ τ α) (entry : PolicyEdit υ ρ τ α) :
    (role ∈ (policy.edit entry).roles) = (entry.presence role).getD (role ∈ policy.roles) := by
  cases entry with
  | addRole other =>
      by_cases h : role = other <;> simp [edit, PolicyEdit.presence, h]
  | dropRole other =>
      by_cases h : role = other <;> simp [edit, PolicyEdit.presence, h]
  | _ => rfl

theorem mem_assigned_edit (policy : RolePolicy υ ρ τ α) (entry : PolicyEdit υ ρ τ α) :
    ((user, role) ∈ (policy.edit entry).assigned) =
      (entry.assignment user role).getD ((user, role) ∈ policy.assigned) := by
  cases entry with
  | assign other given =>
      by_cases h : user = other ∧ role = given <;> simp [edit, PolicyEdit.assignment, h]
  | unassign other taken =>
      by_cases h : user = other ∧ role = taken <;> simp [edit, PolicyEdit.assignment, h]
  | _ => rfl

theorem rights_edit (policy : RolePolicy υ ρ τ α) (entry : PolicyEdit υ ρ τ α) :
    (policy.edit entry).rights role table =
      (entry.tableRights role table).getD (policy.rights role table) := by
  cases entry with
  | setRights other name actions =>
      by_cases h : role = other ∧ table = name <;>
        simp [edit, withRights, PolicyEdit.tableRights, h]
  | dropRights other name =>
      by_cases h : role = other ∧ table = name <;>
        simp [edit, withRights, PolicyEdit.tableRights, h]
  | _ => rfl

theorem rights_setRights_self (policy : RolePolicy υ ρ τ α) (role : ρ) (table : τ)
    (actions : Set α) :
    (policy.edit (.setRights role table actions)).rights role table = some actions :=
  if_pos ⟨rfl, rfl⟩

theorem rights_setRights_of_ne (policy : RolePolicy υ ρ τ α) {role other : ρ} {table name : τ}
    (actions : Set α) (h : ¬ (other = role ∧ name = table)) :
    (policy.edit (.setRights role table actions)).rights other name = policy.rights other name :=
  if_neg h

/-- A role exists after a log as the last entry about it says. -/
theorem mem_roles_edits (log : List (PolicyEdit υ ρ τ α)) :
    (role ∈ (policy.edits log).roles) =
      lastWrite (PolicyEdit.presence role) (role ∈ policy.roles) log :=
  read_foldl (fun policy : RolePolicy υ ρ τ α => role ∈ policy.roles)
    mem_roles_edit log policy

/-- A role is assigned after a log as the last entry about the assignment says. -/
theorem mem_assigned_edits (log : List (PolicyEdit υ ρ τ α)) :
    ((user, role) ∈ (policy.edits log).assigned) =
      lastWrite (PolicyEdit.assignment user role) ((user, role) ∈ policy.assigned) log :=
  read_foldl (fun policy : RolePolicy υ ρ τ α => (user, role) ∈ policy.assigned)
    mem_assigned_edit log policy

/-- The rights of a role on a table after a log are those of the last entry about them. -/
theorem rights_edits (log : List (PolicyEdit υ ρ τ α)) :
    (policy.edits log).rights role table =
      lastWrite (PolicyEdit.tableRights role table) (policy.rights role table) log :=
  read_foldl (fun policy : RolePolicy υ ρ τ α => policy.rights role table)
    rights_edit log policy

open Classical in
/-- Dropping the rights of a role on some tables. -/
theorem edits_dropRights (policy : RolePolicy υ ρ τ α) (role : ρ) (tables : List τ) :
    policy.edits (tables.map (.dropRights role)) =
      { policy with
        rights := fun other name =>
          if other = role ∧ name ∈ tables then none else policy.rights other name } := by
  induction tables generalizing policy with
  | nil => simp
  | cons table tables ih =>
      rw [List.map_cons, edits_cons, ih]
      apply RolePolicy.ext
      · rfl
      · rfl
      · funext other name
        by_cases hrole : other = role
        · by_cases htable : name = table <;> simp [edit, withRights, hrole, htable]
        · simp [edit, withRights, hrole]

end RolePolicy

end Foundation
end NocoMiddleware
