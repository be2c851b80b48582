import NocoMiddleware.Foundation.Interleaving
import NocoMiddleware.Store.StepEffects

/-!
# Services as threads

The rules for verifying a service against its own events.  Each rule takes one step
of the service: when it fails the service fails, so that only the exception must be
covered, and when it is answered the event is recorded.
-/

namespace NocoMiddleware
namespace Concurrency

open NocoMiddleware.Js NocoMiddleware.Tables NocoMiddleware.Store NocoMiddleware.Foundation

/-- The events of interleaved services. -/
abbrev ServiceEvent (ι : Type) := Event ι Op Res Exception

/-- The configurations of interleaved services. -/
abbrev ServiceConfig (ι α : Type) := Config ι Op Res Exception α World

/-- NocoDB answers at once and would give this key to a new row. -/
def promptly (newId : Nat) : Choice :=
  ⟨false, newId, [], 0⟩

/-- The answers of a fixed list of tables. -/
def SeesTables (tables : List TableMeta) : (op : Op) → Except Exception (Res op) → Prop
  | .listTables, .ok found => found = tables
  | _, _ => True

theorem seesTables_of_step {faults : Bool} {op : Op} {world world' : World}
    {result : Except Exception (Res op)}
    (hstep : (nocodb faults).contract.step op world result world') :
    SeesTables world.tables op result := by
  obtain ⟨choice, earlier, hearlier, ⟨-, rfl, -⟩ | hanswer⟩ := answer_of_step hstep
  · cases op <;> trivial
  · cases op with
    | listTables =>
        simp only [answer, Prod.mk.injEq] at hanswer
        obtain ⟨rfl, -⟩ := hanswer
        exact hearlier.tables
    | _ => cases result <;> trivial

section

variable {ι α β : Type} {thread : ι} {permits : List (ServiceEvent ι) → Op → Prop}
variable {rely : (op : Op) → Except Exception (Res op) → Prop}
variable {post : Except Exception α → List (ServiceEvent ι) → Prop}
variable {events : List (ServiceEvent ι)}

/-- The rule for a last step. -/
theorem wp_last {op : Op} {post : Except Exception (Res op) → List (ServiceEvent ι) → Prop}
    (hpermits : permits events op) (hfail : ∀ exception events', post (.error exception) events')
    (hlast : ∀ value, rely op (.ok value) →
      post (.ok value) (events ++ [⟨thread, op, .ok value⟩])) :
    wp (recorded thread permits rely) (Program.call op) post events := by
  refine ⟨hpermits, ?_⟩
  rintro (exception | value) events' ⟨hrely, rfl⟩
  · exact hfail exception _
  · exact hlast value hrely

/-- The rule for a step that is followed by others. -/
theorem wp_next {op : Op} {second : Res op → Service α} (hpermits : permits events op)
    (hfail : ∀ exception events', post (.error exception) events')
    (hnext : ∀ value, rely op (.ok value) → wp (recorded thread permits rely) (second value) post
      (events ++ [⟨thread, op, .ok value⟩])) :
    wp (recorded thread permits rely) (Program.call op >>= second) post events := by
  rw [wp_bind]
  exact wp_last hpermits hfail hnext

theorem wp_next_getTableByName {tablePrefix name : JsString}
    {second : Option TableMeta → Service α} (hpermits : permits events .listTables)
    (hfail : ∀ exception events', post (.error exception) events')
    (hnext : ∀ tables, rely .listTables (.ok tables) →
      wp (recorded thread permits rely) (second (resolve tablePrefix tables name)) post
        (events ++ [⟨thread, .listTables, .ok tables⟩])) :
    wp (recorded thread permits rely) (getTableByName tablePrefix name >>= second) post
      events := by
  rw [wp_bind, getTableByName]
  exact wp_next hpermits hfail hnext

theorem wp_next_findOne {tableId filter : JsString} {second : Option NocoRecord → Service α}
    (hpermits : permits events (.list tableId filter 1))
    (hfail : ∀ exception events', post (.error exception) events')
    (hnext : ∀ records, rely (.list tableId filter 1) (.ok records) →
      wp (recorded thread permits rely) (second records.head?) post
        (events ++ [⟨thread, .list tableId filter 1, .ok records⟩])) :
    wp (recorded thread permits rely) (findOne tableId filter >>= second) post events := by
  rw [wp_bind, findOne]
  exact wp_next hpermits hfail hnext

/-- The rule for a computation without steps. -/
theorem wp_next_ofExcept {result : Except Exception β} {second : β → Service α}
    (hfail : ∀ exception events', post (.error exception) events')
    (hnext : ∀ value, result = .ok value →
      wp (recorded thread permits rely) (second value) post events) :
    wp (recorded thread permits rely) (Program.ofExcept result >>= second) post events := by
  rw [wp_bind, wp_ofExcept]
  cases result with
  | error exception => exact hfail exception events
  | ok value => exact hnext value rfl

end

end Concurrency
end NocoMiddleware
