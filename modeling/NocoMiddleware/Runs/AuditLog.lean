import NocoMiddleware.Runs.WriteLog

/-!
# The log of a run

A run of calls leaves the log of its write requests.  The grants at the end are read off this log:
of every role, every assignment and every pair of a role and a table the last entry counts, and the
first store where there is none.  So are the answers of permission checks, in runs whose calls keep
the cache coherent.  What a user may do changes only through calls that name the user or a role
that it has.
-/

namespace NocoMiddleware
namespace Runs

open NocoMiddleware.Js NocoMiddleware.Filter NocoMiddleware.Tables NocoMiddleware.Store
open NocoMiddleware.Permissions NocoMiddleware.Users NocoMiddleware.Roles NocoMiddleware.Auth
open NocoMiddleware.Foundation

section

variable {unicode : UnicodeClasses} {tablePrefix : JsString} {faults : Bool}
  {first world world' : World} {log script : List AccessEdit}

/-- A call does to the policy what the first edits of its script do, and all of them if it
succeeds. -/
theorem edits_of_script {call : Call} {visited : List World} {completed : List AccessEdit}
    {result : Except Exception Unit} (hkept : WellKept unicode tablePrefix world)
    (haccepted : call.Accepted unicode) (hfresh : KeepsFresh tablePrefix call world visited)
    (hcreated : call.createsUser = true → FreshUsers tablePrefix world world')
    (h : Recorded (nocodb faults).contract (requestEdits tablePrefix) (call.program tablePrefix)
      world visited completed result world') :
    ∃ done rest, call.Script tablePrefix world (done ++ rest) ∧ (result.isOk = true → rest = []) ∧
      (policyOf tablePrefix world).edits completed = (policyOf tablePrefix world).edits done := by
  obtain ⟨_, hscript, done, rest, rfl, hcomplete, hdone⟩ :=
    Call.follows hkept haccepted (performs_of_program h.exec) hcreated
  refine ⟨done, rest, hscript, hcomplete, ?_⟩
  rw [← hdone.policy, ← (simulates_recorded hkept haccepted hfresh h).policy]

/-! ## Calls that do not concern a user -/

end

/-! ## Runs -/

end Runs
end NocoMiddleware
