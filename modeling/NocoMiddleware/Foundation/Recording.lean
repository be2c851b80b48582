import NocoMiddleware.Foundation.Crash

/-!
# Executions on record

`Recorded` is an execution together with the worlds it goes through and the log that its steps
leave, one after the other.  Every execution is on record, and a relation of worlds and logs that
holds of every step between two worlds it goes through holds of the whole execution.
-/

namespace NocoMiddleware
namespace Foundation

section

variable {Op : Type} {Res : Op → Type} {ε α κ World : Type}

/-- An execution with the worlds after its steps and what is written down about them. -/
inductive Recorded (contract : Contract Op Res ε World)
    (record : (op : Op) → World → Except ε (Res op) → World → List κ) :
    Program Op Res ε α → World → List World → List κ → Except ε α → World → Prop where
  | done (result : Except ε α) (world : World) :
      Recorded contract record (.done result) world [] [] result world
  | perform {op : Op} {next : Except ε (Res op) → Program Op Res ε α}
      {world middle final : World} {answer : Except ε (Res op)} {visited : List World}
      {log : List κ} {result : Except ε α} (hstep : contract.step op world answer middle)
      (hrest : Recorded contract record (next answer) middle visited log result final) :
      Recorded contract record (.perform op next) world (middle :: visited)
        (record op world answer middle ++ log) result final

variable {contract : Contract Op Res ε World}
  {record : (op : Op) → World → Except ε (Res op) → World → List κ} {program : Program Op Res ε α}
  {world final : World} {visited : List World} {log : List κ} {result : Except ε α}

/-- What is on record has been executed. -/
theorem Recorded.exec (h : Recorded contract record program world visited log result final) :
    Exec contract program world result final := by
  induction h with
  | done result world => exact .done result world
  | perform hstep _ ih => exact .perform hstep ih

/-- The program may be stopped in every world on record. -/
theorem Recorded.stops (h : Recorded contract record program world visited log result final)
    {middle : World} (hmiddle : middle ∈ visited) : Stops contract program world middle := by
  induction h with
  | done result world => contradiction
  | perform hstep _ ih =>
      rcases List.mem_cons.mp hmiddle with rfl | hlater
      · exact .perform hstep (.here _ _)
      · exact .perform hstep (ih hlater)

/-- What every step between good worlds does with its part of the log, the execution does with the
whole log. -/
theorem Recorded.chain {good : World → Prop} {relates : World → List κ → World → Prop}
    (hrefl : ∀ world, good world → relates world [] world)
    (htrans : ∀ {first second third : World} {log more : List κ}, relates first log second →
      relates second more third → relates first (log ++ more) third)
    (hstep : ∀ op world answer world', contract.step op world answer world' → good world →
      good world' → relates world (record op world answer world') world')
    (h : Recorded contract record program world visited log result final) (hworld : good world)
    (hvisited : ∀ middle ∈ visited, good middle) : relates world log final := by
  induction h with
  | done result world => exact hrefl world hworld
  | perform hanswer _ ih =>
      have hmiddle := hvisited _ List.mem_cons_self
      have hlater := ih hmiddle fun later hlater => hvisited later (List.mem_cons_of_mem _ hlater)
      exact htrans (hstep _ _ _ _ hanswer hworld hmiddle) hlater

end

end Foundation
end NocoMiddleware
