import Mathlib.Logic.Basic
import Mathlib.Tactic.Common

/-!
# Effectful programs and their weakest preconditions

A `Program` performs operations one after the other and ends with a result or an
exception; each operation may itself answer with an exception, which the program
may catch.  A `Contract` says what the operations may do to a world, `wp` is the
weakest precondition of a program under a contract, and `Exec` the relation of
its complete executions.  A `System` is an executable contract: an operation is
answered by a function once the free choices of the environment are made.

The rules of this file reduce the weakest precondition of a program to those of
its parts; `wp_sound` connects it with executions.
-/

namespace NocoMiddleware
namespace Foundation

/-- Programs over operations `Op` with answers `Res`. -/
inductive Program (Op : Type) (Res : Op → Type) (ε α : Type) where
  | done (result : Except ε α)
  | perform (op : Op) (next : Except ε (Res op) → Program Op Res ε α)

namespace Program

variable {Op : Type} {Res : Op → Type} {ε α β σ : Type}

/-- Runs a second program on the result of a first one. -/
protected def bind (first : Program Op Res ε α) (second : α → Program Op Res ε β) :
    Program Op Res ε β :=
  match first with
  | done (.ok a) => second a
  | done (.error e) => done (.error e)
  | perform op next => perform op fun answer => (next answer).bind second

/-- Runs a handler on the exception of a program. -/
protected def tryCatch (body : Program Op Res ε α) (handler : ε → Program Op Res ε α) :
    Program Op Res ε α :=
  match body with
  | done (.ok a) => done (.ok a)
  | done (.error e) => handler e
  | perform op next => perform op fun answer => (next answer).tryCatch handler

instance : Monad (Program Op Res ε) where
  pure a := done (.ok a)
  bind := Program.bind

instance : MonadExcept ε (Program Op Res ε) where
  throw e := done (.error e)
  tryCatch := Program.tryCatch

/-- One operation. -/
def call (op : Op) : Program Op Res ε (Res op) :=
  perform op done

/-- A computation without operations. -/
def ofExcept (result : Except ε α) : Program Op Res ε α :=
  done result

end Program

/-! ## Contracts -/

/-- What operations may do: when an operation may be performed at all, and which
answers and new worlds it may have. -/
structure Contract (Op : Type) (Res : Op → Type) (ε World : Type) where
  permits : Op → World → Prop
  step : (op : Op) → World → Except ε (Res op) → World → Prop

section

variable {Op : Type} {Res : Op → Type} {ε α β World : Type}
variable (contract : Contract Op Res ε World)

/-- The worlds from which every operation of the program is permitted and every
complete execution satisfies the postcondition. -/
def wp : Program Op Res ε α → (Except ε α → World → Prop) → World → Prop
  | .done result, post, world => post result world
  | .perform op next, post, world =>
      contract.permits op world ∧
        ∀ answer world', contract.step op world answer world' → wp (next answer) post world'

/-- Continues with a program after a result and with the postcondition after an
exception. -/
def onOk (post : Except ε β → World → Prop) (second : α → World → Prop) :
    Except ε α → World → Prop
  | .ok a, world => second a world
  | .error e, world => post (.error e) world

/-- Continues with a handler after an exception and with the postcondition after
a result. -/
def onError (post : Except ε α → World → Prop) (handler : ε → World → Prop) :
    Except ε α → World → Prop
  | .ok a, world => post (.ok a) world
  | .error e, world => handler e world

/-- A postcondition on the final world, one after a result and one after an
exception. -/
@[reducible] def byOutcome (onResult onException : World → Prop) : Except ε α → World → Prop
  | .ok _, world => onResult world
  | .error _, world => onException world

/-- The complete executions of a program. -/
inductive Exec : Program Op Res ε α → World → Except ε α → World → Prop where
  | done (result : Except ε α) (world : World) : Exec (.done result) world result world
  | perform {op : Op} {next : Except ε (Res op) → Program Op Res ε α}
      {world middle final : World} {answer : Except ε (Res op)} {result : Except ε α}
      (hstep : contract.step op world answer middle)
      (hrest : Exec (next answer) middle result final) :
      Exec (.perform op next) world result final

variable {contract}

@[simp] theorem onOk_ok (post : Except ε β → World → Prop) (second : α → World → Prop)
    (a : α) (world : World) : onOk post second (.ok a) world = second a world := rfl

@[simp] theorem onOk_error (post : Except ε β → World → Prop) (second : α → World → Prop)
    (e : ε) (world : World) : onOk post second (.error e) world = post (.error e) world := rfl

@[simp] theorem onError_ok (post : Except ε α → World → Prop) (handler : ε → World → Prop)
    (a : α) (world : World) : onError post handler (.ok a) world = post (.ok a) world := rfl

@[simp] theorem onError_error (post : Except ε α → World → Prop)
    (handler : ε → World → Prop) (e : ε) (world : World) :
    onError post handler (.error e) world = handler e world := rfl

@[simp] theorem wp_done (result : Except ε α) (post : Except ε α → World → Prop)
    (world : World) : wp contract (.done result) post world ↔ post result world := Iff.rfl

@[simp] theorem wp_perform (op : Op) (next : Except ε (Res op) → Program Op Res ε α)
    (post : Except ε α → World → Prop) (world : World) :
    wp contract (.perform op next) post world ↔ contract.permits op world ∧
      ∀ answer world', contract.step op world answer world' →
        wp contract (next answer) post world' := Iff.rfl

@[simp] theorem wp_pure (a : α) (post : Except ε α → World → Prop) (world : World) :
    wp contract (pure a : Program Op Res ε α) post world ↔ post (.ok a) world := Iff.rfl

@[simp] theorem wp_throw (e : ε) (post : Except ε α → World → Prop) (world : World) :
    wp contract (throw e : Program Op Res ε α) post world ↔ post (.error e) world := Iff.rfl

@[simp] theorem wp_call (op : Op) (post : Except ε (Res op) → World → Prop) (world : World) :
    wp contract (Program.call op) post world ↔ contract.permits op world ∧
      ∀ answer world', contract.step op world answer world' → post answer world' := Iff.rfl

@[simp] theorem wp_ofExcept (result : Except ε α) (post : Except ε α → World → Prop)
    (world : World) :
    wp contract (Program.ofExcept result) post world ↔ post result world := Iff.rfl

/-- The sequence rule. -/
@[simp] theorem wp_bind (first : Program Op Res ε α) (second : α → Program Op Res ε β)
    (post : Except ε β → World → Prop) (world : World) :
    wp contract (first >>= second) post world ↔
      wp contract first (onOk post fun a => wp contract (second a) post) world := by
  show wp contract (first.bind second) post world ↔ _
  induction first generalizing world with
  | done result => cases result <;> rfl
  | perform op next ih => simp only [Program.bind, wp_perform, ih]

/-- The rule for exception handlers. -/
@[simp] theorem wp_tryCatch (body : Program Op Res ε α) (handler : ε → Program Op Res ε α)
    (post : Except ε α → World → Prop) (world : World) :
    wp contract (tryCatch body handler) post world ↔
      wp contract body (onError post fun e => wp contract (handler e) post) world := by
  show wp contract (body.tryCatch handler) post world ↔ _
  induction body generalizing world with
  | done result => cases result <;> rfl
  | perform op next ih => simp only [Program.tryCatch, wp_perform, ih]

/-- The consequence rule. -/
theorem wp_mono {program : Program Op Res ε α} {post weaker : Except ε α → World → Prop}
    {world : World} (h : wp contract program post world)
    (hpost : ∀ result world', post result world' → weaker result world') :
    wp contract program weaker world := by
  induction program generalizing world with
  | done result => exact hpost _ _ h
  | perform op next ih =>
      exact ⟨h.1, fun answer world' hstep => ih answer (h.2 answer world' hstep)⟩

/-- The rule for loops: an invariant of the elements that remain. -/
theorem wp_forM {elements : List σ} {body : σ → Program Op Res ε PUnit}
    {post : Except ε PUnit → World → Prop} (invariant : List σ → World → Prop)
    (hbody : ∀ element remaining world, invariant (element :: remaining) world →
      wp contract (body element) (onOk post fun _ => invariant remaining) world)
    (hend : ∀ world, invariant [] world → post (.ok PUnit.unit) world)
    {world : World} (h : invariant elements world) :
    wp contract (forM elements body) post world := by
  induction elements generalizing world with
  | nil => exact hend world h
  | cons element remaining ih =>
      rw [List.forM_cons, wp_bind]
      refine wp_mono (hbody element remaining world h) ?_
      rintro (e | a) world' hresult
      · exact hresult
      · exact ih hresult

/-- The rule for loops with an accumulator. -/
theorem wp_foldlM {elements : List σ} {body : α → σ → Program Op Res ε α}
    {post : Except ε α → World → Prop} (invariant : α → List σ → World → Prop)
    (hbody : ∀ accumulator element remaining world,
      invariant accumulator (element :: remaining) world →
      wp contract (body accumulator element)
        (onOk post fun next => invariant next remaining) world)
    (hend : ∀ accumulator world, invariant accumulator [] world → post (.ok accumulator) world)
    {accumulator : α} {world : World} (h : invariant accumulator elements world) :
    wp contract (elements.foldlM body accumulator) post world := by
  induction elements generalizing accumulator world with
  | nil => exact hend accumulator world h
  | cons element remaining ih =>
      rw [List.foldlM_cons, wp_bind]
      refine wp_mono (hbody accumulator element remaining world h) ?_
      rintro (e | a) world' hresult
      · exact hresult
      · exact ih hresult

/-- A complete execution satisfies the postcondition. -/
theorem wp_sound {program : Program Op Res ε α} {post : Except ε α → World → Prop}
    {world final : World} {result : Except ε α} (h : wp contract program post world)
    (hexec : Exec contract program world result final) : post result final := by
  induction hexec with
  | done result world => exact h
  | perform hstep hrest ih => exact ih (h.2 _ _ hstep)

/-- An execution of a sequence is one of the first program, and of the second one if the
first has a result. -/
theorem exec_bind {first : Program Op Res ε α} {second : α → Program Op Res ε β}
    {world final : World} {result : Except ε β}
    (h : Exec contract (first >>= second) world result final) :
    ∃ outcome middle, Exec contract first world outcome middle ∧
      match outcome with
      | .ok a => Exec contract (second a) middle result final
      | .error e => result = .error e ∧ final = middle := by
  induction first generalizing world with
  | done outcome =>
      cases outcome with
      | ok a => exact ⟨.ok a, _, .done _ _, h⟩
      | error e =>
          cases h
          exact ⟨.error e, _, .done _ _, rfl, rfl⟩
  | perform op next ih =>
      cases h with
      | perform hstep hrest =>
          obtain ⟨outcome, middle, hfirst, hsecond⟩ := ih _ hrest
          exact ⟨outcome, middle, .perform hstep hfirst, hsecond⟩

/-- An execution of a program goes on with one of the program that follows. -/
theorem Exec.bind {first : Program Op Res ε α} {second : α → Program Op Res ε β}
    {world middle final : World} {a : α} {result : Except ε β}
    (hfirst : Exec contract first world (.ok a) middle)
    (hsecond : Exec contract (second a) middle result final) :
    Exec contract (first >>= second) world result final := by
  generalize houtcome : Except.ok a = outcome at hfirst
  induction hfirst with
  | done outcome world =>
      subst houtcome
      exact hsecond
  | perform hstep _ ih => exact .perform hstep (ih hsecond houtcome)

/-- Where every operation is permitted, what holds of all executions is a weakest
precondition. -/
theorem wp_of_exec {program : Program Op Res ε α} {post : Except ε α → World → Prop}
    {world : World} (hpermits : ∀ op world, contract.permits op world)
    (h : ∀ result final, Exec contract program world result final → post result final) :
    wp contract program post world := by
  induction program generalizing world with
  | done result => exact h result world (.done result world)
  | perform op next ih =>
      refine ⟨hpermits op world, fun answer world' hstep => ?_⟩
      apply ih answer
      intro result final hrest
      exact h result final (.perform hstep hrest)

/-- A loop that ends with an exception has gone through the elements before the one whose
round ends with it. -/
theorem exec_foldlM_error {elements : List σ} {body : α → σ → Program Op Res ε α} {start : α}
    {world final : World} {e : ε}
    (h : Exec contract (elements.foldlM body start) world (.error e) final) :
    ∃ completed element rest accumulator middle, elements = completed ++ element :: rest ∧
      Exec contract (completed.foldlM body start) world (.ok accumulator) middle ∧
      Exec contract (body accumulator element) middle (.error e) final := by
  induction elements generalizing start world with
  | nil => cases h
  | cons element rest ih =>
      rw [List.foldlM_cons] at h
      obtain ⟨outcome, middle, hround, hrest⟩ := exec_bind h
      cases outcome with
      | error _ =>
          obtain ⟨herror, rfl⟩ := hrest
          obtain rfl := Except.error.inj herror
          exact ⟨[], element, rest, start, world, rfl, .done _ _, hround⟩
      | ok accumulator =>
          obtain ⟨completed, failing, after, last, before, rfl, hcompleted, hfailing⟩ := ih hrest
          refine ⟨element :: completed, failing, after, last, before, rfl, ?_, hfailing⟩
          rw [List.foldlM_cons]
          exact hround.bind hcompleted

/-- If every operation has an answer, every program has an execution. -/
theorem exists_exec (htotal : ∀ op world, ∃ answer world', contract.step op world answer world')
    (program : Program Op Res ε α) (world : World) :
    ∃ result final, Exec contract program world result final := by
  induction program generalizing world with
  | done result => exact ⟨result, world, .done result world⟩
  | perform op next ih =>
      obtain ⟨answer, world', hstep⟩ := htotal op world
      obtain ⟨result, final, hexec⟩ := ih answer world'
      exact ⟨result, final, .perform hstep hexec⟩

end

/-! ## Executable systems -/

/-- An environment that answers operations by a function of its free choices. -/
structure System (Op : Type) (Res : Op → Type) (ε World Choice : Type) where
  legal : Choice → Op → World → Prop
  respond : Choice → (op : Op) → World → Except ε (Res op) × World

namespace System

variable {Op : Type} {Res : Op → Type} {ε α World Choice : Type}
variable (system : System Op Res ε World Choice)

/-- The contract of a system: every operation may be performed and is answered
under some legal choice. -/
def contract : Contract Op Res ε World where
  permits _ _ := True
  step op world answer world' :=
    ∃ choice, system.legal choice op world ∧ system.respond choice op world = (answer, world')

/-- The weakest precondition under a system is what holds of all executions. -/
theorem wp_iff_exec {program : Program Op Res ε α} {post : Except ε α → World → Prop}
    {world : World} :
    wp system.contract program post world ↔
      ∀ result final, Exec system.contract program world result final → post result final :=
  ⟨fun h _ _ hexec => wp_sound h hexec, wp_of_exec fun _ _ => trivial⟩

/-- The execution under given choices, one for each operation. -/
def run [∀ choice op world, Decidable (system.legal choice op world)] :
    Program Op Res ε α → List Choice → World → Option (Except ε α × World)
  | .done result, _, world => some (result, world)
  | .perform _ _, [], _ => none
  | .perform op next, choice :: choices, world =>
      if system.legal choice op world then
        run (next (system.respond choice op world).1) choices (system.respond choice op world).2
      else none

/-- An execution under given choices is an execution. -/
theorem exec_of_run [∀ choice op world, Decidable (system.legal choice op world)]
    {program : Program Op Res ε α} {choices : List Choice} {world final : World}
    {result : Except ε α} (h : system.run program choices world = some (result, final)) :
    Exec system.contract program world result final := by
  induction program generalizing choices world with
  | done other =>
      obtain ⟨rfl, rfl⟩ : other = result ∧ world = final := by simpa [run] using h
      exact .done other world
  | perform op next ih =>
      cases choices with
      | nil => simp [run] at h
      | cons choice choices =>
          by_cases hlegal : system.legal choice op world
          · rw [run, if_pos hlegal] at h
            exact .perform ⟨choice, hlegal, rfl⟩ (ih _ h)
          · simp [run, hlegal] at h

/-- The world after the execution under given choices. -/
def final [∀ choice op world, Decidable (system.legal choice op world)]
    (program : Program Op Res ε α) (choices : List Choice) (world : World) : World :=
  (system.run program choices world).elim world Prod.snd

theorem exec_final [∀ choice op world, Decidable (system.legal choice op world)]
    {program : Program Op Res ε α} {choices : List Choice} {world : World} {result : Except ε α}
    (h : (system.run program choices world).map Prod.fst = some result) :
    Exec system.contract program world result (system.final program choices world) := by
  obtain ⟨outcome, hrun, rfl⟩ := Option.map_eq_some_iff.mp h
  rw [final, hrun]
  exact system.exec_of_run hrun

end System

end Foundation
end NocoMiddleware
