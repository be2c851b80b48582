import NocoMiddleware.Foundation.Program

/-!
# Programs that may be stopped

A run of a program may be stopped before any of its operations, and once it is over;
`Stops` relates the world it starts in to those it may leave behind.  `wpc` is a weakest
precondition with a second condition, the crash condition, that holds wherever the run may
be stopped.  A program with a single operation is only stopped at its ends, so the rules
of `wp` apply to it.
-/

namespace NocoMiddleware
namespace Foundation

section

variable {Op : Type} {Res : Op → Type} {ε α β World : Type}
variable (contract : Contract Op Res ε World)

/-- The worlds that a run of the program may leave behind when it is stopped. -/
inductive Stops : Program Op Res ε α → World → World → Prop where
  | here (program : Program Op Res ε α) (world : World) : Stops program world world
  | perform {op : Op} {next : Except ε (Res op) → Program Op Res ε α}
      {world middle final : World} {answer : Except ε (Res op)}
      (hstep : contract.step op world answer middle)
      (hrest : Stops (next answer) middle final) : Stops (.perform op next) world final

/-- The worlds from which the crash condition holds wherever the program may be stopped and
every complete execution satisfies the postcondition. -/
def wpc (crash : World → Prop) :
    Program Op Res ε α → (Except ε α → World → Prop) → World → Prop
  | .done result, post, world => crash world ∧ post result world
  | .perform op next, post, world =>
      crash world ∧ ∀ answer world', contract.step op world answer world' →
        wpc crash (next answer) post world'

/-- A program that performs one operation and computes its result from the answer. -/
def Program.Single (program : Program Op Res ε α) : Prop :=
  ∃ (op : Op) (finish : Except ε (Res op) → Except ε α),
    program = .perform op fun answer => .done (finish answer)

theorem Program.single_call (op : Op) : Single (.call op : Program Op Res ε (Res op)) :=
  ⟨op, id, rfl⟩

theorem Program.Single.map {program : Program Op Res ε α} (h : program.Single) (f : α → β) :
    Single (program >>= fun a => pure (f a)) := by
  obtain ⟨op, finish, rfl⟩ := h
  refine ⟨op, fun answer => (finish answer).map f, ?_⟩
  show Program.perform op _ = Program.perform op _
  congr 1
  funext answer
  show (Program.done (finish answer)).bind (fun a => pure (f a)) =
    Program.done ((finish answer).map f)
  cases finish answer with
  | ok a => rfl
  | error e => rfl

variable {contract} {crash : World → Prop}

@[simp] theorem wpc_ofExcept (result : Except ε α) (post : Except ε α → World → Prop)
    (world : World) :
    wpc contract crash (Program.ofExcept result) post world ↔ crash world ∧ post result world :=
  Iff.rfl

@[simp] theorem wpc_pure (a : α) (post : Except ε α → World → Prop) (world : World) :
    wpc contract crash (pure a : Program Op Res ε α) post world ↔
      crash world ∧ post (.ok a) world :=
  Iff.rfl

@[simp] theorem wpc_throw (e : ε) (post : Except ε α → World → Prop) (world : World) :
    wpc contract crash (throw e : Program Op Res ε α) post world ↔
      crash world ∧ post (.error e) world :=
  Iff.rfl

/-- The crash condition holds before the program has done anything. -/
theorem crash_of_wpc {program : Program Op Res ε α} {post : Except ε α → World → Prop}
    {world : World} (h : wpc contract crash program post world) : crash world := by
  cases program with
  | done result => exact h.1
  | perform op next => exact h.1

/-- The sequence rule. -/
theorem wpc_bind {first : Program Op Res ε α} {second : α → Program Op Res ε β}
    {post : Except ε β → World → Prop} {world : World}
    (h : wpc contract crash first (onOk post fun a => wpc contract crash (second a) post) world) :
    wpc contract crash (first >>= second) post world := by
  show wpc contract crash (first.bind second) post world
  induction first generalizing world with
  | done result =>
      cases result with
      | ok a => exact h.2
      | error e => exact h
  | perform op next ih =>
      exact ⟨h.1, fun answer world' hstep => ih answer (h.2 answer world' hstep)⟩

/-- A program with a single operation is stopped before it or after it. -/
theorem wpc_single {program : Program Op Res ε α} {post : Except ε α → World → Prop}
    {world : World} (hsingle : program.Single) (hcrash : crash world)
    (h : wp contract program (fun result world' => crash world' ∧ post result world') world) :
    wpc contract crash program post world := by
  obtain ⟨op, finish, rfl⟩ := hsingle
  exact ⟨hcrash, h.2⟩

/-- The rule for a single operation followed by a program. -/
theorem wpc_single_bind {first : Program Op Res ε α} {second : α → Program Op Res ε β}
    {post : Except ε β → World → Prop} {world : World} (hsingle : first.Single)
    (hcrash : crash world)
    (h : wp contract first (onOk (fun result world' => crash world' ∧ post result world')
      fun a => wpc contract crash (second a) post) world) :
    wpc contract crash (first >>= second) post world := by
  apply wpc_bind
  apply wpc_single hsingle hcrash
  apply wp_mono h
  intro result world' hresult
  cases result with
  | ok a => exact ⟨crash_of_wpc hresult, hresult⟩
  | error e => exact hresult

/-- Wherever the program is stopped, the crash condition holds. -/
theorem wpc_stops {program : Program Op Res ε α} {post : Except ε α → World → Prop}
    {world final : World} (h : wpc contract crash program post world)
    (hstops : Stops contract program world final) : crash final := by
  induction hstops with
  | here program world => exact crash_of_wpc h
  | perform hstep hrest ih => exact ih (h.2 _ _ hstep)

/-- A complete execution satisfies the postcondition. -/
theorem wpc_sound {program : Program Op Res ε α} {post : Except ε α → World → Prop}
    {world final : World} {result : Except ε α} (h : wpc contract crash program post world)
    (hexec : Exec contract program world result final) : post result final := by
  induction hexec with
  | done result world => exact h.2
  | perform hstep hrest ih => exact ih (h.2 _ _ hstep)

/-- A run may be stopped when it is over. -/
theorem Exec.stops {program : Program Op Res ε α} {world final : World} {result : Except ε α}
    (hexec : Exec contract program world result final) : Stops contract program world final := by
  induction hexec with
  | done result world => exact .here _ world
  | perform hstep hrest ih => exact .perform hstep ih

end

end Foundation
end NocoMiddleware
