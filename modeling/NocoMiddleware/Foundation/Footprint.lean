import NocoMiddleware.Foundation.Lifting

/-!
# The operations that a program uses

`Program.Uses` says that a program performs allowed operations only, whatever they are answered
with.  Sequences, handlers and lifted programs use what their parts use.  A relation between
worlds that every allowed step is in, and that can be chained, holds of every execution.
-/

namespace NocoMiddleware
namespace Foundation

section

variable {Op Other : Type} {Res : Op → Type} {OtherRes : Other → Type} {ε α β World : Type}

/-- Every operation that the program may perform is allowed. -/
def Program.Uses (allowed : Op → Prop) : Program Op Res ε α → Prop
  | .done _ => True
  | .perform op next => allowed op ∧ ∀ answer, (next answer).Uses allowed

namespace Program

variable {allowed : Op → Prop}

@[simp] theorem uses_done (result : Except ε α) :
    (Program.done result : Program Op Res ε α).Uses allowed := trivial

@[simp] theorem uses_pure (a : α) : (pure a : Program Op Res ε α).Uses allowed := trivial

@[simp] theorem uses_throw (e : ε) : (throw e : Program Op Res ε α).Uses allowed := trivial

@[simp] theorem uses_ofExcept (result : Except ε α) :
    (Program.ofExcept result : Program Op Res ε α).Uses allowed := trivial

theorem uses_call {op : Op} (h : allowed op) :
    (Program.call op : Program Op Res ε (Res op)).Uses allowed :=
  ⟨h, fun _ => trivial⟩

theorem Uses.mono {more : Op → Prop} {program : Program Op Res ε α} (h : program.Uses allowed)
    (hmore : ∀ op, allowed op → more op) : program.Uses more := by
  induction program with
  | done result => trivial
  | perform op next ih => exact ⟨hmore op h.1, fun answer => ih answer (h.2 answer)⟩

/-- A sequence uses what its parts use. -/
theorem Uses.bind {first : Program Op Res ε α} {second : α → Program Op Res ε β}
    (hfirst : first.Uses allowed) (hsecond : ∀ a, (second a).Uses allowed) :
    (first >>= second).Uses allowed := by
  show (first.bind second).Uses allowed
  induction first with
  | done result =>
      cases result with
      | ok a => exact hsecond a
      | error e => trivial
  | perform op next ih => exact ⟨hfirst.1, fun answer => ih answer (hfirst.2 answer)⟩

/-- A program with a handler uses what both use. -/
theorem Uses.tryCatch {body : Program Op Res ε α} {handler : ε → Program Op Res ε α}
    (hbody : body.Uses allowed) (hhandler : ∀ e, (handler e).Uses allowed) :
    (tryCatch body handler).Uses allowed := by
  show (body.tryCatch handler).Uses allowed
  induction body with
  | done result =>
      cases result with
      | ok a => trivial
      | error e => exact hhandler e
  | perform op next ih => exact ⟨hbody.1, fun answer => ih answer (hbody.2 answer)⟩

/-- A loop uses what its rounds use. -/
theorem Uses.forM {σ : Type} {elements : List σ} {body : σ → Program Op Res ε PUnit}
    (hbody : ∀ element, (body element).Uses allowed) :
    (forM elements body : Program Op Res ε PUnit).Uses allowed := by
  induction elements with
  | nil => trivial
  | cons element remaining ih =>
      rw [List.forM_cons]
      exact (hbody element).bind fun _ => ih

/-- A lifted program uses the operations of the program. -/
theorem Uses.lift {whole : Op ⊕ Other → Prop} {program : Program Op Res ε α}
    (h : program.Uses fun op => whole (.inl op)) :
    (program.lift : Program (Op ⊕ Other) (Sum.elim Res OtherRes) ε α).Uses whole := by
  induction program with
  | done result => trivial
  | perform op next ih => exact ⟨h.1, fun answer => ih answer (h.2 answer)⟩

end Program

/-- What the steps of the allowed operations may do, one after the other, is what a program that
uses no others may do. -/
theorem wp_of_uses {contract : Contract Op Res ε World} {allowed : Op → Prop}
    {changes : World → World → Prop} (hrefl : ∀ world, changes world world)
    (htrans : ∀ {first second third}, changes first second → changes second third →
      changes first third)
    (hpermits : ∀ op world, allowed op → contract.permits op world)
    (hstep : ∀ op world answer world', allowed op → contract.step op world answer world' →
      changes world world')
    {program : Program Op Res ε α} (h : program.Uses allowed) (world : World) :
    wp contract program (fun _ world' => changes world world') world := by
  induction program generalizing world with
  | done result => exact hrefl world
  | perform op next ih =>
      refine ⟨hpermits op world h.1, ?_⟩
      intro answer world' hanswer
      have hchanges := hstep op world answer world' h.1 hanswer
      apply wp_mono (ih answer (h.2 answer) world')
      intro result final hrest
      exact htrans hchanges hrest

end

end Foundation
end NocoMiddleware
