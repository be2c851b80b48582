import NocoMiddleware.Foundation.Program

/-!
# Programs over more operations

`Program.lift` reads a program over some operations as one over more operations, which act
on a larger world.  A `Focus` is the part of the larger world that the first operations act
on; a contract `Extends` another one if it does what that one does to the part, and nothing
to the rest.  Then the weakest precondition of a lifted program is the one of the program.
-/

namespace NocoMiddleware
namespace Foundation

/-- A part of a world that can be replaced. -/
structure Focus (World Part : Type) where
  get : World → Part
  set : World → Part → World
  get_set : ∀ world part, get (set world part) = part
  set_get : ∀ world, set world (get world) = world
  set_set : ∀ world part other, set (set world part) other = set world other

section

variable {Op Other : Type} {Res : Op → Type} {OtherRes : Other → Type} {ε α World Part : Type}

/-- The program over more operations. -/
def Program.lift : Program Op Res ε α → Program (Op ⊕ Other) (Sum.elim Res OtherRes) ε α
  | .done result => .done result
  | .perform op next => .perform (.inl op) fun answer => (next answer).lift

theorem Program.lift_bind {β : Type} (first : Program Op Res ε α)
    (second : α → Program Op Res ε β) :
    ((first >>= second).lift : Program (Op ⊕ Other) (Sum.elim Res OtherRes) ε β) =
      first.lift >>= fun a => (second a).lift := by
  show (first.bind second).lift = first.lift.bind fun a => (second a).lift
  induction first with
  | done result =>
      cases result with
      | ok a => rfl
      | error e => rfl
  | perform op next ih =>
      show Program.perform _ _ = Program.perform _ _
      congr 1
      funext answer
      exact ih answer

/-- The whole contract lets the first operations do what the contract of the part lets them
do. -/
structure Contract.Extends (whole : Contract (Op ⊕ Other) (Sum.elim Res OtherRes) ε World)
    (contract : Contract Op Res ε Part) (focus : Focus World Part) : Prop where
  permits : ∀ op world, contract.permits op (focus.get world) → whole.permits (.inl op) world
  step : ∀ op world answer world', whole.step (.inl op) world answer world' →
    ∃ part, contract.step op (focus.get world) answer part ∧ world' = focus.set world part

/-- The rule for lifted programs. -/
theorem wp_lift {whole : Contract (Op ⊕ Other) (Sum.elim Res OtherRes) ε World}
    {contract : Contract Op Res ε Part} {focus : Focus World Part}
    (hextends : whole.Extends contract focus) {program : Program Op Res ε α}
    {post : Except ε α → World → Prop} {world : World}
    (h : wp contract program (fun result part => post result (focus.set world part))
      (focus.get world)) :
    wp whole program.lift post world := by
  induction program generalizing world with
  | done result =>
      rw [wp_done, focus.set_get] at h
      exact h
  | perform op next ih =>
      refine ⟨hextends.permits op world h.1, ?_⟩
      intro answer world' hstep
      obtain ⟨part, hpart, rfl⟩ := hextends.step op world answer world' hstep
      have hnext := h.2 answer part hpart
      apply ih answer
      rw [focus.get_set]
      apply wp_mono hnext
      intro result other hpost
      rwa [focus.set_set]

end

end Foundation
end NocoMiddleware
