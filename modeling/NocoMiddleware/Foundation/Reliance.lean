import NocoMiddleware.Foundation.Footprint
import NocoMiddleware.Foundation.Interleaving

/-!
# Programs among others

While a program waits for an answer, others may change the world.  `Ensures` says what a program
can still say of its result: it performs permitted operations only, and relies on no more than a
property of each answer.  Threads that ensure anything at all keep what all of them share, if
every permitted operation keeps it and has an answer with the property.
-/

namespace NocoMiddleware
namespace Foundation

section

variable {Op Other : Type} {Res : Op → Type} {OtherRes : Other → Type} {ε α β σ World : Type}

/-- What is permitted of operations, and what is known of answers, by themselves. -/
def relying (permits : Op → Prop) (rely : (op : Op) → Except ε (Res op) → Prop) :
    Contract Op Res ε Unit where
  permits op _ := permits op
  step op _ answer _ := rely op answer

/-- The program performs permitted operations only, and its result has a property. -/
def Program.Ensures (permits : Op → Prop) (rely : (op : Op) → Except ε (Res op) → Prop)
    (program : Program Op Res ε α) (post : α → Prop) : Prop :=
  wp (relying permits rely) program (fun result _ => ∀ a, result = .ok a → post a) ()

namespace Program

variable {permits : Op → Prop} {rely : (op : Op) → Except ε (Res op) → Prop}

theorem ensures_pure {a : α} {post : α → Prop} (h : post a) :
    (pure a : Program Op Res ε α).Ensures permits rely post := by
  rintro _ ⟨⟩
  exact h

theorem ensures_throw (e : ε) (post : α → Prop) :
    (throw e : Program Op Res ε α).Ensures permits rely post := by
  rintro _ ⟨⟩

theorem ensures_ofExcept {result : Except ε α} {post : α → Prop}
    (h : ∀ a, result = .ok a → post a) :
    (Program.ofExcept result : Program Op Res ε α).Ensures permits rely post := h

theorem ensures_ofExcept_ok {result : Except ε α} {value : α} (h : result = .ok value) :
    (Program.ofExcept result : Program Op Res ε α).Ensures permits rely fun a => a = value := by
  apply ensures_ofExcept
  intro a ha
  rw [h] at ha
  exact (Except.ok.inj ha).symm

theorem ensures_call {op : Op} (h : permits op) :
    (Program.call op : Program Op Res ε (Res op)).Ensures permits rely
      fun value => rely op (.ok value) := by
  refine ⟨h, ?_⟩
  rintro answer _ hrely value rfl
  exact hrely

namespace Ensures

theorem mono {program : Program Op Res ε α} {post weaker : α → Prop}
    (h : program.Ensures permits rely post) (hpost : ∀ a, post a → weaker a) :
    program.Ensures permits rely weaker := by
  apply wp_mono h
  intro result _ hresult a ha
  exact hpost a (hresult a ha)

/-- The sequence rule. -/
theorem bind {first : Program Op Res ε α} {second : α → Program Op Res ε β}
    {middle : α → Prop} {post : β → Prop} (hfirst : first.Ensures permits rely middle)
    (hsecond : ∀ a, middle a → (second a).Ensures permits rely post) :
    (first >>= second).Ensures permits rely post := by
  show wp _ (first >>= second) _ _
  rw [wp_bind]
  apply wp_mono hfirst
  rintro (e | a) _ hresult
  · rintro _ ⟨⟩
  · exact hsecond a (hresult a rfl)

/-- The rule for handlers, which know nothing of the exception. -/
theorem tryCatch {body : Program Op Res ε α} {handler : ε → Program Op Res ε α}
    {post : α → Prop} (hbody : body.Ensures permits rely post)
    (hhandler : ∀ e, (handler e).Ensures permits rely post) :
    (tryCatch body handler).Ensures permits rely post := by
  show wp _ (MonadExcept.tryCatch body handler) _ _
  rw [wp_tryCatch]
  apply wp_mono hbody
  rintro (e | a) _ hresult
  · exact hhandler e
  · exact hresult

/-- The rule for loops. -/
theorem forM {elements : List σ} {body : σ → Program Op Res ε PUnit} {property : σ → Prop}
    (hbody : ∀ element ∈ elements, (body element).Ensures permits rely fun _ => property element) :
    (forM elements body).Ensures permits rely fun _ => ∀ element ∈ elements, property element := by
  induction elements with
  | nil => exact ensures_pure nofun
  | cons element remaining ih =>
      rw [List.forM_cons]
      apply (hbody element List.mem_cons_self).bind
      intro _ helement
      apply (ih fun other hother => hbody other (List.mem_cons_of_mem _ hother)).mono
      intro _ hremaining
      exact List.forall_mem_cons.mpr ⟨helement, hremaining⟩

/-- A lifted program ensures what the program does. -/
theorem lift {permits : Op ⊕ Other → Prop}
    {rely : (op : Op ⊕ Other) → Except ε (Sum.elim Res OtherRes op) → Prop}
    {program : Program Op Res ε α} {post : α → Prop}
    (h : program.Ensures (fun op => permits (.inl op)) (fun op => rely (.inl op)) post) :
    (program.lift : Program (Op ⊕ Other) (Sum.elim Res OtherRes) ε α).Ensures permits rely
      post := by
  show wp _ program.lift _ _
  induction program with
  | done result => exact h
  | perform op next ih => exact ⟨h.1, fun answer _ hrely => ih answer (h.2 answer () hrely)⟩

end Ensures

/-- A program that uses permitted operations only, whatever they are answered with. -/
theorem ensures_of_uses {program : Program Op Res ε α} (h : program.Uses permits) :
    program.Ensures permits rely fun _ => True := by
  show wp _ program _ _
  induction program with
  | done result => exact fun _ _ => trivial
  | perform op next ih => exact ⟨h.1, fun answer _ _ => ih answer (h.2 answer)⟩

/-- Every program uses some operations. -/
theorem uses_any (program : Program Op Res ε α) : program.Uses fun _ => True := by
  induction program with
  | done result => trivial
  | perform op next ih => exact ⟨trivial, ih⟩

end Program

/-! ## Threads -/

variable {ι : Type}

/-- The program ends with the outcome if its operations are answered as recorded. -/
def Program.Replays : Program Op Res ε α → List (Event ι Op Res ε) → Except ε α → Prop
  | .done result, events, outcome => events = [] ∧ outcome = result
  | .perform op next, events, outcome => ∃ thread answer rest,
      events = ⟨thread, op, answer⟩ :: rest ∧ (next answer).Replays rest outcome

/-- What a program ensures holds of its result among its own events, which replay it. -/
theorem wp_recorded_of_ensures {thread : ι} {permits : List (Event ι Op Res ε) → Op → Prop}
    {quiet : Op → Prop} {rely : (op : Op) → Except ε (Res op) → Prop}
    {program : Program Op Res ε α} {property : α → Prop} {events : List (Event ι Op Res ε)}
    (h : program.Ensures quiet rely property)
    (hquiet : ∀ more op, quiet op → permits (events ++ more) op) :
    wp (recorded thread permits rely) program
      (fun result events' => (∀ a, result = .ok a → property a) ∧
        ∃ own, events' = events ++ own ∧ program.Replays own result) events := by
  unfold Program.Ensures at h
  induction program generalizing events with
  | done result => exact ⟨h, [], (List.append_nil events).symm, rfl, rfl⟩
  | perform op next ih =>
      have hpermits := hquiet [] op h.1
      rw [List.append_nil] at hpermits
      refine ⟨hpermits, ?_⟩
      rintro answer _ ⟨hrely, rfl⟩
      have hlater : ∀ more other, quiet other →
          permits (events ++ [⟨thread, op, answer⟩] ++ more) other := by
        intro more other hother
        rw [List.append_assoc]
        exact hquiet _ other hother
      apply wp_mono (ih answer (h.2 answer () hrely) hlater)
      rintro result _ ⟨hproperty, own, rfl, hreplays⟩
      refine ⟨hproperty, ⟨thread, op, answer⟩ :: own, ?_, thread, answer, own, rfl, hreplays⟩
      rw [List.append_assoc, List.singleton_append]

section

variable [DecidableEq ι] {contract : Contract Op Res ε World}
  {permits : ι → List (Event ι Op Res ε) → Op → Prop} {allowed : Op → Prop}

/-- What is permitted after the events of a thread. -/
def Admissible (permits : ι → List (Event ι Op Res ε) → Op → Prop) (allowed : Op → Prop)
    (config : Config ι Op Res ε α World) (thread : ι) (op : Op) : Prop :=
  permits thread (config.eventsOf thread) op → allowed op

/-- Permissions that events only add to are allowed all along if they are at the end. -/
theorem admissible_of_last {first last : Config ι Op Res ε α World}
    (hmore : ∀ thread events event op, permits thread events op →
      permits thread (events ++ [event]) op)
    (hrun : Interleaved contract AnyOrder first last)
    (hlast : ∀ thread op, Admissible permits allowed last thread op) :
    Interleaved contract (Admissible permits allowed) first last := by
  induction hrun with
  | refl => exact .refl
  | @tail config _ _ hstep ih =>
      cases hstep with
      | @perform thread op next answer world hnext hguard hmove =>
          have hbefore : ∀ other op, Admissible permits allowed config other op := by
            intro other op hpermits
            apply hlast other op
            by_cases hother : other = thread
            · subst hother
              rw [Config.eventsOf_advance_self config ⟨other, _, answer⟩]
              exact hmore _ _ _ _ hpermits
            · rw [Config.eventsOf_advance_of_ne config ⟨thread, _, answer⟩ _ _ hother]
              exact hpermits
          exact (ih hbefore).tail (.perform hnext (hbefore thread op) hmove)

/-- Threads keep what they share and are verified on their own, in every order of their steps, if
everything keeps it that one of them is permitted to do after its events. -/
theorem outlined_of_interleaved {rely : (op : Op) → Except ε (Res op) → Prop}
    {shared : World → Prop} {threads : ι → Program Op Res ε α}
    {post : ι → Except ε α → List (Event ι Op Res ε) → Prop} {first : World}
    {last : Config ι Op Res ε α World}
    (hthreads : ∀ thread, wp (recorded thread (permits thread) rely) (threads thread)
      (post thread) [])
    (hmore : ∀ thread events event op, permits thread events op →
      permits thread (events ++ [event]) op)
    (hstep : ∀ op answer world world', shared world → allowed op →
      contract.step op world answer world' → rely op answer ∧ shared world')
    (hrun : Interleaved contract AnyOrder (Config.start threads first) last)
    (hlast : ∀ thread op, permits thread (last.eventsOf thread) op → allowed op)
    (hfirst : shared first) : Outlined (fun _ => shared) permits rely post last := by
  have hkept : Preserves (Step contract (Admissible permits allowed))
      (Outlined (fun _ => shared) permits rely post) := by
    apply preserves_outlined
    intro config thread op answer world hshared hpermits hguard hmove
    exact hstep op answer config.world world hshared (hguard hpermits) hmove
  exact hkept.reflTransGen _ _ (admissible_of_last hmore hrun hlast) ⟨hfirst, hthreads⟩

end

end

end Foundation
end NocoMiddleware
