import Mathlib.Data.List.Basic
import Mathlib.Logic.Function.Basic
import NocoMiddleware.Foundation.Invariant
import NocoMiddleware.Foundation.Program

/-!
# Interleavings of programs

Several programs, the threads, perform their operations on one world, in any order.
A step lets one thread perform its next operation if a guard on the configuration
admits it; a configuration remembers the events so far.  `Outlined` is the
rely-guarantee rule: each thread is verified alone, against a contract on its own
events, and the world is verified against the operations that the threads may
perform.  `schedule` runs threads in a given order.
-/

namespace NocoMiddleware
namespace Foundation

/-- An operation that a thread has performed, and its answer. -/
structure Event (ι Op : Type) (Res : Op → Type) (ε : Type) where
  thread : ι
  op : Op
  answer : Except ε (Res op)

/-- What is left of the threads, the world, and the events so far. -/
structure Config (ι Op : Type) (Res : Op → Type) (ε α World : Type) where
  threads : ι → Program Op Res ε α
  world : World
  history : List (Event ι Op Res ε)

namespace Config

variable {ι Op : Type} {Res : Op → Type} {ε α World : Type}

/-- The threads before their first operation. -/
def start (threads : ι → Program Op Res ε α) (world : World) : Config ι Op Res ε α World :=
  ⟨threads, world, []⟩

/-- The result of a thread that has no more operations. -/
def outcome (config : Config ι Op Res ε α World) (thread : ι) : Option (Except ε α) :=
  match config.threads thread with
  | .done result => some result
  | .perform _ _ => none

theorem threads_of_outcome {config : Config ι Op Res ε α World} {thread : ι}
    {result : Except ε α} (h : config.outcome thread = some result) :
    config.threads thread = .done result := by
  unfold outcome at h
  split at h
  · next hdone =>
      obtain rfl := Option.some.inj h
      exact hdone
  · contradiction

variable [DecidableEq ι]

/-- The configuration after an event. -/
def advance (config : Config ι Op Res ε α World) (event : Event ι Op Res ε)
    (rest : Program Op Res ε α) (world : World) : Config ι Op Res ε α World where
  threads := Function.update config.threads event.thread rest
  world := world
  history := config.history ++ [event]

/-- The events of one thread. -/
def eventsOf (config : Config ι Op Res ε α World) (thread : ι) : List (Event ι Op Res ε) :=
  config.history.filter fun event => event.thread = thread

@[simp] theorem eventsOf_start (threads : ι → Program Op Res ε α) (world : World)
    (thread : ι) : (start threads world).eventsOf thread = [] := rfl

theorem threads_advance_self (config : Config ι Op Res ε α World)
    (event : Event ι Op Res ε) (rest : Program Op Res ε α) (world : World) :
    (config.advance event rest world).threads event.thread = rest :=
  Function.update_self _ _ _

theorem threads_advance_of_ne (config : Config ι Op Res ε α World)
    (event : Event ι Op Res ε) (rest : Program Op Res ε α) (world : World) {thread : ι}
    (hne : thread ≠ event.thread) :
    (config.advance event rest world).threads thread = config.threads thread :=
  Function.update_of_ne hne _ _

theorem eventsOf_advance_self (config : Config ι Op Res ε α World)
    (event : Event ι Op Res ε) (rest : Program Op Res ε α) (world : World) :
    (config.advance event rest world).eventsOf event.thread =
      config.eventsOf event.thread ++ [event] := by
  simp [eventsOf, advance]

theorem eventsOf_advance_of_ne (config : Config ι Op Res ε α World)
    (event : Event ι Op Res ε) (rest : Program Op Res ε α) (world : World) {thread : ι}
    (hne : thread ≠ event.thread) :
    (config.advance event rest world).eventsOf thread = config.eventsOf thread := by
  simp [eventsOf, advance, hne.symm]

/-- The last event of a thread, with the events after it. -/
theorem exists_last {config : Config ι Op Res ε α World} {thread : ι}
    {earlier : List (Event ι Op Res ε)} {last : Event ι Op Res ε}
    (h : config.eventsOf thread = earlier ++ [last]) :
    ∃ before after, config.history = before ++ last :: after ∧
      ∀ event ∈ after, event.thread ≠ thread := by
  obtain ⟨first, second, hhistory, -, hsecond⟩ := List.filter_eq_append_iff.mp h
  obtain ⟨others, after, rfl, -, -, hafter⟩ := List.filter_eq_cons_iff.mp hsecond
  refine ⟨first ++ others, after, by rw [hhistory, List.append_assoc], fun event hevent => ?_⟩
  simpa using List.filter_eq_nil_iff.mp hafter event hevent

/-- The first event of a thread is in the history. -/
theorem exists_first {config : Config ι Op Res ε α World} {thread : ι}
    {first : Event ι Op Res ε} {rest : List (Event ι Op Res ε)}
    (h : config.eventsOf thread = first :: rest) :
    ∃ before after, config.history = before ++ first :: after := by
  obtain ⟨before, after, hhistory, -, -, -⟩ := List.filter_eq_cons_iff.mp h
  exact ⟨before, after, hhistory⟩

end Config

/-- The guard that admits every order of steps. -/
def AnyOrder {ι Op : Type} {Res : Op → Type} {ε α World : Type}
    (_ : Config ι Op Res ε α World) (_ : ι) (_ : Op) : Prop :=
  True

instance {ι Op : Type} {Res : Op → Type} {ε α World : Type}
    (config : Config ι Op Res ε α World) (thread : ι) (op : Op) :
    Decidable (AnyOrder config thread op) :=
  inferInstanceAs (Decidable True)

section

variable {ι Op : Type} {Res : Op → Type} {ε α World : Type} [DecidableEq ι]
variable (contract : Contract Op Res ε World)
variable (guard : Config ι Op Res ε α World → ι → Op → Prop)

/-- One thread performs its next operation, which the guard admits. -/
inductive Step : Config ι Op Res ε α World → Config ι Op Res ε α World → Prop where
  | perform {config : Config ι Op Res ε α World} {thread : ι} {op : Op}
      {next : Except ε (Res op) → Program Op Res ε α} {answer : Except ε (Res op)}
      {world : World} (hnext : config.threads thread = .perform op next)
      (hguard : guard config thread op) (hstep : contract.step op config.world answer world) :
      Step config (config.advance ⟨thread, op, answer⟩ (next answer) world)

/-- The interleavings of the threads of a configuration. -/
abbrev Interleaved := Relation.ReflTransGen (Step contract guard)

variable {contract guard}

/-- A thread that is done stays done, and the events that follow are not its own. -/
theorem done_of_interleaved {first last : Config ι Op Res ε α World}
    (hrun : Interleaved contract guard first last) {thread : ι} {result : Except ε α}
    (hdone : first.threads thread = .done result) :
    last.threads thread = .done result ∧
      ∃ later, last.history = first.history ++ later ∧
        ∀ event ∈ later, event.thread ≠ thread := by
  induction hrun with
  | refl => exact ⟨hdone, [], by simp⟩
  | tail _ hstep ih =>
      obtain ⟨hthread, later, hlater, hothers⟩ := ih
      cases hstep with
      | @perform other op _ answer _ hnext _ _ =>
          have hne : thread ≠ other := by
            rintro rfl
            rw [hthread] at hnext
            contradiction
          refine ⟨?_, later ++ [⟨other, op, answer⟩], ?_, ?_⟩
          · rw [Config.threads_advance_of_ne _ ⟨other, op, answer⟩ _ _ hne, hthread]
          · rw [Config.advance, hlater, List.append_assoc]
          · intro event hevent
            rcases List.mem_append.mp hevent with hevent | hevent
            · exact hothers event hevent
            · rw [List.mem_singleton.mp hevent]
              exact hne.symm

/-! ## Rely and guarantee -/

/-- The contract of a thread on its own events: it guarantees that its operations are
permitted, and relies on a property of the answers. -/
def recorded (thread : ι) (permits : List (Event ι Op Res ε) → Op → Prop)
    (rely : (op : Op) → Except ε (Res op) → Prop) :
    Contract Op Res ε (List (Event ι Op Res ε)) where
  permits op events := permits events op
  step op events answer events' := rely op answer ∧ events' = events ++ [⟨thread, op, answer⟩]

variable (shared : List (Event ι Op Res ε) → World → Prop)
variable (permits : ι → List (Event ι Op Res ε) → Op → Prop)
variable (rely : (op : Op) → Except ε (Res op) → Prop)
variable (post : ι → Except ε α → List (Event ι Op Res ε) → Prop)

/-- What all threads share holds, and what is left of each thread is verified against
its own events. -/
structure Outlined (config : Config ι Op Res ε α World) : Prop where
  shared : shared config.history config.world
  threads : ∀ thread, wp (recorded thread (permits thread) rely) (config.threads thread)
    (post thread) (config.eventsOf thread)

variable {shared permits rely post}

/-- A step keeps the outline if the permitted operations keep what is shared and have
the answers that the threads rely on. -/
theorem preserves_outlined
    (hshared : ∀ (config : Config ι Op Res ε α World) (thread : ι) (op : Op)
      (answer : Except ε (Res op)) (world : World),
      shared config.history config.world → permits thread (config.eventsOf thread) op →
      guard config thread op → contract.step op config.world answer world →
      rely op answer ∧ shared (config.history ++ [⟨thread, op, answer⟩]) world) :
    Preserves (Step contract guard) (Outlined shared permits rely post) := by
  intro config config' hmove houtlined
  cases hmove with
  | @perform thread op next answer world hnext hguard hstep =>
      have hthread := houtlined.threads thread
      rw [hnext] at hthread
      obtain ⟨hpermits, hcontinue⟩ := hthread
      obtain ⟨hrely, hshared'⟩ := hshared config thread op answer world houtlined.shared
        hpermits hguard hstep
      refine ⟨hshared', fun other => ?_⟩
      by_cases hother : other = thread
      · subst hother
        rw [Config.eventsOf_advance_self config ⟨other, op, answer⟩,
          Config.threads_advance_self config ⟨other, op, answer⟩]
        exact hcontinue answer _ ⟨hrely, rfl⟩
      · rw [Config.eventsOf_advance_of_ne config ⟨thread, op, answer⟩ _ _ hother,
          Config.threads_advance_of_ne config ⟨thread, op, answer⟩ _ _ hother]
        exact houtlined.threads other

end

/-! ## Schedules -/

namespace System

variable {ι Op : Type} {Res : Op → Type} {ε α World Choice : Type} [DecidableEq ι]
variable (system : System Op Res ε World Choice)
variable (guard : Config ι Op Res ε α World → ι → Op → Prop)
variable [∀ choice op world, Decidable (system.legal choice op world)]
variable [∀ config thread op, Decidable (guard config thread op)]

/-- A thread performs its next operation, answered under a given choice. -/
def move (thread : ι) (choice : Choice) (config : Config ι Op Res ε α World) :
    Option (Config ι Op Res ε α World) :=
  match config.threads thread with
  | .done _ => none
  | .perform op next =>
      if system.legal choice op config.world ∧ guard config thread op then
        let outcome := system.respond choice op config.world
        some (config.advance ⟨thread, op, outcome.1⟩ (next outcome.1) outcome.2)
      else none

/-- Threads perform operations in a given order, answered under given choices. -/
def schedule : List (ι × Choice) → Config ι Op Res ε α World →
    Option (Config ι Op Res ε α World)
  | [], config => some config
  | (thread, choice) :: rest, config =>
      (system.move guard thread choice config).bind (schedule rest)

variable {system guard}

theorem step_of_move {thread : ι} {choice : Choice} {config config' : Config ι Op Res ε α World}
    (h : system.move guard thread choice config = some config') :
    Step system.contract guard config config' := by
  unfold move at h
  split at h
  · contradiction
  · next op next hnext =>
      split at h
      · next hallowed =>
          obtain rfl := Option.some.inj h
          exact .perform hnext hallowed.2 ⟨choice, hallowed.1, rfl⟩
      · contradiction

/-- A schedule that goes through is an interleaving. -/
theorem interleaved_of_schedule {moves : List (ι × Choice)}
    {config final : Config ι Op Res ε α World}
    (h : system.schedule guard moves config = some final) :
    Interleaved system.contract guard config final := by
  induction moves generalizing config with
  | nil =>
      obtain rfl := Option.some.inj h
      exact .refl
  | cons first rest ih =>
      obtain ⟨middle, hmove, hrest⟩ := Option.bind_eq_some_iff.mp h
      exact .head (step_of_move hmove) (ih hrest)

/-- What is checked of the end of a schedule holds at the end of an interleaving. -/
theorem exists_interleaved {moves : List (ι × Choice)} {config : Config ι Op Res ε α World}
    {check : Config ι Op Res ε α World → Bool}
    (h : (system.schedule guard moves config).any check = true) :
    ∃ final, Interleaved system.contract guard config final ∧ check final = true := by
  obtain ⟨final, hfinal, hcheck⟩ := (Option.any_eq_true _ _).mp h
  exact ⟨final, interleaved_of_schedule hfinal, hcheck⟩

end System

/-! ## The order of events -/

section

variable {τ : Type*}

/-- Elements with the given properties occur in this order. -/
def occurInOrder : List (τ → Bool) → List τ → Bool
  | [], _ => true
  | _ :: _, [] => false
  | property :: properties, element :: elements =>
      (property element && occurInOrder properties elements) ||
        occurInOrder (property :: properties) elements

@[simp] theorem occurInOrder_nil (elements : List τ) : occurInOrder [] elements = true := by
  cases elements <;> rfl

/-- What occurs in order in a list that is cut in two is cut in two as well. -/
theorem occurInOrder_append_iff (properties : List (τ → Bool)) (before after : List τ) :
    occurInOrder properties (before ++ after) = true ↔
      ∃ first second, properties = first ++ second ∧ occurInOrder first before = true ∧
        occurInOrder second after = true := by
  -- by the first part: its head meets the first property or is passed over
  induction before generalizing properties with
  | nil =>
      constructor
      · intro h
        exact ⟨[], properties, rfl, rfl, h⟩
      · rintro ⟨first, second, rfl, hfirst, hsecond⟩
        cases first with
        | nil => exact hsecond
        | cons property first => contradiction
  | cons element before ih =>
      cases properties with
      | nil =>
          exact iff_of_true (occurInOrder_nil _)
            ⟨[], [], rfl, occurInOrder_nil _, occurInOrder_nil _⟩
      | cons property properties =>
          simp only [List.cons_append, occurInOrder, Bool.or_eq_true, Bool.and_eq_true, ih]
          constructor
          · rintro (⟨helement, first, second, rfl, hfirst, hsecond⟩ | h)
            · refine ⟨property :: first, second, rfl, ?_, hsecond⟩
              simp [occurInOrder, helement, hfirst]
            · obtain ⟨first, second, hsplit, hfirst, hsecond⟩ := h
              refine ⟨first, second, hsplit, ?_, hsecond⟩
              cases first with
              | nil => exact occurInOrder_nil _
              | cons other first => simp [occurInOrder, hfirst]
          · rintro ⟨first, second, hsplit, hfirst, hsecond⟩
            cases first with
            | nil => exact Or.inr ⟨[], second, hsplit, occurInOrder_nil _, hsecond⟩
            | cons other first =>
                obtain ⟨rfl, rfl⟩ := List.cons.inj hsplit
                simp only [occurInOrder, Bool.or_eq_true, Bool.and_eq_true] at hfirst
                rcases hfirst with ⟨helement, hfirst⟩ | hfirst
                · exact Or.inl ⟨helement, first, second, rfl, hfirst, hsecond⟩
                · exact Or.inr ⟨property :: first, second, rfl, hfirst, hsecond⟩

/-- Each of the properties has an element. -/
theorem exists_of_occurInOrder {properties : List (τ → Bool)} {elements : List τ}
    (h : occurInOrder properties elements = true) {property : τ → Bool}
    (hmem : property ∈ properties) : ∃ element ∈ elements, property element = true := by
  induction elements generalizing properties with
  | nil =>
      cases properties with
      | nil => contradiction
      | cons first rest => contradiction
  | cons element elements ih =>
      cases properties with
      | nil => contradiction
      | cons first rest =>
          simp only [occurInOrder, Bool.or_eq_true, Bool.and_eq_true] at h
          rcases h with ⟨helement, hrest⟩ | h
          · rcases List.mem_cons.mp hmem with rfl | hmem
            · exact ⟨element, List.mem_cons_self, helement⟩
            · obtain ⟨other, hother, hproperty⟩ := ih hrest hmem
              exact ⟨other, List.mem_cons_of_mem _ hother, hproperty⟩
          · obtain ⟨other, hother, hproperty⟩ := ih h hmem
            exact ⟨other, List.mem_cons_of_mem _ hother, hproperty⟩

/-- Elements without the last property do not matter. -/
theorem occurInOrder_of_append {properties : List (τ → Bool)} {last : τ → Bool}
    {before after : List τ} (h : occurInOrder (properties ++ [last]) (before ++ after) = true)
    (hafter : ∀ element ∈ after, last element = false) :
    occurInOrder (properties ++ [last]) before = true := by
  obtain ⟨first, second, hsplit, hfirst, hsecond⟩ := (occurInOrder_append_iff _ _ _).mp h
  rcases List.eq_nil_or_concat second with rfl | ⟨init, other, rfl⟩
  · rwa [hsplit, List.append_nil]
  · rw [List.concat_eq_append, ← List.append_assoc] at hsplit
    obtain ⟨-, hlast⟩ := List.append_inj' hsplit rfl
    obtain rfl : last = other := List.singleton_inj.mp hlast
    obtain ⟨element, helement, hproperty⟩ := exists_of_occurInOrder hsecond
      (by simp : last ∈ init.concat last)
    rw [hafter element helement] at hproperty
    contradiction

/-- An element that is not in the second part of a list is in the first one. -/
theorem exists_of_not_mem_right {element : τ} {before after first second : List τ}
    (h : before ++ element :: after = first ++ second) (hmem : element ∉ second) :
    ∃ rest, first = before ++ element :: rest := by
  rcases List.append_eq_append_iff.mp h with ⟨middle, rfl, hmiddle⟩ | ⟨middle, rfl, rfl⟩
  · cases middle with
    | nil =>
        rw [List.nil_append] at hmiddle
        rw [← hmiddle] at hmem
        exact absurd List.mem_cons_self hmem
    | cons other rest =>
        obtain ⟨rfl, -⟩ := List.cons.inj hmiddle
        exact ⟨rest, rfl⟩
  · exact absurd (List.mem_append_right _ List.mem_cons_self) hmem

/-- An element that is not in the first part of a list is in the second one. -/
theorem exists_of_not_mem_left {element : τ} {before after first second : List τ}
    (h : before ++ element :: after = first ++ second) (hmem : element ∉ first) :
    ∃ rest, before = first ++ rest ∧ second = rest ++ element :: after := by
  rcases List.append_eq_append_iff.mp h with ⟨middle, rfl, hmiddle⟩ | ⟨middle, rfl, rfl⟩
  · cases middle with
    | nil => exact ⟨[], by simp, hmiddle.symm⟩
    | cons other rest =>
        obtain ⟨rfl, -⟩ := List.cons.inj hmiddle
        exact absurd (List.mem_append_right _ List.mem_cons_self) hmem
  · exact ⟨middle, rfl, rfl⟩

end

end Foundation
end NocoMiddleware
