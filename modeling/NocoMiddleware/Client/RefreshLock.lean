import NocoMiddleware.Client.RefreshBounds

/-!
# The refresh lock

The flag `isRefreshing` is the lock of a refresh.  Every way out of the `try` block resets
it, but the storage is read once after the flag is set and before the block is entered: if
that read throws, nobody is left to reset the flag, and no later 401 starts a refresh.
-/

namespace NocoMiddleware
namespace Client

open Js Foundation

namespace HttpClient

variable {ι : Type*} [DecidableEq ι] {client client' : HttpClient ι} {event : Event ι}

/-! ## The lock -/

/-- The next 401 of a request that was not sent again yet starts a refresh. -/
def RefreshesNext (client : HttpClient ι) : Prop :=
  ∀ r error faults, (client.requests r).phase = .sent → (client.requests r).retry = false →
    error.response.map Response.status = some 401 → faults.get = none →
      ∃ client', client.step (.fail r error faults) = some client' ∧ client'.Pending r

/-- While no call of `onRefresh` is pending, the lock is free and a refresh can start. -/
def LockReleased (client : HttpClient ι) : Prop :=
  (∀ r, ¬ client.Pending r) →
    client.isRefreshing = false ∧ (client.hasRefresh = true → client.RefreshesNext)

/-- The storage does not throw at the read between the flag and the `try` block. -/
def ReadsSessionBefore (client : HttpClient ι) : Event ι → Prop
  | .fail r error faults => client.mayRefresh r error = true → faults.get = none
  | _ => True

instance (client : HttpClient ι) (event : Event ι) :
    Decidable (client.ReadsSessionBefore event) :=
  match event with
  | .fail r error faults =>
      inferInstanceAs (Decidable (client.mayRefresh r error = true → faults.get = none))
  | .issue _ | .setTokens _ | .clearTokens | .send _ _ | .respond _ | .refreshed _ _ _
  | .refreshFailed _ _ => isTrue trivial

/-- The flag is set and nobody is going to reset it. -/
def Stuck (client : HttpClient ι) : Prop :=
  client.isRefreshing = true ∧ ∀ r, ¬ client.Pending r

/-- A free lock lets a 401 through to `onRefresh`. -/
theorem refreshesNext_of_not_isRefreshing (hfree : client.isRefreshing = false)
    (hasRefresh : client.hasRefresh = true) : client.RefreshesNext := by
  intro r error faults hsent hretry hstatus hget
  have hmay : client.mayRefresh r error = true :=
    mayRefresh_iff.mpr ⟨hstatus, hretry, hfree, hasRefresh⟩
  have hstep : client.step (.fail r error faults) = some (client.fail r error faults) := by
    simp [step, hsent]
  refine ⟨_, hstep, error, client.storage, ?_⟩
  simp [fail, hmay, hget]

theorem lockReleased_of_held
    (hheld : client.isRefreshing = true → ∃ r, client.Pending r) : client.LockReleased := by
  intro hnone
  have hfree : client.isRefreshing = false := by
    by_contra hflag
    obtain ⟨r, hpending⟩ := hheld (by simpa using hflag)
    exact hnone r hpending
  exact ⟨hfree, refreshesNext_of_not_isRefreshing hfree⟩

theorem Stuck.not_lockReleased (h : client.Stuck) : ¬ client.LockReleased := by
  intro hreleased
  have hfree := (hreleased h.2).1
  rw [h.1] at hfree
  cases hfree

/-! ## What a step does to the lock -/

theorem pending_of_ne {r r' : ι} {request : Request}
    (hrequests : client'.requests = Function.update client.requests r request)
    (hne : r' ≠ r) : client'.Pending r' ↔ client.Pending r' := by
  unfold Pending
  rw [hrequests, Function.update_of_ne hne]

/-- A request that is not refreshing leaves the lock to the one that is. -/
theorem held_of_update {r : ι} {request : Request}
    (hheld : client.isRefreshing = true → ∃ r, client.Pending r)
    (hrequests : client'.requests = Function.update client.requests r request)
    (hflag : client'.isRefreshing = client.isRefreshing) (hnot : ¬ client.Pending r) :
    client'.isRefreshing = true → ∃ r, client'.Pending r := by
  intro hisRefreshing
  rw [hflag] at hisRefreshing
  obtain ⟨r', hpending⟩ := hheld hisRefreshing
  have hne : r' ≠ r := by
    intro h
    exact hnot (h ▸ hpending)
  exact ⟨r', (pending_of_ne hrequests hne).mpr hpending⟩

omit [DecidableEq ι] in
theorem not_pending {r : ι} {phase : Phase} (hphase : (client.requests r).phase = phase)
    (hnot : ∀ error session, phase ≠ .refreshing error session) : ¬ client.Pending r := by
  intro hpending
  obtain ⟨error, session, hrefreshing⟩ := hpending
  exact hnot error session (hphase.symm.trans hrefreshing)

/-- The flag stays with a pending refresh, unless the read before the refresh throws. -/
theorem Step.held (h : Step client event client') (hreads : client.ReadsSessionBefore event)
    (hheld : client.isRefreshing = true → ∃ r, client.Pending r) :
    client'.isRefreshing = true → ∃ r, client'.Pending r := by
  cases h with
  | setTokens tokens => exact hheld
  | clearTokens => exact hheld
  | issue hidle => exact held_of_update hheld rfl rfl (not_pending hidle (by simp))
  | sendThrows hqueued hget =>
      exact held_of_update hheld rfl rfl (not_pending hqueued (by simp))
  | send hqueued hget hauthorization =>
      exact held_of_update hheld rfl rfl (not_pending hqueued (by simp))
  | respond hsent => exact held_of_update hheld rfl rfl (not_pending hsent (by simp))
  | failRejects hsent hmay => exact held_of_update hheld rfl rfl (not_pending hsent (by simp))
  | startThrows hsent hmay hget =>
      have hreturns := hreads hmay
      rw [hget] at hreturns
      cases hreturns
  | @refreshStarts r error faults hsent hmay hget =>
      intro hflag
      refine ⟨r, error, client.storage, ?_⟩
      simp
  -- from here on the refresh is over, and its `finally` has run
  | _ =>
      intro hflag
      cases hflag

/-- A request that is not refreshing and a flag that nobody resets. -/
theorem stuck_of_update {r : ι} {request : Request} (hnone : ∀ r, ¬ client.Pending r)
    (hrequests : client'.requests = Function.update client.requests r request)
    (hnot : ∀ error session, request.phase ≠ .refreshing error session)
    (hflag : client'.isRefreshing = true) : client'.Stuck := by
  constructor
  · exact hflag
  · intro r' hpending
    by_cases hr' : r' = r
    · obtain ⟨error, session, hphase⟩ := hpending
      rw [hrequests, hr', Function.update_self] at hphase
      exact hnot error session hphase
    · exact hnone r' ((pending_of_ne hrequests hr').mp hpending)

/-- The read that throws leaves the flag behind. -/
theorem Step.stuck_of_throws (h : Step client event client') (hsingle : client.SingleRefresh)
    (hthrows : ¬ client.ReadsSessionBefore event) : client'.Stuck := by
  cases h with
  | startThrows hsent hmay hget =>
      have hnone := not_pending_of_not_isRefreshing hsingle (mayRefresh_iff.mp hmay).2.2.1
      exact stuck_of_update hnone rfl (by simp) rfl
  | failRejects hsent hmay =>
      refine absurd (fun hmay' => ?_) hthrows
      rw [hmay] at hmay'
      cases hmay'
  | refreshStarts hsent hmay hget => exact absurd (fun _ => hget) hthrows
  | _ => exact absurd trivial hthrows

/-- A stuck lock stays stuck: no event resets the flag, and no refresh is started. -/
theorem Step.stuck (h : Step client event client') (hstuck : client.Stuck) (r : ι) :
    client'.Stuck ∧ client'.refreshes r = client.refreshes r := by
  obtain ⟨hflag, hnone⟩ := hstuck
  cases h with
  | setTokens tokens => exact ⟨⟨hflag, hnone⟩, rfl⟩
  | clearTokens => exact ⟨⟨hflag, hnone⟩, rfl⟩
  | issue hidle => exact ⟨stuck_of_update hnone rfl (by simp) hflag, rfl⟩
  | sendThrows hqueued hget => exact ⟨stuck_of_update hnone rfl (by simp) hflag, rfl⟩
  | send hqueued hget hauthorization =>
      exact ⟨stuck_of_update hnone rfl (by simp) hflag, by simp [refreshes]⟩
  | respond hsent => exact ⟨stuck_of_update hnone rfl (by simp) hflag, rfl⟩
  | failRejects hsent hmay =>
      exact ⟨stuck_of_update hnone rfl (by simp) hflag, by simp [refreshes]⟩
  | startThrows hsent hmay hget => simp [mayRefresh, hflag] at hmay
  | refreshStarts hsent hmay hget => simp [mayRefresh, hflag] at hmay
  | refreshedThrows hrefreshing hget => exact absurd ⟨_, _, hrefreshing⟩ (hnone _)
  | sessionChanged hrefreshing hget hchanged hnotStored =>
      exact absurd ⟨_, _, hrefreshing⟩ (hnone _)
  | setThrows hrefreshing hget hset hstorage hsession =>
      exact absurd ⟨_, _, hrefreshing⟩ (hnone _)
  | resend hrefreshing hget hset hstorage hsession =>
      exact absurd ⟨_, _, hrefreshing⟩ (hnone _)
  | clearThrows hrefreshing hclear => exact absurd ⟨_, _, hrefreshing⟩ (hnone _)
  | abandon hrefreshing hclear => exact absurd ⟨_, _, hrefreshing⟩ (hnone _)

/-! ## Every run -/

/-- For the rest of the page's life nobody refreshes again. -/
theorem stuck_forever {first last : HttpClient ι} {events : List (Event ι)}
    (hstuck : first.Stuck) (hrun : runEvents step first events = some last) (r : ι) :
    last.Stuck ∧ last.refreshes r = first.refreshes r := by
  apply run_keeps (fun client => client.Stuck ∧ client.refreshes r = first.refreshes r) _
    ⟨hstuck, rfl⟩ hrun
  intro client event client' h hstep
  have hnext := (step_cases hstep).stuck h.1 r
  exact ⟨hnext.1, hnext.2.trans h.2⟩

/-- The lock is released in every state of a run, whatever the callbacks throw, in exactly
the runs in which the read between the flag and the `try` block does not throw. -/
theorem lock_released_iff {hasRefresh : Bool} {storage : Option TokenPair}
    {events : List (Event ι)} {last : HttpClient ι}
    (hrun : runEvents step (createHttpClient hasRefresh storage) events = some last) :
    (∀ before state, before <+: events →
        runEvents step (createHttpClient hasRefresh storage) before = some state →
        state.LockReleased) ↔
      Along step (createHttpClient hasRefresh storage) ReadsSessionBefore events := by
  constructor
  · intro hreleased before event after state hsplit hstate
    by_contra hthrows
    rw [hsplit] at hrun
    obtain ⟨next, hstep, hafter⟩ := runEvents_split hrun hstate
    have hstuck : next.Stuck :=
      (step_cases hstep).stuck_of_throws (singleRefresh_of_run hstate) hthrows
    -- the state after the throwing read is one of the run
    refine hstuck.not_lockReleased (hreleased (before ++ [event]) next ?_ ?_)
    · exact ⟨after, by rw [hsplit, List.append_assoc, List.cons_append, List.nil_append]⟩
    · rw [runEvents_concat, hstate, Option.bind_some, hstep]
  · intro hreads before state hinitial hstate
    apply lockReleased_of_held
    apply run_induction (fun client => client.isRefreshing = true → ∃ r, client.Pending r) _ _
      (hreads.initial hinitial) hstate
    · intro hflag
      cases hflag
    · intro client event client' hheld hevent hstep
      exact (step_cases hstep).held hevent hheld

/-- The refresh fails, and so does the call that clears the tokens; the 401 of another
request starts the next refresh. -/
def failedAndRefreshed : List (Event Nat) :=
  [.issue 0, .issue 1, .send 0 {}, .send 1 {}, .fail 0 unauthorized {},
    .refreshFailed 0 { clear := some (js "QuotaExceededError") }, .fail 1 unauthorized {}]

theorem lock_released_iff_failedAndRefreshed :
    ∃ last, runEvents step (createHttpClient true (some ⟨js "stale", none⟩))
        failedAndRefreshed = some last ∧ last.refreshes 1 = 1 ∧
      ∀ before state, before <+: failedAndRefreshed →
        runEvents step (createHttpClient true (some ⟨js "stale", none⟩)) before = some state →
        state.LockReleased := by
  obtain ⟨last, hrun, hrefreshes⟩ : ∃ last, runEvents step
      (createHttpClient true (some ⟨js "stale", none⟩)) failedAndRefreshed = some last ∧
      last.refreshes 1 = 1 := ⟨_, rfl, by decide⟩
  exact ⟨last, hrun, hrefreshes, (lock_released_iff hrun).mpr (by decide +kernel)⟩

/-- The stored text no longer parses when the first 401 arrives; the second 401, after the
storage was mended, is rejected although nobody refreshes. -/
def unreadableSession : List (Event Nat) :=
  [.issue 0, .send 0 {}, .fail 0 unauthorized { get := some (js "Unexpected token") },
    .setTokens ⟨js "stale", none⟩, .issue 1, .send 1 {}, .fail 1 unauthorized {}]

theorem lock_not_released :
    (¬ ∀ (events : List (Event Nat)) (last : HttpClient Nat),
      runEvents step (createHttpClient true (some ⟨js "stale", none⟩)) events = some last →
        ∀ before state, before <+: events →
          runEvents step (createHttpClient true (some ⟨js "stale", none⟩)) before =
            some state → state.LockReleased) ∧
      ∃ last, runEvents step (createHttpClient true (some ⟨js "stale", none⟩))
          unreadableSession = some last ∧ last.isRefreshing = true ∧ last.refreshes 1 = 0 ∧
        (last.requests 0).phase = .rejected (.error (js "Unexpected token")) ∧
        (last.requests 1).phase = .rejected (.middlewareError ⟨js "Unauthorized", 401⟩) := by
  constructor
  · intro h
    obtain ⟨last, hrun⟩ : ∃ last, runEvents step
        (createHttpClient true (some ⟨js "stale", none⟩)) unreadableSession = some last :=
      ⟨_, rfl⟩
    -- the third event leaves the lock stuck, the rest of the run keeps it so
    obtain ⟨state, hstate⟩ : ∃ state, runEvents step
        (createHttpClient true (some ⟨js "stale", none⟩)) (unreadableSession.take 2) =
          some state := ⟨_, rfl⟩
    obtain ⟨next, hstep, hafter⟩ := runEvents_split hrun hstate
    have hthrows : ¬ state.ReadsSessionBefore
        (.fail 0 unauthorized { get := some (js "Unexpected token") }) := by
      rw [← Option.some.inj hstate]
      decide +kernel
    have hstuck := (step_cases hstep).stuck_of_throws (singleRefresh_of_run hstate) hthrows
    have hreleased := h unreadableSession last hrun unreadableSession last List.prefix_rfl hrun
    exact (stuck_forever hstuck hafter 1).1.not_lockReleased hreleased
  · exact ⟨_, rfl, rfl, by decide, rfl, rfl⟩

end HttpClient

end Client
end NocoMiddleware
