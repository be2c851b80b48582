import NocoMiddleware.Client.RefreshBounds

/-!
# Which session a refresh touches

A refresh that succeeds compares the stored session with the one it started from before it
stores anything; a refresh that fails clears the storage whatever it holds.  So the
interceptor keeps to the session it refreshed in the runs in which no refresh fails over
another session, and in no others.
-/

namespace NocoMiddleware
namespace Client

open Js Foundation

namespace HttpClient

variable {ι : Type*} {client client' : HttpClient ι} {event : Event ι}

/-! ## The property -/

/-- Each pair that the interceptor replaces or clears for a request is the pair from which
the refresh of the request started, or carries the token that the refresh returned.  A
refresh that fails returns none. -/
def TouchesOwnSession (trace : List (Effect ι)) : Prop :=
  (∀ r previous tokens, .storageSet r (some previous) tokens ∈ trace →
    .refreshStarted r (some previous) ∈ trace ∨ .refreshed r previous.accessToken ∈ trace) ∧
  ∀ r previous, .storageClear r (some previous) ∈ trace →
    .refreshStarted r (some previous) ∈ trace

/-- A refresh that fails finds the session it started from, or none. -/
def FailsInItsSession (client : HttpClient ι) (event : Event ι) : Prop :=
  ∀ r faults error session, event = .refreshFailed r faults →
    (client.requests r).phase = .refreshing error session →
    client.storage = none ∨ client.storage = session

/-! ## What the trace says about a pending refresh -/

/-- A pending refresh is on record with the session it started from. -/
def Started (trace : List (Effect ι)) (r : ι) (request : Request) : Prop :=
  match request.phase with
  | .refreshing _ session => .refreshStarted r session ∈ trace
  | _ => True

theorem started_append (trace told : List (Effect ι)) (r : ι) (request : Request)
    (_ : ∀ effect ∈ told, effect.request ≠ r) (h : Started trace r request) :
    Started (trace ++ told) r request := by
  cases hphase : request.phase with
  | refreshing error session =>
      simp only [Started, hphase] at h ⊢
      exact List.mem_append_left told h
  | _ => simp only [Started, hphase]

theorem started_createHttpClient (hasRefresh : Bool) (storage : Option TokenPair) :
    (createHttpClient hasRefresh storage : HttpClient ι).Each Started := by
  intro r
  show True
  trivial

theorem refreshStarted_mem (h : client.Each Started) {r : ι} {error : AxiosError}
    {session : Option TokenPair}
    (hrefreshing : (client.requests r).phase = .refreshing error session) :
    .refreshStarted r session ∈ client.trace := by
  have hr := h r
  simpa only [Started, hrefreshing] using hr

theorem touchesOwnSession_append {trace told : List (Effect ι)} (h : TouchesOwnSession trace)
    (hset : ∀ r previous tokens, .storageSet r (some previous) tokens ∈ told →
      .refreshStarted r (some previous) ∈ trace ++ told ∨
        .refreshed r previous.accessToken ∈ trace ++ told)
    (hclear : ∀ r previous, .storageClear r (some previous) ∈ told →
      .refreshStarted r (some previous) ∈ trace ++ told) :
    TouchesOwnSession (trace ++ told) := by
  constructor
  · intro r previous tokens hmem
    cases List.mem_append.mp hmem with
    | inl hmem =>
        exact (h.1 r previous tokens hmem).imp (List.mem_append_left told)
          (List.mem_append_left told)
    | inr hmem => exact hset r previous tokens hmem
  · intro r previous hmem
    cases List.mem_append.mp hmem with
    | inl hmem => exact List.mem_append_left told (h.2 r previous hmem)
    | inr hmem => exact hclear r previous hmem

theorem touchesOwnSession_nil : TouchesOwnSession ([] : List (Effect ι)) := by
  simp [TouchesOwnSession]

/-- A step that calls neither `set` nor `clear`. -/
theorem touchesOwnSession_of_quiet {told : List (Effect ι)}
    (h : TouchesOwnSession client.trace) (htrace : client'.trace = client.trace ++ told)
    (hquiet : ∀ r previous tokens,
      .storageSet r previous tokens ∉ told ∧ .storageClear r previous ∉ told) :
    TouchesOwnSession client'.trace := by
  rw [htrace]
  refine touchesOwnSession_append h ?_ ?_
  · intro r previous tokens hmem
    exact absurd hmem (hquiet r (some previous) tokens).1
  · intro r previous hmem
    exact absurd hmem (hquiet r (some previous) previous).2

/-- A call of `set` follows the comparison of the sessions. -/
theorem touchesOwnSession_of_set {r : ι} {error : AxiosError} {session : Option TokenPair}
    {tokens stored : TokenPair} {accessToken : JsString} (h : TouchesOwnSession client.trace)
    (hstarted : client.Each Started)
    (hrefreshing : (client.requests r).phase = .refreshing error session)
    (hsession : some tokens = session ∨ tokens.accessToken = accessToken)
    (htrace : client'.trace = client.trace ++
      [.refreshed r accessToken, .storageSet r (some tokens) stored]) :
    TouchesOwnSession client'.trace := by
  rw [htrace]
  refine touchesOwnSession_append h ?_ (by simp)
  intro r' previous stored' hmem
  have hcall : r' = r ∧ previous = tokens := by
    simp only [List.mem_cons, reduceCtorEq, false_or, List.not_mem_nil, or_false,
      Effect.storageSet.injEq, Option.some.injEq] at hmem
    exact ⟨hmem.1, hmem.2.1⟩
  rw [hcall.1, hcall.2]
  cases hsession with
  | inl hunchanged =>
      left
      rw [hunchanged]
      exact List.mem_append_left _ (refreshStarted_mem hstarted hrefreshing)
  | inr hstored =>
      right
      simp [hstored]

/-- A call of `clear` over the session the refresh started from, or over none. -/
theorem touchesOwnSession_of_clear {r : ι} {error : AxiosError} {session : Option TokenPair}
    (h : TouchesOwnSession client.trace) (hstarted : client.Each Started)
    (hrefreshing : (client.requests r).phase = .refreshing error session)
    (hsession : client.storage = none ∨ client.storage = session)
    (htrace : client'.trace = client.trace ++ [.storageClear r client.storage]) :
    TouchesOwnSession client'.trace := by
  rw [htrace]
  refine touchesOwnSession_append h (by simp) ?_
  intro r' previous hmem
  have hcall : r' = r ∧ some previous = client.storage := by
    simpa only [List.mem_singleton, Effect.storageClear.injEq] using hmem
  rw [hcall.1, hcall.2]
  cases hsession with
  | inl hnone => simp [hnone] at hcall
  | inr hunchanged =>
      rw [hunchanged]
      exact List.mem_append_left _ (refreshStarted_mem hstarted hrefreshing)

/-! ## Steps -/

variable [DecidableEq ι]

/-- The completion of a refresh leaves another session alone. -/
def KeepsOtherSession (client : HttpClient ι) (event : Event ι) : Prop :=
  ∀ r error session tokens client', (client.requests r).phase = .refreshing error session →
    client.storage = some tokens → some tokens ≠ session →
    (∃ faults, event = .refreshFailed r faults ∨
      ∃ accessToken, event = .refreshed r accessToken faults ∧ tokens.accessToken ≠ accessToken) →
    client.step event = some client' → client'.storage = some tokens

theorem Step.started (h : Step client event client') (hstarted : client.Each Started) :
    client'.Each Started := by
  cases h with
  | setTokens tokens => exact hstarted
  | clearTokens => exact hstarted
  | issue hidle =>
      exact each_of_silent hstarted rfl rfl trivial
  | sendThrows hqueued hget =>
      exact each_of_silent hstarted rfl rfl trivial
  | respond hsent =>
      exact each_of_silent hstarted rfl rfl trivial
  | @refreshStarts r error faults hsent hmay hget =>
      refine each_of_update started_append hstarted rfl (List.append_assoc _ _ _) (by simp) ?_
      show .refreshStarted r client.storage ∈ client.trace ++ _
      simp
  | setThrows hrefreshing hget hset hstorage hsession =>
      exact each_of_update started_append hstarted rfl (List.append_assoc _ _ _) (by simp) trivial
  | resend hrefreshing hget hset hstorage hsession =>
      exact each_of_update started_append hstarted rfl (List.append_assoc _ _ _) (by simp) trivial
  | _ => exact each_of_update started_append hstarted rfl rfl (by simp) trivial

/-- A request has one refresh, so its session is known. -/
theorem refreshStarted_unique (hcounted : client.Each Counted) {r : ι}
    {session session' : Option TokenPair} (h : .refreshStarted r session ∈ client.trace)
    (h' : .refreshStarted r session' ∈ client.trace) : session = session' := by
  have hlength : (client.trace.filter (Effect.isRefresh r)).length ≤ 1 := by
    rw [← List.countP_eq_length_filter]
    exact (hcounted r).bounds.2
  have hmem : .refreshStarted r session ∈ client.trace.filter (Effect.isRefresh r) :=
    List.mem_filter.mpr ⟨h, by simp [Effect.isRefresh]⟩
  have hmem' : .refreshStarted r session' ∈ client.trace.filter (Effect.isRefresh r) :=
    List.mem_filter.mpr ⟨h', by simp [Effect.isRefresh]⟩
  cases hfilter : client.trace.filter (Effect.isRefresh r) with
  | nil => simp [hfilter] at hmem
  | cons effect rest =>
      have hrest : rest = [] := by simpa [hfilter] using hlength
      simp only [hfilter, hrest, List.mem_singleton] at hmem hmem'
      exact (Effect.refreshStarted.inj (hmem.trans hmem'.symm)).2

theorem Step.touchesOwnSession (h : Step client event client')
    (hfails : FailsInItsSession client event) (hstarted : client.Each Started)
    (htouches : TouchesOwnSession client.trace) : TouchesOwnSession client'.trace := by
  cases h with
  | setThrows hrefreshing hget hset hstorage hsession =>
      exact touchesOwnSession_of_set htouches hstarted hrefreshing hsession
        (List.append_assoc _ _ _)
  | resend hrefreshing hget hset hstorage hsession =>
      exact touchesOwnSession_of_set htouches hstarted hrefreshing hsession
        (List.append_assoc _ _ _)
  | clearThrows hrefreshing hclear =>
      exact touchesOwnSession_of_clear htouches hstarted hrefreshing
        (hfails _ _ _ _ rfl hrefreshing) rfl
  | abandon hrefreshing hclear =>
      exact touchesOwnSession_of_clear htouches hstarted hrefreshing
        (hfails _ _ _ _ rfl hrefreshing) rfl
  | refreshStarts hsent hmay hget =>
      exact touchesOwnSession_of_quiet htouches (List.append_assoc _ _ _) (by simp)
  | send hqueued hget hauthorization =>
      exact touchesOwnSession_of_quiet htouches rfl (by simp)
  | failRejects hsent hmay => exact touchesOwnSession_of_quiet htouches rfl (by simp)
  | startThrows hsent hmay hget => exact touchesOwnSession_of_quiet htouches rfl (by simp)
  | refreshedThrows hrefreshing hget =>
      exact touchesOwnSession_of_quiet htouches rfl (by simp)
  | sessionChanged hrefreshing hget hchanged hnotStored =>
      exact touchesOwnSession_of_quiet htouches rfl (by simp)
  | _ => exact htouches

theorem Step.keepsOtherSession (h : Step client event client')
    (hfails : FailsInItsSession client event) {r : ι} {error : AxiosError}
    {session : Option TokenPair} {tokens : TokenPair}
    (hrefreshing : (client.requests r).phase = .refreshing error session)
    (hstorage : client.storage = some tokens) (hother : some tokens ≠ session)
    (hcompletes : ∃ faults, event = .refreshFailed r faults ∨
      ∃ accessToken, event = .refreshed r accessToken faults ∧ tokens.accessToken ≠ accessToken) :
    client'.storage = some tokens := by
  cases h with
  | resend hrefreshing' hget hset hstorage' hsession =>
      obtain ⟨faults, hcompletes⟩ := hcompletes
      obtain ⟨accessToken, hevent, hnotStored⟩ := hcompletes.resolve_left nofun
      cases hevent
      obtain rfl := Option.some.inj (hstorage.symm.trans hstorage')
      cases hrefreshing.symm.trans hrefreshing'
      exact absurd hsession (not_or.mpr ⟨hother, hnotStored⟩)
  | abandon hrefreshing' hclear =>
      obtain ⟨faults, hcompletes⟩ := hcompletes
      have hevent := hcompletes.resolve_right (by simp)
      cases hevent
      cases hfails _ _ _ _ rfl hrefreshing with
      | inl hnone => simp [hstorage] at hnone
      | inr hsession => exact absurd (hstorage.symm.trans hsession) hother
  | setTokens tokens => simp at hcompletes
  | clearTokens => simp at hcompletes
  | _ => exact hstorage

/-! ## Every run -/

/-- The interceptor keeps to the session it refreshed in exactly the runs in which a refresh
that fails finds the storage empty or as it was when the refresh started. -/
theorem touches_own_session_iff {hasRefresh : Bool} {storage : Option TokenPair}
    {events : List (Event ι)} {last : HttpClient ι}
    (hrun : runEvents step (createHttpClient hasRefresh storage) events = some last) :
    (TouchesOwnSession last.trace ∧
        Along step (createHttpClient hasRefresh storage) KeepsOtherSession events) ↔
      Along step (createHttpClient hasRefresh storage) FailsInItsSession events := by
  constructor
  · intro h before event after client hsplit hclient r faults error session hevent hrefreshing
    have hstarted : client.Each Started :=
      run_keeps (Each Started) (fun _ _ _ h hstep => (step_cases hstep).started h)
        (started_createHttpClient hasRefresh storage) hclient
    have hcounted : last.Each Counted :=
      run_keeps (Each Counted) (fun _ _ _ h hstep => (step_cases hstep).counted h)
        (counted_createHttpClient hasRefresh storage) hrun
    rw [hsplit] at hrun
    obtain ⟨next, hstep, hafter⟩ := runEvents_split hrun hclient
    rw [hevent] at hstep
    cases htokens : client.storage with
    | none => exact Or.inl rfl
    | some tokens =>
        right
        -- the clear is told of, and so is the refresh, which is the only one of the request
        have hclear : .storageClear r (some tokens) ∈ last.trace := by
          apply (trace_extends_of_run hafter).subset
          cases step_cases hstep <;> simp [htokens]
        have hbefore : .refreshStarted r session ∈ last.trace := by
          apply (trace_extends_of_run hafter).subset
          exact (step_cases hstep).trace_extends.subset (refreshStarted_mem hstarted hrefreshing)
        exact refreshStarted_unique hcounted (h.1.2 r tokens hclear) hbefore
  · intro hfails
    have hboth : last.Each Started ∧ TouchesOwnSession last.trace :=
      run_induction (fun client => client.Each Started ∧ TouchesOwnSession client.trace)
        ⟨started_createHttpClient hasRefresh storage, touchesOwnSession_nil⟩
        (fun _ _ _ h hevent hstep => ⟨(step_cases hstep).started h.1,
          (step_cases hstep).touchesOwnSession hevent h.1 h.2⟩) hfails hrun
    refine ⟨hboth.2, hfails.mono ?_⟩
    intro client event hevent r error session tokens client' hrefreshing hstorage hother
      hcompletes hstep
    exact (step_cases hstep).keepsOtherSession hevent hrefreshing hstorage hother hcompletes

/-- A user signs in as another while the refresh is pending, and the refresh fails. -/
def signInDuringRefresh : List (Event Nat) :=
  [.issue 0, .send 0 {}, .fail 0 unauthorized {},
    .setTokens ⟨js "bob", some (js "bob-refresh")⟩, .refreshFailed 0 {}]

/-- A refresh fails while nobody else signs in. -/
def failsAlone : List (Event Nat) :=
  [.issue 0, .send 0 {}, .fail 0 unauthorized {}, .refreshFailed 0 {}]

/-- Of the two runs the second one meets the condition. -/
theorem touches_own_session_iff_signInDuringRefresh :
    (∃ last, runEvents step (createHttpClient true (some ⟨js "alice", none⟩)) signInDuringRefresh =
        some last ∧
      ((TouchesOwnSession last.trace ∧
          Along step (createHttpClient true (some ⟨js "alice", none⟩)) KeepsOtherSession
            signInDuringRefresh) ↔
        Along step (createHttpClient true (some ⟨js "alice", none⟩)) FailsInItsSession
          signInDuringRefresh)) ∧
      ∃ last, runEvents step (createHttpClient true (some ⟨js "alice", none⟩)) failsAlone =
          some last ∧
        TouchesOwnSession last.trace ∧
          Along step (createHttpClient true (some ⟨js "alice", none⟩)) KeepsOtherSession
            failsAlone := by
  constructor
  · obtain ⟨last, hrun⟩ : ∃ last, runEvents step (createHttpClient true
        (some ⟨js "alice", none⟩)) signInDuringRefresh = some last := ⟨_, rfl⟩
    exact ⟨last, hrun, touches_own_session_iff hrun⟩
  · obtain ⟨last, hrun⟩ : ∃ last, runEvents step (createHttpClient true
        (some ⟨js "alice", none⟩)) failsAlone = some last := ⟨_, rfl⟩
    have hother : ∀ (client : HttpClient Nat) (event : Event Nat),
        (∀ r faults, event ≠ .refreshFailed r faults) → FailsInItsSession client event :=
      fun client event hevent r faults error session heq => absurd heq (hevent r faults)
    have hfails : Along step (createHttpClient true (some ⟨js "alice", none⟩)) FailsInItsSession
        failsAlone := by
      apply along_cons (hother _ _ (by simp)) rfl
      apply along_cons (hother _ _ (by simp)) rfl
      apply along_cons (hother _ _ (by simp)) rfl
      refine along_cons_iff.mpr ⟨?_, fun _ _ => along_nil⟩
      intro r faults error session hevent hrefreshing
      obtain ⟨rfl, -⟩ := Event.refreshFailed.inj hevent
      right
      exact (Phase.refreshing.inj hrefreshing).2
    exact ⟨last, hrun, (touches_own_session_iff hrun).mpr hfails⟩

/-- The failed refresh of the first user clears the tokens of the second. -/
theorem failed_refresh_clears_other_session :
    ∃ last, runEvents step (createHttpClient true (some ⟨js "alice", none⟩)) signInDuringRefresh =
        some last ∧ last.storage = none ∧ ¬ TouchesOwnSession last.trace := by
  refine ⟨_, rfl, rfl, ?_⟩
  intro h
  have hcalls : TouchesOwnSession
      [.sent 0 (some (bearer (js "alice"))), .failed 0 unauthorized,
        .refreshStarted 0 (some ⟨js "alice", none⟩),
        .storageClear 0 (some ⟨js "bob", some (js "bob-refresh")⟩)] := h
  have hstarted := hcalls.2 0 ⟨js "bob", some (js "bob-refresh")⟩ (by simp)
  simp [js] at hstarted

end HttpClient

end Client
end NocoMiddleware
