import NocoMiddleware.Client.RefreshBounds

/-!
# Requests whose token has expired

A request that is answered with 401 while no refresh is pending starts one, waits for it
and goes out again with the new token.  A 401 that arrives while another request refreshes
finds the flag taken and goes to the caller.  So the refresh is transparent in the runs in
which the interceptor handles no 401 under the flag, and in no others.
-/

namespace NocoMiddleware
namespace Client

open Js Foundation

/-- The tokens that `onRefresh` returns in a run. -/
def RefreshedToken {ι : Type*} (events : List (Event ι)) (accessToken : JsString) : Prop :=
  ∃ r faults, .refreshed r accessToken faults ∈ events

namespace HttpClient

section

variable {ι : Type*}

/-! ## The environment and the property -/

/-- What the application, the server and `onRefresh` do: nobody signs out or switches the
account, `onRefresh` returns a token, the server accepts the refreshed tokens, and the
storage works.  A callback may store a refreshed token itself. -/
def Cooperates (refreshed : JsString → Prop) (client : HttpClient ι) (event : Event ι) : Prop :=
  event.Faultless ∧
    match event with
    | .setTokens tokens => refreshed tokens.accessToken
    | .clearTokens | .refreshFailed _ _ => False
    | .fail r error _ => error.status = 401 →
        ∀ accessToken, refreshed accessToken →
          (client.requests r).authorization ≠ some (bearer accessToken)
    | .refreshed r accessToken _ => accessToken ≠ [] ∧
        ∀ error session, (client.requests r).phase = .refreshing error session →
          client.storage = session ∨
            client.storage.map TokenPair.accessToken = some accessToken
    | _ => True

/-- No request is rejected with a 401. -/
def NoneUnauthorized (client : HttpClient ι) : Prop :=
  ∀ r message, (client.requests r).phase ≠ .rejected (.middlewareError ⟨message, 401⟩)

/-- A request that was answered with 401 waits for its refresh or for its turn, or was
sent again with a refreshed token. -/
def AllResent (refreshed : JsString → Prop) (client : HttpClient ι) : Prop :=
  ∀ r error, .failed r error ∈ client.trace → error.status = 401 →
    client.Pending r ∨ (client.requests r).phase = .queued ∨
      ∃ accessToken, refreshed accessToken ∧
        (client.requests r).authorization = some (bearer accessToken) ∧
        .sent r (some (bearer accessToken)) ∈ client.trace

/-- A 401 is handled while no refresh holds the flag. -/
def ArrivesUnlocked (client : HttpClient ι) (event : Event ι) : Prop :=
  ∀ r error faults, event = .fail r error faults → error.status = 401 →
    client.isRefreshing = false

/-! ## Requests that were flagged -/

/-- How a flagged request goes on: what is stored when it goes out is a refreshed token. -/
def Resending (refreshed : JsString → Prop) (storage : Option TokenPair)
    (trace : List (Effect ι)) (r : ι) (request : Request) : Prop :=
  request.retry = true →
    match request.phase with
    | .idle => False
    | .queued => ∃ tokens, storage = some tokens ∧ refreshed tokens.accessToken
    | .refreshing _ _ => True
    | _ => ∃ accessToken, refreshed accessToken ∧
        request.authorization = some (bearer accessToken) ∧
        .sent r (some (bearer accessToken)) ∈ trace

variable {refreshed : JsString → Prop} {storage : Option TokenPair}
  {client client' : HttpClient ι} {event : Event ι}

theorem resending_append (trace told : List (Effect ι)) (r : ι) (request : Request)
    (_ : ∀ effect ∈ told, effect.request ≠ r) (h : Resending refreshed storage trace r request) :
    Resending refreshed storage (trace ++ told) r request := by
  intro hretry
  have hr := h hretry
  cases hphase : request.phase <;> simp only [hphase] at hr ⊢
  case queued => exact hr
  all_goals
    obtain ⟨accessToken, hrefreshed, hauthorization, hmem⟩ := hr
    exact ⟨accessToken, hrefreshed, hauthorization, List.mem_append_left told hmem⟩

/-- Nothing is lost when a refreshed token is stored. -/
theorem Resending.store {trace : List (Effect ι)} {r : ι} {request : Request}
    {tokens : TokenPair} (h : Resending refreshed storage trace r request)
    (htokens : refreshed tokens.accessToken) :
    Resending refreshed (some tokens) trace r request := by
  intro hretry
  have hr := h hretry
  cases hphase : request.phase <;> simp only [hphase] at hr ⊢
  case queued => exact ⟨tokens, rfl, htokens⟩
  all_goals exact hr

theorem status_eq_401 {error : AxiosError} :
    error.response.map Response.status = some 401 ↔ error.status = 401 := by
  cases h : error.response <;> simp [AxiosError.status, h]

/-- Nobody switched the account when the refresh completes. -/
theorem Cooperates.session {r : ι} {accessToken : JsString} {faults : StorageFaults}
    {error : AxiosError} {session : Option TokenPair}
    (henv : Cooperates refreshed client (.refreshed r accessToken faults))
    (hrefreshing : (client.requests r).phase = .refreshing error session)
    (hstored : client.storage ≠ none)
    (hchanged : client.storage ≠ none → client.storage ≠ session) :
    ∃ tokens, client.storage = some tokens ∧ tokens.accessToken = accessToken := by
  cases henv.2.2 error session hrefreshing with
  | inl hunchanged => exact absurd hunchanged (hchanged hstored)
  | inr hcallback => exact Option.map_eq_some_iff.mp hcallback

/-- What every step of such a run keeps. -/
structure Transparent (refreshed : JsString → Prop) (client : HttpClient ι) : Prop where
  hasRefresh : client.hasRefresh = true
  stored : client.storage ≠ none
  resending : client.Each (Resending refreshed client.storage)

theorem Transparent.resent (h : Transparent refreshed client) {r : ι}
    (hretry : (client.requests r).retry = true) (hsent : (client.requests r).phase = .sent) :
    ∃ accessToken, refreshed accessToken ∧
      (client.requests r).authorization = some (bearer accessToken) ∧
      .sent r (some (bearer accessToken)) ∈ client.trace := by
  have hr := h.resending r hretry
  simpa only [hsent] using hr

theorem Transparent.retry_of_unauthorized (h : Transparent refreshed client) {r : ι}
    {error : AxiosError} {faults : StorageFaults}
    (henv : Cooperates refreshed client (.fail r error faults))
    (hsent : (client.requests r).phase = .sent) (hstatus : error.status = 401) :
    (client.requests r).retry = false := by
  by_contra hretry
  obtain ⟨accessToken, hrefreshed, hauthorization, _⟩ :=
    h.resent (Bool.not_eq_false _ ▸ hretry) hsent
  exact henv.2 hstatus accessToken hrefreshed hauthorization

theorem transparent_createHttpClient (tokens : TokenPair) :
    Transparent refreshed (createHttpClient true (some tokens) : HttpClient ι) where
  hasRefresh := rfl
  stored := Option.some_ne_none tokens
  resending := fun _ hretry => nomatch hretry

end

variable {ι : Type*} [DecidableEq ι] {refreshed : JsString → Prop}
  {client client' : HttpClient ι} {event : Event ι}

theorem Step.transparent (h : Step client event client')
    (henv : Cooperates refreshed client event)
    (hreturned : ∀ r accessToken faults, event = .refreshed r accessToken faults →
      refreshed accessToken)
    (hnonempty : ∀ accessToken, refreshed accessToken → accessToken ≠ [])
    (htransparent : Transparent refreshed client) : Transparent refreshed client' := by
  obtain ⟨hhas, hstored, heach⟩ := htransparent
  have hfaultless := henv.1
  cases h with
  | setTokens tokens => exact ⟨hhas, by simp, fun r => (heach r).store henv.2⟩
  | clearTokens => exact henv.2.elim
  | @issue r hidle =>
      refine ⟨hhas, hstored, each_of_silent heach rfl rfl ?_⟩
      intro hretry
      have hr := heach r hretry
      simp only [hidle] at hr
  | sendThrows hqueued hget => cases hfaultless.get.symm.trans hget
  | @send r faults authorization hqueued hget hauthorization =>
      refine ⟨hhas, hstored, each_of_update resending_append heach rfl rfl (by simp) ?_⟩
      intro hretry
      have hr := heach r hretry
      simp only [hqueued] at hr
      obtain ⟨tokens, hstorage, htokens⟩ := hr
      have hheader : authorization = some (bearer tokens.accessToken) := by
        rw [hauthorization, hstorage, requestInterceptor, if_neg (hnonempty _ htokens)]
      exact ⟨tokens.accessToken, htokens, hheader, by simp [hheader]⟩
  | @respond r hsent =>
      refine ⟨hhas, hstored, each_of_silent heach rfl rfl ?_⟩
      intro hretry
      have hr := heach r hretry
      simpa only [hsent, List.append_nil] using hr
  | @failRejects r error faults hsent hmay =>
      refine ⟨hhas, hstored, each_of_update resending_append heach rfl rfl (by simp) ?_⟩
      intro hretry
      have hr := heach r hretry
      simp only [hsent] at hr
      obtain ⟨accessToken, hrefreshed, hauthorization, hmem⟩ := hr
      exact ⟨accessToken, hrefreshed, hauthorization, List.mem_append_left _ hmem⟩
  | startThrows hsent hmay hget => cases hfaultless.get.symm.trans hget
  | refreshStarts hsent hmay hget =>
      exact ⟨hhas, hstored, each_of_update resending_append heach rfl (List.append_assoc _ _ _)
        (by simp) fun _ => trivial⟩
  | refreshedThrows hrefreshing hget => cases hfaultless.get.symm.trans hget
  | sessionChanged hrefreshing hget hchanged hnotStored =>
      -- nobody switched the account, so the callback has stored the token itself
      obtain ⟨tokens, hstorage, htoken⟩ := henv.session hrefreshing hstored hchanged
      exact absurd htoken (hnotStored tokens hstorage)
  | setThrows hrefreshing hget hset hstorage hsession =>
      cases hfaultless.set.symm.trans hset
  | @resend r error session accessToken faults tokens hrefreshing hget hset hstorage hsession =>
      -- other re-sends that are queued now carry this token, which is as good
      have hrefreshed := hreturned r accessToken faults rfl
      have hstore : client.Each (Resending refreshed (some { tokens with accessToken })) :=
        fun r => (heach r).store hrefreshed
      exact ⟨hhas, by simp, each_of_update resending_append hstore rfl (List.append_assoc _ _ _)
        (by simp) fun _ => ⟨_, rfl, hrefreshed⟩⟩
  | clearThrows hrefreshing hclear => exact henv.2.elim
  | abandon hrefreshing hclear => exact henv.2.elim

/-! ## Requests that were answered with 401 -/

/-- A request that was answered with 401 is flagged, and no 401 reached the caller. -/
def Answered (trace : List (Effect ι)) (r : ι) (request : Request) : Prop :=
  (∀ error, .failed r error ∈ trace → error.status = 401 → request.retry = true) ∧
    ∀ message, request.phase ≠ .rejected (.middlewareError ⟨message, 401⟩)

omit [DecidableEq ι] in
theorem answered_append (trace told : List (Effect ι)) (r : ι) (request : Request)
    (hother : ∀ effect ∈ told, effect.request ≠ r) (h : Answered trace r request) :
    Answered (trace ++ told) r request := by
  refine ⟨fun error hmem => ?_, h.2⟩
  cases List.mem_append.mp hmem with
  | inl hmem => exact h.1 error hmem
  | inr hmem => exact absurd rfl (hother _ hmem)

theorem Step.answered (h : Step client event client')
    (henv : Cooperates refreshed client event) (hunlocked : ArrivesUnlocked client event)
    (htransparent : Transparent refreshed client) (hanswered : client.Each Answered) :
    client'.Each Answered := by
  have hfaultless := henv.1
  cases h with
  | setTokens tokens => exact hanswered
  | clearTokens => exact hanswered
  | @issue r hidle =>
      refine each_of_silent hanswered rfl rfl ?_
      simpa [Answered] using (hanswered r).1
  | @sendThrows r faults message hqueued hget => cases hfaultless.get.symm.trans hget
  | @send r faults authorization hqueued hget hauthorization =>
      refine each_of_update answered_append hanswered rfl rfl (by simp) ?_
      simpa [Answered] using (hanswered r).1
  | @respond r hsent =>
      refine each_of_silent hanswered rfl rfl ?_
      simpa [Answered] using (hanswered r).1
  | @failRejects r error faults hsent hmay =>
      -- a 401 that arrives while no refresh runs starts one, so the status is another
      have hstatus : error.status ≠ 401 := by
        intro hstatus
        have hretry := htransparent.retry_of_unauthorized henv hsent hstatus
        have hmay' : client.mayRefresh r error = true :=
          mayRefresh_iff.mpr ⟨status_eq_401.mpr hstatus, hretry,
            hunlocked r error faults rfl hstatus, htransparent.hasRefresh⟩
        simp [hmay] at hmay'
      refine each_of_update answered_append hanswered rfl rfl (by simp) ⟨?_, ?_⟩
      · intro error' hmem hstatus'
        cases List.mem_append.mp hmem with
        | inl hmem => exact (hanswered r).1 error' hmem hstatus'
        | inr hmem =>
            cases List.mem_singleton.mp hmem
            exact absurd hstatus' hstatus
      · intro message hrejected
        have hthrown := Phase.rejected.inj hrejected
        cases throwNormalised_axiosError error with
        | inl h =>
            obtain ⟨other, hother⟩ := h
            have hsame := Rejection.middlewareError.inj (hother.symm.trans hthrown)
            exact hstatus (congrArg MiddlewareError.statusCode hsame)
        | inr h => cases h.1.symm.trans hthrown
  | @refreshStarts r error faults hsent hmay hget =>
      refine each_of_update answered_append hanswered rfl (List.append_assoc _ _ _) (by simp) ?_
      simp [Answered]
  | startThrows hsent hmay hget => cases hfaultless.get.symm.trans hget
  | refreshedThrows hrefreshing hget => cases hfaultless.get.symm.trans hget
  | setThrows hrefreshing hget hset hstorage hsession =>
      cases hfaultless.set.symm.trans hset
  | sessionChanged hrefreshing hget hchanged hnotStored =>
      obtain ⟨tokens, hstorage, htoken⟩ :=
        henv.session hrefreshing htransparent.stored hchanged
      exact absurd htoken (hnotStored tokens hstorage)
  | @resend r error session accessToken faults tokens hrefreshing hget hset hstorage hsession =>
      refine each_of_update answered_append hanswered rfl (List.append_assoc _ _ _) (by simp) ?_
      simpa [Answered] using (hanswered r).1
  | clearThrows hrefreshing hclear => exact henv.2.elim
  | abandon hrefreshing hclear => exact henv.2.elim

/-! ## Every run -/

omit [DecidableEq ι] in
theorem allResent_of_answered (htransparent : Transparent refreshed client)
    (hanswered : client.Each Answered) : AllResent refreshed client := by
  intro r error hmem hstatus
  have hr := htransparent.resending r ((hanswered r).1 error hmem hstatus)
  cases hphase : (client.requests r).phase <;> simp only [hphase] at hr
  case queued => exact Or.inr (Or.inl rfl)
  case refreshing error session => exact Or.inl ⟨error, session, hphase⟩
  all_goals exact Or.inr (Or.inr hr)

/-- A rejected request stays as it is. -/
theorem Step.rejected (h : Step client event client') {r : ι} {reason : Rejection}
    (hrejected : (client.requests r).phase = .rejected reason) :
    client'.requests r = client.requests r := by
  have hother : ∀ r', (client.requests r').phase ≠ .rejected reason → r ≠ r' := by
    intro r' hr' heq
    exact hr' (heq ▸ hrejected)
  cases h <;> simp_all [Function.update_of_ne]

theorem run_rejected {first last : HttpClient ι} {events : List (Event ι)} {r : ι}
    {reason : Rejection} (hrejected : (first.requests r).phase = .rejected reason)
    (hrun : runEvents step first events = some last) :
    last.requests r = first.requests r := by
  refine run_keeps (fun client => client.requests r = first.requests r) ?_ rfl hrun
  intro client event client' hsame hstep
  rw [(step_cases hstep).rejected (hsame ▸ hrejected), hsame]

/-- A 401 under the flag goes to the caller. -/
theorem step_fail_locked {r : ι} {error : AxiosError} {faults : StorageFaults}
    (hlocked : client.isRefreshing = true)
    (hstep : client.step (.fail r error faults) = some client') :
    client'.requests r =
        { client.requests r with phase := .rejected (throwNormalised (.axiosError error)) } ∧
      .failed r error ∈ client'.trace := by
  have hmay : client.mayRefresh r error = false := by simp [mayRefresh, hlocked]
  cases step_cases hstep with
  | failRejects hsent => simp
  | startThrows hsent hmay' => simp [hmay] at hmay'
  | refreshStarts hsent hmay' => simp [hmay] at hmay'

/-- The refresh is transparent to requests with an expired token in exactly the runs in
which no 401 is handled while a refresh holds the flag. -/
theorem expiry_transparent_iff {tokens : TokenPair} {events : List (Event ι)}
    {last : HttpClient ι}
    (henv : Along step (createHttpClient true (some tokens))
      (Cooperates (RefreshedToken events)) events)
    (hrun : runEvents step (createHttpClient true (some tokens)) events = some last) :
    (last.NoneUnauthorized ∧ AllResent (RefreshedToken events) last) ↔
      Along step (createHttpClient true (some tokens)) ArrivesUnlocked events := by
  constructor
  · intro h before event after client hsplit hclient r error faults hevent hstatus
    -- a 401 that arrives during a refresh is rejected, and stays rejected
    by_contra hlocked
    rw [Bool.not_eq_false] at hlocked
    have hcooperates := henv before event after client hsplit hclient
    rw [hsplit] at hrun
    obtain ⟨next, hstep, hafter⟩ := runEvents_split hrun hclient
    rw [hevent] at hstep hcooperates
    obtain ⟨hrequest, hmem⟩ := step_fail_locked hlocked hstep
    have hlast := run_rejected (by rw [hrequest]) hafter
    rw [hrequest] at hlast
    cases throwNormalised_axiosError error with
    | inl herror =>
        obtain ⟨message, herror⟩ := herror
        exact h.1 r message (by rw [hlast, herror, hstatus])
    | inr herror =>
        have hresent := h.2 r error ((trace_extends_of_run hafter).subset hmem) hstatus
        simp only [Pending, hlast, reduceCtorEq, exists_false, false_or] at hresent
        obtain ⟨accessToken, hrefreshed, hauthorization, _⟩ := hresent
        exact hcooperates.2 hstatus accessToken hrefreshed hauthorization
  · intro hunlocked
    have hnonempty : ∀ accessToken, RefreshedToken events accessToken → accessToken ≠ [] := by
      intro accessToken hrefreshed
      obtain ⟨r, faults, hmem⟩ := hrefreshed
      obtain ⟨client, hcooperates⟩ := henv.exists_of_mem hrun hmem
      exact hcooperates.2.1
    -- without such a 401 both invariants hold along the run
    have hboth : Transparent (RefreshedToken events) last ∧ last.Each Answered := by
      refine run_induction
        (fun client => Transparent (RefreshedToken events) client ∧ client.Each Answered)
        ⟨transparent_createHttpClient tokens, ?_⟩ ?_
        ((henv.and hunlocked).and (along_of_forall_mem fun _ hmem => hmem)) hrun
      · intro r
        simp [createHttpClient, Answered]
      · intro client event client' h hevent hstep
        obtain ⟨⟨hcooperates, hunlocked⟩, hmem⟩ := hevent
        have hreturned : ∀ r accessToken faults, event = .refreshed r accessToken faults →
            RefreshedToken events accessToken := by
          intro r accessToken faults hevent
          exact ⟨r, faults, hevent ▸ hmem⟩
        exact ⟨(step_cases hstep).transparent hcooperates hreturned hnonempty h.1,
          (step_cases hstep).answered hcooperates hunlocked h.1 h.2⟩
    exact ⟨fun r => (hboth.2 r).2, allResent_of_answered hboth.1 hboth.2⟩

/-- Two requests with the same token; the 401 of the second arrives after the refresh. -/
def expiredInTurn : List (Event Nat) :=
  [.issue 0, .issue 1, .send 0 {}, .send 1 {}, .fail 0 unauthorized {},
    .refreshed 0 (js "fresh") {}, .fail 1 unauthorized {}, .refreshed 1 (js "fresh") {},
    .send 0 {}, .send 1 {}]

theorem refreshedToken_expiredInTurn {accessToken : JsString}
    (h : RefreshedToken expiredInTurn accessToken) : accessToken = js "fresh" := by
  obtain ⟨r, faults, hmem⟩ := h
  simp only [expiredInTurn, List.mem_cons, reduceCtorEq, Event.refreshed.injEq, false_or,
    or_false, List.not_mem_nil] at hmem
  exact hmem.elim (fun h => h.2.1) fun h => h.2.1

theorem cooperates_expiredInTurn :
    Along step (createHttpClient true (some ⟨js "stale", none⟩))
      (Cooperates (RefreshedToken expiredInTurn)) expiredInTurn := by
  have hstale : ∀ accessToken, RefreshedToken expiredInTurn accessToken →
      some (bearer (js "stale")) ≠ some (bearer accessToken) := by
    intro accessToken hrefreshed
    rw [refreshedToken_expiredInTurn hrefreshed]
    decide
  refine along_cons ⟨rfl, trivial⟩ rfl ?_
  refine along_cons ⟨rfl, trivial⟩ rfl ?_
  refine along_cons ⟨rfl, trivial⟩ rfl ?_
  refine along_cons ⟨rfl, trivial⟩ rfl ?_
  refine along_cons ⟨rfl, fun _ => hstale⟩ rfl ?_
  refine along_cons ⟨rfl, by decide, fun error session h => ?_⟩ rfl ?_
  · exact Or.inl (Phase.refreshing.inj h).2
  refine along_cons ⟨rfl, fun _ => hstale⟩ rfl ?_
  refine along_cons ⟨rfl, by decide, fun error session h => ?_⟩ rfl ?_
  · exact Or.inl (Phase.refreshing.inj h).2
  refine along_cons ⟨rfl, trivial⟩ rfl ?_
  exact along_cons ⟨rfl, trivial⟩ rfl along_nil

theorem expiry_transparent_iff_expiredInTurn :
    ∃ last, runEvents step (createHttpClient true (some ⟨js "stale", none⟩)) expiredInTurn =
        some last ∧
      ((last.NoneUnauthorized ∧ AllResent (RefreshedToken expiredInTurn) last) ↔
        Along step (createHttpClient true (some ⟨js "stale", none⟩)) ArrivesUnlocked
          expiredInTurn) := by
  obtain ⟨last, hrun⟩ : ∃ last, runEvents step
      (createHttpClient true (some ⟨js "stale", none⟩)) expiredInTurn = some last := ⟨_, rfl⟩
  exact ⟨last, hrun, expiry_transparent_iff cooperates_expiredInTurn hrun⟩

/-- The same, but the 401 of the second request arrives during the refresh. -/
def expiredAtOnce : List (Event Nat) :=
  [.issue 0, .issue 1, .send 0 {}, .send 1 {}, .fail 0 unauthorized {}, .fail 1 unauthorized {},
    .refreshed 0 (js "fresh") {}, .send 0 {}]

/-- The second request is rejected with the 401, though the refresh succeeds. -/
theorem concurrent_401_rejected :
    Along step (createHttpClient true (some ⟨js "stale", none⟩))
        (Cooperates (RefreshedToken expiredAtOnce)) expiredAtOnce ∧
      ∃ last, runEvents step (createHttpClient true (some ⟨js "stale", none⟩)) expiredAtOnce =
          some last ∧
        (last.requests 1).phase = .rejected (.middlewareError ⟨js "Unauthorized", 401⟩) := by
  have hstale : ∀ accessToken, RefreshedToken expiredAtOnce accessToken →
      some (bearer (js "stale")) ≠ some (bearer accessToken) := by
    intro accessToken hrefreshed
    obtain ⟨r, faults, hmem⟩ := hrefreshed
    simp only [expiredAtOnce, List.mem_cons, reduceCtorEq, Event.refreshed.injEq, false_or,
      or_false, List.not_mem_nil] at hmem
    rw [hmem.2.1]
    decide
  refine ⟨?_, _, rfl, rfl⟩
  refine along_cons ⟨rfl, trivial⟩ rfl ?_
  refine along_cons ⟨rfl, trivial⟩ rfl ?_
  refine along_cons ⟨rfl, trivial⟩ rfl ?_
  refine along_cons ⟨rfl, trivial⟩ rfl ?_
  refine along_cons ⟨rfl, fun _ => hstale⟩ rfl ?_
  refine along_cons ⟨rfl, fun _ => hstale⟩ rfl ?_
  refine along_cons ⟨rfl, by decide, fun error session h => ?_⟩ rfl ?_
  · exact Or.inl (Phase.refreshing.inj h).2
  exact along_cons ⟨rfl, trivial⟩ rfl along_nil

end HttpClient

end Client
end NocoMiddleware
