import NocoMiddleware.Client.SessionFrame

/-!
# Under which session a request is sent again

The interceptor takes the session it refreshes from the storage when the 401 arrives, not
when the request went out, and the request interceptor takes the token of a re-send from
the storage once more.  A request keeps to its account in the runs in which the refresh
starts from a session of the account of the request, and in which the stored tokens do not
change between the refresh and the re-send.
-/

namespace NocoMiddleware
namespace Client

open Js Foundation

namespace HttpClient

section

variable {ι : Type*} [DecidableEq ι] {α : Type*} (account : JsString → α)

/-! ## The property -/

/-- The headers with which a request went out, in order. -/
def headers (trace : List (Effect ι)) (r : ι) : List (Option JsString) :=
  trace.filterMap fun
    | .sent r' authorization => if r' = r then some authorization else none
    | _ => none

/-- A token that the refresh of a session returned, of the account of the session. -/
def Obtained (trace : List (Effect ι)) (accessToken : JsString) : Prop :=
  ∃ r session, .refreshStarted r (some session) ∈ trace ∧ .refreshed r accessToken ∈ trace ∧
    account session.accessToken = account accessToken

/-- A re-send carries a token that was obtained by refreshing a session of the account
under which the request went out first. -/
def Replayed (trace : List (Effect ι)) (original again : Option JsString) : Prop :=
  ∃ sentUnder accessToken, original = some (bearer sentUnder) ∧
    again = some (bearer accessToken) ∧ account accessToken = account sentUnder ∧
    Obtained account trace accessToken

def NeverCrosses (trace : List (Effect ι)) : Prop :=
  ∀ r original again rest, headers trace r = original :: again :: rest →
    Replayed account trace original again

/-! ## The environment and the condition -/

/-- `onRefresh` returns a token of the account whose session was stored at its start. -/
def RefreshesAccount (client : HttpClient ι) (event : Event ι) : Prop :=
  ∀ r accessToken faults error session, event = .refreshed r accessToken faults →
    (client.requests r).phase = .refreshing error (some session) →
    accessToken ≠ [] ∧ account session.accessToken = account accessToken

/-- A refresh that leads to a re-send started from a session of the account whose token the
request carries; while a re-send is queued, the stored access token stays. -/
def KeepsAccount (client : HttpClient ι) (event : Event ι) : Prop :=
  match event with
  | .refreshed r accessToken _ => ∀ error session tokens,
      (client.requests r).phase = .refreshing error session → client.storage = some tokens →
      some tokens = session ∨ tokens.accessToken = accessToken →
      ∃ started sentUnder, session = some started ∧
        (client.requests r).authorization = some (bearer sentUnder) ∧
        account started.accessToken = account sentUnder
  | .setTokens tokens => ∀ r, (client.requests r).phase = .queued →
      (client.requests r).retry = true →
      client.storage.map TokenPair.accessToken = some tokens.accessToken
  | .clearTokens | .refreshFailed _ _ =>
      ∀ r, (client.requests r).phase = .queued → (client.requests r).retry = false
  | _ => True

/-! ## What the trace says about a request -/

/-- The headers a request went out with, by its phase.  What is stored while a re-send is
queued was obtained for the account of the request. -/
def Replaying (storage : Option TokenPair) (trace : List (Effect ι)) (r : ι)
    (request : Request) : Prop :=
  match request.phase with
  | .idle => request.retry = false ∧ headers trace r = []
  | .queued =>
      request.retry = false ∧ headers trace r = [] ∨
      ∃ sentUnder accessToken, request.retry = true ∧
        headers trace r = [some (bearer sentUnder)] ∧
        storage.map TokenPair.accessToken = some accessToken ∧ accessToken ≠ [] ∧
        account accessToken = account sentUnder ∧ Obtained account trace accessToken
  | .sent =>
      request.retry = false ∧ headers trace r = [request.authorization] ∨
      ∃ original, request.retry = true ∧ headers trace r = [original, request.authorization] ∧
        Replayed account trace original request.authorization
  | .refreshing _ _ => request.retry = true ∧ headers trace r = [request.authorization]
  | _ => ∀ original again rest, headers trace r = original :: again :: rest →
      Replayed account trace original again

variable {account} {trace told : List (Effect ι)} {r : ι} {request : Request}
  {storage : Option TokenPair} {accessToken : JsString} {original again : Option JsString}

@[simp] theorem headers_append :
    headers (trace ++ told) r = headers trace r ++ headers told r := by
  simp [headers]

@[simp] theorem headers_nil : headers ([] : List (Effect ι)) r = [] := rfl

@[simp] theorem headers_sent {authorization : Option JsString} :
    headers [.sent r authorization] r = [authorization] := by
  simp [headers]

theorem headers_of_other (hother : ∀ effect ∈ told, effect.request ≠ r) :
    headers told r = [] := by
  rw [headers, List.filterMap_eq_nil_iff]
  intro effect hmem
  have hne := hother effect hmem
  cases effect <;> simp_all

omit [DecidableEq ι] in
theorem Obtained.append (h : Obtained account trace accessToken) :
    Obtained account (trace ++ told) accessToken := by
  obtain ⟨r, session, hstarted, hrefreshed, haccount⟩ := h
  exact ⟨r, session, List.mem_append_left told hstarted, List.mem_append_left told hrefreshed,
    haccount⟩

omit [DecidableEq ι] in
theorem Replayed.append (h : Replayed account trace original again) :
    Replayed account (trace ++ told) original again := by
  obtain ⟨sentUnder, accessToken, horiginal, hagain, haccount, hobtained⟩ := h
  exact ⟨sentUnder, accessToken, horiginal, hagain, haccount, hobtained.append⟩

theorem replaying_append (trace told : List (Effect ι)) (r : ι) (request : Request)
    (hother : ∀ effect ∈ told, effect.request ≠ r) (h : Replaying account storage trace r request) :
    Replaying account storage (trace ++ told) r request := by
  have hheaders : headers (trace ++ told) r = headers trace r := by
    rw [headers_append, headers_of_other hother, List.append_nil]
  unfold Replaying at h ⊢
  rw [hheaders]
  cases hphase : request.phase <;> simp only [hphase] at h ⊢
  case idle => exact h
  case queued =>
    refine h.imp_right ?_
    intro h
    obtain ⟨sentUnder, accessToken, hretry, hsent, hstorage, hne, haccount, hobtained⟩ := h
    exact ⟨sentUnder, accessToken, hretry, hsent, hstorage, hne, haccount, hobtained.append⟩
  case sent =>
    refine h.imp_right ?_
    intro h
    obtain ⟨original, hretry, hsent, hreplayed⟩ := h
    exact ⟨original, hretry, hsent, hreplayed.append⟩
  case refreshing => exact h
  all_goals exact fun original again rest hsent => (h original again rest hsent).append

/-- Whatever the phase of a request, a second header is a replay of the first. -/
theorem Replaying.replayed {rest : List (Option JsString)}
    (h : Replaying account storage trace r request)
    (hheaders : headers trace r = original :: again :: rest) :
    Replayed account trace original again := by
  unfold Replaying at h
  rw [hheaders] at h
  cases hphase : request.phase <;> simp only [hphase] at h
  case idle => simp at h
  case queued => simp at h
  case sent =>
    cases h with
    | inl h => simp at h
    | inr h =>
        obtain ⟨original', _, hsent, hreplayed⟩ := h
        simp only [List.cons.injEq] at hsent
        rwa [hsent.1, hsent.2.1]
  case refreshing => simp at h
  all_goals exact h original again rest rfl

theorem replaying_ended {retry : Bool} {authorization : Option JsString} {phase : Phase}
    (h : Replaying account storage trace r request) (htold : headers told r = [])
    (hended : phase = .fulfilled ∨ ∃ reason, phase = .rejected reason) :
    Replaying account storage (trace ++ told) r ⟨retry, authorization, phase⟩ := by
  have hreplayed : ∀ original again rest, headers (trace ++ told) r = original :: again :: rest →
      Replayed account (trace ++ told) original again := by
    intro original again rest hheaders
    rw [headers_append, htold, List.append_nil] at hheaders
    exact (h.replayed hheaders).append
  obtain rfl | ⟨reason, rfl⟩ := hended
  · exact hreplayed
  · exact hreplayed

/-- Other stored tokens do for a request when its account keeps to them. -/
theorem Replaying.store {storage' : Option TokenPair}
    (h : Replaying account storage trace r request)
    (hstore : request.phase = .queued → request.retry = true → ∀ accessToken,
      storage.map TokenPair.accessToken = some accessToken → accessToken ≠ [] →
      Obtained account trace accessToken →
      ∃ accessToken', storage'.map TokenPair.accessToken = some accessToken' ∧
        accessToken' ≠ [] ∧ account accessToken' = account accessToken ∧
        Obtained account trace accessToken') :
    Replaying account storage' trace r request := by
  unfold Replaying at h ⊢
  cases hphase : request.phase <;> simp only [hphase] at h ⊢
  case queued =>
    refine h.imp_right ?_
    intro h
    obtain ⟨sentUnder, accessToken, hretry, hsent, hstorage, hne, haccount, hobtained⟩ := h
    obtain ⟨accessToken', hstorage', hne', haccount', hobtained'⟩ :=
      hstore hphase hretry accessToken hstorage hne hobtained
    exact ⟨sentUnder, accessToken', hretry, hsent, hstorage', hne', haccount'.trans haccount,
      hobtained'⟩
  all_goals exact h

end

/-! ## Steps -/

section

variable {ι : Type*} [DecidableEq ι] {α : Type*} {account : JsString → α}
  {client client' : HttpClient ι} {event : Event ι}

/-- The request interceptor puts the stored token into the header. -/
theorem requestInterceptor_eq {storage : Option TokenPair} {accessToken : JsString}
    (authorization : Option JsString)
    (hstorage : storage.map TokenPair.accessToken = some accessToken) (hne : accessToken ≠ []) :
    requestInterceptor storage authorization = some (bearer accessToken) := by
  obtain ⟨tokens, rfl, rfl⟩ := Option.map_eq_some_iff.mp hstorage
  simp [requestInterceptor, hne]

/-- A request that is sent goes out with the stored token: the first one, or the one that
was obtained for its account. -/
theorem Replaying.sent {storage : Option TokenPair} {trace : List (Effect ι)}
    {r : ι} {request : Request} {authorization : Option JsString}
    (h : Replaying account storage trace r request) (hqueued : request.phase = .queued)
    (hauthorization : authorization = requestInterceptor storage request.authorization) :
    Replaying account storage (trace ++ [.sent r authorization]) r
      { request with authorization := authorization, phase := .sent } := by
  simp only [Replaying, hqueued] at h
  cases h with
  | inl hfirst =>
      left
      simp [hfirst]
  | inr hreplay =>
      right
      obtain ⟨sentUnder, accessToken, hretry, hsent, hstorage, hne, haccount, hobtained⟩ := hreplay
      have hheader : authorization = some (bearer accessToken) := by
        rw [hauthorization, requestInterceptor_eq _ hstorage hne]
      refine ⟨some (bearer sentUnder), hretry, by simp [hsent], ?_⟩
      exact ⟨sentUnder, accessToken, rfl, hheader, haccount, hobtained.append⟩

/-- A request is queued again when the refreshed token is stored, which was obtained for its
account. -/
theorem Replaying.requeued {storage : Option TokenPair} {trace told : List (Effect ι)} {r : ι}
    {request : Request} {error : AxiosError} {session : Option TokenPair} {sentUnder : JsString}
    {tokens : TokenPair} (h : Replaying account storage trace r request)
    (hrefreshing : request.phase = .refreshing error session)
    (hauthorization : request.authorization = some (bearer sentUnder))
    (htold : headers told r = []) (hne : tokens.accessToken ≠ [])
    (haccount : account tokens.accessToken = account sentUnder)
    (hobtained : Obtained account (trace ++ told) tokens.accessToken) :
    Replaying account (some tokens) (trace ++ told) r { request with phase := .queued } := by
  simp only [Replaying, hrefreshing, hauthorization] at h
  refine Or.inr ⟨sentUnder, tokens.accessToken, h.1, ?_, rfl, hne, haccount, hobtained⟩
  rw [headers_append, h.2, htold, List.append_nil]

/-- The refreshed token is stored and its request queued again: the token was obtained for the
account of that request, and of every other request that waits to be sent again. -/
theorem replaying_resend {r : ι} {error : AxiosError} {started tokens : TokenPair}
    {accessToken sentUnder : JsString} (hstarted : client.Each Started)
    (heach : client.Each (Replaying account client.storage))
    (hrefreshing : (client.requests r).phase = .refreshing error (some started))
    (hauthorization : (client.requests r).authorization = some (bearer sentUnder))
    (haccount : account started.accessToken = account sentUnder) (hne : accessToken ≠ [])
    (hreturned : account started.accessToken = account accessToken)
    (hstorage : client.storage = some tokens)
    (hsession : some tokens = some started ∨ tokens.accessToken = accessToken) (r' : ι) :
    Replaying account (some { tokens with accessToken })
      (client.trace ++ ([.refreshed r accessToken] ++
        [.storageSet r (some tokens) { tokens with accessToken }])) r'
      (Function.update client.requests r { client.requests r with phase := .queued } r') := by
  set told : List (Effect ι) := [.refreshed r accessToken] ++
    [.storageSet r (some tokens) { tokens with accessToken }] with htold
  have hobtained : Obtained account (client.trace ++ told) accessToken :=
    ⟨r, started, List.mem_append_left _ (refreshStarted_mem hstarted hrefreshing),
      by simp [htold], hreturned⟩
  by_cases hr' : r' = r
  · rw [hr', Function.update_self]
    exact (heach r).requeued hrefreshing hauthorization rfl hne (hreturned.symm.trans haccount)
      hobtained
  · rw [Function.update_of_ne hr']
    have hother := replaying_append client.trace told r' (client.requests r')
      (by simpa [htold] using fun h => hr' h.symm) (heach r')
    refine hother.store ?_
    -- the token stored so far is the one refreshed now, or was stored by the callback
    intro _ _ stored hstored _ _
    have hsame : account accessToken = account stored := by
      rw [hstorage] at hstored
      obtain rfl := Option.some.inj hstored
      cases hsession with
      | inl hunchanged => rw [Option.some.inj hunchanged, hreturned]
      | inr hcallback => rw [hcallback]
    exact ⟨accessToken, rfl, hne, hsame, hobtained⟩

theorem Step.replaying (h : Step client event client')
    (hrefreshes : RefreshesAccount account client event)
    (hkeeps : KeepsAccount account client event) (hstarted : client.Each Started)
    (heach : client.Each (Replaying account client.storage)) :
    client'.Each (Replaying account client'.storage) := by
  cases h with
  | setTokens tokens =>
      intro r
      refine (heach r).store ?_
      intro hqueued hretry accessToken hstorage hne hobtained
      exact ⟨accessToken, (hkeeps r hqueued hretry).symm.trans hstorage, hne, rfl, hobtained⟩
  | clearTokens =>
      intro r
      refine (heach r).store ?_
      intro hqueued hretry
      simp [hkeeps r hqueued] at hretry
  | @issue r hidle =>
      refine each_of_silent heach rfl rfl ?_
      have hr := heach r
      simp only [Replaying, hidle] at hr
      simpa [Replaying, headers] using Or.inl hr
  | @sendThrows r faults message hqueued hget =>
      exact each_of_update replaying_append heach rfl (List.append_nil _).symm (by simp)
        (replaying_ended (heach r) rfl (.inr ⟨_, rfl⟩))
  | @send r faults authorization hqueued hget hauthorization =>
      refine each_of_update replaying_append heach rfl rfl (by simp) ?_
      exact (heach r).sent hqueued hauthorization
  | @respond r hsent =>
      exact each_of_update replaying_append heach rfl (List.append_nil _).symm (by simp)
        (replaying_ended (heach r) rfl (.inl rfl))
  | @refreshStarts r error faults hsent hmay hget =>
      refine each_of_update replaying_append heach rfl (List.append_assoc _ _ _) (by simp) ?_
      have hr := heach r
      have hretry := (mayRefresh_iff.mp hmay).2.1
      simp only [Replaying, hsent, hretry] at hr
      simpa [Replaying, headers] using hr
  | @setThrows r error session accessToken faults message tokens hrefreshing hget hset =>
      exact each_of_update replaying_append heach rfl (List.append_assoc _ _ _) (by simp)
        (replaying_ended (heach r) rfl (.inr ⟨_, rfl⟩))
  | @resend r error session accessToken faults tokens hrefreshing hget hset hstorage hsession =>
      obtain ⟨started, sentUnder, rfl, hauthorization, haccount⟩ :=
        hkeeps error session tokens hrefreshing hstorage hsession
      obtain ⟨hne, hreturned⟩ := hrefreshes r accessToken faults error started rfl hrefreshing
      intro r'
      have hr' := replaying_resend hstarted heach hrefreshing hauthorization haccount hne hreturned
        hstorage hsession r'
      rw [← List.append_assoc] at hr'
      exact hr'
  | @abandon r error session faults hrefreshing hclear =>
      have hcleared : client.Each (Replaying account none) := by
        intro r'
        refine (heach r').store ?_
        intro hqueued hretry
        simp [hkeeps r' hqueued] at hretry
      exact each_of_update replaying_append hcleared rfl rfl (by simp)
        (replaying_ended (hcleared r) rfl (.inr ⟨_, rfl⟩))
  | _ =>
      exact each_of_update replaying_append heach rfl rfl (by simp)
        (replaying_ended (heach _) rfl (.inr ⟨_, rfl⟩))

/-! ## Every run -/

theorem replaying_createHttpClient (hasRefresh : Bool) (storage : Option TokenPair) :
    (createHttpClient hasRefresh storage : HttpClient ι).Each (Replaying account storage) := by
  intro r
  show false = false ∧ [] = []
  exact ⟨rfl, rfl⟩

/-- No request crosses accounts in a run that keeps the account of each refresh and the
stored token of each re-send. -/
theorem never_crosses_sessions {hasRefresh : Bool} {storage : Option TokenPair}
    {events : List (Event ι)} {last : HttpClient ι}
    (hrefreshes : Along step (createHttpClient hasRefresh storage) (RefreshesAccount account)
      events)
    (hkeeps : Along step (createHttpClient hasRefresh storage) (KeepsAccount account) events)
    (hrun : runEvents step (createHttpClient hasRefresh storage) events = some last) :
    NeverCrosses account last.trace := by
  have hboth : last.Each Started ∧ last.Each (Replaying account last.storage) :=
    run_induction
      (fun client => client.Each Started ∧ client.Each (Replaying account client.storage))
      ⟨started_createHttpClient hasRefresh storage, replaying_createHttpClient hasRefresh storage⟩
      (fun _ _ _ h hevent hstep => ⟨(step_cases hstep).started h.1,
        (step_cases hstep).replaying hevent.1 hevent.2 h.1 h.2⟩) (hrefreshes.and hkeeps) hrun
  intro r original again rest hheaders
  exact (hboth.2 r).replayed hheaders

end

/-- In the runs below a token is the name of its account, a hyphen and a number. -/
def accountOf (accessToken : JsString) : JsString := accessToken.takeWhile (· ∉ js "-")

/-- A request of one account, sent again after its refresh. -/
def replayedRun : List (Event Nat) :=
  [.issue 0, .send 0 {}, .fail 0 unauthorized {}, .refreshed 0 (js "alice-2") {}, .send 0 {}]

theorem never_crosses_sessions_replayedRun :
    ∃ last, runEvents step (createHttpClient true (some ⟨js "alice-1", none⟩)) replayedRun =
        some last ∧ NeverCrosses accountOf last.trace := by
  have hrefreshes : Along step (createHttpClient true (some ⟨js "alice-1", none⟩))
      (RefreshesAccount accountOf) replayedRun := by
    refine along_cons nofun rfl (along_cons nofun rfl (along_cons nofun rfl ?_))
    refine along_cons ?_ rfl (along_cons nofun rfl along_nil)
    intro r accessToken faults error session hevent hrefreshing
    cases hevent
    obtain rfl := Option.some.inj (Phase.refreshing.inj hrefreshing).2
    exact ⟨by decide, by decide⟩
  have hkeeps : Along step (createHttpClient true (some ⟨js "alice-1", none⟩))
      (KeepsAccount accountOf) replayedRun := by
    refine along_cons trivial rfl (along_cons trivial rfl (along_cons trivial rfl ?_))
    refine along_cons ?_ rfl (along_cons trivial rfl along_nil)
    intro error session tokens hrefreshing _ _
    obtain rfl := (Phase.refreshing.inj hrefreshing).2
    exact ⟨_, js "alice-1", rfl, rfl, rfl⟩
  obtain ⟨last, hrun⟩ : ∃ last, runEvents step
      (createHttpClient true (some ⟨js "alice-1", none⟩)) replayedRun = some last := ⟨_, rfl⟩
  exact ⟨last, hrun, never_crosses_sessions hrefreshes hkeeps hrun⟩

/-- The user signs in as another before the 401 arrives. -/
def signInBefore401 : List (Event Nat) :=
  [.issue 0, .send 0 {}, .setTokens ⟨js "bob-1", none⟩, .fail 0 unauthorized {},
    .refreshed 0 (js "bob-2") {}, .send 0 {}]

/-- The request of the first account is sent again with a token of the second. -/
theorem replayed_under_other_account :
    Along step (createHttpClient true (some ⟨js "alice-1", none⟩)) (RefreshesAccount accountOf)
        signInBefore401 ∧
      ∃ last, runEvents step (createHttpClient true (some ⟨js "alice-1", none⟩))
          signInBefore401 = some last ∧
        headers last.trace 0 = [some (bearer (js "alice-1")), some (bearer (js "bob-2"))] ∧
        ¬ NeverCrosses accountOf last.trace := by
  refine ⟨?_, _, rfl, rfl, ?_⟩
  · refine along_cons nofun rfl (along_cons nofun rfl (along_cons nofun rfl ?_))
    refine along_cons nofun rfl (along_cons ?_ rfl (along_cons nofun rfl along_nil))
    intro r accessToken faults error session hevent hrefreshing
    cases hevent
    obtain rfl := Option.some.inj (Phase.refreshing.inj hrefreshing).2
    exact ⟨by decide, by decide⟩
  · intro h
    obtain ⟨sentUnder, accessToken, hsent, hagain, haccount, _⟩ :=
      h 0 (some (bearer (js "alice-1"))) (some (bearer (js "bob-2"))) [] rfl
    rw [← bearer_injective (Option.some.inj hsent),
      ← bearer_injective (Option.some.inj hagain)] at haccount
    revert haccount
    decide

end HttpClient

end Client
end NocoMiddleware
