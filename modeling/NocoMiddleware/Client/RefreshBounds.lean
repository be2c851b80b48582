import NocoMiddleware.Client.HttpClient

/-!
# No refresh loop

How often a request goes out and refreshes follows from its retry flag and its phase: the
two counts are read off the trace and compared with the flag after each step.  The flag
`isRefreshing` admits one refresh at a time, whoever completes it.
-/

namespace NocoMiddleware
namespace Client

open Js Foundation

namespace Effect

variable {ι : Type*} [DecidableEq ι] {r : ι} {effect : Effect ι}

@[simp] def isSend (r : ι) : Effect ι → Bool
  | .sent r' _ => r' = r
  | _ => false

@[simp] def isRefresh (r : ι) : Effect ι → Bool
  | .refreshStarted r' _ => r' = r
  | _ => false

theorem isSend_of_ne (h : effect.request ≠ r) : effect.isSend r = false := by
  cases effect <;> simp_all

theorem isRefresh_of_ne (h : effect.request ≠ r) : effect.isRefresh r = false := by
  cases effect <;> simp_all

end Effect

namespace HttpClient

variable {ι : Type*} [DecidableEq ι] {client client' : HttpClient ι} {event : Event ι}

/-! ## Sends and refreshes of a request -/

/-- How often the request went out. -/
def sends (client : HttpClient ι) (r : ι) : Nat := client.trace.countP (Effect.isSend r)

/-- How many calls of `onRefresh` the request triggered. -/
def refreshes (client : HttpClient ι) (r : ι) : Nat := client.trace.countP (Effect.isRefresh r)

/-- What the retry flag and the phase of a request say about the two counts. -/
def Counted (trace : List (Effect ι)) (r : ι) (request : Request) : Prop :=
  let sends := trace.countP (Effect.isSend r)
  let refreshes := trace.countP (Effect.isRefresh r)
  match request.phase with
  | .idle => request.retry = false ∧ sends = 0 ∧ refreshes = 0
  | .queued => sends = request.retry.toNat ∧ refreshes = request.retry.toNat
  | .sent => sends = request.retry.toNat + 1 ∧ refreshes = request.retry.toNat
  | .refreshing _ _ => request.retry = true ∧ sends = 1 ∧ refreshes = 1
  | .fulfilled | .rejected _ => sends ≤ 2 ∧ refreshes ≤ 1

theorem Counted.bounds {trace : List (Effect ι)} {r : ι} {request : Request}
    (h : Counted trace r request) :
    trace.countP (Effect.isSend r) ≤ 2 ∧ trace.countP (Effect.isRefresh r) ≤ 1 := by
  have hretry : request.retry.toNat ≤ 1 := Bool.toNat_le request.retry
  unfold Counted at h
  split at h <;> omega

theorem counted_createHttpClient (hasRefresh : Bool) (storage : Option TokenPair) :
    (createHttpClient hasRefresh storage : HttpClient ι).Each Counted := by
  intro r
  show false = false ∧ 0 = 0 ∧ 0 = 0
  exact ⟨rfl, rfl, rfl⟩

omit [DecidableEq ι] in
theorem countP_append_of_quiet {trace told : List (Effect ι)} {counted : Effect ι → Bool}
    (htold : ∀ effect ∈ told, counted effect = false) :
    (trace ++ told).countP counted = trace.countP counted := by
  have hnone : told.countP counted = 0 :=
    List.countP_eq_zero.mpr fun effect hmem => by simp [htold effect hmem]
  rw [List.countP_append, hnone, Nat.add_zero]

theorem counted_append (trace told : List (Effect ι)) (r : ι) (request : Request)
    (hother : ∀ effect ∈ told, effect.request ≠ r) (h : Counted trace r request) :
    Counted (trace ++ told) r request := by
  have hsends : (trace ++ told).countP (Effect.isSend r) = trace.countP (Effect.isSend r) :=
    countP_append_of_quiet fun effect hmem => Effect.isSend_of_ne (hother effect hmem)
  have hrefreshes :
      (trace ++ told).countP (Effect.isRefresh r) = trace.countP (Effect.isRefresh r) :=
    countP_append_of_quiet fun effect hmem => Effect.isRefresh_of_ne (hother effect hmem)
  unfold Counted at h ⊢
  rwa [hsends, hrefreshes]

/-- A request that ends keeps its counts. -/
theorem counted_of_reject {trace told : List (Effect ι)} {r : ι} {request : Request}
    {retry : Bool} {authorization : Option JsString} {reason : Rejection}
    (h : Counted trace r request)
    (htold : ∀ effect ∈ told, effect.isSend r = false ∧ effect.isRefresh r = false) :
    Counted (trace ++ told) r ⟨retry, authorization, .rejected reason⟩ := by
  show _ ≤ 2 ∧ _ ≤ 1
  rw [countP_append_of_quiet fun effect hmem => (htold effect hmem).1,
    countP_append_of_quiet fun effect hmem => (htold effect hmem).2]
  exact h.bounds

theorem Step.counted (h : Step client event client') (hcounted : client.Each Counted) :
    client'.Each Counted := by
  cases h with
  | setTokens tokens => exact hcounted
  | clearTokens => exact hcounted
  | @issue r hidle =>
      refine each_of_silent hcounted rfl rfl ?_
      have hr := hcounted r
      simp only [Counted, hidle] at hr
      simpa [Counted, hr.1] using hr.2
  | @sendThrows r faults message hqueued hget =>
      refine each_of_silent hcounted rfl rfl ?_
      show _ ≤ 2 ∧ _ ≤ 1
      exact (hcounted r).bounds
  | @send r faults authorization hqueued hget hauthorization =>
      refine each_of_update counted_append hcounted rfl rfl (by simp) ?_
      have hr := hcounted r
      simp only [Counted, hqueued] at hr
      simpa [Counted, List.countP_append] using hr
  | @respond r hsent =>
      refine each_of_silent hcounted rfl rfl ?_
      simpa [Counted] using (hcounted r).bounds
  | @refreshStarts r error faults hsent hmay hget =>
      -- the flag was off, so this is the first refresh, after the first send
      have hretry := (mayRefresh_iff.mp hmay).2.1
      refine each_of_update counted_append hcounted rfl (List.append_assoc _ _ _) (by simp) ?_
      have hr := hcounted r
      simp only [Counted, hsent, hretry] at hr
      simpa [Counted, List.countP_append] using hr
  | @setThrows r error session accessToken faults message tokens hrefreshing hget hset =>
      exact each_of_update counted_append hcounted rfl (List.append_assoc _ _ _) (by simp)
        (counted_of_reject (hcounted r) (by simp))
  | @resend r error session accessToken faults tokens hrefreshing hget hset =>
      refine each_of_update counted_append hcounted rfl (List.append_assoc _ _ _) (by simp) ?_
      have hr := hcounted r
      simp only [Counted, hrefreshing] at hr
      simpa [Counted, hr.1, List.countP_append] using hr.2
  | _ =>
      exact each_of_update counted_append hcounted rfl rfl (by simp)
        (counted_of_reject (hcounted _) (by simp))

/-! ## One refresh at a time -/

/-- A pending refresh holds the flag, and is the only one. -/
def SingleRefresh (client : HttpClient ι) : Prop :=
  ∀ r, client.Pending r → client.isRefreshing = true ∧ ∀ r', client.Pending r' → r' = r

omit [DecidableEq ι] in
theorem not_pending_of_not_isRefreshing (hsingle : client.SingleRefresh)
    (h : client.isRefreshing = false) (r : ι) : ¬ client.Pending r := by
  intro hpending
  have htrue := (hsingle r hpending).1
  simp [h] at htrue

omit [DecidableEq ι] in
theorem singleRefresh_createHttpClient (hasRefresh : Bool) (storage : Option TokenPair) :
    (createHttpClient hasRefresh storage : HttpClient ι).SingleRefresh := by
  intro r hpending
  obtain ⟨error, session, hphase⟩ := hpending
  cases hphase

theorem pending_of_update {r r' : ι} {request : Request}
    (hrequests : client'.requests = Function.update client.requests r request)
    (hpending : client'.Pending r') : r' = r ∨ r' ≠ r ∧ client.Pending r' := by
  by_cases hr' : r' = r
  · exact Or.inl hr'
  · obtain ⟨error, session, hphase⟩ := hpending
    rw [hrequests, Function.update_of_ne hr'] at hphase
    exact Or.inr ⟨hr', error, session, hphase⟩

/-- A step that starts no refresh leaves the flag to a refresh that stays pending. -/
theorem singleRefresh_of_update {r : ι} {request : Request} (hsingle : client.SingleRefresh)
    (hrequests : client'.requests = Function.update client.requests r request)
    (hnot : ∀ error session, request.phase ≠ .refreshing error session)
    (hflag : client.Pending r ∨ (client.isRefreshing = true → client'.isRefreshing = true)) :
    client'.SingleRefresh := by
  have hbefore : ∀ r', client'.Pending r' → r' ≠ r ∧ client.Pending r' := by
    intro r' hpending
    cases pending_of_update hrequests hpending with
    | inl hr' =>
        obtain ⟨error, session, hphase⟩ := hpending
        rw [hrequests, hr', Function.update_self] at hphase
        exact absurd hphase (hnot error session)
    | inr hbefore => exact hbefore
  intro r' hpending
  obtain ⟨hne, hpending⟩ := hbefore r' hpending
  obtain ⟨hisRefreshing, honly⟩ := hsingle r' hpending
  constructor
  · cases hflag with
    | inl hr => exact absurd (honly r hr).symm hne
    | inr hkeeps => exact hkeeps hisRefreshing
  · intro other hother
    exact honly other (hbefore other hother).2

theorem Step.singleRefresh (h : Step client event client') (hsingle : client.SingleRefresh) :
    client'.SingleRefresh := by
  cases h with
  | setTokens tokens => exact hsingle
  | clearTokens => exact hsingle
  | issue hidle => exact singleRefresh_of_update hsingle rfl (by simp) (.inr id)
  | sendThrows hqueued hget => exact singleRefresh_of_update hsingle rfl (by simp) (.inr id)
  | send hqueued hget hauthorization =>
      exact singleRefresh_of_update hsingle rfl (by simp) (.inr id)
  | respond hsent => exact singleRefresh_of_update hsingle rfl (by simp) (.inr id)
  | failRejects hsent hmay => exact singleRefresh_of_update hsingle rfl (by simp) (.inr id)
  | startThrows hsent hmay hget =>
      exact singleRefresh_of_update hsingle rfl (by simp) (.inr fun _ => rfl)
  | @refreshStarts r error faults hsent hmay hget =>
      -- the flag was free, so no refresh was pending
      have hnone := not_pending_of_not_isRefreshing hsingle (mayRefresh_iff.mp hmay).2.2.1
      intro r' hpending
      refine ⟨rfl, fun other hother => ?_⟩
      rw [(pending_of_update rfl hother).resolve_right fun h => hnone other h.2,
        (pending_of_update rfl hpending).resolve_right fun h => hnone r' h.2]
  | refreshedThrows hrefreshing hget =>
      exact singleRefresh_of_update hsingle rfl (by simp) (.inl ⟨_, _, hrefreshing⟩)
  | sessionChanged hrefreshing hget hchanged hnotStored =>
      exact singleRefresh_of_update hsingle rfl (by simp) (.inl ⟨_, _, hrefreshing⟩)
  | setThrows hrefreshing hget hset hstorage hsession =>
      exact singleRefresh_of_update hsingle rfl (by simp) (.inl ⟨_, _, hrefreshing⟩)
  | resend hrefreshing hget hset hstorage hsession =>
      exact singleRefresh_of_update hsingle rfl (by simp) (.inl ⟨_, _, hrefreshing⟩)
  | clearThrows hrefreshing hclear =>
      exact singleRefresh_of_update hsingle rfl (by simp) (.inl ⟨_, _, hrefreshing⟩)
  | abandon hrefreshing hclear =>
      exact singleRefresh_of_update hsingle rfl (by simp) (.inl ⟨_, _, hrefreshing⟩)

/-! ## What callers see -/

/-- A rejection is a `MiddlewareError`, unless the text of an error that came for the request
cannot be converted; a request that waits for a refresh has been told of its error. -/
def Explained (trace : List (Effect ι)) (r : ι) (request : Request) : Prop :=
  match request.phase with
  | .refreshing error _ => .failed r error ∈ trace
  | .rejected reason =>
      (∃ error, reason = .middlewareError error) ∨
        reason = .typeError ∧ ∃ error, .failed r error ∈ trace ∧ error.text.toText = none
  | _ => True

omit [DecidableEq ι] in
theorem explained_createHttpClient (hasRefresh : Bool) (storage : Option TokenPair) :
    (createHttpClient hasRefresh storage : HttpClient ι).Each Explained := by
  intro r
  show True
  trivial

omit [DecidableEq ι] in
theorem explained_append (trace told : List (Effect ι)) (r : ι) (request : Request)
    (_ : ∀ effect ∈ told, effect.request ≠ r) (h : Explained trace r request) :
    Explained (trace ++ told) r request := by
  cases hphase : request.phase with
  | refreshing error session =>
      simp only [Explained, hphase] at h ⊢
      exact List.mem_append_left told h
  | rejected reason =>
      simp only [Explained, hphase] at h ⊢
      refine h.imp_right fun h => ⟨h.1, ?_⟩
      obtain ⟨error, hmem, htext⟩ := h.2
      exact ⟨error, List.mem_append_left told hmem, htext⟩
  | _ => simp only [Explained, hphase]

omit [DecidableEq ι] in
theorem explained_reject {trace : List (Effect ι)} {r : ι} {error : AxiosError} {retry : Bool}
    {authorization : Option JsString} (hfailed : .failed r error ∈ trace) :
    Explained trace r ⟨retry, authorization, .rejected (throwNormalised (.axiosError error))⟩ := by
  cases throwNormalised_axiosError error with
  | inl h =>
      obtain ⟨message, hmessage⟩ := h
      exact Or.inl ⟨_, hmessage⟩
  | inr h => exact Or.inr ⟨h.1, error, hfailed, h.2⟩

omit [DecidableEq ι] in
theorem failed_mem (h : client.Each Explained) {r : ι} {error : AxiosError}
    {session : Option TokenPair}
    (hrefreshing : (client.requests r).phase = .refreshing error session) :
    .failed r error ∈ client.trace := by
  have hr := h r
  simpa only [Explained, hrefreshing] using hr

theorem Step.explained (h : Step client event client') (hfaultless : event.Faultless)
    (hexplained : client.Each Explained) : client'.Each Explained := by
  cases h with
  | setTokens tokens => exact hexplained
  | clearTokens => exact hexplained
  | issue hidle =>
      exact each_of_silent hexplained rfl rfl trivial
  | sendThrows hqueued hget => cases hfaultless.get.symm.trans hget
  | send hqueued hget hauthorization =>
      exact each_of_update explained_append hexplained rfl rfl (by simp) trivial
  | respond hsent =>
      exact each_of_silent hexplained rfl rfl trivial
  | failRejects hsent hmay =>
      exact each_of_update explained_append hexplained rfl rfl (by simp)
        (explained_reject (by simp))
  | startThrows hsent hmay hget => cases hfaultless.get.symm.trans hget
  | @refreshStarts r error faults hsent hmay hget =>
      refine each_of_update explained_append hexplained rfl (List.append_assoc _ _ _) (by simp) ?_
      show .failed r error ∈ client.trace ++ _
      simp
  | refreshedThrows hrefreshing hget => cases hfaultless.get.symm.trans hget
  | sessionChanged hrefreshing hget hchanged hnotStored =>
      have hfailed := failed_mem hexplained hrefreshing
      exact each_of_update explained_append hexplained rfl rfl (by simp)
        (explained_reject (List.mem_append_left _ hfailed))
  | setThrows hrefreshing hget hset hstorage hsession =>
      cases hfaultless.set.symm.trans hset
  | resend hrefreshing hget hset hstorage hsession =>
      exact each_of_update explained_append hexplained rfl (List.append_assoc _ _ _) (by simp)
        trivial
  | clearThrows hrefreshing hclear => cases hfaultless.clear.symm.trans hclear
  | abandon hrefreshing hclear =>
      have hfailed := failed_mem hexplained hrefreshing
      exact each_of_update explained_append hexplained rfl rfl (by simp)
        (explained_reject (List.mem_append_left _ hfailed))

/-! ## Every run -/

theorem singleRefresh_of_run {hasRefresh : Bool} {storage : Option TokenPair}
    {events : List (Event ι)} {last : HttpClient ι}
    (hrun : runEvents step (createHttpClient hasRefresh storage) events = some last) :
    last.SingleRefresh :=
  run_keeps SingleRefresh (fun _ _ _ h hstep => (step_cases hstep).singleRefresh h)
    (singleRefresh_createHttpClient hasRefresh storage) hrun

/-- However the server, `onRefresh` and the application behave, a request goes out at most
twice and refreshes at most once, one refresh is pending at a time, and a caller sees a
`MiddlewareError`, or the type error of an error text that cannot be converted. -/
theorem no_refresh_loop {hasRefresh : Bool} {storage : Option TokenPair}
    {events : List (Event ι)} {last : HttpClient ι}
    (hfaultless : ∀ event ∈ events, event.Faultless)
    (hrun : runEvents step (createHttpClient hasRefresh storage) events = some last) :
    (∀ r, last.sends r ≤ 2 ∧ last.refreshes r ≤ 1) ∧
      (∀ r r', last.Pending r → last.Pending r' → r = r') ∧
      ∀ r reason, (last.requests r).phase = .rejected reason →
        (∃ error, reason = .middlewareError error) ∨
          reason = .typeError ∧
            ∃ error, .failed r error ∈ last.trace ∧ error.text.toText = none := by
  have hcounted : last.Each Counted :=
    run_keeps (Each Counted) (fun _ _ _ h hstep => (step_cases hstep).counted h)
      (counted_createHttpClient hasRefresh storage) hrun
  have hsingle := singleRefresh_of_run hrun
  have hexplained : last.Each Explained :=
    run_induction (Each Explained) (explained_createHttpClient hasRefresh storage)
      (fun _ _ _ h hevent hstep => (step_cases hstep).explained hevent h)
      (along_of_forall_mem hfaultless) hrun
  refine ⟨fun r => (hcounted r).bounds, fun r r' hr hr' => (hsingle r' hr').2 r hr, ?_⟩
  intro r reason hrejected
  have hr := hexplained r
  simpa only [Explained, hrejected] using hr

/-- A request that is refused again after its refresh. -/
def refusedTwice : List (Event Nat) :=
  [.issue 0, .send 0 {}, .fail 0 unauthorized {}, .refreshed 0 (js "fresh") {}, .send 0 {},
    .fail 0 unauthorized {}]

theorem no_refresh_loop_refusedTwice :
    ∃ last, runEvents step (createHttpClient true (some ⟨js "stale", none⟩)) refusedTwice =
        some last ∧ last.sends 0 ≤ 2 ∧ last.refreshes 0 ≤ 1 := by
  have hfaultless : ∀ event ∈ refusedTwice, event.Faultless := by decide
  obtain ⟨last, hrun⟩ : ∃ last,
      runEvents step (createHttpClient true (some ⟨js "stale", none⟩)) refusedTwice = some last :=
    ⟨_, rfl⟩
  exact ⟨last, hrun, (no_refresh_loop hfaultless hrun).1 0⟩

/-- A response whose message hides `toString` ends in a type error. -/
theorem rejection_not_middlewareError :
    ¬ ∀ (events : List (Event Nat)) (last : HttpClient Nat),
      (∀ event ∈ events, event.Faultless) →
        runEvents step (createHttpClient false none) events = some last →
        ∀ r reason, (last.requests r).phase = .rejected reason →
          ∃ error, reason = .middlewareError error := by
  intro h
  have hmessage := h
    [.issue 0, .send 0 {}, .fail 0 ⟨some ⟨500, some (.object [(js "message",
      .object [(js "toString", .null)])])⟩, some (js "Request failed")⟩ {}]
    _ (by decide) rfl 0 .typeError rfl
  simp at hmessage

end HttpClient

end Client
end NocoMiddleware
