import NocoMiddleware.Concurrency.Threads
import NocoMiddleware.Http.QuietPrograms
import NocoMiddleware.Http.ServerRuns

/-!
# Requests that are served concurrently

Any number of requests are served at once, and their steps come in any order.  Who a request is
made by is read off its own events, and what it may do off the policy of the start: while no
request may change the policy by that, no interleaving changes it, and records are changed only
by requests that may write to their table.  A full listing is one step, as it is with one page.
-/

namespace NocoMiddleware
namespace Http

open NocoMiddleware.Js NocoMiddleware.Tables NocoMiddleware.Store NocoMiddleware.Permissions
open NocoMiddleware.Auth NocoMiddleware.Users NocoMiddleware.Foundation NocoMiddleware.Data
open NocoMiddleware.Runs NocoMiddleware.Concurrency

/-! ## Requests as threads -/

/-- The events of requests. -/
abbrev RequestEvent (ι : Type) := Event ι (Op ⊕ PageOp) (Sum.elim Res PageRes) Exception

/-- What a table lookup of `DataService` finds: the answers for the fields of a table, the times
before and after it and the cache of tables, which requests share. -/
structure TableView where
  getTableMetadata : JsString → Except Exception (List NocoFieldMeta)
  now : Nat
  later : Nat
  tables : TableCache

/-- A request as a program, which returns if the request is answered with a result. -/
def Request.program (config : Config) (upstream : Upstream) (view : TableView) :
    Request → Paging Unit
  | .ofRoute token route => do
      let _ ← serve config token route
      return ()
  | .ofData token table route => do
      let (answer, _) ← serveData config upstream.stored upstream.rejects token table route
        view.getTableMetadata view.now view.later view.tables
      Program.ofExcept (answer.map fun _ => ())

section

variable {ι : Type}

/-- `JwtAuthGuard` has let the user in, by the first of the events. -/
def AuthenticatedBy (config : Config) (token : Option TokenPayload)
    (events : List (RequestEvent ι)) (user : AuthenticatedUser) : Prop :=
  ∃ own rest, events = own ++ rest ∧
    ((authenticate config false token).lift : Paging _).Replays own (.ok (some user))

/-- The request may be made: `first` admits its user, or it has the token for administrators. -/
def Route.EntitledBy (config : Config) (first : World) (token : Option TokenPayload)
    (events : List (RequestEvent ι)) : Route → Prop
  | .bootstrapAdmin _ bootstrapToken =>
      assertBootstrapAllowed config.bootstrapToken bootstrapToken = .ok ()
  | route => ∃ user, AuthenticatedBy config token events user ∧ route.Admits config first user

namespace Request

/-- The request may be made, by the policy of `first`. -/
def EntitledBy (config : Config) (first : World) (events : List (RequestEvent ι)) : Request → Prop
  | .ofRoute token route => route.EntitledBy config first token events
  | .ofData token table route => ∃ user, AuthenticatedBy config token events user ∧
      AdmitsData config first table route.action user

/-- The request writes to the records of a table, and may by the policy of `first`. -/
def MayWriteBy (config : Config) (first : World) (events : List (RequestEvent ι)) (id : JsString) :
    Request → Prop
  | .ofRoute _ _ => False
  | .ofData token table route => route.action ≠ .read ∧
      (Request.ofData token table route).EntitledBy config first events ∧
      ResolvesTo config.tablePrefix first.tables table id

/-- The request writes to the policy, and may by the policy of `first`; one of the data API, by a
name that resolves to a table of the policy. -/
def MayChangePolicyBy (config : Config) (first : World) (events : List (RequestEvent ι)) :
    Request → Prop
  | .ofRoute token route =>
      route.changesPolicy = true ∧ (Request.ofRoute token route).EntitledBy config first events
  | .ofData token table route =>
      ∃ id, (Request.ofData token table route).MayWriteBy config first events id ∧
        IsPolicyTable config.tablePrefix first.tables id

end Request

/-- What a request may do after its events. -/
def MayPerform (config : Config) (first : World) (request : Request)
    (events : List (RequestEvent ι)) (op : Op ⊕ PageOp) : Prop :=
  request.MayChangePolicyBy config first events ∨
    Quiet config.tablePrefix first (fun id => IsUsersTable config.tablePrefix first.tables id ∨
      request.MayWriteBy config first events id) op

/-! ## What a request may do -/

variable {config : Config} {first : World} {events more : List (RequestEvent ι)}

theorem AuthenticatedBy.append {token : Option TokenPayload} {user : AuthenticatedUser}
    (h : AuthenticatedBy config token events user) :
    AuthenticatedBy config token (events ++ more) user := by
  obtain ⟨own, rest, rfl, hreplays⟩ := h
  exact ⟨own, rest ++ more, List.append_assoc _ _ _, hreplays⟩

theorem Request.EntitledBy.append {request : Request}
    (h : request.EntitledBy config first events) :
    request.EntitledBy config first (events ++ more) := by
  cases request with
  | ofRoute token route =>
      cases route with
      | bootstrapAdmin dto bootstrapToken => exact h
      | _ =>
          obtain ⟨user, huser, hadmits⟩ := h
          exact ⟨user, huser.append, hadmits⟩
  | ofData token table route =>
      obtain ⟨user, huser, hadmits⟩ := h
      exact ⟨user, huser.append, hadmits⟩

theorem Request.MayWriteBy.append {request : Request} {id : JsString}
    (h : request.MayWriteBy config first events id) :
    request.MayWriteBy config first (events ++ more) id := by
  cases request with
  | ofRoute token route => exact h.elim
  | ofData token table route =>
      obtain ⟨haction, hentitled, hresolves⟩ := h
      exact ⟨haction, hentitled.append, hresolves⟩

/-- Later events take nothing away from a request. -/
theorem MayPerform.append {request : Request} {op : Op ⊕ PageOp}
    (h : MayPerform config first request events op) :
    MayPerform config first request (events ++ more) op := by
  cases request with
  | ofRoute token route =>
      rcases h with ⟨hpolicy, hentitled⟩ | hquiet
      · exact Or.inl ⟨hpolicy, hentitled.append⟩
      · exact Or.inr hquiet
  | ofData token table route =>
      rcases h with ⟨id, hwrites, hpolicy⟩ | hquiet
      · exact Or.inl ⟨id, hwrites.append, hpolicy⟩
      · exact Or.inr (hquiet.mono fun id => Or.imp_right fun hwrites => hwrites.append)

/-- The tables that a request may write to are not those of the policy, unless it may change the
policy. -/
theorem not_isPolicyTable_of_mayWriteBy {request : Request} {id : JsString}
    (hpolicy : ¬ request.MayChangePolicyBy config first events)
    (h : request.MayWriteBy config first events id) :
    ¬ IsPolicyTable config.tablePrefix first.tables id := by
  cases request with
  | ofRoute token route => exact h.elim
  | ofData token table route => exact fun hid => hpolicy ⟨id, h, hid⟩

/-- Where no name of the data API reaches a system table, none of its requests may change the
policy. -/
theorem not_mayChangePolicyBy_of_separate (hseparate : Separate config first.tables)
    (token : Option TokenPayload) (table : JsString) (route : DataRoute) :
    ¬ (Request.ofData token table route).MayChangePolicyBy config first events := by
  rintro ⟨_, ⟨-, ⟨user, -, hadmits⟩, found, hfound, rfl⟩, system, -, other, hother, hid⟩
  have hisolated := hseparate table hadmits.valid hadmits.external system other hother
  exact hisolated.1 found hfound hid.symm

/-- Quiet operations that write to the users table at most are open to every request. -/
theorem mayPerform_of_quiet {request : Request} {op : Op ⊕ PageOp}
    (h : Quiet config.tablePrefix first (IsUsersTable config.tablePrefix first.tables) op) :
    MayPerform config first request events op :=
  Or.inr (h.mono fun _ => Or.inl)

/-- The first events of a request that is let in replay its authentication. -/
theorem authenticatedBy_of_replays {token : Option TokenPayload} {user : AuthenticatedUser}
    (h : ((authenticate config false token).lift : Paging _).Replays events (.ok (some user))) :
    AuthenticatedBy config token events user :=
  ⟨events, [], (List.append_nil events).symm, h⟩

/-! ## Threads -/

variable {thread : ι} {upstream : Upstream} {view : TableView}

/-- A request is answered with a result only if it may be made. -/
def AnsweredIfEntitled {α : Type} (config : Config) (first : World) (request : Request)
    (result : Except Exception α) (events : List (RequestEvent ι)) : Prop :=
  ∀ a, result = .ok a → request.EntitledBy config first events

theorem wp_serve_recorded {token : Option TokenPayload} {route : Route} :
    wp (recorded thread (MayPerform config first (.ofRoute token route))
      (Sees config.tablePrefix first)) (serve config token route)
      (AnsweredIfEntitled config first (.ofRoute token route)) [] := by
  rw [serve, wp_bind]
  by_cases hpublic : route.isPublic = true
  · cases route with
    | bootstrapAdmin dto bootstrapToken =>
        show wp _ (Auth.bootstrapAdmin config.tablePrefix config.bootstrapToken dto
          bootstrapToken).lift _ _
        rw [Auth.bootstrapAdmin]
        cases hallowed : assertBootstrapAllowed config.bootstrapToken bootstrapToken with
        | error exception =>
            intro answer hanswer
            contradiction
        | ok _ =>
            apply wp_mono (wp_recorded_of_ensures
              (Program.ensures_of_uses (Program.uses_any _)) _)
            · intro _ _ _ _ _
              exact hallowed
            · intro more op _
              exact Or.inl ⟨rfl, hallowed⟩
    | _ => contradiction
  · rw [Bool.eq_false_of_not_eq_true hpublic]
    apply wp_mono (wp_recorded_of_ensures (ensures_authenticate fun _ => id).lift
      fun _ _ => mayPerform_of_quiet)
    rintro (exception | user) events ⟨hsome, own, hevents, hreplays⟩
    · intro answer hanswer
      contradiction
    · obtain ⟨caller, rfl⟩ := Option.isSome_iff_exists.mp (hsome user rfl)
      obtain rfl : events = own := hevents
      have hcaller := authenticatedBy_of_replays hreplays
      rw [onOk_ok, wp_bind]
      apply wp_mono (wp_recorded_of_ensures ensures_authorize.lift
        fun _ _ => mayPerform_of_quiet)
      rintro (exception | _) events' ⟨hadmits, checked, rfl, -⟩
      · intro answer hanswer
        contradiction
      · rw [onOk_ok]
        have hentitled : (Request.ofRoute token route).EntitledBy config first
            (events ++ checked) := by
          have h := hadmits () rfl
          cases route with
          | bootstrapAdmin dto bootstrapToken => contradiction
          | _ => exact ⟨caller, hcaller.append, h⟩
        by_cases hpolicy : route.changesPolicy = true
        · apply wp_mono (wp_recorded_of_ensures
            (Program.ensures_of_uses (Program.uses_any _)) _)
          · rintro _ _ ⟨-, own, rfl, -⟩ _ _
            exact hentitled.append
          · intro more op _
            exact Or.inl ⟨hpolicy, hentitled.append⟩
        · apply wp_mono (wp_recorded_of_ensures (ensures_handle_quiet
            (Bool.eq_false_of_not_eq_true hpolicy) fun _ => id) fun _ _ => mayPerform_of_quiet)
          rintro _ _ ⟨-, own, rfl, -⟩ _ _
          exact hentitled.append

/-- Whoever enters the data API has been let in and is admitted to the table. -/
theorem wp_enterData_recorded {token : Option TokenPayload} {table : JsString} {route : DataRoute} :
    wp (recorded thread (MayPerform config first (.ofData token table route))
      (Sees config.tablePrefix first)) (enterData config token table route).lift
      (AnsweredIfEntitled config first (.ofData token table route)) [] := by
  rw [enterData, Program.lift_bind, wp_bind]
  apply wp_mono (wp_recorded_of_ensures (ensures_authenticate fun _ => id).lift
    fun _ _ => mayPerform_of_quiet)
  rintro (exception | user) events ⟨hsome, own, hevents, hreplays⟩
  · intro answer hanswer
    contradiction
  · obtain ⟨caller, rfl⟩ := Option.isSome_iff_exists.mp (hsome user rfl)
    obtain rfl : events = own := hevents
    have hcaller := authenticatedBy_of_replays hreplays
    rw [onOk_ok]
    apply wp_mono (wp_recorded_of_ensures ensures_admitData.lift fun _ _ => mayPerform_of_quiet)
    rintro result events' ⟨hadmits, checked, rfl, -⟩ answer hanswer
    exact ⟨caller, hcaller.append, hadmits answer hanswer⟩

/-- An answer of the data API is a result only if the request may be made. -/
def DataAnsweredIfEntitled {α : Type} (config : Config) (first : World) (request : Request)
    (result : Except Exception (Except Exception α × TableCache))
    (events : List (RequestEvent ι)) : Prop :=
  ∀ answer tables, result = .ok (answer, tables) →
    AnsweredIfEntitled config first request answer events

theorem wp_serveData_recorded {token : Option TokenPayload} {table : JsString} {route : DataRoute}
    (hcache : CacheOf config.tablePrefix first.tables view.tables) :
    wp (recorded thread (MayPerform config first (.ofData token table route))
      (Sees config.tablePrefix first))
      (serveData config upstream.stored upstream.rejects token table route view.getTableMetadata
        view.now view.later view.tables)
      (DataAnsweredIfEntitled config first (.ofData token table route)) [] := by
  rw [serveData, wp_bind]
  apply wp_attempt
  apply wp_mono wp_enterData_recorded
  intro entered events hentered
  rw [onOk_ok]
  cases hbody : entered.bind fun _ => route.checkBody with
  | error exception =>
      rintro answer tables ⟨⟩ value hvalue
      contradiction
  | ok _ =>
      have hentitled : (Request.ofData token table route).EntitledBy config first events := by
        cases entered with
        | error exception => contradiction
        | ok _ => exact hentered () rfl
      show wp _ ((lookupTable config.tablePrefix view.getTableMetadata view.now view.later
        view.tables table).lift >>= _) _ events
      rw [wp_bind]
      apply wp_mono (wp_recorded_of_ensures (ensures_lookupTable hcache).lift
        fun _ _ => mayPerform_of_quiet)
      rintro (exception | ⟨found, tables⟩) events' ⟨hresolves, looked, rfl, -⟩
      · intro answer tables hanswer
        contradiction
      · cases found with
        | error exception =>
            rintro answer tables ⟨⟩ value hvalue
            contradiction
        | ok info =>
            have hwrites : ∀ id, route.action ≠ .read ∧ id = info.id →
                (Request.ofData token table route).MayWriteBy config first events id := by
              rintro id ⟨haction, rfl⟩
              exact ⟨haction, hentitled, hresolves _ rfl info rfl⟩
            show wp _ (attempt (route.handle upstream.stored upstream.rejects table info) >>= _) _ _
            rw [wp_bind]
            apply wp_attempt
            apply wp_mono (wp_recorded_of_ensures
              (Program.ensures_of_uses (uses_handleData route)) _)
            · rintro result _ ⟨-, own, rfl, -⟩ answer tables _ value _
              exact hentitled.append.append
            · intro more op hop
              apply MayPerform.append
              apply MayPerform.append
              exact Or.inr (Or.inl (writesTo_mono hop fun id hid => Or.inr (hwrites id hid)))

theorem wp_request_recorded {request : Request}
    (hcache : CacheOf config.tablePrefix first.tables view.tables) :
    wp (recorded thread (MayPerform config first request) (Sees config.tablePrefix first))
      (request.program config upstream view) (AnsweredIfEntitled config first request) [] := by
  cases request with
  | ofRoute token route =>
      rw [Request.program, wp_bind]
      apply wp_mono wp_serve_recorded
      rintro (exception | answer) events hentitled
      · intro _ hresult
        contradiction
      · intro _ _
        exact hentitled answer rfl
  | ofData token table route =>
      rw [Request.program, wp_bind]
      apply wp_mono (wp_serveData_recorded hcache)
      rintro (exception | ⟨answer, tables⟩) events hentitled
      · intro _ hresult
        contradiction
      · intro _ hresult
        cases answer with
        | error exception => contradiction
        | ok value => exact hentitled _ _ rfl value rfl

end

/-! ## Interleavings -/

section

variable {ι : Type} [DecidableEq ι]

/-- The requests are served at once, in any order of their steps. -/
def ServedAtOnce (config : Config) (upstream : Upstream) (requests : ι → Request)
    (views : ι → TableView) (first : World)
    (last : Foundation.Config ι (Op ⊕ PageOp) (Sum.elim Res PageRes) Exception Unit World) : Prop :=
  Interleaved (pagedNocodb upstream.order upstream.faults).contract AnyOrder
    (.start (fun thread => (requests thread).program config upstream (views thread)) first) last

variable {config : Config} {upstream : Upstream} {requests : ι → Request} {views : ι → TableView}
  {first : World}
  {last : Foundation.Config ι (Op ⊕ PageOp) (Sum.elim Res PageRes) Exception Unit World}

/-- No table of the policy is the users table or one that a request may write to. -/
theorem writable_outside_policy (hinvariant : CacheInvariant config.tablePrefix first)
    (hpolicy : ∀ thread,
      ¬ (requests thread).MayChangePolicyBy config first (last.eventsOf thread)) (id : JsString)
    (h : IsUsersTable config.tablePrefix first.tables id ∨
      ∃ thread, (requests thread).MayWriteBy config first (last.eventsOf thread) id) :
    ¬ IsPolicyTable config.tablePrefix first.tables id := by
  rcases h with husers | ⟨thread, hwrites⟩
  · exact not_isPolicyTable_of_users hinvariant.2 husers
  · exact not_isPolicyTable_of_mayWriteBy (hpolicy thread) hwrites

/-- The requests change the users table and the tables that one of them may write to, and each
of them is answered as its user is entitled to. -/
theorem outlined_of_servedAtOnce (hinvariant : CacheInvariant config.tablePrefix first)
    (hcaches : ∀ thread, CacheOf config.tablePrefix first.tables (views thread).tables)
    (hrun : ServedAtOnce config upstream requests views first last)
    (hpolicy : ∀ thread,
      ¬ (requests thread).MayChangePolicyBy config first (last.eventsOf thread)) :
    Outlined
      (fun _ => ChangesOnly config.tablePrefix (fun id =>
        IsUsersTable config.tablePrefix first.tables id ∨
          ∃ thread, (requests thread).MayWriteBy config first (last.eventsOf thread) id) first)
      (fun thread => MayPerform config first (requests thread)) (Sees config.tablePrefix first)
      (fun thread => AnsweredIfEntitled config first (requests thread)) last := by
  have hids : ∀ id, (IsUsersTable config.tablePrefix first.tables id ∨
      ∃ thread, (requests thread).MayWriteBy config first (last.eventsOf thread) id) →
        ¬ IsPolicyTable config.tablePrefix first.tables id :=
    writable_outside_policy hinvariant hpolicy
  apply outlined_of_interleaved (fun thread => wp_request_recorded (hcaches thread))
    (fun _ _ _ _ => MayPerform.append) _ hrun _ (.refl hinvariant)
  · exact Quiet config.tablePrefix first fun id =>
      IsUsersTable config.tablePrefix first.tables id ∨
        ∃ thread, (requests thread).MayWriteBy config first (last.eventsOf thread) id
  · intro op answer world world' hkept hquiet hstep
    exact ⟨sees_of_step hids hkept hstep, changesOnly_of_quiet hids hkept hquiet hstep⟩
  · rintro thread op (hchanges | hquiet)
    · exact absurd hchanges (hpolicy thread)
    · exact hquiet.mono fun id => Or.imp_right fun hwrites => ⟨thread, hwrites⟩

/-! ## Two orders at once -/

/-- No table has been looked up yet. -/
def ordersView : TableView :=
  ⟨fun _ => .ok [⟨js "title", js "SingleLineText"⟩], 0, 0, .empty⟩

/-- Two requests take turns, and get a key of their own for a new row. -/
def takingTurns (rounds : Nat) : List (Bool × Choice) :=
  (List.replicate rounds [(false, promptly 2), (true, promptly 3)]).flatten

/-- The user 7 creates two orders at once. -/
theorem createOrders_servedAtOnce : ∃ last,
    ServedAtOnce ordersConfig ordersUpstream (fun _ : Bool => createOrder) (fun _ => ordersView)
      ordersWorld last ∧
      last.outcome true = some (.ok ()) ∧
      last.world.rows (js "orders") ≠ ordersWorld.rows (js "orders") := by
  have hrun : ((pagedNocodb numericOrder false).schedule AnyOrder (takingTurns 14)
      (.start (fun _ : Bool => createOrder.program ordersConfig ordersUpstream ordersView)
        ordersWorld)).any (fun last =>
          (last.outcome true).any Except.isOk &&
          (last.world.rows (js "orders")).rows.length = 3) = true := by
    decide +kernel
  obtain ⟨last, hlast, hcheck⟩ := System.exists_interleaved hrun
  rw [Bool.and_eq_true] at hcheck
  refine ⟨last, hlast, ?_, ?_⟩
  · obtain ⟨result, houtcome, hresult⟩ := (Option.any_eq_true _ _).mp hcheck.1
    cases result with
    | error exception => exact Bool.noConfusion hresult
    | ok answer => exact houtcome
  · intro hsame
    have hlength := of_decide_eq_true hcheck.2
    rw [hsame] at hlength
    revert hlength
    decide

/-- Whatever happens, creating an order does not change the policy. -/
theorem createOrder_keepsPolicy {events : Bool → List (RequestEvent Bool)} (thread : Bool) :
    ¬ createOrder.MayChangePolicyBy ordersConfig ordersWorld (events thread) :=
  not_mayChangePolicyBy_of_separate separate_orders _ _ _

theorem cacheInvariant_orders : CacheInvariant ordersConfig.tablePrefix ordersWorld :=
  ⟨coherent_of_empty rfl, distinctTables_orders⟩

/-! ## Main results -/

/-- However the steps of concurrent requests are interleaved, and whichever of them fail: while
none of the requests may change the policy by the policy of the start, the roles, their assignments
and their permissions stay what they are, and so does what they grant. -/
theorem policy_kept_by_interleavings (config : Config) (upstream : Upstream)
    (requests : ι → Request) (views : ι → TableView)
    (hinvariant : CacheInvariant config.tablePrefix first)
    (hcaches : ∀ thread, CacheOf config.tablePrefix first.tables (views thread).tables)
    (hrun : ServedAtOnce config upstream requests views first last)
    (hpolicy : ∀ thread,
      ¬ (requests thread).MayChangePolicyBy config first (last.eventsOf thread)) :
    (∀ table, table ≠ .users → systemRows config.tablePrefix last.world table =
        systemRows config.tablePrefix first table) ∧
      ∀ userId table action, Grants config.tablePrefix last.world userId table action ↔
        Grants config.tablePrefix first userId table action := by
  have hkept := (outlined_of_servedAtOnce hinvariant hcaches hrun hpolicy).shared
  exact ⟨hkept.policyRows_eq (writable_outside_policy hinvariant hpolicy),
    hkept.grants_iff (writable_outside_policy hinvariant hpolicy)⟩

/-- Two orders that are created at once change no permission. -/
theorem policy_kept_by_interleavings_orders : ∃ last,
    ServedAtOnce ordersConfig ordersUpstream (fun _ : Bool => createOrder) (fun _ => ordersView)
      ordersWorld last ∧
      (∀ table, table ≠ .users →
        systemRows [] last.world table = systemRows [] ordersWorld table) ∧
      ∀ userId table action, Grants [] last.world userId table action ↔
        Grants [] ordersWorld userId table action := by
  obtain ⟨last, hrun, -⟩ := createOrders_servedAtOnce
  exact ⟨last, hrun, policy_kept_by_interleavings ordersConfig ordersUpstream _ _
    cacheInvariant_orders (fun _ => .empty) hrun createOrder_keepsPolicy⟩

/-- In such a run the records of a table other than the users table are changed only if one of the
requests is one of the data API to that table, whose user may do so by the policy of the start. -/
theorem records_changed_by_permitted_interleavings (config : Config) (upstream : Upstream)
    (requests : ι → Request) (views : ι → TableView)
    (hinvariant : CacheInvariant config.tablePrefix first)
    (hcaches : ∀ thread, CacheOf config.tablePrefix first.tables (views thread).tables)
    (hrun : ServedAtOnce config upstream requests views first last)
    (hpolicy : ∀ thread,
      ¬ (requests thread).MayChangePolicyBy config first (last.eventsOf thread)) {id : JsString}
    (husers : ¬ IsUsersTable config.tablePrefix first.tables id)
    (hchanged : last.world.rows id ≠ first.rows id) :
    ∃ thread token table route user, requests thread = .ofData token table route ∧
      route.action ≠ .read ∧ ResolvesTo config.tablePrefix first.tables table id ∧
      AuthenticatedBy config token (last.eventsOf thread) user ∧
      Holds config.tablePrefix first (requestUser user) ⟨table, route.action⟩ := by
  have hkept := (outlined_of_servedAtOnce hinvariant hcaches hrun hpolicy).shared
  obtain ⟨thread, hwrites⟩ : ∃ thread,
      (requests thread).MayWriteBy config first (last.eventsOf thread) id := by
    by_contra hnone
    exact hchanged (hkept.elsewhere id (not_or.mpr ⟨husers, hnone⟩))
  cases hrequest : requests thread with
  | ofRoute token route =>
      rw [hrequest] at hwrites
      exact hwrites.elim
  | ofData token table route =>
      rw [hrequest] at hwrites
      obtain ⟨haction, ⟨user, huser, hadmits⟩, hresolves⟩ := hwrites
      exact ⟨thread, token, table, route, user, hrequest, haction, hresolves, huser, hadmits.holds⟩

/-- Both orders are ones that the user 7 may create. -/
theorem records_changed_by_permitted_interleavings_orders : ∃ last,
    ServedAtOnce ordersConfig ordersUpstream (fun _ : Bool => createOrder) (fun _ => ordersView)
      ordersWorld last ∧
      ∃ thread token table route user, createOrder = .ofData token table route ∧
        route.action ≠ .read ∧ ResolvesTo [] ordersWorld.tables table (js "orders") ∧
        AuthenticatedBy ordersConfig token (last.eventsOf thread) user ∧
        Holds [] ordersWorld (requestUser user) ⟨table, route.action⟩ := by
  obtain ⟨last, hrun, -, hchanged⟩ := createOrders_servedAtOnce
  exact ⟨last, hrun, records_changed_by_permitted_interleavings ordersConfig ordersUpstream _ _
    cacheInvariant_orders (fun _ => .empty) hrun createOrder_keepsPolicy
    not_isUsersTable_orders hchanged⟩

/-- In such a run a request is answered with a result only if its user is entitled to it by the
policy of the start, which a permission check may have read while others were served. -/
theorem answered_if_entitled_interleaved (config : Config) (upstream : Upstream)
    (requests : ι → Request) (views : ι → TableView)
    (hinvariant : CacheInvariant config.tablePrefix first)
    (hcaches : ∀ thread, CacheOf config.tablePrefix first.tables (views thread).tables)
    (hrun : ServedAtOnce config upstream requests views first last)
    (hpolicy : ∀ thread,
      ¬ (requests thread).MayChangePolicyBy config first (last.eventsOf thread))
    {thread : ι} (hdone : last.outcome thread = some (.ok ())) :
    (requests thread).EntitledBy config first (last.eventsOf thread) := by
  have hthread := (outlined_of_servedAtOnce hinvariant hcaches hrun hpolicy).threads
    thread
  rw [Foundation.Config.threads_of_outcome hdone] at hthread
  exact hthread () rfl

/-- Whoever creates the second order may do so. -/
theorem answered_if_entitled_interleaved_orders : ∃ last,
    ServedAtOnce ordersConfig ordersUpstream (fun _ : Bool => createOrder) (fun _ => ordersView)
      ordersWorld last ∧
      createOrder.EntitledBy ordersConfig ordersWorld (last.eventsOf true) := by
  obtain ⟨last, hrun, hdone, -⟩ := createOrders_servedAtOnce
  exact ⟨last, hrun, answered_if_entitled_interleaved ordersConfig ordersUpstream _ _
    cacheInvariant_orders (fun _ => .empty) hrun createOrder_keepsPolicy hdone⟩

end

end Http
end NocoMiddleware
