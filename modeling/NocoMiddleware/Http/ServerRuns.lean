import NocoMiddleware.Http.Authority
import NocoMiddleware.Http.DataGuard

/-!
# Runs of the server

The server serves requests of both APIs, one after the other, while any request to NocoDB may
fail.  As long as nobody who is entitled to it changes the policy, the policy stays what it is,
and records are changed only by requests whose user the policy allows to change them.
-/

namespace NocoMiddleware
namespace Http

open NocoMiddleware.Js NocoMiddleware.Tables NocoMiddleware.Store NocoMiddleware.Permissions
open NocoMiddleware.Auth NocoMiddleware.Users NocoMiddleware.Foundation NocoMiddleware.Data
open NocoMiddleware.Runs

/-! ## Entering the data API -/

/-- The request may be made: its user is admitted to the table. -/
def DataRoute.Entitled (config : Config) (faults : Bool) (world : World)
    (token : Option TokenPayload) (table : JsString) (route : DataRoute) : Prop :=
  ∃ user, Authenticates config faults world token user ∧
    AdmitsData config world table route.action user

section

variable {config : Config} {order : SortOrder} {faults : Bool} {world world' : World}

/-- A request enters the data API only if it is entitled. -/
theorem wp_enterData {token : Option TokenPayload} {table : JsString} {route : DataRoute}
    (hinvariant : CacheInvariant config.tablePrefix world) :
    wp (nocodb faults).contract (enterData config token table route)
      (fun result world' =>
        ChangesOnly config.tablePrefix (IsUsersTable config.tablePrefix world.tables) world world' ∧
          (result = .ok () → route.Entitled config faults world token table)) world := by
  rw [enterData, wp_bind]
  apply wp_mono (wp_authenticate hinvariant)
  rintro (exception | user) world₁ ⟨h₁, huser⟩
  · exact ⟨h₁, nofun⟩
  · rw [onOk_ok]
    apply wp_mono (wp_admitData h₁.invariant)
    intro result world₂ ⟨hread, hadmits⟩
    refine ⟨h₁.trans (.of_onlyRead hread), ?_⟩
    rintro rfl
    obtain ⟨caller, hcaller, hadmitted⟩ := hadmits
    obtain ⟨accepted, haccepted, hauthenticates⟩ := huser user rfl
    rw [hcaller] at haccepted
    obtain rfl := Option.some.inj haccepted
    refine ⟨caller, hauthenticates, hadmitted.valid, hadmitted.external, hadmitted.identified, ?_⟩
    exact (h₁.holds_iff (users_outside_policy hinvariant) _ _).mp hadmitted.holds

/-! ## The table lookup -/

theorem wp_attempt {Op : Type} {Res : Op → Type} {α World : Type}
    {contract : Contract Op Res Exception World} {program : Program Op Res Exception α}
    {post : Except Exception (Except Exception α) → World → Prop} {world : World}
    (h : wp contract program (fun result => post (.ok result)) world) :
    wp contract (attempt program) post world := by
  rw [attempt, wp_tryCatch, wp_bind]
  apply wp_mono h
  rintro (exception | result) world' hpost
  · exact hpost
  · exact hpost

/-- The lookup changes nothing, keeps the cache one of the listed tables and finds the table that
the name resolves to. -/
theorem wp_lookupTable {tablePrefix table : JsString}
    {getTableMetadata : JsString → Except Exception (List NocoFieldMeta)} {now later : Nat}
    {tables : TableCache} (hcache : CacheOf tablePrefix world.tables tables) :
    wp (nocodb faults).contract
      (lookupTable tablePrefix getTableMetadata now later tables table)
      (fun result world' => Unchanged world world' ∧ ∃ found tables',
        result = .ok (found, tables') ∧ CacheOf tablePrefix world.tables tables' ∧
          ∀ info, found = .ok info → ResolvesTo tablePrefix world.tables table info.id) world := by
  unfold lookupTable
  cases hcached : cachedInfo tables now table with
  | some cached =>
      have hget : tables.get table = some cached := (Option.filter_eq_some_iff.mp hcached).1
      refine ⟨Unchanged.refl world, _, _, rfl, hcache, ?_⟩
      rintro info ⟨⟩
      exact hcache.resolves table cached hget
  | none =>
      show wp _ (attempt (Program.call Op.listTables : Service (List TableMeta)) >>= _) _ world
      rw [wp_bind]
      apply wp_attempt
      have hlookup : ∀ listTables : Except Exception (List TableMeta),
          (∀ listed, listTables = .ok listed → listed = world.tables) → ∀ world',
            Unchanged world world' → Unchanged world world' ∧ ∃ found tables',
              (.ok (getTable tablePrefix listTables getTableMetadata now later tables table) :
                Except Exception _) = .ok (found, tables') ∧
                CacheOf tablePrefix world.tables tables' ∧ ∀ info, found = .ok info →
                  ResolvesTo tablePrefix world.tables table info.id := by
        intro listTables hlisted world' hunchanged
        refine ⟨hunchanged, _, _, rfl, ?_, ?_⟩
        · exact .lookup hcache listTables hlisted getTableMetadata now later table
        · exact (getTable_resolves hcache.resolves hlisted getTableMetadata now later table).1
      apply wp_call_nocodb
      · intro _ world' hunchanged
        exact hlookup (.error .upstream) nofun world' hunchanged
      · intro choice earlier _ hunchanged
        have hlisted : ∀ listed, (.ok earlier.tables : Except Exception (List TableMeta)) =
            .ok listed → listed = world.tables := by
          rintro listed ⟨⟩
          exact hunchanged.tables
        exact hlookup (.ok earlier.tables) hlisted earlier hunchanged

/-! ## A served request -/

/-- No name that the guard of the data API lets through reaches a system table. -/
def Separate (config : Config) (reported : List TableMeta) : Prop :=
  ∀ table, isValidTableName config.unicode table = true → table ∉ Data.systemTables →
    Isolated config.tablePrefix reported table

/-- The table may be written to by the request. -/
def DataRoute.MayWrite (config : Config) (faults : Bool) (world : World)
    (token : Option TokenPayload) (table : JsString) (route : DataRoute) (id : JsString) : Prop :=
  route.action ≠ .read ∧ route.Entitled config faults world token table ∧
    ResolvesTo config.tablePrefix world.tables table id

/-- Tables that have one name each are found by their titles. -/
theorem title_of_resolve {tablePrefix name : JsString} {reported : List TableMeta} {t : TableMeta}
    (hnames : ∀ t ∈ reported, t.table_name = none)
    (ht : resolve tablePrefix reported name = some t) :
    t.title = getPrefixedTableName tablePrefix name := by
  obtain ⟨hmem, htitle | ⟨-, hfind⟩⟩ := resolve_eq_some ht
  · exact htitle
  · have hname := (of_find hfind).2
    rw [hnames t hmem] at hname
    contradiction

/-- Names that resolve to the same one of these tables are equal. -/
theorem eq_of_resolve {tablePrefix : JsString} {reported : List TableMeta}
    (hids : (reported.map TableMeta.id).Nodup) (hnames : ∀ t ∈ reported, t.table_name = none)
    {first second : JsString} {t found : TableMeta}
    (ht : resolve tablePrefix reported first = some t)
    (hfound : resolve tablePrefix reported second = some found) (hid : t.id = found.id) :
    first = second := by
  obtain rfl : t = found := List.inj_on_of_nodup_map hids (resolve_eq_some ht).1
    (resolve_eq_some hfound).1 hid
  have htitle := title_of_resolve hnames ht
  rw [title_of_resolve hnames hfound] at htitle
  exact ((getPrefixedTableName_inj tablePrefix).mp htitle).symm

/-- A base whose tables have one name each separates them, as the names that the guard lets through
are not those of system tables. -/
theorem separate_of_titles {reported : List TableMeta} (hids : (reported.map TableMeta.id).Nodup)
    (hnames : ∀ t ∈ reported, t.table_name = none) : Separate config reported := by
  intro table _ hexternal system found hfound
  have hne : ∀ t, resolve config.tablePrefix reported table = some t → t.id ≠ found.id := by
    intro t ht hid
    have hsame : system.name = table := (eq_of_resolve hids hnames ht hfound hid).symm
    exact hexternal (List.mem_map.mpr ⟨system, system.mem_all, hsame⟩)
  refine ⟨hne, ?_⟩
  intro tables hcache getTableMetadata now later info hinfo
  obtain ⟨t, ht, hid⟩ := (getTable_resolves hcache.resolves (by simp) getTableMetadata now later
    table).1 info hinfo
  rw [← hid]
  exact hne t ht

theorem distinctTables_of_titles {tablePrefix : JsString} {reported : List TableMeta}
    (hids : (reported.map TableMeta.id).Nodup) (hnames : ∀ t ∈ reported, t.table_name = none) :
    DistinctTables tablePrefix reported := by
  intro first second hne found other hfound hother hid
  exact hne (SystemTable.name_injective (eq_of_resolve hids hnames hfound hother hid))

theorem DataRoute.MayWrite.not_isPolicyTable {token : Option TokenPayload} {table id : JsString}
    {route : DataRoute} (h : route.MayWrite config faults world token table id)
    (hseparate : Separate config world.tables) :
    ¬ IsPolicyTable config.tablePrefix world.tables id := by
  obtain ⟨-, ⟨user, -, hadmitted⟩, found, hfound, rfl⟩ := h
  rintro ⟨system, -, other, hother, hid⟩
  have hisolated := hseparate table hadmitted.valid hadmitted.external system other hother
  exact hisolated.1 found hfound hid.symm

/-- A served request of the data API changes the table only that it may write to, and is answered
with a result only if it is entitled. -/
theorem wp_serveData {stored : Json → JsValue} {rejects : Exception → Bool}
    {token : Option TokenPayload} {table : JsString} {route : DataRoute}
    {getTableMetadata : JsString → Except Exception (List NocoFieldMeta)} {now later : Nat}
    {tables : TableCache} (hinvariant : CacheInvariant config.tablePrefix world)
    (hcache : CacheOf config.tablePrefix world.tables tables)
    (houtside : ∀ id, route.MayWrite config faults world token table id →
      ¬ IsPolicyTable config.tablePrefix world.tables id) :
    wp (pagedNocodb order faults).contract
      (serveData config stored rejects token table route getTableMetadata now later tables)
      (fun result world' => ∃ answer tables', result = .ok (answer, tables') ∧
        CacheOf config.tablePrefix world.tables tables' ∧
        ChangesOnly config.tablePrefix (fun id => IsUsersTable config.tablePrefix world.tables id ∨
          route.MayWrite config faults world token table id) world world' ∧
        ∀ value, answer = .ok value → route.Entitled config faults world token table) world := by
  rw [serveData, wp_bind]
  apply wp_attempt
  apply wp_lift_paged
  apply wp_mono (wp_enterData hinvariant)
  intro entered world₁ ⟨h₁, hentitled⟩
  rw [onOk_ok]
  cases hbody : entered.bind fun _ => route.checkBody with
  | error exception => exact ⟨_, _, rfl, hcache, h₁.mono fun _ => Or.inl, nofun⟩
  | ok _ =>
      have hcaller : route.Entitled config faults world token table := by
        cases entered with
        | error exception => contradiction
        | ok _ => exact hentitled rfl
      show wp _ ((lookupTable config.tablePrefix getTableMetadata now later tables table).lift
        >>= _) _ world₁
      rw [wp_bind]
      apply wp_lift_paged
      rw [← h₁.tables] at hcache
      apply wp_mono (wp_lookupTable hcache)
      rintro result world₂ ⟨h₂, found, tables', rfl, hcache', hresolves⟩
      rw [h₁.tables] at hcache' hresolves
      have hread := h₁.trans (.of_unchanged h₁.invariant h₂)
      cases found with
      | error exception => exact ⟨_, _, rfl, hcache', hread.mono fun _ => Or.inl, nofun⟩
      | ok info =>
          show wp _ (attempt (route.handle stored rejects table info) >>= _) _ world₂
          rw [wp_bind]
          apply wp_attempt
          have hmay : ∀ id, route.action ≠ .read ∧ id = info.id →
              route.MayWrite config faults world token table id := by
            rintro id ⟨haction, rfl⟩
            exact ⟨haction, hcaller, hresolves info rfl⟩
          have hids : ∀ id, route.action ≠ .read ∧ id = info.id →
              ¬ IsPolicyTable config.tablePrefix world₂.tables id := by
            intro id hid
            rw [hread.tables]
            exact houtside id (hmay id hid)
          apply wp_mono (wp_writesOnly (uses_handleData route))
          intro answer world' hwrites
          refine ⟨answer, tables', rfl, hcache', ?_, fun _ _ => hcaller⟩
          have hwritten := ChangesOnly.of_writesOnly hread.invariant hids hwrites
          exact (hread.mono fun _ => Or.inl).trans (hwritten.mono fun id hid => Or.inr (hmay id hid))

end

/-! ## Runs -/

/-- What the server does not decide: the order of listings, how NocoDB stores JSON values, which
exceptions report invalid input, and whether requests may fail. -/
structure Upstream where
  order : SortOrder
  stored : Json → JsValue
  rejects : Exception → Bool
  faults : Bool

/-- NocoDB with the permission cache and the clock, and the cache of tables. -/
structure Server where
  world : World
  tables : TableCache

/-- The requests of both APIs. -/
inductive Request where
  | ofRoute (token : Option TokenPayload) (route : Route)
  | ofData (token : Option TokenPayload) (table : JsString) (route : DataRoute)

namespace Request

/-- A request is served, from start to end. -/
def Serves (config : Config) (upstream : Upstream) : Request → Server → Server → Prop
  | .ofRoute token route, server, server' =>
      server'.tables = server.tables ∧ ∃ result, Exec
        (pagedNocodb upstream.order upstream.faults).contract (serve config token route)
        server.world result server'.world
  | .ofData token table route, server, server' =>
      ∃ getTableMetadata now later answer, Exec
        (pagedNocodb upstream.order upstream.faults).contract
        (serveData config upstream.stored upstream.rejects token table route getTableMetadata now
          later server.tables)
        server.world (.ok (answer, server'.tables)) server'.world

/-- The request writes to the policy and is entitled to; one of the data API, by a name that
resolves to a table of the policy. -/
def MayChangePolicy (config : Config) (faults : Bool) (world : World) : Request → Prop
  | .ofRoute token route =>
      route.changesPolicy = true ∧ route.Entitled config faults world token
  | .ofData token table route => ∃ id, route.MayWrite config faults world token table id ∧
      IsPolicyTable config.tablePrefix world.tables id

/-- The request writes to the records of a table and is entitled to. -/
def MayWrite (config : Config) (faults : Bool) (world : World) (id : JsString) : Request → Prop
  | .ofRoute _ _ => False
  | .ofData token table route => route.MayWrite config faults world token table id

end Request

/-- A request that meets a condition is served, or time passes. -/
def ServerStep (config : Config) (upstream : Upstream) (condition : Request → Server → Prop)
    (server server' : Server) : Prop :=
  (∃ elapsed, server' = ⟨server.world.advance elapsed, server.tables⟩) ∨
    ∃ request, condition request server ∧ request.Serves config upstream server server'

/-- The caches tell what NocoDB holds, and the system tables are different tables. -/
structure Sound (config : Config) (server : Server) : Prop where
  invariant : CacheInvariant config.tablePrefix server.world
  tables : CacheOf config.tablePrefix server.world.tables server.tables

section

variable {config : Config} {upstream : Upstream} {first server server' : Server}

/-- A server that has just started. -/
theorem sound_of_empty (hempty : first.world.cache = .empty) (htables : first.tables = .empty)
    (hdistinct : DistinctTables config.tablePrefix first.world.tables) : Sound config first where
  invariant := ⟨coherent_of_empty hempty, hdistinct⟩
  tables := by
    rw [htables]
    exact .empty

/-- A request of the data API that may not change the policy writes to no table of it. -/
theorem outside_policy_of_data {faults : Bool} {world : World} {token : Option TokenPayload}
    {table : JsString} {route : DataRoute}
    (hpolicy : ¬ (Request.ofData token table route).MayChangePolicy config faults world)
    (id : JsString) (h : route.MayWrite config faults world token table id) :
    ¬ IsPolicyTable config.tablePrefix world.tables id :=
  fun hid => hpolicy ⟨id, h, hid⟩

/-- Where no name of the data API reaches a system table, none of its requests may change the
policy. -/
theorem not_mayChangePolicy_of_separate {faults : Bool} {world : World}
    (hseparate : Separate config world.tables) (token : Option TokenPayload) (table : JsString)
    (route : DataRoute) :
    ¬ (Request.ofData token table route).MayChangePolicy config faults world := by
  rintro ⟨id, hmay, hpolicy⟩
  exact hmay.not_isPolicyTable hseparate hpolicy

/-- A served request that may not change the policy writes to the users table and to the table that
it may write to. -/
theorem sound_of_serves {request : Request} (hsound : Sound config server)
    (hpolicy : ¬ request.MayChangePolicy config upstream.faults server.world)
    (hserves : request.Serves config upstream server server') :
    Sound config server' ∧ ChangesOnly config.tablePrefix
      (fun id => IsUsersTable config.tablePrefix server.world.tables id ∨
        request.MayWrite config upstream.faults server.world id) server.world server'.world := by
  cases request with
  | ofRoute token route =>
      obtain ⟨htables, result, hexec⟩ := hserves
      have hchanges := (wp_sound (wp_serve hsound.invariant) hexec).1.resolve_right hpolicy
      refine ⟨⟨hchanges.invariant, ?_⟩, hchanges.mono fun _ => Or.inl⟩
      rw [hchanges.tables, htables]
      exact hsound.tables
  | ofData token table route =>
      obtain ⟨getTableMetadata, now, later, answer, hexec⟩ := hserves
      obtain ⟨_, _, hresult, hcache, hchanges, -⟩ := wp_sound
        (wp_serveData hsound.invariant hsound.tables (outside_policy_of_data hpolicy)) hexec
      obtain ⟨rfl, rfl⟩ := Prod.mk.inj (Except.ok.inj hresult)
      refine ⟨⟨hchanges.invariant, ?_⟩, hchanges⟩
      rw [hchanges.tables]
      exact hcache

/-- The tables that such a request may write to are not those of the policy. -/
theorem outside_policy {request : Request} (hsound : Sound config server)
    (hpolicy : ¬ request.MayChangePolicy config upstream.faults server.world) (id : JsString)
    (h : IsUsersTable config.tablePrefix server.world.tables id ∨
      request.MayWrite config upstream.faults server.world id) :
    ¬ IsPolicyTable config.tablePrefix server.world.tables id := by
  rcases h with husers | hwrites
  · exact not_isPolicyTable_of_users hsound.invariant.2 husers
  · cases request with
    | ofRoute token route => exact hwrites.elim
    | ofData token table route => exact outside_policy_of_data hpolicy id hwrites

/-- While no request may change the policy, the server stays sound and the policy the same. -/
theorem policyKept_of_run (hsound : Sound config first)
    (hrun : Relation.ReflTransGen (ServerStep config upstream fun request server =>
      ¬ request.MayChangePolicy config upstream.faults server.world) first server) :
    Sound config server ∧ ChangesOnly config.tablePrefix
      (fun id => ¬ IsPolicyTable config.tablePrefix first.world.tables id)
      first.world server.world := by
  induction hrun with
  | refl => exact ⟨hsound, .refl hsound.invariant⟩
  | tail _ hstep ih =>
      obtain ⟨hmiddle, hkept⟩ := ih
      rcases hstep with ⟨elapsed, rfl⟩ | ⟨request, hpolicy, hserves⟩
      · have hkept' := hkept.trans (.of_unchanged hmiddle.invariant (Unchanged.advance _ elapsed))
        exact ⟨⟨hkept'.invariant, hmiddle.tables⟩, hkept'⟩
      · obtain ⟨hnext, hchanges⟩ := sound_of_serves hmiddle hpolicy hserves
        refine ⟨hnext, hkept.trans (hchanges.mono ?_)⟩
        intro id hid
        rw [← hkept.tables]
        exact outside_policy hmiddle hpolicy id hid

end

/-! ## A base with one more table -/

/-- A store with the user 7, whose role lets it create orders, and with one order. -/
def ordersWorld : World :=
  { World.holding []
      [(js "users", .ofRows [.ofCells 7 [(js "username", .string (js "alice"))]]),
        (js "user_roles", .ofRows
          [.ofCells 1 [(js "user_id", .number (.ofNat 7)), (js "role_id", .number (.ofNat 3))]]),
        (js "roles", .ofRows [.ofCells 3 [(js "role_name", .string (js "clerk"))]]),
        (js "table_permissions", .ofRows
          [.ofCells 1 [(js "role_id", .number (.ofNat 3)),
            (js "table_name", .string (js "orders")), (js "can_create", .boolean true)]]),
        (js "orders", .ofRows [.ofCells 1 [(js "title", .string (js "first"))]])] with
    tables := systemTables [] ++ [⟨js "orders", js "orders", none⟩] }

/-- A server that has just started on this store. -/
def ordersServer : Server :=
  ⟨ordersWorld, .empty⟩

/-- No prefix, and local users. -/
def ordersConfig : Config :=
  ⟨[], .ascii, .localNocodb, some (js "secret")⟩

/-- NocoDB stores texts, and no request fails. -/
def ordersUpstream : Upstream where
  order := numericOrder
  stored value :=
    match value with
    | .string text => .string text
    | _ => .null
  rejects _ := false
  faults := false

/-- The user 7 creates an order. -/
def createOrder : Request :=
  .ofData (some ⟨some (.string (js "7")), none, none, none, none, none, none, none⟩) (js "orders")
    (.create (some (.object [(js "title", .string (js "second"))])))

theorem distinctTables_orders :
    DistinctTables ordersConfig.tablePrefix ordersServer.world.tables :=
  distinctTables_of_titles (by decide) (by decide)

theorem separate_orders : Separate ordersConfig ordersServer.world.tables :=
  separate_of_titles (by decide) (by decide)

theorem not_isUsersTable_orders : ¬ IsUsersTable [] ordersWorld.tables (js "orders") := by
  rintro ⟨found, hfound, hid⟩
  have hname : (resolve [] ordersWorld.tables SystemTable.users.name).map TableMeta.id =
      some (js "users") := by decide
  rw [hfound, Option.map_some, hid] at hname
  revert hname
  decide

/-- The order is created. -/
theorem createOrder_serves : ∃ served : Server,
    createOrder.Serves ordersConfig ordersUpstream ordersServer served ∧
      served.world.rows (js "orders") ≠ ordersWorld.rows (js "orders") := by
  have hrun : ((pagedNocodb numericOrder false).run
      (serveData ordersConfig ordersUpstream.stored ordersUpstream.rejects
        (some ⟨some (.string (js "7")), none, none, none, none, none, none, none⟩) (js "orders")
        (.create (some (.object [(js "title", .string (js "second"))])))
        (fun _ => .ok [⟨js "title", js "SingleLineText"⟩]) 0 0 .empty)
      (prompt 20) ordersWorld).any (fun outcome =>
        outcome.1.isOk && (outcome.2.rows (js "orders")).rows.length = 2) = true := by
    decide +kernel
  obtain ⟨⟨result, final⟩, hfinal, hcheck⟩ := (Option.any_eq_true _ _).mp hrun
  rw [Bool.and_eq_true] at hcheck
  cases result with
  | error exception => exact Bool.noConfusion hcheck.1
  | ok answered =>
      refine ⟨⟨final, answered.2⟩, ⟨_, 0, 0, answered.1, System.exec_of_run _ hfinal⟩, ?_⟩
      intro hsame
      have hlength := of_decide_eq_true hcheck.2
      rw [show final.rows (js "orders") = ordersWorld.rows (js "orders") from hsame] at hlength
      revert hlength
      decide

/-! ## Main results -/

/-- Whatever requests are served, with whatever tokens, and whichever requests to NocoDB fail:
while none of them is entitled to change the policy, the roles, their assignments and their
permissions stay what they are, and so does what they grant. -/
theorem policy_changed_by_entitled_only (config : Config) (upstream : Upstream)
    {first last : Server} (hempty : first.world.cache = .empty) (htables : first.tables = .empty)
    (hdistinct : DistinctTables config.tablePrefix first.world.tables)
    (hrun : Relation.ReflTransGen (ServerStep config upstream fun request server =>
      ¬ request.MayChangePolicy config upstream.faults server.world) first last) :
    (∀ table, table ≠ .users → systemRows config.tablePrefix last.world table =
        systemRows config.tablePrefix first.world table) ∧
      ∀ userId table action, Grants config.tablePrefix last.world userId table action ↔
        Grants config.tablePrefix first.world userId table action := by
  obtain ⟨-, hkept⟩ := policyKept_of_run
    (sound_of_empty hempty htables hdistinct) hrun
  exact ⟨hkept.policyRows_eq fun _ hid => hid, hkept.grants_iff fun _ hid => hid⟩

/-- Who only writes to the data API changes no permission. -/
theorem policy_changed_by_entitled_only_orders : ∃ served : Server,
    createOrder.Serves ordersConfig ordersUpstream ordersServer served ∧
      (∀ table, table ≠ .users →
        systemRows [] served.world table = systemRows [] ordersWorld table) ∧
      ∀ userId table action, Grants [] served.world userId table action ↔
        Grants [] ordersWorld userId table action := by
  obtain ⟨served, hserves, -⟩ := createOrder_serves
  have hrun : Relation.ReflTransGen (ServerStep ordersConfig ordersUpstream fun request server =>
      ¬ request.MayChangePolicy ordersConfig false server.world) ordersServer served :=
    .single (Or.inr ⟨createOrder, not_mayChangePolicy_of_separate separate_orders _ _ _, hserves⟩)
  exact ⟨served, hserves, policy_changed_by_entitled_only ordersConfig ordersUpstream rfl rfl
    distinctTables_orders hrun⟩

/-- In such a run the records of a table other than the users table are changed only by requests
of the data API to that table, whose user may do so by its scope or by the policy of the start. -/
theorem records_changed_by_permitted_only (config : Config) (upstream : Upstream)
    {first server server' : Server} (hempty : first.world.cache = .empty)
    (htables : first.tables = .empty)
    (hdistinct : DistinctTables config.tablePrefix first.world.tables)
    (hrun : Relation.ReflTransGen (ServerStep config upstream fun request server =>
      ¬ request.MayChangePolicy config upstream.faults server.world) first server)
    {request : Request} (hserves : request.Serves config upstream server server')
    (hpolicy : ¬ request.MayChangePolicy config upstream.faults server.world) {id : JsString}
    (husers : ¬ IsUsersTable config.tablePrefix first.world.tables id)
    (hchanged : server'.world.rows id ≠ server.world.rows id) :
    ∃ token table route user, request = .ofData token table route ∧ route.action ≠ .read ∧
      ResolvesTo config.tablePrefix first.world.tables table id ∧
      Authenticates config upstream.faults server.world token user ∧
      Holds config.tablePrefix first.world (requestUser user) ⟨table, route.action⟩ := by
  obtain ⟨hsound, hkept⟩ := policyKept_of_run
    (sound_of_empty hempty htables hdistinct) hrun
  obtain ⟨-, hchanges⟩ := sound_of_serves hsound hpolicy hserves
  rw [hkept.tables] at hchanges
  have hwrites : request.MayWrite config upstream.faults server.world id := by
    by_contra hnot
    exact hchanged (hchanges.elsewhere id (not_or.mpr ⟨husers, hnot⟩))
  cases request with
  | ofRoute token route => exact hwrites.elim
  | ofData token table route =>
      obtain ⟨haction, ⟨user, huser, hadmitted⟩, hresolves⟩ := hwrites
      rw [hkept.tables] at hresolves
      refine ⟨token, table, route, user, rfl, haction, hresolves, huser, ?_⟩
      exact (hkept.holds_iff (fun _ hid => hid) _ _).mp hadmitted.holds

/-- The order that is created is one that the user 7 may create. -/
theorem records_changed_by_permitted_only_orders : ∃ served : Server,
    createOrder.Serves ordersConfig ordersUpstream ordersServer served ∧
      ∃ token table route user, createOrder = .ofData token table route ∧ route.action ≠ .read ∧
        ResolvesTo [] ordersWorld.tables table (js "orders") ∧
        Authenticates ordersConfig false ordersWorld token user ∧
        Holds [] ordersWorld (requestUser user) ⟨table, route.action⟩ := by
  obtain ⟨served, hserves, hchanged⟩ := createOrder_serves
  refine ⟨served, hserves, ?_⟩
  have hrun : Relation.ReflTransGen (ServerStep ordersConfig ordersUpstream fun request server =>
      ¬ request.MayChangePolicy ordersConfig false server.world) ordersServer ordersServer := .refl
  exact records_changed_by_permitted_only ordersConfig ordersUpstream rfl rfl
    distinctTables_orders hrun hserves (not_mayChangePolicy_of_separate separate_orders _ _ _)
    not_isUsersTable_orders hchanged

end Http
end NocoMiddleware
