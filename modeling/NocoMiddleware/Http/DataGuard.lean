import NocoMiddleware.Http.DataRequests

/-!
# `TablePermissionsGuard` with its lookups

Which requests of the data API pass the guard, and what the others are answered.  Invalid names
and names of system tables get the answer of a table that does not exist.
-/

namespace NocoMiddleware
namespace Http

open NocoMiddleware.Js NocoMiddleware.Tables NocoMiddleware.Store NocoMiddleware.Permissions
open NocoMiddleware.Auth NocoMiddleware.Foundation NocoMiddleware.Data NocoMiddleware.Runs

/-! ## What it asks for -/

/-- What the guard of the data API asks of a request and its user. -/
structure AdmitsData (config : Config) (world : World) (table : JsString) (action : CrudAction)
    (user : AuthenticatedUser) : Prop where
  valid : isValidTableName config.unicode table = true
  external : table ∉ Data.systemTables
  identified : (JsValue.number user.userId).truthy = true
  holds : Holds config.tablePrefix world (requestUser user) ⟨table, action⟩

/-- The exception for a request without a user. -/
def accessDenied : Exception :=
  .forbidden (js "Access denied")

/-- Why the guard of the data API refuses a request. -/
inductive DataDenied (config : Config) (faults : Bool) (world : World) (table : JsString)
    (action : CrudAction) (user : Option AuthenticatedUser) : Exception → Prop where
  | notFound (hname : ¬ (isValidTableName config.unicode table = true ∧
      table ∉ Data.systemTables)) :
      DataDenied config faults world table action user (tableNotFound table)
  | anonymous (hname : isValidTableName config.unicode table = true ∧ table ∉ Data.systemTables)
      (hnobody : ∀ caller, user = some caller →
        (JsValue.number caller.userId).truthy = false) :
      DataDenied config faults world table action user accessDenied
  | refused {caller : AuthenticatedUser} {exception : Exception}
      (hname : isValidTableName config.unicode table = true ∧ table ∉ Data.systemTables)
      (huser : user = some caller) (hidentified : (JsValue.number caller.userId).truthy = true)
      (hrefuses : Refuses config.tablePrefix faults world (requestUser caller) ⟨table, action⟩
        exception) :
      DataDenied config faults world table action user exception

/-! ## What it decides -/

section

variable {config : Config} {faults : Bool} {world : World}

/-- The check of the name. -/
theorem not_named_iff (config : Config) (table : JsString) :
    (!isValidTableName config.unicode table || Data.systemTables.contains table) = true ↔
      ¬ (isValidTableName config.unicode table = true ∧ table ∉ Data.systemTables) := by
  simp [Classical.or_iff_not_imp_left]

/-- The guard of the data API only reads, and lets those through that it is meant to. -/
theorem wp_admitData {table : JsString} {route : DataRoute} {user : Option AuthenticatedUser}
    (hinvariant : CacheInvariant config.tablePrefix world) :
    wp (nocodb faults).contract (admitData config (dataRequest user table route))
      (fun result world' => OnlyRead config.tablePrefix world world' ∧
        match result with
        | .ok _ => ∃ caller, user = some caller ∧
            AdmitsData config world table route.action caller
        | .error exception => DataDenied config faults world table route.action user exception)
      world := by
  unfold admitData dataRequest
  dsimp only [Option.getD_some]
  have hnamed := not_named_iff config table
  by_cases hname : isValidTableName config.unicode table = true ∧ table ∉ Data.systemTables
  · rw [if_neg (mt hnamed.mp (not_not.mpr hname)), methodAction_method]
    cases user with
    | none =>
        refine ⟨.refl hinvariant, .anonymous hname ?_⟩
        intro caller hcaller
        contradiction
    | some caller =>
        show wp _ (if (JsValue.number caller.userId).truthy then
          checkPermission config.tablePrefix (requestUser caller) ⟨table, route.action⟩
          else throw accessDenied) _ world
        by_cases hidentified : (JsValue.number caller.userId).truthy = true
        · rw [if_pos hidentified]
          apply wp_mono (wp_checkPermission hinvariant)
          rintro (exception | _) world' ⟨hread, hresult⟩
          · exact ⟨hread, .refused hname rfl hidentified hresult⟩
          · exact ⟨hread, caller, rfl, hname.1, hname.2, hidentified, hresult⟩
        · rw [if_neg hidentified]
          refine ⟨.refl hinvariant, .anonymous hname ?_⟩
          rintro _ ⟨⟩
          exact Bool.eq_false_of_not_eq_true hidentified
  · rw [if_pos (hnamed.mpr hname)]
    exact ⟨.refl hinvariant, .notFound hname⟩

/-- Who is refused is not admitted. -/
theorem not_admitsData_of_denied {table : JsString} {action : CrudAction}
    {user : Option AuthenticatedUser} {exception : Exception}
    (h : DataDenied config false world table action user exception) :
    ¬ ∃ caller, user = some caller ∧ AdmitsData config world table action caller := by
  rintro ⟨caller, rfl, hadmitted⟩
  cases h with
  | notFound hname => exact hname ⟨hadmitted.valid, hadmitted.external⟩
  | anonymous _ hnobody =>
      have hfalse := hnobody caller rfl
      rw [hadmitted.identified] at hfalse
      contradiction
  | refused _ huser _ hrefuses =>
      obtain rfl := Option.some.inj huser
      exact not_holds_of_refuses hrefuses hadmitted.holds

end

/-! ## After a run -/

/-- The answer for a request of the data API that is refused. -/
def dataRefusal (config : Config) (table : JsString) (action : CrudAction)
    (user : Option AuthenticatedUser) : Exception :=
  if !isValidTableName config.unicode table || Data.systemTables.contains table then
    tableNotFound table
  else if user.any fun caller => (JsValue.number caller.userId).truthy then
    missingPermission ⟨table, action⟩
  else accessDenied

/-- After every run of successful calls that are careful with the cache, the guard of the data API
lets exactly the requests of admitted users through, and answers the others by their table and
their user, for all users whose id is a finite number.  It changes nothing. -/
theorem data_guard_exact_after_run (config : Config) {first world : World}
    (hempty : first.cache = .empty) (hdistinct : DistinctTables config.tablePrefix first.tables)
    (hrun : Relation.ReflTransGen (SequentialStep config.tablePrefix fun call world world' =>
      call.Careful config.tablePrefix world world') first world)
    (table : JsString) (route : DataRoute) (user : Option AuthenticatedUser)
    (hfinite : ∀ caller ∈ user, ∃ x, caller.userId = .finite x)
    {result : Except Exception Unit} {final : World}
    (hexec : Exec (nocodb false).contract (admitData config (dataRequest user table route)) world
      result final) :
    OnlyRead config.tablePrefix world final ∧
      ((result = .ok () ∧ ∃ caller ∈ user, AdmitsData config world table route.action caller) ∨
        (result = .error (dataRefusal config table route.action user) ∧
          ¬ ∃ caller ∈ user, AdmitsData config world table route.action caller)) := by
  have hinvariant := cacheInvariant_sequentialStep.reflTransGen _ _ hrun
    ⟨coherent_of_empty hempty, hdistinct⟩
  obtain ⟨hread, hresult⟩ := wp_sound (wp_admitData hinvariant) hexec
  refine ⟨hread, ?_⟩
  cases result with
  | ok _ =>
      obtain ⟨caller, huser, hadmitted⟩ := hresult
      exact Or.inl ⟨rfl, caller, huser, hadmitted⟩
  | error exception =>
      refine Or.inr ⟨?_, not_admitsData_of_denied hresult⟩
      have hrefusal : exception = dataRefusal config table route.action user := by
        unfold dataRefusal
        have hnamed := not_named_iff config table
        cases hresult with
        | notFound hname => rw [if_pos (hnamed.mpr hname)]
        | anonymous hname hnobody =>
            rw [if_neg (mt hnamed.mp (not_not.mpr hname)), if_neg]
            intro hany
            obtain ⟨caller, huser, hidentified⟩ := (Option.any_eq_true _ _).mp hany
            rw [hnobody caller huser] at hidentified
            contradiction
        | refused hname huser hidentified hrefuses =>
            have hany : (user.any fun caller => (JsValue.number caller.userId).truthy) = true :=
              (Option.any_eq_true _ _).mpr ⟨_, huser, hidentified⟩
            rw [if_neg (mt hnamed.mp (not_not.mpr hname)), if_pos hany]
            rcases hrefuses with ⟨-, hexception⟩ | ⟨-, hfails | ⟨hinfinite, -⟩⟩
            · exact hexception
            · contradiction
            · obtain ⟨x, hx⟩ := hfinite _ huser
              exact absurd hx (hinfinite x)
      rw [hrefusal]

/-- No prefix, and local users. -/
def localConfig : Config :=
  ⟨[], .ascii, .localNocodb, none⟩

/-- The user 7, without a scope. -/
def readerCaller : AuthenticatedUser :=
  ⟨.ofNat 7, .undefined, .undefined, [], []⟩

/-- The user 7 may read orders. -/
theorem data_guard_exact_after_run_reader :
    ∃ result final, Exec (nocodb false).contract
        (admitData localConfig (dataRequest (some readerCaller) (js "orders") (.read (.ofNat 1))))
        readerWorld result final ∧
      OnlyRead [] readerWorld final ∧
      ((result = .ok () ∧ ∃ caller ∈ some readerCaller,
          AdmitsData localConfig readerWorld (js "orders") .read caller) ∨
        (result = .error (dataRefusal localConfig (js "orders") .read (some readerCaller)) ∧
          ¬ ∃ caller ∈ some readerCaller,
            AdmitsData localConfig readerWorld (js "orders") .read caller)) := by
  obtain ⟨result, final, hexec⟩ := exists_exec (nocodb_total false)
    (admitData localConfig (dataRequest (some readerCaller) (js "orders") (.read (.ofNat 1))))
    readerWorld
  have hfinite : ∀ caller ∈ some readerCaller, ∃ x, caller.userId = .finite x := by
    rintro caller ⟨⟩
    exact ⟨_, rfl⟩
  have hdistinct : DistinctTables localConfig.tablePrefix readerWorld.tables :=
    distinctTables_systemTables []
  exact ⟨result, final, hexec, data_guard_exact_after_run localConfig rfl hdistinct .refl
    (js "orders") (.read (.ofNat 1)) (some readerCaller) hfinite hexec⟩

end Http
end NocoMiddleware
