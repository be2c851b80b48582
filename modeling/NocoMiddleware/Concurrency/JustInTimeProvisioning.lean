import NocoMiddleware.Concurrency.Threads
import NocoMiddleware.Runs.AccountLinks

/-!
# Interleaved provisioning of one identity

`upsertIdentityUser` looks a subject and an email up and then overwrites the user that it
found, or creates one.  Interleaved calls with the same claims create at most one user, and
resolve to it, as long as each create request finds no user of the subject.  Two calls that
both look up before either creates leave two users.
-/

namespace NocoMiddleware
namespace Concurrency

open NocoMiddleware.Js NocoMiddleware.Filter NocoMiddleware.Tables NocoMiddleware.Store
open NocoMiddleware.Auth NocoMiddleware.Runs NocoMiddleware.Foundation

/-- A create request finds no user of the subject. -/
def Unprovisioned {ι α : Type} (tablePrefix : JsString) (claims : NormalizedIdentityClaims)
    (config : ServiceConfig ι α) (_ : ι) (op : Op) : Prop :=
  op.createsIn.isSome = true →
    ∀ row ∈ systemRows tablePrefix config.world .users, ¬ IsOfSubject claims row

instance {ι α : Type} (tablePrefix : JsString) (claims : NormalizedIdentityClaims)
    (config : ServiceConfig ι α) (thread : ι) (op : Op) :
    Decidable (Unprovisioned tablePrefix claims config thread op) :=
  inferInstanceAs (Decidable (_ → _))

section

variable {ι : Type} (tablePrefix : JsString) (tables : List TableMeta)
variable (claims : NormalizedIdentityClaims)

/-- The filter of a lookup asks for the users of the subject, or for those of the email. -/
def IsUserFilter (filter : JsString) : Prop :=
  filterBoth (js "auth_provider") (.string claims.provider.text) (js "external_subject")
      (.string claims.subject) = .ok filter ∨
    ∃ email, claims.email.filter (· ≠ []) = some email ∧
      filterEqValue (js "email") (.string email) = .ok filter

/-- The thread has looked the user up. -/
def HasLookedUp (events : List (ServiceEvent ι)) (record : NocoRecord) : Prop :=
  ∃ thread found filter limit records,
    resolve tablePrefix tables SystemTable.users.name = some found ∧ IsUserFilter claims filter ∧
      (⟨thread, .list found.id filter limit, .ok records⟩ : ServiceEvent ι) ∈ events ∧
      record ∈ records

/-- The step creates the user, or overwrites a user that the thread has looked up. -/
def IsUpsert (events : List (ServiceEvent ι)) (op : Op) : Prop :=
  ∃ found, resolve tablePrefix tables SystemTable.users.name = some found ∧
    (op = .create found.id (identityUserData claims) ∨
      ∃ record recordId data, HasLookedUp tablePrefix tables claims events record ∧
        extractNumericId record = .ok recordId ∧
        (data = refreshedData claims record ∨ data = linkedData claims record) ∧
        op = .update found.id recordId data)

/-- The only writes upsert the user. -/
def OnlyUpserts (events : List (ServiceEvent ι)) (op : Op) : Prop :=
  op.isWrite = true → IsUpsert tablePrefix tables claims events op

/-- The record that a write is answered with. -/
def writtenRecord : ServiceEvent ι → Option NocoRecord
  | ⟨_, .create _ _, .ok record⟩ => some record
  | ⟨_, .update _ _ _, .ok record⟩ => some record
  | _ => none

/-- A write was answered with the record of the user id. -/
def HasUpserted (events : List (ServiceEvent ι)) (userId : JsNumber) : Prop :=
  ∃ event ∈ events, ∃ record, writtenRecord event = some record ∧
    extractNumericId record = .ok userId

/-- A call that succeeds resolves to a user that it has written. -/
def ResolvesToUpserted : Except Exception ResolvedIdentity → List (ServiceEvent ι) → Prop
  | .ok identity, events => HasUpserted events identity.userId
  | .error _, _ => True

/-- At most one user of the subject, which is also the one of the email, and every record
that was looked up or written is still the user of the subject. -/
structure Provisioned (history : List (ServiceEvent ι)) (world : World) : Prop where
  sameTables : world.tables = tables
  one : AtMostOne (IsOfSubject claims) (systemRows tablePrefix world .users)
  emails : ∀ row ∈ systemRows tablePrefix world .users,
    IsOfEmail claims row → IsOfSubject claims row
  found : ∀ record, HasLookedUp tablePrefix tables claims history record →
    ∃ row ∈ systemRows tablePrefix world .users,
      extractNumericId record = .ok (.ofNat row.id) ∧ IsOfSubject claims row
  written : ∀ userId, HasUpserted history userId →
    ∃ row ∈ systemRows tablePrefix world .users,
      userId = .ofNat row.id ∧ IsOfSubject claims row

/-- The user is created where there is none of the subject, or overwritten. -/
def UserWritten (world : World) (record : NocoRecord) (world' : World) : Prop :=
  (∃ row, (∀ other ∈ systemRows tablePrefix world .users, ¬ IsOfSubject claims other) ∧
    IsOfSubject claims row ∧ record = flattenRecord none row ∧
    Changed tablePrefix .users (.insert row) world world') ∨
  ∃ row data, IsOfSubject claims row ∧ IsOfSubject claims (row.patch data) ∧
    record = flattenRecord none (row.patch data) ∧
    Changed tablePrefix .users (.patch row data) world world'

/-- How a write of a thread ends: it changes nothing when it fails, and is answered with
the user that it has written. -/
def WriteOutcome (world : World) : Except Exception NocoRecord → World → Prop
  | .ok record, world' => UserWritten tablePrefix claims world record world'
  | .error _, world' => Unchanged world world'

end

section

variable {ι : Type} {faults : Bool} {tablePrefix : JsString} {tables : List TableMeta}
variable {claims : NormalizedIdentityClaims}

/-! ## One call -/

theorem HasLookedUp.mono {events later : List (ServiceEvent ι)} {record : NocoRecord}
    (h : HasLookedUp tablePrefix tables claims events record)
    (hlater : ∀ event ∈ events, event ∈ later) :
    HasLookedUp tablePrefix tables claims later record := by
  obtain ⟨thread, found, filter, limit, records, hfound, hfilter, hevent, hrecord⟩ := h
  exact ⟨thread, found, filter, limit, records, hfound, hfilter, hlater _ hevent, hrecord⟩

/-- The rule for a lookup that is followed by other steps. -/
theorem wp_next_lookup {thread : ι} {found : TableMeta} {filter : JsString}
    {second : Option NocoRecord → Service ResolvedIdentity} {events : List (ServiceEvent ι)}
    (hfound : resolve tablePrefix tables SystemTable.users.name = some found)
    (hfilter : IsUserFilter claims filter)
    (hnext : ∀ user later, (∀ event ∈ events, event ∈ later) →
      (∀ record, user = some record → HasLookedUp tablePrefix tables claims later record) →
      wp (recorded thread (OnlyUpserts tablePrefix tables claims) (SeesTables tables))
        (second user) ResolvesToUpserted later) :
    wp (recorded thread (OnlyUpserts tablePrefix tables claims) (SeesTables tables))
      (findOne found.id filter >>= second) ResolvesToUpserted events := by
  refine wp_next_findOne (by nofun) (fun _ _ => trivial) fun records _ => ?_
  refine hnext _ _ (fun event => List.mem_append_left _) fun record hrecord => ?_
  exact ⟨thread, found, filter, 1, records, hfound, hfilter, by simp, List.mem_of_mem_head? hrecord⟩

/-- What `upsertIdentityUser` does with the users that it has looked up. -/
theorem wp_upsertLookedUp_recorded {thread : ι} {found : TableMeta}
    {bySubject byEmail : Option NocoRecord} {events : List (ServiceEvent ι)}
    (hfound : resolve tablePrefix tables SystemTable.users.name = some found)
    (hsubject : ∀ record, bySubject = some record →
      HasLookedUp tablePrefix tables claims events record)
    (hemail : ∀ record, byEmail = some record →
      HasLookedUp tablePrefix tables claims events record) :
    wp (recorded thread (OnlyUpserts tablePrefix tables claims) (SeesTables tables))
      (upsertLookedUp found.id claims bySubject byEmail) ResolvesToUpserted events := by
  have hfail : ∀ (exception : Exception) (events : List (ServiceEvent ι)),
      ResolvesToUpserted (.error exception) events := fun _ _ => trivial
  -- the call resolves to the record that it has written
  have hresolve : ∀ (record : NocoRecord) (events : List (ServiceEvent ι)),
      (∃ event ∈ events, writtenRecord event = some record) →
      ResolvesToUpserted (toResolvedIdentity record claims.roles) events := by
    rintro record events ⟨event, hevent, hwritten⟩
    cases hresolved : toResolvedIdentity record claims.roles with
    | error exception => trivial
    | ok identity => exact ⟨event, hevent, record, hwritten, userId_of_toResolvedIdentity hresolved⟩
  -- a user that was looked up is overwritten
  have hupdate : ∀ {record recordId data}, HasLookedUp tablePrefix tables claims events record →
      extractNumericId record = .ok recordId →
      (data = refreshedData claims record ∨ data = linkedData claims record) →
      wp (recorded thread (OnlyUpserts tablePrefix tables claims) (SeesTables tables))
        (do
          let updated ← update found.id recordId data
          Program.ofExcept (toResolvedIdentity updated claims.roles))
        ResolvesToUpserted events := by
    intro record recordId data hlookedUp hid hdata
    refine wp_next (fun _ => ?_) hfail fun updated _ => ?_
    · exact ⟨found, hfound, Or.inr ⟨record, recordId, data, hlookedUp, hid, hdata, rfl⟩⟩
    · exact hresolve updated _ ⟨_, List.mem_append_right _ (List.mem_singleton_self _), rfl⟩
  unfold upsertLookedUp
  refine wp_next_ofExcept hfail fun conflicts _ => ?_
  split
  · trivial
  · cases bySubject with
    | some record =>
        refine wp_next_ofExcept hfail fun recordId hid => ?_
        exact hupdate (hsubject record rfl) hid (Or.inl rfl)
    | none =>
        cases byEmail with
        | some record =>
            refine wp_next_ofExcept hfail fun recordId hid => ?_
            exact hupdate (hemail record rfl) hid (Or.inr rfl)
        | none =>
            refine wp_next (fun _ => ⟨found, hfound, Or.inl rfl⟩) hfail fun created _ => ?_
            exact hresolve created _ ⟨_, List.mem_append_right _ (List.mem_singleton_self _), rfl⟩

theorem wp_upsertIdentityUser_recorded {thread : ι} {events : List (ServiceEvent ι)} :
    wp (recorded thread (OnlyUpserts tablePrefix tables claims) (SeesTables tables))
      (upsertIdentityUser tablePrefix claims) ResolvesToUpserted events := by
  have hfail : ∀ (exception : Exception) (events : List (ServiceEvent ι)),
      ResolvesToUpserted (.error exception) events := fun _ _ => trivial
  refine wp_next_getTableByName (by nofun) hfail fun listed hlisted => ?_
  obtain rfl : listed = tables := hlisted
  cases hfound : resolve tablePrefix listed SystemTable.users.name with
  | none => trivial
  | some found =>
      have hemailNext : ∀ {bySubject events},
          (∀ record, bySubject = some record →
            HasLookedUp tablePrefix listed claims events record) →
          wp (recorded thread (OnlyUpserts tablePrefix listed claims) (SeesTables listed))
            (findByEmail found.id claims >>= fun byEmail =>
              upsertLookedUp found.id claims bySubject byEmail) ResolvesToUpserted events := by
        intro bySubject events hsubject
        unfold findByEmail
        cases hemail : claims.email.filter (· ≠ []) with
        | none => exact wp_upsertLookedUp_recorded hfound hsubject (by nofun)
        | some email =>
            rw [wp_bind]
            refine wp_next_ofExcept hfail fun filter hfilter => ?_
            rw [← wp_bind]
            have hof : IsUserFilter claims filter := Or.inr ⟨email, hemail, hfilter⟩
            refine wp_next_lookup hfound hof fun user later hlater huser => ?_
            exact wp_upsertLookedUp_recorded hfound
              (fun record hrecord => (hsubject record hrecord).mono hlater) huser
      show wp _ (findBySubject found.id claims >>= fun bySubject =>
        findByEmail found.id claims >>= fun byEmail =>
          upsertLookedUp found.id claims bySubject byEmail) _ _
      rw [wp_bind, findBySubject]
      refine wp_next_ofExcept hfail fun filter hfilter => ?_
      rw [← wp_bind]
      exact wp_next_lookup hfound (Or.inl hfilter) fun user later _ huser => hemailNext huser

/-! ## What a write keeps -/

section

variable {world world' : World} {record : NocoRecord}

/-- A write of the user keeps at most one user of the subject. -/
theorem atMostOne_of_userWritten (h : UserWritten tablePrefix claims world record world')
    (hone : AtMostOne (IsOfSubject claims) (systemRows tablePrefix world .users)) :
    AtMostOne (IsOfSubject claims) (systemRows tablePrefix world' .users) := by
  rcases h with ⟨row, habsent, -, -, hchanged⟩ | ⟨row, data, hrow, -, -, hchanged⟩
  · obtain ⟨before, after, hbefore, hafter, hfresh, rfl⟩ := hchanged.applies
    rw [hbefore] at hone habsent
    rw [hafter, Table.rows_insert]
    exact hone.append_singleton fun _ => habsent
  · exact hone.replace hchanged.mem_of_patch (fun _ => hrow) fun _ => hchanged.of_mem_patch

/-- What is written is a user of the subject. -/
theorem of_userWritten (h : UserWritten tablePrefix claims world record world') :
    ∃ row ∈ systemRows tablePrefix world' .users,
      extractNumericId record = .ok (.ofNat row.id) ∧ IsOfSubject claims row := by
  rcases h with ⟨row, -, hrow, rfl, hchanged⟩ | ⟨row, data, -, hrow, rfl, hchanged⟩
  · exact ⟨row, hchanged.inserted_mem.2, rfl, hrow⟩
  · have hmem := hchanged.mem_patch hchanged.mem_of_patch
    rw [if_pos rfl] at hmem
    exact ⟨row.patch data, hmem, rfl, hrow⟩

/-- The users of the subject stay, with their ids. -/
theorem kept_of_userWritten (h : UserWritten tablePrefix claims world record world') {old : Row}
    (hold : old ∈ systemRows tablePrefix world .users) (hsubject : IsOfSubject claims old) :
    ∃ row ∈ systemRows tablePrefix world' .users, row.id = old.id ∧ IsOfSubject claims row := by
  rcases h with ⟨row, -, -, -, hchanged⟩ | ⟨row, data, -, hrow, -, hchanged⟩
  · exact ⟨old, hchanged.mem_of_insert hold, rfl, hsubject⟩
  · have hmem := hchanged.mem_patch hold
    split at hmem
    · next hsame =>
        subst hsame
        exact ⟨_, hmem, rfl, hrow⟩
    · exact ⟨old, hmem, rfl, hsubject⟩

/-- The other users are those of before. -/
theorem new_of_userWritten (h : UserWritten tablePrefix claims world record world') {new : Row}
    (hnew : new ∈ systemRows tablePrefix world' .users) :
    new ∈ systemRows tablePrefix world .users ∨ IsOfSubject claims new := by
  rcases h with ⟨row, -, hrow, -, hchanged⟩ | ⟨row, data, -, hrow, -, hchanged⟩
  · rcases hchanged.mem_insert hnew with hold | rfl
    · exact Or.inl hold
    · exact Or.inr hrow
  · rcases hchanged.of_mem_patch hnew with ⟨hold, -⟩ | rfl
    · exact Or.inl hold
    · exact Or.inr hrow

/-! ## Steps of the threads -/

variable {history events : List (ServiceEvent ι)} {thread : ι} {op : Op}
variable {result : Except Exception (Res op)}

theorem writeOutcome_of_create (hclaims : IsExternal claims) {found : TableMeta}
    (hfound : resolve tablePrefix world.tables SystemTable.users.name = some found)
    (habsent : ∀ row ∈ systemRows tablePrefix world .users, ¬ IsOfSubject claims row)
    {answer : Except Exception NocoRecord}
    (hstep : (nocodb faults).contract.step (.create found.id (identityUserData claims)) world answer
      world') : WriteOutcome tablePrefix claims world answer world' := by
  have hcreate : wp (nocodb faults).contract (create found.id (identityUserData claims))
      (WriteOutcome tablePrefix claims world) world := by
    refine wp_create_changed (Unchanged.refl world) hfound (fun _ _ h => h) ?_
    intro row later hcells hchanged
    have hrow : IsOfSubject claims row :=
      (isOfSubject_iff hclaims row).mpr (isLinkedTo_created hclaims hcells)
    exact Or.inl ⟨row, habsent, hrow, rfl, hchanged⟩
  exact hcreate.2 _ _ hstep

theorem writeOutcome_of_update (hclaims : IsExternal claims) {found : TableMeta} {row : Row}
    {data : Payload} (hfound : resolve tablePrefix world.tables SystemTable.users.name = some found)
    (hmem : row ∈ systemRows tablePrefix world .users) (hrow : IsOfSubject claims row)
    (hdata : data = refreshedData claims record ∨ data = linkedData claims record)
    {answer : Except Exception NocoRecord}
    (hstep : (nocodb faults).contract.step (.update found.id (.ofNat row.id) data) world answer
      world') : WriteOutcome tablePrefix claims world answer world' := by
  rw [systemRows_eq hfound] at hmem
  have hupdate : wp (nocodb faults).contract (update found.id (.ofNat row.id) data)
      (WriteOutcome tablePrefix claims world) world := by
    refine wp_update_changed (Unchanged.refl world) hfound hmem (fun _ _ h => h) ?_
    intro later hchanged
    refine Or.inr ⟨row, data, hrow, ?_, rfl, hchanged⟩
    rw [isOfSubject_iff hclaims] at hrow ⊢
    rcases hdata with rfl | rfl
    · exact (isLinkedTo_refreshed record row).mpr hrow
    · exact isLinkedTo_linked hclaims record row
  exact hupdate.2 _ _ hstep

/-- What a lookup answers is a user of the subject. -/
theorem found_of_list (hprovisioned : Provisioned tablePrefix tables claims history world)
    {found : TableMeta} {filter : JsString} {limit : Nat} {records : List NocoRecord}
    (hfound : resolve tablePrefix tables SystemTable.users.name = some found)
    (hfilter : IsUserFilter claims filter)
    (hstep : (nocodb faults).contract.step (.list found.id filter limit) world (.ok records) world')
    (hrecord : record ∈ records) :
    ∃ row ∈ systemRows tablePrefix world .users,
      extractNumericId record = .ok (.ofNat row.id) ∧ IsOfSubject claims row := by
  rw [← hprovisioned.sameTables] at hfound
  obtain ⟨rows, hselect, rfl⟩ := records_of_list hstep
  obtain ⟨row, hrow, rfl⟩ := List.mem_map.mp hrecord
  have hselected := List.mem_of_mem_take hrow
  rw [← systemRows_eq hfound] at hselect
  rcases hfilter with hfilter | ⟨email, hemail, hfilter⟩
  · rw [selectRows_filterBoth hfilter] at hselect
    simp only [satisfies_isOfSubject] at hselect
    obtain rfl := Option.some.inj hselect
    obtain ⟨hmem, hsubject⟩ := List.mem_filter.mp hselected
    exact ⟨row, hmem, rfl, of_decide_eq_true hsubject⟩
  · rw [selectRows_filterEqValue hfilter] at hselect
    simp only [satisfies_isOfEmail hemail] at hselect
    obtain rfl := Option.some.inj hselect
    obtain ⟨hmem, hof⟩ := List.mem_filter.mp hselected
    exact ⟨row, hmem, rfl, hprovisioned.emails row hmem (of_decide_eq_true hof)⟩

/-- A write keeps what the threads share. -/
theorem Provisioned.of_userWritten
    (hprovisioned : Provisioned tablePrefix tables claims history world)
    (htables : world'.tables = world.tables)
    (h : UserWritten tablePrefix claims world record world') :
    Provisioned tablePrefix tables claims history world' := by
  refine ⟨htables.trans hprovisioned.sameTables, atMostOne_of_userWritten h hprovisioned.one,
    ?_, ?_, ?_⟩
  · intro row hrow hemail
    rcases new_of_userWritten h hrow with hold | hsubject
    · exact hprovisioned.emails row hold hemail
    · exact hsubject
  · intro other hother
    obtain ⟨old, hold, hid, hsubject⟩ := hprovisioned.found other hother
    obtain ⟨row, hrow, hsame, hrowSubject⟩ := kept_of_userWritten h hold hsubject
    exact ⟨row, hrow, by rw [hid, hsame], hrowSubject⟩
  · intro userId hwritten
    obtain ⟨old, hold, rfl, hsubject⟩ := hprovisioned.written userId hwritten
    obtain ⟨row, hrow, hsame, hrowSubject⟩ := kept_of_userWritten h hold hsubject
    exact ⟨row, hrow, by rw [hsame], hrowSubject⟩

/-- Whatever leaves the tables and the users alone keeps what the threads share. -/
theorem Provisioned.of_same (hprovisioned : Provisioned tablePrefix tables claims history world)
    (htables : world'.tables = world.tables)
    (hrows : systemRows tablePrefix world' .users = systemRows tablePrefix world .users) :
    Provisioned tablePrefix tables claims history world' := by
  obtain ⟨hsame, hone, hemails, hfound, hwritten⟩ := hprovisioned
  rw [← hrows] at hone hemails hfound hwritten
  exact ⟨htables.trans hsame, hone, hemails, hfound, hwritten⟩

/-- An event keeps what the threads share if the records that it adds are of the subject. -/
theorem Provisioned.append (hprovisioned : Provisioned tablePrefix tables claims history world)
    (event : ServiceEvent ι)
    (hfound : ∀ record, HasLookedUp tablePrefix tables claims [event] record →
      ∃ row ∈ systemRows tablePrefix world .users,
        extractNumericId record = .ok (.ofNat row.id) ∧ IsOfSubject claims row)
    (hwritten : ∀ record, writtenRecord event = some record →
      ∃ row ∈ systemRows tablePrefix world .users,
        extractNumericId record = .ok (.ofNat row.id) ∧ IsOfSubject claims row) :
    Provisioned tablePrefix tables claims (history ++ [event]) world := by
  refine { hprovisioned with found := ?_, written := ?_ }
  · rintro record ⟨thread, found, filter, limit, records, hresolve, hfilter, hevent, hrecord⟩
    rcases List.mem_append.mp hevent with hevent | hevent
    · exact hprovisioned.found record
        ⟨thread, found, filter, limit, records, hresolve, hfilter, hevent, hrecord⟩
    · exact hfound record
        ⟨thread, found, filter, limit, records, hresolve, hfilter, hevent, hrecord⟩
  · rintro userId ⟨other, hother, record, hrecord, hid⟩
    rcases List.mem_append.mp hother with hother | hother
    · exact hprovisioned.written userId ⟨other, hother, record, hrecord, hid⟩
    · rw [List.mem_singleton.mp hother] at hrecord
      obtain ⟨row, hrow, hrowId, hsubject⟩ := hwritten record hrecord
      exact ⟨row, hrow, Except.ok.inj (hid.symm.trans hrowId), hsubject⟩

/-- A write of a thread keeps what the threads share. -/
theorem Provisioned.of_write (hprovisioned : Provisioned tablePrefix tables claims history world)
    (hwrite : op.isWrite = true) (htables : world'.tables = world.tables)
    {answer : Except Exception NocoRecord}
    (hanswer : ∀ record, writtenRecord (⟨thread, op, result⟩ : ServiceEvent ι) = some record →
      answer = .ok record)
    (houtcome : WriteOutcome tablePrefix claims world answer world') :
    Provisioned tablePrefix tables claims (history ++ [⟨thread, op, result⟩]) world' := by
  have hnotFound : ∀ {world' : World} record, HasLookedUp tablePrefix tables claims
      [(⟨thread, op, result⟩ : ServiceEvent ι)] record →
        ∃ row ∈ systemRows tablePrefix world' .users,
          extractNumericId record = .ok (.ofNat row.id) ∧ IsOfSubject claims row := by
    rintro world' record ⟨other, found, filter, limit, records, -, -, hevent, -⟩
    cases List.mem_singleton.mp hevent
    contradiction
  cases answer with
  | error exception =>
      have hunchanged : Unchanged world world' := houtcome
      refine (hprovisioned.of_same htables (hunchanged.systemRows_eq _ _)).append _ hnotFound ?_
      intro record hrecord
      exact absurd (hanswer record hrecord) (by nofun)
  | ok written =>
      refine (hprovisioned.of_userWritten htables houtcome).append _ hnotFound ?_
      intro record hrecord
      obtain rfl := Except.ok.inj (hanswer record hrecord)
      exact Concurrency.of_userWritten houtcome

/-- The steps of the threads keep what they share. -/
theorem Provisioned.of_step (hclaims : IsExternal claims)
    (hprovisioned : Provisioned tablePrefix tables claims history world)
    (hevents : ∀ event ∈ events, event ∈ history)
    (hop : OnlyUpserts tablePrefix tables claims events op)
    (habsent : op.createsIn.isSome = true →
      ∀ row ∈ systemRows tablePrefix world .users, ¬ IsOfSubject claims row)
    (hstep : (nocodb faults).contract.step op world result world') :
    Provisioned tablePrefix tables claims (history ++ [⟨thread, op, result⟩]) world' := by
  have htables := tables_of_step hstep
  cases hwrite : op.isWrite with
  | false =>
      have hrows : systemRows tablePrefix world' .users = systemRows tablePrefix world .users :=
        systemRows_of_step hstep hwrite
      -- a read changes nothing and may tell of a user that a lookup finds
      refine (hprovisioned.of_same htables hrows).append _ ?_ ?_
      · rintro record ⟨other, found, filter, limit, records, hfound, hfilter, hevent, hrecord⟩
        cases List.mem_singleton.mp hevent
        rw [hrows]
        exact found_of_list hprovisioned hfound hfilter hstep hrecord
      · intro record hrecord
        cases op with
        | create tableId data => contradiction
        | update tableId recordId data => contradiction
        | _ => contradiction
  | true =>
      obtain ⟨found, hfound, rfl | ⟨record, recordId, data, hlookedUp, hid, hdata, rfl⟩⟩ :=
        hop hwrite
      · rw [← hprovisioned.sameTables] at hfound
        refine hprovisioned.of_write hwrite htables ?_
          (writeOutcome_of_create hclaims hfound (habsent rfl) hstep)
        intro record hrecord
        cases result with
        | ok written => rw [Option.some.inj hrecord]
        | error exception => contradiction
      · -- the user that was looked up is still there
        obtain ⟨row, hrow, hrowId, hsubject⟩ := hprovisioned.found record (hlookedUp.mono hevents)
        obtain rfl : JsNumber.ofNat row.id = recordId := Except.ok.inj (hrowId.symm.trans hid)
        rw [← hprovisioned.sameTables] at hfound
        refine hprovisioned.of_write hwrite htables ?_
          (writeOutcome_of_update hclaims hfound hrow hsubject hdata hstep)
        intro record hrecord
        cases result with
        | ok written => rw [Option.some.inj hrecord]
        | error exception => contradiction

end

/-! ## Runs -/

variable [DecidableEq ι]

/-- Interleaved calls with the same claims create at most one user, and resolve to it, as
long as each create request finds no user of the subject. -/
theorem provisioned_of_interleaved (tablePrefix : JsString) {claims : NormalizedIdentityClaims}
    (hclaims : IsExternal claims) {first : World}
    (hsubject : ∀ row ∈ systemRows tablePrefix first .users, ¬ IsOfSubject claims row)
    (hemail : ∀ row ∈ systemRows tablePrefix first .users, ¬ IsOfEmail claims row)
    {config : ServiceConfig ι ResolvedIdentity}
    (hrun : Interleaved (nocodb true).contract (Unprovisioned tablePrefix claims)
      (Config.start (fun _ => upsertIdentityUser tablePrefix claims) first) config) :
    AtMostOne (IsOfSubject claims) (systemRows tablePrefix config.world .users) ∧
      ∀ thread other identity resolved, config.outcome thread = some (.ok identity) →
        config.outcome other = some (.ok resolved) → identity.userId = resolved.userId := by
  have hpreserves : Preserves (Step (nocodb true).contract (Unprovisioned tablePrefix claims))
      (Outlined (Provisioned tablePrefix first.tables claims)
        (fun (_ : ι) => OnlyUpserts tablePrefix first.tables claims)
        (SeesTables first.tables) (fun _ => ResolvesToUpserted)) := by
    refine preserves_outlined
      fun config thread op answer world hprovisioned hpermits hguard hstep => ?_
    refine ⟨?_, hprovisioned.of_step hclaims ?_ hpermits hguard hstep⟩
    · rw [← hprovisioned.sameTables]
      exact seesTables_of_step hstep
    · exact fun event hevent => (List.mem_filter.mp hevent).1
  have hstart : Outlined (Provisioned tablePrefix first.tables claims)
      (fun (_ : ι) => OnlyUpserts tablePrefix first.tables claims) (SeesTables first.tables)
      (fun _ => ResolvesToUpserted)
      (Config.start (fun _ => upsertIdentityUser tablePrefix claims) first) := by
    refine ⟨⟨rfl, ?_, ?_, ?_, ?_⟩, fun thread => wp_upsertIdentityUser_recorded⟩
    · intro row hrow _ _ hof
      exact absurd hof (hsubject row hrow)
    · intro row hrow hof
      exact absurd hof (hemail row hrow)
    · rintro record ⟨_, _, _, _, _, _, _, hevent, _⟩
      contradiction
    · rintro userId ⟨_, hevent, _⟩
      contradiction
  obtain ⟨hshared, hthreads⟩ := hpreserves.reflTransGen _ _ hrun hstart
  -- a call that succeeds resolves to the one user of the subject
  have hresolved : ∀ thread identity, config.outcome thread = some (.ok identity) →
      ∃ row ∈ systemRows tablePrefix config.world .users,
        identity.userId = .ofNat row.id ∧ IsOfSubject claims row := by
    intro thread identity houtcome
    have hthread := hthreads thread
    rw [Config.threads_of_outcome houtcome] at hthread
    obtain ⟨event, hevent, hrest⟩ : HasUpserted (config.eventsOf thread) identity.userId := hthread
    exact hshared.written _ ⟨event, (List.mem_filter.mp hevent).1, hrest⟩
  refine ⟨hshared.one, fun thread other identity resolved hthread hother => ?_⟩
  obtain ⟨row, hrow, hid, hof⟩ := hresolved thread identity hthread
  obtain ⟨row', hrow', hid', hof'⟩ := hresolved other resolved hother
  rw [hid, hid', hshared.one row hrow row' hrow' hof hof']

end

/-- Two calls for Ann's first login. -/
def twoLogins : ServiceConfig (Fin 2) ResolvedIdentity :=
  .start (fun _ => upsertIdentityUser [] (externalClaims (js "s1") (js "ann@x.org"))) noUsers

theorem isExternal_ann : IsExternal (externalClaims (js "s1") (js "ann@x.org")) :=
  ⟨tokenOf (js "s1") (js "ann@x.org"), by decide +kernel⟩

theorem provisioned_of_interleaved_ann :
    ∃ config : ServiceConfig (Fin 2) ResolvedIdentity,
      Interleaved (nocodb true).contract
          (Unprovisioned [] (externalClaims (js "s1") (js "ann@x.org"))) twoLogins config ∧
        (∀ thread, (config.outcome thread).any Except.isOk = true) ∧
        AtMostOne (IsOfSubject (externalClaims (js "s1") (js "ann@x.org")))
          (systemRows [] config.world .users) ∧
        ∀ thread other identity resolved, config.outcome thread = some (.ok identity) →
          config.outcome other = some (.ok resolved) → identity.userId = resolved.userId := by
  obtain ⟨config, hrun, hcheck⟩ := System.exists_interleaved
    (by decide +kernel : ((nocodb true).schedule
      (Unprovisioned [] (externalClaims (js "s1") (js "ann@x.org")))
      (List.replicate 4 (0, promptly 9) ++ List.replicate 4 (1, promptly 10)) twoLogins).any
      (fun config => decide (∀ thread, (config.outcome thread).any Except.isOk = true)) = true)
  have hnone : systemRows [] noUsers .users = [] := rfl
  refine ⟨config, hrun, of_decide_eq_true hcheck,
    provisioned_of_interleaved [] isExternal_ann ?_ ?_ hrun⟩
  · rw [hnone]
    nofun
  · rw [hnone]
    nofun

/-- Two calls that look the user up before either creates it create two users, and resolve
to different ones. -/
theorem provisioned_twice :
    systemRows [] noUsers .users = [] ∧
      ∃ config : ServiceConfig (Fin 2) ResolvedIdentity,
        Interleaved (nocodb true).contract AnyOrder twoLogins config ∧
          ¬ AtMostOne (IsOfSubject (externalClaims (js "s1") (js "ann@x.org")))
            (systemRows [] config.world .users) ∧
          ∃ identity resolved, config.outcome 0 = some (.ok identity) ∧
            config.outcome 1 = some (.ok resolved) ∧ identity.userId ≠ resolved.userId := by
  obtain ⟨config, hrun, hcheck⟩ := System.exists_interleaved
    (by decide +kernel : ((nocodb true).schedule AnyOrder
      (List.replicate 4 [(0, promptly 9), (1, promptly 10)]).flatten twoLogins).any
      (fun config => decide
        (config.outcome 0 = some (.ok (annIdentity (js "ann@x.org"))) ∧
          config.outcome 1 = some (.ok { annIdentity (js "ann@x.org") with userId := .ofNat 10 }) ∧
          ∃ first ∈ systemRows [] config.world .users, ∃ second ∈ systemRows [] config.world .users,
            IsOfSubject (externalClaims (js "s1") (js "ann@x.org")) first ∧
              IsOfSubject (externalClaims (js "s1") (js "ann@x.org")) second ∧ first ≠ second)) =
        true)
  obtain ⟨hthread, hother, first, hfirst, second, hsecond, hof, hof', hne⟩ :=
    of_decide_eq_true hcheck
  refine ⟨rfl, config, hrun, fun hone => ?_, _, _, hthread, hother, by decide⟩
  exact hne (hone first hfirst second hsecond hof hof')

end Concurrency
end NocoMiddleware
