import NocoMiddleware.Data.TableLookup
import NocoMiddleware.Foundation.EventRun
import NocoMiddleware.Js.Json

/-!
# Writes of the data API

The calls of `DataService`, under any interleaving and while the tables and fields of
NocoDB change at will.  A call runs until it waits for NocoDB; what NocoDB answers is
part of the event that lets it go on.  `getTable` is cut at its two requests here, and
`getTable_eq` puts the pieces together again.

Each call keeps what it did: the tables that it had listed, the entry that it used and
the write that it issued.
-/

namespace NocoMiddleware
namespace Data

open Js Foundation Tables

/-! ## The checks of a body -/

/-- `Object.keys(data)`. -/
def objectKeys (members : List (JsString × Json)) : List JsString :=
  members.map Prod.fst

/-- The members of a body that is an object. -/
def recordMembers (data : Option Json) : List (JsString × Json) :=
  match data with
  | some (.object members) => members
  | _ => []

/-- `assertRecordInput`; `none` is `undefined`. -/
def assertRecordInput (data : Option Json) : Except Exception Unit :=
  match data with
  | some (.object members) =>
      if (objectKeys members).length = 0 then
        .error (.badRequest (js "Request body must be a non-empty JSON object"))
      else .ok ()
  | _ => .error (.badRequest (js "Request body must be a non-empty JSON object"))

/-- `assertWritableFields`. -/
def assertWritableFields (info : TableInfo) (members : List (JsString × Json)) :
    Except Exception Unit :=
  let keys := objectKeys members
  let readOnly := keys.filter fun key => key = js "id" || info.readOnlyFields.contains key
  if readOnly.length > 0 then
    .error (.badRequest (js "Read-only fields: " ++ (js ", ").intercalate readOnly))
  else
    let unknown := keys.filter fun key => !info.writableFields.contains key
    if unknown.length > 0 then
      .error (.badRequest (js "Unknown fields: " ++ (js ", ").intercalate unknown))
    else .ok ()

/-- The keys that may be written to a table with these fields: titles of fields that
NocoDB does not manage itself, and of no other field. -/
def Writable (fields : List NocoFieldMeta) (keys : List JsString) : Prop :=
  ∀ key ∈ keys, key ≠ js "id" ∧
    (∃ field ∈ fields, field.title = key ∧ isReadOnly field = false) ∧
    ∀ field ∈ fields, isReadOnly field = true → field.title ≠ key

/-- A body is accepted if it is an object that has a member. -/
theorem assertRecordInput_eq_ok_iff (data : Option Json) :
    assertRecordInput data = .ok () ↔
      ∃ members, data = some (.object members) ∧ members ≠ [] := by
  unfold assertRecordInput
  split
  · next members =>
      cases members with
      | nil => simp [objectKeys]
      | cons member members => simp [objectKeys]
  · next hother =>
      constructor
      · intro h
        contradiction
      · rintro ⟨members, rfl, -⟩
        exact absurd rfl (hother members)

theorem badRequest_of_assertRecordInput {data : Option Json} {exception : Exception}
    (h : assertRecordInput data = .error exception) :
    ∃ message, exception = .badRequest message := by
  unfold assertRecordInput at h
  split at h
  · split at h
    · exact ⟨_, (Except.error.inj h).symm⟩
    · contradiction
  · exact ⟨_, (Except.error.inj h).symm⟩

theorem badRequest_of_assertWritableFields {info : TableInfo}
    {members : List (JsString × Json)} {exception : Exception}
    (h : assertWritableFields info members = .error exception) :
    ∃ message, exception = .badRequest message := by
  simp only [assertWritableFields] at h
  split at h
  · exact ⟨_, (Except.error.inj h).symm⟩
  · split at h
    · exact ⟨_, (Except.error.inj h).symm⟩
    · contradiction

/-! ## Lookups -/

/-- The metadata that a lookup of a table name fetched. -/
structure Fetch where
  table : JsString
  tableId : JsString
  fields : List NocoFieldMeta
  time : Nat
  deriving DecidableEq

/-- The entry that is made of it. -/
def Fetch.info (fetch : Fetch) : TableInfo :=
  { id := fetch.tableId
    writableFields := fieldTitles fetch.fields fun field => !isReadOnly field
    readOnlyFields := fieldTitles fetch.fields isReadOnly
    expiresAt := fetch.time + tableCacheTtlMs }

/-- The entry that answers a lookup without a request. -/
def cachedInfo (tables : TableCache) (now : Nat) (table : JsString) : Option TableInfo :=
  (tables.get table).filter fun cached => now < cached.expiresAt

/-- The table that `getTable` goes on with, among those that NocoDB lists. -/
def listedTable (tablePrefix : JsString) (reported : List TableMeta) (table : JsString) :
    Option TableMeta :=
  (resolve tablePrefix reported table).filter fun found => found.id ≠ []

/-- The exception for a table that NocoDB does not list. -/
def tableNotFound (table : JsString) : Exception :=
  .notFound (js "Table '" ++ table ++ js "' not found")

theorem getTable_eq (tablePrefix : JsString) (listTables : Except Exception (List TableMeta))
    (getTableMetadata : JsString → Except Exception (List NocoFieldMeta)) (now later : Nat)
    (tables : TableCache) (table : JsString) :
    getTable tablePrefix listTables getTableMetadata now later tables table =
      match cachedInfo tables now table with
      | some cached => (.ok cached, tables)
      | none =>
          match listTables with
          | .error exception => (.error exception, tables)
          | .ok reported =>
              match listedTable tablePrefix reported table with
              | none => (.error (tableNotFound table), tables.delete table)
              | some found =>
                  match getTableMetadata found.id with
                  | .error exception => (.error exception, tables)
                  | .ok fields =>
                      let fetch : Fetch := ⟨table, found.id, fields, later⟩
                      (.ok fetch.info, tables.set table fetch.info) :=
  rfl

/-- The fields of the metadata decide what the entry accepts. -/
theorem assertWritableFields_eq_ok_iff (fetch : Fetch) (members : List (JsString × Json)) :
    assertWritableFields fetch.info members = .ok () ↔
      Writable fetch.fields (objectKeys members) := by
  have hwritable : ∀ key, key ∈ fetch.info.writableFields ↔
      ∃ field ∈ fetch.fields, field.title = key ∧ isReadOnly field = false := by
    intro key
    simp only [Fetch.info, fieldTitles, List.mem_map, List.mem_filter, Bool.not_eq_true']
    constructor
    · rintro ⟨field, ⟨hmem, hreadOnly⟩, htitle⟩
      exact ⟨field, hmem, htitle, hreadOnly⟩
    · rintro ⟨field, hmem, htitle, hreadOnly⟩
      exact ⟨field, ⟨hmem, hreadOnly⟩, htitle⟩
  have hreadOnly : ∀ key, key ∉ fetch.info.readOnlyFields ↔
      ∀ field ∈ fetch.fields, isReadOnly field = true → field.title ≠ key := by
    intro key
    simp only [Fetch.info, fieldTitles, List.mem_map, List.mem_filter]
    constructor
    · intro hkey field hmem hfield htitle
      exact hkey ⟨field, ⟨hmem, hfield⟩, htitle⟩
    · rintro hkey ⟨field, ⟨hmem, hfield⟩, htitle⟩
      exact hkey field hmem hfield htitle
  simp only [assertWritableFields, List.length_pos_iff, ne_eq]
  constructor
  · intro h
    split at h
    · contradiction
    · next hnone =>
        split at h
        · contradiction
        · next hknown =>
            rw [not_not, List.filter_eq_nil_iff] at hnone hknown
            intro key hkey
            have hallowed := hnone key hkey
            simp only [Bool.or_eq_true, decide_eq_true_eq, not_or,
              List.contains_iff_mem] at hallowed
            have hlisted := hknown key hkey
            simp only [Bool.not_eq_true', Bool.not_eq_false, List.contains_iff_mem] at hlisted
            exact ⟨hallowed.1, (hwritable key).mp hlisted, (hreadOnly key).mp hallowed.2⟩
  · intro h
    have hnone : ((objectKeys members).filter fun key =>
        key = js "id" || fetch.info.readOnlyFields.contains key) = [] := by
      rw [List.filter_eq_nil_iff]
      intro key hkey
      obtain ⟨hid, -, hother⟩ := h key hkey
      simp [hid, (hreadOnly key).mpr hother]
    have hknown : ((objectKeys members).filter fun key =>
        !fetch.info.writableFields.contains key) = [] := by
      rw [List.filter_eq_nil_iff]
      intro key hkey
      obtain ⟨-, hlisted, -⟩ := h key hkey
      simp [(hwritable key).mpr hlisted]
    rw [if_neg (not_not.mpr hnone), if_neg (not_not.mpr hknown)]

/-! ## The calls of the service -/

/-- The methods of the service, without the options of `list`, which no check reads. -/
inductive DataOperation where
  | list
  | read (id : JsNumber)
  | create (data : Option Json)
  | update (id : JsNumber) (data : Option Json)
  | delete (id : JsNumber)

/-- The body of a call that writes fields. -/
def DataOperation.body : DataOperation → Option (Option Json)
  | create data => some data
  | update _ data => some data
  | _ => none

/-- A request of `NocoDBService` that fails: with the status of an axios error, if it has
one, or with an exception of the service. -/
inductive Failure where
  | axios (status : Option Nat)
  | nocoDB (message : JsString)

/-- The exception of a failure that is passed on. -/
def Failure.exception : Failure → Exception
  | axios _ => .upstream
  | nocoDB message => .nocoDB message

/-- `withUpstreamValidation`, on a failure. -/
def withUpstreamValidation (failure : Failure) (message : JsString) : Exception :=
  match failure with
  | .axios (some status) =>
      if status = 400 ∨ status = 422 then .badRequest message else failure.exception
  | _ => failure.exception

/-- `REJECTED_VALUES`. -/
def rejectedValues : JsString :=
  js "NocoDB rejected the record values"

/-- How the answer to the request of a call ends it; `some false` is the missing record
of a read. -/
def DataOperation.settle (operation : DataOperation) (table : JsString)
    (answer : Except Failure Bool) : Option Exception :=
  match operation, answer with
  | .read id, .ok false =>
      some (.notFound (js "Record " ++ id.text ++ js " not found in '" ++ table ++ js "'"))
  | _, .ok _ => none
  | .list, .error failure =>
      some (withUpstreamValidation failure (js "NocoDB rejected the query (where/sort)"))
  | .create _, .error failure => some (withUpstreamValidation failure rejectedValues)
  | .update _ _, .error failure => some (withUpstreamValidation failure rejectedValues)
  | _, .error failure => some failure.exception

/-- What a call waits for, or how it ended. -/
inductive Stage where
  | listing
  | describing (tableId : JsString)
  | requesting
  | returned
  | thrown (exception : Exception)
  deriving DecidableEq

/-- A `NocoDBService.create` or `update`. -/
structure Write where
  tableId : JsString
  payload : List (JsString × Json)
  time : Nat

/-- A call, with the tables that it had listed, the entry that it used and the write that
it issued. -/
structure Call where
  table : JsString
  operation : DataOperation
  stage : Stage
  listed : Option (List TableMeta)
  used : Option TableInfo
  issued : Option Write

/-- The service, and the metadata that its lookups have fetched. -/
structure Service where
  clock : Nat
  tables : TableCache
  calls : List Call
  fetched : List Fetch

/-- The state after startup. -/
def Service.start (clock : Nat) : Service :=
  ⟨clock, .empty, [], []⟩

/-- What happens next; calls are numbered in their order. -/
inductive Event where
  | advance (clock : Nat)
  | call (table : JsString) (operation : DataOperation)
  /-- `getTableByName` has the tables that NocoDB lists. -/
  | listed (call : Nat) (answer : Except Failure (List TableMeta))
  /-- `getTableMetadata` has the fields, if the answer has any. -/
  | described (call : Nat) (answer : Except Failure (Option (List NocoFieldMeta)))
  /-- The request of the call itself is answered. -/
  | answered (call : Nat) (answer : Except Failure Bool)

/-- A call that has its table: a write is checked against the entry and issued for its
id, any other request is made for the id. -/
def Call.proceed (call : Call) (info : TableInfo) (now : Nat) : Call :=
  match call.operation.body with
  | none => { call with stage := .requesting, used := some info }
  | some data =>
      match assertWritableFields info (recordMembers data) with
      | .error exception => { call with stage := .thrown exception, used := some info }
      | .ok () =>
          { call with
            stage := .requesting
            used := some info
            issued := some ⟨info.id, recordMembers data, now⟩ }

/-- A call up to its first wait. -/
def Call.begin (tables : TableCache) (now : Nat) (table : JsString)
    (operation : DataOperation) : Call :=
  let call : Call := ⟨table, operation, .listing, none, none, none⟩
  match operation.body.map assertRecordInput with
  | some (.error exception) => { call with stage := .thrown exception }
  | _ =>
      match cachedInfo tables now table with
      | some cached => call.proceed cached now
      | none => call

variable (tablePrefix : JsString)

/-- One step of the service. -/
def dataStep (state : Service) : Event → Option Service
  | .advance clock => if state.clock ≤ clock then some { state with clock := clock } else none
  | .call table operation =>
      some { state with
        calls := state.calls ++ [Call.begin state.tables state.clock table operation] }
  | .listed index answer =>
      match state.calls[index]? with
      | none => none
      | some call =>
          if call.stage = .listing then
            match answer with
            | .error failure =>
                some { state with
                  calls := state.calls.set index { call with stage := .thrown failure.exception } }
            | .ok reported =>
                match listedTable tablePrefix reported call.table with
                | none =>
                    some { state with
                      tables := state.tables.delete call.table
                      calls := state.calls.set index
                        { call with
                          stage := .thrown (tableNotFound call.table)
                          listed := some reported } }
                | some found =>
                    some { state with
                      calls := state.calls.set index
                        { call with stage := .describing found.id, listed := some reported } }
          else none
  | .described index answer =>
      match state.calls[index]? with
      | none => none
      | some call =>
          match call.stage with
          | .describing tableId =>
              match answer with
              | .error failure =>
                  some { state with
                    calls := state.calls.set index
                      { call with stage := .thrown failure.exception } }
              | .ok fields =>
                  let fetch : Fetch := ⟨call.table, tableId, fields.getD [], state.clock⟩
                  some { state with
                    tables := state.tables.set call.table fetch.info
                    fetched := state.fetched ++ [fetch]
                    calls := state.calls.set index (call.proceed fetch.info state.clock) }
          | _ => none
  | .answered index answer =>
      match state.calls[index]? with
      | none => none
      | some call =>
          if call.stage = .requesting then
            let stage := match call.operation.settle call.table answer with
              | none => .returned
              | some exception => .thrown exception
            some { state with calls := state.calls.set index { call with stage := stage } }
          else none

/-! ## What a call has done -/

/-- A call writes only what the metadata of its table lets it write: a write that it
issued is checked against metadata that was fetched for the table name and is no older
than a minute; a body that is no object with members, or that the metadata in use does
not accept, is refused; and a missing table is one that the call itself did not find. -/
structure Call.Guarded (fetched : List Fetch) (call : Call) : Prop where
  issued : ∀ write ∈ call.issued,
    call.operation.body = some (some (.object write.payload)) ∧ write.payload ≠ [] ∧
    ∃ fetch ∈ fetched, fetch.table = call.table ∧ fetch.tableId = write.tableId ∧
      fetch.time ≤ write.time ∧ write.time ≤ fetch.time + 60000 ∧
      Writable fetch.fields (objectKeys write.payload)
  refused : ∀ data ∈ call.operation.body,
    (∀ members, data = some (.object members) → members = []) →
      (∃ message, call.stage = .thrown (.badRequest message)) ∧ call.issued = none
  used : ∀ info ∈ call.used, ∃ fetch ∈ fetched, fetch.table = call.table ∧ fetch.info = info ∧
    ∀ members, call.operation.body = some (some (.object members)) →
      ¬ Writable fetch.fields (objectKeys members) →
        (∃ message, call.stage = .thrown (.badRequest message)) ∧ call.issued = none
  missing : call.stage = .thrown (tableNotFound call.table) →
    ∃ reported, call.listed = some reported ∧
      listedTable tablePrefix reported call.table = none

/-- While it waits for its table, a call has issued nothing and its body is accepted. -/
structure Call.Kept (fetched : List Fetch) (call : Call) : Prop
    extends Call.Guarded tablePrefix fetched call where
  waiting : call.stage = .listing ∨ (∃ tableId, call.stage = .describing tableId) →
    call.used = none ∧ call.issued = none ∧
      ∀ data ∈ call.operation.body, assertRecordInput data = .ok ()

/-- What holds of the service at any time. -/
structure Service.Sound (state : Service) : Prop where
  cached : ∀ table info, state.tables.get table = some info →
    ∃ fetch ∈ state.fetched, fetch.table = table ∧ fetch.info = info
  past : ∀ fetch ∈ state.fetched, fetch.time ≤ state.clock
  kept : ∀ call ∈ state.calls, call.Kept tablePrefix state.fetched

variable {tablePrefix} {fetched fetched' : List Fetch} {call : Call} {state state' : Service}

theorem Call.Kept.mono (h : call.Kept tablePrefix fetched)
    (hmore : ∀ fetch ∈ fetched, fetch ∈ fetched') : call.Kept tablePrefix fetched' where
  issued write hwrite := by
    obtain ⟨hbody, hne, fetch, hfetch, hrest⟩ := h.issued write hwrite
    exact ⟨hbody, hne, fetch, hmore fetch hfetch, hrest⟩
  refused := h.refused
  used info hinfo := by
    obtain ⟨fetch, hfetch, hrest⟩ := h.used info hinfo
    exact ⟨fetch, hmore fetch hfetch, hrest⟩
  missing := h.missing
  waiting := h.waiting

/-- Accepted bodies are not refused. -/
theorem not_refused {body : Option (Option Json)} {property : Prop}
    (hinput : ∀ data ∈ body, assertRecordInput data = .ok ()) :
    ∀ data ∈ body, (∀ members, data = some (.object members) → members = []) → property := by
  intro data hdata hempty
  obtain ⟨members, hobject, hne⟩ := (assertRecordInput_eq_ok_iff data).mp (hinput data hdata)
  exact absurd (hempty members hobject) hne

theorem tableNotFound_ne_badRequest (table message : JsString) :
    tableNotFound table ≠ .badRequest message := nofun

theorem Failure.exception_ne (failure : Failure) (table : JsString) :
    failure.exception ≠ tableNotFound table := by
  cases failure <;> nofun

theorem withUpstreamValidation_ne (failure : Failure) (message table : JsString) :
    withUpstreamValidation failure message ≠ tableNotFound table := by
  unfold withUpstreamValidation
  split
  · split
    · nofun
    · exact Failure.exception_ne _ table
  · exact Failure.exception_ne _ table

/-- The answer to the request of a call never reads as a missing table. -/
theorem DataOperation.settle_ne {operation : DataOperation} {table : JsString}
    {answer : Except Failure Bool} {exception : Exception}
    (h : operation.settle table answer = some exception) :
    exception ≠ tableNotFound table := by
  unfold DataOperation.settle at h
  split at h <;> first | contradiction | obtain rfl := Option.some.inj h
  · intro hsame
    have htext := Exception.notFound.inj hsame
    rw [List.append_assoc, List.append_assoc, List.append_assoc] at htext
    have hfirst := congrArg List.head? htext
    revert hfirst
    simp [js]
  · exact withUpstreamValidation_ne _ _ _
  · exact withUpstreamValidation_ne _ _ _
  · exact withUpstreamValidation_ne _ _ _
  · exact Failure.exception_ne _ _

/-- A call that fails while it waits for its table has issued nothing. -/
theorem Call.Kept.fail (h : call.Kept tablePrefix fetched)
    (hwaiting : call.stage = .listing ∨ ∃ tableId, call.stage = .describing tableId)
    (failure : Failure) :
    ({ call with stage := .thrown failure.exception } : Call).Kept tablePrefix fetched := by
  obtain ⟨hused, hissued, hinput⟩ := h.waiting hwaiting
  refine ⟨⟨?_, not_refused hinput, ?_, ?_⟩, ?_⟩
  · intro write hwrite
    simp [hissued] at hwrite
  · intro info hinfo
    simp [hused] at hinfo
  · intro hstage
    exact absurd (Stage.thrown.inj hstage) (Failure.exception_ne failure _)
  · rintro (hstage | ⟨tableId, hstage⟩) <;> contradiction

/-- A call whose table is not listed throws that, and has issued nothing. -/
theorem Call.Kept.miss {reported : List TableMeta} (h : call.Kept tablePrefix fetched)
    (hstage : call.stage = .listing)
    (hnone : listedTable tablePrefix reported call.table = none) :
    ({ call with
      stage := .thrown (tableNotFound call.table)
      listed := some reported } : Call).Kept tablePrefix fetched := by
  obtain ⟨hused, hissued, hinput⟩ := h.waiting (Or.inl hstage)
  refine ⟨⟨?_, not_refused hinput, ?_, ?_⟩, ?_⟩
  · intro write hwrite
    simp [hissued] at hwrite
  · intro info hinfo
    simp [hused] at hinfo
  · exact fun _ => ⟨reported, rfl, hnone⟩
  · rintro (hnext | ⟨tableId, hnext⟩) <;> contradiction

/-- A call whose table is listed asks for the metadata, and has issued nothing. -/
theorem Call.Kept.find (h : call.Kept tablePrefix fetched) (hstage : call.stage = .listing)
    (reported : List TableMeta) (tableId : JsString) :
    ({ call with stage := .describing tableId, listed := some reported } : Call).Kept
      tablePrefix fetched := by
  obtain ⟨hused, hissued, hinput⟩ := h.waiting (Or.inl hstage)
  refine ⟨⟨?_, not_refused hinput, ?_, ?_⟩, ?_⟩
  · intro write hwrite
    simp [hissued] at hwrite
  · intro info hinfo
    simp [hused] at hinfo
  · intro hnext
    contradiction
  · exact fun _ => ⟨hused, hissued, hinput⟩

/-- A call that has made its request was refused nothing before. -/
theorem Call.Kept.finish (h : call.Kept tablePrefix fetched)
    (hstage : call.stage = .requesting) {stage : Stage}
    (hends : stage = .returned ∨
      ∃ exception, stage = .thrown exception ∧ exception ≠ tableNotFound call.table) :
    ({ call with stage := stage } : Call).Kept tablePrefix fetched := by
  refine ⟨⟨h.issued, ?_, ?_, ?_⟩, ?_⟩
  · intro data hdata hempty
    obtain ⟨⟨message, hthrown⟩, -⟩ := h.refused data hdata hempty
    rw [hstage] at hthrown
    contradiction
  · intro info hinfo
    obtain ⟨fetch, hfetch, htable, hentry, hrefused⟩ := h.used info hinfo
    refine ⟨fetch, hfetch, htable, hentry, ?_⟩
    intro members hbody hnot
    obtain ⟨⟨message, hthrown⟩, -⟩ := hrefused members hbody hnot
    rw [hstage] at hthrown
    contradiction
  · intro hnext
    rcases hends with rfl | ⟨exception, rfl, hne⟩
    · contradiction
    · exact absurd (Stage.thrown.inj hnext) hne
  · intro hwaiting
    rcases hends with rfl | ⟨exception, rfl, -⟩
    · rcases hwaiting with hnext | ⟨tableId, hnext⟩ <;> contradiction
    · rcases hwaiting with hnext | ⟨tableId, hnext⟩ <;> contradiction

/-- A call that has found its table goes on with metadata that is not too old. -/
theorem Call.Kept.proceed {now : Nat} {fetch : Fetch} (hissued : call.issued = none)
    (hinput : ∀ data ∈ call.operation.body, assertRecordInput data = .ok ())
    (hfetch : fetch ∈ fetched) (htable : fetch.table = call.table) (hpast : fetch.time ≤ now)
    (hfresh : now ≤ fetch.time + tableCacheTtlMs) :
    (call.proceed fetch.info now).Kept tablePrefix fetched := by
  unfold Call.proceed
  split
  · next hbody =>
      -- nothing is written
      refine ⟨⟨?_, not_refused hinput, ?_, nofun⟩, ?_⟩
      · intro write hwrite
        simp [hissued] at hwrite
      · intro info hinfo
        obtain rfl := Option.some.inj hinfo
        refine ⟨fetch, hfetch, htable, rfl, ?_⟩
        intro members hmembers
        simp [hbody] at hmembers
      · rintro (hstage | ⟨tableId, hstage⟩) <;> contradiction
  · next data hbody =>
      obtain ⟨members, rfl, hne⟩ := (assertRecordInput_eq_ok_iff data).mp (hinput data hbody)
      split
      · next exception hrefused =>
          obtain ⟨message, rfl⟩ := badRequest_of_assertWritableFields hrefused
          refine ⟨⟨?_, not_refused hinput, ?_, ?_⟩, ?_⟩
          · intro write hwrite
            simp [hissued] at hwrite
          · intro info hinfo
            obtain rfl := Option.some.inj hinfo
            exact ⟨fetch, hfetch, htable, rfl, fun _ _ _ => ⟨⟨message, rfl⟩, hissued⟩⟩
          · intro hstage
            exact absurd (Stage.thrown.inj hstage).symm (tableNotFound_ne_badRequest _ _)
          · rintro (hstage | ⟨tableId, hstage⟩) <;> contradiction
      · next hwritable =>
          have hkeys : Writable fetch.fields (objectKeys members) :=
            (assertWritableFields_eq_ok_iff fetch members).mp hwritable
          refine ⟨⟨?_, not_refused hinput, ?_, nofun⟩, ?_⟩
          · intro write hwrite
            obtain rfl := Option.some.inj hwrite
            exact ⟨hbody, hne, fetch, hfetch, htable, rfl, hpast, hfresh, hkeys⟩
          · intro info hinfo
            obtain rfl := Option.some.inj hinfo
            refine ⟨fetch, hfetch, htable, rfl, ?_⟩
            intro other hother hnot
            obtain rfl : members = other := by
              simpa using hbody.symm.trans hother
            exact absurd hkeys hnot
          · rintro (hstage | ⟨tableId, hstage⟩) <;> contradiction

/-- A call up to its first wait, with a sound cache. -/
theorem Service.Sound.begin (h : state.Sound tablePrefix) (table : JsString)
    (operation : DataOperation) :
    (Call.begin state.tables state.clock table operation).Kept tablePrefix state.fetched := by
  simp only [Call.begin]
  split
  · next exception hrefused =>
      -- the body is refused before the lookup
      obtain ⟨data, hbody, herror⟩ := Option.map_eq_some_iff.mp hrefused
      obtain ⟨message, rfl⟩ := badRequest_of_assertRecordInput herror
      refine ⟨⟨nofun, ?_, nofun, ?_⟩, ?_⟩
      · exact fun _ _ _ => ⟨⟨message, rfl⟩, rfl⟩
      · intro hstage
        exact absurd (Stage.thrown.inj hstage).symm (tableNotFound_ne_badRequest _ _)
      · rintro (hstage | ⟨tableId, hstage⟩) <;> contradiction
  · next haccepted =>
      have hinput : ∀ data ∈ operation.body, assertRecordInput data = .ok () := by
        intro data hdata
        cases hresult : assertRecordInput data with
        | ok _ => rfl
        | error exception =>
            have hmap : operation.body.map assertRecordInput = some (.error exception) := by
              rw [hdata, Option.map_some, hresult]
            exact absurd hmap (haccepted exception)
      split
      · next cached hcached =>
          obtain ⟨hget, hlive⟩ := Option.filter_eq_some_iff.mp hcached
          obtain ⟨fetch, hfetch, htable, rfl⟩ := h.cached _ _ hget
          have hfresh : state.clock < fetch.time + tableCacheTtlMs := of_decide_eq_true hlive
          exact .proceed rfl hinput hfetch htable (h.past fetch hfetch) (le_of_lt hfresh)
      · exact ⟨⟨nofun, not_refused hinput, nofun, nofun⟩, fun _ => ⟨rfl, rfl, hinput⟩⟩

/-- One call moves on, and nothing else changes. -/
theorem Service.Sound.set (h : state.Sound tablePrefix) (index : Nat)
    (hcall : call.Kept tablePrefix state.fetched) :
    ({ state with calls := state.calls.set index call } : Service).Sound tablePrefix where
  cached := h.cached
  past := h.past
  kept other hother := by
    rcases List.mem_or_eq_of_mem_set hother with hother | rfl
    · exact h.kept other hother
    · exact hcall

/-- A call whose table has its metadata now goes on with the entry that is made of it. -/
theorem Service.Sound.describe (h : state.Sound tablePrefix) (index : Nat) {tableId : JsString}
    (hkept : call.Kept tablePrefix state.fetched) (hstage : call.stage = .describing tableId)
    (fields : List NocoFieldMeta) :
    let fetch : Fetch := ⟨call.table, tableId, fields, state.clock⟩
    ({ state with
      tables := state.tables.set call.table fetch.info
      fetched := state.fetched ++ [fetch]
      calls := state.calls.set index (call.proceed fetch.info state.clock) } :
        Service).Sound tablePrefix := by
  intro fetch
  obtain ⟨-, hissued, hinput⟩ := hkept.waiting (Or.inr ⟨tableId, hstage⟩)
  have hmem : fetch ∈ state.fetched ++ [fetch] :=
    List.mem_append_right _ (List.mem_singleton_self _)
  constructor
  · intro table info hget
    rw [OrderedMap.get_set] at hget
    split at hget
    · next htable =>
        obtain rfl := Option.some.inj hget
        exact ⟨fetch, hmem, htable.symm, rfl⟩
    · obtain ⟨other, hother, hrest⟩ := h.cached table info hget
      exact ⟨other, List.mem_append_left _ hother, hrest⟩
  · intro other hother
    rw [List.mem_append, List.mem_singleton] at hother
    rcases hother with hother | rfl
    · exact h.past other hother
    · exact le_refl _
  · intro other hother
    rcases List.mem_or_eq_of_mem_set hother with hother | rfl
    · exact (h.kept other hother).mono fun _ => List.mem_append_left _
    · exact .proceed hissued hinput hmem rfl (le_refl _) (Nat.le_add_right _ _)

theorem Service.Sound.step {event : Event} (h : state.Sound tablePrefix)
    (hstep : dataStep tablePrefix state event = some state') : state'.Sound tablePrefix := by
  cases event with
  | advance clock =>
      simp only [dataStep] at hstep
      split at hstep
      · next hlater =>
          obtain rfl := Option.some.inj hstep
          exact ⟨h.cached, fun fetch hfetch => le_trans (h.past fetch hfetch) hlater, h.kept⟩
      · contradiction
  | call table operation =>
      obtain rfl := Option.some.inj hstep
      refine ⟨h.cached, h.past, ?_⟩
      intro call hcall
      rw [List.mem_append, List.mem_singleton] at hcall
      rcases hcall with hcall | rfl
      · exact h.kept call hcall
      · exact h.begin table operation
  | listed index answer =>
      simp only [dataStep] at hstep
      split at hstep
      · contradiction
      · next call hcall =>
          have hkept := h.kept call (List.mem_of_getElem? hcall)
          split at hstep
          · next hstage =>
              split at hstep
              · next failure =>
                  obtain rfl := Option.some.inj hstep
                  exact h.set index (hkept.fail (Or.inl hstage) failure)
              · next reported =>
                  split at hstep
                  · next hnone =>
                      -- the entry of the table is dropped
                      obtain rfl := Option.some.inj hstep
                      have hset := h.set index (hkept.miss hstage hnone)
                      refine ⟨?_, hset.past, hset.kept⟩
                      intro table info hget
                      exact h.cached table info (OrderedMap.get_of_get_delete hget).2
                  · next found hfound =>
                      obtain rfl := Option.some.inj hstep
                      exact h.set index (hkept.find hstage reported found.id)
          · contradiction
  | described index answer =>
      simp only [dataStep] at hstep
      split at hstep
      · contradiction
      · next call hcall =>
          have hkept := h.kept call (List.mem_of_getElem? hcall)
          split at hstep
          · next tableId hstage =>
              split at hstep
              · next failure =>
                  obtain rfl := Option.some.inj hstep
                  exact h.set index (hkept.fail (Or.inr ⟨tableId, hstage⟩) failure)
              · next fields =>
                  obtain rfl := Option.some.inj hstep
                  exact h.describe index hkept hstage (fields.getD [])
          · contradiction
  | answered index answer =>
      simp only [dataStep] at hstep
      split at hstep
      · contradiction
      · next call hcall =>
          have hkept := h.kept call (List.mem_of_getElem? hcall)
          split at hstep
          · next hstage =>
              obtain rfl := Option.some.inj hstep
              apply h.set index
              cases hsettle : call.operation.settle call.table answer with
              | none => exact hkept.finish hstage (Or.inl rfl)
              | some exception =>
                  apply hkept.finish hstage
                  exact Or.inr ⟨exception, rfl, DataOperation.settle_ne hsettle⟩
          · contradiction

/-- Whatever NocoDB answers and however the calls interleave, every call writes only what
the metadata of its table lets it write. -/
theorem calls_guarded {events : List Event} {clock : Nat}
    (hrun : runEvents (dataStep tablePrefix) (.start clock) events = some state) :
    ∀ call ∈ state.calls, call.Guarded tablePrefix state.fetched := by
  have hsound : state.Sound tablePrefix := by
    apply run_keeps (Service.Sound tablePrefix) (fun _ _ _ h hstep => h.step hstep) _ hrun
    exact ⟨by simp [Service.start], by simp [Service.start], by simp [Service.start]⟩
  exact fun call hcall => (hsound.kept call hcall).toGuarded

/-- A record is created; a minute later, with the cached entry about to expire, another
call tries to write the record id. -/
def twoWrites : List Event :=
  [.call (js "customers") (.create (some (.object [(js "Name", .string (js "Bob"))]))),
    .listed 0 (.ok [⟨js "t1", js "customers", none⟩]),
    .described 0 (.ok (some [⟨js "Id", js "ID"⟩, ⟨js "Name", js "SingleLineText"⟩])),
    .advance 59999,
    .call (js "customers") (.update (.ofNat 1) (some (.object [(js "Id", .null)])))]

theorem calls_guarded_twoWrites :
    ∃ state, runEvents (dataStep []) (.start 0) twoWrites = some state ∧
      state.calls.map Call.stage =
        [.requesting, .thrown (.badRequest (js "Read-only fields: Id"))] ∧
      ∀ call ∈ state.calls, call.Guarded [] state.fetched := by
  have hstages : (runEvents (dataStep []) (.start 0) twoWrites).map
      (fun state => state.calls.map Call.stage) =
        some [.requesting, .thrown (.badRequest (js "Read-only fields: Id"))] := by
    decide
  obtain ⟨state, hrun, hstate⟩ := Option.map_eq_some_iff.mp hstages
  exact ⟨state, hrun, hstate, calls_guarded hrun⟩

end Data
end NocoMiddleware
