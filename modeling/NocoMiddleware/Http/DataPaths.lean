import NocoMiddleware.Client.RecordsService
import NocoMiddleware.Js.Double
import NocoMiddleware.Tables.TableName
import Mathlib.Data.List.Basic

/-!
# From `RecordsService` to `DataController`

The paths that the client library writes, as the routes of `data/:table` read them.  axios joins
the base URL and the path, and the URL is parsed before it is sent: a segment `.` goes, a segment
`..` takes the one before it along.  A parameter of a route is one segment of what is left that is
not empty, decoded with `decodeURIComponent`, and `ParseIntPipe` reads an id.
-/

namespace NocoMiddleware
namespace Http

open NocoMiddleware.Js NocoMiddleware.Client NocoMiddleware.Tables

/-! ## Parsing the URL -/

/-- `/`. -/
def slashUnit : CodeUnit := 47

/-- The ways to write a single-dot segment. -/
def singleDots : List JsString :=
  [js ".", js "%2e", js "%2E"]

/-- The ways to write a double-dot segment. -/
def doubleDots : List JsString :=
  singleDots.flatMap fun first => singleDots.map fun second => first ++ second

/-- A segment is read; the last one leaves an empty segment behind where it is dropped. -/
def addSegment (path : List JsString) (segment : JsString) (isLast : Bool) : List JsString :=
  if doubleDots.any (· == segment) then path.dropLast ++ if isLast then [[]] else []
  else if singleDots.any (· == segment) then path ++ if isLast then [[]] else []
  else path ++ [segment]

/-- The path of a URL: the segments read so far, and those that are still to be read. -/
def parsePath (path : List JsString) : List JsString → List JsString
  | [] => path
  | segment :: rest => parsePath (addSegment path segment rest.isEmpty) rest

/-- The path that is requested for a path of the client, with the segments of the base URL. -/
def requestedPath (base : List JsString) (path : JsString) : List JsString :=
  parsePath base (path.splitOn slashUnit).tail

/-! ## Routes -/

/-- The methods of `DataController`. -/
inductive DataHandler where
  | list
  | read
  | create
  | update
  | delete
  deriving DecidableEq

namespace DataHandler

/-- The HTTP method of the decorator. -/
def method : DataHandler → JsString
  | list => js "GET"
  | read => js "GET"
  | create => js "POST"
  | update => js "PATCH"
  | delete => js "DELETE"

/-- The path of the decorator is `:id`. -/
def takesId : DataHandler → Bool
  | list => false
  | read => true
  | create => false
  | update => true
  | delete => true

/-- The handlers, in the order of the controller. -/
def all : List DataHandler :=
  [list, read, create, update, delete]

/-- The handler of a method and a path. -/
def find (method : JsString) (withId : Bool) : Option DataHandler :=
  all.find? fun handler => handler.method = method && handler.takesId = withId

end DataHandler

/-- `/^-?\d+$/`. -/
def isIntegerText : JsString → Bool
  | [] => false
  | unit :: rest =>
      if unit = hyphenUnit then rest ≠ [] && rest.all isDigit else (unit :: rest).all isDigit

/-- `ParseIntPipe`. -/
def parseIntPipe (text : JsString) : Option JsNumber :=
  if isIntegerText text then
    ((readNumeral text).map Decimal.toDouble).filter JsNumber.isFinite
  else none

/-- What a request is answered by: no route of the data API, a parameter that is not accepted, or a
handler with its parameters. -/
inductive Reception where
  | noRoute
  | badRequest
  | handled (handler : DataHandler) (table : JsString) (id : Option JsNumber)
  deriving DecidableEq

/-- The call of a handler, with the id decoded. -/
def callHandler (handler : DataHandler) (table : JsString) : Option JsString → Reception
  | none => .handled handler table none
  | some id =>
      match (decodeURIComponent id).bind parseIntPipe with
      | none => .badRequest
      | some id => .handled handler table (some id)

/-- A request to `data/table` or `data/table/id`. -/
def receiveParameters (method table : JsString) (id : Option JsString) : Reception :=
  if table = [] then .noRoute
  else
    match DataHandler.find method id.isSome with
    | none => .noRoute
    | some handler =>
        (decodeURIComponent table).elim .badRequest fun table => callHandler handler table id

/-- A request, by the segments of its path below the prefix of the API.  The path may end in a
slash. -/
def receiveSegments (method : JsString) : List JsString → Reception
  | [data, table] => if data = js "data" then receiveParameters method table none else .noRoute
  | [data, table, id] =>
      if data = js "data" then
        receiveParameters method table (if id = [] then none else some id)
      else .noRoute
  | _ => .noRoute

/-- A request, by its method and the segments of its path; `base` is the prefix of the API. -/
def receive (base : List JsString) (method : JsString) (path : List JsString) : Reception :=
  if path.take base.length = base then receiveSegments method (path.drop base.length)
  else .noRoute

/-- The handler that a method of the client is meant for. -/
def handlerOf : RecordsCall → DataHandler
  | .list _ => .list
  | .read _ => .read
  | .create _ => .create
  | .update _ _ => .update
  | .delete _ => .delete
  | .findOne _ => .list

example : receive [js "api"] (js "GET") (requestedPath [js "api"] (js "/data/..%2Fusers/5")) =
    .handled .read (js "../users") (some (.ofNat 5)) := by decide +kernel

/-! ## Segments -/

theorem not_mem_of_encoded {text encoded : JsString} (h : encodeURIComponent text = some encoded) :
    slashUnit ∉ encoded := by
  intro hmem
  have hunit := isComponentUnit_of_mem h hmem
  revert hunit
  decide

/-- The segments of a path that holds an encoded table. -/
theorem splitOn_table {encoded table : JsString} (h : encodeURIComponent table = some encoded) :
    ((js "/data/" ++ encoded).splitOn slashUnit).tail = [js "data", encoded] := by
  have hsplit : (js "/data/" ++ encoded).splitOn slashUnit = [[], js "data", encoded] := by
    show ([] ++ slashUnit :: (js "data" ++ slashUnit :: encoded)).splitOn slashUnit = _
    rw [List.splitOn_append_cons_self, List.splitOn_append_cons_self, List.splitOn_nil,
      List.splitOn_eq_singleton (not_mem_of_encoded h),
      List.splitOn_eq_singleton (show slashUnit ∉ js "data" by decide)]
    rfl
  rw [hsplit, List.tail_cons]

theorem splitOn_table_id {table encoded id encodedId : JsString}
    (h : encodeURIComponent table = some encoded) (hid : encodeURIComponent id = some encodedId) :
    ((js "/data/" ++ encoded ++ js "/" ++ encodedId).splitOn slashUnit).tail =
      [js "data", encoded, encodedId] := by
  have hpath : js "/data/" ++ encoded ++ js "/" ++ encodedId =
      [] ++ slashUnit :: (js "data" ++ slashUnit :: (encoded ++ slashUnit :: encodedId)) := by
    rw [List.append_assoc]
    show js "/data/" ++ encoded ++ ([slashUnit] ++ encodedId) = _
    rw [List.append_assoc]
    rfl
  rw [hpath, List.splitOn_append_cons_self, List.splitOn_append_cons_self,
    List.splitOn_append_cons_self, List.splitOn_nil,
    List.splitOn_eq_singleton (not_mem_of_encoded h),
    List.splitOn_eq_singleton (not_mem_of_encoded hid),
    List.splitOn_eq_singleton (show slashUnit ∉ js "data" by decide)]
  rfl

/-- A text that is encoded gives a form of a plain text only if it is that text. -/
theorem any_encoded {forms : List JsString} {plain text encoded : JsString}
    (hforms : ∀ form ∈ forms, decodeURIComponent form = some plain) (hplain : plain ∈ forms)
    (hself : encodeURIComponent plain = some plain) (h : encodeURIComponent text = some encoded) :
    forms.any (· == encoded) = decide (text = plain) := by
  rw [Bool.eq_iff_iff, List.any_eq_true, decide_eq_true_eq]
  constructor
  · rintro ⟨form, hform, heq⟩
    have hdecoded := hforms form hform
    rw [eq_of_beq heq, decodeURIComponent_encodeURIComponent h] at hdecoded
    exact Option.some.inj hdecoded
  · rintro rfl
    rw [hself] at h
    obtain rfl := Option.some.inj h
    exact ⟨_, hplain, beq_self_eq_true _⟩

theorem singleDots_encoded {text encoded : JsString} (h : encodeURIComponent text = some encoded) :
    singleDots.any (· == encoded) = decide (text = js ".") :=
  any_encoded (by decide) (by decide) (by decide) h

theorem doubleDots_encoded {text encoded : JsString} (h : encodeURIComponent text = some encoded) :
    doubleDots.any (· == encoded) = decide (text = js "..") :=
  any_encoded (by decide) (by decide) (by decide) h

theorem encoded_eq_nil_iff {text encoded : JsString} (h : encodeURIComponent text = some encoded) :
    encoded = [] ↔ text = [] := by
  constructor
  · rintro rfl
    have hdecoded := decodeURIComponent_encodeURIComponent h
    exact (Option.some.inj hdecoded).symm
  · rintro rfl
    exact (Option.some.inj h).symm

/-- What reading an encoded text does to a path. -/
theorem addSegment_encoded {text encoded : JsString} (path : List JsString) (isLast : Bool)
    (h : encodeURIComponent text = some encoded) :
    addSegment path encoded isLast =
      if text = js ".." then path.dropLast ++ if isLast then [[]] else []
      else if text = js "." then path ++ if isLast then [[]] else []
      else path ++ [encoded] := by
  unfold addSegment
  rw [doubleDots_encoded h, singleDots_encoded h]
  simp only [decide_eq_true_eq]

theorem addSegment_data (path : List JsString) (isLast : Bool) :
    addSegment path (js "data") isLast = path ++ [js "data"] := by
  have hself : encodeURIComponent (js "data") = some (js "data") := by decide
  rw [addSegment_encoded path isLast hself, if_neg (by decide), if_neg (by decide)]

/-- What is left below the prefix of the API, with the encoded table and the encoded id. -/
def leftSegments (table encoded : JsString) (id : Option JsString) : List JsString :=
  if table = js ".." then [id.getD []]
  else if table = js "." then [js "data", id.getD []]
  else js "data" :: encoded :: id.toList

/-- The path of a call for a table. -/
theorem requestedPath_table {table encoded : JsString} (base : List JsString)
    (h : encodeURIComponent table = some encoded) :
    requestedPath base (js "/data/" ++ encoded) = base ++ leftSegments table encoded none := by
  unfold requestedPath leftSegments
  rw [splitOn_table h, parsePath, addSegment_data, parsePath, addSegment_encoded _ _ h, parsePath]
  by_cases hdouble : table = js ".."
  · simp [hdouble]
  · rw [if_neg hdouble, if_neg hdouble]
    by_cases hsingle : table = js "."
    · simp [hsingle]
    · simp [hsingle]

/-- The text of a number is no dot segment. -/
theorem text_ne_dots (id : JsNumber) : id.text ≠ js "." ∧ id.text ≠ js ".." := by
  have hread : ∀ x : Decimal, readNumeral x.text ≠ none := by
    intro x
    rw [x.readNumeral_text]
    exact Option.some_ne_none x
  cases id with
  | nan => decide
  | infinity negative => cases negative <;> decide
  | finite x =>
      constructor
      · intro htext
        apply hread x
        rw [show x.text = js "." from htext]
        decide
      · intro htext
        apply hread x
        rw [show x.text = js ".." from htext]
        decide

/-- The path of a call for a record. -/
theorem requestedPath_table_id {table encoded encodedId : JsString} {id : JsNumber}
    (base : List JsString) (h : encodeURIComponent table = some encoded)
    (hid : encodeURIComponent id.text = some encodedId) :
    requestedPath base (js "/data/" ++ encoded ++ js "/" ++ encodedId) =
      base ++ leftSegments table encoded (some encodedId) := by
  obtain ⟨hsingleId, hdoubleId⟩ := text_ne_dots id
  unfold requestedPath leftSegments
  rw [splitOn_table_id h hid, parsePath, addSegment_data, parsePath, addSegment_encoded _ _ h,
    parsePath, addSegment_encoded _ _ hid, if_neg hdoubleId, if_neg hsingleId, parsePath]
  by_cases hdouble : table = js ".."
  · simp [hdouble]
  · rw [if_neg hdouble, if_neg hdouble]
    by_cases hsingle : table = js "."
    · simp [hsingle]
    · simp [hsingle]

/-- Below the prefix of the API the routes read what follows it. -/
theorem receive_append (base segments : List JsString) (method : JsString) :
    receive base method (base ++ segments) = receiveSegments method segments := by
  unfold receive
  rw [List.take_left, List.drop_left, if_pos rfl]

/-! ## Ids -/

/-- What `ParseIntPipe` reads of a double is the double. -/
theorem parseIntPipe_text {id : JsNumber} (hdouble : id.IsDouble) :
    parseIntPipe id.text = if isIntegerText id.text then some id else none := by
  unfold parseIntPipe
  by_cases hinteger : isIntegerText id.text = true
  · rw [if_pos hinteger, if_pos hinteger]
    cases id with
    | nan => exact absurd hinteger (by decide)
    | infinity negative =>
        cases negative with
        | true => exact absurd hinteger (by decide)
        | false => exact absurd hinteger (by decide)
    | finite x =>
        have hround : x.toDouble = .finite x := hdouble
        show ((readNumeral x.text).map Decimal.toDouble).filter JsNumber.isFinite = _
        rw [Decimal.readNumeral_text, Option.map_some, hround]
        rfl
  · rw [if_neg hinteger, if_neg hinteger]

theorem isIntegerText_of_digits {text : JsString} (hne : text ≠ [])
    (h : ∀ unit ∈ text, isDigit unit = true) : isIntegerText text = true := by
  cases text with
  | nil => contradiction
  | cons unit rest =>
      have hhyphen : unit ≠ hyphenUnit := by
        rintro rfl
        have hdigit := h hyphenUnit List.mem_cons_self
        revert hdigit
        decide
      rw [isIntegerText, if_neg hhyphen, List.all_eq_true]
      exact h

/-- The ids below 10^21 are written in digits. -/
theorem isIntegerText_ofNat {n : Nat} (h : n < 10 ^ 21) :
    isIntegerText (JsNumber.ofNat n).text = true := by
  show isIntegerText (Decimal.ofNat n).text = true
  by_cases hzero : n = 0
  · rw [hzero]
    decide
  · obtain ⟨hinteger, hpositive⟩ :=
      (Decimal.positive_integer_iff (Decimal.ofNat n)).mpr ⟨n, by omega, rfl⟩
    have hplain := (Decimal.plain_ofNat_iff n).mpr h
    generalize Decimal.ofNat n = x at hinteger hpositive hplain
    simp only [Decimal.isPositive, Bool.and_eq_true, Bool.not_eq_true', decide_eq_true_eq]
      at hpositive
    obtain ⟨hnegative, hne⟩ := hpositive
    have hexponent : 0 ≤ x.exponent := of_decide_eq_true hinteger
    obtain ⟨-, hpoint⟩ := hplain.resolve_left hne
    have hlength : ((decimalDigits x.coefficient).length : Int) ≤ x.pointPosition := by
      rw [length_decimalDigits, Decimal.pointPosition]
      omega
    have htext : x.text = decimalDigits x.coefficient ++ List.replicate
        (x.pointPosition.toNat - (decimalDigits x.coefficient).length) (digitUnit 0) := by
      rw [Decimal.text, if_neg hne, hnegative, if_neg Bool.false_ne_true, Decimal.unsignedText]
      exact if_pos (And.intro hlength hpoint)
    rw [htext]
    apply isIntegerText_of_digits
    · intro hnil
      exact decimalDigits_ne_nil hne (List.append_eq_nil_iff.mp hnil).1
    · intro unit hunit
      rcases List.mem_append.mp hunit with hdigit | hpad
      · exact isDigit_of_mem_decimalDigits hdigit
      · rw [List.eq_of_mem_replicate hpad]
        decide

/-! ## Main result -/

/-- A name that is a segment of its own. -/
def isSegment (table : JsString) : Bool :=
  table ≠ [] && table ≠ js "." && table ≠ js ".."

/-- What a request of the client is answered by. -/
def received (base : List JsString) (request : HttpCall) : Reception :=
  receive base request.method (requestedPath base request.path)

/-- What becomes of a call of the client library for a table. -/
structure Arrives (base : List JsString) (table : JsString) (call : RecordsCall) : Prop where
  rejected : chars table = none →
    call.send table = .error (.middlewareError ⟨js "URI malformed", 0⟩)
  sent : (chars table).isSome = true → ∃ request, call.send table = .ok request
  handled : ∀ request, call.send table = .ok request → isSegment table = true →
    (∀ id ∈ call.id, isIntegerText id.text = true) →
      received base request = .handled (handlerOf call) table call.id
  badRequest : ∀ request, call.send table = .ok request → isSegment table = true →
    (∃ id ∈ call.id, isIntegerText id.text = false) → received base request = .badRequest
  /-- Without the segment, the id of a record stands in the place of the table. -/
  readAsList : ∀ request id, call.send table = .ok request → table = js "." → call = .read id →
    received base request = .handled .list id.text none
  noRoute : ∀ request, call.send table = .ok request →
    table = [] ∨ table = js ".." ∨ (table = js "." ∧ ∀ id, call ≠ .read id) →
      received base request = .noRoute

theorem method_of_httpCall {table : JsString} {call : RecordsCall} {request : HttpCall}
    (h : call.httpCall table = some request) :
    request.method = (handlerOf call).method ∧ path table call.id = some request.path := by
  cases call <;>
  · obtain ⟨written, hpath, hrequest⟩ := Option.bind_eq_some_iff.mp h
    obtain rfl := Option.some.inj hrequest
    exact ⟨rfl, hpath⟩

theorem find_handlerOf (call : RecordsCall) :
    DataHandler.find (handlerOf call).method call.id.isSome = some (handlerOf call) := by
  cases call <;> rfl

/-- What is received of a request that a method of the client sends. -/
theorem received_of_send (base : List JsString) {table : JsString} {call : RecordsCall}
    {request : HttpCall} (hsend : call.send table = .ok request) :
    ∃ encoded encodedId, encodeURIComponent table = some encoded ∧
      (∀ id ∈ call.id, encodeURIComponent id.text = some encodedId) ∧
      received base request = receiveSegments (handlerOf call).method
        (leftSegments table encoded (call.id.map fun _ => encodedId)) := by
  unfold RecordsCall.send at hsend
  cases hcall : call.httpCall table with
  | none =>
      rw [hcall] at hsend
      contradiction
  | some sent =>
      rw [hcall] at hsend
      obtain rfl := Except.ok.inj hsend
      obtain ⟨hmethod, hpath⟩ := method_of_httpCall hcall
      obtain ⟨encoded, htable, -⟩ := Option.bind_eq_some_iff.mp hpath
      obtain ⟨encodedId, hid, hwritten⟩ := path_of_encoded call.id htable
      rw [hpath] at hwritten
      refine ⟨encoded, encodedId, htable, hid, ?_⟩
      rw [received, hmethod, Option.some.inj hwritten]
      cases hcalled : call.id with
      | none =>
          rw [Option.isSome_none, if_neg Bool.false_ne_true, List.append_nil,
            requestedPath_table base htable, receive_append, Option.map_none]
      | some id =>
          rw [Option.isSome_some, if_pos rfl, ← List.append_assoc,
            requestedPath_table_id base htable (hid id hcalled), receive_append, Option.map_some]

/-- An encoded id is not empty. -/
theorem encodedId_ne_nil {id : JsNumber} {encodedId : JsString}
    (hid : encodeURIComponent id.text = some encodedId) : encodedId ≠ [] := by
  rw [Ne, encoded_eq_nil_iff hid]
  exact id.text_ne_nil

/-- What is received for the name of a table, with an id or without. -/
theorem receiveParameters_encoded {method table encoded : JsString} {id : Option JsString}
    {handler : DataHandler} (h : encodeURIComponent table = some encoded) (htable : table ≠ [])
    (hfind : DataHandler.find method id.isSome = some handler) :
    receiveParameters method encoded id = callHandler handler table id := by
  unfold receiveParameters
  rw [if_neg (mt (encoded_eq_nil_iff h).mp htable), hfind, decodeURIComponent_encodeURIComponent h]
  rfl

/-- The handler of a call is called if the name of the table is a segment. -/
theorem received_of_isSegment (base : List JsString) {table : JsString} {call : RecordsCall}
    {request : HttpCall} (hsend : call.send table = .ok request) (htable : isSegment table = true) :
    ∃ encodedId, (∀ id ∈ call.id, encodeURIComponent id.text = some encodedId) ∧
      received base request =
        callHandler (handlerOf call) table (call.id.map fun _ => encodedId) := by
  simp only [isSegment, Bool.and_eq_true, decide_eq_true_eq] at htable
  obtain ⟨⟨hne, hsingle⟩, hdouble⟩ := htable
  obtain ⟨encoded, encodedId, hencoded, hid, hreceived⟩ := received_of_send base hsend
  have hfind := find_handlerOf call
  refine ⟨encodedId, hid, ?_⟩
  rw [hreceived, leftSegments, if_neg hdouble, if_neg hsingle]
  cases hcalled : call.id with
  | none =>
      rw [hcalled] at hfind
      exact receiveParameters_encoded hencoded hne hfind
  | some id =>
      rw [hcalled] at hfind
      show receiveParameters _ encoded (if encodedId = [] then none else some encodedId) = _
      rw [if_neg (encodedId_ne_nil (hid id hcalled))]
      exact receiveParameters_encoded hencoded hne hfind

/-- A handler gets the id that a double was written as. -/
theorem callHandler_encoded {handler : DataHandler} {table encodedId : JsString} {id : JsNumber}
    (hdouble : id.IsDouble) (hid : encodeURIComponent id.text = some encodedId) :
    callHandler handler table (some encodedId) =
      if isIntegerText id.text then .handled handler table (some id) else .badRequest := by
  have hpiped : (decodeURIComponent encodedId).bind parseIntPipe =
      if isIntegerText id.text then some id else none := by
    rw [decodeURIComponent_encodeURIComponent hid, Option.bind_some, parseIntPipe_text hdouble]
  rw [callHandler, hpiped]
  by_cases hinteger : isIntegerText id.text = true
  · rw [if_pos hinteger, if_pos hinteger]
  · rw [if_neg hinteger, if_neg hinteger]

theorem httpCall_of_path (table : JsString) (call : RecordsCall) :
    (call.httpCall table).isSome = (path table call.id).isSome := by
  have hkept : ∀ (written : Option JsString) (request : JsString → HttpCall),
      (written.bind fun path => some (request path)).isSome = written.isSome := by
    intro written request
    cases written <;> rfl
  cases call <;> exact hkept _ _

/-- A route without a table is none. -/
theorem receiveSegments_empty (method : JsString) (id : Option JsString) :
    receiveSegments method (js "data" :: [] :: id.toList) = .noRoute := by
  cases id <;> rfl

theorem arrives (base : List JsString) (table : JsString) (call : RecordsCall)
    (hdouble : ∀ id ∈ call.id, id.IsDouble) : Arrives base table call := by
  constructor
  · intro hchars
    have hpath : path table call.id = none := by
      unfold path encodeURIComponent
      rw [hchars]
      rfl
    have hcall := httpCall_of_path table call
    rw [hpath, Option.isSome_none, Option.isSome_eq_false_iff, Option.isNone_iff_eq_none] at hcall
    rw [RecordsCall.send, hcall]
    rfl
  · intro hchars
    obtain ⟨cs, hcs⟩ := Option.isSome_iff_exists.mp hchars
    have hencoded : encodeURIComponent table = some (cs.flatMap escapeChar) := by
      rw [encodeURIComponent, hcs, Option.map_some]
    obtain ⟨encodedId, -, hpath⟩ := path_of_encoded call.id hencoded
    have hcall := httpCall_of_path table call
    rw [hpath, Option.isSome_some] at hcall
    obtain ⟨request, hrequest⟩ := Option.isSome_iff_exists.mp hcall
    exact ⟨request, by rw [RecordsCall.send, hrequest]⟩
  · intro request hsend htable hids
    obtain ⟨encodedId, hid, hreceived⟩ := received_of_isSegment base hsend htable
    rw [hreceived]
    cases hcalled : call.id with
    | none => rfl
    | some id =>
        rw [Option.map_some, callHandler_encoded (hdouble id hcalled) (hid id hcalled),
          if_pos (hids id hcalled)]
  · intro request hsend htable hrefused
    obtain ⟨id, hcalled, hinteger⟩ := hrefused
    obtain ⟨encodedId, hid, hreceived⟩ := received_of_isSegment base hsend htable
    have hid' := hid id hcalled
    have hdouble' := hdouble id hcalled
    rw [Option.mem_def] at hcalled
    rw [hreceived, hcalled, Option.map_some, callHandler_encoded hdouble' hid', hinteger]
    rfl
  · rintro request id hsend rfl rfl
    obtain ⟨encoded, encodedId, -, hid, hreceived⟩ := received_of_send base hsend
    have hid' := hid id rfl
    have hfind : DataHandler.find (js "GET") (none : Option JsString).isSome = some .list := rfl
    rw [hreceived]
    exact receiveParameters_encoded hid' id.text_ne_nil hfind
  · intro request hsend htable
    obtain ⟨encoded, encodedId, hencoded, hid, hreceived⟩ := received_of_send base hsend
    rw [hreceived]
    rcases htable with rfl | rfl | ⟨rfl, hcall⟩
    · obtain rfl := (encoded_eq_nil_iff hencoded).mpr rfl
      exact receiveSegments_empty _ _
    · rfl
    · cases call with
      | read id => exact absurd rfl (hcall id)
      | list options => rfl
      | create data => rfl
      | findOne filter => rfl
      | update id data =>
          have hne := encodedId_ne_nil (hid id rfl)
          show receiveParameters (js "PATCH") encodedId none = _
          exact if_neg hne
      | delete id =>
          have hne := encodedId_ne_nil (hid id rfl)
          show receiveParameters (js "DELETE") encodedId none = _
          exact if_neg hne

/-- The names that the guard of the data API lets through are segments of a path. -/
theorem isSegment_of_isValidTableName {unicode : UnicodeClasses} {table : JsString}
    (h : isValidTableName unicode table = true) : isSegment table = true := by
  obtain ⟨-, hhead, -, hne⟩ := codePoints_of_isValidTableName h
  have hstop : isEdgeCode unicode 46 = false := by
    unfold isEdgeCode
    rw [unicode.letter_ascii 46 (by decide), unicode.number_ascii 46 (by decide)]
    decide
  have hfirst : ∀ {rest : JsString}, table ≠ fullStop :: rest := by
    rintro rest rfl
    have hedge := hhead 46 (by rw [codePoints_head (by decide)]; rfl)
    rw [hstop] at hedge
    contradiction
  simp only [isSegment, Bool.and_eq_true, decide_eq_true_eq]
  exact ⟨⟨fun hnil => hne (by rw [hnil]; rfl), hfirst⟩, hfirst⟩

/-- Whatever the name of the table and the arguments are: a call is rejected before anything is
sent exactly if the name is not well formed, and a request that is sent reaches the handler that it
is meant for, with this very table and id, if the name is not empty, `.` or `..`.  A `read` of the
table `.` is answered with the list of the table whose name is the id, and no other request for
these three names meets a route of the data API.  The handler is reached for all names that the
guard accepts and all ids below 10^21. -/
theorem client_calls_arrive (unicode : UnicodeClasses) (base : List JsString) (table : JsString)
    (call : RecordsCall) (hdouble : ∀ id ∈ call.id, id.IsDouble) :
    Arrives base table call ∧
      (isValidTableName unicode table = true → isSegment table = true) ∧
      ∀ n < 10 ^ 21, isIntegerText (JsNumber.ofNat n).text = true :=
  ⟨arrives base table call hdouble, isSegment_of_isValidTableName, fun _ => isIntegerText_ofNat⟩

/-- `read('.', 5)` is answered with the list of the table `5`. -/
theorem client_calls_arrive_dot :
    ∃ request, (RecordsCall.read (.ofNat 5)).send (js ".") = .ok request ∧
      received [js "api"] request = .handled .list (js "5") none := by
  have hdouble : ∀ id ∈ (RecordsCall.read (.ofNat 5)).id, id.IsDouble := by
    rintro _ ⟨⟩
    decide +kernel
  obtain ⟨harrives, -⟩ := client_calls_arrive .ascii [js "api"] (js ".") (.read (.ofNat 5)) hdouble
  obtain ⟨request, hsend⟩ := harrives.sent (by decide)
  exact ⟨request, hsend, harrives.readAsList request _ hsend rfl rfl⟩

end Http
end NocoMiddleware
