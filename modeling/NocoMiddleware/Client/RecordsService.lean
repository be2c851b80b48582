import NocoMiddleware.Client.HttpClient
import NocoMiddleware.Js.Numeral
import NocoMiddleware.Js.UriComponent

/-!
# The requests of `RecordsService`

The client library addresses the records of a table by paths under `/data`.  It encodes the name
of the table, which may be any string, so that it stays one segment of the path.
-/

namespace NocoMiddleware
namespace Client

open NocoMiddleware.Js

/-- `ListOptions`, with `where` as `filter`. -/
structure ListOptions where
  filter : Option JsString := none
  sort : Option JsString := none
  limit : Option JsNumber := none
  offset : Option JsNumber := none

/-- The methods of `RecordsService`. -/
inductive RecordsCall where
  | list (options : ListOptions)
  | read (id : JsNumber)
  | create (data : Json)
  | update (id : JsNumber) (data : Json)
  | delete (id : JsNumber)
  | findOne (filter : JsString)

/-- What axios is asked to send. -/
structure HttpCall where
  method : JsString
  path : JsString
  params : Option ListOptions := none
  data : Option Json := none

/-- `path`; `none` is the `URIError` of `encodeURIComponent`. -/
def path (table : JsString) (id : Option JsNumber) : Option JsString := do
  let encodedTable ← encodeURIComponent table
  let base := js "/data/" ++ encodedTable
  match id with
  | none => return base
  | some id => do
      let encodedId ← encodeURIComponent id.text
      return base ++ js "/" ++ encodedId

namespace RecordsCall

/-- The id that a method is called with. -/
def id : RecordsCall → Option JsNumber
  | list _ => none
  | read id => some id
  | create _ => none
  | update id _ => some id
  | delete id => some id
  | findOne _ => none

/-- The request of a method for a table. -/
def httpCall (table : JsString) : RecordsCall → Option HttpCall
  | list options => do
      return { method := js "GET", path := ← path table none, params := some options }
  | read id => do
      return { method := js "GET", path := ← path table (some id) }
  | create data => do
      return { method := js "POST", path := ← path table none, data := some data }
  | update id data => do
      return { method := js "PATCH", path := ← path table (some id), data := some data }
  | delete id => do
      return { method := js "DELETE", path := ← path table (some id) }
  | findOne filter => do
      return { method := js "GET", path := ← path table none,
               params := some { filter := some filter, limit := some (.ofNat 1) } }

/-- A method sends its request, or rejects with the error normalised. -/
def send (table : JsString) (call : RecordsCall) : Except Rejection HttpCall :=
  match call.httpCall table with
  | some request => .ok request
  | none => .error (throwNormalised (.error (js "URI malformed")))

end RecordsCall

example : path (js "../users") none = some (js "/data/..%2Fusers") := by decide

/-! ## Paths -/

theorem text_ascii {id : JsNumber} {unit : CodeUnit} (h : unit ∈ id.text) : unit.toNat < 0x80 := by
  have htext : ∀ text : JsString, text.all (fun unit => unit.toNat < 0x80) = true →
      unit ∈ text → unit.toNat < 0x80 := fun _ hall hmem => forall_units hall unit hmem
  cases id with
  | nan => exact htext _ (by decide) h
  | infinity negative => cases negative <;> exact htext _ (by decide) h
  | finite x =>
      have hunit := Decimal.isNumberUnit_of_mem_text h
      simp only [Decimal.isNumberUnit, isDigit, hyphenUnit, fullStop, Bool.or_eq_true,
        Bool.and_eq_true, decide_eq_true_eq, ← UInt16.toNat_inj] at hunit
      simp only [UInt16.reduceToNat] at hunit
      omega

/-- The text of a number can be encoded. -/
theorem encodeURIComponent_text (id : JsNumber) :
    ∃ encoded, encodeURIComponent id.text = some encoded := by
  have hchars : (chars id.text).isSome = true := by
    apply isSome_chars
    intro unit hunit
    have hlt := text_ascii hunit
    unfold Nat.isValidChar
    omega
  obtain ⟨cs, hcs⟩ := Option.isSome_iff_exists.mp hchars
  exact ⟨cs.flatMap escapeChar, by rw [encodeURIComponent, hcs, Option.map_some]⟩

/-- A path holds the encoded table and the encoded id. -/
theorem path_of_encoded {table encodedTable : JsString} (id : Option JsNumber)
    (htable : encodeURIComponent table = some encodedTable) :
    ∃ encodedId, (∀ i ∈ id, encodeURIComponent i.text = some encodedId) ∧
      path table id = some (js "/data/" ++ encodedTable ++
        if id.isSome then js "/" ++ encodedId else []) := by
  cases id with
  | none => exact ⟨[], nofun, by simp [path, htable]⟩
  | some id =>
      obtain ⟨encodedId, hid⟩ := encodeURIComponent_text id
      refine ⟨encodedId, ?_, by simp [path, htable, hid]⟩
      rintro _ ⟨⟩
      exact hid

end Client
end NocoMiddleware
