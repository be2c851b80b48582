import NocoMiddleware.Exception
import NocoMiddleware.Foundation.Fallible
import NocoMiddleware.Js.Json
import NocoMiddleware.Js.Split

/-!
# `IdentityClaimsNormalizerService`

`normalize` makes claims of a token payload: the subject, the email and the user name are
trimmed texts, and the role and scope claims, each an array or one text, become lists.
-/

namespace NocoMiddleware
namespace Auth

open NocoMiddleware.Js NocoMiddleware.Foundation

/-- `'local' | 'external'`. -/
inductive AuthProvider where
  | localNocodb
  | externalJwt
  deriving DecidableEq

/-- The string value of a provider. -/
def AuthProvider.text : AuthProvider → JsString
  | localNocodb => js "local"
  | externalJwt => js "external"

/-- `TokenPayload`.  A claim that is `none` is missing. -/
structure TokenPayload where
  sub : Option Json
  email : Option Json
  username : Option Json
  preferredUsername : Option Json
  roles : Option Json
  role : Option Json
  scope : Option Json
  scp : Option Json

/-- `NormalizedIdentityClaims`. -/
structure NormalizedIdentityClaims where
  subject : JsString
  provider : AuthProvider
  email : Option JsString
  username : Option JsString
  roles : List JsString
  scope : List JsString
  deriving DecidableEq

/-- `coerceString`. -/
def coerceString : Option Json → Option JsString
  | some (.string value) =>
      let normalized := trim value
      if normalized ≠ [] then some normalized else none
  | some (.number value) => some value.text
  | _ => none

/-- The list of a claim that is an array of texts, or one text that is split at runs of
separators. -/
def parseEntries (separates : CodeUnit → Bool) : Option Json → List JsString
  | some (.array entries) =>
      (entries.map fun entry =>
        match entry with
        | .string text => trim text
        | _ => []).filter (· ≠ [])
  | some (.string value) => ((splitRuns separates value).map trim).filter (· ≠ [])
  | _ => []

/-- `[\s,]` -/
def isRoleSeparator (unit : CodeUnit) : Bool :=
  isWhiteSpace unit || unit = commaUnit

/-- `parseRoles`. -/
def parseRoles (value : Option Json) : List JsString :=
  parseEntries isRoleSeparator value

/-- `parseScope`. -/
def parseScope (value : Option Json) : List JsString :=
  parseEntries isWhiteSpace value

/-- `normalize`. -/
def normalize (payload : TokenPayload) (provider : AuthProvider) :
    Except Exception NormalizedIdentityClaims :=
  match (coerceString payload.sub).filter (· ≠ []) with
  | none => .error (.unauthorized (js "Token payload is missing sub claim"))
  | some subject =>
      .ok {
        subject := subject
        provider := provider
        email := coerceString payload.email
        username := (coerceString payload.preferredUsername).or (coerceString payload.username)
        roles := parseRoles (Json.orElse payload.roles payload.role)
        scope := parseScope (Json.orElse payload.scope payload.scp) }

/-! ## Trimmed texts -/

/-- What `coerceString` returns is not empty and has no white space around it. -/
theorem trim_of_coerceString {value : Option Json} {text : JsString}
    (h : coerceString value = some text) : text ≠ [] ∧ trim text = text := by
  unfold coerceString at h
  dsimp only at h
  split at h
  · split at h
    · next hne =>
        obtain rfl := Option.some.inj h
        exact ⟨hne, trim_trim _⟩
    · contradiction
  · obtain rfl := Option.some.inj h
    exact ⟨JsNumber.text_ne_nil _, trim_of_not_isWhiteSpace fun unit hunit =>
      JsNumber.not_isWhiteSpace_of_mem_text hunit⟩
  · contradiction

/-- The claims that `normalize` makes of a payload. -/
theorem normalize_eq_ok {payload : TokenPayload} {provider : AuthProvider}
    {claims : NormalizedIdentityClaims} (h : normalize payload provider = .ok claims) :
    coerceString payload.sub = some claims.subject ∧ claims.provider = provider ∧
      claims.email = coerceString payload.email ∧
      claims.roles = parseRoles (Json.orElse payload.roles payload.role) ∧
      claims.scope = parseScope (Json.orElse payload.scope payload.scp) := by
  unfold normalize at h
  split at h
  · contradiction
  · next subject hsubject =>
      obtain rfl := Except.ok.inj h
      exact ⟨(Option.filter_eq_some_iff.mp hsubject).1, rfl, rfl, rfl, rfl⟩

/-- The subject and the email of normalized claims are not empty and have no white space
around them. -/
structure NormalizedIdentityClaims.Trimmed (claims : NormalizedIdentityClaims) : Prop where
  subject : claims.subject ≠ [] ∧ trim claims.subject = claims.subject
  email : ∀ email ∈ claims.email, email ≠ [] ∧ trim email = email

theorem trimmed_of_normalize {payload : TokenPayload} {provider : AuthProvider}
    {claims : NormalizedIdentityClaims} (h : normalize payload provider = .ok claims) :
    claims.Trimmed := by
  obtain ⟨hsubject, -, hemail, -⟩ := normalize_eq_ok h
  refine ⟨trim_of_coerceString hsubject, fun email hmem => ?_⟩
  rw [hemail] at hmem
  exact trim_of_coerceString hmem

/-- A claim that is one text gives the words of the text. -/
theorem parseEntries_string {separates : CodeUnit → Bool}
    (hspace : ∀ unit, isWhiteSpace unit = true → separates unit = true) (value : JsString) :
    parseEntries separates (some (.string value)) = words separates value := by
  have htrim : (splitRuns separates value).map trim = splitRuns separates value := by
    refine (List.map_congr_left fun piece hpiece => ?_).trans (List.map_id _)
    refine trim_of_not_isWhiteSpace fun unit hunit => ?_
    by_contra hwhite
    have hseparates := hspace unit (by simpa using hwhite)
    rw [(of_mem_splitRuns hpiece unit hunit).1] at hseparates
    contradiction
  rw [parseEntries, htrim, words]

/-- A claim that is an array of trimmed texts gives these texts. -/
theorem parseEntries_array {separates : CodeUnit → Bool} {texts : List JsString}
    (h : ∀ text ∈ texts, text ≠ [] ∧ trim text = text) :
    parseEntries separates (some (.array (texts.map .string))) = texts := by
  have hmap : (texts.map Json.string).map (fun entry =>
      match entry with
      | .string text => trim text
      | _ => []) = texts := by
    rw [List.map_map]
    exact (List.map_congr_left fun text htext => (h text htext).2).trans (List.map_id _)
  rw [parseEntries, hmap, List.filter_eq_self]
  exact fun text htext => by simpa using (h text htext).1

end Auth
end NocoMiddleware
