import NocoMiddleware.Auth.IdentityClaimsNormalizer
import NocoMiddleware.Permissions.CrudAction
import NocoMiddleware.Roles.RolesService

/-!
# Role and scope claims in their two encodings

A token carries its roles and its scopes as an array or as one text.  `RolesGuard` and
`hasScopePermission` read the lists that the normalizer makes of them.  The two encodings
give the same list as long as no entry contains a space: the normalizer splits a text at
white space, and the rules for role and table names allow inner spaces.
-/

namespace NocoMiddleware
namespace Auth

open NocoMiddleware.Js NocoMiddleware.Filter NocoMiddleware.Tables NocoMiddleware.Permissions
open NocoMiddleware.Roles NocoMiddleware.Foundation

/-! ## `RolesGuard` -/

/-- `matchRoles`. -/
def matchRoles (roles userRoles : List JsString) : Bool :=
  userRoles.any fun role => roles.contains role

/-- `canActivate` of `RolesGuard`: the roles that the handler requires, and those of the
user, which may be missing. -/
def rolesGuardCanActivate (roles userRoles : Option (List JsString)) : Bool :=
  match roles with
  | none => true
  | some [] => true
  | some roles =>
      match userRoles with
      | none => false
      | some userRoles => matchRoles roles userRoles

theorem rolesGuardCanActivate_singleton (required : JsString) (userRoles : List JsString) :
    rolesGuardCanActivate (some [required]) (some userRoles) = true ↔ required ∈ userRoles := by
  show userRoles.any (fun role => [required].contains role) = true ↔ _
  simp

/-- The guard reads the roles of a user as a set. -/
theorem rolesGuardCanActivate_congr {userRoles userRoles' : List JsString}
    (h : ∀ role, role ∈ userRoles ↔ role ∈ userRoles') (roles : Option (List JsString)) :
    rolesGuardCanActivate roles (some userRoles) =
      rolesGuardCanActivate roles (some userRoles') := by
  have hmatch : ∀ roles, matchRoles roles userRoles = matchRoles roles userRoles' := by
    intro roles
    rw [matchRoles, matchRoles, Bool.eq_iff_iff, List.any_eq_true, List.any_eq_true]
    exact exists_congr fun role => and_congr_left fun _ => h role
  cases roles with
  | none => rfl
  | some roles =>
      cases roles with
      | nil => rfl
      | cons first rest => exact hmatch _

/-! ## Roles -/

/-- The unit of a space. -/
def spaceUnit : CodeUnit := 32

theorem isRoleSeparator_of_isWhiteSpace (unit : CodeUnit) (h : isWhiteSpace unit = true) :
    isRoleSeparator unit = true := by
  rw [isRoleSeparator, h, Bool.true_or]

/-- A unit of a role name separates roles exactly if it is a space. -/
theorem isRoleSeparator_iff {name : JsString} (h : SpacedWords name) {unit : CodeUnit}
    (hunit : unit ∈ name) : isRoleSeparator unit = true ↔ unit = spaceUnit := by
  constructor
  · intro hseparates
    rcases h.units unit hunit with hfield | hspace
    · exfalso
      simp only [isFieldUnit, isDigit, Bool.or_eq_true, Bool.and_eq_true,
        decide_eq_true_eq] at hfield
      simp only [isRoleSeparator, isWhiteSpace, commaUnit, Bool.or_eq_true, Bool.and_eq_true,
        decide_eq_true_eq, ← UInt16.toNat_inj] at hseparates
      have hcomma : (44 : CodeUnit).toNat = 44 := rfl
      omega
    · exact hspace
  · rintro rfl
    decide

/-- An array of role names gives these names. -/
theorem parseRoles_array {names : List JsString}
    (hnames : ∀ name ∈ names, roleNamePattern.test name = true) :
    parseRoles (some (.array (names.map .string))) = names := by
  refine parseEntries_array fun name hname => ?_
  have hspaced := spacedWords_of_roleNamePattern (hnames name hname)
  exact ⟨hspaced.ne_nil, hspaced.trim_eq⟩

/-- Role names joined by commas give the words of all names. -/
theorem parseRoles_joined (names : List JsString) :
    parseRoles (some (.string ((js ",").intercalate names))) =
      names.flatMap (words isRoleSeparator) := by
  rw [parseRoles, parseEntries_string isRoleSeparator_of_isWhiteSpace]
  exact words_intercalate (by decide) names

/-- A role name without a space is one word. -/
theorem words_of_roleName {name : JsString} (h : SpacedWords name) (hspace : spaceUnit ∉ name) :
    words isRoleSeparator name = [name] := by
  refine words_of_not_separates h.ne_nil fun unit hunit => ?_
  by_contra hseparates
  have hunitSpace := (isRoleSeparator_iff h hunit).mp (by simpa using hseparates)
  exact hspace (hunitSpace ▸ hunit)

/-- The two encodings of a list of role names give the same set of roles, are admitted by
`RolesGuard` for the same requirements, and admit to no other role than those named, exactly
if no name contains a space. -/
theorem role_encodings_agree_iff {names : List JsString}
    (hnames : ∀ name ∈ names, roleNamePattern.test name = true)
    {joined separate : TokenPayload}
    (hjoined : Json.orElse joined.roles joined.role =
      some (.string ((js ",").intercalate names)))
    (hseparate : Json.orElse separate.roles separate.role =
      some (.array (names.map .string)))
    {provider provider' : AuthProvider} {claims claims' : NormalizedIdentityClaims}
    (hclaims : normalize joined provider = .ok claims)
    (hclaims' : normalize separate provider' = .ok claims') :
    ((∀ role, role ∈ claims.roles ↔ role ∈ claims'.roles) ∧
      (∀ roles, rolesGuardCanActivate roles (some claims.roles) =
        rolesGuardCanActivate roles (some claims'.roles)) ∧
      ∀ required, (rolesGuardCanActivate (some [required]) (some claims.roles) = true ∨
        rolesGuardCanActivate (some [required]) (some claims'.roles) = true) →
        required ∈ names) ↔
      ∀ name ∈ names, spaceUnit ∉ name := by
  obtain ⟨-, -, -, hroles, -⟩ := normalize_eq_ok hclaims
  obtain ⟨-, -, -, hroles', -⟩ := normalize_eq_ok hclaims'
  rw [hjoined, parseRoles_joined] at hroles
  rw [hseparate, parseRoles_array hnames] at hroles'
  rw [hroles, hroles']
  constructor
  · intro h name hname hspace
    -- a word of the joined text contains no separator, so the name is none of them
    obtain ⟨other, -, hword⟩ := List.mem_flatMap.mp ((h.1 name).mpr hname)
    have hunit := ((of_mem_words hword).2 spaceUnit hspace).1
    exact absurd hunit (by decide)
  · intro hspaces
    have hwords : names.flatMap (words isRoleSeparator) = names := by
      have hsingle : ∀ name ∈ names, words isRoleSeparator name = [name] := fun name hname =>
        words_of_roleName (spacedWords_of_roleNamePattern (hnames name hname))
          (hspaces name hname)
      rw [List.flatMap_congr hsingle]
      exact List.flatMap_singleton' names
    rw [hwords]
    refine ⟨fun _ => Iff.rfl, fun _ => rfl, fun required hadmits => ?_⟩
    rw [rolesGuardCanActivate_singleton] at hadmits
    exact hadmits.elim id id

/-- A token of subject `7` with a role claim and a scope claim. -/
def tokenWith (roles scope : Option Json) : TokenPayload where
  sub := some (.number (.ofNat 7))
  email := none
  username := none
  preferredUsername := none
  roles := roles
  role := none
  scope := scope
  scp := none

/-- The claims of `tokenWith`, once its lists are read. -/
def claimsWith (roles scope : List JsString) : NormalizedIdentityClaims where
  subject := js "7"
  provider := .externalJwt
  email := none
  username := none
  roles := roles
  scope := scope

theorem role_encodings_agree_editor :
    ((∀ role, role ∈ [js "editor", js "viewer"] ↔ role ∈ [js "editor", js "viewer"]) ∧
      (∀ roles, rolesGuardCanActivate roles (some [js "editor", js "viewer"]) =
        rolesGuardCanActivate roles (some [js "editor", js "viewer"])) ∧
      ∀ required,
        (rolesGuardCanActivate (some [required]) (some [js "editor", js "viewer"]) = true ∨
          rolesGuardCanActivate (some [required]) (some [js "editor", js "viewer"]) = true) →
        required ∈ [js "editor", js "viewer"]) ↔
      ∀ name ∈ [js "editor", js "viewer"], spaceUnit ∉ name :=
  role_encodings_agree_iff (by decide)
    (rfl : Json.orElse (tokenWith (some (.string (js "editor,viewer"))) none).roles
      (tokenWith (some (.string (js "editor,viewer"))) none).role = _)
    (rfl : Json.orElse
      (tokenWith (some (.array [.string (js "editor"), .string (js "viewer")])) none).roles
      (tokenWith (some (.array [.string (js "editor"), .string (js "viewer")])) none).role = _)
    (by decide : normalize _ .externalJwt =
      .ok (claimsWith [js "editor", js "viewer"] []))
    (by decide : normalize _ .externalJwt =
      .ok (claimsWith [js "editor", js "viewer"] []))

/-- As one text, the role name `content admin` admits its bearer to handlers that require
the role `admin`; in an array it does not. -/
theorem role_name_admits_to_other_role :
    roleNamePattern.test (js "content admin") = true ∧
      normalize (tokenWith (some (.string (js "content admin"))) none) .externalJwt =
        .ok (claimsWith [js "content", js "admin"] []) ∧
      normalize (tokenWith (some (.array [.string (js "content admin")])) none) .externalJwt =
        .ok (claimsWith [js "content admin"] []) ∧
      rolesGuardCanActivate (some [js "admin"]) (some [js "content", js "admin"]) = true ∧
      rolesGuardCanActivate (some [js "admin"]) (some [js "content admin"]) = false ∧
      js "admin" ∉ [js "content admin"] := by
  decide

/-! ## Scopes -/

/-- `<table>:<action>`. -/
def scopeEntry (entry : JsString × CrudAction) : JsString :=
  entry.1 ++ js ":" ++ entry.2.text

section

variable {unicode : UnicodeClasses}

theorem not_isWhiteSpace_of_mem_action {action : CrudAction} {unit : CodeUnit}
    (h : unit ∈ js ":" ++ action.text) : isWhiteSpace unit = false := by
  have htext : (js ":" ++ action.text).all (fun unit => isWhiteSpace unit = false) = true := by
    cases action <;> decide
  exact forall_units htext unit h

/-- The only white space in a valid table name is the space. -/
theorem eq_space_of_isWhiteSpace {name : JsString} (h : isValidTableName unicode name = true)
    {unit : CodeUnit} (hunit : unit ∈ name) (hspace : isWhiteSpace unit = true) :
    unit = spaceUnit := by
  obtain ⟨hhigh, hlow⟩ := isWhiteSpace_not_surrogate hspace
  have hinner := (codePoints_of_isValidTableName h).1 _ (mem_codePoints_of_mem hunit hhigh hlow)
  rw [isInnerCode, Bool.or_eq_true] at hinner
  rcases hinner with hedge | hcode
  · rw [not_isWhiteSpace_of_isEdgeCode hedge] at hspace
    contradiction
  · rw [decide_eq_true_eq] at hcode
    exact UInt16.toNat_inj.mp hcode

/-- A valid table name contains no asterisk. -/
theorem asterisk_not_mem {name : JsString} (h : isValidTableName unicode name = true) :
    (42 : CodeUnit) ∉ name := by
  intro hmem
  have hinner := (codePoints_of_isValidTableName h).1 _
    (mem_codePoints_of_mem hmem (by decide) (by decide))
  simp only [isInnerCode, isEdgeCode, unicode.letter_ascii 42 (by decide),
    unicode.number_ascii 42 (by decide), Bool.or_eq_true, Bool.and_eq_true, decide_eq_true_eq,
    show (42 : CodeUnit).toNat = 42 from rfl] at hinner
  omega

/-- The unit of an entry at which a text of entries could be split is a space of the table
name. -/
theorem eq_space_of_mem_scopeEntry {entry : JsString × CrudAction}
    (h : isValidTableName unicode entry.1 = true) {unit : CodeUnit}
    (hunit : unit ∈ scopeEntry entry) (hspace : isWhiteSpace unit = true) :
    unit = spaceUnit ∧ unit ∈ entry.1 := by
  rw [scopeEntry, List.append_assoc] at hunit
  rcases List.mem_append.mp hunit with hunit | hunit
  · exact ⟨eq_space_of_isWhiteSpace h hunit hspace, hunit⟩
  · rw [not_isWhiteSpace_of_mem_action hunit] at hspace
    contradiction

/-- An entry is not empty and has no white space around it. -/
theorem trim_scopeEntry {entry : JsString × CrudAction}
    (h : isValidTableName unicode entry.1 = true) :
    scopeEntry entry ≠ [] ∧ trim (scopeEntry entry) = scopeEntry entry := by
  have hne := ne_nil_of_isValidTableName h
  obtain ⟨hhead, -⟩ := edges_of_trim entry.1
  rw [trim_of_isValidTableName h] at hhead
  have haction : js ":" ++ entry.2.text ≠ [] := List.cons_ne_nil _ _
  refine ⟨by simp [scopeEntry, hne], trim_eq_self (fun unit hunit => ?_) fun unit hunit => ?_⟩
  · rw [scopeEntry, List.append_assoc, List.head?_append_of_ne_nil _ hne] at hunit
    exact hhead unit hunit
  · rw [scopeEntry, List.append_assoc, List.getLast?_append_of_ne_nil _ haction] at hunit
    exact not_isWhiteSpace_of_mem_action (List.mem_of_mem_getLast? hunit)

/-- An array of entries gives these entries. -/
theorem parseScope_array {entries : List (JsString × CrudAction)}
    (h : ∀ entry ∈ entries, isValidTableName unicode entry.1 = true) :
    parseScope (some (.array ((entries.map scopeEntry).map .string))) =
      entries.map scopeEntry := by
  refine parseEntries_array fun text htext => ?_
  obtain ⟨entry, hentry, rfl⟩ := List.mem_map.mp htext
  exact trim_scopeEntry (h entry hentry)

/-- Entries joined by spaces give the words of all entries. -/
theorem parseScope_joined (entries : List (JsString × CrudAction)) :
    parseScope (some (.string ((js " ").intercalate (entries.map scopeEntry)))) =
      entries.flatMap fun entry => words isWhiteSpace (scopeEntry entry) := by
  have hspace : isWhiteSpace spaceUnit = true := by decide
  rw [parseScope, parseEntries_string fun _ h => h, ← List.flatMap_map]
  exact words_intercalate hspace _

/-- An entry whose table name has no space is one word. -/
theorem words_of_scopeEntry {entry : JsString × CrudAction}
    (h : isValidTableName unicode entry.1 = true) (hspace : spaceUnit ∉ entry.1) :
    words isWhiteSpace (scopeEntry entry) = [scopeEntry entry] := by
  refine words_of_not_separates (trim_scopeEntry h).1 fun unit hunit => ?_
  by_contra hwhite
  obtain ⟨rfl, hmem⟩ := eq_space_of_mem_scopeEntry h hunit (by simpa using hwhite)
  exact hspace hmem

/-- The words of entries grant nothing on a table whose name has a space. -/
theorem not_granted_by_words {entries : List (JsString × CrudAction)}
    (h : ∀ entry ∈ entries, isValidTableName unicode entry.1 = true) {table : JsString}
    (hspace : spaceUnit ∈ table) (action : CrudAction) :
    hasScopePermission
      (some (entries.flatMap fun entry => words isWhiteSpace (scopeEntry entry)))
      table action = false := by
  have hword : ∀ word ∈ entries.flatMap fun entry => words isWhiteSpace (scopeEntry entry),
      spaceUnit ∉ word ∧ (42 : CodeUnit) ∉ word := by
    intro word hmem
    obtain ⟨entry, hentry, hword⟩ := List.mem_flatMap.mp hmem
    constructor
    · intro hunit
      have hwhite := ((of_mem_words hword).2 spaceUnit hunit).1
      exact absurd hwhite (by decide)
    · intro hunit
      have hmem := ((of_mem_words hword).2 42 hunit).2
      rw [scopeEntry, List.append_assoc] at hmem
      rcases List.mem_append.mp hmem with hmem | hmem
      · exact asterisk_not_mem (h entry hentry) hmem
      · revert hmem
        cases entry.2 <;> decide
  rw [← Bool.not_eq_true, hasScopePermission_iff]
  rintro (hmem | hmem | hmem | hmem)
  · exact (hword _ hmem).1 (List.mem_append_left _ (List.mem_append_left _ hspace))
  · exact (hword _ hmem).1 (List.mem_append_left _ hspace)
  · exact (hword _ hmem).2 List.mem_cons_self
  · exact (hword _ hmem).2 List.mem_cons_self

/-- The two encodings of a list of scope entries grant the same actions on all valid table
names exactly if no entry has a space in its table name. -/
theorem scope_encodings_agree_iff {entries : List (JsString × CrudAction)}
    (hentries : ∀ entry ∈ entries, isValidTableName unicode entry.1 = true)
    {joined separate : TokenPayload}
    (hjoined : Json.orElse joined.scope joined.scp =
      some (.string ((js " ").intercalate (entries.map scopeEntry))))
    (hseparate : Json.orElse separate.scope separate.scp =
      some (.array ((entries.map scopeEntry).map .string)))
    {provider provider' : AuthProvider} {claims claims' : NormalizedIdentityClaims}
    (hclaims : normalize joined provider = .ok claims)
    (hclaims' : normalize separate provider' = .ok claims') :
    (∀ table action, isValidTableName unicode table = true →
      hasScopePermission (some claims.scope) table action =
        hasScopePermission (some claims'.scope) table action) ↔
      ∀ entry ∈ entries, spaceUnit ∉ entry.1 := by
  obtain ⟨-, -, -, -, hscope⟩ := normalize_eq_ok hclaims
  obtain ⟨-, -, -, -, hscope'⟩ := normalize_eq_ok hclaims'
  rw [hjoined, parseScope_joined] at hscope
  rw [hseparate, parseScope_array hentries] at hscope'
  rw [hscope, hscope']
  constructor
  · intro h entry hentry hspace
    have hgranted : hasScopePermission (some (entries.map scopeEntry)) entry.1 entry.2 = true :=
      (hasScopePermission_iff _ _ _).mpr (Or.inl (List.mem_map_of_mem hentry))
    rw [← h entry.1 entry.2 (hentries entry hentry),
      not_granted_by_words hentries hspace] at hgranted
    contradiction
  · intro hspaces table action _
    have hwords : (entries.flatMap fun entry => words isWhiteSpace (scopeEntry entry)) =
        entries.map scopeEntry := by
      rw [List.flatMap_congr fun entry hentry =>
        words_of_scopeEntry (hentries entry hentry) (hspaces entry hentry)]
      exact List.flatMap_pure_eq_map _ _
    rw [hwords]

end

theorem scope_encodings_agree_customers :
    (∀ table action, isValidTableName .ascii table = true →
      hasScopePermission (some [js "customers:read"]) table action =
        hasScopePermission (some [js "customers:read"]) table action) ↔
      ∀ entry ∈ [(js "customers", CrudAction.read)], spaceUnit ∉ entry.1 :=
  scope_encodings_agree_iff (by decide)
    (rfl : Json.orElse (tokenWith none (some (.string (js "customers:read")))).scope
      (tokenWith none (some (.string (js "customers:read")))).scp = _)
    (rfl : Json.orElse (tokenWith none (some (.array [.string (js "customers:read")]))).scope
      (tokenWith none (some (.array [.string (js "customers:read")]))).scp = _)
    (by decide : normalize _ .externalJwt = .ok (claimsWith [] [js "customers:read"]))
    (by decide : normalize _ .externalJwt = .ok (claimsWith [] [js "customers:read"]))

/-- As one text, the scope of the table `order items` grants to read the table `items`
instead. -/
theorem scope_grants_other_table :
    isValidTableName .ascii (js "order items") = true ∧
      normalize (tokenWith none (some (.string (js "order items:read")))) .externalJwt =
        .ok (claimsWith [] [js "order", js "items:read"]) ∧
      normalize (tokenWith none (some (.array [.string (js "order items:read")]))) .externalJwt =
        .ok (claimsWith [] [js "order items:read"]) ∧
      hasScopePermission (some [js "order", js "items:read"]) (js "items") .read = true ∧
      hasScopePermission (some [js "order items:read"]) (js "items") .read = false ∧
      hasScopePermission (some [js "order", js "items:read"]) (js "order items") .read = false ∧
      hasScopePermission (some [js "order items:read"]) (js "order items") .read = true := by
  decide

end Auth
end NocoMiddleware
