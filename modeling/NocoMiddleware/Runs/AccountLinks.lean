import NocoMiddleware.Foundation.Invariant
import NocoMiddleware.Runs.AccountCalls

/-!
# Accounts of external identities

`upsertIdentityUser` gives each subject of the external provider the row that carries it.
A login by email overwrites the subject of the row that it finds, so an account goes to
another subject exactly when such a login finds a row that is already linked.
-/

namespace NocoMiddleware
namespace Runs

open NocoMiddleware.Js NocoMiddleware.Filter NocoMiddleware.Tables NocoMiddleware.Store
open NocoMiddleware.Auth NocoMiddleware.Foundation

/-- The row carries a subject of the external provider. -/
def IsLinkedTo (subject : JsString) (row : Row) : Prop :=
  row.cell (js "auth_provider") = .string (js "external") ∧
    row.cell (js "external_subject") = .string subject

instance (subject : JsString) (row : Row) : Decidable (IsLinkedTo subject row) :=
  inferInstanceAs (Decidable (_ ∧ _))

/-- The row of the key carries the subject. -/
def Linked (tablePrefix : JsString) (key : Nat) (subject : JsString) (world : World) : Prop :=
  ∃ row ∈ systemRows tablePrefix world .users, row.id = key ∧ IsLinkedTo subject row

/-- `external_subject` of the row of the key. -/
def externalSubject (tablePrefix : JsString) (key : Nat) (world : World) : Option JsValue :=
  ((systemRows tablePrefix world .users).find? fun row => row.id = key).map fun row =>
    row.cell (js "external_subject")

/-- No row carries the subject of the claims, and the row of their email carries another
one. -/
def Relinks (tablePrefix : JsString) (claims : NormalizedIdentityClaims) (world : World) : Prop :=
  (systemRows tablePrefix world .users).find? (fun row => IsOfSubject claims row) = none ∧
    ∃ row, (systemRows tablePrefix world .users).find? (fun row => IsOfEmail claims row) =
        some row ∧
      ∃ subject, IsLinkedTo subject row

/-- The claims are those that `normalize` makes of a token of the external provider. -/
def IsExternal (claims : NormalizedIdentityClaims) : Prop :=
  ∃ payload, normalize payload .externalJwt = .ok claims

/-- One call of `upsertIdentityUser` for normalized claims of the external provider. -/
def Login (tablePrefix : JsString) (claims : NormalizedIdentityClaims) (world : World)
    (outcome : Except Exception ResolvedIdentity) (world' : World) : Prop :=
  IsExternal claims ∧
    Exec (nocodb true).contract (upsertIdentityUser tablePrefix claims) world outcome world'

/-- A call that does not take a row from another subject. -/
def LoginStep (tablePrefix : JsString) (world world' : World) : Prop :=
  ∃ claims outcome, ¬ Relinks tablePrefix claims world ∧
    Login tablePrefix claims world outcome world'

section

variable {tablePrefix : JsString} {claims : NormalizedIdentityClaims} {world world' : World}
  {key : Nat} {subject : JsString} {identity : ResolvedIdentity}

theorem isOfSubject_iff (hclaims : IsExternal claims) (row : Row) :
    IsOfSubject claims row ↔ IsLinkedTo claims.subject row := by
  obtain ⟨payload, hnormalize⟩ := hclaims
  have hprovider : claims.provider = .externalJwt := (normalize_eq_ok hnormalize).2.1
  rw [IsOfSubject, IsLinkedTo, hprovider, (trimmed_of_normalize hnormalize).subject.2,
    AuthProvider.text]

theorem eq_of_isLinkedTo {other : JsString} {row : Row} (h : IsLinkedTo subject row)
    (hother : IsLinkedTo other row) : subject = other :=
  JsValue.string.inj (h.2.symm.trans hother.2)

/-- Refreshing a row keeps its subject. -/
theorem isLinkedTo_refreshed (record : NocoRecord) (row : Row) :
    IsLinkedTo subject (row.patch (refreshedData claims record)) ↔ IsLinkedTo subject row := by
  rw [IsLinkedTo, IsLinkedTo, cell_refreshed _ _ _ (by decide), cell_refreshed _ _ _ (by decide)]

theorem isLinkedTo_linked (hclaims : IsExternal claims) (record : NocoRecord) (row : Row) :
    IsLinkedTo claims.subject (row.patch (linkedData claims record)) := by
  obtain ⟨payload, hnormalize⟩ := hclaims
  have hprovider : claims.provider = .externalJwt := (normalize_eq_ok hnormalize).2.1
  have hkeys := nodup_linkedData claims record
  constructor
  · rw [Row.cell_patch _ hkeys (by decide), linkedData, hprovider]
    rfl
  · rw [Row.cell_patch _ hkeys (by decide)]
    rfl

theorem isLinkedTo_created (hclaims : IsExternal claims) {row : Row}
    (hcells : row.cells = toCells (identityUserData claims)) : IsLinkedTo claims.subject row := by
  obtain ⟨payload, hnormalize⟩ := hclaims
  have hprovider : claims.provider = .externalJwt := (normalize_eq_ok hnormalize).2.1
  have hkeys := nodup_identityUserData claims
  constructor
  · rw [Row.cell_of_toCells hcells hkeys (by decide), identityUserData, hprovider]
    rfl
  · rw [Row.cell_of_toCells hcells hkeys (by decide)]
    rfl

/-! ## One call -/

/-- A call resolves to a row that then carries its subject. -/
theorem linked_of_upserted (hclaims : IsExternal claims)
    (h : Upserted tablePrefix claims world world' identity) :
    ∃ key, identity.userId = .ofNat key ∧ Linked tablePrefix key claims.subject world' := by
  cases h with
  | @refreshed row hsubject _ hchanged =>
      obtain ⟨hrow, hof⟩ := of_find hsubject
      have hmem := hchanged.mem_patch hrow
      rw [if_pos rfl] at hmem
      have hlinked : IsLinkedTo claims.subject row := (isOfSubject_iff hclaims row).mp hof
      exact ⟨row.id, rfl, _, hmem, rfl, (isLinkedTo_refreshed _ _).mpr hlinked⟩
  | @linked row _ hemail hchanged =>
      have hmem := hchanged.mem_patch (of_find hemail).1
      rw [if_pos rfl] at hmem
      exact ⟨row.id, rfl, _, hmem, rfl, isLinkedTo_linked hclaims _ row⟩
  | @created row _ _ hcells hchanged =>
      exact ⟨row.id, rfl, row, hchanged.inserted_mem.2, rfl, isLinkedTo_created hclaims hcells⟩

/-- A call that takes no row from another subject keeps the links. -/
theorem linked_kept (hrelinks : ¬ Relinks tablePrefix claims world)
    (h : Upserted tablePrefix claims world world' identity)
    (hlinked : Linked tablePrefix key subject world) : Linked tablePrefix key subject world' := by
  obtain ⟨user, huser, hkey, hsubject⟩ := hlinked
  cases h with
  | @refreshed row _ _ hchanged =>
      have hmem := hchanged.mem_patch huser
      split at hmem
      · exact ⟨_, hmem, hkey, (isLinkedTo_refreshed _ _).mpr hsubject⟩
      · exact ⟨user, hmem, hkey, hsubject⟩
  | @linked row hnone hemail hchanged =>
      have hmem := hchanged.mem_patch huser
      split at hmem
      · next hrow =>
          subst hrow
          exact absurd ⟨hnone, user, hemail, subject, hsubject⟩ hrelinks
      · exact ⟨user, hmem, hkey, hsubject⟩
  | created _ _ _ hchanged => exact ⟨user, hchanged.mem_of_insert huser, hkey, hsubject⟩

/-- A call that takes no row from another subject does not resolve to one. -/
theorem userId_ne_of_linked (hclaims : IsExternal claims)
    (hrelinks : ¬ Relinks tablePrefix claims world)
    (h : Upserted tablePrefix claims world world' identity)
    (hlinked : Linked tablePrefix key subject world) (hne : claims.subject ≠ subject) :
    identity.userId ≠ .ofNat key := by
  obtain ⟨user, huser, rfl, hsubject⟩ := hlinked
  intro hid
  cases h with
  | @refreshed row hfind _ hchanged =>
      obtain rfl : row = user := eq_of_mem_systemRows hchanged.mem_of_patch huser
        (JsNumber.ofNat_inj.mp hid)
      have hown : IsLinkedTo claims.subject row :=
        (isOfSubject_iff hclaims row).mp (of_find hfind).2
      exact hne (eq_of_isLinkedTo hown hsubject)
  | @linked row hnone hemail hchanged =>
      obtain rfl : row = user := eq_of_mem_systemRows hchanged.mem_of_patch huser
        (JsNumber.ofNat_inj.mp hid)
      exact hrelinks ⟨hnone, row, hemail, subject, hsubject⟩
  | created _ _ _ hchanged => exact hchanged.id_ne_of_insert huser (JsNumber.ofNat_inj.mp hid).symm

/-- The subject of a linked row. -/
theorem externalSubject_of_linked (h : Linked tablePrefix key subject world) :
    externalSubject tablePrefix key world = some (.string subject) := by
  obtain ⟨user, huser, rfl, hsubject⟩ := h
  rw [externalSubject, find_systemRows huser fun _ => Iff.rfl, Option.map_some, hsubject.2]

/-! ## Runs -/

theorem linked_login {outcome : Except Exception ResolvedIdentity}
    (hrelinks : ¬ Relinks tablePrefix claims world)
    (h : Login tablePrefix claims world outcome world')
    (hlinked : Linked tablePrefix key subject world) : Linked tablePrefix key subject world' := by
  have houtcome := wp_sound wp_upsertIdentityUser h.2
  cases outcome with
  | ok identity => exact linked_kept hrelinks houtcome hlinked
  | error exception =>
      obtain ⟨user, huser, hrest⟩ := hlinked
      have hunchanged : Unchanged world world' := houtcome
      exact ⟨user, by rwa [hunchanged.systemRows_eq], hrest⟩

theorem preserves_linked : Preserves (LoginStep tablePrefix) (Linked tablePrefix key subject) := by
  rintro world world' ⟨claims, outcome, hrelinks, hlogin⟩
  exact linked_login hrelinks hlogin

/-- Once a call has resolved to a row, no later call for another subject resolves to it or
changes its subject, as long as no call takes a row from another subject. -/
theorem accounts_not_shared (tablePrefix : JsString) {before linked later final : World}
    {claims other : NormalizedIdentityClaims} {identity : ResolvedIdentity}
    {outcome : Except Exception ResolvedIdentity}
    (hlogin : Login tablePrefix claims before (.ok identity) linked)
    (hrun : Relation.ReflTransGen (LoginStep tablePrefix) linked later)
    (hrelinks : ¬ Relinks tablePrefix other later)
    (hother : Login tablePrefix other later outcome final)
    (hne : other.subject ≠ claims.subject) :
    (∀ resolved, outcome = .ok resolved → resolved.userId ≠ identity.userId) ∧
      ∀ key, identity.userId = .ofNat key →
        externalSubject tablePrefix key final = externalSubject tablePrefix key later := by
  have hupserted : Upserted tablePrefix claims before linked identity :=
    wp_sound wp_upsertIdentityUser hlogin.2
  obtain ⟨key, hkey, hlinked⟩ := linked_of_upserted hlogin.1 hupserted
  have hlater := preserves_linked.reflTransGen _ _ hrun hlinked
  constructor
  · rintro resolved rfl
    rw [hkey]
    exact userId_ne_of_linked hother.1 hrelinks (wp_sound wp_upsertIdentityUser hother.2) hlater hne
  · intro same hsame
    obtain rfl : key = same := JsNumber.ofNat_inj.mp (hkey.symm.trans hsame)
    rw [externalSubject_of_linked hlater,
      externalSubject_of_linked (linked_login hrelinks hother hlater)]

/-- The claims of a token of the external provider. -/
def externalClaims (subject email : JsString) : NormalizedIdentityClaims :=
  ⟨subject, .externalJwt, some email, none, [], []⟩

theorem login_of_run {subject email : JsString} {choices : List Choice} {world : World}
    {outcome : Except Exception ResolvedIdentity}
    (hclaims : normalize (tokenOf subject email) .externalJwt = .ok (externalClaims subject email))
    (h : ((nocodb true).run (upsertIdentityUser tablePrefix (externalClaims subject email)) choices
      world).map Prod.fst = some outcome) :
    Login tablePrefix (externalClaims subject email) world outcome
      (settle true (upsertIdentityUser tablePrefix (externalClaims subject email)) choices
        world) := by
  obtain ⟨final, hrun, rfl⟩ := Option.map_eq_some_iff.mp h
  refine ⟨⟨_, hclaims⟩, ?_⟩
  rw [settle, hrun]
  exact System.exec_of_run _ hrun

end

/-- The system tables without rows. -/
def noUsers : World :=
  .holding [] []

/-- Ann as user 9. -/
def annIdentity (email : JsString) : ResolvedIdentity :=
  ⟨.ofNat 9, .string (js "ann"), .string email, true, []⟩

/-- The users table after a login of subject `s1` with Ann's email. -/
def annLoggedIn : World :=
  settle true (upsertIdentityUser [] (externalClaims (js "s1") (js "ann@x.org"))) (prompt 4) noUsers

theorem login_ann :
    Login [] (externalClaims (js "s1") (js "ann@x.org")) noUsers
      (.ok (annIdentity (js "ann@x.org"))) annLoggedIn :=
  login_of_run (by decide +kernel) (by decide +kernel)

/-- Bob's login as another subject creates another user. -/
theorem accounts_not_shared_bob :
    ∃ outcome final,
      Login [] (externalClaims (js "s2") (js "bob@x.org")) annLoggedIn outcome final ∧
      (∀ resolved, outcome = .ok resolved → resolved.userId ≠ .ofNat 9) ∧
      ∀ key, JsNumber.ofNat 9 = .ofNat key →
        externalSubject [] key final = externalSubject [] key annLoggedIn := by
  have hlogin : Login [] (externalClaims (js "s2") (js "bob@x.org")) annLoggedIn
      (.ok ⟨.ofNat 10, .string (js "bob"), .string (js "bob@x.org"), true, []⟩) _ :=
    login_of_run (by decide +kernel)
      (by decide +kernel : ((nocodb true).run _ (List.replicate 4 ⟨false, 10, [], 0⟩)
        annLoggedIn).map Prod.fst = some _)
  have hrelinks : ¬ Relinks [] (externalClaims (js "s2") (js "bob@x.org")) annLoggedIn := by
    rintro ⟨-, row, hrow, -⟩
    have hnone : (systemRows [] annLoggedIn .users).find?
        (fun row => IsOfEmail (externalClaims (js "s2") (js "bob@x.org")) row) = none := by
      decide +kernel
    rw [hnone] at hrow
    contradiction
  exact ⟨_, _, hlogin, accounts_not_shared [] login_ann .refl hrelinks hlogin (by decide)⟩

/-- A login as another subject with the same email takes the user over. -/
theorem account_taken_over :
    ∃ identity resolved final,
      systemRows [] noUsers .users = [] ∧
      Login [] (externalClaims (js "s1") (js "ann@x.org")) noUsers (.ok identity) annLoggedIn ∧
      Login [] (externalClaims (js "s2") (js "ann@x.org")) annLoggedIn (.ok resolved) final ∧
      identity.userId = .ofNat 9 ∧ resolved.userId = identity.userId ∧
      externalSubject [] 9 annLoggedIn = some (.string (js "s1")) ∧
      externalSubject [] 9 final = some (.string (js "s2")) := by
  have hlogin : Login [] (externalClaims (js "s2") (js "ann@x.org")) annLoggedIn
      (.ok (annIdentity (js "ann@x.org")))
      (settle true (upsertIdentityUser [] (externalClaims (js "s2") (js "ann@x.org"))) (prompt 4)
        annLoggedIn) :=
    login_of_run (by decide +kernel) (by decide +kernel)
  exact ⟨_, _, _, rfl, login_ann, hlogin, rfl, rfl, by decide +kernel, by decide +kernel⟩

end Runs
end NocoMiddleware
