import NocoMiddleware.Auth.IdentityUpsert
import NocoMiddleware.Store.SameRows

/-!
# Upserting an identity twice

After a successful `upsertIdentityUser` both lookups of the same claims find one user, and
this user holds what the claims say.  A second call therefore refreshes this user with what
it holds.  A call that fails leaves the users alone.
-/

namespace NocoMiddleware
namespace Auth

open NocoMiddleware.Js NocoMiddleware.Filter NocoMiddleware.Tables NocoMiddleware.Store
open NocoMiddleware.Foundation

/-- The fields of a user that belong to its identity. -/
def identityFields : List JsString :=
  [js "username", js "email", js "auth_provider", js "external_subject"]

/-- The filters of both lookups can be written. -/
structure Accepted (claims : NormalizedIdentityClaims) : Prop where
  subject : ∃ filter, filterBoth (js "auth_provider") (.string claims.provider.text)
    (js "external_subject") (.string claims.subject) = .ok filter
  email : ∀ email, claims.email.filter (· ≠ []) = some email →
    ∃ filter, filterEqValue (js "email") (.string email) = .ok filter

/-- The row is of the user of the claims and holds what they say. -/
structure Carries (claims : NormalizedIdentityClaims) (row : Row) : Prop where
  subject : IsOfSubject claims row
  email : ∀ email, claims.email = some email → row.cell (js "email") = .string email
  username : ∀ username, claims.username = some username →
    row.cell (js "username") = .string username

/-- Both lookups find one row, and it holds what the claims say. -/
structure Settled (claims : NormalizedIdentityClaims) (rows : List Row) (row : Row) : Prop where
  carries : Carries claims row
  subject : rows.find? (fun row => IsOfSubject claims row) = some row
  email : ∀ other, rows.find? (fun row => IsOfEmail claims row) = some other → other = row

section

variable {claims : NormalizedIdentityClaims} {row : Row}

/-! ## What a written user holds -/

/-- The name of a written user is that of the claims, or stays. -/
theorem written_username (row : Row) :
    written ((optionValue claims.username).orElse ((flattenRecord none row).get (js "username")))
        (row.cell (js "username")) =
      (claims.username.map JsValue.string).getD (row.cell (js "username")) := by
  rw [get_flattenRecord (by decide) (by decide)]
  cases claims.username with
  | none => exact Row.written_cell row (by decide)
  | some username => rfl

theorem cell_username_refreshed (claims : NormalizedIdentityClaims) (row : Row) :
    (row.patch (refreshedData claims (flattenRecord none row))).cell (js "username") =
      (claims.username.map JsValue.string).getD (row.cell (js "username")) := by
  rw [Row.cell_patch _ (nodup_refreshedData _ _) (by decide)]
  exact written_username row

theorem cell_username_linked (claims : NormalizedIdentityClaims) (row : Row) :
    (row.patch (linkedData claims (flattenRecord none row))).cell (js "username") =
      (claims.username.map JsValue.string).getD (row.cell (js "username")) := by
  rw [Row.cell_patch _ (nodup_linkedData _ _) (by decide)]
  exact written_username row

theorem isOfEmail_iff (htrimmed : claims.Trimmed) :
    IsOfEmail claims row ↔
      ∃ email, claims.email = some email ∧ row.cell (js "email") = .string email := by
  unfold IsOfEmail
  constructor
  · rintro ⟨email, hemail, hcell⟩
    have hclaimed := (Option.filter_eq_some_iff.mp hemail).1
    rw [(htrimmed.email email hclaimed).2] at hcell
    exact ⟨email, hclaimed, hcell⟩
  · rintro ⟨email, hclaimed, hcell⟩
    obtain ⟨hne, htrim⟩ := htrimmed.email email hclaimed
    refine ⟨email, Option.filter_eq_some_iff.mpr ⟨hclaimed, by simpa using hne⟩, ?_⟩
    rw [htrim]
    exact hcell

/-- The user of the email is found if the claims have one. -/
theorem Carries.isOfEmail (htrimmed : claims.Trimmed) (h : Carries claims row) {other : Row}
    (hother : IsOfEmail claims other) : IsOfEmail claims row := by
  obtain ⟨email, hclaimed, -⟩ := (isOfEmail_iff htrimmed).mp hother
  exact (isOfEmail_iff htrimmed).mpr ⟨email, hclaimed, h.email email hclaimed⟩

theorem carries_refreshed (hsubject : IsOfSubject claims row) :
    Carries claims (row.patch (refreshedData claims (flattenRecord none row))) := by
  constructor
  · unfold IsOfSubject
    rw [cell_refreshed _ _ _ (by decide), cell_refreshed _ _ _ (by decide)]
    exact hsubject
  · intro email hclaimed
    rw [cell_email_refreshed, hclaimed]
    rfl
  · intro username hclaimed
    rw [cell_username_refreshed, hclaimed]
    rfl

theorem carries_linked (htrimmed : claims.Trimmed) (hemail : IsOfEmail claims row) :
    Carries claims (row.patch (linkedData claims (flattenRecord none row))) := by
  constructor
  · constructor
    · rw [Row.cell_patch _ (nodup_linkedData _ _) (by decide)]
      rfl
    · rw [Row.cell_patch _ (nodup_linkedData _ _) (by decide), htrimmed.subject.2]
      rfl
  · intro email hclaimed
    rw [cell_linked _ _ _ (by decide)]
    obtain ⟨other, hother, hcell⟩ := (isOfEmail_iff htrimmed).mp hemail
    obtain rfl : other = email := Option.some.inj (hother.symm.trans hclaimed)
    exact hcell
  · intro username hclaimed
    rw [cell_username_linked, hclaimed]
    rfl

theorem carries_created (htrimmed : claims.Trimmed)
    (hcells : row.cells = toCells (identityUserData claims)) : Carries claims row := by
  have hcell : ∀ title, title ≠ primaryKeyField → row.cell title =
      written (((identityUserData claims).lookup title).getD .undefined) .undefined :=
    fun title hprimary => Row.cell_of_toCells hcells (nodup_identityUserData claims) hprimary
  constructor
  · constructor
    · rw [hcell _ (by decide)]
      rfl
    · rw [hcell _ (by decide), htrimmed.subject.2]
      rfl
  · intro email hclaimed
    rw [hcell _ (by decide)]
    show written (optionValue claims.email) .undefined = _
    rw [hclaimed]
    rfl
  · intro username hclaimed
    rw [hcell _ (by decide)]
    show written (.string (claims.username.getD (defaultUsername claims))) .undefined = _
    rw [hclaimed]
    rfl

/-- Refreshing a user that holds what the claims say changes nothing. -/
theorem Carries.sameRow (h : Carries claims row) :
    SameRow row (row.patch (refreshedData claims (flattenRecord none row))) := by
  refine ⟨rfl, fun title => ?_⟩
  by_cases hemail : title = js "email"
  · rw [hemail, cell_email_refreshed]
    cases hclaimed : claims.email with
    | none => rfl
    | some email => exact (h.email email hclaimed).symm
  · by_cases husername : title = js "username"
    · rw [husername, cell_username_refreshed]
      cases hclaimed : claims.username with
      | none => rfl
      | some username => exact (h.username username hclaimed).symm
    · exact cell_refreshed _ _ _ (by simp [hemail, husername])

theorem identityOf_eq_of_sameRow {row' : Row} (h : SameRow row row') :
    identityOf claims row' = identityOf claims row := by
  have hget : ∀ key, key ≠ js "id" → key ≠ primaryKeyField →
      (flattenRecord none row').get key = (flattenRecord none row).get key := by
    intro key hid hprimary
    rw [get_flattenRecord hid hprimary, get_flattenRecord hid hprimary, h.cell]
  unfold identityOf
  rw [h.id, hget (js "username") (by decide) (by decide), hget (js "email") (by decide) (by decide),
    hget (js "is_active") (by decide) (by decide)]

/-! ## What the lookups find after a write -/

/-- A user that is overwritten so that it holds what the claims say is found by both lookups,
if they found no other user before. -/
theorem settled_update {before : Table} {payload : Payload} (htrimmed : claims.Trimmed)
    (hrow : row ∈ before.rows) (hcarries : Carries claims (row.patch payload))
    (hsubject : ∀ other, before.rows.find? (fun row => IsOfSubject claims row) = some other →
      other = row)
    (hemail : ∀ other, before.rows.find? (fun row => IsOfEmail claims row) = some other →
      other = row) :
    Settled claims (before.update (.ofNat row.id) payload).rows (row.patch payload) := by
  rw [rows_update hrow]
  refine ⟨hcarries, find_replace_of_first hrow hcarries.subject hsubject, ?_⟩
  intro other hother
  have hpatched := hcarries.isOfEmail htrimmed (of_find hother).2
  rw [find_replace_of_first hrow hpatched hemail] at hother
  exact (Option.some.inj hother).symm

theorem settled_insert {before : Table} (htrimmed : claims.Trimmed)
    (hfresh : row.id ∉ before.rows.map Row.id) (hcarries : Carries claims row)
    (hsubject : before.rows.find? (fun row => IsOfSubject claims row) = none)
    (hemail : before.rows.find? (fun row => IsOfEmail claims row) = none) :
    Settled claims (before.insert row hfresh).rows row := by
  rw [Table.rows_insert]
  refine ⟨hcarries, find_concat_of_none hsubject hcarries.subject, ?_⟩
  intro other hother
  have hadded := hcarries.isOfEmail htrimmed (of_find hother).2
  rw [find_concat_of_none hemail hadded] at hother
  exact (Option.some.inj hother).symm

variable {tablePrefix : JsString} {world world' : World} {identity : ResolvedIdentity}

/-- After a successful call both lookups find the user that was returned. -/
theorem Upserted.settled (htrimmed : claims.Trimmed)
    (h : Upserted tablePrefix claims world world' identity) :
    ∃ row, Settled claims (systemRows tablePrefix world' .users) row ∧
      identity = identityOf claims row := by
  cases h with
  | refreshed hsubject hemail hchanged =>
      obtain ⟨before, after, hbefore, hafter, hrow, rfl⟩ := hchanged.applies
      rw [hbefore] at hsubject hemail
      rw [hafter]
      refine ⟨_, settled_update htrimmed hrow (carries_refreshed (of_find hsubject).2) ?_ ?_, rfl⟩
      · intro other hother
        exact Option.some.inj (hother.symm.trans hsubject)
      · intro other hother
        exact Table.eq_of_id_eq (of_find hother).1 hrow (hemail other hother)
  | linked hsubject hemail hchanged =>
      obtain ⟨before, after, hbefore, hafter, hrow, rfl⟩ := hchanged.applies
      rw [hbefore] at hsubject hemail
      rw [hafter]
      refine ⟨_, settled_update htrimmed hrow (carries_linked htrimmed (of_find hemail).2) ?_ ?_,
        rfl⟩
      · intro other hother
        rw [hsubject] at hother
        contradiction
      · intro other hother
        exact Option.some.inj (hother.symm.trans hemail)
  | created hsubject hemail hcells hchanged =>
      obtain ⟨before, after, hbefore, hafter, hfresh, rfl⟩ := hchanged.applies
      rw [hbefore] at hsubject hemail
      rw [hafter]
      exact ⟨_, settled_insert htrimmed hfresh (carries_created htrimmed hcells) hsubject hemail,
        rfl⟩

/-- A successful call adds a user, or changes the identity of one. -/
theorem Upserted.differsInOne (h : Upserted tablePrefix claims world world' identity) :
    DiffersInOne identityFields (systemRows tablePrefix world .users)
      (systemRows tablePrefix world' .users) := by
  cases h with
  | refreshed _ _ hchanged =>
      apply hchanged.differsInOne_of_patch
      intro title htitle
      apply cell_refreshed
      simp only [identityFields, List.mem_cons, List.not_mem_nil, or_false, not_or] at htitle ⊢
      exact ⟨htitle.2.1, htitle.1⟩
  | linked _ _ hchanged =>
      apply hchanged.differsInOne_of_patch
      intro title htitle
      apply cell_linked
      simp only [identityFields, List.mem_cons, List.not_mem_nil, or_false, not_or] at htitle ⊢
      exact ⟨htitle.2.2.1, htitle.2.2.2, htitle.1⟩
  | created _ _ _ hchanged => exact hchanged.differsInOne_of_insert identityFields

/-- The table of the users is there, before and after. -/
theorem Upserted.resolves (h : Upserted tablePrefix claims world world' identity) :
    ∃ found, resolve tablePrefix world'.tables SystemTable.users.name = some found := by
  have hchanged : ∃ change, Changed tablePrefix .users change world world' := by
    cases h with
    | refreshed _ _ hchanged => exact ⟨_, hchanged⟩
    | linked _ _ hchanged => exact ⟨_, hchanged⟩
    | created _ _ _ hchanged => exact ⟨_, hchanged⟩
  obtain ⟨change, hchanged⟩ := hchanged
  rw [hchanged.tables]
  obtain ⟨found, -, -, hfound, -⟩ := hchanged
  exact ⟨found, hfound⟩

/-! ## The second call -/

variable {faults : Bool}

/-- The filters of a call that succeeds can be written. -/
theorem wp_upsertIdentityUser_accepted :
    wp (nocodb faults).contract (upsertIdentityUser tablePrefix claims)
      (fun result _ => result.isOk = true → Accepted claims) world := by
  rw [upsertIdentityUser]
  refine wp_requiredTable (Unchanged.refl world) (fun _ _ _ _ h => by cases h)
    fun usersTable w₁ _ _ => ?_
  rw [wp_bind, findBySubject, wp_bind, wp_ofExcept]
  cases hsubject : filterBoth (js "auth_provider") (.string claims.provider.text)
      (js "external_subject") (.string claims.subject) with
  | error exception =>
      intro h
      cases h
  | ok filter =>
      rw [onOk_ok]
      -- whatever the lookup by subject finds, the filter of the other one is written next
      apply (nocodb faults).wp_iff_exec.mpr
      intro bySubject w₂ _
      cases bySubject with
      | error exception =>
          intro h
          cases h
      | ok bySubject =>
          rw [onOk_ok]
          cases hemail : claims.email.filter (· ≠ []) with
          | none =>
              have haccepted : Accepted claims := by
                refine ⟨⟨filter, hsubject⟩, fun email h => ?_⟩
                rw [hemail] at h
                contradiction
              exact (nocodb faults).wp_iff_exec.mpr fun _ _ _ _ => haccepted
          | some email =>
              cases hfilter : filterEqValue (js "email") (.string email) with
              | error exception =>
                  simp only [findByEmail, hemail, hfilter, wp_bind, wp_ofExcept, onOk_error]
                  intro h
                  cases h
              | ok emailFilter =>
                  have haccepted : Accepted claims := by
                    refine ⟨⟨filter, hsubject⟩, fun other h => ?_⟩
                    obtain rfl : email = other := Option.some.inj (hemail.symm.trans h)
                    exact ⟨emailFilter, hfilter⟩
                  exact (nocodb faults).wp_iff_exec.mpr fun _ _ _ _ => haccepted

/-- A call for a user that both lookups find refreshes this user, or a request fails. -/
theorem wp_upsertIdentityUser_settled {found : TableMeta} (haccepted : Accepted claims)
    (hfound : resolve tablePrefix world.tables SystemTable.users.name = some found)
    (hsettled : Settled claims (systemRows tablePrefix world .users) row) :
    wp (nocodb faults).contract (upsertIdentityUser tablePrefix claims)
      (fun result world' =>
        (faults = true ∧ result = .error .upstream ∧ Unchanged world world') ∨
        (result = .ok (identityOf claims
            (row.patch (refreshedData claims (flattenRecord none row)))) ∧
          Changed tablePrefix .users
            (.patch row (refreshedData claims (flattenRecord none row))) world world'))
      world := by
  have hrows : systemRows tablePrefix world .users = (world.rows found.id).rows :=
    systemRows_eq hfound
  obtain ⟨-, hsubject, hemail⟩ := hsettled
  rw [hrows] at hsubject hemail
  obtain ⟨filter, hfilter⟩ := haccepted.subject
  rw [upsertIdentityUser, wp_bind]
  refine wp_getTableByName (fun hfaults _ h => Or.inl ⟨hfaults, rfl, h⟩) fun w₁ h₁ => ?_
  rw [onOk_ok, wp_bind, hfound]
  show wp _ (findBySubject found.id claims >>= _) _ _
  rw [wp_bind, findBySubject, hfilter]
  refine wp_findOne_find (selectRows_filterBoth hfilter)
    (fun hfaults _ h => Or.inl ⟨hfaults, rfl, h₁.trans h⟩) fun w₂ h₂ => ?_
  simp only [satisfies_isOfSubject]
  rw [h₁.rows, hsubject, onOk_ok, Option.map_some, wp_bind]
  refine wp_findByEmail ?_ (fun hfaults _ h => Or.inl ⟨hfaults, rfl, (h₁.trans h₂).trans h⟩)
    fun w₃ h₃ => ?_
  · intro email exception hclaimed hrejected
    obtain ⟨emailFilter, haccepts⟩ := haccepted.email email hclaimed
    rw [hrejected] at haccepts
    contradiction
  rw [h₂.rows, h₁.rows, onOk_ok, upsertLookedUp, wp_bind, wp_ofExcept,
    findsTwoUsers_flattenRecord, onOk_ok]
  -- the email belongs to the user that the subject has found, or to nobody
  have hsame : ((world.rows found.id).rows.find? fun row => IsOfEmail claims row).any
      (fun other => row.id ≠ other.id) = false := by
    cases hfind : (world.rows found.id).rows.find? fun row => IsOfEmail claims row with
    | none => rfl
    | some other =>
        rw [hemail other hfind]
        simp
  simp only [hsame, Bool.false_eq_true, if_false, extractNumericId_flattenRecord, wp_bind,
    wp_ofExcept, onOk_ok]
  refine wp_update_changed ((h₁.trans h₂).trans h₃) hfound (of_find hsubject).1
    (fun hfaults _ h => Or.inl ⟨hfaults, rfl, h⟩) fun w₄ hchanged => ?_
  exact Or.inr ⟨rfl, hchanged⟩

end

/-- Another call for the claims gives the identity again, or a request of it fails; either way
all rows stay as they are. -/
def RepeatsAs (tablePrefix : JsString) (claims : NormalizedIdentityClaims)
    (identity : ResolvedIdentity) (world : World) : Prop :=
  ∀ faults again world', Exec (nocodb faults).contract (upsertIdentityUser tablePrefix claims)
      world again world' →
    (again = .ok identity ∨ (faults = true ∧ again = .error .upstream)) ∧
      ∀ tableId, SameRows (world.rows tableId).rows (world'.rows tableId).rows

/-- Upserting normalized claims changes at most one user and only its identity, and nothing if
the call fails; after a call that succeeds, the same claims give the same identity and leave
all rows as they are, unless a request fails. -/
theorem upsertIdentityUser_again (tablePrefix : JsString) {faults : Bool} {payload : TokenPayload}
    {provider : AuthProvider} {claims : NormalizedIdentityClaims} {world world' : World}
    {result : Except Exception ResolvedIdentity} (hclaims : normalize payload provider = .ok claims)
    (hfirst : Exec (nocodb faults).contract (upsertIdentityUser tablePrefix claims) world result
      world') :
    DiffersInOne identityFields (systemRows tablePrefix world .users)
        (systemRows tablePrefix world' .users) ∧
      (∀ exception, result = .error exception →
        systemRows tablePrefix world' .users = systemRows tablePrefix world .users) ∧
      ∀ identity, result = .ok identity → RepeatsAs tablePrefix claims identity world' := by
  have houtcome := wp_sound wp_upsertIdentityUser hfirst
  cases result with
  | error exception =>
      have hunchanged : Unchanged world world' := houtcome
      have hrows := hunchanged.systemRows_eq tablePrefix .users
      refine ⟨?_, fun _ _ => hrows, fun _ h => by cases h⟩
      rw [hrows]
      exact .same
  | ok identity =>
      have hupserted : Upserted tablePrefix claims world world' identity := houtcome
      refine ⟨hupserted.differsInOne, fun _ h => (by cases h), fun other hother => ?_⟩
      obtain rfl : identity = other := Except.ok.inj hother
      intro faults' again final hagain
      -- the first call leaves a row that the second one finds and writes as it is
      obtain ⟨row, hsettled, rfl⟩ := hupserted.settled (trimmed_of_normalize hclaims)
      obtain ⟨found, hfound⟩ := hupserted.resolves
      have haccepted := wp_sound wp_upsertIdentityUser_accepted hfirst rfl
      have hsame := hsettled.carries.sameRow
      rcases wp_sound (wp_upsertIdentityUser_settled haccepted hfound hsettled) hagain with
        ⟨hfaults, hfailed, hunchanged⟩ | ⟨hsucceeded, hchanged⟩
      · refine ⟨Or.inr ⟨hfaults, hfailed⟩, fun tableId => ?_⟩
        rw [hunchanged.rows]
        exact SameRows.refl _
      · rw [identityOf_eq_of_sameRow hsame] at hsucceeded
        exact ⟨Or.inl hsucceeded, hchanged.sameRows hsame⟩

/-- A token of Ann without a name. -/
def annToken : TokenPayload :=
  ⟨some (.string (js " ann ")), some (.string (js "ann@x.org")), none, none, none, none, none, none⟩

/-- The claims of Ann's token. -/
def annClaims : NormalizedIdentityClaims :=
  ⟨js "ann", .externalJwt, some (js "ann@x.org"), none, [], []⟩

/-- A user who has Ann's email and no subject yet. -/
def annInvited : World :=
  .holding []
    [(js "users", .ofRows
      [.ofCells 1 [(js "username", .string (js "annie")),
        (js "email", .string (js "ann@x.org"))]])]

/-- Ann is linked to the invited user, and would be refreshed a second time. -/
theorem upsert_ann_again :
    ∃ world', Exec (nocodb false).contract (upsertIdentityUser [] annClaims) annInvited
        (.ok ⟨.ofNat 1, .string (js "annie"), .string (js "ann@x.org"), true, []⟩) world' ∧
      DiffersInOne identityFields (systemRows [] annInvited .users) (systemRows [] world' .users) ∧
      RepeatsAs [] annClaims ⟨.ofNat 1, .string (js "annie"), .string (js "ann@x.org"), true, []⟩
        world' := by
  have hrun : ((nocodb false).run (upsertIdentityUser [] annClaims)
      (List.replicate 5 ⟨false, 9, [], 0⟩) annInvited).map Prod.fst =
      some (.ok ⟨.ofNat 1, .string (js "annie"), .string (js "ann@x.org"), true, []⟩) := by
    decide +kernel
  have hfirst := System.exec_final (nocodb false) hrun
  have hclaims : normalize annToken .externalJwt = .ok annClaims := by decide +kernel
  obtain ⟨hdiffers, -, hagain⟩ := upsertIdentityUser_again [] hclaims hfirst
  exact ⟨_, hfirst, hdiffers, hagain _ rfl⟩

end Auth
end NocoMiddleware
