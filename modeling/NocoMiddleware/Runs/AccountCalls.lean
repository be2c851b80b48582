import NocoMiddleware.Auth.JwtStrategy
import NocoMiddleware.Runs.Calls

/-!
# Calls on the accounts of users

One call of a service that reads or writes the users table, from start to end, without
another call in between.  `AccountCall.Ends` runs the code; `AccountCall.Effect` is what
the call changes.
-/

namespace NocoMiddleware
namespace Runs

open NocoMiddleware.Js NocoMiddleware.Tables NocoMiddleware.Store NocoMiddleware.Auth
open NocoMiddleware.Foundation

/-- The calls that read or write the users table. -/
inductive AccountCall where
  | validate (provider : AuthProvider) (payload : TokenPayload)
  | upsertIdentityUser (claims : NormalizedIdentityClaims)
  | createLocalUser (dto : ProvisionUserDto)
  | bootstrapAdmin (configuredToken : Option JsString) (dto : BootstrapAdminDto)
      (bootstrapToken : Option JsString)
  | setUserStatus (userId : JsNumber) (isActive : Bool)

/-- The exception that an execution ends with. -/
def exceptionOf {α : Type} : Except Exception α → Option Exception
  | .ok _ => none
  | .error exception => some exception

/-- A program runs to its end, without or with an exception. -/
def Finishes {α : Type} (program : Service α) (world : World) (exception : Option Exception)
    (world' : World) : Prop :=
  ∃ result, Exec (nocodb true).contract program world result world' ∧
    exceptionOf result = exception

/-- The execution of the code of a call. -/
def AccountCall.Ends (tablePrefix : JsString) :
    AccountCall → World → Option Exception → World → Prop
  | .validate provider payload => Finishes (Auth.validate tablePrefix provider payload)
  | .upsertIdentityUser claims => Finishes (Auth.upsertIdentityUser tablePrefix claims)
  | .createLocalUser dto => Finishes (Auth.createLocalUser tablePrefix dto)
  | .bootstrapAdmin configuredToken dto bootstrapToken =>
      Finishes (Auth.bootstrapAdmin tablePrefix configuredToken dto bootstrapToken)
  | .setUserStatus userId isActive => Finishes (Auth.setUserStatus tablePrefix userId isActive)

/-- One call that meets a condition, without or with an exception. -/
def AccountStep (tablePrefix : JsString) (condition : AccountCall → World → Prop)
    (world world' : World) : Prop :=
  ∃ call exception, condition call world ∧ call.Ends tablePrefix world exception world'

/-- Nothing changes, or a user of an identity provider is upserted. -/
def UserUpserted (tablePrefix : JsString) (world world' : World) : Prop :=
  Unchanged world world' ∨ ∃ claims identity, Upserted tablePrefix claims world world' identity

/-- What a call changes. -/
def AccountCall.Effect (tablePrefix : JsString) : AccountCall → World → World → Prop
  | .validate _ _ => UserUpserted tablePrefix
  | .upsertIdentityUser _ => UserUpserted tablePrefix
  | .createLocalUser _ => UserCreated tablePrefix
  | .bootstrapAdmin _ dto _ => Bootstrapped tablePrefix dto
  | .setUserStatus userId isActive => StatusSet tablePrefix userId isActive

section

variable {tablePrefix : JsString}

theorem userUpserted_of_outcome {claims : NormalizedIdentityClaims} {world world' : World}
    {result : Except Exception ResolvedIdentity}
    (h : UpsertOutcome tablePrefix claims world result world') :
    UserUpserted tablePrefix world world' := by
  cases result with
  | ok identity => exact Or.inr ⟨claims, identity, h⟩
  | error exception => exact Or.inl h

/-- The lookups of `validate` change nothing, or upsert a user. -/
theorem userUpserted_of_resolves {claims : NormalizedIdentityClaims} {world world' : World}
    {outcome : Except Exception Resolution}
    (h : Resolves tablePrefix claims world outcome world') :
    UserUpserted tablePrefix world world' := by
  cases outcome with
  | error exception => exact Or.inl h
  | ok resolution =>
      cases resolution with
      | localUser userId user => exact Or.inl h.1
      | external identity => exact Or.inr ⟨_, identity, h⟩

/-- The code of every call refines its effect. -/
theorem AccountCall.effect_of_ends {call : AccountCall} {world world' : World}
    {exception : Option Exception} (h : call.Ends tablePrefix world exception world') :
    call.Effect tablePrefix world world' := by
  cases call with
  | validate provider payload =>
      obtain ⟨result, hexec, -⟩ := h
      rcases exec_validate hexec with ⟨_, -, rfl⟩ | ⟨claims, outcome, -, hresolve, -⟩
      · exact Or.inl (Unchanged.refl world')
      · exact userUpserted_of_resolves (wp_sound wp_resolveUser hresolve)
  | upsertIdentityUser claims =>
      obtain ⟨result, hexec, -⟩ := h
      exact userUpserted_of_outcome (wp_sound wp_upsertIdentityUser hexec)
  | createLocalUser dto =>
      obtain ⟨result, hexec, -⟩ := h
      exact wp_sound wp_createLocalUser hexec
  | bootstrapAdmin configuredToken dto bootstrapToken =>
      obtain ⟨result, hexec, -⟩ := h
      exact wp_sound wp_bootstrapAdmin hexec
  | setUserStatus userId isActive =>
      obtain ⟨result, hexec, -⟩ := h
      exact wp_sound wp_setUserStatus hexec

/-- A run under given choices finishes the program. -/
theorem finishes_of_run {α : Type} {program : Service α} {choices : List Choice}
    {world : World} {exception : Option Exception}
    (h : ((nocodb true).run program choices world).map (fun outcome => exceptionOf outcome.1) =
      some exception) :
    Finishes program world exception (settle true program choices world) := by
  obtain ⟨outcome, hrun, hexception⟩ := Option.map_eq_some_iff.mp h
  refine ⟨outcome.1, ?_, hexception⟩
  rw [settle, hrun]
  exact System.exec_of_run _ hrun

end

/-- The claims of a token with a subject and an email. -/
def tokenOf (subject email : JsString) : TokenPayload :=
  ⟨some (.string subject), some (.string email), none, none, none, none, none, none⟩

end Runs
end NocoMiddleware
