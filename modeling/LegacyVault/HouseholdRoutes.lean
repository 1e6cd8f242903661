import LegacyVault.Households
import LegacyVault.Library.SharedRuns
import LegacyVault.VaultRoutes

/-!
# The household routes

The seven routes of `registerHouseholdRoutes` as handlers. They share
`resolveIdentity` and `authorizeIdentity` with the vault routes; two of them
change households for an account that need not be a member of any.
-/

namespace LegacyVault

open JsonText EcmaText Handlers RegularExpressions

/-! ## Calls -/

/-- `AuthenticatedAccountIdentity`. The address is verified. -/
structure AuthenticatedAccountIdentity where
  authUserId : Identifier
  email : String
  deriving DecidableEq

/-- The account context of an account. -/
def AuthenticatedAccountIdentity.context (account : AuthenticatedAccountIdentity) :
    AccountContext := ⟨account.authUserId⟩

/-- What `acceptInvitation` is called with. -/
structure AcceptanceInput where
  token : String
  displayName : String
  expectedInvitationVersion : Nat
  deriving DecidableEq

/-- The calls of the household routes, and those they share with the vault routes. -/
inductive HouseholdCall where
  | vault (call : VaultCall)
  | resolveAccount
  | listHouseholds (account : AuthenticatedAccountIdentity)
  | createHousehold (account : AuthenticatedAccountIdentity) (key : String)
      (input : CreateHouseholdInput)
  | acceptInvitation (account : AuthenticatedAccountIdentity) (key : String)
      (input : AcceptanceInput)
  | listMembers (identity : AuthenticatedTenantIdentity)
  | createInvitation (identity : AuthenticatedTenantIdentity) (key : String)
      (input : CreateInvitationInput)
  | revokeInvitation (identity : AuthenticatedTenantIdentity) (key : String)
      (input : RevokeInvitationInput)
  | updateMemberRole (identity : AuthenticatedTenantIdentity) (key : String)
      (input : UpdateRoleInput)

/-- What a call is answered with. What a route only sends is JSON. -/
abbrev HouseholdCall.Answer : HouseholdCall → Type
  | vault call => call.Answer
  | resolveAccount => Except RouteError AuthenticatedAccountIdentity
  | listHouseholds _ | createHousehold _ _ _ | acceptInvitation _ _ _ | listMembers _
  | createInvitation _ _ _ | revokeInvitation _ _ _ | updateMemberRole _ _ _ =>
    Except RouteError Json

/-- The interface of the API's routes to their dependencies. -/
abbrev apiInterface : Interface := ⟨HouseholdCall, HouseholdCall.Answer⟩

/-- A handler of a household route. -/
abbrev HouseholdHandler := Handler apiInterface RouteError

/-- A handler with the calls of the vault routes. -/
abbrev ofVault {ε α : Type} (h : Handler vaultInterface ε α) : Handler apiInterface ε α :=
  h.embed (J := apiInterface) .vault (fun _ answer => answer)

/-- `dependencies.resolveAccount`. -/
def resolveAccount : HouseholdHandler AuthenticatedAccountIdentity :=
  .ask (I := apiInterface) .resolveAccount .ofExcept

/-! ## Bodies -/

/-- The configuration of the routes, and a built-in of the household routes. -/
structure ApiRuntime extends RouteRuntime where
  /-- `toLowerCase`. -/
  toLowerCase : String → String

/-- `boundedName`. -/
def boundedName (body : Json) (field : String) (maximum : Nat) : Except RouteError String :=
  match member field body with
  | some (.str value) =>
    let normalized := trim value
    if normalized = "" then .error (invalidRequest (field ++ " is required"))
    else if maximum < utf16Length normalized ∨ maximum * 4 < normalized.utf8ByteSize then
      .error (invalidRequest (field ++ " is too large"))
    else if scanDlp normalized ≠ [] then
      .error (.problem ⟨400, "Prohibited content", field ++ " contains prohibited content"⟩)
    else .ok normalized
  | _ => .error (invalidRequest (field ++ " is required"))

/-- `positiveVersion`. -/
def RouteRuntime.positiveVersion (runtime : RouteRuntime) (input : RequestInput) :
    Except RouteError Nat :=
  runtime.version 1 "a valid positive if-match version is required" input

/-- `[^\s@]+`. -/
def addressPart : Pattern := (Pattern.char (fun c => !isSpace c && c != '@')).plus

/-- `/^[^\s@]+@[^\s@]+\.[^\s@]+$/u`. -/
def isAddress (text : String) : Bool :=
  let address := sequence [addressPart, .char (· == '@'), addressPart, .char (· == '.'),
    addressPart]
  (address.ends ⟨none, text.toList⟩).any (fun at_ => at_.rest.isEmpty)

/-- `invitationEmail`. -/
def ApiRuntime.invitationEmail (runtime : ApiRuntime) (body : Json) : Except RouteError String :=
  match member "email" body with
  | some (.str value) =>
    let normalized := runtime.toLowerCase (trim value)
    if 254 < utf16Length normalized ∨ isAddress normalized = false then
      .error (invalidRequest "email is invalid")
    else .ok normalized
  | _ => .error (invalidRequest "email is required")

/-- A role of `invitationalRoles`, or a problem. -/
def invitationalRole (body : Json) (detail : String) : Except RouteError Role :=
  match (member "role" body).bind stringValue with
  | some text =>
    match assignableHouseholdRoles.find? (fun role => role.text == text) with
    | some role => .ok role
    | none => .error (invalidRequest detail)
  | none => .error (invalidRequest detail)

/-- `/^[A-Za-z0-9_-]{43}$/u`. -/
def isInvitationToken (token : String) : Bool :=
  token.toList.length == 43 &&
    token.toList.all (fun c => c.isAlphanum || c == '_' || c == '-')

/-- Read a request for a new household. -/
def householdForm (input : RequestInput) : Except RouteError (String × CreateHouseholdInput) := do
  let body ← objectBody input.body
  let key ← input.key
  let organizationName ← boundedName body "organizationName" 120
  let householdName ← boundedName body "householdName" 120
  let ownerDisplayName ← boundedName body "ownerDisplayName" 160
  .ok (key, ⟨organizationName, householdName, ownerDisplayName⟩)

/-- Read a request to accept an invitation. -/
def ApiRuntime.acceptanceForm (runtime : ApiRuntime) (token : String) (input : RequestInput) :
    Except RouteError (String × AcceptanceInput) := do
  let body ← objectBody input.body
  requireThat (isInvitationToken token = true)
    ⟨400, "Invalid request", "invitation token is invalid"⟩
  let displayName ← boundedName body "displayName" 160
  let expectedInvitationVersion ← runtime.positiveVersion input
  let key ← input.key
  .ok (key, ⟨token, displayName, expectedInvitationVersion⟩)

/-! ## Routes -/

/-- A reply, with `cache-control: no-store` or without. -/
structure HouseholdReply where
  statusCode : Nat
  noStore : Bool
  body : Json

variable (runtime : ApiRuntime)

/-- `GET /v1/households`. -/
def getHouseholds : HouseholdHandler HouseholdReply := do
  let account ← resolveAccount
  let households ← Handler.ask (I := apiInterface) (.listHouseholds account) .ofExcept
  pure ⟨200, true, .obj [("households", households)]⟩

/-- `POST /v1/households`. -/
def postHouseholds (input : RequestInput) : HouseholdHandler HouseholdReply := do
  let account ← resolveAccount
  let form ← householdForm input
  let created ← Handler.ask (I := apiInterface) (.createHousehold account form.1 form.2) .ofExcept
  pure ⟨201, false, created⟩

/-- The routes of a member: authorize all categories, and go on. -/
def asApprover {α : Type} (purpose : String)
    (next : AuthenticatedTenantIdentity → HouseholdHandler α) : HouseholdHandler α := do
  let identity ← ofVault resolveIdentity
  ofVault (authorizeEach runtime.toRouteRuntime identity allRecordCategories .approve purpose)
  next identity

/-- `GET /v1/members`. -/
def getMembers : HouseholdHandler HouseholdReply :=
  asApprover runtime "vault.member.list" (fun identity => do
    let members ← Handler.ask (I := apiInterface) (.listMembers identity) .ofExcept
    pure ⟨200, true, .obj [("members", members)]⟩)

/-- `POST /v1/members/invitations`. -/
def postInvitations (input : RequestInput) : HouseholdHandler HouseholdReply :=
  asApprover runtime "vault.member.invite" (fun identity => do
    let body ← objectBody input.body
    let role ← invitationalRole body "role is not invitational"
    let email ← runtime.invitationEmail body
    let expectedHouseholdVersion ← runtime.positiveVersion input
    let key ← input.key
    let invited ← Handler.ask (I := apiInterface)
      (.createInvitation identity key ⟨email, role, expectedHouseholdVersion⟩) .ofExcept
    pure ⟨201, false, invited⟩)

/-- `POST /v1/members/invitations/:token/accept`. -/
def postAccept (token : String) (input : RequestInput) : HouseholdHandler HouseholdReply := do
  let account ← resolveAccount
  let form ← runtime.acceptanceForm token input
  let accepted ← Handler.ask (I := apiInterface) (.acceptInvitation account form.1 form.2)
    .ofExcept
  pure ⟨200, false, accepted⟩

/-- `POST /v1/members/invitations/:id/revoke`. -/
def postRevoke (id : String) (input : RequestInput) : HouseholdHandler HouseholdReply :=
  asApprover runtime "vault.member.invitation.revoke" (fun identity => do
    let expectedVersion ← runtime.positiveVersion input
    let key ← input.key
    let revoked ← Handler.ask (I := apiInterface)
      (.revokeInvitation identity key ⟨id, expectedVersion⟩) .ofExcept
    pure ⟨200, false, revoked⟩)

/-- `POST /v1/members/:id/role`. -/
def postMemberRole (id : String) (input : RequestInput) : HouseholdHandler HouseholdReply :=
  asApprover runtime "vault.member.role.update" (fun identity => do
    let body ← objectBody input.body
    let role ← invitationalRole body "role is not assignable"
    let expectedVersion ← runtime.positiveVersion input
    let key ← input.key
    let updated ← Handler.ask (I := apiInterface)
      (.updateMemberRole identity key ⟨id, role, expectedVersion⟩) .ofExcept
    pure ⟨200, false, updated⟩)

/-- The household routes, with their parameters. -/
inductive HouseholdRoute where
  | getHouseholds
  | postHouseholds
  | getMembers
  | postInvitations
  | postAccept (token : String)
  | postRevoke (id : String)
  | postMemberRole (id : String)

/-- A request to a household route. -/
structure HouseholdRequest where
  route : HouseholdRoute
  input : RequestInput

/-- The handler of a request. -/
def HouseholdRequest.handler (request : HouseholdRequest) : HouseholdHandler HouseholdReply :=
  match request.route with
  | .getHouseholds => getHouseholds
  | .postHouseholds => postHouseholds request.input
  | .getMembers => getMembers runtime
  | .postInvitations => postInvitations runtime request.input
  | .postAccept token => postAccept runtime token request.input
  | .postRevoke id => postRevoke runtime id request.input
  | .postMemberRole id => postMemberRole runtime id request.input

/-- The problem that the error handler of the household routes replies with. -/
def RouteError.toHouseholdProblem : RouteError → ApiProblem
  | problem thrown => thrown
  | authenticationRequired _ =>
    ⟨401, "Authentication required", "A verified account session is required."⟩
  | householdSelectionRequired _ =>
    ⟨409, "Household selection required", "Select an accessible household."⟩
  | authorizationDenied => ⟨403, "Access denied", "Access is denied."⟩
  | error message =>
    if (error message).includes "membership invitation unavailable" then
      ⟨404, "Invitation unavailable",
        "The invitation is invalid, expired, already used, or not addressed to this account."⟩
    else
      let conflict := (error message).includes "conflict"
      ⟨if conflict || (error message).includes "idempotency" then 409 else 500,
        if conflict then "Version conflict" else "Request failed",
        "The request could not be completed."⟩

/-- How a request ends: with a reply, or with the problem of the error handler. -/
def HouseholdRequest.respond (request : HouseholdRequest) :
    Handler apiInterface ApiProblem HouseholdReply :=
  (request.handler runtime).recover (fun thrown => .fail thrown.toHouseholdProblem)

end LegacyVault
