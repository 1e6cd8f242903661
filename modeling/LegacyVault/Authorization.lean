import LegacyVault.Entities
import LegacyVault.Library.EcmaText
import Mathlib.Logic.Relation

/-!
# Authorization

The authorization policy: what `authorize` allows, and why it denies. Times
are texts, read by `Date.parse`, and may not parse.

`Authorized` says what an allowed request is entitled to. `Lessens` takes
rights away: a grant or an approval is revoked, expires or is removed.
-/

namespace LegacyVault

open EcmaText

/-- A grant of rights to a membership (`PermissionGrant`). -/
structure PermissionGrant where
  categories : List RecordCategory
  actions : List PermissionAction
  purpose : String
  startsAt : String
  expiresAt : Option String
  revokedAt : Option String
  deriving DecidableEq

/-- An owner's approval of support access. -/
structure SupportAccessApproval where
  approvedByOwnerId : Identifier
  reasonCode : String
  categories : List RecordCategory
  startsAt : String
  expiresAt : String
  revokedAt : Option String
  deriving DecidableEq

/-- Input of `authorize`. -/
structure AuthorizationRequest where
  role : Role
  grants : List PermissionGrant
  category : RecordCategory
  action : PermissionAction
  purpose : String
  now : String
  sessionIssuedAt : String
  mfaVerifiedAt : Option String
  supportApprovals : Option (List SupportAccessApproval)
  emergencyReleaseCategories : Option (List RecordCategory)
  deriving DecidableEq

/-- Reasons of a decision. -/
inductive DecisionReason where
  | allow | invalidPurpose | sessionExpired | mfaRequired | permissionDenied
  | supportApprovalRequired | emergencyReleaseRequired
  deriving DecidableEq

/-- The text of a reason. -/
def DecisionReason.text : DecisionReason → String
  | allow => "allow"
  | invalidPurpose => "invalid-purpose"
  | sessionExpired => "session-expired"
  | mfaRequired => "mfa-required"
  | permissionDenied => "permission-denied"
  | supportApprovalRequired => "support-approval-required"
  | emergencyReleaseRequired => "emergency-release-required"

/-- Result of `authorize`. -/
structure AuthorizationDecision where
  allowed : Bool
  reason : DecisionReason
  deriving DecidableEq

/-- Actions of a role (`roleActions`). -/
def roleActions : Role → List PermissionAction
  | .owner | .coOwner => [.read, .create, .update, .delete, .export, .approve]
  | .editor | .familyHelper | .professionalAdvisor => [.read, .create, .update]
  | .readOnlyViewer | .emergencyRecipient | .supportAgent => [.read]
  | .platformAdmin => []

/-- Roles that must have verified a second factor. -/
def mfaRoles : List Role := [.owner, .coOwner, .supportAgent, .platformAdmin]

/-- Roles of the platform's staff. -/
def staffRoles : List Role := [.supportAgent, .platformAdmin]

/-- Longest age of a session, in milliseconds. -/
def maximumSessionAgeMs (role : Role) : Int :=
  if staffRoles.contains role then 15 * 60 * 1000 else 7 * 24 * 60 * 60 * 1000

section Policy

variable (parse : String → Option Int)

/-- `isGrantActive`. -/
def isGrantActive (grant : PermissionGrant) (at_ : String) : Bool :=
  !truthy grant.revokedAt && notAfter (parse grant.startsAt) (parse at_) &&
    (!truthy grant.expiresAt || isAfter (grant.expiresAt.bind parse) (parse at_))

/-- `permits`. -/
def permits (role : Role) (grants : List PermissionGrant) (category : RecordCategory)
    (action : PermissionAction) (at_ : String) : Bool :=
  if !(roleActions role).contains action then false
  else if role = .owner ∨ role = .coOwner then true
  else grants.any (fun grant =>
    isGrantActive parse grant at_ && grant.categories.contains category &&
      grant.actions.contains action)

/-- The approval admits support access to the category now. -/
def approves (approval : SupportAccessApproval) (category : RecordCategory)
    (now : Option Int) : Bool :=
  !truthy approval.revokedAt && !isBlank approval.reasonCode &&
    approval.categories.contains category &&
    notAfter (parse approval.startsAt) now && isAfter (parse approval.expiresAt) now &&
    (match parse approval.startsAt, parse approval.expiresAt with
      | some startsAt, some expiresAt => expiresAt - startsAt ≤ 4 * 60 * 60 * 1000
      | _, _ => false)

namespace AuthorizationRequest

variable (request : AuthorizationRequest)

/-- The session was issued recently. -/
def sessionCurrent : Bool :=
  within (maximumSessionAgeMs request.role) (parse request.sessionIssuedAt) (parse request.now)

/-- The second factor was verified recently. -/
def mfaCurrent : Bool :=
  within (12 * 60 * 60 * 1000)
    (if truthy request.mfaVerifiedAt then request.mfaVerifiedAt.bind parse else none)
    (parse request.now)

/-- An approval admits the request. -/
def supportApproved : Bool :=
  (request.supportApprovals.getD []).any
    (fun approval => approves parse approval request.category (parse request.now))

/-- The one request an emergency recipient may always make. -/
def asksForRelease : Bool :=
  request.role == .emergencyRecipient && request.purpose == "vault.emergency-access.request" &&
    request.action == .create

/-- The category is released to the emergency recipient. -/
def categoryReleased : Bool :=
  (request.emergencyReleaseCategories.getD []).contains request.category

/-- The grants of the request's purpose permit it. -/
def permitted : Bool :=
  permits parse request.role
    (request.grants.filter (fun grant => grant.purpose == request.purpose))
    request.category request.action request.now

end AuthorizationRequest

/-- `authorize`. -/
def authorize (request : AuthorizationRequest) : AuthorizationDecision :=
  if isBlank request.purpose then ⟨false, .invalidPurpose⟩
  else if !request.sessionCurrent parse then ⟨false, .sessionExpired⟩
  else if mfaRoles.contains request.role && !request.mfaCurrent parse then ⟨false, .mfaRequired⟩
  else if request.role = .platformAdmin then ⟨false, .permissionDenied⟩
  else if request.role = .supportAgent && !request.supportApproved parse then
    ⟨false, .supportApprovalRequired⟩
  else if request.asksForRelease then ⟨true, .allow⟩
  else if request.role = .emergencyRecipient && !request.categoryReleased then
    ⟨false, .emergencyReleaseRequired⟩
  else if request.permitted parse then ⟨true, .allow⟩
  else ⟨false, .permissionDenied⟩

variable {parse}

/-- A denial for a condition allows what does not meet it and is allowed after it. -/
theorem allowed_unless {condition : Prop} [Decidable condition] {reason : DecisionReason}
    {decision : AuthorizationDecision} :
    (if condition then ⟨false, reason⟩ else decision).allowed = true ↔
      ¬ condition ∧ decision.allowed = true := by
  by_cases h : condition <;> simp [h]

/-- An allowance for a condition allows what meets it or is allowed after it. -/
theorem allowed_when {condition : Prop} [Decidable condition]
    {decision : AuthorizationDecision} :
    (if condition then ⟨true, .allow⟩ else decision).allowed = true ↔
      condition ∨ decision.allowed = true := by
  by_cases h : condition <;> simp [h]

/-- What `authorize` checks of an allowed request. -/
theorem authorize_allowed {request : AuthorizationRequest} :
    (authorize parse request).allowed = true ↔
      isBlank request.purpose = false ∧ request.sessionCurrent parse = true ∧
      (request.role ∈ mfaRoles → request.mfaCurrent parse = true) ∧
      request.role ≠ .platformAdmin ∧
      (request.role = .supportAgent → request.supportApproved parse = true) ∧
      (request.asksForRelease = true ∨
        ((request.role = .emergencyRecipient → request.categoryReleased = true) ∧
          request.permitted parse = true)) := by
  simp only [authorize, allowed_unless, allowed_when]
  simp

/-- What `permits` checks of a permitted action. -/
theorem permits_iff {role : Role} {grants : List PermissionGrant} {category : RecordCategory}
    {action : PermissionAction} {at_ : String} :
    permits parse role grants category action at_ = true ↔
      action ∈ roleActions role ∧ (role = .owner ∨ role = .coOwner ∨
        ∃ grant ∈ grants, isGrantActive parse grant at_ = true ∧ category ∈ grant.categories ∧
          action ∈ grant.actions) := by
  unfold permits
  by_cases haction : action ∈ roleActions role
  · by_cases howner : role = .owner ∨ role = .coOwner
    · simp only [haction, howner, List.contains_eq_mem, decide_true, Bool.not_true,
        Bool.false_eq_true, if_false, if_true, true_and, true_iff]
      exact howner.imp_right Or.inl
    · obtain ⟨hown, hco⟩ := not_or.mp howner
      simp [haction, hown, hco, and_assoc]
  · simp [haction]

/-- What an allowed request is entitled to. -/
structure Authorized (parse : String → Option Int) (request : AuthorizationRequest) : Prop where
  /-- The purpose is not blank. -/
  purpose : isBlank request.purpose = false
  /-- The session is neither in the future nor too old for the role. -/
  session : ∃ issued now, parse request.sessionIssuedAt = some issued ∧
    parse request.now = some now ∧ issued ≤ now ∧
    now - issued ≤ if request.role = .supportAgent ∨ request.role = .platformAdmin
      then 15 * 60 * 1000 else 7 * 24 * 60 * 60 * 1000
  /-- Owners and support agents have verified a second factor within twelve hours. -/
  mfa : request.role = .owner ∨ request.role = .coOwner ∨ request.role = .supportAgent →
    ∃ text verified now, request.mfaVerifiedAt = some text ∧ parse text = some verified ∧
      parse request.now = some now ∧ verified ≤ now ∧ now - verified ≤ 12 * 60 * 60 * 1000
  /-- Platform administrators are never allowed. -/
  admin : request.role ≠ .platformAdmin
  /-- The action belongs to the role. -/
  action : request.asksForRelease = false → request.action ∈ roleActions request.role
  /-- Some grant of exactly this purpose, category and action is active now. -/
  grant : request.asksForRelease = false → request.role ≠ .owner → request.role ≠ .coOwner →
    ∃ grant ∈ request.grants, grant.purpose = request.purpose ∧
      request.category ∈ grant.categories ∧ request.action ∈ grant.actions ∧
      isGrantActive parse grant request.now = true
  /-- A support agent has an unrevoked approval for the category, with a reason and a
  window of at most four hours around now. -/
  support : request.role = .supportAgent →
    ∃ approval ∈ request.supportApprovals.getD [], truthy approval.revokedAt = false ∧
      isBlank approval.reasonCode = false ∧ request.category ∈ approval.categories ∧
      ∃ startsAt now expiresAt, parse approval.startsAt = some startsAt ∧
        parse request.now = some now ∧ parse approval.expiresAt = some expiresAt ∧
        startsAt ≤ now ∧ now < expiresAt ∧ expiresAt - startsAt ≤ 4 * 60 * 60 * 1000
  /-- An emergency recipient has the category released. -/
  released : request.role = .emergencyRecipient → request.asksForRelease = false →
    request.category ∈ request.emergencyReleaseCategories.getD []

/-- An allowed request is entitled to what it asks for. -/
theorem Authorized.of_allowed {request : AuthorizationRequest}
    (h : (authorize parse request).allowed = true) : Authorized parse request := by
  obtain ⟨hpurpose, hsession, hmfa, hadmin, hsupport, hrights⟩ := authorize_allowed.mp h
  have hpermitted : request.asksForRelease = false →
      (request.role = .emergencyRecipient → request.categoryReleased = true) ∧
        request.permitted parse = true := by
    intro hask
    exact hrights.resolve_left (by simp [hask])
  exact {
    purpose := hpurpose
    session := by
      obtain ⟨issued, now, hissued, hnow, hle, hage⟩ := within_iff.mp hsession
      refine ⟨issued, now, hissued, hnow, hle, ?_⟩
      simpa [maximumSessionAgeMs, staffRoles] using hage
    mfa := by
      intro hrole
      have hmember : request.role ∈ mfaRoles := by
        rcases hrole with hrole | hrole | hrole <;> simp [hrole, mfaRoles]
      obtain ⟨verified, now, hverified, hnow, hle, hage⟩ := within_iff.mp (hmfa hmember)
      by_cases htruthy : truthy request.mfaVerifiedAt = true
      · rw [if_pos htruthy] at hverified
        obtain ⟨text, htext, hparse⟩ := Option.bind_eq_some_iff.mp hverified
        exact ⟨text, verified, now, htext, hparse, hnow, hle, hage⟩
      · rw [if_neg htruthy] at hverified
        exact absurd hverified (by simp)
    admin := hadmin
    action := fun hask => (permits_iff.mp (hpermitted hask).2).1
    grant := by
      intro hask howner hco
      rcases (permits_iff.mp (hpermitted hask).2).2 with hrole | hrole | hgrant
      · exact absurd hrole howner
      · exact absurd hrole hco
      · obtain ⟨grant, hmem, hactive, hcategory, haction⟩ := hgrant
        obtain ⟨hmem, hpurpose⟩ := List.mem_filter.mp hmem
        exact ⟨grant, hmem, beq_iff_eq.mp hpurpose, hcategory, haction, hactive⟩
    support := by
      intro hrole
      obtain ⟨approval, hmem, happroves⟩ := List.any_eq_true.mp (hsupport hrole)
      simp only [approves, Bool.and_eq_true, Bool.not_eq_true'] at happroves
      obtain ⟨⟨⟨⟨⟨hrevoked, hreason⟩, hcategory⟩, hstarted⟩, hopen⟩, hwindow⟩ := happroves
      obtain ⟨startsAt, now, hstart, hnow, hle⟩ := notAfter_iff.mp hstarted
      obtain ⟨expiresAt, now', hexpire, hnow', hlt⟩ := isAfter_iff.mp hopen
      have hsame : now' = now := Option.some.inj (hnow'.symm.trans hnow)
      rw [hsame] at hlt
      rw [hstart, hexpire] at hwindow
      exact ⟨approval, hmem, hrevoked, hreason, by simpa using hcategory, startsAt, now,
        expiresAt, hstart, hnow, hexpire, hle, hlt, by simpa using hwindow⟩
    released := by
      intro hrole hask
      have hcategory := (hpermitted hask).1 hrole
      simpa [AuthorizationRequest.categoryReleased] using hcategory }

/-- The expiry text has an end, and it has passed. -/
def Expired (parse : String → Option Int) (expiresAt now : String) : Prop :=
  expiresAt ≠ "" ∧ isAfter (parse expiresAt) (parse now) = false

/-- What is left of a grant that is removed, revoked or expired. -/
inductive GrantLessened (parse : String → Option Int) (now : String) (grant : PermissionGrant) :
    Option PermissionGrant → Prop
  /-- Nothing. -/
  | removed : GrantLessened parse now grant none
  /-- The grant with a revocation, which stays. -/
  | revoked (at_ : String) (hstays : truthy grant.revokedAt = true → at_ ≠ "") :
    GrantLessened parse now grant (some { grant with revokedAt := some at_ })
  /-- The grant with an expiry that has passed. -/
  | expired (expiresAt : String) (hpassed : Expired parse expiresAt now) :
    GrantLessened parse now grant (some { grant with expiresAt := some expiresAt })

/-- What is left of an approval that is removed, revoked or expired. -/
inductive ApprovalLessened (parse : String → Option Int) (now : String)
    (approval : SupportAccessApproval) : Option SupportAccessApproval → Prop
  /-- Nothing. -/
  | removed : ApprovalLessened parse now approval none
  /-- The approval with a revocation, which stays. -/
  | revoked (at_ : String) (hstays : truthy approval.revokedAt = true → at_ ≠ "") :
    ApprovalLessened parse now approval (some { approval with revokedAt := some at_ })
  /-- The approval with an expiry that has passed. -/
  | expired (expiresAt : String) (hpassed : Expired parse expiresAt now) :
    ApprovalLessened parse now approval (some { approval with expiresAt := expiresAt })

/-- A grant or an approval of the request is removed, revoked or expired. -/
inductive Lessens (parse : String → Option Int) :
    AuthorizationRequest → AuthorizationRequest → Prop
  /-- One of the grants. -/
  | grant {request : AuthorizationRequest} {before after : List PermissionGrant}
      {grant : PermissionGrant} {left : Option PermissionGrant}
      (hgrants : request.grants = before ++ grant :: after)
      (hleft : GrantLessened parse request.now grant left) :
      Lessens parse request { request with grants := before ++ left.toList ++ after }
  /-- One of the approvals. -/
  | approval {request : AuthorizationRequest} {before after : List SupportAccessApproval}
      {approval : SupportAccessApproval} {left : Option SupportAccessApproval}
      (happrovals : request.supportApprovals = some (before ++ approval :: after))
      (hleft : ApprovalLessened parse request.now approval left) :
      Lessens parse request
        { request with supportApprovals := some (before ++ left.toList ++ after) }

/-- What is left of a grant gives no right the grant does not give. -/
theorem GrantLessened.active {now : String} {grant left : PermissionGrant}
    (h : GrantLessened parse now grant (some left)) (hactive : isGrantActive parse left now = true) :
    isGrantActive parse grant now = true ∧ left.purpose = grant.purpose ∧
      left.categories = grant.categories ∧ left.actions = grant.actions := by
  cases h with
  | revoked at_ hstays =>
    have hleft : truthy (some at_) = false := by
      by_contra htrue
      simp [isGrantActive, Bool.not_eq_false _ ▸ htrue] at hactive
    have hunrevoked : truthy grant.revokedAt = false := by
      by_contra htrue
      have hne := hstays (Bool.not_eq_false _ ▸ htrue)
      exact absurd (truthy_some.mpr hne) (by simp [hleft])
    refine ⟨?_, rfl, rfl, rfl⟩
    simpa only [isGrantActive, hleft, hunrevoked] using hactive
  | expired expiresAt hpassed =>
    have hafter : isAfter (parse expiresAt) (parse now) = true := by
      simp only [isGrantActive, truthy, Option.any_some, hpassed.1, ne_eq, not_false_eq_true,
        decide_true, Bool.not_true, Bool.false_or, Option.bind_some, Bool.and_eq_true] at hactive
      exact hactive.2
    exact absurd hafter (by simp [hpassed.2])

/-- What is left of an approval approves nothing the approval does not. -/
theorem ApprovalLessened.approves {now : String} {approval left : SupportAccessApproval}
    {category : RecordCategory} (h : ApprovalLessened parse now approval (some left))
    (happroves : LegacyVault.approves parse left category (parse now) = true) :
    LegacyVault.approves parse approval category (parse now) = true := by
  cases h with
  | revoked at_ hstays =>
    have hleft : truthy (some at_) = false := by
      by_contra htrue
      simp [LegacyVault.approves, Bool.not_eq_false _ ▸ htrue] at happroves
    have hunrevoked : truthy approval.revokedAt = false := by
      by_contra htrue
      have hne := hstays (Bool.not_eq_false _ ▸ htrue)
      exact absurd (truthy_some.mpr hne) (by simp [hleft])
    simpa only [LegacyVault.approves, hleft, hunrevoked] using happroves
  | expired expiresAt hpassed =>
    have hafter : isAfter (parse expiresAt) (parse now) = true := by
      simp only [LegacyVault.approves, Bool.and_eq_true] at happroves
      exact happroves.1.2
    exact absurd hafter (by simp [hpassed.2])

/-- A member of a list with one element replaced or removed is one of the others, or what is
left of that element. -/
theorem mem_lessened {α : Type} {before after : List α} {x : α} {left : Option α} {y : α}
    (h : y ∈ before ++ left.toList ++ after) : y ∈ before ++ x :: after ∨ left = some y := by
  rcases List.mem_append.mp h with h | h
  · rcases List.mem_append.mp h with h | h
    · exact Or.inl (List.mem_append_left _ h)
    · exact Or.inr (Option.mem_toList.mp h)
  · exact Or.inl (List.mem_append_right _ (List.mem_cons_of_mem _ h))

/-- Taking a right away never turns a denial into an allowance. -/
theorem Lessens.allowed {request lessened : AuthorizationRequest}
    (h : Lessens parse request lessened) (hallowed : (authorize parse lessened).allowed = true) :
    (authorize parse request).allowed = true := by
  obtain ⟨hpurpose, hsession, hmfa, hadmin, hsupport, hrights⟩ := authorize_allowed.mp hallowed
  cases h with
  | @grant before after grant left hgrants hleft =>
    refine authorize_allowed.mpr ⟨hpurpose, hsession, hmfa, hadmin, hsupport, ?_⟩
    rcases hrights with hask | ⟨hreleased, hpermitted⟩
    · exact Or.inl hask
    · refine Or.inr ⟨hreleased, permits_iff.mpr ?_⟩
      obtain ⟨haction, hgrant⟩ := permits_iff.mp hpermitted
      refine ⟨haction, hgrant.imp_right (Or.imp_right ?_)⟩
      rintro ⟨held, hmem, hactive, hcategory, haction⟩
      obtain ⟨hmem, hheld⟩ := List.mem_filter.mp hmem
      rcases mem_lessened (x := grant) hmem with hmem | rfl
      · rw [← hgrants] at hmem
        exact ⟨held, List.mem_filter.mpr ⟨hmem, hheld⟩, hactive, hcategory, haction⟩
      · obtain ⟨hactive, hsame, hcategories, hactions⟩ := hleft.active hactive
        have hmem : grant ∈ request.grants := by simp [hgrants]
        refine ⟨grant, List.mem_filter.mpr ⟨hmem, ?_⟩, hactive, ?_, ?_⟩
        · rw [← hsame]
          exact hheld
        · rw [← hcategories]
          exact hcategory
        · rw [← hactions]
          exact haction
  | @approval before after approval left happrovals hleft =>
    refine authorize_allowed.mpr ⟨hpurpose, hsession, hmfa, hadmin, ?_, hrights⟩
    intro hrole
    obtain ⟨held, hmem, happroves⟩ := List.any_eq_true.mp (hsupport hrole)
    refine List.any_eq_true.mpr ?_
    rcases mem_lessened (x := approval) hmem with hmem | rfl
    · rw [happrovals]
      exact ⟨held, hmem, happroves⟩
    · rw [happrovals]
      exact ⟨approval, by simp, hleft.approves happroves⟩

/-- `authorize` allows only what a request is entitled to, and however many of its grants and
approvals are revoked, expire or are removed, what it denied stays denied. -/
theorem authorize_sound_and_monotone (parse : String → Option Int)
    (request : AuthorizationRequest) :
    ((authorize parse request).allowed = true → Authorized parse request) ∧
      ∀ lessened, Relation.ReflTransGen (Lessens parse) request lessened →
        (authorize parse request).allowed = false →
        (authorize parse lessened).allowed = false := by
  refine ⟨Authorized.of_allowed, ?_⟩
  intro lessened hlessens hdenied
  induction hlessens with
  | refl => exact hdenied
  | tail _ hstep ih =>
    rw [Bool.eq_false_iff] at ih ⊢
    exact fun hallowed => ih (hstep.allowed hallowed)

end Policy

end LegacyVault
