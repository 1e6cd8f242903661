import LegacyVault.SupportAccessRuns
import Mathlib.Data.Bool.AllAny

/-!
# The life of support access

A support agent is let in through an approval and only through one: the policy
allows a category exactly when an approval that was read unrevoked lists it and
its window contains the instant, given what every agent needs besides.

The window is the one that the policy sees, with bounds taken down to whole
milliseconds. An approval whose end lies within a millisecond is therefore cut:
at the last instant of its own window the policy denies what the database would
still have handed out.
-/

namespace LegacyVault.SupportAccess

open EcmaText RowTransaction RowTransaction.Program RowTransaction.Protocol IsoTime

/-! ## The policy's reading of an approval -/

/-- The window of an approval as the policy sees it contains the instant. -/
def ApprovalRow.contains (row : ApprovalRow) (now : Instant) : Prop :=
  toDate row.startsAt ≤ now ∧ now < toDate row.expiresAt

/-- The request that an identity makes at an instant. -/
def accessRequest (identity : AuthenticatedTenantIdentity) (category : RecordCategory)
    (action : PermissionAction) (purpose : String) (now : Instant) : AuthorizationRequest where
  role := identity.role
  grants := identity.grants
  category := category
  action := action
  purpose := purpose
  now := toISOString now
  sessionIssuedAt := identity.sessionIssuedAt
  mfaVerifiedAt := identity.mfaVerifiedAt
  supportApprovals := some identity.supportApprovals
  emergencyReleaseCategories := some identity.emergencyReleaseCategories

/-- What a support agent needs besides an approval to read a category. -/
structure Entitled (parse : String → Option Int) (identity : AuthenticatedTenantIdentity)
    (category : RecordCategory) (purpose : String) (now : Instant) : Prop where
  /-- The purpose is not blank. -/
  stated : isBlank purpose = false
  /-- The session is at most fifteen minutes old. -/
  session : ∃ issued, parse identity.sessionIssuedAt = some issued ∧ issued ≤ now ∧
    now - issued ≤ 15 * 60 * 1000
  /-- The second factor was verified at most twelve hours ago. -/
  mfa : ∃ text verified, identity.mfaVerifiedAt = some text ∧ text ≠ "" ∧
    parse text = some verified ∧ verified ≤ now ∧ now - verified ≤ 12 * 60 * 60 * 1000
  /-- A grant of the purpose that is active lets the category be read. -/
  granted : ∃ grant ∈ identity.grants, grant.purpose = purpose ∧ category ∈ grant.categories ∧
    PermissionAction.read ∈ grant.actions ∧ isGrantActive parse grant (toISOString now) = true

section Policy

variable {times : TimeReadings}

/-- Letters and digits are no white space. -/
theorem isSpace_of_isAlphanumeric {c : Char} (h : isAlphanumeric c = true) : isSpace c = false := by
  have hbound : c.toNat < 128 := by
    simp only [isAlphanumeric, Bool.or_eq_true, Bool.and_eq_true, decide_eq_true_eq] at h
    omega
  have hnone : ∀ d ∈ ['\t', '\n', '\x0b', '\x0c', '\r', ' ', '\u00a0', '\u1680', '\u2028',
      '\u2029', '\u202f', '\u205f', '\u3000', '\ufeff'], isAlphanumeric d = false :=
    List.all_iff_forall_prop.mp (by decide)
  rw [isSpace, Bool.or_eq_false_iff]
  constructor
  · rw [List.contains_eq_mem, decide_eq_false_iff_not]
    intro hmem
    exact absurd ((hnone c hmem).symm.trans h) (by simp)
  · rw [Bool.and_eq_false_iff]
    left
    rw [decide_eq_false_iff_not]
    intro hle
    have hlarge : 8192 ≤ c.toNat := hle
    omega

/-- A text that begins with a letter or a digit is not blank. -/
theorem isBlank_reasonCode {reasonCode : String} (h : reasonCodeAccepted reasonCode = true) :
    isBlank reasonCode = false := by
  unfold reasonCodeAccepted at h
  split at h
  · exact absurd h (by simp)
  rename_i first rest hchars
  simp only [Bool.and_eq_true] at h
  have hfirst : isSpace first = false := isSpace_of_isAlphanumeric h.1.1
  have hkept : (first :: rest).dropWhile isSpace = first :: rest := by
    rw [List.dropWhile_cons, hfirst]
    rfl
  rw [isBlank, beq_eq_false_iff_ne, trim, hchars, hkept]
  intro hempty
  have hnil : (first :: rest).rdropWhile isSpace = [] := by
    have hlist := congrArg String.toList hempty
    rwa [String.toList_ofList] at hlist
  have hspace := List.rdropWhile_eq_nil_iff.mp hnil first List.mem_cons_self
  exact absurd (hfirst.symm.trans hspace) (by simp)

/-- The bounds of a persisted approval are instants of a `Date`. -/
theorem Admitted.inDateRange (htimes : times.Sound) {call : ApproveCall}
    {startsAt expiresAt : Timestamp} (h : Admitted times call startsAt expiresAt) :
    InDateRange (toDate startsAt) ∧ InDateRange (toDate expiresAt) := by
  have hperiod := h.period
  unfold periodAccepted at hperiod
  split at hperiod
  · rename_i parsedStart parsedEnd hstart hend
    have hbounds := h.bounds
    simp only [storedPeriod, Option.bind_eq_bind, Option.bind_eq_some_iff, Option.pure_def,
      Option.some.injEq, Prod.mk.injEq] at hbounds
    obtain ⟨start, hstartsAt, ending, hexpiresAt, rfl, rfl⟩ := hbounds
    exact ⟨htimes.stored _ _ _ hstart hstartsAt, htimes.stored _ _ _ hend hexpiresAt⟩
  · exact absurd hperiod (by simp)

/-- A period of at most four hours stays one when its bounds are taken down. -/
theorem toDate_sub_le {startsAt expiresAt : Int} (h : expiresAt ≤ startsAt + fourHours) :
    toDate expiresAt - toDate startsAt ≤ 4 * 60 * 60 * 1000 := by
  have hbound : expiresAt ≤ startsAt + 4 * 60 * 60 * 1000 * 1000 := h
  have hfloors : expiresAt / 1000 - startsAt / 1000 ≤ 4 * 60 * 60 * 1000 := by omega
  exact hfloors

/-- The policy honours a persisted approval for its categories within the window it sees,
unless it is revoked. -/
theorem approves_persisted (htimes : times.Sound) {init : SupportRows} {call : ApproveCall}
    {row : ApprovalRow} (h : PersistedBy times init call row) (hunrevoked : row.revokedAt = none)
    {category : RecordCategory} {now : Instant} :
    approves times.parse row.approval category (some now) = true ↔
      category ∈ row.categories ∧ row.contains now := by
  obtain ⟨hstart, hend⟩ := h.admitted.inDateRange htimes
  have hreason : isBlank row.reasonCode = false := by
    rw [show row.reasonCode = call.reasonCode by rw [h.kept.1]; rfl]
    exact isBlank_reasonCode h.admitted.reason
  have hlength : toDate row.expiresAt - toDate row.startsAt ≤ 4 * 60 * 60 * 1000 := by
    have hchecked := h.admitted.checked
    simp only [ApprovalRow.checked, Bool.and_eq_true, decide_eq_true_eq] at hchecked
    exact toDate_sub_le hchecked.2
  have hparsedStart := htimes.written _ hstart
  have hparsedEnd := htimes.written _ hend
  simp only [approves, ApprovalRow.approval, hunrevoked, Option.map_none, truthy_none, hreason,
    hparsedStart, hparsedEnd, notAfter, isAfter, ApprovalRow.contains, Bool.not_false,
    Bool.true_and, Bool.and_eq_true, decide_eq_true_eq, List.contains_eq_mem, hlength, and_true,
    and_assoc]

/-- A category is open to a support agent when an approval opens it. -/
theorem supportApproved_iff {identity : AuthenticatedTenantIdentity} {category : RecordCategory}
    {action : PermissionAction} {purpose : String} {now : Instant} (htimes : times.Sound)
    (hnow : InDateRange now) :
    (accessRequest identity category action purpose now).supportApproved times.parse = true ↔
      ∃ approval ∈ identity.supportApprovals,
        approves times.parse approval category (some now) = true := by
  simp only [AuthorizationRequest.supportApproved, accessRequest, Option.getD_some,
    List.any_eq_true, htimes.written now hnow]

/-- An entitled support agent with an approval may read the category. -/
theorem authorized_of_approved {identity : AuthenticatedTenantIdentity}
    {category : RecordCategory} {purpose : String} {now : Instant} (htimes : times.Sound)
    (hnow : InDateRange now) (hrole : identity.role = .supportAgent)
    (h : Entitled times.parse identity category purpose now)
    (happroved : ∃ approval ∈ identity.supportApprovals,
      approves times.parse approval category (some now) = true) :
    requireIdentityAuthorization times.parse identity category .read purpose now = true := by
  obtain ⟨issued, hissued, hold, hage⟩ := h.session
  obtain ⟨text, verified, htext, hnonempty, hverified, hpast, hrecent⟩ := h.mfa
  obtain ⟨grant, hgrant, hpurpose, hcategory, haction, hactive⟩ := h.granted
  have hnowText := htimes.written now hnow
  have hallowed : (authorize times.parse
      (accessRequest identity category .read purpose now)).allowed = true := by
    refine authorize_allowed.mpr ⟨h.stated, ?_, fun _ => ?_, ?_, fun _ => ?_, Or.inr ⟨?_, ?_⟩⟩
    · refine within_iff.mpr ⟨issued, now, hissued, hnowText, hold, ?_⟩
      rw [show (accessRequest identity category .read purpose now).role = .supportAgent from hrole]
      exact hage
    · refine within_iff.mpr ⟨verified, now, ?_, hnowText, hpast, hrecent⟩
      rw [show (accessRequest identity category .read purpose now).mfaVerifiedAt = some text from
        htext, if_pos (truthy_some.mpr hnonempty)]
      exact hverified
    · intro hadmin
      exact absurd (hrole.symm.trans hadmin) (by simp)
    · exact (supportApproved_iff htimes hnow).mpr happroved
    · intro hrecipient
      exact absurd (hrole.symm.trans hrecipient) (by simp)
    · refine permits_iff.mpr ⟨?_, Or.inr (Or.inr ⟨grant, ?_, hactive, hcategory, haction⟩)⟩
      · rw [show (accessRequest identity category .read purpose now).role = .supportAgent from
          hrole]
        exact List.mem_singleton_self _
      · exact List.mem_filter.mpr ⟨hgrant, beq_iff_eq.mpr hpurpose⟩
  exact hallowed

/-- A support agent who is let in has an approval for the category. -/
theorem approved_of_authorized {identity : AuthenticatedTenantIdentity}
    {category : RecordCategory} {action : PermissionAction} {purpose : String} {now : Instant}
    (htimes : times.Sound) (hnow : InDateRange now) (hrole : identity.role = .supportAgent)
    (h : requireIdentityAuthorization times.parse identity category action purpose now = true) :
    ∃ approval ∈ identity.supportApprovals,
      approves times.parse approval category (some now) = true := by
  have hallowed : (authorize times.parse
      (accessRequest identity category action purpose now)).allowed = true := h
  obtain ⟨-, -, -, -, hsupport, -⟩ := authorize_allowed.mp hallowed
  exact (supportApproved_iff htimes hnow).mp (hsupport hrole)

end Policy

/-! ## Approvals of a resolved identity -/

section Resolved

variable {times : TimeReadings} {init : SupportRows} {s : (supportProtocol times).System}
  {id : Nat} {call : ResolveCall} {identity : ResolvedMembershipIdentity}

/-- A session has resolved the identity and is about to end. -/
def Resolving (s : (supportProtocol times).System) (id : Nat) (call : ResolveCall)
    (identity : ResolvedMembershipIdentity) : Prop :=
  ∃ ws seen, s.active id = some ⟨.resolve call, .commit (.identity identity), ws, seen⟩

/-- An approval is open when its row is. -/
theorem mem_openApprovals {membership : MembershipRow} {now : Timestamp} {σ : SupportRows}
    {approval : SupportAccessApproval} :
    approval ∈ openApprovals membership now σ ↔ ∃ (k : Identifier) (row : ApprovalRow),
      σ.get .supportAccessApprovals k = some row ∧ row.openFor membership now = true ∧
        row.approval = approval := by
  rw [openApprovals, List.mem_map]
  constructor
  · rintro ⟨row, hmem, happroval⟩
    obtain ⟨hrow, hopen⟩ := List.mem_filter.mp ((List.perm_insertionSort _ _).mem_iff.mp hmem)
    obtain ⟨k, hk⟩ := Store.mem_rowsOf.mp hrow
    exact ⟨k, row, hk, hopen, happroval⟩
  · rintro ⟨k, row, hk, hopen, happroval⟩
    refine ⟨row, (List.perm_insertionSort _ _).mem_iff.mpr (List.mem_filter.mpr ⟨?_, hopen⟩),
      happroval⟩
    exact Store.mem_rowsOf.mpr ⟨k, hk⟩

/-- A resolved membership is one of the rows. -/
theorem mem_activeMemberships {σ : SupportRows} {membership : MembershipRow}
    (h : membership ∈ activeMemberships call σ) :
    ∃ k : Identifier, σ.get .memberships k = some membership := by
  have hsorted := List.mem_of_mem_take h
  have hmem := (List.perm_insertionSort _ _).mem_iff.mp hsorted
  exact Store.mem_rowsOf.mp (List.mem_filter.mp hmem).1

/-- A support agent's identity has the approvals that were open for the membership at a moment
its session has seen. -/
theorem Resolving.read (hs : Reachable init s) (h : Resolving s id call identity)
    (hrole : identity.role = .supportAgent) :
    ∃ session membership σ₀ σ₁, s.active id = some session ∧ σ₀ ∈ session.seen ∧
      σ₁ ∈ session.seen ∧ (∃ k : Identifier, σ₀.get .memberships k = some membership) ∧
      identity.membershipId = membership.id ∧
      identity.supportApprovals = openApprovals membership call.now σ₁ := by
  obtain ⟨ws, seen, hactive⟩ := h
  obtain ⟨past, hordered⟩ := hs.ordered
  have hexec := (hordered.sound _ _ hactive).executes
  obtain ⟨found, ws₁, hresolve, hanswer, -⟩ := executes_bind_ok.mp hexec
  obtain rfl := SupportAnswer.identity.inj (Except.ok.inj hanswer)
  obtain ⟨-, σ₀, σ₁, membership, hseen₀, hseen₁, hmember, hid, hroleOf, happrovals⟩ :=
    executes_resolve hresolve
  rw [if_pos (hroleOf.symm.trans hrole)] at happrovals
  exact ⟨_, membership, σ₀, σ₁, hactive, hseen₀, hseen₁, mem_activeMemberships hmember, hid,
    happrovals⟩

/-- Who is let in: an approval that was persisted by an allowed call and read unrevoked while
the identity was resolved lists the category, and its window contains the instant. -/
theorem approval_of_authorized (htimes : times.Sound)
    (hnone : ∀ k, init.get .supportAccessApprovals k = none) (hs : Reachable init s)
    {identity : AuthenticatedTenantIdentity}
    (hresolved : Resolving s id call identity.toResolvedMembershipIdentity)
    (hrole : identity.role = .supportAgent) {category : RecordCategory}
    {action : PermissionAction} {purpose : String} {now : Instant} (hnow : InDateRange now)
    (h : requireIdentityAuthorization times.parse identity category action purpose now = true) :
    ∃ t k row approve, Reachable init t ∧ InProgress id t s ∧
      t.committed.get .supportAccessApprovals k = some row ∧ row.revokedAt = none ∧
      approvedEntry approve ∈ t.log ∧ approve.id = k ∧ PersistedBy times init approve row ∧
      row.supportMembershipId = identity.membershipId ∧ category ∈ row.categories ∧
      row.contains now := by
  obtain ⟨session, membership, -, σ₁, hactive, -, hseen, -, hid, happrovals⟩ :=
    hresolved.read hs hrole
  obtain ⟨t, ht, hspan, rfl⟩ := hs.seen_inProgress hactive σ₁ hseen
  obtain ⟨approval, hmem, happroves⟩ := approved_of_authorized htimes hnow hrole h
  rw [happrovals] at hmem
  obtain ⟨k, row, hrow, hopen, rfl⟩ := mem_openApprovals.mp hmem
  simp only [ApprovalRow.openFor, Bool.and_eq_true, beq_iff_eq, Option.isNone_iff_eq_none,
    decide_eq_true_eq] at hopen
  obtain ⟨⟨⟨⟨-, hmembership⟩, hunrevoked⟩, -⟩, -⟩ := hopen
  obtain ⟨approve, hlogged, happrove, hpersisted⟩ :=
    ((support_invariant hnone).reachable ht).persisted k row hrow
  obtain ⟨hcategory, hcontains⟩ := (approves_persisted htimes hpersisted hunrevoked).mp happroves
  exact ⟨t, k, row, approve, ht, hspan, hrow, hunrevoked, hlogged, happrove, hpersisted,
    hmembership.trans hid.symm, hcategory, hcontains⟩

/-- Every approval is honoured: one that was persisted before the identity was resolved, and is
not revoked when that is done, lets an entitled agent read its categories in its window. -/
theorem authorized_of_approval (htimes : times.Sound)
    (hnone : ∀ k, init.get .supportAccessApprovals k = none)
    (hids : ∀ (k : Identifier) (membership : MembershipRow),
      init.get .memberships k = some membership → membership.id = k)
    {s₀ : (supportProtocol times).System} (hs₀ : Reachable init s₀) (hlater : Later s₀ s)
    (hfree : s₀.active id = none) {k : Identifier} {row last : ApprovalRow}
    (hrow : s₀.committed.get .supportAccessApprovals k = some row)
    (hlast : s.committed.get .supportAccessApprovals k = some last)
    (hunrevoked : last.revokedAt = none) {identity : AuthenticatedTenantIdentity}
    (hresolved : Resolving s id call identity.toResolvedMembershipIdentity)
    (hrole : identity.role = .supportAgent)
    (hmembership : row.supportMembershipId = identity.membershipId)
    (hstarted : row.startsAt ≤ call.now) (hopen : call.now < row.expiresAt)
    {category : RecordCategory} (hcategory : category ∈ row.categories) {purpose : String}
    {now : Instant} (hnow : InDateRange now) (hcontains : row.contains now)
    (hentitled : Entitled times.parse identity category purpose now) :
    requireIdentityAuthorization times.parse identity category .read purpose now = true := by
  have hinv := @support_invariant times init hnone
  have hs := hs₀.later hlater
  obtain ⟨session, membership, σ₀, σ₁, hactive, hseen₀, hseen₁, ⟨key, hmember⟩, hid,
    happrovals⟩ := hresolved.read hs hrole
  obtain ⟨t₀, ht₀, -, rfl⟩ := hs.seen_inProgress hactive σ₀ hseen₀
  obtain ⟨t, hbefore, hafter, rfl⟩ := hlater.seen hfree hactive σ₁ hseen₁
  have ht := hs₀.later hbefore
  -- The row as the resolution has read it: it is not revoked, since revocations stay.
  obtain ⟨read, hread, hkept⟩ := hinv.later hs₀ hbefore k row hrow
  obtain ⟨final, hfinal, hkeptLast⟩ := hinv.later ht hafter k read hread
  obtain rfl : final = last := Option.some.inj (hfinal.symm.trans hlast)
  have hreadUnrevoked : read.revokedAt = none := by
    by_contra hrevoked
    have hsame := hkeptLast.2 hrevoked
    rw [hsame] at hunrevoked
    exact hrevoked hunrevoked
  obtain ⟨approve, -, -, hpersisted⟩ := (hinv.reachable ht).persisted k read hread
  -- The membership that was read is the one that the approval was persisted for.
  obtain ⟨target, htarget, -⟩ := hpersisted.membership
  obtain ⟨hinitial, htenant⟩ := Option.filter_eq_some_iff.mp htarget
  have hkey : membership.id = key :=
    hids key membership (((hinv.reachable ht₀).memberships key).symm.trans hmember)
  have hfor : read.supportMembershipId = approve.supportMembershipId := by
    rw [hpersisted.kept.1]
    rfl
  have hrowFor : read.supportMembershipId = row.supportMembershipId := by rw [hkept.1]
  have hsameKey : approve.supportMembershipId = key := by
    rw [← hfor, hrowFor, hmembership, hid, hkey]
  have htargetSame : target = membership := by
    rw [hsameKey] at hinitial
    exact Option.some.inj
      (hinitial.symm.trans (((hinv.reachable ht₀).memberships key).symm.trans hmember))
  simp only [inTenant, Bool.and_eq_true, beq_iff_eq, htargetSame] at htenant
  have horganization : read.organizationId = approve.owner.organizationId := by
    rw [hpersisted.kept.1]
    rfl
  have hhousehold : read.householdId = approve.owner.householdId := by
    rw [hpersisted.kept.1]
    rfl
  have hopenFor : read.openFor membership call.now = true := by
    simp only [ApprovalRow.openFor, Bool.and_eq_true, beq_iff_eq, Option.isNone_iff_eq_none,
      decide_eq_true_eq]
    refine ⟨⟨⟨⟨⟨?_, ?_⟩, ?_⟩, hreadUnrevoked⟩, ?_⟩, ?_⟩
    · exact horganization.trans htenant.1.symm
    · exact hhousehold.trans htenant.2.symm
    · rw [hrowFor, hmembership, hid]
    · rw [hkept.1]
      exact hstarted
    · rw [hkept.1]
      exact hopen
  refine authorized_of_approved htimes hnow hrole hentitled ⟨read.approval, ?_, ?_⟩
  · rw [happrovals]
    exact mem_openApprovals.mpr ⟨k, read, hread, hopenFor, rfl⟩
  · refine (approves_persisted htimes hpersisted hreadUnrevoked).mpr ⟨?_, ?_⟩
    · rw [hkept.1]
      exact hcategory
    · rw [hkept.1]
      exact hcontains

/-- In every run a support agent is let in for a category at an instant only through an approval
for the membership that an allowed call persisted, that was read unrevoked while the identity was
resolved, that lists the category and is of at most four hours, and whose window, with bounds
taken down to whole milliseconds, contains the instant. Every approval is honoured for its
categories at every instant of that window. No approval is revoked twice. -/
theorem support_access_lifecycle (htimes : times.Sound)
    (hnone : ∀ k, init.get .supportAccessApprovals k = none)
    (hids : ∀ (k : Identifier) (membership : MembershipRow),
      init.get .memberships k = some membership → membership.id = k)
    (hs : Reachable init s) :
    (∀ id call (identity : AuthenticatedTenantIdentity),
      Resolving s id call identity.toResolvedMembershipIdentity →
      identity.role = .supportAgent → ∀ category action purpose now, InDateRange now →
      requireIdentityAuthorization times.parse identity category action purpose now = true →
      ∃ t k row approve, InProgress id t s ∧
        t.committed.get .supportAccessApprovals k = some row ∧ row.revokedAt = none ∧
        approvedEntry approve ∈ t.log ∧ approve.id = k ∧
        row.approvedByOwnerId = approve.owner.actorId ∧
        (∀ listed ∈ row.categories, approve.authorize approve.owner
          ⟨listed, .approve, "vault.support-access.approve"⟩ = true) ∧
        row.supportMembershipId = identity.membershipId ∧ category ∈ row.categories ∧
        row.expiresAt ≤ row.startsAt + fourHours ∧ row.contains now) ∧
    (∀ (s₀ : (supportProtocol times).System) (k : Identifier) (row last : ApprovalRow) id call
      (identity : AuthenticatedTenantIdentity),
      Reachable init s₀ → Later s₀ s → s₀.active id = none →
      s₀.committed.get .supportAccessApprovals k = some row →
      s.committed.get .supportAccessApprovals k = some last → last.revokedAt = none →
      Resolving s id call identity.toResolvedMembershipIdentity →
      identity.role = .supportAgent → row.supportMembershipId = identity.membershipId →
      row.startsAt ≤ call.now → call.now < row.expiresAt →
      ∀ category ∈ row.categories, ∀ purpose now, InDateRange now → row.contains now →
        Entitled times.parse identity category purpose now →
        requireIdentityAuthorization times.parse identity category .read purpose now = true) ∧
    (s.log.filterMap revokedApproval).Nodup := by
  refine ⟨?_, ?_, ((support_invariant hnone).reachable hs).once⟩
  · intro id call identity hresolved hrole category action purpose now hnow hallowed
    obtain ⟨t, k, row, approve, -, hspan, hrow, hunrevoked, hlogged, hid, hpersisted, hmembership,
      hcategory, hcontains⟩ :=
      approval_of_authorized htimes hnone hs hresolved hrole hnow hallowed
    refine ⟨t, k, row, approve, hspan, hrow, hunrevoked, hlogged, hid, ?_, ?_, hmembership,
      hcategory, ?_, hcontains⟩
    · rw [hpersisted.kept.1]
      rfl
    · intro listed hlisted
      rw [hpersisted.kept.1] at hlisted
      exact List.all_eq_true.mp hpersisted.admitted.allowed listed hlisted
    · have hchecked := hpersisted.admitted.checked
      simp only [ApprovalRow.checked, Bool.and_eq_true, decide_eq_true_eq] at hchecked
      exact hchecked.2
  · intro s₀ k row last id call identity hs₀ hlater hfree hrow hlast hunrevoked hresolved hrole
      hmembership hstarted hopen category hcategory purpose now hnow hcontains hentitled
    exact authorized_of_approval htimes hnone hids hs₀ hlater hfree hrow hlast hunrevoked hresolved
      hrole hmembership hstarted hopen hcategory hnow hcontains hentitled

end Resolved

/-! ## An approval that ends within a millisecond -/

/-- The last whole millisecond of the example's window: 2026-08-05T11:00:00.000Z. -/
def exampleEnd : Instant := 1785927600000

/-- The end of the example's window, half a millisecond later. -/
def exampleEndText : String := "2026-08-05T11:00:00.0005Z"

/-- Readings that also know the end of the example's window. -/
def exampleTimes : TimeReadings where
  parse text :=
    if text = exampleEndText then some exampleEnd
    else (parseISOString text).filter (fun instant => decide (InDateRange instant))
  timestamptz text :=
    if text = exampleEndText then some (exampleEnd * 1000 + 500)
    else ((parseISOString text).filter (fun instant => decide (InDateRange instant))).map (· * 1000)

theorem exampleTimes_sound : exampleTimes.Sound where
  written := by
    intro instant hrange
    have hread := parseISOString_toISOString instant
    have hother : toISOString instant ≠ exampleEndText := by
      intro heq
      rw [heq] at hread
      exact absurd hread (by rw [show parseISOString exampleEndText = none from by decide]; simp)
    simp only [exampleTimes, if_neg hother, hread, Option.filter_some, decide_eq_true hrange,
      if_true]
  stored := by
    intro text instant time hparse hstored
    by_cases htext : text = exampleEndText
    · simp only [exampleTimes, if_pos htext, Option.some.injEq] at hstored
      rw [← hstored]
      decide
    · simp only [exampleTimes, if_neg htext] at hparse hstored
      obtain ⟨-, hrange⟩ := Option.filter_eq_some_iff.mp hparse
      rw [hparse, Option.map_some, Option.some.injEq] at hstored
      have htaken : toDate time = instant := by
        rw [← hstored, toDate, Int.mul_ediv_cancel _ (by decide)]
      rw [htaken]
      exact of_decide_eq_true hrange

/-- A support agent's membership and a grant to read. -/
def exampleRows : SupportRows :=
  ((Store.empty : SupportRows).set .permissionGrants "g1"
    (some (⟨"g1", "o1", "h1", "m1", [.insurance], [.read], "released packet", 0, none, none, 1⟩ :
      PermissionGrantRow))).set .memberships "m1"
    (some (⟨"m1", "o1", "h1", "p1", .supportAgent, true, some "u1", 1⟩ : MembershipRow))

/-- The membership is under its id. -/
theorem exampleRows_ids (k : Identifier) (membership : MembershipRow)
    (h : exampleRows.get .memberships k = some membership) : membership.id = k := by
  have hwrite := Store.replaces_write (S := supportSchema) ((Store.empty : SupportRows).set
    .permissionGrants "g1" (some (⟨"g1", "o1", "h1", "m1", [.insurance], [.read],
      "released packet", 0, none, none, 1⟩ : PermissionGrantRow))) (t := .memberships) (k := "m1")
    (v := some (⟨"m1", "o1", "h1", "p1", .supportAgent, true, some "u1", 1⟩ : MembershipRow))
  rcases hwrite.get_cases k with ⟨hk, hnew⟩ | ⟨-, hold⟩
  · obtain rfl := Option.some.inj (hnew.symm.trans h)
    exact hk.symm
  · exact absurd (show none = some membership from hold.symm.trans h) (by simp)

/-- The identity of the owner. -/
def exampleOwner : AuthenticatedTenantIdentity :=
  ⟨⟨"o1", "h1", "p2", "m2", .owner, [], [], []⟩, "", none⟩

/-- An approval from ten to half a millisecond past eleven. -/
def exampleApprove : ApproveCall where
  owner := exampleOwner
  supportMembershipId := "m1"
  reasonCode := "case-1"
  categories := [.insurance]
  startsAt := "2026-08-05T10:00:00.000Z"
  expiresAt := exampleEndText
  authorize := fun _ _ => true
  id := "a1"

/-- The row of the approval. -/
def exampleApproval : ApprovalRow :=
  exampleApprove.row 1785924000000000 (exampleEnd * 1000 + 500)

/-- The agent's identity is resolved within the last half millisecond. -/
def exampleResolve : ResolveCall := ⟨"u1", none, [], exampleEnd * 1000 + 200⟩

/-- The identity of the agent five minutes after signing in. -/
def exampleIdentity : AuthenticatedTenantIdentity where
  organizationId := "o1"
  householdId := "h1"
  actorId := "p1"
  membershipId := "m1"
  role := .supportAgent
  grants := [⟨[.insurance], [.read], "released packet", toISOString 0, none, none⟩]
  supportApprovals := [exampleApproval.approval]
  emergencyReleaseCategories := []
  sessionIssuedAt := toISOString (exampleEnd - 300000)
  mfaVerifiedAt := some (toISOString (exampleEnd - 300000))

/-- The agent has what is needed besides the approval, up to eleven. -/
theorem exampleIdentity_entitled {now : Int} (hlate : 1785927300000 ≤ now)
    (hearly : now ≤ 1785927600000) :
    Entitled exampleTimes.parse exampleIdentity .insurance "released packet" now where
  stated := by decide
  session := by
    refine ⟨exampleEnd - 300000, exampleTimes_sound.written _ (by decide), hlate, ?_⟩
    change now - 1785927300000 ≤ 900000
    omega
  mfa := by
    refine ⟨_, exampleEnd - 300000, rfl, by decide, exampleTimes_sound.written _ (by decide),
      hlate, ?_⟩
    change now - 1785927300000 ≤ 43200000
    omega
  granted := by
    refine ⟨_, List.mem_singleton_self _, rfl, by decide, by decide, ?_⟩
    have hrange : InDateRange now := by
      change -8640000000000000 ≤ now ∧ now ≤ 8640000000000000
      omega
    have hstart := exampleTimes_sound.written 0 (by decide)
    have hnow := exampleTimes_sound.written now hrange
    have hle : notAfter (exampleTimes.parse (toISOString 0))
        (exampleTimes.parse (toISOString now)) = true := by
      refine notAfter_iff.mpr ⟨0, now, hstart, hnow, ?_⟩
      omega
    simp [isGrantActive, hle]

set_option maxRecDepth 20000 in
/-- The approval is persisted and then the agent's identity resolved. -/
theorem example_resolving :
    ∃ s₀ s : (supportProtocol exampleTimes).System, ∃ id, Reachable exampleRows s₀ ∧
      Later s₀ s ∧ s₀.active id = none ∧
      s₀.committed.get .supportAccessApprovals "a1" = some exampleApproval ∧
      s.committed.get .supportAccessApprovals "a1" = some exampleApproval ∧
      Resolving s id exampleResolve exampleIdentity.toResolvedMembershipIdentity := by
  obtain ⟨s₀, hs₀, hidle, heq⟩ :=
    (Reachable.initial : Reachable exampleRows
      ((supportProtocol exampleTimes).initial exampleRows)).sequential (fun _ => rfl)
      (show (supportProtocol exampleTimes).Sequential [] exampleRows [.approve exampleApprove] from
        ⟨trivial, trivial⟩)
  have hcommitted : s₀.committed =
      ((supportProtocol exampleTimes).sequential [] exampleRows [.approve exampleApprove]).2 :=
    congrArg Prod.snd heq
  obtain ⟨s, s', hsilent, hstep, hlog, hsame, -, hlog', -⟩ :=
    System.request hidle (r := SupportRequest.resolve exampleResolve) trivial
  have hrow : s₀.committed.get .supportAccessApprovals "a1" = some exampleApproval := by
    rw [hcommitted]
    rfl
  have hresult : (((supportProtocol exampleTimes).program
      (.resolve exampleResolve)).transact s₀.committed).1 =
        .ok (.identity exampleIdentity.toResolvedMembershipIdentity) := by
    rw [hcommitted]
    rfl
  rw [hresult, ← hlog] at hlog'
  obtain ⟨id, ws, seen, hactive⟩ := hstep.committing_session hlog'
  have hlater : Later s₀ s := Relation.ReflTransGen.mono (fun _ _ h => h.1) _ _ hsilent
  exact ⟨s₀, s, id, hs₀, hlater, hidle id, hrow, hsame ▸ hrow, ws, seen, hactive⟩

/-- At the last whole millisecond of its window the approval is not honoured: the policy has
taken the end of the window down to that very instant. -/
theorem end_within_millisecond_denied :
    ∃ s₀ s : (supportProtocol exampleTimes).System, ∃ id, Reachable exampleRows s₀ ∧
      Later s₀ s ∧ s₀.active id = none ∧
      s₀.committed.get .supportAccessApprovals "a1" = some exampleApproval ∧
      s.committed.get .supportAccessApprovals "a1" = some exampleApproval ∧
      exampleApproval.revokedAt = none ∧
      Resolving s id exampleResolve exampleIdentity.toResolvedMembershipIdentity ∧
      exampleIdentity.role = .supportAgent ∧
      exampleApproval.supportMembershipId = exampleIdentity.membershipId ∧
      exampleApproval.startsAt ≤ exampleResolve.now ∧
      exampleResolve.now < exampleApproval.expiresAt ∧
      RecordCategory.insurance ∈ exampleApproval.categories ∧
      exampleApproval.startsAt ≤ exampleEnd * 1000 ∧
      exampleEnd * 1000 < exampleApproval.expiresAt ∧
      Entitled exampleTimes.parse exampleIdentity .insurance "released packet" exampleEnd ∧
      requireIdentityAuthorization exampleTimes.parse exampleIdentity .insurance .read
        "released packet" exampleEnd = false := by
  obtain ⟨s₀, s, id, hs₀, hlater, hfree, hrow, hlast, hresolving⟩ := example_resolving
  refine ⟨s₀, s, id, hs₀, hlater, hfree, hrow, hlast, rfl, hresolving, rfl, rfl, by decide,
    by decide, List.mem_singleton_self _, by decide, by decide,
    exampleIdentity_entitled (by decide) (by decide), ?_⟩
  rw [Bool.eq_false_iff]
  intro hallowed
  obtain ⟨approval, hmem, happroves⟩ :=
    approved_of_authorized exampleTimes_sound (by decide) rfl hallowed
  obtain rfl : approval = exampleApproval.approval := List.mem_singleton.mp hmem
  have hend := exampleTimes_sound.written (toDate exampleApproval.expiresAt) (by decide)
  simp only [approves, Bool.and_eq_true] at happroves
  obtain ⟨closing, instant, hclosing, hinstant, hlt⟩ := isAfter_iff.mp happroves.1.2
  obtain rfl := Option.some.inj (hend.symm.trans hclosing)
  obtain rfl := Option.some.inj hinstant
  exact absurd hlt (by decide)

theorem support_access_lifecycle_example :
    ∃ s : (supportProtocol exampleTimes).System,
      requireIdentityAuthorization exampleTimes.parse exampleIdentity .insurance .read
        "released packet" (exampleEnd - 1) = true ∧
      (s.log.filterMap revokedApproval).Nodup := by
  obtain ⟨s₀, s, id, hs₀, hlater, hfree, hrow, hlast, hresolving⟩ := example_resolving
  have hnone : ∀ k, exampleRows.get .supportAccessApprovals k = none := fun _ => rfl
  obtain ⟨-, hhonoured, honce⟩ := support_access_lifecycle exampleTimes_sound hnone
    exampleRows_ids (hs₀.later hlater)
  exact ⟨s, hhonoured s₀ "a1" exampleApproval exampleApproval id exampleResolve exampleIdentity hs₀
    hlater hfree hrow hlast rfl hresolving rfl rfl (by decide) (by decide) .insurance
    (List.mem_singleton_self _) "released packet" (exampleEnd - 1) (by decide)
    ⟨by decide, by decide⟩ (exampleIdentity_entitled (by decide) (by decide)), honce⟩

end LegacyVault.SupportAccess
