import LegacyVault.Billing
import LegacyVault.Library.Buffers
import LegacyVault.Library.EcmaConversions
import LegacyVault.Library.HexText
import LegacyVault.Library.ParsedValues

/-!
# Stripe webhooks

What the webhook route makes of a delivery: the signature header with its
timestamp, the digest of timestamp and payload, the event in the payload, and
the call of the repository that the event is normalized to. A delivery that is
accepted has the digest of exactly its timestamp and its payload.

The digest of a key is a parameter. So is what becomes of an event whose
identifier is no text or whose time is no natural number.
-/

namespace LegacyVault

open Buffers EcmaText EcmaValues HexText JsonText

/-! ## The signature -/

/-- A part of the header, split at its first two equals signs. -/
def headerEntry (part : List Char) : List Char × Option (List Char) :=
  match part.splitOn '=' with
  | [] => ([], none)
  | key :: values => (key, values.head?)

/-- The entries of a signature header. -/
def headerEntries (signatureHeader : String) : List (List Char × Option (List Char)) :=
  (signatureHeader.toList.splitOn ',').map headerEntry

/-- `Number.isSafeInteger`, of a finite number. -/
def safeInteger? (value : ℚ) : Option Int :=
  if value.den = 1 ∧ value.num.natAbs ≤ 9007199254740991 then some value.num else none

/-- The timestamp of a signature header. -/
def headerTimestamp (signatureHeader : String) : Option Int := do
  let entry ← (headerEntries signatureHeader).find? (fun entry => entry.1 = ['t'])
  let text ← entry.2
  let value ← finiteNumber? (String.ofList text)
  safeInteger? value

/-- The signatures of a header, as their bytes. -/
def headerSignatures (signatureHeader : String) : List Bytes :=
  (headerEntries signatureHeader).filterMap (fun entry =>
    (entry.2.filter (fun value => decide (entry.1 = ['v', '1']) && decide (value.length = 64) &&
      value.all isUuidDigit)).map (fun value => fromHex (String.ofList value)))

/-- The text of an integer. -/
def integerText : Int → List Char
  | .ofNat n => Nat.toDigits 10 n
  | .negSucc n => '-' :: Nat.toDigits 10 (n + 1)

/-- What is signed of a payload. -/
def signedPayload (timestamp : Int) (payload : Bytes) : Bytes :=
  utf8 (String.ofList (integerText timestamp)) ++ utf8 "." ++ payload

/-- The characters of an integer are ASCII, and no point is among them. -/
theorem integerText_plain (n : Int) : ∀ c ∈ integerText n, c.toNat < 128 ∧ c.toNat ≠ 46 := by
  have hdigit : ∀ {m : Nat}, ∀ c ∈ Nat.toDigits 10 m, c.toNat < 128 ∧ c.toNat ≠ 46 := by
    intro m c hc
    have hdigit := Nat.isDigit_of_mem_toDigits (by decide) (by decide) hc
    obtain ⟨hlow, hhigh⟩ : 48 ≤ c.toNat ∧ c.toNat ≤ 57 := by
      simpa [Char.isDigit, UInt32.le_iff_toNat_le] using hdigit
    omega
  cases n with
  | ofNat m => exact hdigit
  | negSucc m => exact List.forall_mem_cons.mpr ⟨by decide, hdigit⟩

theorem integerText_injective : Function.Injective integerText := by
  have hdigits : ∀ {a b : Nat}, Nat.toDigits 10 a = Nat.toDigits 10 b → a = b := by
    intro a b h
    rw [← Nat.ofDigitChars_ten_toDigits (n := a), h, Nat.ofDigitChars_ten_toDigits]
  have hminus : ∀ {m : Nat}, '-' ∉ Nat.toDigits 10 m := fun h =>
    absurd (Nat.isDigit_of_mem_toDigits (by decide) (by decide) h) (by decide)
  intro a b h
  cases a <;> cases b <;> simp only [integerText] at h
  · rw [hdigits h]
  · exact absurd (h ▸ List.mem_cons_self) hminus
  · exact absurd (h ▸ List.mem_cons_self) hminus
  · rw [Nat.succ.inj (hdigits (List.cons.inj h).2)]

/-- No point is among the bytes of a timestamp. -/
theorem point_notMem_timestamp (n : Int) : (46 : UInt8) ∉ utf8 (String.ofList (integerText n)) := by
  rw [utf8_ofList]
  intro hmem
  obtain ⟨c, hc, hbyte⟩ := List.mem_flatMap.mp hmem
  obtain ⟨hascii, hpoint⟩ := integerText_plain n c hc
  rw [utf8EncodeChar_ascii hascii, List.mem_singleton] at hbyte
  have hvalue := congrArg UInt8.toNat hbyte
  rw [UInt8.toNat_ofNat'] at hvalue
  have h46 : (46 : UInt8).toNat = 46 := rfl
  omega

/-- The point ends the timestamp: a signed payload is signed with one timestamp only. -/
theorem signedPayload_inj {timestamp timestamp' : Int} {payload payload' : Bytes}
    (h : signedPayload timestamp payload = signedPayload timestamp' payload') :
    timestamp = timestamp' ∧ payload = payload' := by
  have hpoint : utf8 "." = [46] := rfl
  have htake : ∀ (n : Int) (rest : Bytes),
      (signedPayload n rest).takeWhile (· ≠ 46) = utf8 (String.ofList (integerText n)) := by
    intro n rest
    rw [signedPayload, hpoint, List.append_assoc, List.takeWhile_append_of_pos]
    · simp
    · intro byte hbyte
      exact decide_eq_true (fun h46 => point_notMem_timestamp n (h46 ▸ hbyte))
  have htext : utf8 (String.ofList (integerText timestamp)) =
      utf8 (String.ofList (integerText timestamp')) := by
    rw [← htake timestamp payload, h, htake]
  obtain rfl : timestamp = timestamp' :=
    integerText_injective (String.ofList_injective (utf8_injective htext))
  exact ⟨rfl, List.append_cancel_left h⟩

/-! ## The event -/

/-- A call of the repository for an event. -/
inductive BillingCall where
  | subscription (context : TenantContext) (event : NormalizedBillingEvent)
  | refund (context : TenantContext) (event : NormalizedRefundEvent)
  deriving DecidableEq

/-- The identifier of the event of a call. -/
def BillingCall.externalEventId : BillingCall → String
  | subscription _ event => event.externalEventId
  | refund _ event => event.externalEventId

/-- What `verifyWebhook` returns. -/
structure VerifiedEvent where
  id : Value
  type : Value
  created : Value
  data : Option Value

/-- `StripeAdapter` with its configuration, and what it computes with. -/
structure StripeAdapter where
  webhookSecret : String
  /-- `createHmac("sha256", secret)`, of some bytes. -/
  hmac : String → Bytes → Bytes
  /-- The double of a number in a JSON text. -/
  double : NumberLiteral → Number
  /-- The text of bytes that are not well formed. -/
  replaced : Bytes → String
  /-- What an event is normalized to whose identifier is no text, or whose time is no natural
  number. -/
  untyped : VerifiedEvent → Except String (Option BillingCall)

/-- The event in a payload. -/
def StripeAdapter.readEvent (adapter : StripeAdapter) (payload : Bytes) :
    Except String VerifiedEvent :=
  match parseJson adapter.double (fromUtf8 adapter.replaced payload) with
  | none => .error "Unexpected token"
  | some event =>
    match readMember "id" (some event), readMember "type" (some event),
        readMember "created" (some event) with
    | some id, some type, some created =>
      if id.truthy && type.truthy && created.truthy then
        .ok ⟨id, type, created, readMember "data" (some event)⟩
      else .error "Stripe webhook event invalid"
    | _, _, _ => .error "Stripe webhook event invalid"

/-- `verifyWebhook`. -/
def StripeAdapter.verifyWebhook (adapter : StripeAdapter) (payload : Bytes)
    (signatureHeader : String) (nowSeconds : Int) : Except String VerifiedEvent :=
  if adapter.webhookSecret = "" then .error "Stripe webhook is not configured"
  else
    match headerTimestamp signatureHeader with
    | none => .error "Stripe webhook signature timestamp invalid"
    | some timestamp =>
      if headerSignatures signatureHeader = [] ∨ 300 < (nowSeconds - timestamp).natAbs then
        .error "Stripe webhook signature timestamp invalid"
      else if adapter.hmac adapter.webhookSecret (signedPayload timestamp payload) ∈
          headerSignatures signatureHeader then adapter.readEvent payload
      else .error "Stripe webhook signature invalid"

/-! ## Normalized events -/

/-- `value && typeof value === "object"`. -/
def isObject : Value → Bool
  | .arr _ => true
  | .obj _ => true
  | _ => false

/-- The object of the data of an event. -/
def eventObject (kind : String) (data : Option Value) : Except String Value :=
  match data.filter isObject with
  | none => .error ("Stripe " ++ kind ++ " event data invalid")
  | some data =>
    match (readMember "object" (some data)).filter isObject with
    | none => .error ("Stripe " ++ kind ++ " object invalid")
    | some object => .ok object

/-- A member that is a text. -/
def textMember (name : String) (object : Option Value) : Option String :=
  match readMember name object with
  | some (.str text) => some text
  | _ => none

/-- A number that is safe, if any. One that is negative is refused like one that is not safe. -/
def stripeNumber : Option Value → StripeNumber
  | none => none
  | some .null => none
  | some (.num n) => some ((n.natValue?.filter (· ≤ 9007199254740991)).map Int.ofNat)
  | some _ => some none

/-- The members of a subscription that are read. -/
def readSubscription (object : Value) : StripeSubscription :=
  let metadata := readMember "metadata" (some object)
  { legacyOrganizationId := textMember "legacy_organization_id" metadata
    legacyHouseholdId := textMember "legacy_household_id" metadata
    legacyPlan := textMember "legacy_plan" metadata
    id := textMember "id" (some object)
    customer := textMember "customer" (some object)
    status := textMember "status" (some object)
    trialEnd := stripeNumber (readMember "trial_end" (some object))
    currentPeriodEnd := stripeNumber (readMember "current_period_end" (some object))
    cancelAtPeriodEnd := match readMember "cancel_at_period_end" (some object) with
      | some (.bool value) => value
      | _ => false
    canceledAt := stripeNumber (readMember "canceled_at" (some object)) }

/-- The identifier and the time of an event. -/
def VerifiedEvent.typed (event : VerifiedEvent) : Option (String × Nat) :=
  match event.id, event.created with
  | .str id, .num created => created.natValue?.map (fun created => (id, created))
  | _, _ => none

/-- `normalizeSubscriptionEvent`, of a verified event. -/
def StripeAdapter.normalizeSubscription (adapter : StripeAdapter) (event : VerifiedEvent) :
    Except String (Option BillingCall) :=
  match event.type with
  | .str type =>
    if type ∉ ["customer.subscription.created", "customer.subscription.updated",
        "customer.subscription.deleted"] then .ok none
    else do
      let object ← eventObject "subscription" event.data
      match event.typed with
      | none => adapter.untyped event
      | some (id, created) =>
        let normalized ← normalizeSubscriptionEvent ⟨id, type, created, readSubscription object⟩
        return normalized.map (fun call => .subscription call.1 call.2)
  | _ => .ok none

/-- `/^re_[A-Za-z0-9]+$/u`. -/
def isRefundId (text : String) : Bool :=
  match text.toList with
  | 'r' :: 'e' :: '_' :: rest => rest != [] && rest.all Char.isAlphanum
  | _ => false

/-- `/^[a-z]{3}$/u`. -/
def isCurrency (text : String) : Bool :=
  text.toList.length == 3 && text.toList.all (fun c => 'a' ≤ c && c ≤ 'z')

/-- A member that is missing, `null` or a text. -/
def isNullableText : Option Value → Bool
  | none => true
  | some .null => true
  | some (.str _) => true
  | _ => false

/-- The statuses of a refund that are let in. -/
def allowedRefundStatus : String → Option RefundStatus
  | "pending" => some .pending
  | "requires_action" => some .requiresAction
  | "succeeded" => some .succeeded
  | "failed" => some .failed
  | "canceled" => some .canceled
  | _ => none

/-- An amount: a safe integer, and at least one. -/
def refundAmount : Option Value → Option { amount : Nat // 0 < amount }
  | some (.num n) => n.natValue?.bind fun value =>
    if h : 0 < value ∧ value ≤ 9007199254740991 then some ⟨value, h.1⟩ else none
  | _ => none

/-- The refund of an event. -/
def readRefund (id type : String) (created : Nat) (object : Value) :
    Except String (TenantContext × NormalizedRefundEvent) :=
  let metadata := readMember "metadata" (some object)
  match textMember "legacy_organization_id" metadata, textMember "legacy_household_id" metadata,
      textMember "id" (some object), refundAmount (readMember "amount" (some object)),
      textMember "currency" (some object),
      (textMember "status" (some object)).bind allowedRefundStatus with
  | some organizationId, some householdId, some refundId, some amount, some currency,
      some status =>
    if isStripeUuid organizationId && isStripeUuid householdId && isRefundId refundId &&
        isNullableText (readMember "charge" (some object)) && isCurrency currency &&
        isNullableText (readMember "reason" (some object)) then do
      let providerUpdatedAt ← isoSeconds created
      return (stripeContext organizationId householdId,
        ⟨id, type, providerUpdatedAt.1, refundId, textMember "charge" (some object), amount.1,
          currency, textMember "reason" (some object), status, amount.2⟩)
    else .error "Stripe refund metadata invalid"
  | _, _, _, _, _, _ => .error "Stripe refund metadata invalid"

/-- `normalizeRefundEvent`. -/
def StripeAdapter.normalizeRefund (adapter : StripeAdapter) (event : VerifiedEvent) :
    Except String (Option BillingCall) :=
  match event.type with
  | .str type =>
    if type ∉ ["refund.created", "refund.updated", "refund.failed"] then .ok none
    else do
      let object ← eventObject "refund" event.data
      match event.typed with
      | none => adapter.untyped event
      | some (id, created) =>
        let refund ← readRefund id type created object
        return some (.refund refund.1 refund.2)
  | _ => .ok none

/-- What the route calls the repository with for an event, if it is one that is processed. -/
def StripeAdapter.normalize (adapter : StripeAdapter) (event : VerifiedEvent) :
    Except String (Option BillingCall) := do
  match ← adapter.normalizeSubscription event with
  | some call => return some call
  | none => adapter.normalizeRefund event

/-- What the route makes of a delivery, before it calls the repository. -/
def StripeAdapter.receive (adapter : StripeAdapter) (payload : Bytes) (signatureHeader : String)
    (nowSeconds : Int) : Except String (Option BillingCall) := do
  let event ← adapter.verifyWebhook payload signatureHeader nowSeconds
  adapter.normalize event

/-- The call for the event in a payload. -/
def StripeAdapter.callOf (adapter : StripeAdapter) (payload : Bytes) :
    Except String (Option BillingCall) := do
  let event ← adapter.readEvent payload
  adapter.normalize event

/-- A delivery that is accepted is one of a timestamp not long ago, and has the digest of the
timestamp and the payload. -/
theorem StripeAdapter.verifyWebhook_ok {adapter : StripeAdapter} {payload : Bytes}
    {signatureHeader : String} {nowSeconds : Int} {event : VerifiedEvent}
    (h : adapter.verifyWebhook payload signatureHeader nowSeconds = .ok event) :
    ∃ timestamp, headerTimestamp signatureHeader = some timestamp ∧
      (nowSeconds - timestamp).natAbs ≤ 300 ∧
      adapter.hmac adapter.webhookSecret (signedPayload timestamp payload) ∈
        headerSignatures signatureHeader ∧
      adapter.readEvent payload = .ok event := by
  rw [verifyWebhook] at h
  split at h
  · exact absurd h (by simp)
  · cases htimestamp : headerTimestamp signatureHeader with
    | none =>
      rw [htimestamp] at h
      exact absurd h (by simp)
    | some timestamp =>
      simp only [htimestamp] at h
      split at h
      · exact absurd h (by simp)
      · rename_i hfresh
        split at h
        · rename_i hdigest
          exact ⟨timestamp, rfl, by omega, hdigest, h⟩
        · exact absurd h (by simp)

/-- A delivery with the digest of its timestamp and its payload is accepted, not long before or
after. -/
theorem StripeAdapter.receive_eq {adapter : StripeAdapter} {payload : Bytes}
    {signatureHeader : String} {nowSeconds timestamp : Int} (hsecret : adapter.webhookSecret ≠ "")
    (htimestamp : headerTimestamp signatureHeader = some timestamp)
    (hfresh : (nowSeconds - timestamp).natAbs ≤ 300)
    (hdigest : adapter.hmac adapter.webhookSecret (signedPayload timestamp payload) ∈
      headerSignatures signatureHeader) :
    adapter.receive payload signatureHeader nowSeconds = adapter.callOf payload := by
  have hsome : headerSignatures signatureHeader ≠ [] := List.ne_nil_of_mem hdigest
  have hverified : adapter.verifyWebhook payload signatureHeader nowSeconds =
      adapter.readEvent payload := by
    rw [verifyWebhook, if_neg hsecret, htimestamp]
    simp only [hsome, false_or, Nat.not_lt.mpr hfresh, if_false, if_pos hdigest]
  rw [receive, callOf, hverified]

/-- The call is that of the event in the payload. -/
theorem StripeAdapter.receive_ok {adapter : StripeAdapter} {payload : Bytes}
    {signatureHeader : String} {nowSeconds : Int} {call : Option BillingCall}
    (h : adapter.receive payload signatureHeader nowSeconds = .ok call) :
    ∃ timestamp, (nowSeconds - timestamp).natAbs ≤ 300 ∧
      adapter.hmac adapter.webhookSecret (signedPayload timestamp payload) ∈
        headerSignatures signatureHeader ∧
      adapter.callOf payload = .ok call := by
  cases hverified : adapter.verifyWebhook payload signatureHeader nowSeconds with
  | error message =>
    rw [receive, hverified] at h
    exact absurd h (by simp [Bind.bind, Except.bind])
  | ok event =>
    obtain ⟨timestamp, -, hfresh, hdigest, hevent⟩ := verifyWebhook_ok hverified
    refine ⟨timestamp, hfresh, hdigest, ?_⟩
    rw [receive, hverified] at h
    rw [callOf, hevent]
    exact h

end LegacyVault
