import LegacyVault.Library.FramedStreams

/-!
# Scanning a document

`ClamAvScanner.scan` sends a document to the scanning daemon over a connection
of its own: a command, the document in chunks of 64 KiB, and an empty chunk. It
reads the verdict when the connection closes. The bytes of either direction
arrive in any pieces, and the connection may fail or close at any moment.

The daemon is outside of this program. What is relied on is that it gives a
verdict on what it was sent only once it has been sent all of it.
-/

namespace LegacyVault

open Buffers EcmaText FramedStreams

/-! ## The request -/

/-- The bytes of a chunk. -/
def chunkBytes : Nat := 64 * 1024

/-- The chunks of the document from an offset on. -/
def scanChunks (bytes : Bytes) (offset : Nat) : List Bytes :=
  if offset < bytes.length then
    (bytes.drop offset).take chunkBytes :: scanChunks bytes (offset + chunkBytes)
  else []
termination_by bytes.length - offset
decreasing_by
  have hpositive : 0 < chunkBytes := by decide
  omega

/-- What is written to the connection. -/
def scanRequest (bytes : Bytes) : Bytes := utf8 "zINSTREAM\x00" ++ framed (scanChunks bytes 0)

/-- The chunks are the document. -/
theorem flatten_scanChunks (bytes : Bytes) (offset : Nat) :
    (scanChunks bytes offset).flatten = bytes.drop offset := by
  induction offset using scanChunks.induct bytes with
  | case1 offset hmore ih =>
    rw [scanChunks, if_pos hmore, List.flatten_cons, ih, ← List.drop_drop, List.take_append_drop]
  | case2 offset hend =>
    rw [scanChunks, if_neg hend, List.flatten_nil, List.drop_of_length_le (Nat.le_of_not_lt hend)]

/-- No chunk is empty or too long for its length. -/
theorem scanChunks_bounded (bytes : Bytes) (offset : Nat) :
    ∀ chunk ∈ scanChunks bytes offset, chunk ≠ [] ∧ chunk.length < 4294967296 := by
  induction offset using scanChunks.induct bytes with
  | case1 offset hmore ih =>
    have hbytes : chunkBytes = 65536 := rfl
    have hlength : ((bytes.drop offset).take chunkBytes).length =
        min chunkBytes (bytes.length - offset) := by
      rw [List.length_take, List.length_drop]
    rw [scanChunks, if_pos hmore]
    refine List.forall_mem_cons.mpr ⟨⟨List.ne_nil_of_length_pos ?_, ?_⟩, ih⟩ <;> omega
  | case2 offset hend =>
    rw [scanChunks, if_neg hend]
    exact List.forall_mem_nil _

/-! ## The verdict -/

/-- `MalwareScanResult`. -/
inductive MalwareScanResult where
  | clean
  | infected (signature : String)
  deriving DecidableEq

/-- A character that `.` does not match. -/
def isLineTerminator (c : Char) : Bool := ['\n', '\r', '\u2028', '\u2029'].contains c

/-- The group of `/^stream: (.+) FOUND$/`. -/
def foundSignature (message : String) : Option String :=
  let text := message.toList
  let signature := (text.drop 8).take (text.length - 14)
  if "stream: ".toList <+: text ∧ " FOUND".toList <:+ text ∧ signature ≠ [] ∧
      signature.all (fun c => !isLineTerminator c) = true then
    some (String.ofList signature)
  else none

/-- The text of a response, as `scan` reads it. -/
def responseMessage (replaced : Bytes → String) (response : Bytes) : String :=
  trim (String.ofList ((fromUtf8 replaced response).toList.filter (· ≠ '\x00')))

/-- What `scan` makes of a message. -/
def messageResult (message : String) : Except String MalwareScanResult :=
  match foundSignature message with
  | some signature => .ok (.infected signature)
  | none =>
    if message = "stream: OK" then .ok .clean
    else .error ("ClamAV returned an invalid response: " ++
      if message = "" then "empty" else message)

/-- What `scan` makes of the response when the connection has closed. -/
def scanResult (replaced : Bytes → String) (response : Bytes) :
    Except String MalwareScanResult :=
  messageResult (responseMessage replaced response)

theorem messageResult_found {message signature : String}
    (h : foundSignature message = some signature) :
    messageResult message = .ok (.infected signature) := by
  rw [messageResult, h]

theorem messageResult_ok : messageResult "stream: OK" = .ok .clean := by
  have hnone : foundSignature "stream: OK" = none := by decide +kernel
  rw [messageResult, hnone]
  exact if_pos rfl

theorem messageResult_other {message : String} (hfound : foundSignature message = none)
    (hok : message ≠ "stream: OK") : ∃ text, messageResult message = .error text := by
  rw [messageResult, hfound]
  exact ⟨_, if_neg hok⟩

/-! ## What the daemon replies -/

/-- The name of a signature: a text of one line. -/
structure SignatureName where
  text : String
  nonempty : text.toList ≠ []
  noNul : '\x00' ∉ text.toList
  oneLine : ∀ c ∈ text.toList, isLineTerminator c = false

/-- The verdict on some bytes: the signature that was found in them. -/
abbrev Engine := Bytes → Option SignatureName

/-- The result of a scan with this verdict. -/
def verdictResult : Option SignatureName → MalwareScanResult
  | none => .clean
  | some signature => .infected signature.text

/-- The reply with a verdict. -/
def verdictReply : Option SignatureName → Bytes
  | none => utf8 "stream: OK\x00"
  | some signature => utf8 ("stream: " ++ signature.text ++ " FOUND\x00")

/-- The reply of a daemon that gives no verdict. -/
def IsFailure (reply : Bytes) : Prop := ∃ text, reply = utf8 (text ++ " ERROR\x00")

/-- The daemon was sent all of the data. -/
def IsInstream (received data : Bytes) : Prop :=
  ∃ body, received = utf8 "zINSTREAM\x00" ++ body ∧ unframe body = some (data, [])

/-- The daemon gives the verdict of the engine, on data that it was sent all of. -/
def SpeaksInstream (engine : Engine) (replies : Bytes → Bytes → Prop) : Prop :=
  ∀ received reply, replies received reply →
    (∃ data, IsInstream received data ∧ reply = verdictReply (engine data)) ∨ IsFailure reply

/-- A daemon that has been sent a part of the request has been sent the document when it has been
sent all of it. -/
theorem isInstream_request {bytes received data : Bytes} (hpart : received <+: scanRequest bytes)
    (h : IsInstream received data) : received = scanRequest bytes ∧ data = bytes := by
  obtain ⟨body, rfl, hread⟩ := h
  have hbody : body <+: framed (scanChunks bytes 0) := (List.prefix_append_right_inj _).mp hpart
  obtain ⟨rfl, rfl, -⟩ := unframe_incomplete (scanChunks_bounded bytes 0) hbody hread
  exact ⟨rfl, by rw [flatten_scanChunks, List.drop_zero]⟩

section Replies

variable (replaced : Bytes → String)

theorem dropWhile_concat_neg {α : Type} {p : α → Bool} (l : List α) {a : α} (h : p a = false) :
    (l ++ [a]).dropWhile p = l.dropWhile p ++ [a] := by
  induction l with
  | nil => simp [h]
  | cons b l ih =>
    by_cases hb : p b = true
    · rw [List.cons_append, List.dropWhile_cons_of_pos hb, List.dropWhile_cons_of_pos hb, ih]
    · rw [List.cons_append, List.dropWhile_cons_of_neg hb, List.dropWhile_cons_of_neg hb,
        List.cons_append]

/-- Trimming keeps a last character that is no space. -/
theorem toList_trim_concat {text : String} {l : List Char} {c : Char}
    (htext : text.toList = l ++ [c]) (hc : isSpace c = false) :
    (trim text).toList = l.dropWhile isSpace ++ [c] := by
  rw [trim, String.toList_ofList, htext, dropWhile_concat_neg l hc,
    List.rdropWhile_concat_neg _ _ _ (by simp [hc])]

/-- The message of a reply with a verdict. -/
theorem toList_responseMessage_found (signature : SignatureName) :
    (responseMessage replaced (verdictReply (some signature))).toList =
      "stream: ".toList ++ (signature.text.toList ++ " FOUND".toList) := by
  have hname : signature.text.toList.filter (· ≠ '\x00') = signature.text.toList :=
    List.filter_eq_self.mpr (fun c hc => by
      simp only [decide_eq_true_eq]
      exact fun hnul => signature.noNul (hnul ▸ hc))
  have hfiltered : (String.ofList ((fromUtf8 replaced (verdictReply (some signature))).toList.filter
      (· ≠ '\x00'))).toList = ("stream: ".toList ++ (signature.text.toList ++ " FOUN".toList)) ++
        ['D'] := by
    rw [verdictReply, fromUtf8_utf8, String.toList_ofList]
    simp only [String.toList_append, List.filter_append, hname, List.append_assoc]
    rfl
  rw [responseMessage, toList_trim_concat hfiltered (by decide)]
  have hstarts :
      ("stream: ".toList ++ (signature.text.toList ++ " FOUN".toList)).dropWhile isSpace =
        "stream: ".toList ++ (signature.text.toList ++ " FOUN".toList) :=
    List.dropWhile_cons_of_neg (by decide)
  rw [hstarts, List.append_assoc, List.append_assoc]
  rfl

/-- The signature is read back from the message. -/
theorem foundSignature_found {message : String} (signature : SignatureName)
    (h : message.toList = "stream: ".toList ++ (signature.text.toList ++ " FOUND".toList)) :
    foundSignature message = some signature.text := by
  have hname : (message.toList.drop 8).take (message.toList.length - 14) =
      signature.text.toList := by
    have hlength : message.toList.length - 14 = signature.text.toList.length := by
      rw [h, List.length_append, List.length_append]
      have hfirst : "stream: ".toList.length = 8 := rfl
      have hlast : " FOUND".toList.length = 6 := rfl
      omega
    have hdrop : ("stream: ".toList ++ (signature.text.toList ++ " FOUND".toList)).drop 8 =
        signature.text.toList ++ " FOUND".toList := List.drop_left' rfl
    rw [hlength, h, hdrop, List.take_left]
  have hline : signature.text.toList.all (fun c => !isLineTerminator c) = true :=
    List.all_eq_true.mpr (fun c hc => by simp [signature.oneLine c hc])
  rw [foundSignature]
  simp only [hname]
  rw [if_pos ⟨h ▸ List.prefix_append _ _,
    h ▸ (List.append_assoc _ _ _ ▸ List.suffix_append _ _), signature.nonempty, hline⟩,
    String.ofList_toList]

/-- A reply with a verdict is read as the verdict. -/
theorem scanResult_verdict (verdict : Option SignatureName) :
    scanResult replaced (verdictReply verdict) = .ok (verdictResult verdict) := by
  rw [scanResult]
  cases verdict with
  | none =>
    have hmessage : responseMessage replaced (verdictReply none) = "stream: OK" := by
      rw [responseMessage, verdictReply, fromUtf8_utf8]
      decide +kernel
    rw [hmessage]
    exact messageResult_ok
  | some signature =>
    exact messageResult_found
      (foundSignature_found signature (toList_responseMessage_found replaced signature))

/-- A message whose last character is neither that of a signature nor that of a clean verdict is
refused. -/
theorem messageResult_last {message : String} {l : List Char} (h : message.toList = l ++ ['R']) :
    ∃ text, messageResult message = .error text := by
  have hlast : ∀ {rest : List Char} {c : Char}, rest ++ [c] <:+ message.toList → c = 'R' := by
    rintro rest c ⟨first, hfirst⟩
    rw [h, ← List.append_assoc] at hfirst
    exact List.singleton_inj.mp (List.append_inj_right' hfirst rfl)
  refine messageResult_other ?_ ?_
  · rw [foundSignature]
    refine if_neg (fun hmatches => ?_)
    have hsuffix : " FOUN".toList ++ ['D'] <:+ message.toList := hmatches.2.1
    exact absurd (hlast hsuffix) (by decide)
  · intro hmessage
    have hsuffix : "stream: O".toList ++ ['K'] <:+ message.toList := by
      rw [hmessage]
      exact List.suffix_refl _
    exact absurd (hlast hsuffix) (by decide)

/-- Any other reply is refused. -/
theorem scanResult_failure {reply : Bytes} (h : IsFailure reply) :
    ∃ message, scanResult replaced reply = .error message := by
  obtain ⟨text, rfl⟩ := h
  have hfiltered : (String.ofList ((fromUtf8 replaced (utf8 (text ++ " ERROR\x00"))).toList.filter
      (· ≠ '\x00'))).toList = (text.toList.filter (· ≠ '\x00') ++ " ERRO".toList) ++ ['R'] := by
    rw [fromUtf8_utf8, String.toList_ofList, String.toList_append, List.filter_append,
      List.append_assoc]
    rfl
  rw [scanResult, responseMessage]
  exact messageResult_last (toList_trim_concat hfiltered (by decide))

/-- Nothing is no verdict. -/
theorem scanResult_nil : ∃ message, scanResult replaced [] = .error message := by
  have hmessage : responseMessage replaced [] = "" := by
    have hread : fromUtf8 replaced (utf8 "") = "" := fromUtf8_utf8 replaced ""
    rw [responseMessage, show ([] : Bytes) = utf8 "" from rfl, hread]
    decide +kernel
  rw [scanResult, hmessage]
  exact messageResult_other (by decide +kernel) (by decide)

end Replies

/-! ## The connection -/

/-- Where the promise of a scan stands. -/
inductive ScanState where
  | connecting
  | receiving (response : List Bytes)
  | settled (result : Except String MalwareScanResult)

/-- A scan, its connection and the daemon at the other end. -/
structure Connection where
  client : ScanState
  /-- What the client has written. -/
  sent : Bytes
  /-- What has arrived of it. -/
  received : Bytes
  /-- What the daemon has replied. -/
  reply : Option Bytes
  /-- There was an error, or the timer ran out. -/
  failed : Bool

/-- The scan is not settled. -/
def Connection.Pending (c : Connection) : Prop := ∀ result, c.client ≠ .settled result

/-- A call of `scan`. -/
def Connection.initial (bytes : Bytes) : Connection where
  client := if bytes = [] then .settled (.error "document is empty") else .connecting
  sent := []
  received := []
  reply := none
  failed := false

section Scan

variable {replaced : Bytes → String} {bytes : Bytes} {replies : Bytes → Bytes → Prop}
  {engine : Engine} {c c' : Connection}

variable (replaced bytes replies) in
/-- What can happen next. The parts of either direction arrive in order. -/
inductive ScanStep : Connection → Connection → Prop
  /-- The connection is there, and the whole request is written to it. -/
  | connect {c : Connection} (hclient : c.client = .connecting) :
      ScanStep c { c with client := .receiving [], sent := scanRequest bytes }
  /-- Some more of the request arrives. -/
  | arrive {c : Connection} (part : Bytes) (hpart : c.received ++ part <+: c.sent) :
      ScanStep c { c with received := c.received ++ part }
  /-- The daemon replies. -/
  | reply {c : Connection} {reply : Bytes} (hpending : c.Pending) (hnone : c.reply = none)
      (hreply : replies c.received reply) : ScanStep c { c with reply := some reply }
  /-- Some more of the reply arrives. -/
  | data {c : Connection} {response : List Bytes} {reply : Bytes} (part : Bytes)
      (hclient : c.client = .receiving response) (hreply : c.reply = some reply)
      (hpart : (response ++ [part]).flatten <+: reply) :
      ScanStep c { c with client := .receiving (response ++ [part]) }
  /-- The connection closes, after all that the daemon has replied. -/
  | close {c : Connection} {response : List Bytes} (hclient : c.client = .receiving response)
      (hwhole : ∀ reply, c.reply = some reply → response.flatten = reply) :
      ScanStep c { c with client := .settled (scanResult replaced response.flatten) }
  /-- The connection fails, or the timer runs out. -/
  | fail {c : Connection} (message : String) (hpending : c.Pending) :
      ScanStep c { c with client := .settled (.error message), failed := true }

variable (replaced bytes replies) in
/-- What a call of `scan` can come to. -/
def ScanReaches (c : Connection) : Prop :=
  Relation.ReflTransGen (ScanStep replaced bytes replies) (Connection.initial bytes) c

/-- A result of what has come of the reply, or a failure. -/
def SettledBy (replaced : Bytes → String) (bytes : Bytes) (c : Connection)
    (result : Except String MalwareScanResult) : Prop :=
  ((bytes = [] ∨ c.failed = true) ∧ ∃ message, result = .error message) ∨
    result = scanResult replaced (c.reply.getD [])

/-- What holds of a scan. -/
structure ScanInvariant (replaced : Bytes → String) (bytes : Bytes) (engine : Engine)
    (c : Connection) : Prop where
  sent : c.sent <+: scanRequest bytes
  received : c.received <+: c.sent
  replied : ∀ reply, c.reply = some reply →
    (c.received = scanRequest bytes ∧ reply = verdictReply (engine bytes)) ∨ IsFailure reply
  silent : ∀ response, c.client = .receiving response → c.reply = none → response.flatten = []
  settled : ∀ result, c.client = .settled result → SettledBy replaced bytes c result

theorem scanInvariant_initial : ScanInvariant replaced bytes engine (.initial bytes) where
  sent := List.nil_prefix
  received := List.prefix_refl _
  replied := fun reply h => absurd h (by simp [Connection.initial])
  silent := by
    intro response h
    by_cases hempty : bytes = [] <;> simp [Connection.initial, hempty] at h
  settled := by
    intro result h
    by_cases hempty : bytes = []
    · simp only [Connection.initial, hempty, if_true, ScanState.settled.injEq] at h
      exact Or.inl ⟨Or.inl hempty, _, h.symm⟩
    · simp [Connection.initial, hempty] at h

/-- Once all of the request has arrived, no more arrives. -/
theorem ScanInvariant.arrived (h : ScanInvariant replaced bytes engine c) {part : Bytes}
    (hpart : c.received ++ part <+: c.sent) (hwhole : c.received = scanRequest bytes) :
    c.received ++ part = scanRequest bytes := by
  have hlength := (hpart.trans h.sent).length_le
  rw [hwhole, List.length_append] at hlength
  obtain rfl := List.eq_nil_of_length_eq_zero (l := part) (by omega)
  rw [List.append_nil, hwhole]

/-- The daemon replies with the verdict on the document, when it has been sent all of it, or with a
failure. -/
theorem ScanInvariant.speaks (hspeaks : SpeaksInstream engine replies)
    (h : ScanInvariant replaced bytes engine c) {reply : Bytes}
    (hreply : replies c.received reply) :
    (c.received = scanRequest bytes ∧ reply = verdictReply (engine bytes)) ∨ IsFailure reply := by
  rcases hspeaks _ _ hreply with ⟨data, hdata, hverdict⟩ | hfailure
  · obtain ⟨hwhole, rfl⟩ := isInstream_request (h.received.trans h.sent) hdata
    exact Or.inl ⟨hwhole, hverdict⟩
  · exact Or.inr hfailure

/-- What has been read when the connection closes is the reply. -/
theorem ScanInvariant.response (h : ScanInvariant replaced bytes engine c)
    {response : List Bytes} (hclient : c.client = .receiving response)
    (hwhole : ∀ reply, c.reply = some reply → response.flatten = reply) :
    response.flatten = c.reply.getD [] := by
  cases hreply : c.reply with
  | none => exact h.silent response hclient hreply
  | some reply => exact hwhole reply hreply

/-- Every step keeps the invariant. -/
theorem ScanStep.invariant (hspeaks : SpeaksInstream engine replies)
    (hstep : ScanStep replaced bytes replies c c') (h : ScanInvariant replaced bytes engine c) :
    ScanInvariant replaced bytes engine c' := by
  cases hstep with
  | connect hclient =>
    have hreceived := h.received.trans h.sent
    refine ⟨List.prefix_refl _, hreceived, h.replied, fun response hresponse _ => ?_,
      fun result hresult => absurd hresult (by simp)⟩
    obtain rfl := ScanState.receiving.inj hresponse
    exact List.flatten_nil
  | arrive part hpart =>
    refine ⟨h.sent, hpart, fun reply hreply => ?_, h.silent, h.settled⟩
    rcases h.replied reply hreply with ⟨hwhole, hverdict⟩ | hfailure
    · exact Or.inl ⟨h.arrived hpart hwhole, hverdict⟩
    · exact Or.inr hfailure
  | reply hpending hnone hreply =>
    refine ⟨h.sent, h.received, fun reply hsome => ?_, fun response _ hnone => ?_,
      fun result hresult => absurd hresult (hpending result)⟩
    · obtain rfl := Option.some.inj hsome
      exact h.speaks hspeaks hreply
    · exact absurd hnone (by simp)
  | data part hclient hreply hpart =>
    refine ⟨h.sent, h.received, h.replied, fun response _ hnone => ?_,
      fun result hresult => absurd hresult (by simp)⟩
    exact absurd (hreply.symm.trans hnone) (by simp)
  | close hclient hwhole =>
    refine ⟨h.sent, h.received, h.replied, fun response hresponse => absurd hresponse (by simp),
      fun result hresult => ?_⟩
    obtain rfl := ScanState.settled.inj hresult
    exact Or.inr (congrArg (scanResult replaced) (h.response hclient hwhole))
  | fail message hpending =>
    refine ⟨h.sent, h.received, h.replied, fun response hresponse => absurd hresponse (by simp),
      fun result hresult => ?_⟩
    obtain rfl := ScanState.settled.inj hresult
    exact Or.inl ⟨Or.inr rfl, message, rfl⟩

/-- The invariant holds of whatever a scan comes to. -/
theorem ScanReaches.invariant (hspeaks : SpeaksInstream engine replies)
    (h : ScanReaches replaced bytes replies c) : ScanInvariant replaced bytes engine c := by
  induction h with
  | refl => exact scanInvariant_initial
  | tail _ hstep ih => exact hstep.invariant hspeaks ih

/-- A result of the reply is the verdict on the document, and an error when there was none. -/
theorem ScanInvariant.result (h : ScanInvariant replaced bytes engine c) :
    (c.received = scanRequest bytes ∧
        scanResult replaced (c.reply.getD []) = .ok (verdictResult (engine bytes))) ∨
      ((∀ reply, c.reply = some reply → IsFailure reply) ∧
        ∃ message, scanResult replaced (c.reply.getD []) = .error message) := by
  cases hreply : c.reply with
  | none => exact Or.inr ⟨fun reply hsome => absurd hsome (by simp), scanResult_nil replaced⟩
  | some reply =>
    rcases h.replied reply hreply with ⟨hwhole, rfl⟩ | hfailure
    · exact Or.inl ⟨hwhole, scanResult_verdict replaced _⟩
    · refine Or.inr ⟨fun other hsome => ?_, scanResult_failure replaced hfailure⟩
      obtain rfl := Option.some.inj hsome
      exact hfailure

/-- The request arrives in any parts. -/
theorem ScanReaches.arrives (h : ScanReaches replaced bytes replies c) (parts : List Bytes)
    (hparts : c.received ++ parts.flatten <+: c.sent) :
    ScanReaches replaced bytes replies { c with received := c.received ++ parts.flatten } := by
  induction parts generalizing c with
  | nil => simpa using h
  | cons part parts ih =>
    rw [List.flatten_cons, ← List.append_assoc] at hparts ⊢
    have hpart : c.received ++ part <+: c.sent := (List.prefix_append _ _).trans hparts
    exact ih (h.tail (.arrive part hpart)) hparts

/-- The reply arrives in any parts. -/
theorem ScanReaches.reads (h : ScanReaches replaced bytes replies c) {response : List Bytes}
    {reply : Bytes} (hclient : c.client = .receiving response) (hreply : c.reply = some reply)
    (parts : List Bytes) (hparts : (response ++ parts).flatten <+: reply) :
    ScanReaches replaced bytes replies { c with client := .receiving (response ++ parts) } := by
  induction parts generalizing c response with
  | nil => rwa [List.append_nil, ← hclient]
  | cons part parts ih =>
    have hcons : response ++ part :: parts = response ++ [part] ++ parts := by simp
    rw [hcons] at hparts ⊢
    have hpart : (response ++ [part]).flatten <+: reply := by
      rw [List.flatten_append] at hparts
      exact (List.prefix_append _ _).trans hparts
    exact ih (h.tail (.data part hclient hreply hpart)) rfl hreply hparts

/-- A scan whose request arrives in these parts, and whose reply arrives in those. -/
theorem scanReaches_parts (hbytes : bytes ≠ []) {requestParts replyParts : List Bytes}
    (hrequest : requestParts.flatten = scanRequest bytes)
    (hreply : replies (scanRequest bytes) replyParts.flatten) :
    ScanReaches replaced bytes replies
      { client := .settled (scanResult replaced replyParts.flatten), sent := scanRequest bytes,
        received := scanRequest bytes, reply := some replyParts.flatten, failed := false } := by
  have hinitial : (Connection.initial bytes).client = .connecting := if_neg hbytes
  have hconnected : ScanReaches replaced bytes replies _ :=
    Relation.ReflTransGen.refl.tail (.connect hinitial)
  have harrived := hconnected.arrives requestParts (hrequest ▸ List.prefix_refl _)
  rw [hrequest] at harrived
  have hreplied := harrived.tail (.reply (fun result hclient => by cases hclient) rfl hreply)
  have hread := ScanReaches.reads hreplied rfl rfl replyParts (List.prefix_refl _)
  exact hread.tail (.close rfl (fun _ hsome => Option.some.inj hsome))

/-- A scan that resolves gives the verdict of the daemon on the whole document, which has all
arrived there. It rejects only when there was no document, no connection or no verdict. In
whatever pieces the two directions arrive and whenever the connection closes or fails, no
document is taken for clean that was not found clean. -/
theorem scan_gives_verdict (hspeaks : SpeaksInstream engine replies)
    (h : ScanReaches replaced bytes replies c) {result : Except String MalwareScanResult}
    (hsettled : c.client = .settled result) :
    (∀ verdict, result = .ok verdict →
        c.received = scanRequest bytes ∧ verdict = verdictResult (engine bytes)) ∧
      (∀ message, result = .error message → bytes = [] ∨ c.failed = true ∨
        ∀ reply, c.reply = some reply → IsFailure reply) := by
  have hinvariant := h.invariant hspeaks
  rcases hinvariant.settled result hsettled with ⟨hcause, message, rfl⟩ | hresult
  · refine ⟨fun verdict hok => absurd hok (by simp), fun _ _ => ?_⟩
    exact hcause.imp_right Or.inl
  · rcases hinvariant.result with ⟨hwhole, hverdict⟩ | ⟨hfailure, message, herror⟩
    · have hresult : result = .ok (verdictResult (engine bytes)) := hresult.trans hverdict
      refine ⟨fun verdict hok => ⟨hwhole, ?_⟩, fun message herror => ?_⟩
      · exact Except.ok.inj (hok.symm.trans hresult)
      · exact absurd (hresult.symm.trans herror) (by simp)
    · have hresult : result = .error message := hresult.trans herror
      exact ⟨fun verdict hok => absurd (hresult.symm.trans hok) (by simp),
        fun _ _ => Or.inr (Or.inr hfailure)⟩

/-- A scan whose request arrives in two parts, and its reply too. -/
theorem scan_gives_verdict_example :
    let engine : Engine := fun _ =>
      some ⟨"Eicar", by simp, by simp, by simp [isLineTerminator]⟩
    let replies : Bytes → Bytes → Prop := fun received reply =>
      ∃ data, IsInstream received data ∧ reply = verdictReply (engine data)
    ∃ c, ScanReaches (fun _ => "") [88, 53] replies c ∧
      c.client = .settled (.ok (.infected "Eicar")) ∧ c.received = scanRequest [88, 53] := by
  intro engine replies
  have hwhole : IsInstream (scanRequest [88, 53]) [88, 53] := by
    refine ⟨framed (scanChunks [88, 53] 0), rfl, ?_⟩
    rw [← List.append_nil (framed _), unframe_framed (scanChunks_bounded [88, 53] 0),
      flatten_scanChunks, List.drop_zero]
  have hrequest : [(scanRequest [88, 53]).take 12, (scanRequest [88, 53]).drop 12].flatten =
      scanRequest [88, 53] := by simp
  have hreply : [utf8 "stream: E", utf8 "icar FOUND\x00"].flatten =
      verdictReply (engine [88, 53]) := rfl
  have hspeaks : SpeaksInstream engine replies := fun _ _ h => Or.inl h
  have hreplies : replies (scanRequest [88, 53])
      [utf8 "stream: E", utf8 "icar FOUND\x00"].flatten := ⟨[88, 53], hwhole, hreply⟩
  have hreaches : ScanReaches (fun _ => "") [88, 53] replies _ :=
    scanReaches_parts (by decide) hrequest hreplies
  rw [hreply, scanResult_verdict] at hreaches
  have hverdict := scan_gives_verdict hspeaks hreaches rfl
  exact ⟨_, hreaches, rfl, (hverdict.1 _ rfl).1⟩

end Scan

end LegacyVault
