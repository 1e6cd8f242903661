import LegacyVault.Library.ExpiringStore
import LegacyVault.Library.Workers

/-!
# Purges of the exact AI cache

`RedisExactCache` over a keyspace that expires. An entry that is set for a
scope is listed in the index of the scope, which expires with the entry that
was set last. A purge reads the index and deletes what it has read with one
command each, so clients come between.

A `set` whose commands fail returns like any other; it sets nothing and is
left out.
-/

namespace LegacyVault

open ExpiringStore Workers

/-! ## Commands of the cache -/

/-- The text of a digest: 64 lower-case hexadecimal digits. -/
def isDigestText (text : String) : Bool :=
  decide (text.toList.length = 64) &&
    text.toList.all (fun c => c.isDigit || (decide ('a' ≤ c) && decide (c ≤ 'f')))

/-- `namespaced`. -/
def namespacedKey (cacheNamespace key : String) : String := cacheNamespace ++ ":" ++ key

/-- The index of a scope. -/
def scopeIndex (cacheNamespace scopeKey : String) : String :=
  cacheNamespace ++ ":scope:" ++ scopeKey

/-- An empty scope key is none. -/
def givenScope (scopeKey : Option String) : Option String := scopeKey.filter (· ≠ "")

/-- `RedisExactCache.get`. -/
def getExact (cacheNamespace : String) (σ : ExpiringStore) (key : String) : Option String :=
  if isDigestText key then σ.get (namespacedKey cacheNamespace key) else none

/-- `RedisExactCache.set` on keys that pass its checks. -/
def setExact (cacheNamespace : String) (σ : ExpiringStore) (key value : String)
    (ttlSeconds : Nat) : Option String → ExpiringStore
  | some scopeKey =>
    ((σ.setEx (namespacedKey cacheNamespace key) value ttlSeconds).sadd
      (scopeIndex cacheNamespace scopeKey) (namespacedKey cacheNamespace key)).expire
        (scopeIndex cacheNamespace scopeKey) ttlSeconds
  | none => σ.setEx (namespacedKey cacheNamespace key) value ttlSeconds

/-! ## Clients -/

/-- Where a client of `purgeScope` stands. -/
inductive PurgeControl where
  /-- Before SMEMBERS. -/
  | begun
  /-- Before DEL, with the members that were read. -/
  | read (members : List String)
  | ended

/-- What is observed of the clients. -/
inductive CacheEvent where
  /-- An entry is set, for a scope or for none. -/
  | stored (key : String) (scopeKey : Option String)
  | purgeBegan (client : Nat) (scopeKey : String)
  /-- A purge returns without an error. -/
  | purged (client : Nat) (scopeKey : String)
  deriving DecidableEq

/-- What may happen next. -/
inductive CacheAction where
  /-- Time passes. -/
  | wait (later : Nat)
  /-- `set`. -/
  | set (key value : String) (ttlSeconds : Nat) (scopeKey : Option String)
  /-- `purgeScope` is called. -/
  | beginPurge (client : Nat) (scopeKey : String)
  /-- SMEMBERS. -/
  | readMembers (client : Nat)
  /-- DEL, with an answer or without. -/
  | deleteMembers (client : Nat) (answered : Bool)
  /-- A command of a purge fails. -/
  | failPurge (client : Nat)

/-- The keyspace and the clients of `purgeScope`. -/
abbrev CacheRun := Workers ExpiringStore String PurgeControl CacheEvent

/-- What an action leads to, where it can happen. -/
def CacheRun.act (cacheNamespace : String) (s : CacheRun) : CacheAction → Option CacheRun
  | .wait later => if s.rows.now ≤ later then some (s.withRows (s.rows.wait later)) else none
  | .set key value ttlSeconds scopeKey =>
    if ttlSeconds = 0 then none
    else if isDigestText key && (givenScope scopeKey).all isDigestText then
      some ((s.withRows (setExact cacheNamespace s.rows key value ttlSeconds
        (givenScope scopeKey))).observe [.stored key (givenScope scopeKey)])
    else some s
  | .beginPurge client scopeKey =>
    if isDigestText scopeKey && (s.executions client).isNone then
      some ((s.observe [.purgeBegan client scopeKey]).enter client scopeKey .begun)
    else none
  | .readMembers client =>
    match s.executions client with
    | some (scopeKey, .begun) => some (s.enter client scopeKey
        (.read (s.rows.smembers (scopeIndex cacheNamespace scopeKey))))
    | _ => none
  | .deleteMembers client answered =>
    match s.executions client with
    | some (scopeKey, .read members) => some (((s.withRows (s.rows.del
        (members ++ [scopeIndex cacheNamespace scopeKey]))).observe
          (if answered then [.purged client scopeKey] else [])).enter client scopeKey .ended)
    | _ => none
  | .failPurge client =>
    match s.executions client with
    | some (_, .ended) => none
    | some (scopeKey, _) => some (s.enter client scopeKey .ended)
    | none => none

/-- What a list of actions leads to, where they can happen one after the other. -/
def CacheRun.run (cacheNamespace : String) (s : CacheRun) : List CacheAction → Option CacheRun
  | [] => some s
  | action :: actions =>
    match CacheRun.act cacheNamespace s action with
    | some s' => CacheRun.run cacheNamespace s' actions
    | none => none

/-- After a purge that has returned, no entry that was set for its scope before it began is found,
until it is set again. -/
def PurgesComplete (cacheNamespace : String) (s : CacheRun) : Prop :=
  ∀ client scopeKey before between after,
    s.events = after ++ .purged client scopeKey ::
      (between ++ .purgeBegan client scopeKey :: before) →
    ∀ key, CacheEvent.stored key (some scopeKey) ∈ before →
      getExact cacheNamespace s.rows key = none ∨
        ∃ otherScope, CacheEvent.stored key otherScope ∈ after

/-! ## Actions that keep the index -/

/-- An action after which the indexes still list every entry of their scopes. An index must not
expire while it lists an entry that does not, a key that was set for a scope must be listed there
when it is set for another or for none, and a purge must have read the entries that are listed in
the index it deletes. -/
def Safe (cacheNamespace : String) (s : CacheRun) : CacheAction → Prop
  | .wait later =>
    ∀ scopeKey, (s.rows.wait later).live (scopeIndex cacheNamespace scopeKey) = none →
      ∀ listed ∈ s.rows.smembers (scopeIndex cacheNamespace scopeKey),
        (s.rows.wait later).live listed = none
  | .set key _ _ scopeKey =>
    ∀ scope, givenScope scopeKey ≠ some scope → CacheEvent.stored key (some scope) ∈ s.events →
      namespacedKey cacheNamespace key ∈ s.rows.smembers (scopeIndex cacheNamespace scope)
  | .deleteMembers client _ =>
    ∀ scopeKey members, s.executions client = some (scopeKey, .read members) →
      ∀ listed ∈ s.rows.smembers (scopeIndex cacheNamespace scopeKey),
        s.rows.live listed ≠ none → listed ∈ members
  | _ => True

/-- Every action of a run is safe where it happens. -/
def SafeRun (cacheNamespace : String) (s : CacheRun) : List CacheAction → Prop
  | [] => True
  | action :: actions => Safe cacheNamespace s action ∧
      ∀ s', CacheRun.act cacheNamespace s action = some s' → SafeRun cacheNamespace s' actions

/-! ## Names -/

section Names

variable {cacheNamespace key key' scopeKey scopeKey' : String}

theorem namespacedKey_inj :
    namespacedKey cacheNamespace key = namespacedKey cacheNamespace key' ↔ key = key' := by
  simp [namespacedKey, String.ext_iff]

theorem scopeIndex_inj :
    scopeIndex cacheNamespace scopeKey = scopeIndex cacheNamespace scopeKey' ↔
      scopeKey = scopeKey' := by
  simp [scopeIndex, String.ext_iff]

/-- An entry is never under the name of an index. -/
theorem namespacedKey_ne_scopeIndex (hkey : isDigestText key = true) :
    namespacedKey cacheNamespace key ≠ scopeIndex cacheNamespace scopeKey := by
  intro heq
  have hkeys : key.toList = "scope:".toList ++ scopeKey.toList := by
    have hlists := congrArg String.toList heq
    simp only [namespacedKey, scopeIndex, String.toList_append, List.append_assoc] at hlists
    simpa using List.append_cancel_left hlists
  rw [isDigestText, hkeys] at hkey
  exact absurd hkey (by simp)

end Names

/-! ## Invariant -/

/-- Where a client of `purgeScope` may stand. -/
def PurgeAllowed (cacheNamespace : String) (_ : ExpiringStore) (_ : List CacheEvent) (_ : Nat)
    (scopeKey : String) : PurgeControl → Prop
  | .begun => isDigestText scopeKey = true
  | .read members => isDigestText scopeKey = true ∧
      ∀ member ∈ members, ∃ key, isDigestText key = true ∧
        member = namespacedKey cacheNamespace key
  | .ended => True

/-- What holds of the names in any run. -/
structure CacheNames (cacheNamespace : String) (s : CacheRun) : Prop where
  stored : ∀ key scopeKey, CacheEvent.stored key (some scopeKey) ∈ s.events →
    isDigestText key = true ∧ isDigestText scopeKey = true
  /-- An index lists keys of entries. -/
  index : ∀ scopeKey, ∀ entry, s.rows.live (scopeIndex cacheNamespace scopeKey) = some entry →
    ∃ members, entry.value = .set members ∧ ∀ member ∈ members, ∃ key,
      isDigestText key = true ∧ member = namespacedKey cacheNamespace key
  clients : s.Standing (PurgeAllowed cacheNamespace)

/-- Every entry is listed in the indexes of its scopes. -/
def Indexed (cacheNamespace : String) (σ : ExpiringStore) (events : List CacheEvent) : Prop :=
  ∀ key scopeKey, CacheEvent.stored key (some scopeKey) ∈ events →
    σ.live (namespacedKey cacheNamespace key) ≠ none →
      namespacedKey cacheNamespace key ∈ σ.smembers (scopeIndex cacheNamespace scopeKey)

/-- An entry of a scope is not there after a purge of it, until it is set again. -/
def GoneSince (cacheNamespace : String) (σ : ExpiringStore) (events : List CacheEvent) : Prop :=
  ∀ client scopeKey before after, events = after ++ .purged client scopeKey :: before →
    ∀ key, CacheEvent.stored key (some scopeKey) ∈ before →
      σ.live (namespacedKey cacheNamespace key) = none ∨
        ∃ otherScope, CacheEvent.stored key otherScope ∈ after

/-- What holds after safe actions. -/
structure CacheInvariant (cacheNamespace : String) (s : CacheRun) : Prop where
  names : CacheNames cacheNamespace s
  indexed : Indexed cacheNamespace s.rows s.events
  gone : GoneSince cacheNamespace s.rows s.events

section Steps

variable {cacheNamespace : String} {s : CacheRun} {σ : ExpiringStore} {events : List CacheEvent}

/-- A member of a live index is the key of an entry. -/
theorem CacheNames.member (h : CacheNames cacheNamespace s) {scopeKey member : String}
    (hmember : member ∈ s.rows.smembers (scopeIndex cacheNamespace scopeKey)) :
    ∃ key, isDigestText key = true ∧ member = namespacedKey cacheNamespace key := by
  cases hlive : s.rows.live (scopeIndex cacheNamespace scopeKey) with
  | none =>
    rw [smembers, hlive] at hmember
    exact absurd hmember List.not_mem_nil
  | some entry =>
    obtain ⟨value, expiresAt⟩ := entry
    obtain ⟨members, hvalue, hkeys⟩ := h.index scopeKey _ hlive
    obtain rfl : value = .set members := hvalue
    rw [smembers_of_live hlive] at hmember
    exact hkeys member hmember

/-- Time keeps every entry listed, as long as no index expires before its entries. -/
theorem Indexed.wait (h : Indexed cacheNamespace s.rows s.events) {later : Nat}
    (hlater : s.rows.now ≤ later) (hsafe : Safe cacheNamespace s (.wait later)) :
    Indexed cacheNamespace (s.rows.wait later) s.events := by
  intro key scopeKey hstored hlive
  obtain ⟨entry, hentry⟩ := Option.ne_none_iff_exists'.mp hlive
  have hbefore : s.rows.live (namespacedKey cacheNamespace key) ≠ none := by
    rw [live_of_wait hlater hentry]
    exact Option.some_ne_none entry
  have hlisted := h key scopeKey hstored hbefore
  cases hindex : (s.rows.wait later).live (scopeIndex cacheNamespace scopeKey) with
  | none => exact absurd (hsafe scopeKey hindex _ hlisted) hlive
  | some index =>
    rw [smembers, live_of_wait hlater hindex] at hlisted
    rw [smembers, hindex]
    exact hlisted

theorem GoneSince.of_live {σ' : ExpiringStore} (h : GoneSince cacheNamespace σ events)
    (hlive : ∀ key, σ.live key = none → σ'.live key = none) :
    GoneSince cacheNamespace σ' events := by
  intro client scopeKey before after hsplit key hstored
  rcases h client scopeKey before after hsplit key hstored with hnone | hagain
  · exact Or.inl (hlive _ hnone)
  · exact Or.inr hagain

/-- An event that is no purge comes after the purges. -/
theorem GoneSince.cons (h : GoneSince cacheNamespace σ events) {event : CacheEvent}
    (hevent : ∀ client scopeKey, event ≠ .purged client scopeKey) :
    GoneSince cacheNamespace σ (event :: events) := by
  intro client scopeKey before after hsplit key hstored
  cases after with
  | nil => exact absurd (List.cons.inj hsplit).1 (hevent client scopeKey)
  | cons first after =>
    obtain ⟨-, hrest⟩ := List.cons.inj hsplit
    rcases h client scopeKey before after hrest key hstored with hnone | ⟨otherScope, hagain⟩
    · exact Or.inl hnone
    · exact Or.inr ⟨otherScope, List.mem_cons_of_mem _ hagain⟩

/-! ### Setting an entry -/

variable {key value scopeKey : String} {ttlSeconds : Nat} {scope : Option String}

/-- The entry that is set. -/
theorem live_setExact_entry (hkey : isDigestText key = true) :
    (setExact cacheNamespace σ key value ttlSeconds scope).live
      (namespacedKey cacheNamespace key) =
        some ⟨.string value, WithTop.some (σ.after ttlSeconds)⟩ := by
  cases scope with
  | none => exact live_setEx_self value ttlSeconds
  | some scopeKey =>
    rw [setExact, live_expire_of_ne _ (namespacedKey_ne_scopeIndex hkey),
      live_sadd_of_ne _ (namespacedKey_ne_scopeIndex hkey), live_setEx_self]

/-- What is not the entry and not the index of its scope stays. -/
theorem live_setExact_other {name : String} (hentry : name ≠ namespacedKey cacheNamespace key)
    (hindex : ∀ scopeKey, scope = some scopeKey → name ≠ scopeIndex cacheNamespace scopeKey) :
    (setExact cacheNamespace σ key value ttlSeconds scope).live name = σ.live name := by
  cases scope with
  | none => exact live_setEx_of_ne value ttlSeconds hentry
  | some scopeKey =>
    rw [setExact, live_expire_of_ne _ (hindex scopeKey rfl),
      live_sadd_of_ne _ (hindex scopeKey rfl), live_setEx_of_ne _ _ hentry]

/-- The index of the scope lists the entry, and expires with it. -/
theorem live_setExact_index (value : String) (ttlSeconds : Nat) (hkey : isDigestText key = true)
    (hset : ∀ entry, σ.live (scopeIndex cacheNamespace scopeKey) = some entry →
      ∃ members, entry.value = .set members) :
    ∃ members, (setExact cacheNamespace σ key value ttlSeconds (some scopeKey)).live
        (scopeIndex cacheNamespace scopeKey) =
          some ⟨.set members, WithTop.some (σ.after ttlSeconds)⟩ ∧
      ∀ other, other ∈ members ↔ other = namespacedKey cacheNamespace key ∨
        other ∈ σ.smembers (scopeIndex cacheNamespace scopeKey) := by
  have hne : scopeIndex cacheNamespace scopeKey ≠ namespacedKey cacheNamespace key :=
    (namespacedKey_ne_scopeIndex hkey).symm
  have hlive : (σ.setEx (namespacedKey cacheNamespace key) value ttlSeconds).live
      (scopeIndex cacheNamespace scopeKey) = σ.live (scopeIndex cacheNamespace scopeKey) :=
    live_setEx_of_ne value ttlSeconds hne
  obtain ⟨members, hindex, -, hmembers⟩ := live_sadd_expire (namespacedKey cacheNamespace key)
    ttlSeconds (fun entry hentry => hset entry (hlive ▸ hentry))
  refine ⟨members, hindex, fun other => ?_⟩
  rw [hmembers other, smembers, smembers, hlive]

/-- A safe `set` keeps every entry listed. -/
theorem Indexed.set (h : Indexed cacheNamespace s.rows s.events)
    (hnames : CacheNames cacheNamespace s) (hkey : isDigestText key = true)
    {given : Option String}
    (hsafe : Safe cacheNamespace s (.set key value ttlSeconds given)) :
    Indexed cacheNamespace
      (setExact cacheNamespace s.rows key value ttlSeconds (givenScope given))
      (.stored key (givenScope given) :: s.events) := by
  intro other otherScope hstored hlive
  have hlisted : other = key ∧ givenScope given = some otherScope ∨
      namespacedKey cacheNamespace other ∈
        s.rows.smembers (scopeIndex cacheNamespace otherScope) := by
    by_cases hother : other = key
    · by_cases hscope : givenScope given = some otherScope
      · exact Or.inl ⟨hother, hscope⟩
      · subst hother
        rcases List.mem_cons.mp hstored with heq | hold
        · exact absurd (CacheEvent.stored.inj heq).2.symm hscope
        · exact Or.inr (hsafe otherScope hscope hold)
    · have hold : CacheEvent.stored other (some otherScope) ∈ s.events :=
        (List.mem_cons.mp hstored).resolve_left
          (fun heq => hother (CacheEvent.stored.inj heq).1)
      have hname : namespacedKey cacheNamespace other ≠ namespacedKey cacheNamespace key :=
        fun heq => hother (namespacedKey_inj.mp heq)
      have hvalid := (hnames.stored other otherScope hold).1
      rw [live_setExact_other hname (fun _ _ => namespacedKey_ne_scopeIndex hvalid)] at hlive
      exact Or.inr (h other otherScope hold hlive)
  by_cases hscope : givenScope given = some otherScope
  · -- The index of the scope is written again.
    have hset : ∀ entry, s.rows.live (scopeIndex cacheNamespace otherScope) = some entry →
        ∃ members, entry.value = .set members := by
      intro entry hentry
      obtain ⟨members, hvalue, -⟩ := hnames.index otherScope entry hentry
      exact ⟨members, hvalue⟩
    obtain ⟨members, hindex, hmembers⟩ := live_setExact_index value ttlSeconds hkey hset
    rw [hscope, smembers_of_live hindex, hmembers]
    rcases hlisted with ⟨rfl, -⟩ | hlisted
    · exact Or.inl rfl
    · exact Or.inr hlisted
  · have hkept : (setExact cacheNamespace s.rows key value ttlSeconds (givenScope given)).live
        (scopeIndex cacheNamespace otherScope) =
          s.rows.live (scopeIndex cacheNamespace otherScope) := by
      refine live_setExact_other (namespacedKey_ne_scopeIndex hkey).symm (fun own hown heq => ?_)
      exact hscope (hown.trans (congrArg some (scopeIndex_inj.mp heq).symm))
    rw [smembers, hkept]
    exact hlisted.resolve_left (fun hown => hscope hown.2)

/-- Setting an entry keeps the names. -/
theorem CacheNames.set (h : CacheNames cacheNamespace s) (hkey : isDigestText key = true)
    (hscope : scope.all isDigestText = true) :
    CacheNames cacheNamespace ((s.withRows (setExact cacheNamespace s.rows key value ttlSeconds
      scope)).observe [.stored key scope]) where
  stored := by
    intro other otherScope hstored
    rcases List.mem_cons.mp hstored with heq | hold
    · obtain ⟨rfl, rfl⟩ := CacheEvent.stored.inj heq
      exact ⟨hkey, hscope⟩
    · exact h.stored other otherScope hold
  index := by
    intro otherScope entry hentry
    by_cases hown : scope = some otherScope
    · subst hown
      have hset : ∀ entry, s.rows.live (scopeIndex cacheNamespace otherScope) = some entry →
          ∃ members, entry.value = .set members := by
        intro entry hentry
        obtain ⟨members, hvalue, -⟩ := h.index otherScope entry hentry
        exact ⟨members, hvalue⟩
      obtain ⟨members, hindex, hmembers⟩ := live_setExact_index value ttlSeconds hkey hset
      obtain rfl := Option.some.inj (hindex.symm.trans hentry)
      refine ⟨members, rfl, fun member hmember => ?_⟩
      rcases (hmembers member).mp hmember with hnew | hold
      · exact ⟨key, hkey, hnew⟩
      · exact h.member hold
    · have hkept : (setExact cacheNamespace s.rows key value ttlSeconds scope).live
          (scopeIndex cacheNamespace otherScope) =
            s.rows.live (scopeIndex cacheNamespace otherScope) := by
        refine live_setExact_other (namespacedKey_ne_scopeIndex hkey).symm
          (fun own hscope heq => ?_)
        exact hown (hscope.trans (congrArg some (scopeIndex_inj.mp heq).symm))
      exact h.index otherScope entry (hkept.symm.trans hentry)
  clients := h.clients.later rfl (fun _ _ _ hallowed => hallowed)

/-- An entry that is set again is there again, and the others stay gone. -/
theorem GoneSince.set (h : GoneSince cacheNamespace s.rows s.events)
    (hnames : CacheNames cacheNamespace s) :
    GoneSince cacheNamespace (setExact cacheNamespace s.rows key value ttlSeconds scope)
      (.stored key scope :: s.events) := by
  intro client scopeKey before after hsplit other hstored
  cases after with
  | nil => exact absurd (List.cons.inj hsplit).1 (by simp)
  | cons first after =>
    obtain ⟨rfl, hrest⟩ := List.cons.inj hsplit
    by_cases hother : other = key
    · exact Or.inr ⟨scope, hother ▸ List.mem_cons_self⟩
    · rcases h client scopeKey before after hrest other hstored with hnone | ⟨otherScope, hagain⟩
      · have hold : CacheEvent.stored other (some scopeKey) ∈ s.events := by
          rw [hrest]
          exact List.mem_append_right _ (List.mem_cons_of_mem _ hstored)
        have hvalid := (hnames.stored other scopeKey hold).1
        have hname : namespacedKey cacheNamespace other ≠ namespacedKey cacheNamespace key :=
          fun heq => hother (namespacedKey_inj.mp heq)
        refine Or.inl ?_
        rw [live_setExact_other hname (fun _ _ => namespacedKey_ne_scopeIndex hvalid)]
        exact hnone
      · exact Or.inr ⟨otherScope, List.mem_cons_of_mem _ hagain⟩

/-! ### Deleting what was read -/

/-- Deleting keeps the names. -/
theorem CacheNames.del (h : CacheNames cacheNamespace s) (keys : List String)
    (hevents : ∀ event ∈ events, ∀ key scopeKey, event ≠ .stored key scopeKey) :
    CacheNames cacheNamespace ((s.withRows (s.rows.del keys)).observe events) where
  stored := by
    intro key scopeKey hstored
    rcases List.mem_append.mp hstored with hnew | hold
    · exact absurd rfl (hevents _ hnew key (some scopeKey))
    · exact h.stored key scopeKey hold
  index := by
    intro scopeKey entry hentry
    have hlive : (s.rows.del keys).live (scopeIndex cacheNamespace scopeKey) = some entry := hentry
    rw [live_del] at hlive
    split at hlive
    · exact absurd hlive (by simp)
    · exact h.index scopeKey entry hlive
  clients := h.clients.later rfl (fun _ _ _ hallowed => hallowed)

section Del

variable {client : Nat} {members : List String}

/-- A safe deletion leaves no entry of its scope. -/
theorem Indexed.scope_deleted (h : Indexed cacheNamespace s.rows s.events)
    (hclient : s.executions client = some (scopeKey, .read members)) {answered : Bool}
    (hsafe : Safe cacheNamespace s (.deleteMembers client answered))
    (hstored : CacheEvent.stored key (some scopeKey) ∈ s.events) :
    (s.rows.del (members ++ [scopeIndex cacheNamespace scopeKey])).live
      (namespacedKey cacheNamespace key) = none := by
  rw [live_del]
  split
  · rfl
  · rename_i hkept
    by_contra hlive
    have hlisted := h key scopeKey hstored hlive
    exact hkept (List.mem_append_left _ (hsafe scopeKey members hclient _ hlisted hlive))

/-- A safe deletion keeps the index of every entry that remains. -/
theorem Indexed.del (h : Indexed cacheNamespace s.rows s.events)
    (hnames : CacheNames cacheNamespace s)
    (hclient : s.executions client = some (scopeKey, .read members)) {answered : Bool}
    (hsafe : Safe cacheNamespace s (.deleteMembers client answered)) :
    Indexed cacheNamespace (s.rows.del (members ++ [scopeIndex cacheNamespace scopeKey]))
      s.events := by
  intro key otherScope hstored hlive
  by_cases hscope : otherScope = scopeKey
  · subst hscope
    exact absurd (h.scope_deleted hclient hsafe hstored) hlive
  · have hindexKept : scopeIndex cacheNamespace otherScope ∉
        members ++ [scopeIndex cacheNamespace scopeKey] := by
      intro hmem
      rcases List.mem_append.mp hmem with hread | hindex
      · obtain ⟨-, hkeys⟩ := hnames.clients client scopeKey _ hclient
        obtain ⟨other, hother, heq⟩ := hkeys _ hread
        exact namespacedKey_ne_scopeIndex hother heq.symm
      · exact hscope (scopeIndex_inj.mp (List.mem_singleton.mp hindex))
    have hindex : (s.rows.del (members ++ [scopeIndex cacheNamespace scopeKey])).live
        (scopeIndex cacheNamespace otherScope) =
          s.rows.live (scopeIndex cacheNamespace otherScope) := by
      rw [live_del, if_neg hindexKept]
    rw [live_del] at hlive
    split at hlive
    · exact absurd rfl hlive
    · rw [smembers, hindex]
      exact h key otherScope hstored hlive

end Del

/-! ### Actions -/

variable {s' : CacheRun}

theorem CacheInvariant.wait (h : CacheInvariant cacheNamespace s) {later : Nat}
    (hlater : s.rows.now ≤ later) (hsafe : Safe cacheNamespace s (.wait later)) :
    CacheInvariant cacheNamespace (s.withRows (s.rows.wait later)) where
  names :=
    ⟨h.names.stored, fun scopeKey entry hentry => h.names.index scopeKey entry
      (live_of_wait hlater hentry), h.names.clients.later rfl (fun _ _ _ hallowed => hallowed)⟩
  indexed := h.indexed.wait hlater hsafe
  gone := by
    refine h.gone.of_live (fun key hnone => ?_)
    by_contra hlive
    obtain ⟨entry, hentry⟩ := Option.ne_none_iff_exists'.mp hlive
    exact absurd (hnone.symm.trans (live_of_wait hlater hentry)) (by simp)

/-- A client of `purgeScope` goes on. -/
theorem CacheInvariant.enter (h : CacheInvariant cacheNamespace s) {client : Nat}
    {scopeKey : String} {control : PurgeControl}
    (hcontrol : PurgeAllowed cacheNamespace s.rows s.events client scopeKey control) :
    CacheInvariant cacheNamespace (s.enter client scopeKey control) :=
  ⟨⟨h.names.stored, h.names.index, h.names.clients.enter hcontrol⟩, h.indexed, h.gone⟩

/-- A purge begins. -/
theorem CacheInvariant.began (h : CacheInvariant cacheNamespace s) (client : Nat)
    (scopeKey : String) :
    CacheInvariant cacheNamespace (s.observe [.purgeBegan client scopeKey]) := by
  have hold : ∀ {key scope}, CacheEvent.stored key scope ∈
      CacheEvent.purgeBegan client scopeKey :: s.events → CacheEvent.stored key scope ∈ s.events :=
    fun hstored => (List.mem_cons.mp hstored).resolve_left CacheEvent.noConfusion
  exact ⟨⟨fun key scope hstored => h.names.stored key scope (hold hstored), h.names.index,
    h.names.clients.later rfl (fun _ _ _ hallowed => hallowed)⟩,
    fun key scope hstored => h.indexed key scope (hold hstored),
    h.gone.cons (fun _ _ => CacheEvent.noConfusion)⟩

/-- A purge deletes what it has read, and the index. -/
theorem CacheInvariant.deleted (h : CacheInvariant cacheNamespace s) {client : Nat}
    {scopeKey : String} {members : List String}
    (hclient : s.executions client = some (scopeKey, .read members)) {answered : Bool}
    (hsafe : Safe cacheNamespace s (.deleteMembers client answered)) :
    CacheInvariant cacheNamespace ((s.withRows (s.rows.del
      (members ++ [scopeIndex cacheNamespace scopeKey]))).observe
        (if answered then [.purged client scopeKey] else [])) := by
  have hindexed := h.indexed.del h.names hclient hsafe
  have hgone : GoneSince cacheNamespace
      (s.rows.del (members ++ [scopeIndex cacheNamespace scopeKey])) s.events := by
    refine h.gone.of_live (fun key hnone => ?_)
    rw [live_del, hnone, ite_self]
  cases answered with
  | false => exact ⟨h.names.del _ (fun _ hmem => absurd hmem List.not_mem_nil), hindexed, hgone⟩
  | true =>
    refine ⟨h.names.del _ (fun event hmem _ _ heq => ?_), fun key otherScope hstored => ?_, ?_⟩
    · rw [List.mem_singleton.mp hmem] at heq
      exact CacheEvent.noConfusion heq
    · exact hindexed key otherScope
        ((List.mem_cons.mp hstored).resolve_left CacheEvent.noConfusion)
    · intro other otherScope before after hsplit key hstored
      cases after with
      | nil =>
        -- This purge: no entry of its scope is left.
        obtain ⟨hevent, hrest⟩ := List.cons.inj hsplit
        obtain ⟨-, rfl⟩ := CacheEvent.purged.inj hevent
        have hevents : s.events = before := hrest
        have hbefore : CacheEvent.stored key (some scopeKey) ∈ s.events := by rwa [hevents]
        exact Or.inl (h.indexed.scope_deleted hclient hsafe hbefore)
      | cons first after =>
        obtain ⟨-, hrest⟩ := List.cons.inj hsplit
        rcases hgone other otherScope before after hrest key hstored with
          hnone | ⟨againScope, hagain⟩
        · exact Or.inl hnone
        · exact Or.inr ⟨againScope, List.mem_cons_of_mem _ hagain⟩

/-- A safe action keeps the invariant. -/
theorem CacheInvariant.act (h : CacheInvariant cacheNamespace s) {action : CacheAction}
    (hsafe : Safe cacheNamespace s action) (hact : CacheRun.act cacheNamespace s action = some s') :
    CacheInvariant cacheNamespace s' := by
  cases action with
  | wait later =>
    simp only [CacheRun.act] at hact
    split at hact
    · rename_i hlater
      obtain rfl := Option.some.inj hact
      exact h.wait hlater hsafe
    · exact absurd hact (by simp)
  | set key value ttlSeconds given =>
    simp only [CacheRun.act] at hact
    split at hact
    · exact absurd hact (by simp)
    · split at hact
      · rename_i hvalid
        obtain ⟨hkey, hscope⟩ := Bool.and_eq_true_iff.mp hvalid
        obtain rfl := Option.some.inj hact
        exact ⟨h.names.set hkey hscope, h.indexed.set h.names hkey hsafe, h.gone.set h.names⟩
      · obtain rfl := Option.some.inj hact
        exact h
  | beginPurge client scopeKey =>
    simp only [CacheRun.act] at hact
    split at hact
    · rename_i hvalid
      obtain rfl := Option.some.inj hact
      exact (h.began client scopeKey).enter (Bool.and_eq_true_iff.mp hvalid).1
    · exact absurd hact (by simp)
  | readMembers client =>
    simp only [CacheRun.act] at hact
    split at hact
    · rename_i scopeKey hclient
      obtain rfl := Option.some.inj hact
      exact h.enter ⟨h.names.clients client scopeKey _ hclient, fun _ hmember =>
        h.names.member hmember⟩
    · exact absurd hact (by simp)
  | deleteMembers client answered =>
    simp only [CacheRun.act] at hact
    split at hact
    · rename_i scopeKey members hclient
      obtain rfl := Option.some.inj hact
      exact (h.deleted hclient hsafe).enter trivial
    · exact absurd hact (by simp)
  | failPurge client =>
    simp only [CacheRun.act] at hact
    split at hact
    · exact absurd hact (by simp)
    · obtain rfl := Option.some.inj hact
      exact h.enter trivial
    · exact absurd hact (by simp)

/-- Safe actions keep the invariant. -/
theorem CacheInvariant.run {actions : List CacheAction} (h : CacheInvariant cacheNamespace s)
    (hsafe : SafeRun cacheNamespace s actions)
    (hrun : CacheRun.run cacheNamespace s actions = some s') :
    CacheInvariant cacheNamespace s' := by
  induction actions generalizing s with
  | nil =>
    obtain rfl := Option.some.inj hrun
    exact h
  | cons action actions ih =>
    obtain ⟨hfirst, hrest⟩ := hsafe
    rw [CacheRun.run] at hrun
    cases hact : CacheRun.act cacheNamespace s action with
    | none =>
      rw [hact] at hrun
      exact absurd hrun (by simp)
    | some between =>
      rw [hact] at hrun
      exact ih (h.act hfirst hact) (hrest between hact) hrun

end Steps

theorem cacheInvariant_idle (cacheNamespace : String) (now : Nat) :
    CacheInvariant cacheNamespace (Workers.idle (ExpiringStore.empty now)) where
  names :=
    ⟨fun _ _ hstored => absurd hstored List.not_mem_nil, fun _ _ hentry => absurd hentry (by
      simp [Workers.idle]), standing_idle _⟩
  indexed := fun _ _ hstored => absurd hstored List.not_mem_nil
  gone := fun _ _ _ after hsplit => absurd hsplit (by simp [Workers.idle])

/-- In a run whose actions are safe, every purge is complete. -/
theorem purgesComplete_of_safe {cacheNamespace : String} {now : Nat} {actions : List CacheAction}
    {s : CacheRun}
    (hsafe : SafeRun cacheNamespace (Workers.idle (ExpiringStore.empty now)) actions)
    (hrun : CacheRun.run cacheNamespace (Workers.idle (ExpiringStore.empty now)) actions =
      some s) : PurgesComplete cacheNamespace s := by
  have hinvariant := (cacheInvariant_idle cacheNamespace now).run hsafe hrun
  intro client scopeKey before between after hsplit key hstored
  have hbefore : CacheEvent.stored key (some scopeKey) ∈
      between ++ .purgeBegan client scopeKey :: before :=
    List.mem_append_right _ (List.mem_cons_of_mem _ hstored)
  rcases hinvariant.gone client scopeKey _ after hsplit key hbefore with hnone | hagain
  · refine Or.inl ?_
    rw [getExact]
    split
    · exact get_eq_none_of_live hnone
    · rfl
  · exact Or.inr hagain

/-- The text of a digest. -/
def exampleDigest (digit : Char) : String := String.ofList (List.replicate 64 digit)

/-- A purge of one entry. -/
def examplePurge : List CacheAction :=
  [.set (exampleDigest 'a') "first" 60 (some (exampleDigest 'c')),
    .beginPurge 0 (exampleDigest 'c'), .readMembers 0, .deleteMembers 0 true]

theorem purgesComplete_of_safe_example : ∃ s, CacheRun.run "ai-exact"
    (Workers.idle (ExpiringStore.empty 0)) examplePurge = some s ∧
      getExact "ai-exact" s.rows (exampleDigest 'a') = none := by
  have hset : Safe "ai-exact" (Workers.idle (ExpiringStore.empty 0))
      (.set (exampleDigest 'a') "first" 60 (some (exampleDigest 'c'))) :=
    fun _ _ hstored => absurd hstored List.not_mem_nil
  have hsafe : SafeRun "ai-exact" (Workers.idle (ExpiringStore.empty 0)) examplePurge := by
    refine ⟨hset, fun s₁ h₁ => ⟨trivial, fun s₂ h₂ => ⟨trivial, fun s₃ h₃ =>
      ⟨?_, fun _ _ => trivial⟩⟩⟩⟩
    obtain rfl := Option.some.inj h₁
    obtain rfl := Option.some.inj h₂
    obtain rfl := Option.some.inj h₃
    intro scopeKey members hclient listed hlisted _
    obtain ⟨rfl, hread⟩ := Prod.mk.inj (Option.some.inj hclient)
    exact PurgeControl.read.inj hread ▸ hlisted
  refine ⟨_, rfl, ?_⟩
  have hcomplete := purgesComplete_of_safe hsafe rfl
  exact (hcomplete 0 (exampleDigest 'c') _ [] [] rfl (exampleDigest 'a')
    List.mem_cons_self).resolve_right (fun ⟨_, hagain⟩ => absurd hagain List.not_mem_nil)

/-- A purge leaves an entry that the index of its scope does not list. -/
theorem purge_incomplete_of_unlisted {cacheNamespace : String} {s : CacheRun} {client : Nat}
    {key scopeKey value : String} (hclient : s.executions client = none)
    (hkey : isDigestText key = true) (hscope : isDigestText scopeKey = true)
    (hstored : CacheEvent.stored key (some scopeKey) ∈ s.events)
    (hvalue : getExact cacheNamespace s.rows key = some value)
    (hunlisted : namespacedKey cacheNamespace key ∉
      s.rows.smembers (scopeIndex cacheNamespace scopeKey)) :
    ∃ s', CacheRun.run cacheNamespace s [.beginPurge client scopeKey, .readMembers client,
      .deleteMembers client true] = some s' ∧ ¬ PurgesComplete cacheNamespace s' := by
  let members := s.rows.smembers (scopeIndex cacheNamespace scopeKey)
  let deleted := s.rows.del (members ++ [scopeIndex cacheNamespace scopeKey])
  have hkept : namespacedKey cacheNamespace key ∉
      members ++ [scopeIndex cacheNamespace scopeKey] := by
    intro hmem
    rcases List.mem_append.mp hmem with hlisted | hindex
    · exact hunlisted hlisted
    · exact namespacedKey_ne_scopeIndex hkey (List.mem_singleton.mp hindex)
  have hfound : getExact cacheNamespace deleted key = some value := by
    rw [getExact, ExpiringStore.get, live_del, if_neg hkept]
    exact hvalue
  let s' : CacheRun := ⟨deleted, Function.update (Function.update (Function.update s.executions
    client (some (scopeKey, .begun))) client (some (scopeKey, .read members))) client
      (some (scopeKey, .ended)), .purged client scopeKey :: .purgeBegan client scopeKey :: s.events⟩
  refine ⟨s', ?_, fun hcomplete => ?_⟩
  · simp [CacheRun.run, CacheRun.act, hscope, hclient, Workers.enter, Workers.observe,
      Workers.withRows, s', deleted, members]
  · rcases hcomplete client scopeKey s.events [] [] rfl key hstored with hnone | ⟨_, hagain⟩
    · exact absurd (hnone.symm.trans hfound) (by simp)
    · exact absurd hagain List.not_mem_nil

/-- An entry of a minute and one of a second, set for one scope, and a purge after two seconds. -/
def exampleOrphaned : List CacheAction :=
  [.set (exampleDigest 'a') "first" 60 (some (exampleDigest 'c')),
    .set (exampleDigest 'b') "second" 1 (some (exampleDigest 'c')), .wait 2000,
    .beginPurge 0 (exampleDigest 'c'), .readMembers 0, .deleteMembers 0 true]

theorem purge_incomplete : ∃ s, CacheRun.run "ai-exact" (Workers.idle (ExpiringStore.empty 0))
    exampleOrphaned = some s ∧ ¬ PurgesComplete "ai-exact" s := by
  refine ⟨_, rfl, fun hcomplete => ?_⟩
  rcases hcomplete 0 (exampleDigest 'c') _ [] [] rfl (exampleDigest 'a')
    (List.mem_cons_of_mem _ List.mem_cons_self) with hnone | ⟨_, hagain⟩
  · revert hnone
    decide
  · exact absurd hagain List.not_mem_nil

end LegacyVault
