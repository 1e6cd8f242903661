import Mathlib.Data.List.Basic
import Mathlib.Tactic.Common

/-!
# Caches of labelled values

An insertion-ordered map as a program keeps one in memory. Setting a key again
keeps its place, and a map over its bound loses its oldest entry. Every value
carries a label that says where it comes from.

A relation between keys and labelled values that holds of every entry is kept
by setting, deleting and bounding: see `Holds`. What a bounded map still holds
under a key depends on the keys that came after it: see `keysAfter`.
-/

namespace LegacyVault.LabelledCache

/-- A value with where it comes from. -/
structure Labelled (L V : Type) where
  /-- The value. -/
  value : V
  /-- Where it comes from. -/
  label : L

/-- An insertion-ordered map, oldest entry first. -/
abbrev Cache (K L V : Type) := List (K × Labelled L V)

variable {K L V : Type} [DecidableEq K]

namespace Cache

/-- The entry under a key. -/
def get (cache : Cache K L V) (key : K) : Option (Labelled L V) := cache.lookup key

/-- Replace the entry under a key in its place, or append a new one. -/
def set (cache : Cache K L V) (key : K) (value : Labelled L V) : Cache K L V :=
  if (cache.get key).isSome then
    cache.map (fun entry => if entry.1 = key then (key, value) else entry)
  else cache ++ [(key, value)]

/-- Remove the entry under a key. -/
def delete (cache : Cache K L V) (key : K) : Cache K L V :=
  cache.filter (fun entry => entry.1 ≠ key)

/-- Drop the oldest entry of a map that is over its bound. -/
def bound (limit : Nat) (cache : Cache K L V) : Cache K L V :=
  if limit < cache.length then cache.tail else cache

/-- The relation holds of every entry. -/
def Holds (R : K → Labelled L V → Prop) (cache : Cache K L V) : Prop :=
  ∀ entry ∈ cache, R entry.1 entry.2

variable {R R' : K → Labelled L V → Prop} {cache : Cache K L V}

omit [DecidableEq K] in
theorem holds_nil : Holds R ([] : Cache K L V) := fun _ hmem => absurd hmem (by simp)

omit [DecidableEq K] in
theorem Holds.mono (h : Holds R cache) (hR : ∀ key value, R key value → R' key value) :
    Holds R' cache :=
  fun entry hmem => hR _ _ (h entry hmem)

/-- What is found under a key is related to it. -/
theorem Holds.get (h : Holds R cache) {key : K} {value : Labelled L V}
    (hget : cache.get key = some value) : R key value := by
  induction cache with
  | nil => simp [Cache.get] at hget
  | cons entry cache ih =>
    obtain ⟨key', value'⟩ := entry
    by_cases hkey : key = key'
    · have hvalue : value' = value := by simpa [Cache.get, List.lookup_cons, hkey] using hget
      rw [hkey, ← hvalue]
      exact h (key', value') List.mem_cons_self
    · have hne : (key == key') = false := beq_eq_false_iff_ne.mpr hkey
      have hrest : Cache.get cache key = some value := by
        simpa [Cache.get, List.lookup_cons, hne] using hget
      exact ih (fun entry hmem => h entry (List.mem_cons_of_mem _ hmem)) hrest

theorem Holds.set (h : Holds R cache) {key : K} {value : Labelled L V} (hvalue : R key value) :
    Holds R (cache.set key value) := by
  intro entry hmem
  unfold Cache.set at hmem
  split at hmem
  · obtain ⟨old, hold, hentry⟩ := List.mem_map.mp hmem
    by_cases hkey : old.1 = key
    · rw [if_pos hkey] at hentry
      rw [← hentry]
      exact hvalue
    · rw [if_neg hkey] at hentry
      rw [← hentry]
      exact h old hold
  · rcases List.mem_append.mp hmem with hold | hnew
    · exact h entry hold
    · rw [List.mem_singleton.mp hnew]
      exact hvalue

theorem Holds.delete (h : Holds R cache) (key : K) : Holds R (cache.delete key) :=
  fun entry hmem => h entry (List.mem_filter.mp hmem).1

omit [DecidableEq K] in
theorem Holds.bound (h : Holds R cache) (limit : Nat) : Holds R (cache.bound limit) := by
  intro entry hmem
  unfold Cache.bound at hmem
  split at hmem
  · exact h entry (List.mem_of_mem_tail hmem)
  · exact h entry hmem

/-! ## What a bounded map forgets -/

section Order

variable {key other : K} {value : Labelled L V}

/-- The keys, oldest first. -/
def keys (cache : Cache K L V) : List K := cache.map Prod.fst

/-- The keys that came after a key. -/
def keysAfter (key : K) (cache : Cache K L V) : List K := (cache.keys.dropWhile (· ≠ key)).tail

omit [DecidableEq K] in
@[simp] theorem keys_cons (entry : K × Labelled L V) (cache : Cache K L V) :
    keys (entry :: cache) = entry.1 :: keys cache := rfl

/-- Nothing is found under a key that the map does not have. -/
theorem get_eq_none_iff : cache.get key = none ↔ key ∉ cache.keys := by
  simp [Cache.get, keys, List.lookup_eq_none_iff]
  grind

/-- Setting a key that is there keeps the keys. -/
theorem keys_set_of_some (h : cache.get key ≠ none) (value : Labelled L V) :
    (cache.set key value).keys = cache.keys := by
  have hsome : (cache.get key).isSome = true := Option.isSome_iff_ne_none.mpr h
  rw [Cache.set, if_pos hsome, keys, List.map_map, keys]
  refine List.map_congr_left ?_
  intro entry _
  by_cases hkey : entry.1 = key
  · simp [hkey]
  · simp [hkey]

/-- Under the oldest key stands its entry. -/
theorem get_cons (entry : K × Labelled L V) (cache : Cache K L V) (key : K) :
    Cache.get (entry :: cache) key = if entry.1 = key then some entry.2 else cache.get key := by
  obtain ⟨oldest, held⟩ := entry
  by_cases hkey : oldest = key
  · simp [Cache.get, hkey]
  · have hne : (key == oldest) = false := beq_eq_false_iff_ne.mpr (Ne.symm hkey)
    simp [Cache.get, List.lookup_cons, hne, hkey]

/-- What is set is found. -/
theorem get_set_self (cache : Cache K L V) (key : K) (value : Labelled L V) :
    (cache.set key value).get key = some value := by
  unfold Cache.set
  split
  · rename_i hsome
    induction cache with
    | nil => exact absurd hsome (by simp [Cache.get])
    | cons entry cache ih =>
      rw [get_cons] at hsome
      rw [List.map_cons, get_cons]
      by_cases hkey : entry.1 = key
      · simp [hkey]
      · rw [if_neg hkey] at hsome
        simp only [if_neg hkey]
        exact ih hsome
  · rename_i hnone
    induction cache with
    | nil => simp [get_cons]
    | cons entry cache ih =>
      rw [get_cons] at hnone
      by_cases hkey : entry.1 = key
      · simp [hkey] at hnone
      · rw [if_neg hkey] at hnone
        rw [List.cons_append, get_cons, if_neg hkey]
        exact ih hnone

/-- What is under another key stays. -/
theorem get_set_of_ne (cache : Cache K L V) (hne : other ≠ key) (value : Labelled L V) :
    (cache.set other value).get key = cache.get key := by
  unfold Cache.set
  split
  · clear * - hne
    induction cache with
    | nil => rfl
    | cons entry cache ih =>
      rw [List.map_cons, get_cons, get_cons, ih]
      by_cases hother : entry.1 = other
      · simp [hother, hne]
      · simp [hother]
  · clear * - hne
    induction cache with
    | nil => simp [get_cons, hne]
    | cons entry cache ih => rw [List.cons_append, get_cons, get_cons, ih]

/-- The keys after the oldest one. -/
theorem keysAfter_cons (entry : K × Labelled L V) (cache : Cache K L V) (key : K) :
    keysAfter key (entry :: cache) =
      if entry.1 = key then cache.keys else cache.keysAfter key := by
  by_cases hkey : entry.1 = key
  · simp [keysAfter, hkey]
  · simp [keysAfter, hkey]

/-- A key the map does not have has none after it. -/
theorem keysAfter_of_none (h : cache.get key = none) : cache.keysAfter key = [] := by
  induction cache with
  | nil => rfl
  | cons entry cache ih =>
    rw [get_cons] at h
    by_cases hkey : entry.1 = key
    · simp [hkey] at h
    · rw [if_neg hkey] at h
      rw [keysAfter_cons, if_neg hkey, ih h]

/-- A map forgets a key only after as many other keys as its bound. -/
theorem bound_of_keysAfter {limit : Nat} (h : (cache.keysAfter key).length < limit) :
    (cache.bound limit).get key = cache.get key ∧
      (cache.bound limit).keysAfter key = cache.keysAfter key := by
  unfold Cache.bound
  split
  · rename_i hlong
    cases cache with
    | nil => exact ⟨rfl, rfl⟩
    | cons entry cache =>
      rw [keysAfter_cons] at h
      by_cases hkey : entry.1 = key
      · have hshort : cache.length < limit := by simpa [hkey, keys] using h
        have hover : limit < cache.length + 1 := by simpa using hlong
        omega
      · simp [get_cons, keysAfter_cons, hkey]
  · exact ⟨rfl, rfl⟩

/-- What comes after a key is in the map. -/
theorem keysAfter_sublist (key : K) (cache : Cache K L V) :
    (cache.keysAfter key).Sublist cache.keys :=
  (List.tail_sublist _).trans (List.dropWhile_sublist _)

/-- A new entry comes after every key the map has. -/
theorem keysAfter_append (h : cache.get key ≠ none) (entry : K × Labelled L V) :
    keysAfter key (cache ++ [entry]) = cache.keysAfter key ++ [entry.1] := by
  induction cache with
  | nil => exact absurd rfl h
  | cons first cache ih =>
    rw [get_cons] at h
    rw [List.cons_append, keysAfter_cons, keysAfter_cons]
    by_cases hkey : first.1 = key
    · simp [hkey, keys]
    · rw [if_neg hkey] at h
      rw [if_neg hkey, if_neg hkey, ih h]

/-- Setting another key brings at most that key, last, after a key. -/
theorem keysAfter_set (cache : Cache K L V) (hne : other ≠ key) (value : Labelled L V) :
    (cache.set other value).keysAfter key = cache.keysAfter key ∨
      cache.get other = none ∧
        (cache.set other value).keysAfter key = cache.keysAfter key ++ [other] := by
  by_cases hother : cache.get other = none
  · by_cases hkey : cache.get key = none
    · have hstill : (cache.set other value).get key = none := by
        rw [get_set_of_ne cache hne, hkey]
      exact Or.inl ((keysAfter_of_none hstill).trans (keysAfter_of_none hkey).symm)
    · refine Or.inr ⟨hother, ?_⟩
      rw [Cache.set, if_neg (by simp [hother]), keysAfter_append hkey]
  · exact Or.inl (by rw [keysAfter, keys_set_of_some hother, keysAfter])

/-- Nothing comes after a key that is new. -/
theorem keysAfter_set_self (h : cache.get key = none) (value : Labelled L V) :
    (cache.set key value).keysAfter key = [] := by
  rw [Cache.set, if_neg (by simp [h])]
  induction cache with
  | nil => simp [keysAfter_cons, keys]
  | cons first cache ih =>
    rw [get_cons] at h
    by_cases hkey : first.1 = key
    · simp [hkey] at h
    · rw [if_neg hkey] at h
      rw [List.cons_append, keysAfter_cons, if_neg hkey, ih h]

end Order

end Cache

end LegacyVault.LabelledCache
