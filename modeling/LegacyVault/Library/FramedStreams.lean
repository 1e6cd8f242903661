import LegacyVault.Library.Buffers

/-!
# Streams of frames

A stream carries chunks of bytes, each behind its length in four bytes, and an
empty one at its end. A reader takes chunks until it finds the empty one. It
reads back what was framed, and nothing before the end of the stream has come.
-/

namespace LegacyVault.FramedStreams

open Buffers

/-- `writeUInt32BE`: four bytes of a number, the most significant first. -/
def uint32BE (n : Nat) : Bytes :=
  [UInt8.ofNat (n / 16777216), UInt8.ofNat (n / 65536), UInt8.ofNat (n / 256), UInt8.ofNat n]

/-- The number in the first four bytes, and the bytes after it. -/
def readUInt32BE : Bytes → Option (Nat × Bytes)
  | a :: b :: c :: d :: rest =>
    some (a.toNat * 16777216 + b.toNat * 65536 + c.toNat * 256 + d.toNat, rest)
  | _ => none

/-- A chunk behind its length. -/
def frame (chunk : Bytes) : Bytes := uint32BE chunk.length ++ chunk

/-- The frames of some chunks, and an empty one. -/
def framed (chunks : List Bytes) : Bytes := (chunks.map frame).flatten ++ uint32BE 0

theorem readUInt32BE_length {bytes rest : Bytes} {n : Nat}
    (h : readUInt32BE bytes = some (n, rest)) : rest.length + 4 = bytes.length := by
  match bytes, h with
  | a :: b :: c :: d :: tail, h =>
    have hrest : tail = rest := (Prod.mk.inj (Option.some.inj h)).2
    simp only [List.length_cons, hrest]

/-- The bytes of the chunks up to the empty one, and the bytes after it. -/
def unframe (bytes : Bytes) : Option (Bytes × Bytes) :=
  match h : readUInt32BE bytes with
  | none => none
  | some (0, rest) => some ([], rest)
  | some (n + 1, rest) =>
    if n + 1 ≤ rest.length then
      (unframe (rest.drop (n + 1))).map (fun read => (rest.take (n + 1) ++ read.1, read.2))
    else none
termination_by bytes.length
decreasing_by
  have hlength := readUInt32BE_length h
  rw [List.length_drop]
  omega

variable {chunk bytes more data rest : Bytes} {chunks : List Bytes}

theorem readUInt32BE_uint32BE {n : Nat} (h : n < 4294967296) :
    readUInt32BE (uint32BE n ++ rest) = some (n, rest) := by
  simp only [uint32BE, List.cons_append, List.nil_append, readUInt32BE, UInt8.toNat_ofNat',
    Option.some.injEq, Prod.mk.injEq, and_true]
  omega

theorem readUInt32BE_append {n : Nat} (h : readUInt32BE bytes = some (n, rest)) :
    readUInt32BE (bytes ++ more) = some (n, rest ++ more) := by
  match bytes, h with
  | a :: b :: c :: d :: tail, h =>
    obtain ⟨hn, hrest⟩ := Prod.mk.inj (Option.some.inj h)
    simp only [List.cons_append, readUInt32BE, hn, hrest]

/-- One chunk is read, and then the others. -/
theorem unframe_eq (bytes : Bytes) : unframe bytes =
    match readUInt32BE bytes with
    | none => none
    | some (0, rest) => some ([], rest)
    | some (n + 1, rest) =>
      if n + 1 ≤ rest.length then
        (unframe (rest.drop (n + 1))).map (fun read => (rest.take (n + 1) ++ read.1, read.2))
      else none := by
  rw [unframe]
  split <;> simp only [*]

/-- What the empty chunk ends. -/
theorem unframe_end : unframe (uint32BE 0 ++ rest) = some ([], rest) := by
  rw [unframe_eq, readUInt32BE_uint32BE (by omega)]

/-- A chunk is read from its frame. -/
theorem unframe_frame (hchunk : chunk ≠ []) (hlength : chunk.length < 4294967296) :
    unframe (frame chunk ++ rest) =
      (unframe rest).map (fun read => (chunk ++ read.1, read.2)) := by
  have hread : readUInt32BE (frame chunk ++ rest) = some (chunk.length, chunk ++ rest) := by
    rw [frame, List.append_assoc, readUInt32BE_uint32BE hlength]
  obtain ⟨n, hn⟩ := Nat.exists_eq_succ_of_ne_zero (List.length_pos_iff.mpr hchunk).ne'
  have hwhole : n + 1 ≤ (chunk ++ rest).length := by
    rw [List.length_append]
    omega
  have htake : (chunk ++ rest).take (n + 1) = chunk := List.take_left' hn
  have hdrop : (chunk ++ rest).drop (n + 1) = rest := List.drop_left' hn
  rw [unframe_eq, hread, hn]
  simp only [if_pos hwhole, htake, hdrop]

/-- What was framed is read back, up to its end. -/
theorem unframe_framed (h : ∀ chunk ∈ chunks, chunk ≠ [] ∧ chunk.length < 4294967296) :
    unframe (framed chunks ++ rest) = some (chunks.flatten, rest) := by
  induction chunks with
  | nil => exact unframe_end
  | cons chunk chunks ih =>
    obtain ⟨⟨hchunk, hlength⟩, hrest⟩ := List.forall_mem_cons.mp h
    have hcons : framed (chunk :: chunks) ++ rest = frame chunk ++ (framed chunks ++ rest) := by
      simp only [framed, List.map_cons, List.flatten_cons, List.append_assoc]
    rw [hcons, unframe_frame hchunk hlength, ih hrest]
    rfl

/-- More bytes do not change what has been read. -/
theorem unframe_append (h : unframe bytes = some (data, rest)) :
    unframe (bytes ++ more) = some (data, rest ++ more) := by
  induction bytes using unframe.induct generalizing data with
  | case1 bytes hread =>
    rw [unframe_eq, hread] at h
    exact absurd h (by simp)
  | case2 bytes read hread =>
    rw [unframe_eq, hread] at h
    obtain ⟨rfl, rfl⟩ := Prod.mk.inj (Option.some.inj h)
    rw [unframe_eq, readUInt32BE_append hread]
  | case3 bytes n read hread hlength ih =>
    rw [unframe_eq, hread] at h
    simp only [if_pos hlength] at h
    obtain ⟨⟨others, after⟩, hothers, hdata⟩ := Option.map_eq_some_iff.mp h
    obtain ⟨rfl, rfl⟩ := Prod.mk.inj hdata
    have hmore : n + 1 ≤ (read ++ more).length := by
      rw [List.length_append]
      omega
    rw [unframe_eq, readUInt32BE_append hread]
    simp only [if_pos hmore, List.drop_append_of_le_length hlength,
      List.take_append_of_le_length hlength, ih hothers, Option.map_some]
  | case4 bytes n read hread hlength =>
    rw [unframe_eq, hread] at h
    simp only [if_neg hlength] at h
    exact absurd h (by simp)

/-- Nothing is read of a stream before its end has come. -/
theorem unframe_incomplete (h : ∀ chunk ∈ chunks, chunk ≠ [] ∧ chunk.length < 4294967296)
    (hbytes : bytes <+: framed chunks) (hread : unframe bytes = some (data, rest)) :
    bytes = framed chunks ∧ data = chunks.flatten ∧ rest = [] := by
  obtain ⟨more, hmore⟩ := hbytes
  have hwhole : unframe (framed chunks) = some (chunks.flatten, []) := by
    rw [← List.append_nil (framed chunks), unframe_framed h]
  rw [← hmore, unframe_append hread] at hwhole
  obtain ⟨hdata, hrest⟩ := Prod.mk.inj (Option.some.inj hwhole)
  obtain ⟨rfl, rfl⟩ := List.append_eq_nil_iff.mp hrest
  rw [List.append_nil] at hmore
  exact ⟨hmore, hdata, rfl⟩

end LegacyVault.FramedStreams
