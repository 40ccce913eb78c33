import MailServer.Store.KeyCollisions

/-!
# Archives

`Archiver::serialize`, the readers of `Archive<AlignedBytes>` and `Archive::into_inner`
(`store/src/write/serialize.rs`). The contents of an archive are followed by their hash, by the
change id that a commit puts in, and by a marker that tells which of these there are. The hash is
any function; how the bytes are aligned in memory is left out.

Principal results: `deserialize_intoInner_iff`, `layout_agrees`.
-/

namespace MailServer.Store.Archiving

open List Option

def MAGIC_MARKER : UInt8 := 0x80
def VERSIONED : UInt8 := 0x40
def HASHED : UInt8 := 0x20
def LZ4_COMPRESSED : UInt8 := 0x10
def COMPRESS_WATERMARK : ℕ := 8192

/-- `compress_into`, and `decompress_into` for a buffer of the given size, which inverts it. -/
structure Lz4Block where
  compress : Bytes → Bytes
  decompressInto : Bytes → ℕ → Option Bytes
  inverts : ∀ data, decompressInto (compress data) data.length = some data

structure Archive where
  version : ArchiveVersion
  inner : Bytes

/-! ## Reading -/

/-- `bytes.split_at_checked(bytes.len() - n)`; a difference below zero wraps around. -/
def splitTrailing (bytes : Bytes) (n : ℕ) : Option (Bytes × Bytes) :=
  if n ≤ bytes.length then some (bytes.splitAt (bytes.length - n)) else none

section Functions

variable (xxh3 : Bytes → UInt32) (lz4 : Lz4Block)

/-- Splits the hash off the contents, if it is theirs. -/
def splitHash (bytes : Bytes) : Option (Bytes × UInt32) := do
  let (contents, archiveHash) ← splitTrailing bytes U32_LEN
  if beU32 (xxh3 contents) = archiveHash then some (contents, xxh3 contents) else none

def splitVersion (marker : UInt8) (contents : Bytes) : Option (Bytes × ArchiveVersion) :=
  if marker &&& VERSIONED ≠ 0 then do
    let (contents, changeId) ← splitTrailing contents U64_LEN
    let (contents, hash) ← splitHash xxh3 contents
    some (contents, .versioned (UInt64.ofNat (beNat changeId)) hash)
  else if marker &&& HASHED ≠ 0 then do
    let (contents, hash) ← splitHash xxh3 contents
    some (contents, .hashed hash)
  else some (contents, .unversioned)

def validateMarkerAndContents (bytes : Bytes) : Option (UInt8 × Bytes × ArchiveVersion) := do
  let marker ← bytes.getLast?
  if marker &&& MAGIC_MARKER = 0 then none
  else (splitVersion xxh3 marker bytes.dropLast).map (marker, ·)

def alignedLz4Deflate (archive : Bytes) : Option Bytes :=
  if archive.length < U32_LEN then none
  else lz4.decompressInto (archive.drop U32_LEN) (beNat (archive.take U32_LEN).reverse)

def deserialize (bytes : Bytes) : Option Archive := do
  let (marker, contents, version) ← validateMarkerAndContents xxh3 bytes
  if marker &&& LZ4_COMPRESSED = 0 then some ⟨version, contents⟩
  else (alignedLz4Deflate lz4 contents).map (⟨version, ·⟩)

def deserializeOwned (bytes : Bytes) : Option Archive := do
  let (marker, contents, version) ← validateMarkerAndContents xxh3 bytes
  if marker &&& LZ4_COMPRESSED = 0 then some ⟨version, bytes.take contents.length⟩
  else (alignedLz4Deflate lz4 contents).map (⟨version, ·⟩)

def extractHash (bytes : Bytes) : Option UInt32 := do
  let marker ← bytes.getLast?
  let slice ←
    if marker &&& VERSIONED ≠ 0 then getTrailing bytes U32_LEN (U64_LEN + 1)
    else if marker &&& HASHED ≠ 0 then getTrailing bytes U32_LEN 1
    else none
  some (UInt32.ofNat (beNat slice))

def Archive.intoInner (archive : Archive) : Bytes :=
  archive.inner ++
    match archive.version with
    | .versioned changeId hash =>
      beU64 changeId ++ beU32 hash ++ [MAGIC_MARKER ||| VERSIONED ||| HASHED]
    | .hashed hash => beU32 hash ++ [MAGIC_MARKER ||| HASHED]
    | .unversioned => [MAGIC_MARKER]

/-! ## Writing -/

/-- `untrusted`, `new` and `with_version`, with the change id of the commit. -/
inductive Archiver where
  | untrusted
  | hashed
  | versioned (changeId : UInt64)

def Archiver.flags : Archiver → UInt8
  | .untrusted => MAGIC_MARKER
  | .hashed => MAGIC_MARKER ||| HASHED
  | .versioned _ => MAGIC_MARKER ||| HASHED ||| VERSIONED

/-- Large input is compressed, if that makes it smaller. -/
def compresses (input : Bytes) : Bool :=
  decide (COMPRESS_WATERMARK < input.length) &&
    decide ((lz4.compress input).length < input.length)

/-- `Archiver::serialize`, of the input as `rkyv` gives it. -/
def serialize (flags : UInt8) (input : Bytes) : Bytes :=
  let versionOffset := if flags &&& VERSIONED ≠ 0 then U64_LEN else 0
  if compresses lz4 input then
    let bytes := (beU32 (UInt32.ofNat input.length)).reverse ++ lz4.compress input
    if flags &&& HASHED ≠ 0 then
      bytes ++ beU32 (xxh3 bytes) ++
        replicate (versionOffset + 1) (flags ||| LZ4_COMPRESSED)
    else bytes ++ [flags ||| LZ4_COMPRESSED]
  else
    input ++ (if flags &&& HASHED ≠ 0 then beU32 (xxh3 input) else []) ++
      replicate versionOffset 0 ++ [flags]

/-- What is stored: the commit puts its change id before the marker. -/
def Archiver.store (archiver : Archiver) (input : Bytes) : Bytes :=
  let archive := serialize xxh3 lz4 archiver.flags input
  match archiver with
  | .versioned changeId =>
    archive.take (archive.length - U64_LEN - 1) ++ beU64 changeId ++ archive.getLast?.toList
  | _ => archive

end Functions

/-! ## Taking archives apart -/

variable {xxh3 : Bytes → UInt32} {lz4 : Lz4Block}

theorem splitTrailing_append (before after : Bytes) :
    splitTrailing (before ++ after) after.length = some (before, after) := by
  unfold splitTrailing
  simp

theorem splitHash_append (contents : Bytes) (hash : UInt32) :
    splitHash xxh3 (contents ++ beU32 hash) =
      if xxh3 contents = hash then some (contents, hash) else none := by
  unfold splitHash
  rw [show U32_LEN = (beU32 hash).length from rfl, splitTrailing_append]
  by_cases h : xxh3 contents = hash
  · simp [h]
  · have hne : beU32 (xxh3 contents) ≠ beU32 hash := fun heq => h (beU32_injective heq)
    simp [h]

theorem validate_append {marker : UInt8} (hmagic : marker &&& MAGIC_MARKER ≠ 0)
    (contents : Bytes) :
    validateMarkerAndContents xxh3 (contents ++ [marker]) =
      (splitVersion xxh3 marker contents).map (marker, ·) := by
  unfold validateMarkerAndContents
  simp [hmagic]

theorem deserialize_append {marker : UInt8} (hmagic : marker &&& MAGIC_MARKER ≠ 0)
    (hplain : marker &&& LZ4_COMPRESSED = 0) (contents : Bytes) :
    deserialize xxh3 lz4 (contents ++ [marker]) =
      (splitVersion xxh3 marker contents).map fun split => ⟨split.2, split.1⟩ := by
  unfold deserialize
  rw [validate_append hmagic]
  cases splitVersion xxh3 marker contents <;> simp [hplain]

/-! ## Writing an archive back -/

theorem toNat_halves (n : UInt64) :
    n.toNat = (n >>> 32).toUInt32.toNat * 2 ^ 32 + n.toUInt32.toNat := by
  have h := n.toNat_lt
  simp
  omega

theorem beNat_halves (a b : UInt32) :
    beNat (beU32 a ++ beU32 b) = a.toNat * 2 ^ 32 + b.toNat := by
  rw [beNat_append, beNat_beU32, beNat_beU32, length_beU32,
    show 256 ^ U32_LEN = 2 ^ 32 by norm_num [U32_LEN]]

/-- An archive that is restored: its hash is that of its payload, and where it has a change id, both
halves of it are that hash. -/
def Restorable (xxh3 : Bytes → UInt32) (archive : Archive) : Prop :=
  match archive.version with
  | .versioned changeId hash => xxh3 archive.inner = hash ∧
      (changeId >>> 32).toUInt32 = hash ∧ changeId.toUInt32 = hash
  | .hashed hash => xxh3 archive.inner = hash
  | .unversioned => True

/-- **`into_inner`** gives back the archives that are restorable, and no others. -/
theorem deserialize_intoInner_iff (xxh3 : Bytes → UInt32) (lz4 : Lz4Block) (archive : Archive) :
    deserialize xxh3 lz4 archive.intoInner = some archive ↔ Restorable xxh3 archive := by
  obtain ⟨version, inner⟩ := archive
  unfold Archive.intoInner Restorable
  cases version with
  | unversioned =>
    simp only
    rw [deserialize_append (by decide) (by decide), splitVersion, if_neg (by decide),
      if_neg (by decide)]
    simp
  | hashed hash =>
    simp only
    rw [← append_assoc, deserialize_append (by decide) (by decide), splitVersion,
      if_neg (by decide), if_pos (by decide), splitHash_append]
    by_cases h : xxh3 inner = hash <;> simp [h]
  | versioned changeId hash =>
    have hsplit : splitTrailing (inner ++ (beU64 changeId ++ beU32 hash)) U64_LEN =
        some (inner ++ beU32 (changeId >>> 32).toUInt32,
          beU32 changeId.toUInt32 ++ beU32 hash) := by
      have h := splitTrailing_append (inner ++ beU32 (changeId >>> 32).toUInt32)
        (beU32 changeId.toUInt32 ++ beU32 hash)
      rwa [append_assoc, ← append_assoc (beU32 _) (beU32 _) (beU32 hash),
        ← beU64_split] at h
    have hid : UInt64.ofNat (changeId.toUInt32.toNat * 2 ^ 32 + hash.toNat) = changeId ↔
        (changeId >>> 32).toUInt32 = changeId.toUInt32 ∧ hash = changeId.toUInt32 := by
      have hhash := hash.toNat_lt
      have hlo := changeId.toUInt32.toNat_lt
      rw [← UInt64.toNat_inj, ← UInt32.toNat_inj, ← UInt32.toNat_inj, UInt64.toNat_ofNat',
        Nat.mod_eq_of_lt (by omega), toNat_halves changeId]
      omega
    simp only
    rw [← append_assoc, deserialize_append (by decide) (by decide), splitVersion,
      if_pos (by decide), hsplit]
    simp only [bind_eq_bind, bind_some, splitHash_append, beNat_halves]
    by_cases h : xxh3 inner = (changeId >>> 32).toUInt32
    · simp only [h, if_true, bind_some, map_some, some_inj, Archive.mk.injEq,
        ArchiveVersion.versioned.injEq, hid, and_true]
      constructor
      · rintro ⟨⟨hhi, hlo⟩, hhash⟩
        exact ⟨hhash, hhash, hlo.symm⟩
      · rintro ⟨hhash, -, hlo⟩
        exact ⟨⟨hhash.trans hlo.symm, hlo.symm⟩, hhash⟩
    · simp only [if_neg h, bind_none, map_none, reduceCtorEq, false_iff]
      rintro ⟨hhash, hhi, -⟩
      exact h (hhash.trans hhi.symm)

/-- A codec that leaves its input as it is. -/
def storedBlock : Lz4Block := ⟨id, fun data _ => some data, fun _ => rfl⟩

/-- An empty payload, the hash of which is `0x38d394c2`, stored with change id 1. -/
theorem intoInner_lost :
    ∃ archive, deserialize (fun _ => 0x38d394c2) storedBlock
        (beU32 0x38d394c2 ++ beU64 1 ++ [MAGIC_MARKER ||| VERSIONED ||| HASHED]) = some archive ∧
      deserialize (fun _ => 0x38d394c2) storedBlock archive.intoInner = none :=
  ⟨⟨.versioned 1 0x38d394c2, []⟩, by rfl, by rfl⟩

/-! ## Reading back what is written -/

/-- The contents of the archive of an input. -/
def encoded (lz4 : Lz4Block) (input : Bytes) : Bytes :=
  if compresses lz4 input then (beU32 (UInt32.ofNat input.length)).reverse ++ lz4.compress input
  else input

section Layout

variable (xxh3 : Bytes → UInt32) (lz4 : Lz4Block) (archiver : Archiver) (input : Bytes)

def Archiver.version : ArchiveVersion :=
  match archiver with
  | .untrusted => .unversioned
  | .hashed => .hashed (xxh3 (encoded lz4 input))
  | .versioned changeId => .versioned changeId (xxh3 (encoded lz4 input))

def Archiver.marker : UInt8 :=
  if compresses lz4 input then archiver.flags ||| LZ4_COMPRESSED else archiver.flags

end Layout

/-- What stands between the contents and the marker. -/
def trailer : ArchiveVersion → Bytes
  | .unversioned => []
  | .hashed hash => beU32 hash
  | .versioned changeId hash => beU32 hash ++ beU64 changeId

def hashOf : ArchiveVersion → Option UInt32
  | .unversioned => none
  | .hashed hash | .versioned _ hash => some hash

variable {archiver archiver' : Archiver} {input input' : Bytes}

theorem marker_bits (lz4 : Lz4Block) (archiver : Archiver) (input : Bytes) :
    archiver.marker lz4 input &&& MAGIC_MARKER ≠ 0 ∧
    archiver.marker lz4 input &&& VERSIONED = archiver.flags &&& VERSIONED ∧
    archiver.marker lz4 input &&& HASHED = archiver.flags &&& HASHED ∧
    (archiver.marker lz4 input &&& LZ4_COMPRESSED = 0 ↔ compresses lz4 input = false) := by
  unfold Archiver.marker
  generalize compresses lz4 input = large
  cases archiver <;> cases large <;> simp only [Archiver.flags] <;> decide

theorem serialize_eq (archiver : Archiver) (hhashed : archiver.flags &&& HASHED ≠ 0) :
    ∃ fill,
    fill.length = (if archiver.flags &&& VERSIONED ≠ 0 then U64_LEN else 0) ∧
      serialize xxh3 lz4 archiver.flags input =
        encoded lz4 input ++ beU32 (xxh3 (encoded lz4 input)) ++ fill ++
          [archiver.marker lz4 input] := by
  unfold serialize encoded Archiver.marker
  cases compresses lz4 input with
  | true =>
    refine ⟨replicate _ (archiver.flags ||| LZ4_COMPRESSED), length_replicate, ?_⟩
    simp only [if_true, if_pos hhashed, replicate_succ', ← append_assoc]
  | false =>
    refine ⟨replicate _ 0, length_replicate, ?_⟩
    simp only [Bool.false_eq_true, if_false, if_pos hhashed]

/-- **The layout of what is stored.** -/
theorem store_eq : archiver.store xxh3 lz4 input =
    encoded lz4 input ++ trailer (archiver.version xxh3 lz4 input) ++
      [archiver.marker lz4 input] := by
  unfold Archiver.store trailer Archiver.version
  cases archiver with
  | untrusted =>
    have hflags : Archiver.untrusted.flags &&& HASHED = 0 ∧
        Archiver.untrusted.flags &&& VERSIONED = 0 := by decide
    unfold serialize encoded Archiver.marker
    cases compresses lz4 input <;> simp [hflags]
  | hashed =>
    obtain ⟨fill, hlength, heq⟩ := serialize_eq .hashed (by decide)
    rw [if_neg (by decide), length_eq_zero_iff] at hlength
    simp only
    rw [heq, hlength, append_nil]
  | versioned changeId =>
    obtain ⟨fill, hlength, heq⟩ := serialize_eq (.versioned changeId)
      (by rw [Archiver.flags]; decide)
    rw [if_pos (by rw [Archiver.flags]; decide)] at hlength
    simp only
    rw [heq, ← append_assoc (encoded lz4 input)]
    generalize encoded lz4 input ++ beU32 (xxh3 (encoded lz4 input)) = before
    have hbefore : (before ++ fill ++ [Archiver.marker lz4 (.versioned changeId) input]).length -
        U64_LEN - 1 = before.length := by
      simp only [length_append, length_singleton]
      omega
    rw [hbefore]
    simp

theorem splitVersion_store :
    splitVersion xxh3 (archiver.marker lz4 input)
        (encoded lz4 input ++ trailer (archiver.version xxh3 lz4 input)) =
      some (encoded lz4 input, archiver.version xxh3 lz4 input) := by
  obtain ⟨-, hversioned, hhashed, -⟩ := marker_bits lz4 archiver input
  unfold splitVersion
  rw [hversioned, hhashed]
  cases archiver with
  | untrusted =>
    rw [if_neg (by decide), if_neg (by decide)]
    simp [trailer, Archiver.version]
  | hashed =>
    rw [if_neg (by decide), if_pos (by decide)]
    simp [trailer, Archiver.version, splitHash_append]
  | versioned changeId =>
    rw [if_pos (by rw [Archiver.flags]; decide)]
    simp only [trailer, Archiver.version]
    rw [← append_assoc, show U64_LEN = (beU64 changeId).length from rfl,
      splitTrailing_append]
    simp [splitHash_append, beNat_beU64]

theorem alignedLz4Deflate_encoded (hlength : input.length < 2 ^ 32) :
    alignedLz4Deflate lz4 ((beU32 (UInt32.ofNat input.length)).reverse ++ lz4.compress input) =
      some input := by
  have hsize : (beU32 (UInt32.ofNat input.length)).reverse.length = U32_LEN := by simp
  unfold alignedLz4Deflate
  rw [if_neg (by simp), ← hsize, take_left, drop_left, reverse_reverse,
    beNat_beU32, UInt32.toNat_ofNat_of_lt' hlength, lz4.inverts]

theorem getTrailing_hashed : getTrailing (Archiver.hashed.store xxh3 lz4 input) U32_LEN 1 =
    some (beU32 (xxh3 (encoded lz4 input))) := by
  rw [store_eq]
  exact getTrailing_append _ (beU32 _) [_]

theorem getTrailing_versioned (changeId : UInt64) :
    getTrailing ((Archiver.versioned changeId).store xxh3 lz4 input) U32_LEN (U64_LEN + 1) =
      some (beU32 (xxh3 (encoded lz4 input))) := by
  have h := getTrailing_append (encoded lz4 input) (beU32 (xxh3 (encoded lz4 input)))
    (beU64 changeId ++ [(Archiver.versioned changeId).marker lz4 input])
  rw [store_eq, Archiver.version, trailer, append_assoc, append_assoc (beU32 _),
    ← append_assoc]
  exact h

/-- **The layout agrees**: what is stored is read back, `extract_hash` gives its hash, and the
assertion of its version matches it, unless it has none, and the archives of the same kind and hash,
whatever their change id. -/
theorem layout_agrees (xxh3 : Bytes → UInt32) (lz4 : Lz4Block) (archiver : Archiver)
    (input : Bytes) (h : input.length < 2 ^ 32 ∨ compresses lz4 input = false) :
    let stored := archiver.store xxh3 lz4 input
    let version := archiver.version xxh3 lz4 input
    deserialize xxh3 lz4 stored = some ⟨version, input⟩ ∧
      deserializeOwned xxh3 lz4 stored = some ⟨version, input⟩ ∧
      extractHash stored = hashOf version ∧
      AssertValue.matches stored (.archive version) = (hashOf version).isSome ∧
      ∀ (archiver' : Archiver) (input' : Bytes), archiver'.flags = archiver.flags →
        (AssertValue.matches (archiver'.store xxh3 lz4 input') (.archive version) ↔
          hashOf (archiver'.version xxh3 lz4 input') = hashOf version ∧
            version ≠ .unversioned) := by
  intro stored version
  obtain ⟨hmagic, hversioned, hhashed, hplain⟩ := marker_bits lz4 archiver input
  have hstored : stored = encoded lz4 input ++ trailer version ++ [archiver.marker lz4 input] :=
    store_eq
  have hvalidate : validateMarkerAndContents xxh3 stored =
      some (archiver.marker lz4 input, encoded lz4 input, version) := by
    rw [hstored, validate_append hmagic, splitVersion_store]
    rfl
  have hmatches (archiver' : Archiver) (input' : Bytes)
    (hflags : archiver'.flags = archiver.flags) :
      AssertValue.matches (archiver'.store xxh3 lz4 input') (.archive version) ↔
        hashOf (archiver'.version xxh3 lz4 input') = hashOf version ∧ version ≠ .unversioned := by
    cases archiver with
    | untrusted => simp [version, Archiver.version, AssertValue.matches]
    | hashed =>
      cases archiver' with
      | untrusted => cases hflags
      | hashed =>
        simp [version, Archiver.version, AssertValue.matches, getTrailing_hashed, hashOf]
      | versioned changeId => exact absurd hflags (by rw [Archiver.flags, Archiver.flags]; decide)
    | versioned changeId =>
      cases archiver' with
      | untrusted | hashed => exact absurd hflags (by rw [Archiver.flags, Archiver.flags]; decide)
      | versioned changeId' =>
        simp [version, Archiver.version, AssertValue.matches, getTrailing_versioned, hashOf]
  refine ⟨?_, ?_, ?_, ?_, hmatches⟩
  · rw [deserialize, hvalidate]
    cases hc : compresses lz4 input with
    | true =>
      have hlength := h.resolve_right (by simp [hc])
      simp [hplain, hc, encoded, alignedLz4Deflate_encoded hlength]
    | false => simp [hplain, hc, encoded]
  · rw [deserializeOwned, hvalidate]
    cases hc : compresses lz4 input with
    | true =>
      have hlength := h.resolve_right (by simp [hc])
      simp [hplain, hc, encoded, alignedLz4Deflate_encoded hlength]
    | false => simp [hplain, hc, encoded, hstored]
  · have hlast : stored.getLast? = some (archiver.marker lz4 input) := by simp [hstored]
    unfold extractHash
    rw [hlast]
    simp only [bind_eq_bind, bind_some, hversioned, hhashed]
    cases archiver with
    | untrusted => rfl
    | hashed =>
      rw [if_neg (by decide), if_pos (by decide), getTrailing_hashed]
      simp [version, Archiver.version, hashOf, beNat_beU32]
    | versioned changeId =>
      rw [if_pos (by rw [Archiver.flags]; decide), getTrailing_versioned]
      simp [version, Archiver.version, hashOf, beNat_beU32]
  · have hself : hashOf (archiver.version xxh3 lz4 input) = hashOf version := rfl
    rw [Bool.eq_iff_iff, hmatches archiver input rfl, and_iff_right hself]
    generalize version = v
    cases v <;> simp [hashOf]

theorem layout_agrees_empty :
    deserialize (fun _ => 0x38d394c2) storedBlock
        ((Archiver.versioned 1).store (fun _ => 0x38d394c2) storedBlock []) =
      some ⟨.versioned 1 0x38d394c2, []⟩ :=
  (layout_agrees (fun _ => 0x38d394c2) storedBlock (.versioned 1) [] (.inl (by decide))).1

/-- The empty payload, stored by another change. -/
theorem matches_other_change :
    AssertValue.matches ((Archiver.versioned 2).store (fun _ => 0x38d394c2) storedBlock [])
      (.archive ((Archiver.versioned 1).version (fun _ => 0x38d394c2) storedBlock [])) := by
  rfl

end MailServer.Store.Archiving
