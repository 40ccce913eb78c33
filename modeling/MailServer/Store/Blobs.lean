import MailServer.Lib.Run
import MailServer.Store.Foundationdb

/-!
# Blobs and ranges of their bytes

Writing, reading and deleting blobs (`store/src/dispatch/blob.rs`) in a RocksDB column, in an SQLite
table, in files (`backend/fs/mod.rs`) and in FoundationDB, where a blob is spread over numbered
blocks (`backend/foundationdb/blob.rs`).  Keys are hashes, all of one length, so that the name of a
block tells the key and the number.  Requests that fail on the way and reads that meet half a blob
are left out.

Principal results: `readBlocks_eq`, `readFile_iff`, `readBlob_iff`, `Faithful.step`,
`faithful_foldl`, `range_reads_iff`.
-/

namespace MailServer.Store

open Runs List Function

variable {blocks : ℕ → Option Bytes} {value : Bytes}

/-! ## Ranges and compression -/

def USIZE_MAX : ℕ := 2 ^ 64 - 1

/-- A range of positions, `start..stop`. -/
structure ByteRange where
  start : ℕ
  stop : ℕ
  start_le : start ≤ stop
  stop_le : stop ≤ USIZE_MAX

/-- `0..usize::MAX`. -/
def ByteRange.full : ByteRange := ⟨0, USIZE_MAX, Nat.zero_le _, Nat.le_refl _⟩

/-- `bytes.get(first..last).unwrap_or_default()`. -/
def getRange (bytes : Bytes) (first last : ℕ) : Bytes :=
  if first ≤ last ∧ last ≤ bytes.length then (bytes.drop first).take (last - first) else []

inductive CompressionAlgo where
  | none
  | lz4

/-- `compress_prepend_size` and `decompress_size_prepended`; the latter inverts the former. -/
structure Lz4 where
  compress : Bytes → Bytes
  decompress : Bytes → Option Bytes
  inverts : ∀ data, decompress (compress data) = some data

def LZ4_MARKER : UInt8 := 0xa1

/-- `DecompressError`. -/
inductive BlobError where
  | decompressError

/-! ## Backends -/

/-- The blocks of blobs, by key and number. -/
abbrev Blocks (κ : Type) := κ → ℕ → Option Bytes

inductive BlobBackend (κ : Type) where
  | rocksDb (column : κ → Option Bytes)
  | sqlite (table : κ → Option Bytes)
  | fs (files : κ → Option Bytes)
  | foundationDb (blocks : Blocks κ)

/-- Block numbers are written with 16 bits. -/
def toBlockNumber (n : ℕ) : ℕ := n % 65536

/-- `get_blob` of RocksDB and of SQLite. -/
def readValue (bytes : Bytes) (range : ByteRange) : Bytes :=
  if range.start = 0 ∧ range.stop = USIZE_MAX then bytes
  else getRange bytes range.start (min bytes.length range.stop)

/-- `FsStore::get_blob`. -/
def readFile (bytes : Bytes) (range : ByteRange) : Bytes :=
  if range.start ≠ 0 ∨ range.stop ≠ USIZE_MAX then
    let fromOffset := if range.start < bytes.length then range.start else 0
    (bytes.drop fromOffset).take (min range.stop bytes.length - fromOffset)
  else bytes

/-- The loop over the blocks in `FdbStore::get_blob`. -/
def readBlocks (bytesStart blobRange : ℕ) : List Bytes → Option Bytes → Option Bytes
  | [], blobData => blobData
  | value :: rest, some blobData =>
    let blobData := blobData ++ getRange value 0 (min (blobRange - blobData.length) value.length)
    if blobData.length = blobRange then some blobData
    else readBlocks bytesStart blobRange rest (some blobData)
  | value :: rest, none =>
    let blobData := getRange value bytesStart (min (bytesStart + blobRange) value.length)
    if blobData.length = blobRange then some blobData
    else readBlocks bytesStart blobRange rest (some blobData)

/-- The blocks of a blob whose numbers lie between two numbers, the last one included. -/
def blocksBetween (blocks : ℕ → Option Bytes) (first last : ℕ) : List Bytes :=
  (range' first (last + 1 - first)).filterMap blocks

/-- `FdbStore::get_blob`. -/
def readBlob (blocks : ℕ → Option Bytes) (range : ByteRange) : Option Bytes :=
  let blockStart := toBlockNumber (range.start / MAX_VALUE_SIZE)
  let blockEnd := toBlockNumber (range.stop / MAX_VALUE_SIZE + 1)
  readBlocks (range.start % MAX_VALUE_SIZE) (range.stop - range.start)
    (blocksBetween blocks blockStart blockEnd) none

/-- `FdbStore::put_blob`. -/
def writeBlob (blocks : ℕ → Option Bytes) (data : Bytes) : ℕ → Option Bytes :=
  (range (chunkCount data)).foldl
    (fun blocks pos => update blocks (toBlockNumber pos) (some (chunk data pos))) blocks

/-- `clear_range` up to, but not including, the last number. -/
def clearBlob (blocks : ℕ → Option Bytes) : ℕ → Option Bytes :=
  fun number => if number < 65535 then none else blocks number

namespace BlobBackend

variable {κ : Type} [DecidableEq κ]

/-- `get_blob` of each backend. -/
def getBlob (backend : BlobBackend κ) (key : κ) (range : ByteRange) : Option Bytes :=
  match backend with
  | .rocksDb column => (column key).map fun bytes => readValue bytes range
  | .sqlite table => (table key).map fun bytes => readValue bytes range
  | .fs files => (files key).map fun bytes => readFile bytes range
  | .foundationDb blocks => readBlob (blocks key) range

/-- `put_blob` of each backend; a file of the same size is not written again. -/
def putBlob (backend : BlobBackend κ) (key : κ) (data : Bytes) : BlobBackend κ :=
  match backend with
  | .rocksDb column => .rocksDb (update column key (some data))
  | .sqlite table => .sqlite (update table key (some data))
  | .fs files =>
    if (files key).map length = some data.length then .fs files
    else .fs (update files key (some data))
  | .foundationDb blocks =>
    .foundationDb (update blocks key (writeBlob (blocks key) data))

/-- `delete_blob` of each backend. -/
def deleteBlob (backend : BlobBackend κ) (key : κ) : BlobBackend κ :=
  match backend with
  | .rocksDb column => .rocksDb (update column key none)
  | .sqlite table => .sqlite (update table key none)
  | .fs files => .fs (update files key none)
  | .foundationDb blocks => .foundationDb (update blocks key (clearBlob (blocks key)))

end BlobBackend

/-! ## The store -/

structure BlobStore (κ : Type) where
  backend : BlobBackend κ
  compression : CompressionAlgo

section

variable {κ : Type} [DecidableEq κ] (codec : Lz4)

/-- What is written for the content of a blob. -/
def encodeBlob (compression : CompressionAlgo) (data : Bytes) : Bytes :=
  match compression with
  | .none => data
  | .lz4 => codec.compress data ++ [LZ4_MARKER]

/-- What is read, without the marker and decompressed when it has one. -/
def decodeBlob (data : Bytes) : Except BlobError Bytes :=
  if data.getLast?.getD 0 = LZ4_MARKER then
    match codec.decompress (data.take (data.length - 1)) with
    | some decompressed => .ok decompressed
    | none => .error .decompressError
  else .ok data

namespace BlobStore

def getBlob (store : BlobStore κ) (key : κ) (range : ByteRange) :
    Except BlobError (Option Bytes) :=
  match store.compression with
  | .none => .ok (store.backend.getBlob key range)
  | .lz4 =>
    match store.backend.getBlob key .full with
    | none => .ok none
    | some data => do
      let decompressed ← decodeBlob codec data
      if range.stop > decompressed.length then .ok (some decompressed)
      else .ok (some (getRange decompressed range.start range.stop))

def putBlob (store : BlobStore κ) (key : κ) (data : Bytes) : BlobStore κ :=
  { store with backend := store.backend.putBlob key (encodeBlob codec store.compression data) }

def deleteBlob (store : BlobStore κ) (key : κ) : BlobStore κ :=
  { store with backend := store.backend.deleteBlob key }

end BlobStore

end

/-! ## What a blob is -/

/-- The content of a blob; no slice is longer than `usize::MAX`. -/
abbrev Content := { data : Bytes // data.length ≤ USIZE_MAX }

def Content.inRange (content : Content) (range : ByteRange) : Bytes :=
  (content.val.take range.stop).drop range.start

inductive BlobRequest (κ : Type) where
  | put (key : κ) (content : Content)
  | delete (key : κ)

/-- The blobs that were stored and not deleted. -/
abbrev Contents (κ : Type) := κ → Option Content

/-! ## Cutting -/

section

variable {bytes : Bytes} {range : ByteRange}

theorem getRange_of_le {first last : ℕ} (hle : first ≤ last) (hlen : last ≤ bytes.length) :
    getRange bytes first last = (bytes.drop first).take (last - first) := if_pos ⟨hle, hlen⟩

theorem getRange_min (first last : ℕ) (hle : first ≤ last) :
    getRange bytes first (min last bytes.length) = (bytes.drop first).take (last - first) := by
  unfold getRange
  by_cases hfirst : first ≤ bytes.length
  · rw [if_pos ⟨Nat.le_min.2 ⟨hle, hfirst⟩, Nat.min_le_right _ _⟩]
    refine (take_eq_take_iff).2 ?_
    rw [length_drop]
    omega
  · rw [if_neg fun h => hfirst (h.1.trans (Nat.min_le_right _ _)),
      drop_eq_nil_of_le (by omega), take_nil]

theorem take_drop_range (bytes : Bytes) (range : ByteRange) :
    (bytes.take range.stop).drop range.start =
      (bytes.drop range.start).take (range.stop - range.start) := drop_take

theorem getRange_zero (bytes : Bytes) (n : ℕ) :
    getRange bytes 0 (min n bytes.length) = bytes.take n := by
  rw [getRange_min 0 n (Nat.zero_le n), drop_zero, Nat.sub_zero]

end

/-! ## Reading one value -/

section

variable {bytes : Bytes} {range : ByteRange}

theorem readValue_full (bytes : Bytes) : readValue bytes .full = bytes := if_pos ⟨rfl, rfl⟩

theorem readFile_full (bytes : Bytes) : readFile bytes .full = bytes :=
  if_neg fun h => h.elim (fun h => h rfl) fun h => h rfl

/-- **RocksDB and SQLite** give the bytes of the range. -/
theorem readValue_eq (hlen : bytes.length ≤ USIZE_MAX) (range : ByteRange) :
    readValue bytes range = (bytes.take range.stop).drop range.start := by
  unfold readValue
  split_ifs with hfull
  · obtain ⟨hstart, hstop⟩ := hfull
    rw [hstart, hstop, drop_zero, take_of_length_le hlen]
  · rw [Nat.min_comm, getRange_min _ _ range.start_le, take_drop_range]

/-- **A file** gives the bytes of the range, unless the range begins behind its end. -/
theorem readFile_iff (hlen : bytes.length ≤ USIZE_MAX) :
    readFile bytes range = (bytes.take range.stop).drop range.start ↔
      range.start < bytes.length ∨ bytes.length = 0 := by
  have hle := range.start_le
  unfold readFile
  by_cases hstart : range.start < bytes.length
  · refine iff_of_true ?_ (.inl hstart)
    split_ifs with hpart
    · rw [take_drop_range]
      refine (take_eq_take_iff).2 ?_
      rw [length_drop]
      omega
    · obtain ⟨hzero, hstop⟩ := not_or.1 hpart
      rw [not_not.1 hzero, not_not.1 hstop, drop_zero, take_of_length_le hlen]
  · by_cases hempty : bytes.length = 0
    · refine iff_of_true ?_ (.inr hempty)
      rw [length_eq_zero_iff.1 hempty]
      split_ifs <;> simp
    · -- the whole file comes back where nothing should
      refine iff_of_false ?_ (not_or.2 ⟨hstart, hempty⟩)
      rw [if_pos (.inl (by omega))]
      dsimp only
      rw [if_neg hstart, drop_zero]
      intro h
      have hlength := congrArg length h
      rw [length_take, length_drop, length_take] at hlength
      omega

end

/-! ## Reading blocks -/

section

variable {bytesStart blobRange : ℕ}

theorem readBlocks_some (rest : List Bytes) {blobData : Bytes}
    (hle : blobData.length ≤ blobRange) :
    readBlocks bytesStart blobRange rest (some blobData) =
      some ((blobData ++ rest.flatten).take blobRange) := by
  induction rest generalizing blobData with
  | nil =>
    rw [flatten_nil, append_nil, take_of_length_le hle]
    rfl
  | cons value rest ih =>
    unfold readBlocks
    dsimp only
    rw [getRange_zero]
    have hshort : (blobData ++ value.take (blobRange - blobData.length)).length ≤ blobRange := by
      rw [length_append, length_take]
      omega
    have htake : (blobData ++ (value :: rest).flatten).take blobRange =
        blobData ++ (value ++ rest.flatten).take (blobRange - blobData.length) := by
      rw [take_append, take_of_length_le hle, flatten_cons]
    split_ifs with hdone
    · rw [htake, take_append_of_le_length]
      rw [length_append, length_take] at hdone
      omega
    · have hlt : value.length < blobRange - blobData.length := by
        rw [length_append, length_take] at hdone
        omega
      rw [ih hshort, take_of_length_le (Nat.le_of_lt hlt), flatten_cons,
        append_assoc]

/-- **The loop over the blocks** collects what follows the first position, so many bytes of it. -/
theorem readBlocks_eq (first : Bytes) (rest : List Bytes)
    (hfirst : bytesStart ≤ first.length ∨ rest = []) :
    readBlocks bytesStart blobRange (first :: rest) none =
      some (((first :: rest).flatten.drop bytesStart).take blobRange) := by
  unfold readBlocks
  dsimp only
  rw [getRange_min _ _ (Nat.le_add_right _ _), Nat.add_sub_cancel_left]
  have hdrop : (first :: rest).flatten.drop bytesStart =
      first.drop bytesStart ++ rest.flatten := by
    rw [flatten_cons]
    rcases hfirst with hle | rfl
    · exact drop_append_of_le_length hle
    · rw [flatten_nil, append_nil, append_nil]
  rw [hdrop]
  split_ifs with hdone
  · rw [take_append_of_le_length]
    rw [length_take] at hdone
    omega
  · have hlt : (first.drop bytesStart).length < blobRange := by
      rw [length_take] at hdone
      omega
    rw [take_of_length_le (Nat.le_of_lt hlt), readBlocks_some rest (Nat.le_of_lt hlt)]

end

/-- The blocks of a value, and no others. -/
def HoldsBlocks (blocks : ℕ → Option Bytes) (value : Bytes) : Prop :=
  ∀ number, blocks number = if number < chunkCount value then some (chunk value number) else none

theorem filterMap_range' {f : ℕ → Bytes} (m first n : ℕ) :
    (range' first n).filterMap (fun i => if i < m then some (f i) else none) =
      (range' first (min n (m - first))).map f := by
  induction n generalizing first with
  | zero => simp
  | succ n ih =>
    rw [range'_succ, filterMap_cons]
    by_cases hlt : first < m
    · have hmin : min (n + 1) (m - first) = min n (m - (first + 1)) + 1 := by omega
      rw [if_pos hlt, ih, hmin, range'_succ, map_cons]
    · have hmin : min n (m - (first + 1)) = 0 := by omega
      have hmin' : min (n + 1) (m - first) = 0 := by omega
      rw [if_neg hlt, ih, hmin, hmin']
      rfl

theorem chunk_add (value : Bytes) (first i : ℕ) :
    chunk value (first + i) = chunk (value.drop (first * MAX_VALUE_SIZE)) i := by
  unfold chunk
  rw [drop_drop, Nat.add_mul]

theorem flatten_chunks_from (value : Bytes) (first n : ℕ) :
    ((range' first n).map (chunk value)).flatten =
      (value.drop (first * MAX_VALUE_SIZE)).take (n * MAX_VALUE_SIZE) := by
  have hcomp : chunk value ∘ (first + ·) = chunk (value.drop (first * MAX_VALUE_SIZE)) := by
    funext i
    rw [comp_apply, chunk_add]
  rw [range'_eq_map_range, map_map, hcomp, flatten_chunks]

theorem lt_chunkCount_iff {n : ℕ} :
    n < chunkCount value ↔ n * MAX_VALUE_SIZE < value.length := by
  unfold chunkCount MAX_VALUE_SIZE
  omega

theorem length_chunk (value : Bytes) (pos : ℕ) :
    (chunk value pos).length = min MAX_VALUE_SIZE (value.length - pos * MAX_VALUE_SIZE) := by
  unfold chunk
  rw [length_take, length_drop]

/-- **Reading a blob from its blocks**: nothing if no block lies between the two numbers, else the
bytes from the first position to the end of the last block. -/
theorem readBlob_eq (h : HoldsBlocks blocks value) (range : ByteRange) :
    readBlob blocks range =
      if toBlockNumber (range.start / MAX_VALUE_SIZE) ≤
          toBlockNumber (range.stop / MAX_VALUE_SIZE + 1) ∧
        toBlockNumber (range.start / MAX_VALUE_SIZE) < chunkCount value then
        some ((((value.drop (toBlockNumber (range.start / MAX_VALUE_SIZE) * MAX_VALUE_SIZE)).take
          ((toBlockNumber (range.stop / MAX_VALUE_SIZE + 1) + 1 -
            toBlockNumber (range.start / MAX_VALUE_SIZE)) * MAX_VALUE_SIZE)).drop
              (range.start % MAX_VALUE_SIZE)).take (range.stop - range.start))
      else none := by
  unfold readBlob
  dsimp only
  generalize toBlockNumber (range.start / MAX_VALUE_SIZE) = first
  generalize toBlockNumber (range.stop / MAX_VALUE_SIZE + 1) = last
  have hpos : range.start % MAX_VALUE_SIZE < MAX_VALUE_SIZE := Nat.mod_lt _ (by decide)
  have hblocks : blocksBetween blocks first last =
      (range' first (min (last + 1 - first) (chunkCount value - first))).map
        (chunk value) := by
    unfold blocksBetween
    rw [funext h, filterMap_range']
  have hflatten : ((range' first (min (last + 1 - first) (chunkCount value - first))).map
      (chunk value)).flatten = (value.drop (first * MAX_VALUE_SIZE)).take
        ((last + 1 - first) * MAX_VALUE_SIZE) := by
    rw [flatten_chunks_from]
    refine (take_eq_take_iff).2 ?_
    rw [length_drop]
    unfold chunkCount MAX_VALUE_SIZE
    omega
  rw [hblocks]
  split_ifs with hsome
  · obtain ⟨hle, hlt⟩ := hsome
    obtain ⟨n, hn⟩ : ∃ n, min (last + 1 - first) (chunkCount value - first) = n + 1 :=
      ⟨_, (Nat.succ_pred (by omega)).symm⟩
    rw [hn] at hflatten ⊢
    rw [range'_succ, map_cons] at hflatten ⊢
    rw [readBlocks_eq _ _ ?_, hflatten]
    -- a block that is followed by another one is full
    by_cases hlast : n = 0
    · subst hlast
      exact .inr rfl
    · left
      have hnext : (first + 1) * MAX_VALUE_SIZE < value.length :=
        lt_chunkCount_iff.1 (by omega)
      rw [length_chunk]
      rw [Nat.add_mul] at hnext
      omega
  · have hzero : min (last + 1 - first) (chunkCount value - first) = 0 := by omega
    rw [hzero]
    rfl

/-- The blocks that are read hold the bytes of the range, and their numbers fit into 16 bits. -/
def BlocksCover (length : ℕ) (range : ByteRange) : Prop :=
  let first := toBlockNumber (range.start / MAX_VALUE_SIZE)
  let last := toBlockNumber (range.stop / MAX_VALUE_SIZE + 1)
  first ≤ last ∧ first * MAX_VALUE_SIZE < length ∧
    if range.start / MAX_VALUE_SIZE < 65536 then min range.stop length ≤ (last + 1) * MAX_VALUE_SIZE
    else range.start = range.stop ∨ length ≤ first * MAX_VALUE_SIZE + range.start % MAX_VALUE_SIZE

instance (length : ℕ) (range : ByteRange) : Decidable (BlocksCover length range) := by
  unfold BlocksCover
  infer_instance

/-- **A blob in blocks** gives the bytes of the range exactly when the blocks that are read hold
them. -/
theorem readBlob_iff (h : HoldsBlocks blocks value)
    (hcount : chunkCount value ≤ 65536) (range : ByteRange) :
    readBlob blocks range = some ((value.take range.stop).drop range.start) ↔
      BlocksCover value.length range := by
  have hle := range.start_le
  have hmod : range.start % MAX_VALUE_SIZE < MAX_VALUE_SIZE := Nat.mod_lt _ (by decide)
  have hdiv : range.start / MAX_VALUE_SIZE * MAX_VALUE_SIZE + range.start % MAX_VALUE_SIZE =
      range.start := Nat.div_add_mod' _ _
  have hbound : value.length ≤ 65536 * MAX_VALUE_SIZE := by
    unfold chunkCount MAX_VALUE_SIZE at hcount
    unfold MAX_VALUE_SIZE
    omega
  rw [readBlob_eq h]
  simp only [lt_chunkCount_iff]
  unfold BlocksCover
  dsimp only
  generalize hlast : toBlockNumber (range.stop / MAX_VALUE_SIZE + 1) = last
  generalize hfirst : toBlockNumber (range.start / MAX_VALUE_SIZE) = first
  generalize hoffset : range.start % MAX_VALUE_SIZE = offset at hmod hdiv ⊢
  by_cases hsome : first ≤ last ∧ first * MAX_VALUE_SIZE < value.length
  · obtain ⟨hfirstLast, hfirstLength⟩ := hsome
    rw [if_pos ⟨hfirstLast, hfirstLength⟩, Option.some.injEq, take_drop_range, drop_take,
      take_take, drop_drop]
    -- what lies between the first position and the end of the last block
    have hspan : (last + 1 - first) * MAX_VALUE_SIZE = (last + 1) * MAX_VALUE_SIZE -
        first * MAX_VALUE_SIZE := Nat.sub_mul ..
    have hblock : first * MAX_VALUE_SIZE + MAX_VALUE_SIZE ≤ (last + 1) * MAX_VALUE_SIZE := by
      rw [← Nat.succ_mul]
      exact Nat.mul_le_mul_right _ (by omega)
    rw [hspan]
    by_cases hfits : range.start / MAX_VALUE_SIZE < 65536
    · have hsame : first = range.start / MAX_VALUE_SIZE := by
        rw [← hfirst]
        exact Nat.mod_eq_of_lt hfits
      rw [if_pos hfits, hsame, hdiv, take_eq_take_iff, length_drop]
      rw [hsame] at hblock hfirstLast
      constructor
      · intro heq
        refine ⟨hfirstLast, hsame ▸ hfirstLength, ?_⟩
        omega
      · rintro ⟨-, -, hcover⟩
        omega
    · have hstart : 65536 * MAX_VALUE_SIZE ≤ range.start := by
        have hdivle := Nat.mul_le_mul_right MAX_VALUE_SIZE (Nat.le_of_not_lt hfits)
        omega
      have hnothing : (value.drop range.start).take (range.stop - range.start) = [] := by
        rw [drop_eq_nil_of_le (by omega), take_nil]
      rw [if_neg hfits, hnothing, take_eq_nil_iff, drop_eq_nil_iff]
      constructor
      · rintro (hzero | hshort)
        · exact ⟨hfirstLast, hfirstLength, .inl (by omega)⟩
        · exact ⟨hfirstLast, hfirstLength, .inr hshort⟩
      · rintro ⟨-, -, hempty | hshort⟩
        · exact .inl (by omega)
        · exact .inr hshort
  · rw [if_neg hsome]
    exact iff_of_false (fun h => by cases h) fun h => hsome ⟨h.1, h.2.1⟩

/-- The number of the last block that `0..usize::MAX` reads. -/
def LAST_FULL_BLOCK : ℕ := 6984

theorem readBlob_full (h : HoldsBlocks blocks value)
    (hnonempty : value ≠ []) (hcount : chunkCount value ≤ LAST_FULL_BLOCK + 1) :
    readBlob blocks .full = some value := by
  have hlength : value.length ≤ (LAST_FULL_BLOCK + 1) * MAX_VALUE_SIZE := by
    unfold chunkCount at hcount
    unfold LAST_FULL_BLOCK MAX_VALUE_SIZE at *
    omega
  have hcover : BlocksCover value.length .full := by
    refine ⟨Nat.zero_le _, ?_, ?_⟩
    · change 0 * MAX_VALUE_SIZE < value.length
      exact length_pos_iff.2 hnonempty
    · exact (Nat.min_le_right _ _).trans hlength
  have hfew : chunkCount value ≤ 65536 := hcount.trans (by decide)
  rw [(readBlob_iff h hfew .full).2 hcover]
  change some ((value.take USIZE_MAX).drop 0) = some value
  rw [drop_zero, take_of_length_le (hlength.trans (by decide))]

/-! ## Writing and clearing blocks -/

theorem foldl_writeBlob (blocks : ℕ → Option Bytes) (data : Bytes) {n : ℕ} (hn : n ≤ 65536)
    (number : ℕ) :
    (range n).foldl
        (fun blocks pos => update blocks (toBlockNumber pos) (some (chunk data pos)))
        blocks number =
      if number < n then some (chunk data number) else blocks number := by
  induction n with
  | zero => rfl
  | succ n ih =>
    have hnumber : toBlockNumber n = n := Nat.mod_eq_of_lt (by omega)
    rw [range_succ, foldl_append, foldl_cons, foldl_nil, hnumber,
      update_apply, ih (by omega)]
    by_cases heq : number = n
    · rw [if_pos heq, if_pos (by omega), heq]
    · rw [if_neg heq]
      by_cases hlt : number < n
      · rw [if_pos hlt, if_pos (by omega)]
      · rw [if_neg hlt, if_neg (by omega)]

theorem holdsBlocks_writeBlob {data : Bytes} (hcount : chunkCount data ≤ 65536)
    (hold : ∀ number, chunkCount data ≤ number → blocks number = none) :
    HoldsBlocks (writeBlob blocks data) data := by
  intro number
  unfold writeBlob
  rw [foldl_writeBlob blocks data hcount]
  split_ifs with hlt
  · rfl
  · exact hold number (Nat.le_of_not_lt hlt)

/-! ## Faithful stores -/

inductive BackendKind where
  | rocksDb | sqlite | fs | foundationDb

section

variable (κ : Type) [DecidableEq κ]

/-- A backend without blobs. -/
def BackendKind.empty : BackendKind → BlobBackend κ
  | .rocksDb => .rocksDb fun _ => none
  | .sqlite => .sqlite fun _ => none
  | .fs => .fs fun _ => none
  | .foundationDb => .foundationDb fun _ _ => none

end

section

variable {κ : Type} [DecidableEq κ] (codec : Lz4)

/-- A request changes which blobs there are. -/
def Contents.apply (contents : Contents κ) : BlobRequest κ → Contents κ
  | .put key content => update contents key (some content)
  | .delete key => update contents key none

/-- A request changes the store. -/
def BlobStore.apply (store : BlobStore κ) : BlobRequest κ → BlobStore κ
  | .put key content => store.putBlob codec key content.val
  | .delete key => store.deleteBlob key

/-- Blobs of so many blocks can be written and read again. -/
def maxBlocks : CompressionAlgo → ℕ
  | .none => 65536
  | .lz4 => LAST_FULL_BLOCK + 1

/-- A value is stored in blocks. -/
def InBlocks (compression : CompressionAlgo) (blocks : ℕ → Option Bytes) (value : Bytes) : Prop :=
  value ≠ [] ∧ chunkCount value ≤ maxBlocks compression ∧ HoldsBlocks blocks value

/-- The store holds what is written for each blob, and nothing else. -/
def Faithful (store : BlobStore κ) (contents : Contents κ) : Prop :=
  match store.backend with
  | .rocksDb values | .sqlite values | .fs values => ∀ key,
      values key = (contents key).map fun content => encodeBlob codec store.compression content.val
  | .foundationDb blocks => ∀ key,
      match contents key with
      | none => ∀ number, blocks key number = none
      | some content =>
        InBlocks store.compression (blocks key) (encodeBlob codec store.compression content.val)

/-- **The requests that keep blobs faithfully stored**: a file of the same size is written again
only with the same bytes; blocks are not empty, few enough, and at least as many as they replace;
and what is deleted has no block of the highest number. -/
def KeepsFaithful (kind : BackendKind) (compression : CompressionAlgo) (contents : Contents κ) :
    BlobRequest κ → Prop
  | .put key content =>
    match kind with
    | .rocksDb | .sqlite => True
    | .fs => ∀ old, contents key = some old →
        (encodeBlob codec compression old.val).length =
          (encodeBlob codec compression content.val).length →
        encodeBlob codec compression old.val = encodeBlob codec compression content.val
    | .foundationDb => encodeBlob codec compression content.val ≠ [] ∧
        chunkCount (encodeBlob codec compression content.val) ≤ maxBlocks compression ∧
        ∀ old, contents key = some old → chunkCount (encodeBlob codec compression old.val) ≤
          chunkCount (encodeBlob codec compression content.val)
  | .delete key =>
    match kind with
    | .foundationDb => ∀ old, contents key = some old →
        chunkCount (encodeBlob codec compression old.val) ≤ 65535
    | _ => True

/-- **When a range is read as it should be**: of a compressed blob, unless it begins behind its
start and ends behind its end; of a file, unless it begins at its end or behind it; and of blocks
that hold it. -/
def ReadsRange (kind : BackendKind) (compression : CompressionAlgo) (range : ByteRange) :
    Option Content → Prop
  | none => True
  | some content =>
    match compression with
    | .lz4 => range.stop ≤ content.val.length ∨ range.start = 0 ∨ content.val.length = 0
    | .none =>
      match kind with
      | .rocksDb | .sqlite => True
      | .fs => range.start < content.val.length ∨ content.val.length = 0
      | .foundationDb => BlocksCover content.val.length range

def BlobBackend.kind : BlobBackend κ → BackendKind
  | .rocksDb _ => .rocksDb
  | .sqlite _ => .sqlite
  | .fs _ => .fs
  | .foundationDb _ => .foundationDb

end

/-! ## Reading faithfully stored blobs -/

section

variable {κ : Type} {codec : Lz4} {store : BlobStore κ} {contents : Contents κ} {key : κ}
  {content : Content}

theorem decodeBlob_encodeBlob (codec : Lz4) (data : Bytes) :
    decodeBlob codec (encodeBlob codec .lz4 data) = .ok data := by
  unfold decodeBlob encodeBlob
  rw [getLast?_append, getLast?_singleton]
  simp only [Option.some_or, Option.getD_some, if_true, length_append, length_singleton,
    Nat.add_sub_cancel, take_left, codec.inverts]

theorem backend_getBlob_none (h : Faithful codec store contents) (hkey : contents key = none)
    (range : ByteRange) : store.backend.getBlob key range = none := by
  obtain ⟨backend, compression⟩ := store
  cases backend with
  | foundationDb blocks =>
    have hblocks := h key
    rw [hkey] at hblocks
    change readBlob (blocks key) range = none
    unfold readBlob blocksBetween
    dsimp only
    rw [filterMap_eq_nil_iff.2 fun number _ => hblocks number]
    rfl
  | rocksDb values | sqlite values | fs values =>
    change (values key).map _ = none
    rw [h key, hkey]
    rfl

theorem backend_getBlob_full (h : Faithful codec store contents)
    (hkey : contents key = some content) (hcompression : store.compression = .lz4) :
    store.backend.getBlob key .full = some (encodeBlob codec .lz4 content.val) := by
  obtain ⟨backend, compression⟩ := store
  obtain rfl : compression = .lz4 := hcompression
  cases backend with
  | foundationDb blocks =>
    have hblocks := h key
    rw [hkey] at hblocks
    exact readBlob_full hblocks.2.2 hblocks.1 hblocks.2.1
  | rocksDb values | sqlite values =>
    change (values key).map _ = _
    rw [h key, hkey]
    exact congrArg some (readValue_full _)
  | fs files =>
    change (files key).map _ = _
    rw [h key, hkey]
    exact congrArg some (readFile_full _)

theorem backend_getBlob_iff (h : Faithful codec store contents) (hkey : contents key = some content)
    (hcompression : store.compression = .none) (range : ByteRange) :
    store.backend.getBlob key range = some (content.inRange range) ↔
      ReadsRange store.backend.kind .none range (some content) := by
  obtain ⟨backend, compression⟩ := store
  obtain rfl : compression = .none := hcompression
  cases backend with
  | foundationDb blocks =>
    have hblocks := h key
    rw [hkey] at hblocks
    exact readBlob_iff hblocks.2.2 hblocks.2.1 range
  | rocksDb values | sqlite values =>
    change (values key).map _ = _ ↔ True
    rw [h key, hkey]
    exact iff_of_true (congrArg some (readValue_eq content.property range)) trivial
  | fs files =>
    change (files key).map _ = _ ↔ _
    rw [h key, hkey]
    change some (readFile content.val range) = some _ ↔ _
    rw [Option.some.injEq]
    exact readFile_iff content.property

theorem getRange_iff (content : Content) (range : ByteRange) :
    (if range.stop > content.val.length then (.ok (some content.val) : Except BlobError _)
      else .ok (some (getRange content.val range.start range.stop))) =
        .ok (some (content.inRange range)) ↔
      range.stop ≤ content.val.length ∨ range.start = 0 ∨ content.val.length = 0 := by
  unfold Content.inRange
  split_ifs with hstop
  · rw [Except.ok.injEq, Option.some.injEq, take_of_length_le (Nat.le_of_lt hstop)]
    constructor
    · intro h
      have hlength := congrArg length h
      rw [length_drop] at hlength
      omega
    · rintro (hle' | hzero | hempty)
      · cases Nat.not_lt.2 hle' hstop
      · rw [hzero, drop_zero]
      · rw [length_eq_zero_iff.1 hempty, drop_nil]
  · have hle' := Nat.le_of_not_lt hstop
    refine iff_of_true ?_ (.inl hle')
    rw [getRange_of_le range.start_le hle', take_drop_range]

/-- **Reading** from a store that holds its blobs faithfully. -/
theorem getBlob_iff (h : Faithful codec store contents) (key : κ) (range : ByteRange) :
    store.getBlob codec key range = .ok ((contents key).map fun content => content.inRange range) ↔
      ReadsRange store.backend.kind store.compression range (contents key) := by
  unfold BlobStore.getBlob
  cases hkey : contents key with
  | none =>
    refine iff_of_true ?_ trivial
    cases store.compression with
    | none => exact congrArg Except.ok (backend_getBlob_none h hkey range)
    | lz4 =>
      rw [backend_getBlob_none h hkey .full]
      rfl
  | some content =>
    cases hcompression : store.compression with
    | none =>
      rw [Except.ok.injEq]
      exact backend_getBlob_iff h hkey hcompression range
    | lz4 =>
      rw [backend_getBlob_full h hkey hcompression]
      dsimp only
      rw [decodeBlob_encodeBlob]
      exact getRange_iff content range

theorem faithful_empty (codec : Lz4) (kind : BackendKind) (compression : CompressionAlgo) :
    Faithful codec (κ := κ) ⟨kind.empty κ, compression⟩ fun _ => none := by
  cases kind with
  | foundationDb => exact fun _ _ => rfl
  | _ => exact fun _ => rfl

theorem kind_empty (κ : Type) (kind : BackendKind) : (kind.empty κ).kind = kind := by
  cases kind <;> rfl

end

/-! ## Runs -/

section

variable {κ : Type} [DecidableEq κ] {codec : Lz4} {store : BlobStore κ} {contents : Contents κ}

theorem maxBlocks_le (compression : CompressionAlgo) : maxBlocks compression ≤ 65536 := by
  cases compression <;> decide

theorem map_update_content {values} {f : Content → Bytes}
    (h : ∀ key, values key = (contents key).map f) (key : κ) (new : Option Content) (other : κ) :
    update values key (new.map f) other =
      (update contents key new other).map f := by
  rw [update_apply, update_apply]
  split_ifs
  · rfl
  · exact h other

omit [DecidableEq κ] in
theorem Faithful.block_eq_none {blocks} {compression : CompressionAlgo}
    (h : Faithful codec ⟨.foundationDb blocks, compression⟩ contents) {key : κ} {number : ℕ}
    (hbeyond : ∀ old, contents key = some old →
      chunkCount (encodeBlob codec compression old.val) ≤ number) : blocks key number = none := by
  have hblocks := h key
  cases hold : contents key with
  | none =>
    rw [hold] at hblocks
    exact hblocks number
  | some old =>
    rw [hold] at hblocks
    rw [hblocks.2.2 number, if_neg (hbeyond old hold).not_gt]

/-- **One request** keeps the blobs faithfully stored. -/
theorem Faithful.step {request} (h : Faithful codec store contents)
    (hkeeps : KeepsFaithful codec store.backend.kind store.compression contents request) :
    Faithful codec (store.apply codec request) (contents.apply request) := by
  obtain ⟨backend, compression⟩ := store
  cases request with
  | put key content =>
    cases backend with
    | rocksDb values | sqlite values => exact map_update_content h key (some content)
    | fs files =>
      by_cases hsame : (files key).map length =
          some (encodeBlob codec compression content.val).length
      · -- the file is left as it is, with the same bytes
        have hstore : BlobStore.apply codec ⟨.fs files, compression⟩ (.put key content) =
            ⟨.fs files, compression⟩ :=
          congrArg (fun backend => (⟨backend, compression⟩ : BlobStore κ)) (if_pos hsame)
        rw [hstore]
        intro other
        change files other = (update contents key (some content) other).map _
        rw [update_apply]
        split_ifs with heq
        · subst heq
          rw [h other, Option.map_map] at hsame
          obtain ⟨old, hold, hlength⟩ := Option.map_eq_some_iff.1 hsame
          rw [h other, hold]
          exact congrArg some (hkeeps old hold hlength)
        · exact h other
      · have hstore : BlobStore.apply codec ⟨.fs files, compression⟩ (.put key content) =
            ⟨.fs (update files key (some (encodeBlob codec compression content.val))),
              compression⟩ :=
          congrArg (fun backend => (⟨backend, compression⟩ : BlobStore κ)) (if_neg hsame)
        rw [hstore]
        exact map_update_content h key (some content)
    | foundationDb blocks =>
      obtain ⟨hnonempty, hcount, hreplaces⟩ := hkeeps
      intro other
      change match update contents key (some content) other with
        | none => ∀ number, update blocks key _ other number = none
        | some content => InBlocks compression (update blocks key _ other) _
      by_cases heq : other = key
      · subst heq
        rw [update_self, update_self]
        refine ⟨hnonempty, hcount, holdsBlocks_writeBlob ?_ fun number hnumber => ?_⟩
        · exact hcount.trans (maxBlocks_le compression)
        · exact h.block_eq_none fun old hold => (hreplaces old hold).trans hnumber
      · rw [update_of_ne heq, update_of_ne heq]
        exact h other
  | delete key =>
    cases backend with
    | rocksDb values | sqlite values | fs values => exact map_update_content h key none
    | foundationDb blocks =>
      intro other
      change match update contents key none other with
        | none => ∀ number, update blocks key _ other number = none
        | some content => InBlocks compression (update blocks key _ other) _
      by_cases heq : other = key
      · subst heq
        rw [update_self, update_self]
        intro number
        unfold clearBlob
        split_ifs with hlt
        · rfl
        · exact h.block_eq_none fun old hold => (hkeeps old hold).trans (Nat.le_of_not_lt hlt)
      · rw [update_of_ne heq, update_of_ne heq]
        exact h other

theorem kind_apply (codec : Lz4) (store : BlobStore κ) (request : BlobRequest κ) :
    (store.apply codec request).backend.kind = store.backend.kind ∧
      (store.apply codec request).compression = store.compression := by
  obtain ⟨backend, compression⟩ := store
  refine ⟨?_, by cases request <;> rfl⟩
  cases request with
  | delete key => cases backend <;> rfl
  | put key content =>
    cases backend with
    | fs files =>
      change BlobBackend.kind (ite _ _ _) = _
      split_ifs <;> rfl
    | _ => rfl

def contentsAfter (requests : List (BlobRequest κ)) : Contents κ :=
  requests.foldl Contents.apply fun _ => none

/-- The store after a run of requests on an empty one. -/
def storeAfter (codec : Lz4) (kind : BackendKind) (compression : CompressionAlgo)
    (requests : List (BlobRequest κ)) : BlobStore κ :=
  requests.foldl (BlobStore.apply codec) ⟨kind.empty κ, compression⟩

/-- **Runs** of requests that keep blobs faithfully stored. -/
theorem faithful_foldl {requests} (h : Faithful codec store contents)
    (hrun : Along (fun contents request => some (Contents.apply contents request))
      (KeepsFaithful codec store.backend.kind store.compression) contents requests) :
    Faithful codec (requests.foldl (BlobStore.apply codec) store)
        (requests.foldl Contents.apply contents) ∧
      (requests.foldl (BlobStore.apply codec) store).backend.kind = store.backend.kind ∧
      (requests.foldl (BlobStore.apply codec) store).compression = store.compression := by
  induction requests generalizing store contents with
  | nil => exact ⟨h, rfl, rfl⟩
  | cons request requests ih =>
    obtain ⟨hkeeps, hrest⟩ := hrun
    obtain ⟨hkind, hcompression⟩ := kind_apply codec store request
    have hnext := hrest _ rfl
    rw [← hkind, ← hcompression] at hnext ⊢
    exact ih (h.step hkeeps) hnext

/-- **Ranges of blobs**: after requests that keep blobs faithfully stored, a read gives the bytes of
the range, and nothing if the blob is not stored, exactly under the condition on the blob and the
range. -/
theorem range_reads_iff (codec : Lz4) (kind : BackendKind) (compression : CompressionAlgo)
    {requests : List (BlobRequest κ)}
    (hrun : Along (fun contents request => some (Contents.apply contents request))
      (KeepsFaithful codec kind compression) (fun _ => none) requests)
    (key : κ) (range : ByteRange) :
    (storeAfter codec kind compression requests).getBlob codec key range =
        .ok ((contentsAfter requests key).map fun content => content.inRange range) ↔
      ReadsRange kind compression range (contentsAfter requests key) := by
  have hempty := faithful_empty (κ := κ) codec kind compression
  rw [← kind_empty κ kind] at hrun
  obtain ⟨hfaithful, hkind, hcompression⟩ := faithful_foldl hempty hrun
  have hread := getBlob_iff hfaithful key range
  rw [hkind, hcompression, kind_empty] at hread
  exact hread

end

/-- What a short content is compressed to: its size, a token for the literals, the literals. -/
def literals : Lz4 where
  compress data :=
    [UInt8.ofNat data.length, UInt8.ofNat (data.length / 256), UInt8.ofNat (data.length / 65536),
      UInt8.ofNat (data.length / 16777216),
      if data.length < 15 then UInt8.ofNat (data.length * 16) else 0xf0] ++ data
  decompress bytes := some (bytes.drop 5)
  inverts _ := rfl

/-- A blob that is stored, replaced by a longer one and stored under another key. -/
def someRequests : List (BlobRequest ℕ) :=
  [.put 0 ⟨[1, 2], by decide⟩, .put 0 ⟨[3, 4, 5], by decide⟩, .delete 1, .put 1 ⟨[6], by decide⟩]

theorem range_reads_iff_blocks :
    ((storeAfter literals .foundationDb .lz4 someRequests).getBlob literals 0
          ⟨1, 3, by decide, by decide⟩ =
        .ok ((contentsAfter someRequests 0).map fun content =>
          content.inRange ⟨1, 3, by decide, by decide⟩) ↔
      ReadsRange .foundationDb .lz4 ⟨1, 3, by decide, by decide⟩
        (contentsAfter someRequests 0)) ∧
    ReadsRange .foundationDb .lz4 ⟨1, 3, by decide, by decide⟩ (contentsAfter someRequests 0) := by
  refine ⟨range_reads_iff literals .foundationDb .lz4 ?_ 0 ⟨1, 3, by decide, by decide⟩,
    .inl (by decide)⟩
  refine .cons ⟨by decide, by decide, fun old h => by cases h⟩ rfl ?_
  refine .cons ⟨by decide, by decide, fun old h => by cases h; decide⟩ rfl ?_
  refine .cons (fun old h => by cases h) rfl ?_
  exact .cons ⟨by decide, by decide, fun old h => by cases h⟩ rfl trivial

theorem file_behind_end :
    ¬∀ (codec : Lz4) (kind : BackendKind) (compression : CompressionAlgo)
      (requests : List (BlobRequest ℕ)) (key : ℕ) (range : ByteRange),
      (storeAfter codec kind compression requests).getBlob codec key range =
        .ok ((contentsAfter requests key).map fun content => content.inRange range) := by
  intro h
  have hread := h literals .fs .none [.put 0 ⟨[7], by decide⟩] 0 ⟨1, 2, by decide, by decide⟩
  cases hread

end MailServer.Store
