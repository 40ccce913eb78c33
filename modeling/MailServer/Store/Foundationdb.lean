import MailServer.Lib.PrefixRange
import MailServer.Store.ValueClass
import Mathlib.Data.List.Range

/-!
# Values in FoundationDB

A value above `MAX_VALUE_SIZE` is spread over the key, the key followed by 0, by 1, and so on
(`chunk_value`, `store/src/backend/foundationdb/write.rs`); reading starts at the key and goes on
while the next chunk is there (`read_chunked_value`, `read.rs`).

Principal results: `chunkValue_spec`, `readChunkedValue_congr`; `read_of_spread` — a value just
written is read back if nothing stands behind its last chunk.
-/

namespace MailServer.Store

open List

/-! ## The database -/

/-- The keys and values of the database, as a transaction sees them. -/
abbrev Database := Bytes → Option Bytes

variable {db db' : Database} {value : Bytes}

namespace Database

def empty : Database := fun _ => none

def set (db : Database) (key value : Bytes) : Database :=
  fun k => if k = key then some value else db k

def clear (db : Database) (key : Bytes) : Database := fun k => if k = key then none else db k

/-- Clears the keys from `first` up to, but not including, `last`. -/
def clearRange (db : Database) (first last : Bytes) : Database :=
  fun k => if ¬ k < first ∧ k < last then none else db k

end Database

/-! ## Writing -/

def MAX_VALUE_SIZE : ℕ := 100000

/-- The chunk at a position of `value.chunks(MAX_VALUE_SIZE)`. -/
def chunk (value : Bytes) (pos : ℕ) : Bytes :=
  (value.drop (pos * MAX_VALUE_SIZE)).take MAX_VALUE_SIZE

/-- The number of chunks of `value.chunks(MAX_VALUE_SIZE)`. -/
def chunkCount (value : Bytes) : ℕ := (value.length + (MAX_VALUE_SIZE - 1)) / MAX_VALUE_SIZE

/-- The key of a chunk: the key itself, then the key with a byte that counts from 0; 255 extra
chunks are too many. -/
def chunkKey (key : Bytes) (pos : ℕ) : Option Bytes :=
  if pos = 0 then some key
  else if pos < 255 then some (key ++ [UInt8.ofNat (pos - 1)])
  else none

/-- One turn of the loop of `chunk_value`. -/
def setChunk (key value : Bytes) (db : Database) (pos : ℕ) : Option Database :=
  (chunkKey key pos).map fun k => db.set k (chunk value pos)

/-- `chunk_value`; `none` is a value that is too large. -/
def chunkValue (db : Database) (key value : Bytes) : Option Database :=
  if value ≠ [] ∧ MAX_VALUE_SIZE < value.length then
    (range (chunkCount value)).foldlM (setChunk key value) db
  else some (db.set key value)

/-! ## Reading -/

inductive ChunkedValue where
  | single (bytes : Bytes)
  | chunked (bytes : Bytes)
  | none

/-- The bytes that were read, if any. -/
def ChunkedValue.bytes : ChunkedValue → Option Bytes
  | .single bytes | .chunked bytes => some bytes
  | .none => Option.none

def ChunkedValue.isChunked : ChunkedValue → Bool
  | .chunked _ => true
  | _ => false

/-- The loop of `read_chunked_value` from suffix `i` on; `none` is an overflow of the suffix. -/
def appendChunks (db : Database) (key value : Bytes) : (n i : ℕ) → Option Bytes
  | 0, _ => none
  | n + 1, i =>
    match db (key ++ [UInt8.ofNat i]) with
    | some bytes => appendChunks db key (value ++ bytes) n (i + 1)
    | none => some value

def readChunkedValue (db : Database) (key : Bytes) : Option ChunkedValue :=
  match db key with
  | some bytes =>
    if bytes.length < MAX_VALUE_SIZE then some (.single bytes)
    else (appendChunks db key bytes 256 0).map .chunked
  | none => some .none

/-! ## What writing changes -/

/-- The number of keys a value is spread over. -/
def parts (value : Bytes) : ℕ := max 1 (chunkCount value)

/-- `db'` is `db` with `value` spread over `n` keys. -/
structure Spread (db : Database) (key value : Bytes) (n : ℕ) (db' : Database) : Prop where
  first : db' key = some (chunk value 0)
  chunks : ∀ i, i + 1 < n → db' (key ++ [UInt8.ofNat i]) = some (chunk value (i + 1))
  other : ∀ k, k ≠ key → (∀ i, i + 1 < n → k ≠ key ++ [UInt8.ofNat i]) → db' k = db k

theorem ofNat_inj {i j : ℕ} (hi : i < 256) (hj : j < 256) (h : UInt8.ofNat i = UInt8.ofNat j) :
    i = j := by
  have hmod : i % 256 = j % 256 := congrArg UInt8.toNat h
  omega

theorem append_singleton_ne (key : Bytes) (b : UInt8) : key ++ [b] ≠ key := by
  intro h
  have hlength := congrArg length h
  simp at hlength

theorem Spread.set {db : Database} {key value : Bytes} :
    Spread db key value 1 (db.set key (chunk value 0)) where
  first := if_pos rfl
  chunks i hi := absurd hi (by omega)
  other k hk _ := if_neg hk

theorem Spread.setChunk {key value : Bytes} {n : ℕ}
    (h : Spread db key value (n + 1) db') (hn : n + 1 < 255) :
    Spread db key value (n + 2) (db'.set (key ++ [UInt8.ofNat n]) (chunk value (n + 1))) where
  first := by
    unfold Database.set
    rw [if_neg (append_singleton_ne key _).symm]
    exact h.first
  chunks i hi := by
    unfold Database.set
    by_cases heq : i = n
    · rw [heq, if_pos rfl]
    · have hne : key ++ [UInt8.ofNat i] ≠ key ++ [UInt8.ofNat n] := by
        intro hkey
        have hbyte : UInt8.ofNat i = UInt8.ofNat n := by simpa using hkey
        exact heq (ofNat_inj (by omega) (by omega) hbyte)
      rw [if_neg hne]
      exact h.chunks i (by omega)
  other k hk hne := by
    unfold Database.set
    rw [if_neg (hne n (by omega))]
    exact h.other k hk fun i hi => hne i (by omega)

theorem foldlM_setChunk (db : Database) (key value : Bytes) (n : ℕ) (hn : n + 1 ≤ 255) :
    ∃ db', (range (n + 1)).foldlM (setChunk key value) db = some db' ∧
      Spread db key value (n + 1) db' := by
  induction n with
  | zero => exact ⟨_, rfl, .set⟩
  | succ n ih =>
    obtain ⟨db', hfold, hspread⟩ := ih (by omega)
    rw [range_succ, foldlM_append, hfold]
    have hkey : chunkKey key (n + 1) = some (key ++ [UInt8.ofNat n]) := by
      unfold chunkKey
      rw [if_neg (by omega), if_pos (by omega), Nat.add_sub_cancel]
    refine ⟨db'.set (key ++ [UInt8.ofNat n]) (chunk value (n + 1)), ?_,
      hspread.setChunk (by omega)⟩
    simp [setChunk, hkey]

theorem chunkCount_pos (h : MAX_VALUE_SIZE < value.length) :
    2 ≤ chunkCount value := by
  unfold chunkCount MAX_VALUE_SIZE at *
  omega

theorem chunkCount_le_one (h : value.length ≤ MAX_VALUE_SIZE) :
    chunkCount value ≤ 1 := by
  unfold chunkCount MAX_VALUE_SIZE at *
  omega

theorem chunkValue_spec (db : Database) (key : Bytes) (h : chunkCount value ≤ 255) :
    ∃ db', chunkValue db key value = some db' ∧ Spread db key value (parts value) db' := by
  unfold chunkValue
  by_cases hlarge : MAX_VALUE_SIZE < value.length
  · have hne : value ≠ [] := by
      rintro rfl
      exact absurd hlarge (by simp)
    rw [if_pos ⟨hne, hlarge⟩]
    have hcount := chunkCount_pos hlarge
    obtain ⟨n, hn⟩ : ∃ n, chunkCount value = n + 1 := ⟨chunkCount value - 1, by omega⟩
    have hparts : parts value = n + 1 := by
      unfold parts
      omega
    rw [hn, hparts]
    exact foldlM_setChunk db key value n (by omega)
  · rw [if_neg fun hboth => hlarge hboth.2]
    have hcount := chunkCount_le_one (by omega : value.length ≤ MAX_VALUE_SIZE)
    have hparts : parts value = 1 := by
      unfold parts
      omega
    have hchunk : chunk value 0 = value := by
      unfold chunk
      rw [Nat.zero_mul, drop_zero, take_of_length_le (by omega)]
    refine ⟨_, rfl, ?_⟩
    rw [hparts]
    have hset : Spread db key value 1 (db.set key (chunk value 0)) := .set
    rwa [hchunk] at hset

theorem chunkValue_eq_none (db : Database) (key : Bytes)
    (h : 255 < chunkCount value) : chunkValue db key value = none := by
  have hlarge : MAX_VALUE_SIZE < value.length := by
    by_contra hsmall
    have hcount := chunkCount_le_one (by omega : value.length ≤ MAX_VALUE_SIZE)
    omega
  have hne : value ≠ [] := by
    rintro rfl
    exact absurd hlarge (by simp)
  obtain ⟨db', hfold, -⟩ := foldlM_setChunk db key value 254 (by omega)
  have hkey : chunkKey key 255 = none := rfl
  have hfull : (range 256).foldlM (setChunk key value) db = none := by
    rw [range_succ, foldlM_append, hfold]
    simp [setChunk, hkey]
  obtain ⟨m, hm⟩ : ∃ m, chunkCount value = 256 + m := ⟨chunkCount value - 256, by omega⟩
  unfold chunkValue
  rw [if_pos ⟨hne, hlarge⟩, hm, range_add, foldlM_append, hfull]
  rfl

/-! ## What reading depends on -/

/-- Reading reaches the chunk with suffix `i` of a key. -/
def Reaches (db : Database) (key : Bytes) (i : ℕ) : Prop :=
  (∃ bytes, db key = some bytes ∧ MAX_VALUE_SIZE ≤ bytes.length) ∧
    ∀ j < i, db (key ++ [UInt8.ofNat j]) ≠ none

theorem appendChunks_congr {key : Bytes} (n i : ℕ) (value : Bytes)
    (h : ∀ j, i ≤ j → j < i + n → (∀ l, i ≤ l → l < j → db (key ++ [UInt8.ofNat l]) ≠ none) →
      db' (key ++ [UInt8.ofNat j]) = db (key ++ [UInt8.ofNat j])) :
    appendChunks db' key value n i = appendChunks db key value n i := by
  induction n generalizing i value with
  | zero => rfl
  | succ n ih =>
    have hfirst : db' (key ++ [UInt8.ofNat i]) = db (key ++ [UInt8.ofNat i]) :=
      h i le_rfl (by omega) fun l hl hlt => absurd hl (by omega)
    unfold appendChunks
    rw [hfirst]
    cases hchunk : db (key ++ [UInt8.ofNat i]) with
    | none => rfl
    | some bytes =>
      refine ih (i + 1) (value ++ bytes) fun j hij hj hall => ?_
      refine h j (by omega) (by omega) fun l hil hlj => ?_
      by_cases heq : l = i
      · rw [heq, hchunk]
        exact Option.some_ne_none _
      · exact hall l (by omega) hlj

/-- **A read depends on its key and on the chunks it reaches.** -/
theorem readChunkedValue_congr {key : Bytes} (hkey : db' key = db key)
    (hchunks : ∀ i < 256, Reaches db key i →
      db' (key ++ [UInt8.ofNat i]) = db (key ++ [UInt8.ofNat i])) :
    readChunkedValue db' key = readChunkedValue db key := by
  unfold readChunkedValue
  rw [hkey]
  cases hbytes : db key with
  | none => rfl
  | some bytes =>
    by_cases hsmall : bytes.length < MAX_VALUE_SIZE
    · simp only [hsmall, if_true]
    · simp only [hsmall]
      rw [appendChunks_congr 256 0 bytes fun j _ hj hall =>
        hchunks j (by omega) ⟨⟨bytes, hbytes, by omega⟩, fun l hl => hall l (by omega) hl⟩]

/-! ## Reading what was written -/

theorem appendChunks_eq {db : Database} {key : Bytes} {c : ℕ → Bytes} (m : ℕ) {n i : ℕ}
    (value : Bytes) (hm : m < n)
    (hchunks : ∀ j < m, db (key ++ [UInt8.ofNat (i + j)]) = some (c (i + j)))
    (hstop : db (key ++ [UInt8.ofNat (i + m)]) = none) :
    appendChunks db key value n i =
      some (value ++ ((range m).map fun j => c (i + j)).flatten) := by
  induction m generalizing n i value with
  | zero =>
    obtain ⟨n, rfl⟩ : ∃ n', n = n' + 1 := ⟨n - 1, by omega⟩
    have hnone : db (key ++ [UInt8.ofNat i]) = none := hstop
    unfold appendChunks
    rw [hnone]
    simp
  | succ m ih =>
    obtain ⟨n, rfl⟩ : ∃ n', n = n' + 1 := ⟨n - 1, by omega⟩
    have hfirst : db (key ++ [UInt8.ofNat i]) = some (c i) := hchunks 0 (by omega)
    have hrest : appendChunks db key (value ++ c i) n (i + 1) =
        some ((value ++ c i) ++ ((range m).map fun j => c (i + 1 + j)).flatten) := by
      refine ih _ (by omega) (fun j hj => ?_) ?_
      · have := hchunks (j + 1) (by omega)
        rwa [Nat.add_comm j 1, ← Nat.add_assoc] at this
      · rw [Nat.add_assoc, Nat.add_comm 1 m]
        exact hstop
    unfold appendChunks
    simp only [hfirst]
    rw [hrest, range_succ_eq_map, map_cons, map_map, flatten_cons,
      append_assoc]
    simp only [Nat.add_zero, Function.comp_def, Nat.add_assoc,
      Nat.add_comm 1]

theorem take_add_chunk (value : Bytes) (n : ℕ) :
    value.take (n * MAX_VALUE_SIZE) ++ chunk value n = value.take ((n + 1) * MAX_VALUE_SIZE) := by
  unfold chunk
  rw [Nat.succ_mul, take_add]

theorem flatten_chunks (value : Bytes) (n : ℕ) :
    ((range n).map (chunk value)).flatten = value.take (n * MAX_VALUE_SIZE) := by
  induction n with
  | zero => simp
  | succ n ih =>
    rw [range_succ, map_append, flatten_append, ih, map_singleton,
      flatten_singleton, take_add_chunk]

/-- **A value just written is read back**, if no key stands where its next chunk would. -/
theorem read_of_spread {key value : Bytes} (hcount : chunkCount value ≤ 255)
    (h : Spread db key value (parts value) db') (hstop : MAX_VALUE_SIZE ≤ value.length →
      db' (key ++ [UInt8.ofNat (parts value - 1)]) = none) :
    (readChunkedValue db' key).map ChunkedValue.bytes = some (some value) := by
  unfold readChunkedValue
  rw [h.first]
  by_cases hsmall : value.length < MAX_VALUE_SIZE
  · have hchunk : chunk value 0 = value := by
      unfold chunk
      rw [Nat.zero_mul, drop_zero, take_of_length_le (by omega)]
    simp only [hchunk, hsmall]
    rfl
  · have hlength : ¬ (chunk value 0).length < MAX_VALUE_SIZE := by
      unfold chunk
      rw [Nat.zero_mul, drop_zero, length_take]
      omega
    simp only [hlength, if_false]
    have hparts : 1 ≤ parts value ∧ parts value ≤ 255 ∧
        value.length ≤ parts value * MAX_VALUE_SIZE := by
      unfold parts chunkCount MAX_VALUE_SIZE at *
      omega
    have hread := appendChunks_eq (c := fun j => chunk value (j + 1)) (parts value - 1)
      (chunk value 0) (by omega : parts value - 1 < 256)
      (fun j hj => by
        rw [Nat.zero_add]
        exact h.chunks j (by omega))
      (by
        rw [Nat.zero_add]
        exact hstop (by omega))
    rw [hread]
    have hall : chunk value 0 ++
        ((range (parts value - 1)).map fun j => chunk value (0 + j + 1)).flatten = value := by
      have hrange : range (parts value) = range (parts value - 1 + 1) := by
        rw [Nat.sub_add_cancel hparts.1]
      have hflatten := flatten_chunks value (parts value)
      rw [hrange, range_succ_eq_map, map_cons, map_map, flatten_cons,
        take_of_length_le hparts.2.2] at hflatten
      simpa only [Nat.zero_add, Function.comp_def] using hflatten
    simp only [hall, Option.map_some, ChunkedValue.bytes]

end MailServer.Store
