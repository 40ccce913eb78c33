import MailServer.Codec.Leb128
import MailServer.Store.Assert

/-!
# Bit-packed lists

`KeySerializer::bitpack_sorted` writes a list of integers in blocks of 256, 128 and 32, and its
last ones as LEB128 integers; `BitpackIterator` reads them back one by one
(`store/src/write/bitpack.rs`).

Principal result: `roundTrips_iff`.
-/

namespace MailServer.Store

open MailServer.Codec List

/-! ## Writing and reading -/

/-- The packers of the `bitpacking` crate; `initial` is the value before the block. -/
structure BlockCodec where
  numBits : (initial : Option UInt32) → (block : List UInt32) → UInt8
  compress : (initial : Option UInt32) → (block : List UInt32) → (numBits : UInt8) → Bytes
  decompress : (initial : Option UInt32) → (compressed : Bytes) → (numBits : UInt8) →
    (blockLen : ℕ) → List UInt32
  /-- The buffer of the block is filled, whatever the bytes are. -/
  length_decompress : ∀ initial compressed numBits blockLen,
    (decompress initial compressed numBits blockLen).length = blockLen

/-- The codec inverts itself on the blocks that are in order, and packs all integers of a block into
as many bits each. -/
def BlockCodec.Inverts (codec : BlockCodec) (order : UInt32 → UInt32 → Prop) : Prop :=
  ∀ initial block, block.length ∈ [32, 128, 256] → (initial.toList ++ block).Pairwise order →
    let numBits := codec.numBits initial block
    let compressed := codec.compress initial block numBits
    codec.decompress initial compressed numBits block.length = block ∧
      compressed.length = numBits.toNat * block.length / 8

/-- The block length for so many integers, where at least 32 are left. -/
def blockLen (left : ℕ) : ℕ :=
  if left < 128 then 32 else if left < 256 then 128 else 256

def bitpackBlocks (codec : BlockCodec) (initial : Option UInt32) (items : List UInt32) : Bytes :=
  if items.length < 32 then items.flatMap fun item => toLeb128Bytes item.toNat
  else
    let chunk := items.take (blockLen items.length)
    let numBits := codec.numBits initial chunk
    numBits :: (codec.compress initial chunk numBits ++
      bitpackBlocks codec chunk.getLast? (items.drop (blockLen items.length)))
termination_by items.length
decreasing_by
  simp only [blockLen, length_drop]
  split_ifs <;> omega

/-- The bytes that `bitpack_sorted` appends; the length is written `as u32`. -/
def bitpackSorted (codec : BlockCodec) (items : List UInt32) : Bytes :=
  toLeb128Bytes (items.length % 2 ^ 32) ++ bitpackBlocks codec none items

/-- `read_leb128::<u32>`: the value and the number of bytes read. -/
def readU32 (slice : Bytes) : Option (ℕ × ℕ) :=
  fromLeb128BytesPos .u32 IntType.u32.shifts 0 0 slice

structure BitpackIterator where
  bytes : Bytes
  bytesOffset : ℕ
  chunk : List UInt32
  chunkOffset : ℕ
  itemsLeft : ℕ

namespace BitpackIterator

def new (bytes : Bytes) : Option BitpackIterator :=
  (readU32 bytes).map fun (itemsLeft, bytesOffset) => ⟨bytes, bytesOffset, [], 0, itemsLeft⟩

/-- `next`, with the state it leaves, also where the bytes end too early. -/
def next (codec : BlockCodec) (it : BitpackIterator) : Option UInt32 × BitpackIterator :=
  match it.chunk[it.chunkOffset]? with
  | some item => (some item, { it with chunkOffset := it.chunkOffset + 1 })
  | none =>
    if it.itemsLeft = 0 then (none, it)
    else if it.itemsLeft < 32 then
      let it := { it with itemsLeft := it.itemsLeft - 1 }
      match readU32 (it.bytes.drop it.bytesOffset) with
      | none => (none, it)
      | some (item, bytesRead) =>
        (some (.ofNat item), { it with bytesOffset := it.bytesOffset + bytesRead })
    else
      let len := blockLen it.itemsLeft
      match it.bytes[it.bytesOffset]? with
      | none => (none, it)
      | some numBits =>
        let bytesRead := numBits.toNat * len / 8 + 1
        if it.bytes.length < it.bytesOffset + bytesRead then
          (none, { it with chunk := replicate len 0, chunkOffset := 1 })
        else
          let slice := (it.bytes.drop (it.bytesOffset + 1)).take (bytesRead - 1)
          let chunk := codec.decompress it.chunk.getLast? slice numBits len
          (chunk.head?, ⟨it.bytes, it.bytesOffset + bytesRead, chunk, 1, it.itemsLeft - len⟩)

/-- The calls of `next` from one state to another return these integers. -/
inductive Yields (codec : BlockCodec) : BitpackIterator → List UInt32 → BitpackIterator → Prop
  | nil {it} : Yields codec it [] it
  | cons {it it' last item items} (hnext : it.next codec = (some item, it'))
      (htail : Yields codec it' items last) : Yields codec it (item :: items) last

/-- Iterating over the bytes returns the list, and ends where the bytes end. -/
def RoundTrips (codec : BlockCodec) (items : List UInt32) : Prop :=
  ∃ it last, new (bitpackSorted codec items) = some it ∧ Yields codec it items last ∧
    (last.next codec).1 = none ∧ last.bytesOffset = last.bytes.length

/-! ## What is left to read -/

variable {codec : BlockCodec} {order : UInt32 → UInt32 → Prop} {items : List UInt32}
  {it it' last : BitpackIterator}

theorem blockLen_spec {left : ℕ} (h : ¬ left < 32) :
    blockLen left ∈ [32, 128, 256] ∧ 0 < blockLen left ∧ blockLen left ≤ left := by
  unfold blockLen
  split_ifs <;> simp <;> omega

theorem readU32_toLeb128Bytes {value : ℕ} (h : value < 2 ^ 32) (rest : Bytes) :
    readU32 (toLeb128Bytes value ++ rest) = some (value, (toLeb128Bytes value).length) := by
  obtain ⟨init, last, heq, hgroups, -⟩ := toLeb128Bytes_groups value
  have hit := readLeb128_toLeb128Bytes (t := .u32) (n := 5) rfl (by decide) (by decide) h rest
  have hread := read_groups (t := .u32) hgroups rest IntType.u32.shifts 0 0
  rw [readLeb128] at hit
  simp only [heq, append_assoc, singleton_append] at hit ⊢
  split_ifs at hread
  · obtain ⟨v, hv, hpos⟩ := hread
    cases hit.symm.trans hv
    simpa [readU32] using hpos
  · cases hit.symm.trans hread.1

/-- How often `next` can still return an integer. -/
def left (it : BitpackIterator) : ℕ := it.chunk.length - it.chunkOffset + it.itemsLeft

theorem left_next {item : UInt32} (h : it.next codec = (some item, it')) :
    it.left = it'.left + 1 := by
  unfold next at h
  split at h
  · rename_i hget
    obtain ⟨hlt, -⟩ := List.getElem?_eq_some_iff.1 hget
    cases h
    simp only [left]
    omega
  · rename_i hget
    rw [List.getElem?_eq_none_iff] at hget
    split_ifs at h with hzero hsmall
    · cases h
    · dsimp only at h
      split at h <;> cases h
      simp only [left]
      omega
    · dsimp only at h
      split at h
      · cases h
      · split_ifs at h
        · cases h
        obtain rfl : _ = it' := congrArg Prod.snd h
        obtain ⟨-, hpos, hle⟩ := blockLen_spec hsmall
        simp only [left, codec.length_decompress]
        omega

theorem Yields.left (h : Yields codec it items last) :
    it.left = last.left + items.length := by
  induction h with
  | nil => rfl
  | cons hnext htail ih =>
    rw [left_next hnext, ih, length_cons]
    omega

/-! ## Reading back what was written -/

/-- The rest of a block is returned integer by integer. -/
theorem yields_chunk (hle : it.chunkOffset ≤ it.chunk.length)
    (h : Yields codec { it with chunkOffset := it.chunk.length } items last) :
    Yields codec it (it.chunk.drop it.chunkOffset ++ items) last := by
  induction hleft : it.chunk.length - it.chunkOffset generalizing it with
  | zero =>
    have heq : it.chunkOffset = it.chunk.length := by omega
    rw [heq, drop_length, nil_append]
    rwa [← heq] at h
  | succ n ih =>
    have hlt : it.chunkOffset < it.chunk.length := by omega
    rw [drop_eq_getElem_cons hlt]
    have hnext : it.next codec =
        (some it.chunk[it.chunkOffset], { it with chunkOffset := it.chunkOffset + 1 }) := by
      simp [next, getElem?_eq_getElem hlt]
    refine .cons hnext (ih hlt h ?_)
    show it.chunk.length - (it.chunkOffset + 1) = n
    omega

/-- The iterator stands before the bytes of these integers. -/
structure Before (codec : BlockCodec) (items : List UInt32) (it : BitpackIterator) : Prop where
  chunk : it.chunkOffset = it.chunk.length
  left : it.itemsLeft = items.length
  bytes : ∃ front, it.bytes = front ++ bitpackBlocks codec it.chunk.getLast? items ∧
    it.bytesOffset = front.length

theorem Before.next_nil (h : Before codec [] it) :
    (it.next codec).1 = none ∧ it.bytesOffset = it.bytes.length := by
  obtain ⟨front, hbytes, hoffset⟩ := h.bytes
  have hleft := h.left
  constructor
  · simp [next, h.chunk, hleft]
  · simp [hbytes, hoffset, bitpackBlocks]

/-- One of the last integers: fewer than 32 are left. -/
theorem Before.next_cons {item : UInt32} (h : Before codec (item :: items) it)
    (hsmall : items.length + 1 < 32) :
    ∃ it', it.next codec = (some item, it') ∧ it'.chunk = it.chunk ∧ Before codec items it' := by
  obtain ⟨front, hbytes, hoffset⟩ := h.bytes
  have hleft : it.itemsLeft = items.length + 1 := h.left
  have hpack : bitpackBlocks codec it.chunk.getLast? (item :: items) =
      toLeb128Bytes item.toNat ++ bitpackBlocks codec it.chunk.getLast? items := by
    have hrest : items.length < 32 := by omega
    simp [bitpackBlocks, hsmall, hrest]
  rw [hpack] at hbytes
  refine ⟨{ it with
    itemsLeft := items.length, bytesOffset := it.bytesOffset + (toLeb128Bytes item.toNat).length },
    ?_, rfl, h.chunk, rfl, front ++ toLeb128Bytes item.toNat, ?_, ?_⟩
  · simp [next, h.chunk, hleft, hsmall, hbytes, hoffset, readU32_toLeb128Bytes item.toNat_lt]
  · simp [hbytes]
  · simp [hoffset]

/-- A whole block: at least 32 are left. -/
theorem Before.next_block (hcodec : codec.Inverts order) (h : Before codec items it)
    (hsorted : (it.chunk.getLast?.toList ++ items).Pairwise order) (hlarge : ¬ items.length < 32) :
    ∃ item block it', items.take (blockLen items.length) = item :: block ∧
      it.next codec = (some item, it') ∧ it'.chunk = item :: block ∧ it'.chunkOffset = 1 ∧
      Before codec (items.drop (blockLen items.length))
        { it' with chunkOffset := it'.chunk.length } := by
  obtain ⟨front, hbytes, hoffset⟩ := h.bytes
  obtain ⟨hmem, hpos, hle⟩ := blockLen_spec hlarge
  have hlength : (items.take (blockLen items.length)).length = blockLen items.length := by
    simp [hle]
  obtain ⟨item, block, htake⟩ := exists_cons_of_length_pos (hlength ▸ hpos)
  have hblock : (it.chunk.getLast?.toList ++ item :: block).Pairwise order := by
    rw [← htake]
    exact hsorted.sublist ((take_sublist _ _).append_left _)
  rw [htake] at hlength
  obtain ⟨hback, hpacked⟩ := hcodec _ _ (hlength ▸ hmem) hblock
  rw [bitpackBlocks, if_neg hlarge] at hbytes
  dsimp only at hbytes
  rw [htake] at hbytes
  rw [hlength] at hback hpacked
  generalize codec.numBits it.chunk.getLast? (item :: block) = numBits at *
  generalize codec.compress it.chunk.getLast? (item :: block) numBits = compressed at *
  refine ⟨item, block, ⟨it.bytes, it.bytesOffset + (compressed.length + 1), item :: block, 1,
    items.length - blockLen items.length⟩, htake, ?_, rfl, rfl, rfl, length_drop.symm,
    front ++ numBits :: compressed, by simp [hbytes], by simp [hoffset]⟩
  have hzero : ¬ items.length = 0 := by omega
  have hdrop : it.bytes.drop (front.length + 1) = compressed ++ bitpackBlocks codec
      (item :: block).getLast? (items.drop (blockLen items.length)) := by
    rw [hbytes, drop_append]
    simp
  have hfits : ¬ it.bytes.length < front.length + (compressed.length + 1) := by
    rw [hbytes]
    simp
  have hget : it.bytes[front.length]? = some numBits := by simp [hbytes]
  simp [next, h.chunk, h.left, hoffset, hzero, hlarge, hget, ← hpacked, hdrop, hback, hfits]

/-- The induction is on the number of integers; a block takes many of them at once. -/
theorem exists_yields (hcodec : codec.Inverts order) (h : Before codec items it)
    (hsorted : (it.chunk.getLast?.toList ++ items).Pairwise order) :
    ∃ last, Yields codec it items last ∧ Before codec [] last := by
  induction hn : items.length using Nat.strong_induction_on generalizing items it with
  | h n ih =>
    by_cases hsmall : items.length < 32
    · cases items with
      | nil => exact ⟨it, .nil, h⟩
      | cons item items =>
        obtain ⟨it', hnext, hchunk, hbefore⟩ := h.next_cons hsmall
        have htail : (it'.chunk.getLast?.toList ++ items).Pairwise order := by
          rw [hchunk]
          exact hsorted.sublist ((sublist_cons_self _ _).append_left _)
        obtain ⟨last, hyields, hlast⟩ := ih items.length (by simp [← hn]) hbefore htail rfl
        exact ⟨last, .cons hnext hyields, hlast⟩
    · obtain ⟨item, block, it', htake, hnext, hchunk, hoffset, hbefore⟩ :=
        h.next_block hcodec hsorted hsmall
      obtain ⟨-, hpos, hle⟩ := blockLen_spec hsmall
      have hsplit := take_append_drop (blockLen items.length) items
      rw [htake] at hsplit
      have htail : (it'.chunk.getLast?.toList ++
          items.drop (blockLen items.length)).Pairwise order := by
        have hall := hsorted.sublist (sublist_append_right _ _)
        rw [← hsplit] at hall
        refine hall.sublist (.append_right ?_ _)
        rw [hchunk, getLast?_eq_some_getLast (cons_ne_nil _ _)]
        exact singleton_sublist.2 (getLast_mem _)
      obtain ⟨last, hyields, hlast⟩ := ih _ (by rw [length_drop]; omega) hbefore htail rfl
      have hrest := yields_chunk (by simp [hoffset, hchunk]) hyields
      rw [hoffset, hchunk] at hrest
      rw [← hsplit]
      exact ⟨last, .cons hnext hrest, hlast⟩

theorem new_bitpackSorted : new (bitpackSorted codec items) = some ⟨bitpackSorted codec items,
    (toLeb128Bytes (items.length % 2 ^ 32)).length, [], 0, items.length % 2 ^ 32⟩ := by
  have hlt : items.length % 2 ^ 32 < 2 ^ 32 := by omega
  rw [new, bitpackSorted, readU32_toLeb128Bytes hlt]
  rfl

theorem RoundTrips.length_lt (h : RoundTrips codec items) : items.length < 2 ^ 32 := by
  obtain ⟨it, last, hit, hyields, -⟩ := h
  cases new_bitpackSorted.symm.trans hit
  have hleft := hyields.left
  simp only [left, length_nil] at hleft
  omega

/-- **Reading back a packed list** returns it exactly where its length fits in the 32 bits it is
written in: of a longer one the iterator returns the remainder at most. -/
theorem roundTrips_iff (hcodec : codec.Inverts order) (hsorted : items.Pairwise order) :
    RoundTrips codec items ↔ items.length < 2 ^ 32 := by
  refine ⟨RoundTrips.length_lt, fun hfits => ?_⟩
  have hbefore : Before codec items ⟨bitpackSorted codec items,
      (toLeb128Bytes (items.length % 2 ^ 32)).length, [], 0, items.length % 2 ^ 32⟩ :=
    ⟨rfl, Nat.mod_eq_of_lt hfits, _, rfl, rfl⟩
  obtain ⟨last, hyields, hlast⟩ := exists_yields hcodec hbefore hsorted
  exact ⟨_, last, new_bitpackSorted, hyields, hlast.next_nil⟩

/-! ## A codec -/

/-- Every gap, less one, in 32 bits, the lowest byte first. -/
def toGaps : (prev : UInt32) → (block : List UInt32) → Bytes
  | _, [] => []
  | prev, item :: block => (beU32 (item - prev - 1)).reverse ++ toGaps item block

def fromGaps : (prev : UInt32) → (blockLen : ℕ) → (compressed : Bytes) → List UInt32
  | _, 0, _ => []
  | prev, blockLen + 1, compressed =>
    let item := prev + .ofNat (beNat (compressed.take 4).reverse) + 1
    item :: fromGaps item blockLen (compressed.drop 4)

theorem length_toGaps (prev : UInt32) (block) : (toGaps prev block).length = 4 * block.length := by
  induction block generalizing prev with
  | nil => rfl
  | cons item block ih =>
    simp [toGaps, ih, U32_LEN]
    omega

theorem length_fromGaps (prev : UInt32) (n compressed) :
    (fromGaps prev n compressed).length = n := by
  induction n generalizing prev compressed with
  | zero => rfl
  | succ n ih => simp [fromGaps, ih]

theorem fromGaps_toGaps (prev : UInt32) (block) :
    fromGaps prev block.length (toGaps prev block) = block := by
  induction block generalizing prev with
  | nil => rfl
  | cons item block ih =>
    have hitem : prev + (item - prev - 1) + 1 = item := by grind
    simp [fromGaps, toGaps, U32_LEN, beNat_beU32, hitem, ih]

/-- The codec where the largest gap of a block needs all 32 bits. -/
def wide : BlockCodec where
  numBits _ _ := 32
  compress initial block _ := toGaps (initial.getD 0xffffffff) block
  decompress initial compressed _ blockLen := fromGaps (initial.getD 0xffffffff) blockLen compressed
  length_decompress _ _ _ _ := length_fromGaps _ _ _

theorem wide_inverts : wide.Inverts order := by
  intro initial block _ _
  have hlength := length_toGaps (initial.getD 0xffffffff) block
  refine ⟨fromGaps_toGaps _ block, ?_⟩
  simp [wide, hlength]
  omega

theorem roundTrips_top :
    RoundTrips wide ((range 32).map fun i => .ofNat (0xffffffe0 + i)) :=
  (roundTrips_iff (wide_inverts : wide.Inverts (· ≤ ·)) (by decide)).2 (by decide)

theorem not_roundTrips_zeros : wide.Inverts (· ≤ ·) ∧
    (replicate (2 ^ 32) (0 : UInt32)).Pairwise (· ≤ ·) ∧
      ¬ RoundTrips wide (replicate (2 ^ 32) 0) := by
  refine ⟨wide_inverts, pairwise_replicate.2 (.inr (le_refl 0)), fun h => ?_⟩
  have hlt := h.length_lt
  rw [length_replicate] at hlt
  exact lt_irrefl _ hlt

end BitpackIterator

end MailServer.Store
