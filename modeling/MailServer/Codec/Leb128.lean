import Mathlib.Data.Nat.Bitwise
import Mathlib.Data.List.Basic
import Mathlib.Tactic.Ring

/-!
# LEB128 integers

The variable-length integers of `utils/src/codec/leb128.rs`: seven bits to a byte, the lowest
first, the high bit set on every byte but the last.  The source generates one codec for each
unsigned type from its width and its list of shifts (`IntType`).

Principal results: `readLeb128_toLeb128Bytes`, `flatMap_toLeb128Bytes_injective`, `faithful_iff`.
-/

namespace MailServer.Codec

open List

variable {value : Nat}

/-- An unsigned type with the shifts of its readers (`impl_unsigned_leb128!`). -/
structure IntType where
  bits : Nat
  shifts : List Nat

namespace IntType

def u8 : IntType := ⟨8, [0]⟩
def u16 : IntType := ⟨16, [0, 7, 14]⟩
def u32 : IntType := ⟨32, [0, 7, 14, 21, 28]⟩
def u64 : IntType := ⟨64, [0, 7, 14, 21, 28, 35, 42, 49, 56, 63]⟩
def usize : IntType := ⟨64, [0, 7, 14, 21, 28, 35, 42, 49, 56, 63]⟩

/-- `(byte as T) << shift`. -/
def shl (t : IntType) (byte : UInt8) (shift : Nat) : Nat :=
  (byte.toNat <<< shift) % 2 ^ t.bits

end IntType

def toLeb128Bytes (value : Nat) : List UInt8 :=
  if value < 0x80 then [value.toUInt8]
  else ((value &&& 0x7f) ||| 0x80).toUInt8 :: toLeb128Bytes (value >>> 7)
termination_by value
decreasing_by
  rw [Nat.shiftRight_eq_div_pow]
  omega

/-- The loop of `from_leb128_it`: one shift and one byte at a time, as long as there are both. -/
def fromLeb128It (t : IntType) : (shifts : List Nat) → (result : Nat) → (bytes : List UInt8) →
    Option (Nat × List UInt8)
  | shift :: shifts, result, byte :: bytes =>
    if byte &&& 0x80 = 0 then some (result ||| t.shl byte shift, bytes)
    else fromLeb128It t shifts (result ||| t.shl (byte &&& 0x7f) shift) bytes
  | _, _, _ => none

/-- `next_leb128`: the value, and the bytes the iterator is left with. -/
def readLeb128 (t : IntType) (bytes : List UInt8) : Option (Nat × List UInt8) :=
  fromLeb128It t t.shifts 0 bytes

/-! ## One byte -/

theorem toNat_toUInt8 (h : value < 256) : value.toUInt8.toNat = value := by
  simp [Nat.mod_eq_of_lt h]

theorem last_byte (h : value < 0x80) :
    value.toUInt8 &&& 0x80 = 0 ∧ value.toUInt8.toNat = value := by
  refine ⟨?_, toNat_toUInt8 (by omega)⟩
  have hall : ∀ v < 0x80, v.toUInt8 &&& 0x80 = 0 := by decide
  exact hall value h

theorem inner_byte (value : Nat) :
    ((value &&& 0x7f) ||| 0x80).toUInt8 &&& 0x80 ≠ 0 ∧
      (((value &&& 0x7f) ||| 0x80).toUInt8 &&& 0x7f).toNat = value % 128 := by
  have hall : ∀ v < 128, (v ||| 0x80).toUInt8 &&& 0x80 ≠ 0 ∧
      ((v ||| 0x80).toUInt8 &&& 0x7f).toNat = v := by decide
  have hlow : value &&& 0x7f = value % 128 := Nat.and_two_pow_sub_one_eq_mod value 7
  rw [hlow]
  exact hall (value % 128) (Nat.mod_lt _ (by decide))

theorem or_shl {t : IntType} {byte : UInt8} {shift result : Nat} (hresult : result < 2 ^ shift)
    (hfits : byte.toNat * 2 ^ shift < 2 ^ t.bits) :
    result ||| t.shl byte shift = result + byte.toNat * 2 ^ shift := by
  have hshl : t.shl byte shift = 2 ^ shift * byte.toNat := by
    rw [IntType.shl, Nat.shiftLeft_eq, Nat.mod_eq_of_lt hfits, Nat.mul_comm]
  rw [hshl, Nat.or_comm, ← Nat.two_pow_add_eq_or_of_lt hresult]
  ring

/-! ## Whole integers -/

/-- The shifts `7 k, 7 (k + 1), …`, one for each of `n` bytes. -/
def shiftsFrom : (k n : Nat) → List Nat
  | _, 0 => []
  | k, n + 1 => 7 * k :: shiftsFrom (k + 1) n

/-- Reading what was written, with the lower bytes already read. -/
theorem fromLeb128It_toLeb128Bytes (t : IntType) (rest : List UInt8) :
    ∀ n k value result, value < 2 ^ (7 * n) → 0 < n → result < 2 ^ (7 * k) →
      value * 2 ^ (7 * k) < 2 ^ t.bits →
      fromLeb128It t (shiftsFrom k n) result (toLeb128Bytes value ++ rest) =
        some (result + value * 2 ^ (7 * k), rest)
  | 0, _, _, _, _, hn, _, _ => nomatch hn
  | n + 1, k, value, result, hvalue, _, hresult, hfits => by
    rw [toLeb128Bytes, shiftsFrom]
    split_ifs with hsmall
    · obtain ⟨hend, hbyte⟩ := last_byte hsmall
      rw [singleton_append, fromLeb128It, if_pos hend,
        or_shl hresult (by rwa [hbyte]), hbyte]
    · obtain ⟨hmore, hbyte⟩ := inner_byte value
      have hpow : 2 ^ (7 * (k + 1)) = 2 ^ (7 * k) * 128 := by
        rw [show 7 * (k + 1) = 7 * k + 7 by ring, Nat.pow_add]
      have hdiv : value >>> 7 = value / 128 := Nat.shiftRight_eq_div_pow value 7
      have hlow : value % 128 * 2 ^ (7 * k) < 2 ^ t.bits :=
        Nat.lt_of_le_of_lt (Nat.mul_le_mul_right _ (Nat.mod_le _ _)) hfits
      rw [cons_append, fromLeb128It, if_neg hmore, or_shl hresult (by rwa [hbyte]), hbyte,
        hdiv]
      have hn : 0 < n := by
        rcases Nat.eq_zero_or_pos n with rfl | hn
        · simp at hvalue
          omega
        · exact hn
      have hnext : value / 128 < 2 ^ (7 * n) := by
        rw [Nat.div_lt_iff_lt_mul (by decide)]
        calc value < 2 ^ (7 * (n + 1)) := hvalue
          _ = 2 ^ (7 * n) * 128 := by rw [show 7 * (n + 1) = 7 * n + 7 by ring, Nat.pow_add]
      have hlower : result + value % 128 * 2 ^ (7 * k) < 2 ^ (7 * (k + 1)) := by
        have hmod : value % 128 ≤ 127 := by omega
        have := Nat.mul_le_mul_right (2 ^ (7 * k)) hmod
        omega
      have hupper : value / 128 * 2 ^ (7 * (k + 1)) < 2 ^ t.bits := by
        have hle : value / 128 * 128 ≤ value := Nat.div_mul_le_self _ _
        calc value / 128 * 2 ^ (7 * (k + 1)) = value / 128 * 128 * 2 ^ (7 * k) := by
              rw [hpow]; ring
          _ ≤ value * 2 ^ (7 * k) := Nat.mul_le_mul_right _ hle
          _ < 2 ^ t.bits := hfits
      rw [fromLeb128It_toLeb128Bytes t rest n (k + 1) (value / 128) _ hnext hn hlower hupper]
      congr 2
      rw [hpow]
      have := Nat.div_add_mod value 128
      calc result + value % 128 * 2 ^ (7 * k) + value / 128 * (2 ^ (7 * k) * 128)
          = result + (128 * (value / 128) + value % 128) * 2 ^ (7 * k) := by ring
        _ = result + value * 2 ^ (7 * k) := by rw [this]

/-- **Reading back a written integer**: where the shifts of a type cover its width, the reader
returns the value and leaves the bytes that follow. -/
theorem readLeb128_toLeb128Bytes {t : IntType} {n : Nat} (hshifts : t.shifts = shiftsFrom 0 n)
    (hcover : t.bits ≤ 7 * n) (hbits : 0 < t.bits) (hvalue : value < 2 ^ t.bits)
    (rest : List UInt8) :
    readLeb128 t (toLeb128Bytes value ++ rest) = some (value, rest) := by
  have hle : 2 ^ t.bits ≤ 2 ^ (7 * n) := Nat.pow_le_pow_right (by decide) hcover
  rw [readLeb128, hshifts, fromLeb128It_toLeb128Bytes t rest n 0 value 0 (by omega) (by omega)
    (by simp) (by simpa using hvalue)]
  simp

theorem readLeb128_u64 (hvalue : value < 2 ^ 64) (rest : List UInt8) :
    readLeb128 .u64 (toLeb128Bytes value ++ rest) = some (value, rest) :=
  readLeb128_toLeb128Bytes (n := 10) rfl (by decide) (by decide) hvalue rest

theorem readLeb128_usize (hvalue : value < 2 ^ 64) (rest : List UInt8) :
    readLeb128 .usize (toLeb128Bytes value ++ rest) = some (value, rest) :=
  readLeb128_toLeb128Bytes (n := 10) rfl (by decide) (by decide) hvalue rest

theorem toLeb128Bytes_append_inj {v w : Nat} {rest rest' : List UInt8}
    (heq : toLeb128Bytes v ++ rest = toLeb128Bytes w ++ rest') : v = w ∧ rest = rest' := by
  have hread : ∀ x ≤ max v w, ∀ rest, readLeb128 ⟨7 * (max v w + 1), shiftsFrom 0 (max v w + 1)⟩
      (toLeb128Bytes x ++ rest) = some (x, rest) := by
    intro x hx rest
    refine readLeb128_toLeb128Bytes rfl le_rfl (by simp) ?_ rest
    calc x < 7 * (max v w + 1) := by omega
      _ < 2 ^ (7 * (max v w + 1)) := Nat.lt_two_pow_self
  have h := hread v (le_max_left _ _) rest
  rw [heq, hread w (le_max_right _ _)] at h
  cases h
  exact ⟨rfl, rfl⟩

/-- **Integers written one behind the other** are determined by the bytes. -/
theorem flatMap_toLeb128Bytes_injective :
    Function.Injective fun values : List Nat => values.flatMap toLeb128Bytes := by
  have hne : ∀ v, toLeb128Bytes v ≠ [] := by
    intro v
    rw [toLeb128Bytes]
    split <;> simp
  intro values values' heq
  induction values generalizing values' with
  | nil =>
    cases values' with
    | nil => rfl
    | cons => simp [hne] at heq
  | cons v values ih =>
    cases values' with
    | nil => simp [hne] at heq
    | cons w values' =>
      obtain ⟨rfl, htail⟩ := toLeb128Bytes_append_inj heq
      rw [ih htail]

/-! ## Bytes that were not written -/

/-- The loop of `from_leb128_bytes_pos`: the value and the position behind it. -/
def fromLeb128BytesPos (t : IntType) : (shifts : List Nat) → (result pos : Nat) →
    (slice : List UInt8) → Option (Nat × Nat)
  | shift :: shifts, result, pos, byte :: slice =>
    if byte &&& 0x80 = 0 then some (result ||| t.shl byte shift, pos + 1)
    else fromLeb128BytesPos t shifts (result ||| t.shl (byte &&& 0x7f) shift) (pos + 1) slice
  | _, _, _, _ => none

attribute [local simp] fromLeb128It fromLeb128BytesPos

/-- **The two readers take back what is written, and nothing else.** -/
structure Faithful (t : IntType) (bytes : List UInt8) : Prop where
  it : ∀ v rest, readLeb128 t bytes = some (v, rest) ↔
    v < 2 ^ t.bits ∧ bytes = toLeb128Bytes v ++ rest
  slice : ∀ v pos, fromLeb128BytesPos t t.shifts 0 0 bytes = some (v, pos) ↔
    v < 2 ^ t.bits ∧ toLeb128Bytes v <+: bytes ∧ pos = (toLeb128Bytes v).length

/-- The last byte of an integer and the ones before it. -/
structure Groups (init : List UInt8) (last : UInt8) : Prop where
  more : ∀ byte ∈ init, byte &&& 0x80 ≠ 0
  ends : last &&& 0x80 = 0

/-- No group is superfluous, and the last one fits in the width. -/
def Minimal (t : IntType) (init : List UInt8) (last : UInt8) : Prop :=
  (init = [] ∨ last ≠ 0) ∧ last.toNat * 2 ^ (7 * init.length) < 2 ^ t.bits

variable {t : IntType} {init init' rest rest' : List UInt8} {last last' : UInt8}

theorem Groups.tail {byte : UInt8} (h : Groups (byte :: init) last) : Groups init last :=
  ⟨fun b hb => h.more b (.tail _ hb), h.ends⟩

theorem Groups.unique (h : Groups init last) (h' : Groups init' last')
    (heq : init ++ last :: rest = init' ++ last' :: rest') :
    init = init' ∧ last = last' ∧ rest = rest' := by
  induction init generalizing init' with
  | nil =>
    cases init' with
    | nil => simpa using heq
    | cons byte init' =>
      obtain ⟨rfl, -⟩ := cons.inj heq
      cases h'.more _ (.head _) h.ends
  | cons byte init ih =>
    cases init' with
    | nil =>
      obtain ⟨rfl, -⟩ := cons.inj heq
      cases h.more _ (.head _) h'.ends
    | cons byte' init' =>
      obtain ⟨rfl, htail⟩ := cons.inj heq
      obtain ⟨rfl, hrest⟩ := ih h.tail h'.tail htail
      exact ⟨rfl, hrest⟩

theorem exists_groups (bytes : List UInt8) : (∀ byte ∈ bytes, byte &&& 0x80 ≠ 0) ∨
    ∃ init last rest, Groups init last ∧ bytes = init ++ last :: rest := by
  induction bytes with
  | nil => exact .inl nofun
  | cons byte bytes ih =>
    by_cases hend : byte &&& 0x80 = 0
    · exact .inr ⟨[], byte, bytes, ⟨nofun, hend⟩, rfl⟩
    · rcases ih with hall | ⟨init, last, rest, h, rfl⟩
      · exact .inl (forall_mem_cons.2 ⟨hend, hall⟩)
      · exact .inr ⟨byte :: init, last, rest, ⟨forall_mem_cons.2 ⟨hend, h.more⟩, h.ends⟩,
          rfl⟩

/-- As long as the shifts last, an integer is read. -/
theorem read_groups (h : Groups init last) (rest : List UInt8) (shifts : List Nat)
    (result pos : Nat) :
    if init.length < shifts.length then ∃ v,
      fromLeb128It t shifts result (init ++ last :: rest) = some (v, rest) ∧
        fromLeb128BytesPos t shifts result pos (init ++ last :: rest) =
          some (v, pos + (init.length + 1))
    else fromLeb128It t shifts result (init ++ last :: rest) = none ∧
      fromLeb128BytesPos t shifts result pos (init ++ last :: rest) = none := by
  induction init generalizing shifts result pos with
  | nil =>
    cases shifts with
    | nil => exact ⟨rfl, rfl⟩
    | cons shift shifts =>
      exact ⟨_, if_pos h.ends, if_pos h.ends⟩
  | cons byte init ih =>
    cases shifts with
    | nil => exact ⟨rfl, rfl⟩
    | cons shift shifts =>
      have hmore := h.more byte (.head _)
      have hnext := ih h.tail shifts (result ||| t.shl (byte &&& 0x7f) shift) (pos + 1)
      simpa [if_neg hmore, Nat.add_assoc, Nat.add_comm 1] using hnext

theorem read_more (bytes : List UInt8) (h : ∀ byte ∈ bytes, byte &&& 0x80 ≠ 0)
    (shifts : List Nat) (result pos : Nat) : fromLeb128It t shifts result bytes = none ∧
      fromLeb128BytesPos t shifts result pos bytes = none := by
  induction bytes generalizing shifts result pos with
  | nil => cases shifts <;> exact ⟨rfl, rfl⟩
  | cons byte bytes ih =>
    cases shifts with
    | nil => exact ⟨rfl, rfl⟩
    | cons shift shifts =>
      obtain ⟨hmore, h⟩ := forall_mem_cons.1 h
      simpa [if_neg hmore] using ih h shifts _ _

theorem toLeb128Bytes_groups (value : Nat) : ∃ init last, toLeb128Bytes value = init ++ [last] ∧
    Groups init last ∧ (init = [] ∨ last ≠ 0) ∧ last.toNat * 2 ^ (7 * init.length) ≤ value ∧
      value < (last.toNat + 1) * 2 ^ (7 * init.length) := by
  induction value using toLeb128Bytes.induct with
  | case1 value hsmall =>
    obtain ⟨hend, hbyte⟩ := last_byte hsmall
    exact ⟨[], value.toUInt8, by rw [toLeb128Bytes, if_pos hsmall]; rfl, ⟨nofun, hend⟩, .inl rfl,
      by simp [hbyte], by simp [hbyte]⟩
  | case2 value hlarge ih =>
    obtain ⟨init, last, heq, h, hzero, hle, hlt⟩ := ih
    rw [Nat.shiftRight_eq_div_pow] at hle hlt
    have hpow : 2 ^ (7 * (init.length + 1)) = 2 ^ (7 * init.length) * 128 := by
      rw [Nat.mul_add, Nat.pow_add]
    refine ⟨_ :: init, last, by rw [toLeb128Bytes, if_neg hlarge, heq]; rfl,
      ⟨forall_mem_cons.2 ⟨(inner_byte value).1, h.more⟩, h.ends⟩, .inr ?_, ?_, ?_⟩
    · rcases hzero with rfl | hlast
      · rintro rfl
        simp at hlt
        omega
      · exact hlast
    all_goals rw [length_cons, hpow, ← Nat.mul_assoc]; omega

set_option maxRecDepth 4000 in
theorem byte_groups (byte : UInt8) : if byte &&& 0x80 = 0 then byte.toNat < 128
    else ((byte.toNat % 128) ||| 0x80).toUInt8 = byte := by
  have hall : ∀ v < 256, if v.toUInt8 &&& 0x80 = 0 then v < 128
      else ((v % 128) ||| 0x80).toUInt8 = v.toUInt8 := by decide
  simpa using hall byte.toNat byte.toNat_lt

theorem Groups.last_lt (h : Groups init last) : last.toNat < 128 := by
  have hlast := byte_groups last
  rwa [if_pos h.ends] at hlast

theorem exists_toLeb128Bytes (h : Groups init last) (hzero : init = [] ∨ last ≠ 0) :
    ∃ value, toLeb128Bytes value = init ++ [last] := by
  induction init with
  | nil => exact ⟨last.toNat, by rw [toLeb128Bytes, if_pos h.last_lt]; simp⟩
  | cons byte init ih =>
    have hlast : last ≠ 0 := hzero.resolve_left (cons_ne_nil _ _)
    obtain ⟨value, heq⟩ := ih h.tail (.inr hlast)
    have hpos : value ≠ 0 := by
      rintro rfl
      rw [toLeb128Bytes] at heq
      cases init with
      | nil => exact hlast (singleton_inj.1 heq).symm
      | cons b init => simp at heq
    refine ⟨value * 128 + byte.toNat % 128, ?_⟩
    have hlow : (value * 128 + byte.toNat % 128) &&& 0x7f = byte.toNat % 128 :=
      (Nat.and_two_pow_sub_one_eq_mod _ 7).trans (by omega)
    have hhigh : (value * 128 + byte.toNat % 128) >>> 7 = value := by
      rw [Nat.shiftRight_eq_div_pow]
      omega
    have hmore := byte_groups byte
    rw [if_neg (h.more byte (.head _))] at hmore
    rw [toLeb128Bytes, if_neg (by omega), hlow, hhigh, heq, hmore]
    rfl

theorem minimal_iff (hbits : 0 < t.bits) (h : Groups init last) :
    Minimal t init last ↔ ∃ v < 2 ^ t.bits, toLeb128Bytes v = init ++ [last] := by
  constructor
  · rintro ⟨hzero, hfits⟩
    obtain ⟨v, heq⟩ := exists_toLeb128Bytes h hzero
    obtain ⟨init', last', heq', h', -, -, hlt⟩ := toLeb128Bytes_groups v
    obtain ⟨rfl, rfl, -⟩ := h.unique h' (heq.symm.trans heq')
    refine ⟨v, hlt.trans_le ?_, heq⟩
    rcases Nat.le_total (7 * init.length) t.bits with hle | hle
    · obtain ⟨d, hd⟩ := Nat.exists_eq_add_of_le' hle
      rw [hd, Nat.pow_add] at hfits ⊢
      exact Nat.mul_le_mul_right _ (Nat.lt_of_mul_lt_mul_right hfits)
    · -- a group above the width is zero, and it is not the first
      have hlt := hfits.trans_le (Nat.pow_le_pow_right (by decide) hle)
      have hlast : last.toNat = 0 := by
        by_contra hlast
        exact hlt.not_ge (Nat.le_mul_of_pos_left _ (Nat.pos_of_ne_zero hlast))
      rcases hzero with rfl | hne
      · cases hbits.not_ge hle
      · cases hne (UInt8.toNat_inj.1 hlast)
  · rintro ⟨v, hv, heq⟩
    obtain ⟨init', last', heq', h', hzero, hle, -⟩ := toLeb128Bytes_groups v
    obtain ⟨rfl, rfl, -⟩ := h.unique h' (heq.symm.trans heq')
    exact ⟨hzero, hle.trans_lt hv⟩

theorem length_shiftsFrom (k n : Nat) : (shiftsFrom k n).length = n := by
  induction n generalizing k with
  | zero => rfl
  | succ n ih => rw [shiftsFrom, length_cons, ih]

theorem faithful_of_groups {n : Nat} (hshifts : t.shifts = shiftsFrom 0 n) (hbits : 0 < t.bits)
    (h : Groups init last) (rest : List UInt8) : Faithful t (init ++ last :: rest) ↔
      (init.length < t.shifts.length ↔ Minimal t init last) := by
  have hfront : ∀ v rest', toLeb128Bytes v ++ rest' = init ++ last :: rest →
      toLeb128Bytes v = init ++ [last] ∧ rest = rest' := by
    intro v rest' heq
    obtain ⟨init', last', hv, h', -⟩ := toLeb128Bytes_groups v
    rw [hv, append_assoc] at heq
    obtain ⟨rfl, rfl, rfl⟩ := h'.unique h heq
    exact ⟨hv, rfl⟩
  have hread := read_groups (t := t) h rest t.shifts 0 0
  rw [minimal_iff hbits h]
  split_ifs at hread with hlasts
  · obtain ⟨v, hit, hslice⟩ := hread
    rw [iff_true_left hlasts]
    constructor
    · intro hfaithful
      obtain ⟨hv, heq⟩ := (hfaithful.it v rest).1 hit
      exact ⟨v, hv, (hfront v rest heq.symm).1⟩
    · rintro ⟨w, hw, heq⟩
      have hvalue : ∀ w < 2 ^ t.bits, toLeb128Bytes w = init ++ [last] → w = v := by
        intro w hw heq
        obtain ⟨init', last', heq', h', -, -, hlt⟩ := toLeb128Bytes_groups w
        obtain ⟨rfl, rfl, -⟩ := h.unique h' (heq.symm.trans heq')
        rw [hshifts, length_shiftsFrom] at hlasts
        have hcover : w < 2 ^ (7 * n) := by
          calc w < (last.toNat + 1) * 2 ^ (7 * init.length) := hlt
            _ ≤ 2 ^ 7 * 2 ^ (7 * init.length) := Nat.mul_le_mul_right _ h.last_lt
            _ = 2 ^ (7 + 7 * init.length) := (Nat.pow_add ..).symm
            _ ≤ 2 ^ (7 * n) := Nat.pow_le_pow_right (by decide) (by omega)
        have hread := fromLeb128It_toLeb128Bytes t rest n 0 w 0 hcover (by omega) (by simp)
          (by simpa using hw)
        rw [← hshifts, heq, append_assoc, singleton_append, hit] at hread
        simp at hread
        exact hread.symm
      obtain rfl := hvalue w hw heq
      refine ⟨fun v' rest' => ⟨fun hread => ?_, fun ⟨hv, heq'⟩ => ?_⟩,
        fun v' pos => ⟨fun hread => ?_, fun ⟨hv, ⟨rest', heq'⟩, hpos⟩ => ?_⟩⟩
      · cases hit.symm.trans hread
        exact ⟨hw, by simp [heq]⟩
      · obtain ⟨hv', rfl⟩ := hfront v' rest' heq'.symm
        rw [hvalue v' hv hv']
        exact hit
      · cases hslice.symm.trans hread
        exact ⟨hw, ⟨rest, by simp [heq]⟩, by simp [heq]⟩
      · obtain ⟨hv', rfl⟩ := hfront v' rest' heq'
        rw [hvalue v' hv hv', hslice, hpos, hv', length_append, Nat.zero_add]
        rfl
  · obtain ⟨hit, hslice⟩ := hread
    rw [iff_false_left hlasts]
    constructor
    · rintro hfaithful ⟨w, hw, heq⟩
      cases hit.symm.trans ((hfaithful.it w rest).2 ⟨hw, by simp [heq]⟩)
    · intro hnone
      refine ⟨fun v rest' => ?_, fun v pos => ?_⟩
      · rw [readLeb128, hit]
        exact iff_of_false nofun fun ⟨hv, heq⟩ => hnone ⟨v, hv, (hfront v rest' heq.symm).1⟩
      · rw [hslice]
        exact iff_of_false nofun fun ⟨hv, ⟨rest', heq⟩, _⟩ => hnone ⟨v, hv, (hfront v rest' heq).1⟩

/-- **When the readers are right about an input**: the shifts of the type last for the integer in
front exactly when it is minimal and fits in the width. -/
theorem faithful_iff (ht : t ∈ [.u8, .u16, .u32, .u64, .usize]) (bytes : List UInt8) :
    Faithful t bytes ↔ ∀ init last rest, Groups init last → bytes = init ++ last :: rest →
      (init.length < t.shifts.length ↔ Minimal t init last) := by
  have hall : t.shifts = shiftsFrom 0 t.shifts.length ∧ 0 < t.bits := by
    revert t
    simp [IntType.u8, IntType.u16, IntType.u32, IntType.u64, IntType.usize, shiftsFrom]
  rcases exists_groups bytes with hmore | ⟨init, last, rest, h, rfl⟩
  · have hnone : ∀ v rest, bytes ≠ toLeb128Bytes v ++ rest := by
      rintro v rest rfl
      obtain ⟨init, last, heq, h, -⟩ := toLeb128Bytes_groups v
      exact hmore last (by simp [heq]) h.ends
    obtain ⟨hit, hslice⟩ := read_more (t := t) bytes hmore t.shifts 0 0
    refine iff_of_true ⟨fun v rest => ?_, fun v pos => ?_⟩ fun init last rest h heq => ?_
    · rw [readLeb128, hit]
      exact iff_of_false nofun fun hv => hnone v rest hv.2
    · rw [hslice]
      exact iff_of_false nofun fun ⟨_, ⟨rest, heq⟩, _⟩ => hnone v rest heq.symm
    · exact absurd h.ends (hmore last (by simp [heq]))
  · rw [faithful_of_groups hall.1 hall.2 h]
    refine ⟨fun hiff init' last' rest' h' heq => ?_, fun hall => hall init last rest h rfl⟩
    obtain ⟨rfl, rfl, -⟩ := h.unique h' heq
    exact hiff

theorem faithful_iff_max : (Faithful .u16 [0xff, 0xff, 3] ↔
    ∀ init last rest, Groups init last → [0xff, 0xff, 3] = init ++ last :: rest →
      (init.length < 3 ↔ Minimal .u16 init last)) ∧ Faithful .u16 [0xff, 0xff, 3] := by
  have hiff := faithful_iff (t := .u16) (by simp) [0xff, 0xff, 3]
  refine ⟨hiff, hiff.2 fun init last rest h heq => ?_⟩
  have hmore : ∀ byte ∈ ([0xff, 0xff] : List UInt8), byte &&& 0x80 ≠ 0 := by
    intro byte hbyte
    obtain rfl : byte = 0xff := by simpa using hbyte
    decide
  have hgroups : Groups [0xff, 0xff] 3 := ⟨hmore, by decide⟩
  obtain ⟨rfl, rfl, -⟩ := hgroups.unique h heq
  exact iff_of_true (by decide) ⟨.inr (by decide), by decide⟩

/-- The shifts of `u8` end before the second byte of 200. -/
theorem u8_not_faithful : ¬Faithful .u8 [200, 1] :=
  fun h => nomatch (h.it 200 []).2 ⟨by decide, by simp [toLeb128Bytes]⟩

end MailServer.Codec
