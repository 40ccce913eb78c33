import MailServer.Store.BatchBuilder

/-!
# Assertions on stored values

Integers as the store writes them, and `AssertValue::matches` (`store/src/write/assert.rs`), which
compares the end of a stored value with what a transaction expects there.

Principal results: `beNat_beU64` and its siblings, `matches_u64_beU64`.
-/

namespace MailServer.Store

open List

/-! ## Integers -/

/-- The number that bytes in big-endian order stand for. -/
def beNat (bytes : Bytes) : ℕ := bytes.foldl (fun n byte => n * 256 + byte.toNat) 0

theorem beNat_append (before bytes : Bytes) :
    beNat (before ++ bytes) = beNat before * 256 ^ bytes.length + beNat bytes := by
  have hfold : ∀ bytes n,
      bytes.foldl (fun n byte => n * 256 + byte.toNat) n =
        n * 256 ^ bytes.length + beNat bytes := by
    intro bytes
    induction bytes with
    | nil => simp [beNat]
    | cons b bytes ih =>
      intro n
      rw [beNat, foldl_cons, foldl_cons, ih, ih, length_cons]
      ring
  rw [beNat, foldl_append]
  exact hfold bytes _

theorem beNat_cons (byte : UInt8) (bytes : Bytes) :
    beNat (byte :: bytes) = byte.toNat * 256 ^ bytes.length + beNat bytes := by
  rw [← singleton_append, beNat_append]
  simp [beNat]

theorem beNat_lt (bytes : Bytes) : beNat bytes < 256 ^ bytes.length := by
  induction bytes with
  | nil => simp [beNat]
  | cons b bytes ih =>
    have hb : b.toNat + 1 ≤ 256 := b.toNat_lt
    have hle := Nat.mul_le_mul_right (256 ^ bytes.length) hb
    rw [beNat_cons, length_cons]
    rw [Nat.succ_mul] at hle
    omega

theorem lt_iff_beNat_lt {x y : Bytes} (hlength : x.length = y.length) :
    x < y ↔ beNat x < beNat y := by
  induction x generalizing y with
  | nil =>
    obtain rfl : y = [] := length_eq_zero_iff.1 hlength.symm
    simp
  | cons a x ih =>
    cases y with
    | nil => cases hlength
    | cons b y =>
      have htail : x.length = y.length := by simpa using hlength
      have hx := beNat_lt x
      have hy := beNat_lt y
      rw [cons_lt_cons_iff, ih htail, beNat_cons, beNat_cons, htail, UInt8.lt_iff_toNat_lt]
      rw [htail] at hx
      constructor
      · rintro (h | ⟨rfl, h⟩)
        · have := Nat.mul_le_mul_right (256 ^ y.length) (Nat.succ_le_of_lt h)
          rw [Nat.succ_mul] at this
          omega
        · omega
      · intro h
        rcases Nat.lt_trichotomy a.toNat b.toNat with hab | hab | hab
        · exact .inl hab
        · rw [hab] at h
          exact .inr ⟨UInt8.toNat_inj.1 hab, by omega⟩
        · have := Nat.mul_le_mul_right (256 ^ y.length) (Nat.succ_le_of_lt hab)
          rw [Nat.succ_mul] at this
          omega

theorem beNat_beU16 (n : UInt16) : beNat (beU16 n) = n.toNat := by
  have h := n.toNat_lt
  simp [beNat, beU16]
  omega

theorem beNat_beU32 (n : UInt32) : beNat (beU32 n) = n.toNat := by
  have h := n.toNat_lt
  simp [beNat, beU32]
  omega

/-- Four bytes are those of the number they stand for. -/
theorem beU32_beNat {bytes : Bytes} (h : bytes.length = 4) :
    beU32 (.ofNat (beNat bytes)) = bytes := by
  match bytes, h with
  | [a, b, c, d], _ =>
    have ha := a.toNat_lt
    have hb := b.toNat_lt
    have hc := c.toNat_lt
    have hd := d.toNat_lt
    simp only [beU32, beNat, cons.injEq, and_true]
    refine ⟨?_, ?_, ?_, ?_⟩ <;> apply UInt8.toNat_inj.1 <;>
      simp <;> omega

theorem beU64_split (n : UInt64) : beU64 n = beU32 (n >>> 32).toUInt32 ++ beU32 n.toUInt32 := by
  simp only [beU64, beU32, cons_append, nil_append, cons.injEq, and_true]
  refine ⟨?_, ?_, ?_, ?_, ?_, ?_, ?_, ?_⟩ <;> apply UInt8.toNat_inj.1 <;>
    simp <;> omega

theorem beNat_beU64 (n : UInt64) : beNat (beU64 n) = n.toNat := by
  have h := n.toNat_lt
  rw [beU64_split, beNat_append, beNat_beU32, beNat_beU32]
  simp [beU32]
  omega

theorem beU32_zero : beU32 0 = replicate 4 0 := by decide

theorem beU32_max : beU32 0xffffffff = replicate 4 255 := by decide

theorem beU64_zero : beU64 0 = replicate 8 0 := by decide

theorem beU16_injective : Function.Injective beU16 := fun m n h =>
  UInt16.toNat_inj.1 (by rw [← beNat_beU16, h, beNat_beU16])

theorem beU32_injective : Function.Injective beU32 := fun m n h =>
  UInt32.toNat_inj.1 (by rw [← beNat_beU32, h, beNat_beU32])

theorem beU64_injective : Function.Injective beU64 := fun m n h =>
  UInt64.toNat_inj.1 (by rw [← beNat_beU64, h, beNat_beU64])

@[simp] theorem length_beU16 (n : UInt16) : (beU16 n).length = U16_LEN := rfl
@[simp] theorem length_beU32 (n : UInt32) : (beU32 n).length = U32_LEN := rfl
@[simp] theorem length_beU64 (n : UInt64) : (beU64 n).length = U64_LEN := rfl

/-- `u64::deserialize`; anything but eight bytes is corrupted data. -/
def deserializeU64 (bytes : Bytes) : Option UInt64 :=
  if bytes.length = U64_LEN then some (UInt64.ofNat (beNat bytes)) else none

theorem deserializeU64_beU64 (n : UInt64) : deserializeU64 (beU64 n) = some n := by
  unfold deserializeU64
  rw [length_beU64, if_pos rfl, beNat_beU64, UInt64.ofNat_toNat]

/-! ## Assertions -/

/-- `bytes.get(bytes.len() - n - skipped..bytes.len() - skipped)`; below zero wraps around to a
place behind the end. -/
def getTrailing (bytes : Bytes) (n skipped : ℕ) : Option Bytes :=
  if n + skipped ≤ bytes.length then
    some ((bytes.drop (bytes.length - (n + skipped))).take n)
  else none

def AssertValue.matches (bytes : Bytes) : AssertValue → Bool
  | .u32 v => getTrailing bytes U32_LEN 0 == Option.some (beU32 v)
  | .u64 v => getTrailing bytes U64_LEN 0 == Option.some (beU64 v)
  | .archive (.versioned _ hash) =>
    getTrailing bytes U32_LEN (U64_LEN + 1) == Option.some (beU32 hash)
  | .archive (.hashed hash) => getTrailing bytes U32_LEN 1 == Option.some (beU32 hash)
  | .archive .unversioned => false
  | .none => false
  | .some => true

def AssertValue.isNone : AssertValue → Bool
  | .none => true
  | _ => false

/-- What a transaction finds out about an assertion on a key with this value. -/
def AssertValue.holds (assertValue : AssertValue) : Option Bytes → Bool
  | .some bytes => AssertValue.matches bytes assertValue
  | .none => assertValue.isNone

theorem getTrailing_append (before bytes after : Bytes) :
    getTrailing (before ++ bytes ++ after) bytes.length after.length = some bytes := by
  unfold getTrailing
  rw [if_pos (by simp only [length_append]; omega)]
  have hlength : (before ++ bytes ++ after).length - (bytes.length + after.length) =
      before.length := by
    simp only [length_append]
    omega
  rw [hlength, append_assoc, drop_left, take_left]

/-- **A stored integer** matches the assertion of itself and of no other. -/
theorem matches_u64_beU64 (v n : UInt64) :
    AssertValue.matches (beU64 n) (.u64 v) ↔ v = n := by
  have htrailing : getTrailing (beU64 n) U64_LEN 0 = some (beU64 n) := by
    have h := getTrailing_append [] (beU64 n) []
    rwa [nil_append, append_nil] at h
  unfold AssertValue.matches
  rw [htrailing, beq_iff_eq, Option.some_inj]
  exact ⟨fun h => (beU64_injective h).symm, fun h => by rw [h]⟩

end MailServer.Store
