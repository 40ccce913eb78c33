import MailServer.Lib.PathHeads
import Mathlib.Data.BitVec

/-!
# IP masks

`IpAddrMask` (`utils/src/config/ipmask.rs`): a network written as an address with the length of a
prefix, or as an address alone, and the test whether an address is in it.  How an address and a
number are read is a parameter.

Principal result: `matches_iff`.
-/

namespace MailServer.Config

abbrev Ipv4Addr := BitVec 32

abbrev Ipv6Addr := BitVec 128

inductive IpAddr where
  | v4 (ip : Ipv4Addr)
  | v6 (ip : Ipv6Addr)
deriving DecidableEq

def Ipv4Addr.toIpv6Mapped (ip : Ipv4Addr) : Ipv6Addr := 0xffff#96 ++ ip

/-- `::ffff:a.b.c.d`. -/
def Ipv6Addr.toIpv4Mapped (ip : Ipv6Addr) : Option Ipv4Addr :=
  if ip.extractLsb' 32 96 = 0xffff then some (ip.extractLsb' 0 32) else none

/-- Also `::a.b.c.d`. -/
def Ipv6Addr.toIpv4 (ip : Ipv6Addr) : Option Ipv4Addr :=
  if ip.extractLsb' 32 96 = 0 ∨ ip.extractLsb' 32 96 = 0xffff then some (ip.extractLsb' 0 32)
  else none

inductive IpAddrMask where
  | v4 (addr mask : BitVec 32)
  | v6 (addr mask : BitVec 128)
deriving DecidableEq

def IpAddrMask.matches : IpAddrMask → IpAddr → Bool
  | .v4 addr mask, remote =>
    if mask = .allOnes 32 then
      match remote with
      | .v4 remote => addr = remote
      | .v6 remote =>
        match Ipv6Addr.toIpv4Mapped remote with
        | some remote => addr = remote
        | none => false
    else if mask = 0 then
      match remote with
      | .v4 _ => true
      | .v6 _ => false
    else
      match remote with
      | .v4 ip => ip &&& mask = addr &&& mask
      | .v6 ip =>
        match Ipv6Addr.toIpv4 ip with
        | some ip => ip &&& mask = addr &&& mask
        | none => false
  | .v6 addr mask, remote =>
    if mask = .allOnes 128 then
      match remote with
      | .v6 remote => remote = addr
      | .v4 remote => Ipv4Addr.toIpv6Mapped remote = addr
    else if mask = 0 then
      match remote with
      | .v6 _ => true
      | .v4 _ => false
    else
      match remote with
      | .v6 ip => ip &&& mask = addr &&& mask
      | .v4 ip => Ipv4Addr.toIpv6Mapped ip &&& mask = addr &&& mask

section
variable (parseIp : List Char → Option IpAddr) (parseU32 : List Char → Option ℕ)
  (value : List Char)

/-- `parseIp` and `parseU32` are `trim` and then `parse`. -/
def IpAddrMask.parseValue : Except String IpAddrMask :=
  let invalid := .error s!"Invalid IP address {repr (String.ofList value)}"
  match PathHeads.rsplitOnce '/' value with
  | some (addr, mask) =>
    match parseIp addr, parseU32 mask with
    | some (.v4 addr), some mask =>
      if 8 ≤ mask ∧ mask ≤ 32 then .ok (.v4 addr (BitVec.allOnes 32 <<< (32 - mask))) else invalid
    | some (.v6 addr), some mask =>
      if 8 ≤ mask ∧ mask ≤ 128 then .ok (.v6 addr (BitVec.allOnes 128 <<< (128 - mask))) else
        invalid
    | _, _ => invalid
  | none =>
    match parseIp value with
    | some (.v4 addr) => .ok (.v4 addr (.allOnes 32))
    | some (.v6 addr) => .ok (.v6 addr (.allOnes 128))
    | none => invalid

/-- The address and the length that the text gives, a bare address being all prefix. -/
def IpAddrMask.network : Option (IpAddr × ℕ) :=
  match PathHeads.rsplitOnce '/' value with
  | some (addr, mask) => (parseIp addr).bind fun addr => (parseU32 mask).map (addr, ·)
  | none => (parseIp value).map fun
    | .v4 addr => (.v4 addr, 32)
    | .v6 addr => (.v6 addr, 128)

end

/-- Equal in the first `n` bits. -/
def SharesPrefix {w : ℕ} (n : ℕ) (a b : BitVec w) : Prop :=
  ∀ i < n, a.getMsbD i = b.getMsbD i

/-- An IPv4 address is its mapped IPv6 address. -/
def IpAddr.toIpv6 : IpAddr → Ipv6Addr
  | .v4 ip => Ipv4Addr.toIpv6Mapped ip
  | .v6 ip => ip

def InNetwork : IpAddr × ℕ → IpAddr → Prop
  | (.v4 addr, len), remote => SharesPrefix (96 + len) remote.toIpv6 (Ipv4Addr.toIpv6Mapped addr)
  | (.v6 addr, len), remote => SharesPrefix len remote.toIpv6 addr

/-- `::a.b.c.d`, with `a.b.c.d` in the network. -/
def CompatibleInside : IpAddr × ℕ → IpAddr → Prop
  | (.v4 addr, len), .v6 ip =>
    len < 32 ∧ ip.extractLsb' 32 96 = 0 ∧ SharesPrefix len (ip.extractLsb' 0 32) addr
  | _, _ => False

section
variable {w n : ℕ} {a b : BitVec w}

theorem masked_eq_iff (hn : n ≤ w) :
    a &&& (BitVec.allOnes w <<< (w - n)) = b &&& (BitVec.allOnes w <<< (w - n)) ↔
      SharesPrefix n a b := by
  constructor
  · intro h i hi
    have hbit := congrArg (·.getMsbD i) h
    have hw : i < w := by omega
    have hge : ¬ w - 1 - i < w - n := by omega
    have hlt : w - 1 - i < w := by omega
    have hsub : w - 1 - i - (w - n) < w := by omega
    simpa [BitVec.getMsbD_eq_getLsbD, hlt, hge] using hbit
  · intro h
    ext i hi
    by_cases hlow : i < w - n
    · simp [hlow]
    · have hbit := h (w - 1 - i) (by omega)
      have hw : w - 1 - i < w := by omega
      have hback : w - 1 - (w - 1 - i) = i := by omega
      simp only [BitVec.getMsbD_eq_getLsbD, hw, hback] at hbit
      simp only [decide_true, Bool.true_and] at hbit
      simp [← BitVec.getLsbD_eq_getElem hi, hbit]

theorem sharesPrefix_full : SharesPrefix w a b ↔ a = b := by
  rw [← masked_eq_iff le_rfl]
  simp

theorem shifted_eq_allOnes (hn : n ≤ w) (hpos : 0 < n) :
    BitVec.allOnes w <<< (w - n) = .allOnes w ↔ n = w := by
  refine ⟨fun h => ?_, fun h => by simp [h]⟩
  have hbit := congrArg (·.getLsbD 0) h
  have hw : 0 < w := by omega
  simp at hbit
  omega

theorem shifted_ne_zero (hn : n ≤ w) (hpos : 0 < n) : BitVec.allOnes w <<< (w - n) ≠ 0 := by
  intro h
  have hbit := congrArg (·.getLsbD (w - 1)) h
  have hw : w - 1 < w := by omega
  have hlt : ¬ w - 1 < w - n := by omega
  simp [hw, hlt] at hbit

theorem sharesPrefix_append {k : ℕ} {x y : BitVec k} :
    SharesPrefix (k + n) (x ++ a) (y ++ b) ↔ x = y ∧ SharesPrefix n a b := by
  simp only [SharesPrefix, BitVec.getMsbD_append]
  constructor
  · intro h
    refine ⟨sharesPrefix_full.1 fun i hi => ?_, fun i hi => ?_⟩
    · simpa [show ¬ k ≤ i by omega] using h i (by omega)
    · simpa using h (k + i) (by omega)
  · rintro ⟨rfl, hlow⟩ i hi
    split
    · exact hlow _ (by omega)
    · rfl

end

theorem sharesPrefix_mapped {ip : Ipv6Addr} {addr : Ipv4Addr} {n : ℕ} :
    SharesPrefix (96 + n) ip (Ipv4Addr.toIpv6Mapped addr) ↔
      ip.extractLsb' 32 96 = 0xffff ∧ SharesPrefix n (ip.extractLsb' 0 32) addr := by
  have hip : ip.extractLsb' 32 96 ++ ip.extractLsb' 0 32 = ip :=
    BitVec.extractLsb'_append_extractLsb'
  conv_lhs => rw [← hip]
  exact sharesPrefix_append

section
variable {len : ℕ} (hlo : 8 ≤ len)
include hlo

theorem matches_v4_v4 {addr ip : Ipv4Addr} (hhi : len ≤ 32) :
    (IpAddrMask.v4 addr (BitVec.allOnes 32 <<< (32 - len))).matches (.v4 ip) ↔
      SharesPrefix len ip addr := by
  have hpos : 0 < len := by omega
  rw [IpAddrMask.matches, if_neg (shifted_ne_zero hhi hpos)]
  split
  case isTrue hfull =>
    obtain rfl := (shifted_eq_allOnes hhi hpos).1 hfull
    simp [sharesPrefix_full, eq_comm]
  case isFalse => simpa using masked_eq_iff hhi

/-- Short prefixes are compared through `toIpv4`, whole addresses through `toIpv4Mapped`. -/
theorem matches_v4_v6 {addr : Ipv4Addr} {ip : Ipv6Addr} (hhi : len ≤ 32) :
    (IpAddrMask.v4 addr (BitVec.allOnes 32 <<< (32 - len))).matches (.v6 ip) ↔
      (ip.extractLsb' 32 96 = 0xffff ∨ len < 32 ∧ ip.extractLsb' 32 96 = 0) ∧
        SharesPrefix len (ip.extractLsb' 0 32) addr := by
  have hpos : 0 < len := by omega
  rw [IpAddrMask.matches, if_neg (shifted_ne_zero hhi hpos)]
  split
  case isTrue hfull =>
    obtain rfl := (shifted_eq_allOnes hhi hpos).1 hfull
    rw [Ipv6Addr.toIpv4Mapped, sharesPrefix_full]
    by_cases hmapped : ip.extractLsb' 32 96 = 0xffff
    · rw [if_pos hmapped]
      simp only [decide_eq_true_eq, hmapped, true_or, true_and]
      exact eq_comm
    · simp only [hmapped, if_false, lt_irrefl, false_and, or_false, Bool.false_eq_true]
  case isFalse hfull =>
    have hlt : len < 32 := lt_of_le_of_ne hhi (mt (shifted_eq_allOnes hhi hpos).2 hfull)
    by_cases hv4 : ip.extractLsb' 32 96 = 0 ∨ ip.extractLsb' 32 96 = 0xffff
    · rw [Ipv6Addr.toIpv4, if_pos hv4]
      simp only [decide_eq_true_eq, masked_eq_iff hhi, hlt, true_and, hv4.symm]
    · rw [Ipv6Addr.toIpv4, if_neg hv4]
      simp only [hlt, true_and, or_comm, hv4, false_and, Bool.false_eq_true]

theorem matches_v6 {addr : Ipv6Addr} {remote : IpAddr} (hhi : len ≤ 128) :
    (IpAddrMask.v6 addr (BitVec.allOnes 128 <<< (128 - len))).matches remote ↔
      SharesPrefix len remote.toIpv6 addr := by
  have hpos : 0 < len := by omega
  rw [IpAddrMask.matches.eq_def]
  simp only [if_neg (shifted_ne_zero hhi hpos)]
  split
  case isTrue hfull =>
    obtain rfl := (shifted_eq_allOnes hhi hpos).1 hfull
    cases remote <;> simp only [decide_eq_true_eq, IpAddr.toIpv6, sharesPrefix_full]
  case isFalse =>
    cases remote <;> simp only [decide_eq_true_eq, IpAddr.toIpv6, masked_eq_iff hhi]

end

section
variable {parseIp : List Char → Option IpAddr} {parseU32 : List Char → Option ℕ}
  {value : List Char} {m : IpAddrMask}

theorem parseValue_cases (h : IpAddrMask.parseValue parseIp parseU32 value = .ok m) :
    ∃ len, 8 ≤ len ∧
      ((∃ addr, IpAddrMask.network parseIp parseU32 value = some (.v4 addr, len) ∧ len ≤ 32 ∧
        m = .v4 addr (BitVec.allOnes 32 <<< (32 - len))) ∨
      ∃ addr, IpAddrMask.network parseIp parseU32 value = some (.v6 addr, len) ∧ len ≤ 128 ∧
        m = .v6 addr (BitVec.allOnes 128 <<< (128 - len))) := by
  unfold IpAddrMask.parseValue at h
  unfold IpAddrMask.network
  split at h
  case h_1 addr mask _ =>
    split at h
    case h_1 ip len hip hlen =>
      split at h
      case isTrue hmask =>
        cases h
        exact ⟨len, hmask.1, .inl ⟨ip, by simp [hip, hlen], hmask.2, rfl⟩⟩
      case isFalse => cases h
    case h_2 ip len hip hlen =>
      split at h
      case isTrue hmask =>
        cases h
        exact ⟨len, hmask.1, .inr ⟨ip, by simp [hip, hlen], hmask.2, rfl⟩⟩
      case isFalse => cases h
    case h_3 => cases h
  case h_2 =>
    split at h
    case h_1 ip hip =>
      cases h
      exact ⟨32, by decide, .inl ⟨ip, by simp [hip], le_rfl, by simp⟩⟩
    case h_2 ip hip =>
      cases h
      exact ⟨128, by decide, .inr ⟨ip, by simp [hip], le_rfl, by simp⟩⟩
    case h_3 => cases h

/-- A mask tells the addresses of its network, but for the IPv4-compatible ones `::a.b.c.d`, which
a proper IPv4 network takes for its own. -/
theorem matches_iff (h : IpAddrMask.parseValue parseIp parseU32 value = .ok m) :
    ∃ net, IpAddrMask.network parseIp parseU32 value = some net ∧ ∀ remote,
      (m.matches remote ↔ InNetwork net remote) ↔ ¬ CompatibleInside net remote := by
  obtain ⟨len, hlo, ⟨addr, hnet, hhi, rfl⟩ | ⟨addr, hnet, hhi, rfl⟩⟩ := parseValue_cases h
  · refine ⟨_, hnet, fun remote => ?_⟩
    cases remote with
    | v4 ip =>
      have hprefix : SharesPrefix (96 + len) (Ipv4Addr.toIpv6Mapped ip)
          (Ipv4Addr.toIpv6Mapped addr) ↔ SharesPrefix len ip addr := by
        simp only [Ipv4Addr.toIpv6Mapped, sharesPrefix_append, true_and]
      simp only [matches_v4_v4 hlo hhi, InNetwork, IpAddr.toIpv6, hprefix, CompatibleInside,
        not_false_eq_true]
    | v6 ip =>
      have hapart : ip.extractLsb' 32 96 = 0 → ip.extractLsb' 32 96 ≠ 0xffff := by
        intro hzero
        simp [hzero]
      simp only [matches_v4_v6 hlo hhi, InNetwork, sharesPrefix_mapped,
        CompatibleInside]
      tauto
  · refine ⟨_, hnet, fun remote => ?_⟩
    simp only [matches_v6 hlo hhi, InNetwork, CompatibleInside, not_false_eq_true]

end

/-- Reads `0.0.0.0`. -/
def zeroIp (t : List Char) : Option IpAddr :=
  if t = "0.0.0.0".toList then some (.v4 0) else none

def eight (t : List Char) : Option ℕ := if t = ['8'] then some 8 else none

theorem zeroNet_matches_iff :
    IpAddrMask.parseValue zeroIp eight "0.0.0.0/8".toList = .ok (.v4 0 0xff000000) ∧
      ∃ net, IpAddrMask.network zeroIp eight "0.0.0.0/8".toList = some net ∧ (∀ remote,
        ((IpAddrMask.v4 0 0xff000000).matches remote ↔ InNetwork net remote) ↔
          ¬ CompatibleInside net remote) ∧
        CompatibleInside net (.v6 1) ∧ ¬ CompatibleInside net (.v4 1) := by
  have hparse : IpAddrMask.parseValue zeroIp eight "0.0.0.0/8".toList =
      .ok (.v4 0 0xff000000) := by decide
  obtain ⟨net, hnet, hiff⟩ := matches_iff hparse
  obtain rfl : (IpAddr.v4 0, 8) = net := by
    have hzero : IpAddrMask.network zeroIp eight "0.0.0.0/8".toList = some (.v4 0, 8) := by decide
    exact Option.some_inj.1 (hzero.symm.trans hnet)
  exact ⟨hparse, _, hnet, hiff, ⟨by decide, by decide, by unfold SharesPrefix; decide⟩, id⟩

/-- `::1` is in `0.0.0.0/8`. -/
theorem loopback_in_zeroNet :
    ¬ ∀ (parseIp : List Char → Option IpAddr) (parseU32 : List Char → Option ℕ) value m net,
      IpAddrMask.parseValue parseIp parseU32 value = .ok m →
      IpAddrMask.network parseIp parseU32 value = some net →
        ∀ remote, m.matches remote ↔ InNetwork net remote := by
  intro h
  have hin := (h zeroIp eight "0.0.0.0/8".toList (.v4 0 0xff000000) (.v4 0, 8)
    (by decide) (by decide) (.v6 1)).1 (by decide)
  simp only [InNetwork, sharesPrefix_mapped] at hin
  cases hin.1

end MailServer.Config
