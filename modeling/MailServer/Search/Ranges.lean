import MailServer.Lib.Fallible
import MailServer.Lib.PrefixRange
import MailServer.Search.Filter
import MailServer.Store.KeyCollisions

/-!
# Range filters

A comparison with an indexed attribute is a range of keys of the built-in index: `range_to_bitmap`
(`store/src/search/bm_u32.rs`) for the documents of an account, `range_to_treemap`
(`store/src/search/bm_u64.rs`) for the entries of a global index.  A key ends in the value, as
`TermIndexBuilder::build` (`store/src/search/term.rs`) encodes it, and the id, without a
separator.  The two functions differ in the width of the ids only and are one definition,
`rangeScan`.

Principal results: `rangeScan_spec`, `within_range_iff`, `ranges_exact_iff`;
`compares_data_iff` — values of one type are compared as their bytes, but for integers of
different signs.
-/

namespace MailServer.Search

open MailServer.Store PrefixRange List

variable {op : SearchOperator}

/-! ## Fields and values -/

def SearchField.u8Id : SearchField → UInt8
  | .accountId => 0
  | .documentId => 1
  | .id => 2
  | .email .from => 3
  | .email .to => 4
  | .email .cc => 5
  | .email .bcc => 6
  | .email .subject => 7
  | .email .body => 8
  | .email .attachment => 9
  | .email .receivedAt => 10
  | .email .sentAt => 11
  | .email .size => 12
  | .email .hasAttachment => 13
  | .email .headers => 14
  | .calendar .title => 3
  | .calendar .description => 4
  | .calendar .location => 5
  | .calendar .owner => 6
  | .calendar .attendee => 7
  | .calendar .start => 8
  | .calendar .uid => 9
  | .contact .member => 3
  | .contact .kind => 4
  | .contact .name => 5
  | .contact .nickname => 6
  | .contact .organization => 7
  | .contact .email => 8
  | .contact .phone => 9
  | .contact .onlineService => 10
  | .contact .address => 11
  | .contact .note => 12
  | .contact .uid => 13
  | .file .name => 3
  | .file .content => 4
  | .tracing .eventType => 3
  | .tracing .queueId => 4
  | .tracing .keywords => 5

def SearchField.isIndexed : SearchField → Bool
  | .email .from | .email .to | .email .subject | .email .receivedAt | .email .sentAt
  | .email .size | .email .hasAttachment => true
  | .calendar .start | .calendar .uid => true
  | .contact .uid | .contact .kind => true
  | .tracing .queueId | .tracing .eventType => true
  | _ => false

/-- The bytes of a `String`. -/
def textBytes (text : String) : Bytes := text.toUTF8.toList

/-- The data of a `SearchIndexField`, as `TermIndexBuilder::build` makes it; key values have
none. -/
def fieldData : SearchValue → Option Bytes
  | .text value => some ((textBytes value).take SEARCH_INDEX_MAX_FIELD_LEN)
  | .keyValues _ => none
  | .int value => some (beU64 value.toUInt64)
  | .uint value => some (beU64 value)
  | .boolean value => some [if value then 1 else 0]

/-- The operand of `Store::query_account`. -/
def accountOperandBytes : SearchValue → Except String Bytes
  | .text value => .ok ((textBytes value).take SEARCH_INDEX_MAX_FIELD_LEN)
  | .int value => .ok (beU64 value.toUInt64)
  | .uint value => .ok (beU64 value)
  | .boolean value => .ok [if value then 1 else 0]
  | .keyValues _ => .error "Expected non key-value for non-text field"

/-- The operand of `Store::query_global`; a text is not cut. -/
def globalOperandBytes : SearchValue → Except String Bytes
  | .text value => .ok (textBytes value)
  | .int value => .ok (beU64 value.toUInt64)
  | .uint value => .ok (beU64 value)
  | .boolean value => .ok [if value then 1 else 0]
  | .keyValues _ => .error "Expected non key-value for non-text field"

/-! ## The scan -/

/-- How ids end a key: big-endian, all of one width. -/
structure IdCodec (ι : Type) where
  width : ℕ
  bytes : ι → Bytes
  read : Bytes → ι
  zero : ι
  max : ι
  length_bytes : ∀ id, (bytes id).length = width
  read_bytes : ∀ id, read (bytes id) = id
  bytes_zero : bytes zero = replicate width 0
  bytes_max : bytes max = replicate width 255

/-- The ids of documents, in `bm_u32.rs`. -/
def documentIds : IdCodec UInt32 where
  width := U32_LEN
  bytes := beU32
  read bytes := UInt32.ofNat (beNat bytes)
  zero := 0
  max := 0xffffffff
  length_bytes := length_beU32
  read_bytes id := by rw [beNat_beU32, UInt32.ofNat_toNat]
  bytes_zero := beU32_zero
  bytes_max := beU32_max

/-- The ids of a global index, in `bm_u64.rs`. -/
def globalIds : IdCodec UInt64 where
  width := U64_LEN
  bytes := beU64
  read bytes := UInt64.ofNat (beNat bytes)
  zero := 0
  max := 0xffffffffffffffff
  length_bytes := length_beU64
  read_bytes id := by rw [beNat_beU64, UInt64.ofNat_toNat]
  bytes_zero := beU64_zero
  bytes_max := by decide

def SearchOperator.compares {α : Type} [LT α] [LE α] (op : SearchOperator) (value operand : α) :
    Prop :=
  match op with
  | .lowerThan => value < operand
  | .lowerEqualThan => value ≤ operand
  | .greaterThan => operand < value
  | .greaterEqualThan => operand ≤ value
  | .equal | .contains => value = operand

instance : (op : SearchOperator) → (value operand : Bytes) → Decidable (op.compares value operand)
  | .lowerThan, value, operand => inferInstanceAs (Decidable (value < operand))
  | .lowerEqualThan, value, operand => inferInstanceAs (Decidable (value ≤ operand))
  | .greaterThan, value, operand => inferInstanceAs (Decidable (operand < value))
  | .greaterEqualThan, value, operand => inferInstanceAs (Decidable (operand ≤ value))
  | .equal, value, operand => inferInstanceAs (Decidable (value = operand))
  | .contains, value, operand => inferInstanceAs (Decidable (value = operand))

variable {ι : Type}

def rangeBounds (codec : IdCodec ι) (op : SearchOperator) (matchValue : Bytes) (fieldId : UInt8) :
    (Bytes × ι × UInt8) × (Bytes × ι × UInt8) :=
  match op with
  | .lowerThan => (([], codec.zero, fieldId), (matchValue, codec.zero, fieldId))
  | .lowerEqualThan => (([], codec.zero, fieldId), (matchValue, codec.max, fieldId))
  | .greaterThan => ((matchValue, codec.max, fieldId), ([], codec.max, fieldId + 1))
  | .greaterEqualThan => ((matchValue, codec.zero, fieldId), ([], codec.max, fieldId + 1))
  | .equal | .contains => ((matchValue, codec.zero, fieldId), (matchValue, codec.max, fieldId))

/-- A key of the index behind `base`, which names the index and the account. -/
def rangeKey (codec : IdCodec ι) (base : Bytes) (entry : Bytes × ι × UInt8) : Bytes :=
  base ++ [entry.2.2] ++ entry.1 ++ codec.bytes entry.2.1

variable (keys : List Bytes)

/-- `Store::iterate`: the keys from `first` to `last`, both included, in ascending order. -/
def iterate (first last : Bytes) : List Bytes :=
  keys.filter fun key => ¬ key < first ∧ ¬ last < key

/-- The callback on one key after the other: the scan ends at the first key of another field. -/
def rangeLoop [DecidableEq ι] (codec : IdCodec ι) (lead : Bytes) (op : SearchOperator)
    (matchValue : Bytes) :
    List Bytes → Finset ι → Except String (Finset ι)
  | [], bm => .ok bm
  | key :: keys, bm =>
    if !lead.isPrefixOf key then .ok bm
    else
      let idPos := key.length - codec.width
      if lead.length ≤ idPos then
        let value := (key.take idPos).drop lead.length
        let bm := if op.compares value matchValue then
            insert (codec.read (key.drop idPos)) bm
          else bm
        rangeLoop codec lead op matchValue keys bm
      else .error "corrupted key"

/-- `range_to_bitmap` and `range_to_treemap`. -/
def rangeScan [DecidableEq ι] (codec : IdCodec ι) (keys : List Bytes) (base : Bytes)
    (fieldId : UInt8) (matchValue : Bytes) (op : SearchOperator) :
    Except String (Option (Finset ι)) := do
  let bounds := rangeBounds codec op matchValue fieldId
  let found := iterate keys (rangeKey codec base bounds.1) (rangeKey codec base bounds.2)
  let bm ← rangeLoop codec (base ++ [fieldId]) op matchValue found ∅
  return if bm = ∅ then none else some bm

/-- The bytes in front of the field in the keys of an account; `index` is the first byte of the
index. -/
def accountBase (index : UInt8) (accountId : UInt32) : Bytes :=
  [index ||| (1 : UInt8) <<< 6] ++ beU32 accountId

/-- The byte in front of the field in the keys of a global index. -/
def globalBase (index : UInt8) : Bytes := [index ||| (1 : UInt8) <<< 6]

def rangeToBitmap (index : SearchIndex) (accountId : UInt32) (fieldId : UInt8) (matchValue : Bytes)
    (op : SearchOperator) : Except String (Option RoaringBitmap) :=
  match index.asU8 with
  | none => .error "unreachable"
  | some u8 => rangeScan documentIds keys (accountBase u8 accountId) fieldId matchValue op

def rangeToTreemap (index : SearchIndex) (fieldId : UInt8) (matchValue : Bytes)
    (op : SearchOperator) : Except String (Option RoaringTreemap) :=
  match index.asU8 with
  | none => .error "unreachable"
  | some u8 => rangeScan globalIds keys (globalBase u8) fieldId matchValue op

/-- The branch of `Store::query_account` for an indexed field; a text field gets here with the order
operators only. -/
def evalIndexedField (index : SearchIndex) (accountId : UInt32) (field : SearchField)
    (op : SearchOperator) (value : SearchValue) :
    Except String (Option RoaringBitmap) :=
  if field.isIndexed then do
    let value ← accountOperandBytes value
    rangeToBitmap keys index accountId field.u8Id value op
  else .error "Field is not indexed"

/-- The branch of `Store::query_global` for an indexed field, which the id is as well. -/
def evalGlobalField (index : SearchIndex) (field : SearchField) (op : SearchOperator)
    (value : SearchValue) : Except String (Option RoaringTreemap) :=
  if field.isIndexed || field = .id then do
    let value ← globalOperandBytes value
    rangeToTreemap keys index field.u8Id value op
  else .error "Field is not indexed"

/-! ## What the scan finds -/

theorem rangeLoop_spec [DecidableEq ι] (codec : IdCodec ι) {lead : Bytes} {matchValue : Bytes} :
    ∀ (keys : List Bytes) bm,
      (∀ key ∈ keys, lead <+: key → ∃ value id, key = lead ++ value ++ codec.bytes id) →
      (keys.Pairwise fun key later => lead <+: later → lead <+: key) →
      ∃ bm', rangeLoop codec lead op matchValue keys bm = .ok bm' ∧
        ∀ id, id ∈ bm' ↔ id ∈ bm ∨
          ∃ value, lead ++ value ++ codec.bytes id ∈ keys ∧ op.compares value matchValue
  | [], bm, _, _ => ⟨bm, rfl, by simp⟩
  | key :: keys, bm, hkeys, hpairs => by
    obtain ⟨hhead, htail⟩ := pairwise_cons.1 hpairs
    by_cases hlead : lead <+: key
    · obtain ⟨value, id, rfl⟩ := hkeys key (.head _) hlead
      have hpos : (lead ++ value ++ codec.bytes id).length - codec.width =
          (lead ++ value).length := by
        rw [length_append, codec.length_bytes]
        omega
      obtain ⟨bm', hrun, hmem⟩ := rangeLoop_spec codec keys
        (if op.compares value matchValue then insert id bm else bm)
        (fun k hk => hkeys k (.tail _ hk)) htail
      refine ⟨bm', ?_, fun other => ?_⟩
      · rw [rangeLoop, if_neg (by simp), hpos, if_pos (by simp)]
        simp only [take_left, drop_left, codec.read_bytes]
        exact hrun
      · have hsame (other : ι) (value' : Bytes) :
            lead ++ value' ++ codec.bytes other = lead ++ value ++ codec.bytes id ↔
              value' = value ∧ other = id := by
          constructor
          · intro h
            obtain ⟨hfront, hid⟩ := append_inj' h
              (by rw [codec.length_bytes, codec.length_bytes])
            exact ⟨append_cancel_left hfront, by
              rw [← codec.read_bytes other, hid, codec.read_bytes]⟩
          · rintro ⟨rfl, rfl⟩
            rfl
        rw [hmem]
        simp only [mem_cons, hsame]
        by_cases hcompares : op.compares value matchValue
        · rw [if_pos hcompares, Finset.mem_insert]
          constructor
          · rintro ((rfl | hbm) | ⟨value', hmem', hcompares'⟩)
            · exact .inr ⟨value, .inl ⟨rfl, rfl⟩, hcompares⟩
            · exact .inl hbm
            · exact .inr ⟨value', .inr hmem', hcompares'⟩
          · rintro (hbm | ⟨value', ⟨-, rfl⟩ | hmem', hcompares'⟩)
            · exact .inl (.inr hbm)
            · exact .inl (.inl rfl)
            · exact .inr ⟨value', hmem', hcompares'⟩
        · rw [if_neg hcompares]
          constructor
          · rintro (hbm | ⟨value', hmem', hcompares'⟩)
            · exact .inl hbm
            · exact .inr ⟨value', .inr hmem', hcompares'⟩
          · rintro (hbm | ⟨value', ⟨rfl, -⟩ | hmem', hcompares'⟩)
            · exact .inl hbm
            · cases hcompares hcompares'
            · exact .inr ⟨value', hmem', hcompares'⟩
    · -- the first key of another field: no key of the field follows
      refine ⟨bm, ?_, fun id => ⟨.inl, ?_⟩⟩
      · rw [rangeLoop, if_pos (by simp [mt isPrefixOf_iff_prefix.1 hlead])]
      · rintro (hbm | ⟨value, hmem, -⟩)
        · exact hbm
        · have hvalue : lead <+: lead ++ value ++ codec.bytes id := by
            rw [append_assoc]
            exact prefix_append _ _
          rcases mem_cons.1 hmem with rfl | hlater
          · cases hlead hvalue
          · cases hlead (hhead _ hlater hvalue)

/-! ### The bounds of the range -/

/-- The bound cuts the key off: the operand continues the stored value below the bytes of the id, or
the value continues the operand below the greatest id. -/
def CutOff (codec : IdCodec ι) (op : SearchOperator) (operand value : Bytes) (id : ι) : Prop :=
  match op with
  | .lowerThan =>
    ∃ w, w ≠ [] ∧ operand = value ++ w ∧ w ++ codec.bytes codec.zero < codec.bytes id
  | .lowerEqualThan =>
    ∃ w, w ≠ [] ∧ operand = value ++ w ∧ w ++ codec.bytes codec.max < codec.bytes id
  | .greaterThan =>
    ∃ w, w ≠ [] ∧ value = operand ++ w ∧ w ++ codec.bytes id < codec.bytes codec.max
  | _ => False

theorem rangeKey_eq (codec : IdCodec ι) (base value : Bytes) (id : ι) (fieldId : UInt8) :
    rangeKey codec base (value, id, fieldId) =
      base ++ [fieldId] ++ (value ++ codec.bytes id) := by
  simp [rangeKey]

theorem not_lt_zero (codec : IdCodec ι) {bytes : Bytes} (h : codec.width ≤ bytes.length) :
    ¬ bytes < codec.bytes codec.zero := by
  rw [codec.bytes_zero]
  exact not_lt_replicate (fun a => by simp) h

theorem not_max_lt (codec : IdCodec ι) (id : ι) : ¬ codec.bytes codec.max < codec.bytes id := by
  rw [codec.bytes_max]
  refine not_replicate_lt (fun a => ?_) (by rw [codec.length_bytes])
  rw [UInt8.lt_iff_toNat_lt]
  have := a.toNat_lt
  simp
  omega

theorem lt_append_left (xs : Bytes) {s t : Bytes} : xs ++ s < xs ++ t ↔ s < t :=
  append_lt_append_left (fun a => UInt8.lt_irrefl a) xs

/-- A continuation of the larger list is below one of the smaller only where one list continues the
other. -/
theorem append_lt_append_iff_of_lt {xs ys s t : Bytes} (h : xs < ys) :
    ys ++ s < xs ++ t ↔ ∃ w, w ≠ [] ∧ ys = xs ++ w ∧ w ++ s < t := by
  constructor
  · intro hlt
    rcases lt_cases h with ⟨w, hw, rfl⟩ | hall
    · rw [append_assoc, lt_append_left] at hlt
      exact ⟨w, hw, rfl, hlt⟩
    · cases List.lt_asymm (hall t s) hlt
  · rintro ⟨w, -, rfl, hlt⟩
    rw [append_assoc, lt_append_left]
    exact hlt

theorem eq_of_not_lt_byte {a b : UInt8} (h₁ : ¬ a < b) (h₂ : ¬ b < a) : a = b := by
  rw [UInt8.lt_iff_toNat_lt] at h₁ h₂
  exact UInt8.toNat_inj.1 (by omega)

theorem not_next_field_lt {base s t : Bytes} {fieldId : UInt8} (h : fieldId ≠ 255) :
    ¬ base ++ [fieldId + 1] ++ s < base ++ [fieldId] ++ t := by
  rw [append_assoc, append_assoc, lt_append_left, singleton_append,
    singleton_append, cons_lt_cons_iff]
  have hlt := fieldId.toNat_lt
  have hne : fieldId.toNat ≠ 255 := fun h' => h (UInt8.toNat_inj.1 h')
  have hnext : (fieldId + 1).toNat = fieldId.toNat + 1 := by
    rw [UInt8.toNat_add, UInt8.toNat_one, Nat.mod_eq_of_lt (by omega)]
  rintro (hless | ⟨heq, -⟩)
  · rw [UInt8.lt_iff_toNat_lt] at hless
    omega
  · have := congrArg UInt8.toNat heq
    omega

/-- **The range keeps the values that compare**, but for those that a bound cuts off. -/
theorem within_range_iff (codec : IdCodec ι) {operand value base : Bytes}
    {fieldId : UInt8} (hfield : fieldId ≠ 255) (hcompares : op.compares value operand) (id : ι) :
    Within (rangeKey codec base (rangeBounds codec op operand fieldId).1)
        (rangeKey codec base (rangeBounds codec op operand fieldId).2)
        (rangeKey codec base (value, id, fieldId)) ↔
      ¬ CutOff codec op operand value id := by
  have hlength (bytes : Bytes) : codec.width ≤ (bytes ++ codec.bytes id).length := by
    rw [length_append, codec.length_bytes]
    omega
  cases op with
  | lowerThan =>
    simp only [rangeBounds, rangeKey_eq, Within, lt_append_left, nil_append,
      not_lt_zero codec (hlength value), not_false_eq_true, true_and, not_iff_not]
    exact append_lt_append_iff_of_lt hcompares
  | lowerEqualThan =>
    simp only [rangeBounds, rangeKey_eq, Within, lt_append_left, CutOff, nil_append,
      not_lt_zero codec (hlength value), not_false_eq_true, true_and, not_iff_not]
    by_cases hlt : value < operand
    · exact append_lt_append_iff_of_lt hlt
    · obtain rfl : value = operand := List.le_antisymm hcompares hlt
      rw [lt_append_left]
      refine iff_of_false (not_max_lt codec id) ?_
      rintro ⟨w, hw, heq, -⟩
      exact hw (append_right_eq_self.1 heq.symm)
  | greaterThan =>
    simp only [rangeBounds, rangeKey_eq, Within, lt_append_left, CutOff,
      not_next_field_lt hfield, not_false_eq_true, and_true, not_iff_not]
    exact append_lt_append_iff_of_lt hcompares
  | greaterEqualThan =>
    simp only [rangeBounds, rangeKey_eq, Within, lt_append_left, CutOff,
      not_next_field_lt hfield, not_false_eq_true, and_true, iff_true]
    by_cases hlt : operand < value
    · rw [append_lt_append_iff_of_lt hlt]
      rintro ⟨w, -, -, hw⟩
      exact not_lt_zero codec (hlength w) hw
    · obtain rfl : operand = value := List.le_antisymm hcompares hlt
      rw [lt_append_left]
      exact not_lt_zero codec (hlength [])
  | equal | contains =>
    obtain rfl : value = operand := hcompares
    have hzero : ¬ codec.bytes id < codec.bytes codec.zero := not_lt_zero codec (hlength [])
    simp only [rangeBounds, rangeKey_eq, Within, lt_append_left, CutOff, not_max_lt, hzero,
      and_self]

theorem rangeBounds_first (codec : IdCodec ι) (op : SearchOperator) (operand : Bytes)
    (fieldId : UInt8) : (rangeBounds codec op operand fieldId).1.2.2 = fieldId := by
  cases op <;> rfl

/-- **What a range filter finds**: the ids whose value compares, but for those that a bound of the
range cuts off. -/
theorem rangeScan_spec [DecidableEq ι] (codec : IdCodec ι) {keys : List Bytes}
    (hsorted : keys.Pairwise (· < ·)) {base : Bytes} {fieldId : UInt8} (hfield : fieldId ≠ 255)
    (op : SearchOperator) (operand : Bytes)
    (hkeys : ∀ key ∈ keys, base ++ [fieldId] <+: key →
      ∃ value id, key = rangeKey codec base (value, id, fieldId)) :
    ∃ bm, rangeScan codec keys base fieldId operand op = .ok bm ∧
      ∀ id, id ∈ bm.getD ∅ ↔ ∃ value, rangeKey codec base (value, id, fieldId) ∈ keys ∧
        op.compares value operand ∧ ¬ CutOff codec op operand value id := by
  obtain ⟨⟨⟨fromValue, fromId, fromField⟩, last⟩, hbounds⟩ :
      ∃ bounds, rangeBounds codec op operand fieldId = bounds := ⟨_, rfl⟩
  have hfrom : fromField = fieldId := by
    simpa [hbounds] using rangeBounds_first codec op operand fieldId
  subst hfrom
  have hmem (key : Bytes) : key ∈ iterate keys (rangeKey codec base (fromValue, fromId, fromField))
      (rangeKey codec base last) ↔ key ∈ keys ∧
        Within (rangeKey codec base (fromValue, fromId, fromField)) (rangeKey codec base last)
          key := by
    simp [iterate, Within]
  -- the keys of the field come first
  have hpairs : (iterate keys (rangeKey codec base (fromValue, fromId, fromField))
      (rangeKey codec base last)).Pairwise fun key later =>
        base ++ [fromField] <+: later → base ++ [fromField] <+: key := by
    refine (List.Pairwise.filter _ hsorted).imp_of_mem ?_
    rintro key later hkey - hlt ⟨t, rfl⟩
    have hwithin := ((hmem key).1 hkey).2
    rw [rangeKey_eq] at hwithin
    exact prefix_of_within (fun a b => eq_of_not_lt_byte) ⟨hwithin.1, List.lt_asymm hlt⟩
  have hfound : ∀ key ∈ iterate keys (rangeKey codec base (fromValue, fromId, fromField))
      (rangeKey codec base last), base ++ [fromField] <+: key →
        ∃ value id, key = base ++ [fromField] ++ value ++ codec.bytes id :=
    fun key hkey hlead => hkeys key ((hmem key).1 hkey).1 hlead
  have hloop : ∃ bm, rangeLoop codec (base ++ [fromField]) op operand
      (iterate keys (rangeKey codec base (fromValue, fromId, fromField)) (rangeKey codec base last))
      ∅ = .ok bm ∧ _ := rangeLoop_spec codec _ ∅ hfound hpairs
  obtain ⟨bm, hrun, hbm⟩ := hloop
  refine ⟨if bm = ∅ then none else some bm, ?_, fun id => ?_⟩
  · unfold rangeScan
    rw [hbounds]
    exact Lib.bind_eq_ok_iff.2 ⟨bm, hrun, rfl⟩
  · have hget : (if bm = ∅ then none else some bm).getD ∅ = bm := by
      split_ifs with hempty
      · exact hempty.symm
      · rfl
    rw [hget, hbm]
    simp only [Finset.notMem_empty, false_or]
    refine exists_congr fun value => ?_
    have hkey : base ++ [fromField] ++ value ++ codec.bytes id =
        rangeKey codec base (value, id, fromField) := rfl
    rw [hmem, and_assoc]
    refine and_congr_right fun _ => ?_
    rw [and_comm]
    refine and_congr_right fun hcompares => ?_
    have hwithin : Within (rangeKey codec base (rangeBounds codec op operand fromField).1)
        (rangeKey codec base (rangeBounds codec op operand fromField).2)
        (rangeKey codec base (value, id, fromField)) ↔ ¬ CutOff codec op operand value id :=
      within_range_iff codec hfield hcompares id
    rwa [hbounds] at hwithin

/-! ## Values and their bytes -/

/-- The value has a type that is indexed, and a text is not longer than the index keeps. -/
def SearchValue.Fits : SearchValue → Prop
  | .text value => (textBytes value).length ≤ SEARCH_INDEX_MAX_FIELD_LEN
  | .keyValues _ => False
  | _ => True

def SearchValue.SameType : SearchValue → SearchValue → Prop
  | .text _, .text _ => True
  | .int _, .int _ => True
  | .uint _, .uint _ => True
  | .boolean _, .boolean _ => True
  | _, _ => False

/-- The comparison of the operator in the natural order of the values. -/
def SearchOperator.Satisfies (op : SearchOperator) : SearchValue → SearchValue → Prop
  | .text value, .text operand => op.compares (textBytes value) (textBytes operand)
  | .int value, .int operand => op.compares value operand
  | .uint value, .uint operand => op.compares value operand
  | .boolean value, .boolean operand => op.compares value operand
  | _, _ => False

def SearchOperator.isEquality : SearchOperator → Bool
  | .equal | .contains => true
  | _ => false

def SearchValue.SameSign : SearchValue → SearchValue → Prop
  | .int value, .int operand => value < 0 ↔ operand < 0
  | _, _ => True

/-- The bytes of a value in a key. -/
def SearchValue.data (value : SearchValue) : Bytes := (fieldData value).getD []

theorem compares_iff_of_order {α β : Type} [LT α] [LE α] [LT β] [LE β] {a b : α} {x y : β}
    (op : SearchOperator) (hlt : x < y ↔ a < b) (hgt : y < x ↔ b < a) (hle : x ≤ y ↔ a ≤ b)
    (hge : y ≤ x ↔ b ≤ a) (heq : x = y ↔ a = b) : op.compares x y ↔ op.compares a b := by
  cases op
  · exact hlt
  · exact hle
  · exact hgt
  · exact hge
  · exact heq
  · exact heq

theorem beU64_lt {m n : UInt64} : beU64 m < beU64 n ↔ m.toNat < n.toNat := by
  rw [lt_iff_beNat_lt (by simp), beNat_beU64, beNat_beU64]

theorem beU64_le {m n : UInt64} : beU64 m ≤ beU64 n ↔ m.toNat ≤ n.toNat := by
  have h : beU64 m ≤ beU64 n ↔ ¬ beU64 n < beU64 m := Iff.rfl
  rw [h, beU64_lt, Nat.not_lt]

theorem toInt_eq (a : Int64) :
    a.toInt = if a.toUInt64.toNat < 2 ^ 63 then (a.toUInt64.toNat : ℤ)
      else (a.toUInt64.toNat : ℤ) - 2 ^ 64 := by
  have h := BitVec.toInt_eq_toNat_cond a.toBitVec
  have hnat : a.toBitVec.toNat = a.toUInt64.toNat := rfl
  rw [Int64.toInt]
  split_ifs <;> first | rfl | omega

/-- **Values of one type are compared as their bytes**, but for integers of different signs. -/
theorem compares_data_iff (op : SearchOperator) {value operand : SearchValue}
    (hsame : value.SameType operand) (hvalue : value.Fits) (hoperand : operand.Fits) :
    (op.compares value.data operand.data ↔ op.Satisfies value operand) ↔
      op.isEquality ∨ value.SameSign operand := by
  cases value with
  | keyValues _ => exact hvalue.elim
  | text value =>
    cases operand with
    | text operand =>
      have hv : (SearchValue.text value).data = textBytes value := take_of_length_le hvalue
      have ho : (SearchValue.text operand).data = textBytes operand :=
        take_of_length_le hoperand
      rw [hv, ho]
      exact iff_of_true Iff.rfl (.inr trivial)
    | _ => exact hsame.elim
  | uint value =>
    cases operand with
    | uint operand =>
      refine iff_of_true (compares_iff_of_order op ?_ ?_ ?_ ?_ beU64_inj) (.inr trivial)
      · exact beU64_lt
      · exact beU64_lt
      · exact beU64_le
      · exact beU64_le
    | _ => exact hsame.elim
  | boolean value =>
    cases operand with
    | boolean operand =>
      refine iff_of_true (compares_iff_of_order op ?_ ?_ ?_ ?_ ?_) (.inr trivial) <;>
        cases value <;> cases operand <;> decide
    | _ => exact hsame.elim
  | int value =>
    cases operand with
    | int operand =>
      have hv := toInt_eq value
      have ho := toInt_eq operand
      have heq : beU64 value.toUInt64 = beU64 operand.toUInt64 ↔ value = operand := by
        rw [beU64_inj]
        exact ⟨fun h => Int64.toInt_inj.1 (by rw [hv, ho, h]), fun h => h ▸ rfl⟩
      have hzero : (0 : Int64).toInt = 0 := rfl
      have hdata (v : Int64) : (SearchValue.int v).data = beU64 v.toUInt64 := rfl
      have hlt := value.toUInt64.toNat_lt
      have hlt' := operand.toUInt64.toNat_lt
      rw [hdata, hdata]
      cases op <;>
        simp only [SearchOperator.compares, SearchOperator.Satisfies, SearchOperator.isEquality,
          SearchValue.SameSign, beU64_lt, beU64_le, heq, Int64.lt_iff_toInt_lt,
          Int64.le_iff_toInt_le, Bool.false_eq_true, false_or, true_or]
      all_goals
        split_ifs at hv ho <;> omega
    | _ => exact hsame.elim

/-! ## The index -/

/-- The indexes whose documents have an id of their own and no account (`primary_keys`). -/
def isGlobalIndex : SearchIndex → Bool
  | .tracing => true
  | _ => false

def isGlobalId : SearchIndexId → Bool
  | .account .. => false
  | .global _ => true

/-- The subspace of the search index: its entries, of all indexes and kinds, and their keys in
order. -/
structure SearchIndexStore where
  entries : List SearchIndexClass
  keys : List Bytes
  sorted : keys.Pairwise (· < ·)
  mem_keys : ∀ key, key ∈ keys ↔ ∃ entry ∈ entries, entry.key = some key
  /-- The documents of an index have the ids its primary keys ask for. -/
  ids : ∀ entry ∈ entries, isGlobalId entry.id = isGlobalIndex entry.index

/-- What the field is in the index: the values of the documents that have one. -/
def SearchIndexStore.Holds (store : SearchIndexStore) (index : SearchIndex)
    (idOf : ι → SearchIndexId) (fieldId : UInt8) (docs : ι → Option SearchValue) : Prop :=
  ∀ id data, ⟨index, idOf id, .index ⟨fieldId, data⟩⟩ ∈ store.entries ↔
    ∃ value, docs id = some value ∧ fieldData value = some data

/-- A range filter is exact: it returns the documents whose value satisfies the comparison. -/
def ExactRange [DecidableEq ι] (docs : ι → Option SearchValue) (op : SearchOperator)
    (operand : SearchValue) (answer : Except String (Option (Finset ι))) : Prop :=
  ∃ bm, answer = .ok bm ∧
    ∀ id, id ∈ bm.getD ∅ ↔ ∃ value, docs id = some value ∧ op.Satisfies value operand

/-- The document is found exactly if its value satisfies the comparison: an integer has the sign of
the operand, unless for equality, and no bound of the range cuts the document off. -/
def FoundExactly (codec : IdCodec ι) (op : SearchOperator) (operand value : SearchValue) (id : ι) :
    Prop :=
  (op.isEquality ∨ value.SameSign operand) ∧
    ¬ CutOff codec op operand.data value.data id

theorem fieldData_eq {value : SearchValue} (h : value.Fits) :
    fieldData value = some value.data := by
  cases value with
  | keyValues _ => exact h.elim
  | _ => rfl

theorem fits_of_data {value : SearchValue} (h : value.Fits) :
    accountOperandBytes value = .ok value.data ∧ globalOperandBytes value = .ok value.data := by
  cases value with
  | keyValues _ => exact h.elim
  | text value =>
    have hdata : (SearchValue.text value).data = textBytes value := take_of_length_le h
    exact ⟨rfl, by rw [hdata]; rfl⟩
  | _ => exact ⟨rfl, rfl⟩

theorem u8Id_ne (field : SearchField) : field.u8Id ≠ 255 := by
  rcases field with _ | _ | _ | f | f | f | f | f
  · decide
  · decide
  · decide
  all_goals cases f <;> decide

theorem lt_append {xs w : Bytes} (hw : w ≠ []) : xs < xs ++ w := by
  obtain ⟨a, w, rfl⟩ := exists_cons_of_ne_nil hw
  have h := (lt_append_left xs).2 (nil_lt_cons a w)
  rwa [append_nil] at h

theorem CutOff.compares {codec : IdCodec ι} {operand value : Bytes} {id : ι}
    (h : CutOff codec op operand value id) : op.compares value operand := by
  cases op with
  | lowerThan =>
    obtain ⟨w, hw, rfl, -⟩ := h
    exact lt_append hw
  | lowerEqualThan =>
    obtain ⟨w, hw, rfl, -⟩ := h
    exact List.lt_asymm (lt_append hw)
  | greaterThan =>
    obtain ⟨w, hw, rfl, -⟩ := h
    exact lt_append hw
  | greaterEqualThan | equal | contains => exact h.elim

theorem not_cutOff_of_length {codec : IdCodec ι} {operand value : Bytes}
    {id : ι} (hlength : value.length = operand.length) : ¬ CutOff codec op operand value id := by
  have hnil {xs w : Bytes} (h : (xs ++ w).length = xs.length) : w = [] := by
    rw [length_append] at h
    exact length_eq_zero_iff.1 (by omega)
  intro h
  cases op with
  | lowerThan | lowerEqualThan =>
    obtain ⟨w, hw, rfl, -⟩ := h
    exact hw (hnil hlength.symm)
  | greaterThan =>
    obtain ⟨w, hw, rfl, -⟩ := h
    exact hw (hnil hlength)
  | greaterEqualThan | equal | contains => exact h

theorem found_iff (codec : IdCodec ι) (op : SearchOperator) {value operand : SearchValue}
    (hsame : value.SameType operand) (hvalue : value.Fits) (hoperand : operand.Fits) (id : ι) :
    (op.compares value.data operand.data ∧ ¬ CutOff codec op operand.data value.data id ↔
      op.Satisfies value operand) ↔ FoundExactly codec op operand value id := by
  have hdata := compares_data_iff op hsame hvalue hoperand
  by_cases hsign : op.isEquality ∨ value.SameSign operand
  · rw [← hdata.2 hsign]
    constructor
    · exact fun h => ⟨hsign, fun hcut => (h.2 hcut.compares).2 hcut⟩
    · exact fun h => ⟨And.left, fun hcompares => ⟨hcompares, h.2⟩⟩
  · -- integers of different signs are compared the wrong way round
    refine iff_of_false (fun h => ?_) fun h => hsign h.1
    have hcut : ¬ CutOff codec op operand.data value.data id := by
      refine not_cutOff_of_length ?_
      cases value <;> cases operand <;> first | rfl | exact (hsign (.inr trivial)).elim
    exact hsign (hdata.1 ⟨fun hcompares => h.1 ⟨hcompares, hcut⟩, fun hsat => (h.2 hsat).1⟩)

/-! ## The two indexes -/

section

variable {store : SearchIndexStore} {index : SearchIndex} {u8 : UInt8} (hu : index.asU8 = some u8)
  {fieldId : UInt8} {key : Bytes}
include hu

/-- A key of the index that starts with the byte of its fields is that of a field. -/
theorem SearchIndexStore.mem_field (rest : Bytes) (hkey : key ∈ store.keys)
    (hlead : (u8 ||| SearchIndexType.bits (.index ⟨0, []⟩)) :: rest <+: key) :
    ∃ id field tail, ⟨index, id, .index field⟩ ∈ store.entries ∧
      key = (u8 ||| SearchIndexType.bits (.index field)) ::
        id.around (SearchIndexType.contents (.index field)) ∧
      rest ++ tail = id.around (SearchIndexType.contents (.index field)) := by
  obtain ⟨⟨index', id, typ⟩, hentry, hserialize⟩ := (store.mem_keys key).1 hkey
  rw [searchIndex_key] at hserialize
  obtain ⟨v8, hv, rfl⟩ := Option.map_eq_some_iff.1 hserialize
  obtain ⟨t, ht⟩ := hlead
  rw [cons_append, cons.injEq] at ht
  obtain ⟨hfirst, hrest⟩ := ht
  obtain ⟨rfl, hbits⟩ := SearchIndex.bits_inj hu hv hfirst
  obtain rfl := SearchIndex.asU8_injective hu hv
  cases typ with
  | term | document => exact absurd hbits (by simp only [SearchIndexType.bits]; decide)
  | index field => exact ⟨id, field, t, hentry, rfl, hrest⟩

theorem SearchIndexStore.mem_account (hindex : isGlobalIndex index = false) {accountId : UInt32}
    (hkey : key ∈ store.keys) (hlead : accountBase u8 accountId ++ [fieldId] <+: key) :
    ∃ data documentId, ⟨index, .account accountId documentId, .index ⟨fieldId, data⟩⟩ ∈
      store.entries ∧
        key = rangeKey documentIds (accountBase u8 accountId) (data, documentId, fieldId) := by
  obtain ⟨id, ⟨field', data⟩, t, hentry, rfl, hrest⟩ := SearchIndexStore.mem_field hu
    (beU32 accountId ++ [fieldId]) hkey hlead
  have hids := store.ids _ hentry
  cases id with
  | global id => rw [hindex] at hids; cases hids
  | account accountId' documentId =>
    simp only [SearchIndexId.around, SearchIndexType.contents, beU32_append_inj, append_assoc,
      cons_append] at hrest
    obtain ⟨rfl, rfl, -⟩ := hrest
    refine ⟨data, documentId, hentry, ?_⟩
    simp [rangeKey, accountBase, SearchIndexId.around, SearchIndexType.contents,
      SearchIndexType.bits, documentIds]

theorem SearchIndexStore.mem_global (hindex : isGlobalIndex index) (hkey : key ∈ store.keys)
    (hlead : globalBase u8 ++ [fieldId] <+: key) :
    ∃ data id, ⟨index, .global id, .index ⟨fieldId, data⟩⟩ ∈ store.entries ∧
      key = rangeKey globalIds (globalBase u8) (data, id, fieldId) := by
  obtain ⟨id, ⟨field', data⟩, t, hentry, rfl, hrest⟩ :=
    SearchIndexStore.mem_field hu [fieldId] hkey hlead
  have hids := store.ids _ hentry
  cases id with
  | account accountId documentId => rw [hindex] at hids; cases hids
  | global id =>
    obtain ⟨rfl, -⟩ := hrest
    refine ⟨data, id, hentry, ?_⟩
    simp [rangeKey, globalBase, SearchIndexId.around, SearchIndexType.contents,
      SearchIndexType.bits, globalIds]

end

theorem rangeKey_injective (codec : IdCodec ι) {base value value' : Bytes} {id id' : ι}
    {fieldId : UInt8} (h : rangeKey codec base (value, id, fieldId) =
      rangeKey codec base (value', id', fieldId)) : value = value' ∧ id = id' := by
  rw [rangeKey_eq, rangeKey_eq] at h
  obtain ⟨hvalue, hid⟩ := append_inj' (append_cancel_left h)
    (by rw [codec.length_bytes, codec.length_bytes])
  exact ⟨hvalue, by rw [← codec.read_bytes id, hid, codec.read_bytes]⟩

/-- A range filter on a field the index holds, for both kinds of ids. -/
theorem rangeScan_exact_iff [DecidableEq ι] (codec : IdCodec ι) {store : SearchIndexStore}
    {index : SearchIndex} {idOf : ι → SearchIndexId} {base : Bytes} {field : SearchField}
    {docs : ι → Option SearchValue} {operand : SearchValue} (hoperand : operand.Fits)
    (hkeys : ∀ key ∈ store.keys, base ++ [field.u8Id] <+: key → ∃ data id,
      ⟨index, idOf id, .index ⟨field.u8Id, data⟩⟩ ∈ store.entries ∧
        key = rangeKey codec base (data, id, field.u8Id))
    (hserialize : ∀ data id, (SearchIndexClass.mk index (idOf id) (.index ⟨field.u8Id, data⟩)).key =
      some (rangeKey codec base (data, id, field.u8Id)))
    (hholds : store.Holds index idOf field.u8Id docs)
    (hdocs : ∀ id value, docs id = some value → value.Fits ∧ value.SameType operand) :
    ExactRange docs op operand (rangeScan codec store.keys base field.u8Id operand.data op) ↔
      ∀ id value, docs id = some value → FoundExactly codec op operand value id := by
  obtain ⟨bm, hrun, hbm⟩ := rangeScan_spec codec store.sorted (u8Id_ne field) op operand.data
    (fun key hkey hlead => by
      obtain ⟨data, id, -, rfl⟩ := hkeys key hkey hlead
      exact ⟨data, id, rfl⟩)
  -- the keys of the field are the values of the documents
  have hmem (id : ι) (data : Bytes) : rangeKey codec base (data, id, field.u8Id) ∈ store.keys ↔
      ∃ value, docs id = some value ∧ value.data = data := by
    constructor
    · intro hkey
      obtain ⟨data', id', hentry, heq⟩ := hkeys _ hkey (by
        rw [rangeKey_eq]
        exact prefix_append _ _)
      obtain ⟨rfl, rfl⟩ := rangeKey_injective codec heq
      obtain ⟨value, hvalue, hdata⟩ := (hholds id data).1 hentry
      rw [fieldData_eq (hdocs id value hvalue).1] at hdata
      exact ⟨value, hvalue, Option.some.inj hdata⟩
    · rintro ⟨value, hvalue, rfl⟩
      exact (store.mem_keys _).2 ⟨_, (hholds id value.data).2
        ⟨value, hvalue, fieldData_eq (hdocs id value hvalue).1⟩, hserialize _ _⟩
  have hfound (id : ι) {value : SearchValue} (hvalue : docs id = some value) :
      (id ∈ bm.getD ∅ ↔ ∃ value, docs id = some value ∧ op.Satisfies value operand) ↔
        FoundExactly codec op operand value id := by
    rw [← found_iff codec op (hdocs id value hvalue).2 (hdocs id value hvalue).1 hoperand, hbm]
    simp [hmem, hvalue]
  constructor
  · rintro ⟨bm', hrun', hexact⟩ id value hvalue
    cases hrun.symm.trans hrun'
    exact (hfound id hvalue).1 (hexact id)
  · intro hall
    refine ⟨bm, hrun, fun id => ?_⟩
    cases hvalue : docs id with
    | none => simp [hbm, hmem, hvalue]
    | some value => simpa [hvalue] using (hfound id hvalue).2 (hall id value hvalue)

/-- **Which range filters are exact**: a comparison returns the documents that satisfy it exactly
when no integer has the other sign than the operand and no bound of the range cuts a document off.
-/
theorem ranges_exact_iff (store : SearchIndexStore) (index : SearchIndex) (field : SearchField)
    (op : SearchOperator) (operand : SearchValue) (hoperand : operand.Fits) :
    (∀ (accountId : UInt32) (docs : UInt32 → Option SearchValue), index ≠ .inMemory →
      isGlobalIndex index = false → field.isIndexed →
      store.Holds index (.account accountId) field.u8Id docs →
      (∀ id value, docs id = some value → value.Fits ∧ value.SameType operand) →
      (ExactRange docs op operand
          (evalIndexedField store.keys index accountId field op operand) ↔
        ∀ id value, docs id = some value → FoundExactly documentIds op operand value id)) ∧
    (∀ docs : UInt64 → Option SearchValue, isGlobalIndex index →
      field.isIndexed ∨ field = .id →
      store.Holds index .global field.u8Id docs →
      (∀ id value, docs id = some value → value.Fits ∧ value.SameType operand) →
      (ExactRange docs op operand (evalGlobalField store.keys index field op operand) ↔
        ∀ id value, docs id = some value → FoundExactly globalIds op operand value id)) := by
  obtain ⟨haccount, hglobal⟩ := fits_of_data hoperand
  constructor
  · intro accountId docs hmemory hindex hfield hholds hdocs
    obtain ⟨u8, hu⟩ := SearchIndex.exists_asU8 hmemory
    have hscan : evalIndexedField store.keys index accountId field op operand =
        rangeScan documentIds store.keys (accountBase u8 accountId) field.u8Id operand.data op := by
      simp only [evalIndexedField, hfield, haccount, rangeToBitmap, hu]
      rfl
    rw [hscan]
    refine rangeScan_exact_iff documentIds hoperand
      (fun key hkey hlead => store.mem_account hu hindex hkey hlead) (fun data id => ?_) hholds
      hdocs
    simp [searchIndex_key, hu, rangeKey, accountBase, SearchIndexId.around,
      SearchIndexType.contents, SearchIndexType.bits, documentIds]
  · intro docs hindex hfield hholds hdocs
    have hmemory : index ≠ .inMemory := by
      rintro rfl
      cases hindex
    obtain ⟨u8, hu⟩ := SearchIndex.exists_asU8 hmemory
    have hscan : evalGlobalField store.keys index field op operand =
        rangeScan globalIds store.keys (globalBase u8) field.u8Id operand.data op := by
      have hbranch : (field.isIndexed || decide (field = .id)) := by simpa using hfield
      simp only [evalGlobalField, hbranch, hglobal, rangeToTreemap, hu]
      rfl
    rw [hscan]
    refine rangeScan_exact_iff globalIds hoperand
      (fun key hkey hlead => store.mem_global hu hindex hkey hlead) (fun data id => ?_) hholds hdocs
    simp [searchIndex_key, hu, rangeKey, globalBase, SearchIndexId.around,
      SearchIndexType.contents, SearchIndexType.bits, globalIds]

/-! ### A small index -/

/-- The subjects `ab` and `abc` of the messages 0 and 1, and message 2, which was sent one second
before 1970. -/
def smallIndex : SearchIndexStore where
  entries := [⟨.email, .account 1 0, .index ⟨7, [97, 98]⟩⟩,
    ⟨.email, .account 1 1, .index ⟨7, [97, 98, 99]⟩⟩,
    ⟨.email, .account 1 2, .index ⟨11, [255, 255, 255, 255, 255, 255, 255, 255]⟩⟩]
  keys := [[64, 0, 0, 0, 1, 7, 97, 98, 0, 0, 0, 0], [64, 0, 0, 0, 1, 7, 97, 98, 99, 0, 0, 0, 1],
    [64, 0, 0, 0, 1, 11, 255, 255, 255, 255, 255, 255, 255, 255, 0, 0, 0, 2]]
  sorted := by decide
  mem_keys key := by
    have h₁ : (SearchIndexClass.mk .email (.account 1 0) (.index ⟨7, [97, 98]⟩)).key =
        some [64, 0, 0, 0, 1, 7, 97, 98, 0, 0, 0, 0] := by decide
    have h₂ : (SearchIndexClass.mk .email (.account 1 1) (.index ⟨7, [97, 98, 99]⟩)).key =
        some [64, 0, 0, 0, 1, 7, 97, 98, 99, 0, 0, 0, 1] := by decide
    have h₃ : (SearchIndexClass.mk .email (.account 1 2)
        (.index ⟨11, [255, 255, 255, 255, 255, 255, 255, 255]⟩)).key =
        some [64, 0, 0, 0, 1, 11, 255, 255, 255, 255, 255, 255, 255, 255, 0, 0, 0, 2] := by decide
    simp [h₁, h₂, h₃, eq_comm]
  ids := by decide

/-- The subjects of the small index. -/
def subjects (id : UInt32) : Option SearchValue :=
  if id = 0 then some (.text "ab") else if id = 1 then some (.text "abc") else none

/-- When the messages of the small index were sent. -/
def sentAt (id : UInt32) : Option SearchValue := if id = 2 then some (.int (-1)) else none

theorem textBytes_ab : textBytes "ab" = [97, 98] := by decide +kernel

theorem textBytes_abc : textBytes "abc" = [97, 98, 99] := by decide +kernel

theorem smallIndex_subjects : smallIndex.Holds .email (.account 1) 7 subjects := by
  intro id data
  by_cases h₀ : id = 0
  · simp [smallIndex, subjects, h₀, fieldData, textBytes_ab, SEARCH_INDEX_MAX_FIELD_LEN, eq_comm]
  · by_cases h₁ : id = 1
    · simp [smallIndex, subjects, h₁, fieldData, textBytes_abc, SEARCH_INDEX_MAX_FIELD_LEN, eq_comm]
    · simp [smallIndex, subjects, h₀, h₁]

theorem smallIndex_sentAt : smallIndex.Holds .email (.account 1) 11 sentAt := by
  intro id data
  have hdata : fieldData (.int (-1)) = some [255, 255, 255, 255, 255, 255, 255, 255] := by decide
  by_cases h₂ : id = 2
  · simp [smallIndex, sentAt, hdata, eq_comm]
  · simp [smallIndex, sentAt, h₂]

/-- The subjects up to `abc`. -/
theorem ranges_exact_iff_subjects :
    ExactRange subjects .lowerEqualThan (.text "abc")
      (evalIndexedField smallIndex.keys .email 1 (.email .subject) .lowerEqualThan
        (.text "abc")) := by
  have hfits : (SearchValue.text "abc").Fits := by
    show (textBytes "abc").length ≤ SEARCH_INDEX_MAX_FIELD_LEN
    rw [textBytes_abc]
    decide
  have hfits' : (SearchValue.text "ab").Fits := by
    show (textBytes "ab").length ≤ SEARCH_INDEX_MAX_FIELD_LEN
    rw [textBytes_ab]
    decide
  have hdata : (SearchValue.text "abc").data = [97, 98, 99] := by
    simp [SearchValue.data, fieldData, textBytes_abc, SEARCH_INDEX_MAX_FIELD_LEN]
  have hdata' : (SearchValue.text "ab").data = [97, 98] := by
    simp [SearchValue.data, fieldData, textBytes_ab, SEARCH_INDEX_MAX_FIELD_LEN]
  refine ((ranges_exact_iff smallIndex .email (.email .subject) .lowerEqualThan (.text "abc")
    hfits).1 1 subjects (by decide) rfl rfl smallIndex_subjects ?_).2 ?_
  · intro id value hvalue
    unfold subjects at hvalue
    split_ifs at hvalue
    · cases hvalue
      exact ⟨hfits', trivial⟩
    · cases hvalue
      exact ⟨hfits, trivial⟩
  · intro id value hvalue
    unfold subjects at hvalue
    split_ifs at hvalue with h₀ h₁
    · cases hvalue
      refine ⟨.inr trivial, ?_⟩
      rw [hdata, hdata', h₀]
      rintro ⟨w, -, heq, hlt⟩
      obtain rfl : w = [99] := by simpa using heq.symm
      exact absurd hlt (by decide)
    · cases hvalue
      exact ⟨.inr trivial, not_cutOff_of_length rfl⟩

/-- A message sent before 1970 is not found there, and the subject `abc` is not among those behind
`ab`. -/
theorem smallIndex_inexact :
    smallIndex.Holds .email (.account 1) (SearchField.email .sentAt).u8Id sentAt ∧
    ¬ ExactRange sentAt .lowerThan (.int 0)
      (evalIndexedField smallIndex.keys .email 1 (.email .sentAt) .lowerThan (.int 0)) ∧
    smallIndex.Holds .email (.account 1) (SearchField.email .subject).u8Id subjects ∧
    ¬ ExactRange subjects .greaterThan (.text "ab")
      (evalIndexedField smallIndex.keys .email 1 (.email .subject) .greaterThan (.text "ab")) := by
  refine ⟨smallIndex_sentAt, ?_, smallIndex_subjects, ?_⟩
  · have hnone : evalIndexedField smallIndex.keys .email 1 (.email .sentAt) .lowerThan (.int 0) =
        .ok none := by decide +kernel
    rintro ⟨bm, hbm, hexact⟩
    cases hnone.symm.trans hbm
    have hsat : SearchOperator.lowerThan.Satisfies (.int (-1)) (.int 0) := by
      show (-1 : Int64) < 0
      decide
    simpa using (hexact 2).2 ⟨.int (-1), rfl, hsat⟩
  · have hnone : evalIndexedField smallIndex.keys .email 1 (.email .subject) .greaterThan
        (.text "ab") = .ok none := by decide +kernel
    rintro ⟨bm, hbm, hexact⟩
    cases hnone.symm.trans hbm
    have hsat : SearchOperator.greaterThan.Satisfies (.text "abc") (.text "ab") := by
      show textBytes "ab" < textBytes "abc"
      rw [textBytes_ab, textBytes_abc]
      decide
    simpa using (hexact 1).2 ⟨.text "abc", rfl, hsat⟩

end MailServer.Search
