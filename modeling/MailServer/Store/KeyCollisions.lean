import MailServer.Store.Keys

/-!
# Keys that share their bytes

The keys of each subspace, pair by pair.

Principal results: `Confusable.not_separated`, `eqOrConfusable`; `keys_iff` — both, for any two keys
with contents, and what a raw key collides with.
-/

namespace MailServer.Store

open MailServer.Codec

variable {s t bytes : Bytes} {m n : UInt32}

/-! ## Fields -/

theorem append_inj_iff {xs ys s t : Bytes} (hlength : xs.length = ys.length) :
    xs ++ s = ys ++ t ↔ xs = ys ∧ s = t :=
  ⟨fun h => List.append_inj h hlength, fun h => by rw [h.1, h.2]⟩

theorem append_inj_iff' {xs ys s t : Bytes} (hlength : s.length = t.length) :
    xs ++ s = ys ++ t ↔ xs = ys ∧ s = t :=
  ⟨fun h => List.append_inj' h hlength, fun h => by rw [h.1, h.2]⟩

@[simp] theorem beU16_inj {m n : UInt16} : beU16 m = beU16 n ↔ m = n := beU16_injective.eq_iff

@[simp] theorem beU32_inj : beU32 m = beU32 n ↔ m = n := beU32_injective.eq_iff

@[simp] theorem beU64_inj {m n : UInt64} : beU64 m = beU64 n ↔ m = n := beU64_injective.eq_iff

@[simp] theorem beU32_append_inj :
    beU32 m ++ s = beU32 n ++ t ↔ m = n ∧ s = t := by
  rw [append_inj_iff (by simp), beU32_inj]

@[simp] theorem beU64_append_inj {m n : UInt64} :
    beU64 m ++ s = beU64 n ++ t ↔ m = n ∧ s = t := by
  rw [append_inj_iff (by simp), beU64_inj]

@[simp] theorem append_beU32_inj :
    s ++ beU32 m = t ++ beU32 n ↔ s = t ∧ m = n := by
  rw [append_inj_iff' (by simp), beU32_inj]

@[simp] theorem append_beU64_inj {m n : UInt64} :
    s ++ beU64 m = t ++ beU64 n ↔ s = t ∧ m = n := by
  rw [append_inj_iff' (by simp), beU64_inj]

@[simp] theorem beU16_append_inj {m n : UInt16} :
    beU16 m ++ s = beU16 n ++ t ↔ m = n ∧ s = t := by
  rw [append_inj_iff (by simp), beU16_inj]

@[simp] theorem toList_append_inj {n : ℕ} {v w : Vector UInt8 n} :
    v.toList ++ s = w.toList ++ t ↔ v = w ∧ s = t := by
  rw [append_inj_iff (by simp), Vector.toList_inj]

@[simp] theorem toLeb128Bytes_append_inj {m n : UInt64} :
    toLeb128Bytes m.toNat ++ s = toLeb128Bytes n.toNat ++ t ↔ m = n ∧ s = t := by
  constructor
  · intro h
    have hread : some (m.toNat, s) = some (n.toNat, t) := by
      rw [← readLeb128_u64 m.toNat_lt s, h, readLeb128_u64 n.toNat_lt t]
    simpa [UInt64.toNat_inj] using hread
  · rintro ⟨rfl, rfl⟩
    rfl

@[simp] theorem toLeb128Bytes_inj {m n : UInt64} :
    toLeb128Bytes m.toNat = toLeb128Bytes n.toNat ↔ m = n := by
  simpa using toLeb128Bytes_append_inj (s := []) (t := []) (m := m) (n := n)

@[simp] theorem toLeb128Bytes_inj' : toLeb128Bytes m.toNat = toLeb128Bytes n.toNat ↔ m = n := by
  rw [← UInt32.toNat_toUInt64, ← UInt32.toNat_toUInt64, toLeb128Bytes_inj]
  exact UInt32.toUInt64_inj

theorem ReportEvent.key_inj {e f : ReportEvent} : e.key = f.key ↔ e = f := by
  cases e
  cases f
  simp only [key, append_beU64_inj, beU64_append_inj, mk.injEq]
  tauto

theorem QueueEvent.ext_iff {e f : QueueEvent} :
    e = f ↔ e.due = f.due ∧ e.queueId = f.queueId ∧ e.queueName = f.queueName := by
  cases e
  cases f
  rw [mk.injEq]

theorem IndexKey.serialize_inj {k l : IndexKey} : k.serialize = l.serialize ↔ k = l := by
  cases k
  cases l
  simp only [serialize, List.append_assoc, List.cons_append, List.nil_append, beU32_append_inj,
    List.cons.injEq, append_beU32_inj, mk.injEq]
  tauto

theorem SearchIndex.asU8_injective {i j : SearchIndex} {u : UInt8} (hi : i.asU8 = some u)
    (hj : j.asU8 = some u) : i = j := by
  cases i <;> cases hi <;> cases j <;> first | rfl | cases hj

theorem replicate_255 : List.replicate 8 255 = beU64 0xffffffffffffffff := by decide

/-! ## One subspace at a time -/

section Spaces

variable {k₁ k₂ : Key} {space : Space}

/-- Outside four subspaces, fields and lengths tell the keys apart. -/
theorem logical_eq_of_serialize (h₁ : Located space k₁) (h₂ : Located space k₂)
    (hspace : space ∉ [Space.taskQueue, .property, .logs, .searchIndex])
    (heq : k₁.serialize = k₂.serialize) : k₁.logical = k₂.logical := by
  have hlength := congrArg (Option.map List.length) heq
  cases h₁ <;> cases h₂ <;>
    simp [Key.serialize, ValueClass.key, U64_LEN, U32_LEN] at heq hlength <;>
    simp_all [Key.logical, ValueKey.logical, Vector.toList_inj, ReportEvent.key_inj,
      QueueEvent.ext_iff, IndexKey.serialize_inj]

theorem logical_eq_of_taskQueue (h₁ : Located .taskQueue k₁) (h₂ : Located .taskQueue k₂)
    (hb₁ : k₁.serialize = some bytes) (hb₂ : k₂.serialize = some bytes) :
    k₁.logical = k₂.logical := by
  cases h₁ with | @taskQueue a c d t
  cases h₂ with | @taskQueue a' c' d' u
  -- the integer in front and the byte behind the account tell the classes apart
  rcases t with ⟨due, index, _ | _⟩ | ⟨due, eventId, alarmId, _ | _⟩ | ⟨due, _ | _⟩ | ⟨due⟩ <;>
    rcases u with ⟨due', index', _ | _⟩ | ⟨due', eventId', alarmId', _ | _⟩ | ⟨due', _ | _⟩ |
      ⟨due'⟩ <;>
    simp [Key.serialize, ValueClass.key, replicate_255, -List.reduceReplicate,
      Option.bind_eq_some_iff] at hb₁ hb₂ <;>
    subst_vars <;> simp_all [Key.logical, ValueKey.logical]
  all_goals
    obtain ⟨v, hv, rfl⟩ := hb₁
    obtain ⟨w, hw, heq⟩ := hb₂
    simp at heq
  all_goals
    obtain ⟨rfl, rfl, rfl, rfl⟩ := heq
    exact ⟨rfl, rfl, rfl, SearchIndex.asU8_injective hv hw⟩

/-! ## The subspaces with more than one reading -/

/-- One logical key, or two with the same layout. -/
def EqOrConfusable (k₁ k₂ : Key) : Prop :=
  k₁.logical = k₂.logical ∨ Confusable k₁ k₂ ∨ Confusable k₂ k₁

theorem eqOrConfusable_property (hc₁ : k₁.Canonical) (hc₂ : k₂.Canonical)
    (h₁ : Located .property k₁) (h₂ : Located .property k₂)
    (heq : k₁.serialize = k₂.serialize) : EqOrConfusable k₁ k₂ := by
  have hlength := congrArg (Option.map List.length) heq
  cases h₁ <;> cases h₂ <;>
    simp [Key.serialize, ValueClass.key, CheekyHash.length_asBytes, U64_LEN, U32_LEN]
      at heq hlength
  case property.property =>
    obtain ⟨rfl, rfl, rfl, rfl⟩ := heq
    exact .inl rfl
  case integer.integer =>
    obtain ⟨rfl, rfl, rfl, rfl, rfl⟩ := heq
    exact .inl rfl
  case hash.hash =>
    obtain ⟨rfl, rfl, rfl, hbytes, rfl⟩ := heq
    exact .inl (by rw [CheekyHash.eq_of_asBytes hc₁ hc₂ hbytes])
  case hash.integer =>
    obtain ⟨rfl, rfl, rfl, hbytes, rfl⟩ := heq
    exact .inr (.inl (.hashInteger hbytes))
  case integer.hash =>
    obtain ⟨rfl, rfl, rfl, hbytes, rfl⟩ := heq
    exact .inr (.inr (.hashInteger hbytes.symm))
  case property.hash hash | hash.property hash _ _ _ _ _ =>
    have hpos := hash.len_pos
    omega

theorem eqOrConfusable_logs (h₁ : Located .logs k₁) (h₂ : Located .logs k₂)
    (heq : k₁.serialize = k₂.serialize) : EqOrConfusable k₁ k₂ := by
  cases h₁ <;> cases h₂ <;> simp [Key.serialize, LogKey.serialize, ValueClass.key] at heq
  case log.log key key' =>
    cases key
    cases key'
    obtain ⟨rfl, rfl, rfl⟩ := heq
    exact .inl rfl
  case log.shareNotification key _ _ _ _ _ =>
    cases key
    obtain ⟨rfl, rfl, rfl⟩ := heq
    exact .inr (.inl .shareLog)
  case shareNotification.log key =>
    cases key
    obtain ⟨rfl, rfl, rfl⟩ := heq
    exact .inr (.inr .shareLog)
  case shareNotification.shareNotification =>
    obtain ⟨rfl, rfl⟩ := heq
    exact .inl rfl

/-- The contents of an entry with the id it is about. -/
def SearchIndexId.around (contents : Bytes) : SearchIndexId → Bytes
  | .account accountId documentId => beU32 accountId ++ (contents ++ beU32 documentId)
  | .global id => contents ++ beU64 id

theorem searchIndex_key (index : SearchIndex) (id : SearchIndexId) (typ : SearchIndexType) :
    (SearchIndexClass.mk index id typ).key =
      index.asU8.map fun u8 => (u8 ||| typ.bits) :: id.around typ.contents := by
  cases hu : index.asU8 with
  | none => simp [SearchIndexClass.key, hu]
  | some u8 =>
    cases typ <;> cases id <;>
      simp [SearchIndexClass.key, hu, SearchIndexType.bits, SearchIndexType.contents,
        SearchIndexId.around]

theorem SearchIndex.bits_inj {i j : SearchIndex} {t t' : SearchIndexType} {u v : UInt8}
    (hi : i.asU8 = some u) (hj : j.asU8 = some v) (h : u ||| t.bits = v ||| t'.bits) :
    u = v ∧ t.bits = t'.bits := by
  cases i <;> cases hi <;> cases j <;> cases hj <;> cases t <;> cases t' <;>
    revert h <;> simp only [SearchIndexType.bits] <;> decide

theorem CheekyHash.eq_of_payload {h₁ h₂ : CheekyHash} (hc₁ : h₁.Canonical) (hc₂ : h₂.Canonical)
    (hpayload : h₁.payload = h₂.payload) (hlen : h₁.payloadLen = h₂.payloadLen) : h₁ = h₂ :=
  CheekyHash.eq_of_asBytes hc₁ hc₂ (by rw [h₁.asBytes_eq, h₂.asBytes_eq, hpayload, hlen])

theorem SearchIndexType.eq_of_contents {t u : SearchIndexType} {i j : SearchIndex}
    {id id' : SearchIndexId} (ht : (ValueClass.searchIndex ⟨i, id, t⟩).Canonical)
    (hu : (ValueClass.searchIndex ⟨j, id', u⟩).Canonical) (hbits : t.bits = u.bits)
    (hcontents : t.contents = u.contents) : t = u := by
  have h₁ : (0 : UInt8) ≠ (1 : UInt8) <<< 6 := by decide
  have h₂ : (0 : UInt8) ≠ (2 : UInt8) <<< 6 := by decide
  have h₃ : (1 : UInt8) <<< 6 ≠ (2 : UInt8) <<< 6 := by decide
  cases t with
  | term field hash =>
    cases u with
    | term field' hash' =>
      obtain ⟨hpayload, hlast⟩ := List.append_inj' hcontents rfl
      obtain ⟨hlen, rfl⟩ : hash.payloadLen = hash'.payloadLen ∧ field = field' := by
        simpa using hlast
      rw [CheekyHash.eq_of_payload ht hu hpayload hlen]
    | index => cases h₁ hbits
    | document => cases h₂ hbits
  | index field =>
    cases u with
    | term => cases h₁ hbits.symm
    | index field' =>
      obtain ⟨fieldId, data⟩ := field
      obtain ⟨fieldId', data'⟩ := field'
      cases hcontents
      rfl
    | document => cases h₃ hbits
  | document =>
    cases u with
    | term => cases h₂ hbits.symm
    | index => cases h₃ hbits.symm
    | document => rfl

theorem eqOrConfusable_searchIndex (hc₁ : k₁.Canonical) (hc₂ : k₂.Canonical)
    (h₁ : Located .searchIndex k₁) (h₂ : Located .searchIndex k₂)
    (hb₁ : k₁.serialize = some bytes) (hb₂ : k₂.serialize = some bytes) : EqOrConfusable k₁ k₂ := by
  cases h₁ with | @searchIndex a c d index
  cases h₂ with | @searchIndex a' c' d' other
  obtain ⟨index, id, typ⟩ := index
  obtain ⟨other, id', typ'⟩ := other
  rw [Key.serialize, ValueClass.key, searchIndex_key] at hb₁ hb₂
  obtain ⟨u, hu, rfl⟩ := Option.map_eq_some_iff.1 hb₁
  obtain ⟨v, hv, heq⟩ := Option.map_eq_some_iff.1 hb₂
  obtain ⟨hfirst, hbody⟩ := List.cons.inj heq
  obtain ⟨rfl, hbits⟩ := SearchIndex.bits_inj hv hu hfirst
  obtain rfl : index = other := SearchIndex.asU8_injective hu hv
  have hindex : index ≠ .inMemory := fun h => by
    rw [h] at hu
    cases hu
  have heq_of {i i' : SearchIndexId} (hid : i = i') (hcontents : typ.contents = typ'.contents)
      (hc₁ : (ValueClass.searchIndex ⟨index, i, typ⟩).Canonical)
      (hc₂ : (ValueClass.searchIndex ⟨index, i', typ'⟩).Canonical) :
      (Key.value ⟨a, c, d, .searchIndex ⟨index, i, typ⟩⟩).logical =
        (Key.value ⟨a', c', d', .searchIndex ⟨index, i', typ'⟩⟩).logical := by
    rw [SearchIndexType.eq_of_contents hc₁ hc₂ hbits.symm hcontents, hid]
    rfl
  cases id with
  | account accountId documentId =>
    cases id' with
    | account accountId' documentId' =>
      obtain ⟨rfl, hcontents, rfl⟩ := by simpa [SearchIndexId.around] using hbody
      exact .inl (heq_of rfl hcontents.symm hc₁ hc₂)
    | global id =>
      rw [SearchIndexId.around, SearchIndexId.around, beU64_split, ← List.append_assoc,
        ← List.append_assoc] at hbody
      obtain ⟨hhigh, hlow⟩ := append_beU32_inj.1 hbody
      exact .inr (.inl (.searchIndex hindex hbits.symm hlow hhigh.symm))
  | global id =>
    cases id' with
    | account accountId documentId =>
      rw [SearchIndexId.around, SearchIndexId.around, beU64_split, ← List.append_assoc,
        ← List.append_assoc] at hbody
      obtain ⟨hhigh, hlow⟩ := append_beU32_inj.1 hbody
      exact .inr (.inr (.searchIndex hindex hbits hlow.symm hhigh))
    | global id' =>
      obtain ⟨hcontents, rfl⟩ := append_beU64_inj.1 hbody
      exact .inl (heq_of rfl hcontents.symm hc₁ hc₂)

/-- **No other collisions**: two keys with the same bytes are one logical key, or confusable. -/
theorem eqOrConfusable (c₁ c₂ : ContentKey)
    (hsubspace : c₁.key.subspace = c₂.key.subspace) (hb₁ : c₁.key.serialize = some bytes)
    (hb₂ : c₂.key.serialize = some bytes) : EqOrConfusable c₁.key c₂.key := by
  obtain ⟨s, h₁, hs₁⟩ := located c₁.notRaw
  obtain ⟨t, h₂, hs₂⟩ := located c₂.notRaw
  obtain rfl : s = t := Space.byte_injective (hs₁.trans (hsubspace.trans hs₂.symm))
  have heq := hb₁.trans hb₂.symm
  by_cases hspace : s ∈ [Space.taskQueue, .property, .logs, .searchIndex]
  · simp only [List.mem_cons, List.not_mem_nil, or_false] at hspace
    obtain rfl | rfl | rfl | rfl := hspace
    · exact .inl (logical_eq_of_taskQueue h₁ h₂ hb₁ hb₂)
    · exact eqOrConfusable_property c₁.canonical c₂.canonical h₁ h₂ heq
    · exact eqOrConfusable_logs h₁ h₂ heq
    · exact eqOrConfusable_searchIndex c₁.canonical c₂.canonical h₁ h₂ hb₁ hb₂
  · exact .inl (logical_eq_of_serialize h₁ h₂ hspace heq)

/-- **The collisions are real**: confusable keys have the same bytes, and are two logical keys. -/
theorem Confusable.not_separated (h : Confusable k₁ k₂) :
    k₁.subspace = k₂.subspace ∧ ¬ k₁.Separated k₂ := by
  cases h with
  | @hashInteger a c d property hash value hbytes =>
    refine ⟨rfl, fun h => ?_⟩
    have hlogical := h (beU32 a ++ [c, property] ++ hash.asBytes ++ beU32 d) rfl
      (by rw [hbytes]; rfl)
    cases hlogical
  | shareLog =>
    refine ⟨rfl, fun h => ?_⟩
    have hlogical := h _ rfl rfl
    cases hlogical
  | @searchIndex a b c d e f index accountId documentId id typ other hindex hkind hlow hhigh =>
    refine ⟨rfl, fun h => ?_⟩
    obtain ⟨u, hu⟩ := SearchIndex.exists_asU8 hindex
    have hlogical := h _ (by rw [Key.serialize, ValueClass.key, searchIndex_key, hu]; rfl) (by
      rw [Key.serialize, ValueClass.key, searchIndex_key, hu, Option.map_some,
        SearchIndexId.around, SearchIndexId.around, beU64_split, hlow, ← List.append_assoc,
        ← List.append_assoc, hhigh, hkind])
    cases hlogical

end Spaces

/-! ## All keys -/

theorem Key.Separated.symm {k₁ k₂ : Key} (h : k₁.Separated k₂) : k₂.Separated k₁ :=
  fun bytes hb₂ hb₁ => (h bytes hb₁ hb₂).symm

theorem distinct_iff (c₁ c₂ : ContentKey) :
    c₁.key.Distinct c₂.key ↔ ¬ Confusable c₁.key c₂.key ∧ ¬ Confusable c₂.key c₁.key := by
  constructor
  · refine fun h => ⟨fun hc => ?_, fun hc => ?_⟩
    · obtain ⟨hsubspace, hseparated⟩ := hc.not_separated
      exact hseparated (h hsubspace)
    · obtain ⟨hsubspace, hseparated⟩ := hc.not_separated
      exact hseparated (h hsubspace.symm).symm
  · rintro ⟨h₁, h₂⟩ hsubspace bytes hb₁ hb₂
    obtain h | h | h := eqOrConfusable c₁ c₂ hsubspace hb₁ hb₂
    · exact h
    · cases h₁ h
    · cases h₂ h

theorem ValueKey.class_logical (k : ValueKey) : k.logical.class_ = k.class_ := by
  obtain ⟨accountId, collection, documentId, valueClass⟩ := k
  cases valueClass with
  | blob op =>
    cases op with
    | link hash link => cases link <;> rfl
    | _ => rfl
  | _ => rfl

theorem Key.isRaw_of_logical {k : Key} (h : k.logical.IsRaw) : k.IsRaw := by
  cases k with
  | value key =>
    have hclass := key.class_logical
    change (Key.value key.logical).IsRaw at h
    generalize key.logical = l at *
    obtain ⟨_, _, _, class_⟩ := l
    cases key
    cases hclass
    cases class_ <;> exact h
  | index | log => exact h

/-- The key of a class that holds all its data itself. -/
def ValueKey.ofClass (class_ : ValueClass) : ValueKey := ⟨0, 0, 0, class_⟩

/-- **Logical keys**: two keys are told apart by their bytes unless `Confusable` lists them, and a
raw key collides with the key of its bytes only. -/
theorem keys_iff (c₁ c₂ : ContentKey) (subspace : UInt8) (raw other : Bytes) :
    (c₁.key.Distinct c₂.key ↔ ¬ Confusable c₁.key c₂.key ∧ ¬ Confusable c₂.key c₁.key) ∧
      ((Key.value (.ofClass (.any c₁.key.subspace raw))).Distinct c₁.key ↔
        c₁.key.serialize ≠ some raw) ∧
      (Key.value (.ofClass (.any subspace raw))).Distinct
        (.value (.ofClass (.any subspace other))) := by
  refine ⟨distinct_iff c₁ c₂, ⟨fun h hbytes => ?_, fun h _ read hread hbytes => ?_⟩, ?_⟩
  · have hlogical := h rfl raw rfl hbytes
    exact c₁.notRaw (Key.isRaw_of_logical (hlogical ▸ trivial))
  · cases hread
    exact absurd hbytes h
  · intro _ read hread hbytes
    cases hread
    cases hbytes
    rfl

end MailServer.Store
