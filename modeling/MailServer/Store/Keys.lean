import MailServer.Store.Assert

/-!
# The keys of the store

The three keys with logical contents (`store/src/lib.rs`): the key of a value, of an entry of an
index and of an entry of a log, and the bytes each is stored under (`store/src/write/key.rs`).

Principal results: `located`; `CheekyHash.deserialize_eq_some_iff` — a hash is followed by zeros.
-/

namespace MailServer.Store

open MailServer.Codec

/-! ## Hashes -/

def HASH_SIZE : ℕ := 16
def HASH_PAYLOAD : ℕ := 15

/-- The bytes at the front of `[0u8; HASH_SIZE]`. -/
def CheekyHash.ofBytes (bytes : Bytes) : CheekyHash := ⟨Vector.ofFn fun i => bytes.getD i 0⟩

/-- `CheekyHash::new`, for any two functions in place of `xxh3_64` and `fingerprint64`. -/
def CheekyHash.new (xxh3 fingerprint : Bytes → UInt64) (bytes : Bytes) : CheekyHash :=
  if bytes.length ≤ HASH_PAYLOAD then .ofBytes (bytes.length.toUInt8 :: bytes)
  else
    .ofBytes ((min bytes.length 255).toUInt8 ::
      (beU64 (xxh3 bytes) ++ (beU64 (fingerprint bytes)).take (U64_LEN - 1)))

def CheekyHash.deserialize : Bytes → Option CheekyHash
  | [] => none
  | len :: bytes =>
    if min len.toNat HASH_PAYLOAD ≤ bytes.length then
      some (.ofBytes (len :: bytes.take (min len.toNat HASH_PAYLOAD)))
    else none

def CheekyHash.null : CheekyHash := ⟨Vector.replicate 16 0⟩

def CheekyHash.full : CheekyHash := ⟨Vector.replicate 16 255⟩

/-- What is behind the payload is zero. -/
def CheekyHash.Canonical (hash : CheekyHash) : Prop :=
  ∀ (i : ℕ) (h : i < 16), hash.len ≤ i → hash.bytes[i] = 0

theorem CheekyHash.len_pos (hash : CheekyHash) : 0 < hash.len := Nat.succ_pos _

theorem CheekyHash.len_le (hash : CheekyHash) : hash.len ≤ HASH_SIZE :=
  Nat.succ_le_succ (Nat.min_le_right _ _)

theorem CheekyHash.length_asBytes (hash : CheekyHash) : hash.asBytes.length = hash.len := by
  have h := hash.len_le
  simp only [HASH_SIZE] at h
  simp [asBytes, h]

theorem CheekyHash.asBytes_eq (hash : CheekyHash) :
    hash.asBytes = hash.payloadLen :: hash.payload := by
  have h := hash.length_asBytes
  have hpos := hash.len_pos
  cases hbytes : hash.asBytes with
  | nil => simp [hbytes] at h; omega
  | cons b tail =>
    have hhead : hash.asBytes[0]? = some hash.bytes[0] := by
      simp [asBytes, hpos]
    rw [hbytes] at hhead
    cases hhead
    simp [payload, hbytes, payloadLen]

theorem CheekyHash.length_payload (hash : CheekyHash) :
    hash.payload.length = min hash.payloadLen.toNat 15 := by
  simp [payload, length_asBytes, len, payloadLen]

theorem CheekyHash.eq_of_asBytes {h₁ h₂ : CheekyHash} (hc₁ : h₁.Canonical) (hc₂ : h₂.Canonical)
    (hbytes : h₁.asBytes = h₂.asBytes) : h₁ = h₂ := by
  have hlen : h₁.len = h₂.len := by rw [← length_asBytes, ← length_asBytes, hbytes]
  have hvector : h₁.bytes = h₂.bytes := by
    apply Vector.ext
    intro i hi
    by_cases hlt : i < h₁.len
    · have h := congrArg (fun l => l[i]?) hbytes
      simpa [asBytes, hlt, hlen ▸ hlt, hi] using h
    · rw [hc₁ i hi (Nat.le_of_not_lt hlt), hc₂ i hi (hlen ▸ Nat.le_of_not_lt hlt)]
  cases h₁
  cases h₂
  cases hvector
  rfl

theorem CheekyHash.canonical_ofBytes {bytes : Bytes}
    (hlength : bytes.length ≤ min (bytes.getD 0 0).toNat 15 + 1) :
    (CheekyHash.ofBytes bytes).Canonical := by
  intro i hi hle
  have hle : min (bytes.getD 0 0).toNat 15 + 1 ≤ i := by simpa [len, ofBytes] using hle
  have hout : bytes.length ≤ i := Nat.le_trans hlength hle
  simp [ofBytes, hout]

theorem CheekyHash.asBytes_ofBytes {bytes : Bytes}
    (hlength : bytes.length = min (bytes.getD 0 0).toNat 15 + 1) :
    (CheekyHash.ofBytes bytes).asBytes = bytes := by
  have hlen : (CheekyHash.ofBytes bytes).len = bytes.length := by
    simp [len, ofBytes, hlength]
  apply List.ext_getElem
  · rw [length_asBytes, hlen]
  · intro i h₁ h₂
    simp [asBytes, ofBytes, List.getElem?_eq_getElem h₂]

theorem CheekyHash.payload_ofBytes {byte : UInt8} {bytes : Bytes}
    (hlength : (byte :: bytes).length = min byte.toNat 15 + 1) :
    (CheekyHash.ofBytes (byte :: bytes)).payload = bytes ∧
      (CheekyHash.ofBytes (byte :: bytes)).payloadLen = byte := by
  refine ⟨?_, ?_⟩
  · rw [payload, asBytes_ofBytes hlength]
    rfl
  · simp [payloadLen, ofBytes]

theorem CheekyHash.canonical_new (xxh3 fingerprint : Bytes → UInt64) (bytes : Bytes) :
    (CheekyHash.new xxh3 fingerprint bytes).Canonical := by
  unfold CheekyHash.new
  split_ifs with h
  · apply canonical_ofBytes
    simp only [HASH_PAYLOAD] at h
    have hmod : bytes.length % 256 = bytes.length := Nat.mod_eq_of_lt (by omega)
    simp
    omega
  · apply canonical_ofBytes
    simp only [HASH_PAYLOAD] at h
    have hmod : min bytes.length 255 % 256 = min bytes.length 255 := Nat.mod_eq_of_lt (by omega)
    simp [U64_LEN]
    omega

/-- **What `deserialize` accepts**: the bytes of a hash that is followed by zeros, and `new` makes
no others. -/
theorem CheekyHash.deserialize_eq_some_iff (xxh3 fingerprint : Bytes → UInt64) :
    (∀ bytes hash, deserialize bytes = some hash ↔ hash.Canonical ∧ hash.asBytes <+: bytes) ∧
      ∀ bytes, (new xxh3 fingerprint bytes).Canonical := by
  refine ⟨fun bytes hash => ?_, canonical_new xxh3 fingerprint⟩
  have hpayload : hash.payload.length = min hash.payloadLen.toNat HASH_PAYLOAD :=
    hash.length_payload
  rw [asBytes_eq]
  cases bytes with
  | nil => simp [deserialize]
  | cons len bytes =>
    rw [List.cons_prefix_cons]
    by_cases hlen : min len.toNat HASH_PAYLOAD ≤ bytes.length
    · rw [deserialize, if_pos hlen]
      have hlength : (len :: bytes.take (min len.toNat HASH_PAYLOAD)).length =
          min len.toNat HASH_PAYLOAD + 1 := by
        simp [hlen]
      constructor
      · intro h
        cases h
        obtain ⟨htake, hfirst⟩ := payload_ofBytes hlength
        rw [htake, hfirst]
        exact ⟨canonical_ofBytes hlength.le, rfl, List.take_prefix _ _⟩
      · rintro ⟨hcanonical, rfl, hprefix⟩
        rw [← hpayload, ← List.prefix_iff_eq_take.1 hprefix] at hlength ⊢
        rw [hpayload] at hlength
        refine congrArg some (eq_of_asBytes (canonical_ofBytes hlength.le) hcanonical ?_)
        rw [asBytes_ofBytes hlength, asBytes_eq]
    · rw [deserialize, if_neg hlen]
      refine iff_of_false nofun ?_
      rintro ⟨-, rfl, hprefix⟩
      exact hlen (hpayload ▸ hprefix.length_le)

/-! ## Keys -/

structure IndexKey where
  accountId : UInt32
  collection : UInt8
  documentId : UInt32
  field : UInt8
  key : Bytes
  deriving DecidableEq

structure LogKey where
  accountId : UInt32
  collection : UInt8
  changeId : UInt64
  deriving DecidableEq

def SUBSPACE_INDEXES : UInt8 := 'i'.toUInt8

/-- `IndexKey::serialize` without the subspace. -/
def IndexKey.serialize (k : IndexKey) : Bytes :=
  beU32 k.accountId ++ [k.collection, k.field] ++ k.key ++ beU32 k.documentId

/-- `LogKey::serialize` without the subspace. -/
def LogKey.serialize (k : LogKey) : Bytes :=
  beU32 k.accountId ++ [k.collection] ++ beU64 k.changeId

inductive Key where
  | value (key : ValueKey)
  | index (key : IndexKey)
  | log (key : LogKey)
  deriving DecidableEq

def Key.subspace : Key → UInt8
  | .value k => k.class_.subspace k.collection
  | .index _ => SUBSPACE_INDEXES
  | .log _ => SUBSPACE_LOGS

/-- `Key::serialize` without the subspace; `none` is `unreachable!()`. -/
def Key.serialize : Key → Option Bytes
  | .value k => k.class_.key k.accountId k.collection k.documentId
  | .index k => some k.serialize
  | .log k => some k.serialize

/-! ## Logical keys -/

/-- A class with those of the coordinates that belong to a value of it; the others are zero. -/
def ValueKey.logical (k : ValueKey) : ValueKey :=
  match k.class_ with
  | .property _ | .indexProperty _ | .acl _ | .blob (.link _ .document) => k
  | .taskQueue _ => { k with collection := 0 }
  | .documentId => { k with documentId := 0 }
  | .changeId | .blob (.link _ (.temporary _)) | .blob (.quota ..) | .blob (.undelete ..)
  | .blob (.spamSample ..) => { k with collection := 0, documentId := 0 }
  | _ => { k with accountId := 0, collection := 0, documentId := 0 }

def Key.logical : Key → Key
  | .value k => .value k.logical
  | k => k

/-- `ValueClass::Any`, which is given its bytes and not its contents. -/
def Key.IsRaw : Key → Prop
  | .value ⟨_, _, _, .any _ _⟩ => True
  | _ => False

def ValueClass.Canonical : ValueClass → Prop
  | .indexProperty (.hash _ hash) => hash.Canonical
  | .searchIndex ⟨_, _, .term _ hash⟩ => hash.Canonical
  | _ => True

def Key.Canonical : Key → Prop
  | .value k => k.class_.Canonical
  | _ => True

structure ContentKey where
  key : Key
  canonical : key.Canonical
  notRaw : ¬ key.IsRaw

/-- Equal bytes are the bytes of one logical key. -/
def Key.Separated (k₁ k₂ : Key) : Prop :=
  ∀ bytes, k₁.serialize = some bytes → k₂.serialize = some bytes → k₁.logical = k₂.logical

/-- Keys of one subspace do not collide. -/
def Key.Distinct (k₁ k₂ : Key) : Prop := k₁.subspace = k₂.subspace → k₁.Separated k₂

/-! ## Keys that share their bytes -/

/-- The kind of an entry of a search index, in the high bits of its first byte. -/
def SearchIndexType.bits : SearchIndexType → UInt8
  | .term .. => 0
  | .index _ => (1 : UInt8) <<< 6
  | .document => (2 : UInt8) <<< 6

/-- What an entry of a search index says about its document. -/
def SearchIndexType.contents : SearchIndexType → Bytes
  | .term field hash => hash.payload ++ [hash.payloadLen, field]
  | .index field => field.fieldId :: field.data
  | .document => []

/-- The contents of two logical keys that are laid out the same:

* a hash of eight bytes and the integer of these bytes, in one property of one document;
* a change of the collection of share notifications, and a notification;
* entries of one kind in one search index, about a document of an account and about an id that ends
  in the document and whose high half, behind its own contents, continues the account and the
  contents of the first. -/
inductive Confusable : Key → Key → Prop
  | hashInteger {a c d property hash value} (hbytes : CheekyHash.asBytes hash = beU64 value) :
      Confusable (.value ⟨a, c, d, .indexProperty (.hash property hash)⟩)
        (.value ⟨a, c, d, .indexProperty (.integer property value)⟩)
  | shareLog {a b c d changeId} :
      Confusable (.log ⟨a, SHARE_NOTIFICATION, changeId⟩)
        (.value ⟨b, c, d, .shareNotification changeId a⟩)
  | searchIndex {a b c d e f index accountId documentId} {id : UInt64} {typ other : SearchIndexType}
      (hindex : index ≠ .inMemory) (hkind : typ.bits = other.bits)
      (hlow : id.toUInt32 = documentId)
      (hhigh : beU32 accountId ++ typ.contents = other.contents ++ beU32 (id >>> 32).toUInt32) :
      Confusable (.value ⟨a, c, e, .searchIndex ⟨index, .account accountId documentId, typ⟩⟩)
        (.value ⟨b, d, f, .searchIndex ⟨index, .global id, other⟩⟩)

/-! ## What is in a subspace -/

inductive Space where
  | acl | directory | taskQueue | indexes | blobExtra | blobLink | logs | counter | inMemoryValue
  | inMemoryCounter | property | settings | queueMessage | queueEvent | quota | reportOut | reportIn
  | telemetrySpan | telemetryMetric | searchIndex

def Space.byte : Space → UInt8
  | .acl => SUBSPACE_ACL
  | .directory => SUBSPACE_DIRECTORY
  | .taskQueue => SUBSPACE_TASK_QUEUE
  | .indexes => SUBSPACE_INDEXES
  | .blobExtra => SUBSPACE_BLOB_EXTRA
  | .blobLink => SUBSPACE_BLOB_LINK
  | .logs => SUBSPACE_LOGS
  | .counter => SUBSPACE_COUNTER
  | .inMemoryValue => SUBSPACE_IN_MEMORY_VALUE
  | .inMemoryCounter => SUBSPACE_IN_MEMORY_COUNTER
  | .property => SUBSPACE_PROPERTY
  | .settings => SUBSPACE_SETTINGS
  | .queueMessage => SUBSPACE_QUEUE_MESSAGE
  | .queueEvent => SUBSPACE_QUEUE_EVENT
  | .quota => SUBSPACE_QUOTA
  | .reportOut => SUBSPACE_REPORT_OUT
  | .reportIn => SUBSPACE_REPORT_IN
  | .telemetrySpan => SUBSPACE_TELEMETRY_SPAN
  | .telemetryMetric => SUBSPACE_TELEMETRY_METRIC
  | .searchIndex => SUBSPACE_SEARCH_INDEX

theorem Space.byte_injective : Function.Injective Space.byte := by
  intro s t h
  cases s <;> cases t <;> first | rfl | cases h

/-- The classes of each subspace, with any contents. -/
inductive Located : Space → Key → Prop
  | property {a c d field} (h : ¬ (field = 84 ∧ c = 1)) :
      Located .property (.value ⟨a, c, d, .property field⟩)
  | hash {a c d property hash} :
      Located .property (.value ⟨a, c, d, .indexProperty (.hash property hash)⟩)
  | integer {a c d property value} :
      Located .property (.value ⟨a, c, d, .indexProperty (.integer property value)⟩)
  | uidCounter {a d} : Located .counter (.value ⟨a, 1, d, .property 84⟩)
  | documentId {a c d} : Located .counter (.value ⟨a, c, d, .documentId⟩)
  | changeId {a c d} : Located .counter (.value ⟨a, c, d, .changeId⟩)
  | acl {a c d grant} : Located .acl (.value ⟨a, c, d, .acl grant⟩)
  | taskQueue {a c d task} : Located .taskQueue (.value ⟨a, c, d, .taskQueue task⟩)
  | commit {a c d hash} : Located .blobLink (.value ⟨a, c, d, .blob (.commit hash)⟩)
  | linkId {a c d hash id} : Located .blobLink (.value ⟨a, c, d, .blob (.link hash (.id id))⟩)
  | linkDocument {a c d hash} : Located .blobLink (.value ⟨a, c, d, .blob (.link hash .document)⟩)
  | linkTemporary {a c d hash until_} :
      Located .blobLink (.value ⟨a, c, d, .blob (.link hash (.temporary until_))⟩)
  | quota {a c d hash until_} :
      Located .blobExtra (.value ⟨a, c, d, .blob (.quota hash until_)⟩)
  | undelete {a c d hash until_} :
      Located .blobExtra (.value ⟨a, c, d, .blob (.undelete hash until_)⟩)
  | spamSample {a c d hash until_} :
      Located .blobExtra (.value ⟨a, c, d, .blob (.spamSample hash until_)⟩)
  | config {a c d key} : Located .settings (.value ⟨a, c, d, .config key⟩)
  | inMemoryValue {a c d key} : Located .inMemoryValue (.value ⟨a, c, d, .inMemory (.key key)⟩)
  | inMemoryCounter {a c d key} :
      Located .inMemoryCounter (.value ⟨a, c, d, .inMemory (.counter key)⟩)
  | nameToId {a c d name} : Located .directory (.value ⟨a, c, d, .directory (.nameToId name)⟩)
  | emailToId {a c d email} : Located .directory (.value ⟨a, c, d, .directory (.emailToId email)⟩)
  | principal {a c d uid} : Located .directory (.value ⟨a, c, d, .directory (.principal uid)⟩)
  | memberOf {a c d principalId memberOf} :
      Located .directory (.value ⟨a, c, d, .directory (.memberOf principalId memberOf)⟩)
  | members {a c d principalId hasMember} :
      Located .directory (.value ⟨a, c, d, .directory (.members principalId hasMember)⟩)
  | word {a c d word principalId} :
      Located .directory (.value ⟨a, c, d, .directory (.index word principalId)⟩)
  | usedQuota {a c d uid} : Located .quota (.value ⟨a, c, d, .directory (.usedQuota uid)⟩)
  | quotaCount {a c d key} : Located .quota (.value ⟨a, c, d, .queue (.quotaCount key)⟩)
  | quotaSize {a c d key} : Located .quota (.value ⟨a, c, d, .queue (.quotaSize key)⟩)
  | message {a c d queueId} : Located .queueMessage (.value ⟨a, c, d, .queue (.message queueId)⟩)
  | messageEvent {a c d event} :
      Located .queueEvent (.value ⟨a, c, d, .queue (.messageEvent event)⟩)
  | dmarcReportHeader {a c d event} :
      Located .reportOut (.value ⟨a, c, d, .queue (.dmarcReportHeader event)⟩)
  | tlsReportHeader {a c d event} :
      Located .reportOut (.value ⟨a, c, d, .queue (.tlsReportHeader event)⟩)
  | dmarcReportEvent {a c d event} :
      Located .reportOut (.value ⟨a, c, d, .queue (.dmarcReportEvent event)⟩)
  | tlsReportEvent {a c d event} :
      Located .reportOut (.value ⟨a, c, d, .queue (.tlsReportEvent event)⟩)
  | tls {a c d id expires} : Located .reportIn (.value ⟨a, c, d, .report (.tls id expires)⟩)
  | dmarc {a c d id expires} : Located .reportIn (.value ⟨a, c, d, .report (.dmarc id expires)⟩)
  | arf {a c d id expires} : Located .reportIn (.value ⟨a, c, d, .report (.arf id expires)⟩)
  | span {a c d spanId} : Located .telemetrySpan (.value ⟨a, c, d, .telemetry (.span spanId)⟩)
  | metric {a c d timestamp metricId nodeId} :
      Located .telemetryMetric (.value ⟨a, c, d, .telemetry (.metric timestamp metricId nodeId)⟩)
  | searchIndex {a c d index} : Located .searchIndex (.value ⟨a, c, d, .searchIndex index⟩)
  | shareNotification {a c d notificationId notifyAccountId} :
      Located .logs (.value ⟨a, c, d, .shareNotification notificationId notifyAccountId⟩)
  | index {key} : Located .indexes (.index key)
  | log {key} : Located .logs (.log key)

/-- Every key with contents is in the subspace of its class. -/
theorem located {k : Key} (hraw : ¬ k.IsRaw) : ∃ s, Located s k ∧ s.byte = k.subspace := by
  rcases k with ⟨a, c, d, class_⟩ | key | key
  case index => exact ⟨.indexes, .index, rfl⟩
  case log => exact ⟨.logs, .log, rfl⟩
  rcases class_ with field | property | _ | lookup | _ | directory | op | _ | queue | report |
    telemetry | _ | _ | _ | _ | _
  case property =>
    by_cases h : field = 84 ∧ c = 1
    · obtain ⟨rfl, rfl⟩ := h
      exact ⟨.counter, .uidCounter, rfl⟩
    · exact ⟨.property, .property h, (if_neg h).symm⟩
  case any => cases hraw trivial
  case blob =>
    rcases op with _ | ⟨hash, link⟩ | _ | _ | _
    case link => cases link <;> exact ⟨_, by constructor, rfl⟩
    all_goals exact ⟨_, by constructor, rfl⟩
  case indexProperty => cases property <;> exact ⟨_, by constructor, rfl⟩
  case inMemory => cases lookup <;> exact ⟨_, by constructor, rfl⟩
  case directory => cases directory <;> exact ⟨_, by constructor, rfl⟩
  case queue => cases queue <;> exact ⟨_, by constructor, rfl⟩
  case report => cases report <;> exact ⟨_, by constructor, rfl⟩
  case telemetry => cases telemetry <;> exact ⟨_, by constructor, rfl⟩
  all_goals exact ⟨_, by constructor, rfl⟩

end MailServer.Store
