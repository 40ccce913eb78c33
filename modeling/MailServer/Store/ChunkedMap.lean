import MailServer.Lib.Run
import MailServer.Store.Foundationdb

/-!
# Chunked values as a plain map

The transactions of the FoundationDB backend on values (`Set`, `MergeFnc`, `Clear`) against a plain
map from keys to values.

`K` is the set of keys in use, those that are written and read.  An old chunk is never deleted when
a value is overwritten, a chunk key can be a key of its own, and some classes are cleared with
every key they are a prefix of; `SafeSet` and `SafeClear` say when none of this matters.

Principal results: `write_refines`, `transactions_refine`, `shorter_value_keeps_chunk`.
-/

namespace MailServer.Store

open List Function

/-! ## Operations on values -/

inductive MergeResult where
  | update (value : Bytes)
  | skip
  | delete

/-- The operations on a value; a merge function gets the value that was read, and `none` is its
error. -/
inductive KvOp where
  | set (value : Bytes)
  | mergeFnc (fnc : Option Bytes → Option MergeResult)
  | clear

structure ValueWrite where
  key : ValueKey
  op : KvOp

/-- The subspaces and classes whose values `Clear` clears as a range. -/
def clearsRange (key : Bytes) (class_ : ValueClass) : Bool :=
  [SUBSPACE_DIRECTORY, SUBSPACE_TASK_QUEUE, SUBSPACE_IN_MEMORY_VALUE, SUBSPACE_PROPERTY,
    SUBSPACE_QUEUE_MESSAGE, SUBSPACE_REPORT_OUT, SUBSPACE_REPORT_IN, SUBSPACE_TELEMETRY_SPAN,
    SUBSPACE_SEARCH_INDEX, SUBSPACE_LOGS].contains (key.headD 0) &&
  match class_ with
  | .property _ | .queue _ | .report _ | .directory (.principal _) | .shareNotification ..
  | .telemetry (.metric ..) | .taskQueue (.sendImip _ true) | .inMemory _ => true
  | _ => false

/-- Clears a key, alone or with the range behind it. -/
def clearKey (db : Database) (key : Bytes) (ranged : Bool) : Database :=
  if ranged then db.clearRange key (key ++ [0xFF]) else db.clear key

/-- `MergeFnc`. -/
def mergeValue (db : Database) (key : Bytes) (fnc : Option Bytes → Option MergeResult) :
    Option Database :=
  match readChunkedValue db key with
  | none => none
  | some read =>
    match fnc read.bytes with
    | none => none
    | some (.update value) => chunkValue db key value
    | some .skip => some db
    | some .delete => some (clearKey db key read.isChunked)

/-- A Value operation in a transaction; `none` ends it without a commit. -/
def writeValue (db : Database) (w : ValueWrite) : Option Database :=
  match w.key.serialize with
  | none => none
  | some key =>
    match w.op with
    | .set value => chunkValue db key value
    | .mergeFnc fnc => mergeValue db key fnc
    | .clear => some (clearKey db key (clearsRange key w.key.class_))

/-- A transaction: all of its operations, or none of them. -/
def commit (db : Database) (writes : List ValueWrite) : Database :=
  (Runs.exec writeValue db writes).getD db

/-! ## The plain map -/

/-- What the values are for: a map from keys to values. -/
abbrev PlainMap := Bytes → Option Bytes

/-- A value that fits into the chunks of a key. -/
def Accepted (value : Bytes) : Prop := chunkCount value ≤ 255

instance (value : Bytes) : Decidable (Accepted value) := inferInstanceAs (Decidable (_ ≤ _))

def plainSet (m : PlainMap) (key value : Bytes) : Option PlainMap :=
  if Accepted value then some (Function.update m key (some value)) else none

def plainWrite (m : PlainMap) (w : ValueWrite) : Option PlainMap :=
  match w.key.serialize with
  | none => none
  | some key =>
    match w.op with
    | .set value => plainSet m key value
    | .mergeFnc fnc =>
      match fnc (m key) with
      | none => none
      | some (.update value) => plainSet m key value
      | some .skip => some m
      | some .delete => some (Function.update m key none)
    | .clear => some (Function.update m key none)

def plainCommit (m : PlainMap) (writes : List ValueWrite) : PlainMap :=
  (Runs.exec plainWrite m writes).getD m

/-! ## The condition -/

section Refinement

variable {K : Set Bytes} {db db' : Database} {m : PlainMap} {key value : Bytes}

/-- No read of another key in use gets as far as `key`. -/
def NotReached (K : Set Bytes) (db : Database) (key : Bytes) : Prop :=
  ∀ k ∈ K, ∀ i < 256, key = k ++ [UInt8.ofNat i] → ¬ Reaches db k i

/-- The condition on writing a value: nothing stands behind its last chunk, and no key in use is a
chunk of another. -/
structure SafeSet (K : Set Bytes) (db : Database) (key value : Bytes) : Prop where
  stop : MAX_VALUE_SIZE ≤ value.length → db (key ++ [UInt8.ofNat (parts value - 1)]) = none
  chunks : ∀ i, i + 1 < parts value → key ++ [UInt8.ofNat i] ∉ K
  position : NotReached K db key

/-- The condition on clearing a value: the key is not a chunk of another, and if the range behind it
is cleared, no key in use there has a value. -/
structure SafeClear (K : Set Bytes) (db : Database) (key : Bytes) (ranged : Bool) : Prop where
  position : db key ≠ none → NotReached K db key
  range : ranged → ∀ s, s ≠ [] → (∀ b ∈ s.head?, b < 0xFF) → key ++ s ∈ K →
    db (key ++ s) = none

/-- The condition on an operation, in the state before it. -/
def SafeWrite (K : Set Bytes) (db : Database) (w : ValueWrite) : Prop :=
  ∀ key, w.key.serialize = some key → key ∈ K ∧
    match w.op with
    | .set value => Accepted value → SafeSet K db key value
    | .mergeFnc fnc => ∀ read, readChunkedValue db key = some read →
      match fnc read.bytes with
      | some (.update value) => Accepted value → SafeSet K db key value
      | some .delete => SafeClear K db key read.isChunked
      | _ => True
    | .clear => SafeClear K db key (clearsRange key w.key.class_)

/-- Every key in use reads as in the plain map. -/
def Reads (K : Set Bytes) (db : Database) (m : PlainMap) : Prop :=
  ∀ k ∈ K, (readChunkedValue db k).map ChunkedValue.bytes = some (m k)

/-! ## Setting a value -/

theorem append_singleton_inj {k k' : Bytes} {b b' : UInt8} (h : k ++ [b] = k' ++ [b']) :
    k = k' ∧ b = b' := by
  rwa [List.append_singleton_inj] at h

theorem read_other_of_spread (hspread : Spread db key value (parts value) db')
    (hsafe : SafeSet K db key value) {k : Bytes} (hk : k ∈ K) (hne : k ≠ key) :
    readChunkedValue db' k = readChunkedValue db k := by
  refine readChunkedValue_congr (hspread.other k hne fun i hi heq => ?_) fun i hi hreach => ?_
  · exact hsafe.chunks i hi (heq ▸ hk)
  · refine hspread.other _ (fun heq => ?_) fun j _ heq => ?_
    · exact hsafe.position k hk i hi heq.symm hreach
    · exact hne (append_singleton_inj heq).1

theorem reads_set (hreads : Reads K db m) (hsafe : Accepted value → SafeSet K db key value) :
    Option.Rel (Reads K) (chunkValue db key value) (plainSet m key value) := by
  unfold plainSet
  by_cases haccepted : Accepted value
  · obtain ⟨db', hwrite, hspread⟩ := chunkValue_spec db key haccepted
    have hsafe := hsafe haccepted
    rw [hwrite, if_pos haccepted]
    refine .some fun k hk => ?_
    by_cases heq : k = key
    · subst heq
      rw [update_self]
      refine read_of_spread haccepted hspread fun hlarge => ?_
      have hparts : 1 ≤ parts value ∧ parts value ≤ 255 := by
        unfold Accepted at haccepted
        unfold parts
        omega
      rw [hspread.other _ (append_singleton_ne k _) fun i hi hkey => ?_]
      · exact hsafe.stop hlarge
      · have hi' := ofNat_inj (by omega) (by omega) (append_singleton_inj hkey).2
        omega
    · rw [update_of_ne heq, read_other_of_spread hspread hsafe hk heq]
      exact hreads k hk
  · rw [if_neg haccepted, chunkValue_eq_none db key (not_le.1 haccepted)]
    exact .none

/-! ## Clearing a value -/

theorem clearRange_apply (db : Database) (key k : Bytes) :
    db.clearRange key (key ++ [0xFF]) k = none ∧
        (∃ s, k = key ++ s ∧ ∀ b ∈ s.head?, b < 0xFF) ∨
      db.clearRange key (key ++ [0xFF]) k = db k ∧
        ¬ ∃ s, k = key ++ s ∧ ∀ b ∈ s.head?, b < 0xFF := by
  have hmem : PrefixRange.Mem key (key ++ [0xFF]) k ↔ ∃ s, k = key ++ s ∧ ∀ b ∈ s.head?, b < 0xFF :=
    PrefixRange.mem_iff UInt8.lt_irrefl
  by_cases hin : PrefixRange.Mem key (key ++ [0xFF]) k
  · exact .inl ⟨if_pos hin, hmem.1 hin⟩
  · exact .inr ⟨if_neg hin, fun h => hin (hmem.2 h)⟩

theorem clearKey_self (db : Database) (key : Bytes) (ranged : Bool) :
    clearKey db key ranged key = none := by
  cases ranged with
  | false => exact if_pos rfl
  | true =>
    rcases clearRange_apply db key key with ⟨hnone, -⟩ | ⟨-, hnot⟩
    · exact hnone
    · refine absurd ⟨[], (append_nil _).symm, fun b hb => ?_⟩ hnot
      cases hb

theorem clearKey_other {ranged : Bool} {k : Bytes} (hne : k ≠ key)
    (hrange : ranged → (∃ s, s ≠ [] ∧ k = key ++ s ∧ ∀ b ∈ s.head?, b < 0xFF) →
      db k = none) : clearKey db key ranged k = db k := by
  cases ranged with
  | false => exact if_neg hne
  | true =>
    rcases clearRange_apply db key k with ⟨hnone, s, hs, hhead⟩ | ⟨hsame, -⟩
    · have hnil : s ≠ [] := by
        rintro rfl
        exact hne (hs.trans (append_nil _))
      exact hnone.trans (hrange rfl ⟨s, hnil, hs, hhead⟩).symm
    · exact hsame

theorem read_other_of_clear {ranged : Bool} (hsafe : SafeClear K db key ranged) {k : Bytes}
    (hk : k ∈ K) (hne : k ≠ key) :
    readChunkedValue (clearKey db key ranged) k = readChunkedValue db k := by
  refine readChunkedValue_congr (clearKey_other hne ?_) fun i hi hreach => ?_
  · rintro hranged ⟨s, hnil, hs, hhead⟩
    rw [hs]
    exact hsafe.range hranged s hnil hhead (hs ▸ hk)
  · by_cases hchunk : k ++ [UInt8.ofNat i] = key
    · rw [hchunk, clearKey_self]
      by_contra hpresent
      exact hsafe.position (fun h => hpresent h.symm) k hk i hi hchunk.symm hreach
    · refine clearKey_other hchunk ?_
      rintro hranged ⟨s, hnil, hs, hhead⟩
      -- a chunk in the range: the key it belongs to is in the range too, and has no value
      obtain ⟨s', b, rfl⟩ : ∃ s' b, s = s' ++ [b] :=
        ⟨s.dropLast, s.getLast hnil, (dropLast_append_getLast hnil).symm⟩
      rw [← append_assoc] at hs
      obtain ⟨hkey, -⟩ := append_singleton_inj hs
      cases s' with
      | nil => cases hne (hkey.trans (append_nil _))
      | cons c s' =>
        obtain ⟨⟨bytes, hbytes, -⟩, -⟩ := hreach
        have hnone := hsafe.range hranged (c :: s') (cons_ne_nil _ _) hhead (hkey ▸ hk)
        rw [← hkey, hbytes] at hnone
        cases hnone

theorem reads_clear (hreads : Reads K db m) {ranged : Bool} (hsafe : SafeClear K db key ranged) :
    Reads K (clearKey db key ranged) (Function.update m key none) := by
  intro k hk
  by_cases heq : k = key
  · subst heq
    rw [update_self]
    unfold readChunkedValue
    rw [clearKey_self]
    rfl
  · rw [update_of_ne heq, read_other_of_clear hsafe hk heq]
    exact hreads k hk

/-! ## Transactions -/

theorem reads_merge (hreads : Reads K db m) (hkey : key ∈ K)
    {fnc}
    (hsafe : ∀ read, readChunkedValue db key = some read →
      match fnc read.bytes with
      | some (.update value) => Accepted value → SafeSet K db key value
      | some .delete => SafeClear K db key read.isChunked
      | _ => True) :
    Option.Rel (Reads K) (mergeValue db key fnc)
      (match fnc (m key) with
        | none => none
        | some (.update value) => plainSet m key value
        | some .skip => some m
        | some .delete => some (Function.update m key none)) := by
  obtain ⟨read, hread, hbytes⟩ := Option.map_eq_some_iff.1 (hreads key hkey)
  have hsafe := hsafe read hread
  unfold mergeValue
  rw [hread, ← hbytes]
  cases hmerge : fnc read.bytes with
  | none =>
    simp only [hmerge]
    exact .none
  | some result =>
    rw [hmerge] at hsafe
    cases result with
    | update value =>
      simp only [hmerge]
      exact reads_set hreads hsafe
    | skip =>
      simp only [hmerge]
      exact .some hreads
    | delete =>
      simp only [hmerge]
      exact .some (reads_clear hreads hsafe)

/-- **Step lemma**: an operation that meets the condition acts as on the plain map. -/
theorem write_refines (hreads : Reads K db m) {w : ValueWrite} (hsafe : SafeWrite K db w) :
    Option.Rel (Reads K) (writeValue db w) (plainWrite m w) := by
  unfold writeValue plainWrite
  cases hserialize : w.key.serialize with
  | none => exact .none
  | some key =>
    obtain ⟨hkey, hsafe⟩ := hsafe key hserialize
    cases hop : w.op with
    | set value =>
      rw [hop] at hsafe
      exact reads_set hreads hsafe
    | mergeFnc fnc =>
      rw [hop] at hsafe
      exact reads_merge hreads hkey hsafe
    | clear =>
      rw [hop] at hsafe
      exact .some (reads_clear hreads hsafe)

/-- The condition on a transaction. -/
def SafeTransaction (K : Set Bytes) (db : Database) (writes : List ValueWrite) : Prop :=
  Runs.Along writeValue (SafeWrite K) db writes

theorem commit_refines (hreads : Reads K db m) {writes}
    (hsafe : SafeTransaction K db writes) : Reads K (commit db writes) (plainCommit m writes) := by
  have hstep : ∀ db m w, Reads K db m → SafeWrite K db w →
      Option.Rel (Reads K) (writeValue db w) (plainWrite m w) :=
    fun _ _ _ hreads hsafe => write_refines hreads hsafe
  have hrel := Runs.exec_rel hstep hreads hsafe
  unfold commit plainCommit
  generalize Runs.exec writeValue db writes = written at hrel ⊢
  generalize Runs.exec plainWrite m writes = plain at hrel ⊢
  cases hrel with
  | none => exact hreads
  | some hreads' => exact hreads'

theorem foldl_commit_refines (hreads : Reads K db m) {transactions}
    (hsafe : Runs.Along (fun db writes => some (commit db writes)) (SafeTransaction K) db
      transactions) :
    Reads K (transactions.foldl commit db) (transactions.foldl plainCommit m) := by
  induction transactions generalizing db m with
  | nil => exact hreads
  | cons writes transactions ih => exact ih (commit_refines hreads hsafe.1) (hsafe.2 _ rfl)

/-- **Chunked values refine a plain map**: in every run of transactions from an empty database whose
operations meet the condition, every key in use reads as last written, or as absent. -/
theorem transactions_refine (transactions : List (List ValueWrite))
    (hsafe : Runs.Along (fun db writes => some (commit db writes)) (SafeTransaction K)
      Database.empty transactions) :
    ∀ k ∈ K, (readChunkedValue (transactions.foldl commit Database.empty) k).map
        ChunkedValue.bytes =
      some (transactions.foldl plainCommit (fun _ => none) k) :=
  foldl_commit_refines (fun _ _ => rfl) hsafe

end Refinement

/-! ## Values that are kept apart, and values that are not -/

namespace Sample

open List Function

def key : ValueKey := ⟨0, 0, 0, .property 0⟩

def keyBytes : Bytes := [112, 0, 0, 0, 0, 0, 0, 0, 0, 0, 0]

theorem key_serialize : key.serialize = some keyBytes := rfl

def inMemory (name : Bytes) : ValueKey := ⟨0, 0, 0, .inMemory (.key name)⟩

theorem not_mem_append {s : Bytes} (hs : s ≠ []) : keyBytes ++ s ∉ ({keyBytes} : Set Bytes) := by
  intro h
  have hlength := congrArg length (Set.mem_singleton_iff.1 h)
  rw [length_append] at hlength
  have hpos := length_pos_of_ne_nil hs
  omega

theorem notReached (db : Database) : NotReached {keyBytes} db keyBytes := by
  intro k hk i _ heq
  rw [Set.mem_singleton_iff.1 hk] at heq
  cases append_singleton_ne keyBytes _ heq.symm

theorem safeSet {db : Database} {value : Bytes}
    (hstop : MAX_VALUE_SIZE ≤ value.length →
      db (keyBytes ++ [UInt8.ofNat (parts value - 1)]) = none) :
    SafeSet {keyBytes} db keyBytes value :=
  ⟨hstop, fun _ _ => not_mem_append (cons_ne_nil _ _), notReached db⟩

theorem safeClear (db : Database) (ranged : Bool) : SafeClear {keyBytes} db keyBytes ranged :=
  ⟨fun _ => notReached db, fun _ _ hs _ hmem => absurd hmem (not_mem_append hs)⟩

end Sample

open Sample in
/-- A value in two chunks is cleared before a short one is written. -/
theorem transactions_refine_cleared :
    (readChunkedValue
        ([[⟨key, .set (replicate 100001 1)⟩], [⟨key, .clear⟩], [⟨key, .set [1, 2]⟩]].foldl
          commit Database.empty) keyBytes).map ChunkedValue.bytes =
      some ([[⟨key, .set (replicate 100001 1)⟩], [⟨key, .clear⟩],
        [⟨key, .set [1, 2]⟩]].foldl plainCommit (fun _ => none) keyBytes) := by
  have hsingle {db : Database} {op : KvOp}
      (hop : match op with
        | .set value => SafeSet {keyBytes} db keyBytes value
        | .clear => True
        | .mergeFnc _ => False) : SafeTransaction {keyBytes} db [⟨key, op⟩] := by
    refine ⟨fun k hk => ?_, fun _ _ => trivial⟩
    rw [key_serialize] at hk
    cases hk
    refine ⟨Set.mem_singleton _, ?_⟩
    cases op with
    | set value => exact fun _ => hop
    | clear => exact safeClear db _
    | mergeFnc fnc => exact hop.elim
  refine transactions_refine [[⟨key, .set (replicate 100001 1)⟩], [⟨key, .clear⟩],
    [⟨key, .set [1, 2]⟩]] (.cons (hsingle (safeSet fun _ => rfl)) rfl
    (.cons (hsingle trivial) rfl (.cons (hsingle (safeSet fun hlarge => ?_)) rfl trivial)))
    keyBytes (Set.mem_singleton keyBytes)
  exact absurd hlarge (by decide)

theorem commit_set {db db' : Database} {value : Bytes}
    (h : chunkValue db Sample.keyBytes value = some db') :
    commit db [⟨Sample.key, .set value⟩] = db' := by
  have hwrite : writeValue db ⟨Sample.key, .set value⟩ = some db' := by
    unfold writeValue
    rw [Sample.key_serialize]
    exact h
  unfold commit
  rw [Runs.exec_cons_of_some hwrite]
  rfl

theorem plainCommit_set {m : PlainMap} {value : Bytes} (h : Accepted value) :
    plainCommit m [⟨Sample.key, .set value⟩] =
      Function.update m Sample.keyBytes (some value) := by
  have hwrite : plainWrite m ⟨Sample.key, .set value⟩ =
      some (Function.update m Sample.keyBytes (some value)) := by
    unfold plainWrite
    rw [Sample.key_serialize]
    exact if_pos h
  unfold plainCommit
  rw [Runs.exec_cons_of_some hwrite]
  rfl

/-- A value one byte longer than a chunk, overwritten by one that fills a chunk: the last byte
stays. -/
theorem read_overwritten {a b : Bytes} (ha : a.length = MAX_VALUE_SIZE + 1)
    (hb : b.length = MAX_VALUE_SIZE) :
    (readChunkedValue
        ([[⟨Sample.key, .set a⟩], [⟨Sample.key, .set b⟩]].foldl commit Database.empty)
        Sample.keyBytes).map ChunkedValue.bytes = some (some (b ++ chunk a 1)) := by
  have hcountA : chunkCount a = 2 := by
    unfold chunkCount
    rw [ha]
    rfl
  have hcountB : chunkCount b = 1 := by
    unfold chunkCount
    rw [hb]
    rfl
  have hpartsA : parts a = 2 := by
    unfold parts
    omega
  have hpartsB : parts b = 1 := by
    unfold parts
    omega
  obtain ⟨db₁, hwrite₁, hspread₁⟩ := chunkValue_spec Database.empty Sample.keyBytes
    (by omega : chunkCount a ≤ 255)
  obtain ⟨db₂, hwrite₂, hspread₂⟩ := chunkValue_spec db₁ Sample.keyBytes
    (by omega : chunkCount b ≤ 255)
  rw [foldl_cons, foldl_cons, foldl_nil, commit_set hwrite₁, commit_set hwrite₂]
  have hkeep (i : ℕ) : db₂ (Sample.keyBytes ++ [UInt8.ofNat i]) =
      db₁ (Sample.keyBytes ++ [UInt8.ofNat i]) :=
    hspread₂.other _ (append_singleton_ne _ _) fun j hj => absurd hj (by omega)
  have hchunk : chunk b 0 = b := by
    unfold chunk
    rw [Nat.zero_mul, drop_zero, take_of_length_le (by omega)]
  have hfirst : db₂ Sample.keyBytes = some b := by
    rw [hspread₂.first, hchunk]
  have hstale : db₂ (Sample.keyBytes ++ [UInt8.ofNat (0 + 0)]) = some (chunk a 1) := by
    rw [hkeep]
    exact hspread₁.chunks 0 (by omega)
  have hstop : db₂ (Sample.keyBytes ++ [UInt8.ofNat (0 + 1)]) = none := by
    rw [hkeep]
    refine hspread₁.other _ (append_singleton_ne _ _) fun i hi heq => ?_
    have hbyte := ofNat_inj (by omega) (by omega) (append_singleton_inj heq).2
    omega
  have hread : appendChunks db₂ Sample.keyBytes b 256 0 = some (b ++ chunk a 1) := by
    have happend := appendChunks_eq (c := fun _ => chunk a 1) 1 b (by omega : 1 < 256)
      (fun j hj => by
        obtain rfl : j = 0 := by omega
        exact hstale) hstop
    rw [happend]
    simp
  unfold readChunkedValue
  have hlarge : ¬ b.length < MAX_VALUE_SIZE := by omega
  simp only [hfirst, hlarge, hread]
  rfl

theorem overwritten_differs {a b : Bytes} (ha : a.length = MAX_VALUE_SIZE + 1)
    (hb : b.length = MAX_VALUE_SIZE) :
    (readChunkedValue
        ([[⟨Sample.key, .set a⟩], [⟨Sample.key, .set b⟩]].foldl commit Database.empty)
        Sample.keyBytes).map ChunkedValue.bytes ≠
      some ([[⟨Sample.key, .set a⟩], [⟨Sample.key, .set b⟩]].foldl plainCommit (fun _ => none)
        Sample.keyBytes) := by
  have hacceptedA : Accepted a := by
    unfold Accepted chunkCount
    rw [ha]
    decide
  have hacceptedB : Accepted b := by
    unfold Accepted chunkCount
    rw [hb]
    decide
  rw [read_overwritten ha hb, foldl_cons, foldl_cons, foldl_nil, plainCommit_set hacceptedA,
    plainCommit_set hacceptedB]
  intro heq
  have hlength := congrArg length (Option.some_inj.1 (Option.some_inj.1 heq))
  unfold chunk at hlength
  simp only [length_append, length_take, length_drop, ha] at hlength
  unfold MAX_VALUE_SIZE at hlength
  omega

/-- **Neither overwriting nor clearing acts as on a plain map**: a value that fills a chunk exactly
keeps the second chunk of what it replaces, and clearing an in-memory key clears one that it is a
prefix of. -/
theorem shorter_value_keeps_chunk :
    (readChunkedValue
        ([[⟨Sample.key, .set (replicate 100001 1)⟩],
          [⟨Sample.key, .set (replicate 100000 1)⟩]].foldl commit Database.empty)
        Sample.keyBytes).map ChunkedValue.bytes ≠
      some ([[⟨Sample.key, .set (replicate 100001 1)⟩],
        [⟨Sample.key, .set (replicate 100000 1)⟩]].foldl plainCommit (fun _ => none)
          Sample.keyBytes) ∧
    (readChunkedValue
        ([[⟨Sample.inMemory [97, 98], .set [1]⟩], [⟨Sample.inMemory [97], .clear⟩]].foldl commit
          Database.empty) [109, 97, 98]).map ChunkedValue.bytes ≠
      some ([[⟨Sample.inMemory [97, 98], .set [1]⟩], [⟨Sample.inMemory [97], .clear⟩]].foldl
        plainCommit (fun _ => none) [109, 97, 98]) := by
  constructor
  · exact overwritten_differs length_replicate length_replicate
  · decide

end MailServer.Store
