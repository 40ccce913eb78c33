import MailServer.Store.Assert
import MailServer.Lib.Run

/-!
# Counters

A counter is changed by `AtomicAdd` and `AddAndGet` and removed by `Clear`.  Each backend does it in
its own way: SQLite with an upsert or, for a negative amount, with an update; RocksDB with a merge
operator that is applied when it likes; FoundationDB with its atomic addition of little-endian
integers.  What SQLite makes of integers that do not fit, and what it makes of real numbers, is a
parameter.

Principal results: `Exact`, `counters_agree_iff`; `correct_of_tracks` — an exact backend gives the
right value always.
-/

namespace MailServer.Store.Counters

open Function List
open Option (getD_none getD_some map_some)

variable {n : Option Int64}

inductive CounterOp where
  | atomicAdd (by_ : Int64)
  | addAndGet (by_ : Int64)
  | clear

/-! ## Little-endian integers -/

/-- `i64::to_le_bytes`. -/
def leI64 (n : Int64) : Bytes := (beU64 n.toUInt64).reverse

/-- `deserialize_i64_le`; anything but eight bytes is a corrupted key. -/
def deserializeI64Le (bytes : Bytes) : Option Int64 :=
  (deserializeU64 bytes.reverse).map UInt64.toInt64

/-- The number that bytes in little-endian order stand for. -/
def leNat (bytes : Bytes) : ℕ := beNat bytes.reverse

/-- The last bytes of a number, in little-endian order. -/
def leBytes : ℕ → ℕ → Bytes
  | 0, _ => []
  | length + 1, n => UInt8.ofNat n :: leBytes length (n / 256)

@[simp] theorem deserializeI64Le_leI64 (n : Int64) : deserializeI64Le (leI64 n) = some n := by
  unfold deserializeI64Le leI64
  rw [reverse_reverse, deserializeU64_beU64]
  rfl

theorem length_leI64 (n : Int64) : (leI64 n).length = U64_LEN := rfl

theorem leNat_leI64 (n : Int64) : leNat (leI64 n) = n.toUInt64.toNat := by
  unfold leNat leI64
  rw [reverse_reverse, beNat_beU64]

theorem leBytes_eight (n : ℕ) : leBytes 8 n = leI64 (UInt64.ofNat n).toInt64 := by
  unfold leI64
  rw [UInt64.toUInt64_toInt64]
  simp only [leBytes, beU64, reverse_cons, reverse_nil, nil_append, cons_append,
    List.cons.injEq, and_true]
  refine ⟨?_, ?_, ?_, ?_, ?_, ?_, ?_, ?_⟩ <;>
    refine UInt8.toNat_inj.1 ?_ <;>
    simp <;> omega

/-! ## Backends -/

/-- What a backend does with one counter; a result that cannot be given is an error. -/
structure Backend (Cell : Type) where
  empty : Cell
  atomicAdd : Cell → Int64 → Cell
  addAndGet : Cell → Int64 → Cell × Option Int64
  read : Cell → Option Int64

/-- The sum is a 64-bit integer. -/
def Fits (a b : Int64) : Prop :=
  -2 ^ 63 ≤ a.toInt + b.toInt ∧ a.toInt + b.toInt < 2 ^ 63

instance (a b : Int64) : Decidable (Fits a b) := inferInstanceAs (Decidable (_ ∧ _))

/-- A number in SQLite. -/
inductive SqlValue (Real : Type) where
  | integer (n : Int64)
  | real (r : Real)

/-- The arithmetic of SQLite beyond 64-bit integers. -/
structure SqlArithmetic (Real : Type) where
  overflow : Int64 → Int64 → Real
  addReal : Real → Int64 → SqlValue Real

section Sqlite

variable {Real : Type} (arithmetic : SqlArithmetic Real)

def SqlArithmetic.add : SqlValue Real → Int64 → SqlValue Real
  | .integer n, by_ => if Fits n by_ then .integer (n + by_) else .real (arithmetic.overflow n by_)
  | .real r, by_ => arithmetic.addReal r by_

/-- `row.get::<_, i64>(0)`. -/
def SqlValue.get : SqlValue Real → Option Int64
  | .integer n => some n
  | .real _ => none

/-- `INSERT INTO .. ON CONFLICT(k) DO UPDATE SET v = v + excluded.v`. -/
def upsert (v : Option (SqlValue Real)) (by_ : Int64) : SqlValue Real :=
  match v with
  | some v => arithmetic.add v by_
  | none => .integer by_

/-- `sqlite/write.rs`; a transaction that fails changes nothing. -/
def sqlite : Backend (Option (SqlValue Real)) where
  empty := none
  atomicAdd v by_ :=
    if by_ ≥ 0 then some (upsert arithmetic v by_)
    else v.map fun v => arithmetic.add v by_
  addAndGet v by_ :=
    match (upsert arithmetic v by_).get with
    | some n => (some (upsert arithmetic v by_), some n)
    | none => (v, none)
  read
    | some v => v.get
    | none => some 0

end Sqlite

/-- A value in RocksDB, with the merge operands that have been written on top of it. -/
structure RocksEntry where
  base : Option Bytes
  operands : List Bytes

/-- `numeric_value_merge`; `none` is a merge that fails. -/
def numericValueMerge (value : Option Bytes) (operands : List Bytes) : Option Bytes := do
  let value ← match value with
    | some value => deserializeI64Le value
    | none => some 0
  let value ← operands.foldlM (fun value op => (deserializeI64Le op).map (value + ·)) value
  some (leI64 value)

/-- What a lookup finds. -/
def RocksEntry.get (entry : RocksEntry) : Option (Option Bytes) :=
  if entry.operands = [] then some entry.base
  else (numericValueMerge entry.base entry.operands).map some

/-- All operands are merged into the value. -/
def RocksEntry.compact (entry : RocksEntry) : RocksEntry :=
  if entry.operands = [] then entry
  else
    match numericValueMerge entry.base entry.operands with
    | some value => ⟨some value, []⟩
    | none => entry

/-- Operands that stand next to each other are merged into one. -/
def RocksEntry.partialMerge (place count : ℕ) (entry : RocksEntry) : RocksEntry :=
  if (entry.operands.drop place).take count = [] then entry
  else
    match numericValueMerge none ((entry.operands.drop place).take count) with
    | some merged =>
      { entry with
        operands := entry.operands.take place ++ merged :: (entry.operands.drop place).drop count }
    | none => entry

/-- `rocksdb/write.rs`. -/
def rocksDb : Backend RocksEntry where
  empty := ⟨none, []⟩
  atomicAdd entry by_ := { entry with operands := entry.operands ++ [leI64 by_] }
  addAndGet entry by_ :=
    match entry.get with
    | some (some bytes) =>
      match deserializeI64Le bytes with
      | some v => (⟨some (leI64 (v + by_)), []⟩, some (v + by_))
      | none => (entry, none)
    | some none => (⟨some (leI64 by_), []⟩, some by_)
    | none => (entry, none)
  read entry :=
    match entry.get with
    | some (some bytes) => deserializeI64Le bytes
    | some none => some 0
    | none => none

/-- `MutationType::Add`: the value is cut or extended to the length of the operand, and the sum of
both is cut to it. -/
def mutationAdd (value : Option Bytes) (operand : Bytes) : Bytes :=
  leBytes operand.length (leNat ((value.getD []).take operand.length) + leNat operand)

/-- `foundationdb/write.rs`. -/
def foundationDb : Backend (Option Bytes) where
  empty := none
  atomicAdd value by_ := some (mutationAdd value (leI64 by_))
  addAndGet value by_ :=
    match value with
    | some bytes =>
      match deserializeI64Le bytes with
      | some v => (some (leI64 (v + by_)), some (v + by_))
      | none => (value, none)
    | none => (some (leI64 by_), some by_)
  read
    | some bytes => deserializeI64Le bytes
    | none => some 0

/-! ## Exact backends -/

/-- A backend does with a counter what is to be done; `R` says which cells stand for a counter, and
for none. -/
structure Exact {Cell : Type} (b : Backend Cell) (R : Cell → Option Int64 → Prop) : Prop where
  empty : R b.empty none
  atomicAdd : ∀ cell n by_, R cell n → R (b.atomicAdd cell by_) (some (n.getD 0 + by_))
  addAndGet : ∀ cell n by_, R cell n → R (b.addAndGet cell by_).1 (some (n.getD 0 + by_)) ∧
    (b.addAndGet cell by_).2 = some (n.getD 0 + by_)
  read : ∀ cell n, R cell n → b.read cell = some (n.getD 0)

theorem mutationAdd_leI64 (n : Option Int64) (by_ : Int64) :
    mutationAdd (n.map leI64) (leI64 by_) = leI64 (n.getD 0 + by_) := by
  have hvalue : leNat (((n.map leI64).getD []).take (leI64 by_).length) =
      (n.getD 0).toUInt64.toNat := by
    cases n with
    | none => rfl
    | some n =>
      rw [map_some, getD_some, getD_some, length_leI64, ← length_leI64 n,
        take_length, leNat_leI64]
  unfold mutationAdd
  rw [hvalue, leNat_leI64]
  change leBytes 8 _ = _
  rw [leBytes_eight]
  refine congrArg leI64 ?_
  have hsum : UInt64.ofNat ((n.getD 0).toUInt64.toNat + by_.toUInt64.toNat) =
      (n.getD 0 + by_).toUInt64 := by
    rw [Int64.toUInt64_add]
    refine UInt64.toNat_inj.1 ?_
    rw [UInt64.toNat_add, UInt64.toNat_ofNat']
  rw [hsum, Int64.toInt64_toUInt64]

theorem exact_foundationDb : Exact foundationDb fun cell n => cell = n.map leI64 where
  empty := rfl
  atomicAdd cell n by_ h := by
    subst h
    exact congrArg some (mutationAdd_leI64 n by_)
  addAndGet cell n by_ h := by
    subst h
    cases n with
    | none =>
      rw [getD_none, Int64.zero_add]
      exact ⟨rfl, rfl⟩
    | some n =>
      simp only [foundationDb, map_some, deserializeI64Le_leI64, getD_some]
      exact ⟨trivial, trivial⟩
  read cell n h := by
    subst h
    cases n with
    | none => rfl
    | some n => exact deserializeI64Le_leI64 n

/-- The entry has a value and operands that are integers, and they add up to the counter. -/
def Merges (entry : RocksEntry) (n : Option Int64) : Prop :=
  ∃ (base : Option Int64) (operands : List Int64),
    entry = ⟨base.map leI64, operands.map leI64⟩ ∧
      n = if operands = [] then base else some (operands.foldl (· + ·) (base.getD 0))

theorem numericValueMerge_leI64 (base : Option Int64) (operands : List Int64) :
    numericValueMerge (base.map leI64) (operands.map leI64) =
      some (leI64 (operands.foldl (· + ·) (base.getD 0))) := by
  have hfold : ∀ n, (operands.map leI64).foldlM
      (fun value op => (deserializeI64Le op).map (value + ·)) n =
        some (operands.foldl (· + ·) n) := by
    induction operands with
    | nil => exact fun n => rfl
    | cons op operands ih =>
      intro n
      rw [map_cons, foldlM_cons, deserializeI64Le_leI64]
      exact ih (n + op)
  unfold numericValueMerge
  cases base with
  | none | some => simp [hfold]

theorem get_of_merges {entry : RocksEntry} (h : Merges entry n) :
    entry.get = some (n.map leI64) := by
  obtain ⟨base, operands, rfl, rfl⟩ := h
  unfold RocksEntry.get
  dsimp only
  by_cases hnil : operands = []
  · subst hnil
    rw [map_nil, if_pos rfl, if_pos rfl]
  · rw [if_neg (by simpa using hnil), if_neg hnil, numericValueMerge_leI64]
    rfl

theorem merges_put (n : Int64) : Merges ⟨some (leI64 n), []⟩ (some n) := ⟨some n, [], rfl, rfl⟩

theorem exact_rocksDb : Exact rocksDb Merges where
  empty := ⟨none, [], rfl, rfl⟩
  atomicAdd entry n by_ h := by
    obtain ⟨base, operands, rfl, rfl⟩ := h
    refine ⟨base, operands ++ [by_], ?_, ?_⟩
    · rw [map_append]
      rfl
    · have hne : operands ++ [by_] ≠ [] := append_ne_nil_of_right_ne_nil _ (by simp)
      rw [if_neg hne, foldl_append]
      by_cases hnil : operands = []
      · subst hnil
        rfl
      · rw [if_neg hnil]
        rfl
  addAndGet entry n by_ h := by
    have hget := get_of_merges h
    unfold rocksDb
    dsimp only
    rw [hget]
    cases n with
    | none =>
      rw [getD_none, Int64.zero_add]
      exact ⟨merges_put by_, rfl⟩
    | some n =>
      simp only [map_some, deserializeI64Le_leI64, getD_some]
      exact ⟨merges_put (n + by_), trivial⟩
  read entry n h := by
    have hget := get_of_merges h
    unfold rocksDb
    dsimp only
    rw [hget]
    cases n with
    | none => rfl
    | some n => exact deserializeI64Le_leI64 n

theorem merges_compact {entry : RocksEntry} (h : Merges entry n) :
    Merges entry.compact n := by
  obtain ⟨base, operands, rfl, rfl⟩ := h
  unfold RocksEntry.compact
  dsimp only
  by_cases hnil : operands = []
  · subst hnil
    exact ⟨base, [], rfl, rfl⟩
  · rw [if_neg (by simpa using hnil), numericValueMerge_leI64, if_neg hnil]
    exact merges_put _

theorem foldl_add (operands : List Int64) (n m : Int64) :
    operands.foldl (· + ·) (n + m) = n + operands.foldl (· + ·) m := by
  induction operands generalizing m with
  | nil => rfl
  | cons op operands ih =>
    rw [foldl_cons, Int64.add_assoc]
    exact ih (m + op)

theorem merges_partialMerge {entry : RocksEntry} (h : Merges entry n)
    (place count : ℕ) : Merges (entry.partialMerge place count) n := by
  obtain ⟨base, operands, rfl, rfl⟩ := h
  unfold RocksEntry.partialMerge
  dsimp only
  rw [← map_drop, ← map_take, ← map_take, ← map_drop]
  generalize hbefore : operands.take place = before
  generalize hchosen : (operands.drop place).take count = chosen
  generalize hafter : (operands.drop place).drop count = after
  have hoperands : operands = before ++ (chosen ++ after) := by
    rw [← hbefore, ← hchosen, ← hafter, take_append_drop, take_append_drop]
  by_cases hnil : chosen = []
  · rw [if_pos (by rw [hnil, map_nil])]
    exact ⟨base, operands, rfl, rfl⟩
  · have hmerge : numericValueMerge none (chosen.map leI64) =
        some (leI64 (chosen.foldl (· + ·) 0)) := numericValueMerge_leI64 none chosen
    rw [if_neg (fun h => hnil (map_eq_nil_iff.1 h)), hmerge]
    refine ⟨base, before ++ chosen.foldl (· + ·) 0 :: after, ?_, ?_⟩
    · rw [map_append, map_cons]
    · have hne : operands ≠ [] := by
        intro h
        rw [hoperands] at h
        exact hnil (append_eq_nil_iff.1 (append_eq_nil_iff.1 h).2).1
      have hne' : before ++ chosen.foldl (· + ·) 0 :: after ≠ [] :=
        append_ne_nil_of_right_ne_nil _ (by simp)
      rw [if_neg hne, if_neg hne', hoperands, foldl_append, foldl_append,
        foldl_append, foldl_cons, ← foldl_add, Int64.add_zero]

/-! ## What counters are worth -/

/-- The amounts that count after an operation. -/
def CounterOp.amounts (before : List Int64) : CounterOp → List Int64
  | .atomicAdd by_ => before ++ [by_]
  | .addAndGet by_ => before ++ [by_]
  | .clear => []

/-- The amounts applied to a key since it was last cleared. -/
def amounts (history : List (Bytes × CounterOp)) (key : Bytes) : List Int64 :=
  history.foldl (fun before e => if e.1 = key then e.2.amounts before else before) []

/-- Their wrapping sum. -/
def expected (history : List (Bytes × CounterOp)) (key : Bytes) : Int64 :=
  (amounts history key).foldl (· + ·) 0

/-- Whether there is a counter at all, and its value. -/
def counter (history : List (Bytes × CounterOp)) (key : Bytes) : Option Int64 :=
  if amounts history key = [] then none else some (expected history key)

def CounterOp.apply (n : Option Int64) : CounterOp → Option Int64
  | .atomicAdd by_ => some (n.getD 0 + by_)
  | .addAndGet by_ => some (n.getD 0 + by_)
  | .clear => none

variable {history : List (Bytes × CounterOp)} {key : Bytes} {op : CounterOp}

theorem amounts_append {key' : Bytes} : amounts (history ++ [(key, op)]) key' =
    if key = key' then op.amounts (amounts history key') else amounts history key' := by
  unfold amounts
  rw [foldl_append]
  rfl

theorem getD_counter : (counter history key).getD 0 = expected history key := by
  unfold counter
  by_cases h : amounts history key = []
  · unfold expected
    rw [h]
    rfl
  · rw [if_neg h]
    rfl

theorem counter_append_of_ne {key' : Bytes} (h : key' ≠ key) :
    counter (history ++ [(key, op)]) key' = counter history key' := by
  unfold counter expected
  rw [amounts_append, if_neg (Ne.symm h)]

theorem counter_append : counter (history ++ [(key, op)]) key =
    op.apply (counter history key) := by
  have hadd : ∀ by_, op.amounts (amounts history key) = amounts history key ++ [by_] →
      counter (history ++ [(key, op)]) key = some ((counter history key).getD 0 + by_) := by
    intro by_ hop
    have hne : amounts history key ++ [by_] ≠ [] :=
      append_ne_nil_of_right_ne_nil _ (by simp)
    rw [getD_counter]
    unfold counter expected
    rw [amounts_append, if_pos rfl, hop, if_neg hne, foldl_append]
    rfl
  cases op with
  | atomicAdd by_ | addAndGet by_ => exact hadd by_ rfl
  | clear =>
    unfold counter
    rw [amounts_append, if_pos rfl]
    rfl

/-! ## Runs -/

/-- The cell after an operation, and what the operation returns. -/
def Backend.apply {Cell : Type} (b : Backend Cell) (cell : Cell) :
    CounterOp → Cell × Option (Option Int64)
  | .atomicAdd by_ => (b.atomicAdd cell by_, none)
  | .addAndGet by_ => ((b.addAndGet cell by_).1, some (b.addAndGet cell by_).2)
  | .clear => (b.empty, none)

/-- All operations on all keys so far, and the three stores. -/
structure State (Real : Type) where
  history : List (Bytes × CounterOp)
  sqlite : Bytes → Option (SqlValue Real)
  rocksDb : Bytes → RocksEntry
  foundationDb : Bytes → Option Bytes

inductive Event where
  | op (key : Bytes) (op : CounterOp)
  | compact (key : Bytes)
  | partialMerge (key : Bytes) (place count : ℕ)

variable {event : Event}

def start (Real : Type) : State Real where
  history := []
  sqlite _ := none
  rocksDb _ := rocksDb.empty
  foundationDb _ := none

section Events

variable {Real : Type} (arithmetic : SqlArithmetic Real)

def next (s : State Real) : Event → State Real
  | .op key op =>
    { history := s.history ++ [(key, op)]
      sqlite := update s.sqlite key ((sqlite arithmetic).apply (s.sqlite key) op).1
      rocksDb := update s.rocksDb key (rocksDb.apply (s.rocksDb key) op).1
      foundationDb := update s.foundationDb key (foundationDb.apply (s.foundationDb key) op).1 }
  | .compact key => { s with rocksDb := update s.rocksDb key (s.rocksDb key).compact }
  | .partialMerge key place count =>
    { s with rocksDb := update s.rocksDb key ((s.rocksDb key).partialMerge place count) }

def step (s : State Real) (event : Event) : Option (State Real) :=
  some (next arithmetic s event)

/-- What an operation is to return. -/
def CounterOp.output (value : Int64) : CounterOp → Option (Option Int64)
  | .atomicAdd _ => none
  | .addAndGet _ => some (some value)
  | .clear => none

/-- The backend returns the right value, and every later read finds the right value. -/
def Backend.Correct {Cell : Type} (b : Backend Cell) (cells : State Real → Bytes → Cell)
    (s : State Real) (event : Event) : Prop :=
  (∀ key op, event = .op key op → (b.apply (cells s key) op).2 =
    op.output (expected (s.history ++ [(key, op)]) key)) ∧
  ∀ key, b.read (cells (next arithmetic s event) key) =
    some (expected (next arithmetic s event).history key)

/-- All three backends give the right values. -/
def Agree (s : State Real) (event : Event) : Prop :=
  (sqlite arithmetic).Correct arithmetic State.sqlite s event ∧
    rocksDb.Correct arithmetic State.rocksDb s event ∧
    foundationDb.Correct arithmetic State.foundationDb s event

/-- A negative `AtomicAdd` finds a counter, and no sum leaves the 64-bit range. -/
def Steady (s : State Real) : Event → Prop
  | .op key (.atomicAdd by_) =>
    (0 ≤ by_ ∨ amounts s.history key ≠ []) ∧ Fits (expected s.history key) by_
  | .op key (.addAndGet by_) => Fits (expected s.history key) by_
  | _ => True

/-! ## Exact backends are correct -/

section Cells

variable {Cell : Type} {b : Backend Cell} {R : Cell → Option Int64 → Prop}
  {cells : State Real → Bytes → Cell} {s : State Real}

theorem Exact.apply (h : Exact b R) {cell : Cell} (hcell : R cell n)
    (op : CounterOp) : R (b.apply cell op).1 (op.apply n) ∧
      (b.apply cell op).2 = op.output ((op.apply n).getD 0) := by
  cases op with
  | atomicAdd by_ => exact ⟨h.atomicAdd cell n by_ hcell, rfl⟩
  | addAndGet by_ =>
    have hstep := h.addAndGet cell n by_ hcell
    refine ⟨hstep.1, ?_⟩
    change some (b.addAndGet cell by_).2 = _
    rw [hstep.2]
    rfl
  | clear => exact ⟨h.empty, rfl⟩

/-- The cells of one backend stand for the counters. -/
def Tracks (R : Cell → Option Int64 → Prop) (cells : State Real → Bytes → Cell)
    (s : State Real) : Prop :=
  ∀ key, R (cells s key) (counter s.history key)

variable {arithmetic}

theorem tracks_update {key : Bytes} {op : CounterOp} {cell : Cell}
    (hcells : cells (next arithmetic s (.op key op)) = update (cells s) key cell)
    (hcell : R cell (op.apply (counter s.history key))) (htracks : Tracks R cells s) :
    Tracks R cells (next arithmetic s (.op key op)) := by
  intro key'
  rw [hcells]
  by_cases hkey : key' = key
  · subst hkey
    rw [update_self]
    change R cell (counter (s.history ++ [(key', op)]) key')
    rw [counter_append]
    exact hcell
  · rw [update_of_ne hkey]
    change R _ (counter (s.history ++ [(key, op)]) key')
    rw [counter_append_of_ne hkey]
    exact htracks key'

theorem correct_of_tracks (h : Exact b R)
    (htracks : Tracks R cells s) (htracks' : Tracks R cells (next arithmetic s event)) :
    b.Correct arithmetic cells s event := by
  refine ⟨fun key op hevent => ?_, fun key => ?_⟩
  · rw [(h.apply (htracks key) op).2, ← counter_append, getD_counter]
  · rw [h.read _ _ (htracks' key), getD_counter]

theorem tracks_foundationDb (htracks : Tracks (fun cell n => cell = n.map leI64)
    State.foundationDb s) (event : Event) :
    Tracks (fun cell n => cell = n.map leI64) State.foundationDb (next arithmetic s event) := by
  cases event with
  | op key op =>
    exact tracks_update rfl (exact_foundationDb.apply (htracks key) op).1 htracks
  | compact | partialMerge => exact htracks

theorem tracks_rocksDb (htracks : Tracks Merges State.rocksDb s) (event : Event) :
    Tracks Merges State.rocksDb (next arithmetic s event) := by
  cases event with
  | op key op => exact tracks_update rfl (exact_rocksDb.apply (htracks key) op).1 htracks
  | compact key =>
    intro key'
    change Merges (update s.rocksDb key (s.rocksDb key).compact key') _
    by_cases hkey : key' = key
    · subst hkey
      rw [update_self]
      exact merges_compact (htracks key')
    · rw [update_of_ne hkey]
      exact htracks key'
  | partialMerge key place count =>
    intro key'
    change Merges (update s.rocksDb key ((s.rocksDb key).partialMerge place count) key') _
    by_cases hkey : key' = key
    · subst hkey
      rw [update_self]
      exact merges_partialMerge (htracks key') place count
    · rw [update_of_ne hkey]
      exact htracks key'

end Cells

/-! ## SQLite -/

/-- The column holds the counter. -/
def Holds (cell : Option (SqlValue Real)) (n : Option Int64) : Prop := cell = n.map .integer

variable {arithmetic} {s : State Real}

theorem upsert_integer {by_ : Int64} (hfits : Fits (n.getD 0) by_) :
    upsert arithmetic (n.map .integer) by_ = .integer (n.getD 0 + by_) := by
  cases n with
  | none =>
    rw [getD_none, Int64.zero_add]
    rfl
  | some n => exact if_pos hfits

theorem sqlite_apply {key : Bytes} {op : CounterOp} (htracks : Tracks Holds State.sqlite s)
    (hsteady : Steady s (.op key op)) :
    Holds ((sqlite arithmetic).apply (s.sqlite key) op).1 (op.apply (counter s.history key)) ∧
      ((sqlite arithmetic).apply (s.sqlite key) op).2 =
        op.output ((op.apply (counter s.history key)).getD 0) := by
  have hcell : s.sqlite key = (counter s.history key).map .integer := htracks key
  rw [hcell]
  cases op with
  | atomicAdd by_ =>
    obtain ⟨hsign, hfits⟩ := hsteady
    rw [← getD_counter] at hfits
    refine ⟨?_, rfl⟩
    change (if by_ ≥ 0 then some (upsert arithmetic _ by_) else _) = _
    by_cases hby : by_ ≥ 0
    · rw [if_pos hby, upsert_integer hfits]
      rfl
    · rw [if_neg hby]
      have hsome : counter s.history key = some (expected s.history key) :=
        if_neg (hsign.resolve_left hby)
      rw [hsome] at hfits ⊢
      exact congrArg some (if_pos hfits)
  | addAndGet by_ =>
    have hfits : Fits (expected s.history key) by_ := hsteady
    rw [← getD_counter] at hfits
    unfold Backend.apply sqlite
    dsimp only
    rw [upsert_integer hfits]
    exact ⟨rfl, rfl⟩
  | clear => exact ⟨rfl, rfl⟩

theorem sqlite_read :
    (sqlite arithmetic).read (n.map .integer) = some (n.getD 0) := by
  cases n with
  | none | some => rfl

theorem tracks_sqlite (htracks : Tracks Holds State.sqlite s)
    (hsteady : Steady s event) : Tracks Holds State.sqlite (next arithmetic s event) := by
  cases event with
  | op key op => exact tracks_update rfl (sqlite_apply htracks hsteady).1 htracks
  | compact | partialMerge => exact htracks

theorem correct_sqlite (htracks : Tracks Holds State.sqlite s)
    (hsteady : Steady s event) : (sqlite arithmetic).Correct arithmetic State.sqlite s event := by
  refine ⟨fun key op hevent => ?_, fun key => ?_⟩
  · subst hevent
    rw [(sqlite_apply htracks hsteady).2, ← counter_append, getD_counter]
  · rw [tracks_sqlite htracks hsteady key, sqlite_read, getD_counter]

theorem sqlite_next_atomicAdd {key : Bytes} {by_ : Int64} (htracks : Tracks Holds State.sqlite s) :
    (next arithmetic s (.op key (.atomicAdd by_))).sqlite key =
      if by_ ≥ 0 then some (upsert arithmetic ((counter s.history key).map .integer) by_)
      else ((counter s.history key).map .integer).map fun v => arithmetic.add v by_ := by
  have hcell : s.sqlite key = (counter s.history key).map .integer := htracks key
  rw [← hcell]
  exact update_self _ _ _

theorem fits_zero (by_ : Int64) : Fits 0 by_ := by
  have hlow := Int64.le_toInt by_
  have hhigh := Int64.toInt_lt by_
  constructor
  · simpa using hlow
  · simpa using hhigh

theorem get_upsert_of_not_fits {by_ : Int64} (hfits : ¬ Fits ((counter s.history key).getD 0) by_) :
    (upsert arithmetic ((counter s.history key).map .integer) by_).get = none := by
  cases hcounter : counter s.history key with
  | none =>
    rw [hcounter] at hfits
    cases hfits (fits_zero by_)
  | some n =>
    rw [hcounter, getD_some] at hfits
    change (if Fits n by_ then _ else _ : SqlValue Real).get = none
    rw [if_neg hfits]
    rfl

theorem steady_of_correct (htracks : Tracks Holds State.sqlite s)
    (hcorrect : (sqlite arithmetic).Correct arithmetic State.sqlite s event) : Steady s event := by
  obtain ⟨houtput, hread⟩ := hcorrect
  cases event with
  | compact | partialMerge => trivial
  | op key op =>
    have hkey := hread key
    cases op with
    | clear => trivial
    | addAndGet by_ =>
      by_contra hfits
      have hnone : (upsert arithmetic (s.sqlite key) by_).get = none := by
        have hcell : s.sqlite key = (counter s.history key).map .integer := htracks key
        rw [hcell]
        exact get_upsert_of_not_fits (by rwa [getD_counter])
      have hout := houtput key (.addAndGet by_) rfl
      unfold Backend.apply sqlite at hout
      dsimp only at hout
      rw [hnone] at hout
      cases hout
    | atomicAdd by_ =>
      rw [sqlite_next_atomicAdd htracks] at hkey
      have hsome : (expected (s.history ++ [(key, .atomicAdd by_)]) key) =
          (counter s.history key).getD 0 + by_ := by
        rw [← getD_counter, counter_append]
        rfl
      have hfits : Fits (expected s.history key) by_ := by
        by_contra hfits
        rw [← getD_counter] at hfits
        have hnone : (upsert arithmetic ((counter s.history key).map .integer) by_).get = none :=
          get_upsert_of_not_fits hfits
        by_cases hby : by_ ≥ 0
        · rw [if_pos hby] at hkey
          cases hnone.symm.trans hkey
        · rw [if_neg hby] at hkey
          cases hcounter : counter s.history key with
          | none => exact hfits (by rw [hcounter]; exact fits_zero by_)
          | some n =>
            rw [hcounter] at hkey hnone
            cases hnone.symm.trans hkey
      refine ⟨?_, hfits⟩
      by_contra hsign
      obtain ⟨hby, hamounts⟩ := not_or.1 hsign
      have hcounter : counter s.history key = none := if_pos (not_not.1 hamounts)
      rw [if_neg hby, hcounter] at hkey
      have hzero : by_ = 0 := by
        have hvalue := Option.some.inj hkey
        change (0 : Int64) = expected (s.history ++ [(key, .atomicAdd by_)]) key at hvalue
        rw [hsome, hcounter, getD_none, Int64.zero_add] at hvalue
        exact hvalue.symm
      exact hby (by rw [hzero]; decide)

end Events

/-! ## Agreement -/

section Agreement

variable {Real : Type} (arithmetic : SqlArithmetic Real)

theorem exact_backends_correct (events : List Event) :
    Runs.Along (step arithmetic) (fun s event =>
      rocksDb.Correct arithmetic State.rocksDb s event ∧
        foundationDb.Correct arithmetic State.foundationDb s event) (start Real) events := by
  have hrun : Runs.Along (step arithmetic) (fun _ _ => True) (start Real) events :=
    Runs.Along.of_forall (fun _ _ => trivial) _ _
  refine Runs.along_of_invariant (I := fun s => Tracks Merges State.rocksDb s ∧
    Tracks (fun cell n => cell = n.map leI64) State.foundationDb s)
    ?_ ?_ ⟨fun key => exact_rocksDb.empty, fun key => rfl⟩ hrun
  · rintro s event s' ⟨hrocks, hfdb⟩ - hstep
    cases hstep
    exact ⟨tracks_rocksDb hrocks event, tracks_foundationDb hfdb event⟩
  · rintro s event ⟨hrocks, hfdb⟩ -
    exact ⟨correct_of_tracks exact_rocksDb hrocks (tracks_rocksDb hrocks event),
      correct_of_tracks exact_foundationDb hfdb (tracks_foundationDb hfdb event)⟩

/-- **RocksDB and FoundationDB are always right, and SQLite exactly along the runs without an
underflow or an overflow.** -/
theorem counters_agree_iff (events : List Event) :
    Runs.Along (step arithmetic) (fun s event =>
      rocksDb.Correct arithmetic State.rocksDb s event ∧
        foundationDb.Correct arithmetic State.foundationDb s event) (start Real) events ∧
    (Runs.Along (step arithmetic) (Agree arithmetic) (start Real) events ↔
      Runs.Along (step arithmetic) Steady (start Real) events) := by
  have hexact := exact_backends_correct arithmetic events
  refine ⟨hexact, ?_⟩
  have hsqlite : Runs.Along (step arithmetic)
      ((sqlite arithmetic).Correct arithmetic State.sqlite) (start Real) events ↔
        Runs.Along (step arithmetic) Steady (start Real) events := by
    refine Runs.along_iff (I := Tracks Holds State.sqlite) ?_ ?_ (fun key => rfl)
    · intro s event s' htracks hsteady hstep
      cases hstep
      exact tracks_sqlite htracks hsteady
    · exact fun s event htracks => ⟨steady_of_correct htracks, correct_sqlite htracks⟩
  rw [← hsqlite]
  exact ⟨fun h => h.mono fun s event hagree => hagree.1,
    fun h => (h.and hexact).mono fun s event hboth => hboth⟩

theorem not_agree :
    ¬ Runs.Along (step (⟨fun _ _ => (), fun _ _ => .real ()⟩ : SqlArithmetic Unit))
      (Agree ⟨fun _ _ => (), fun _ _ => .real ()⟩) (start Unit) [.op [7] (.atomicAdd (-1))] := by
  rintro ⟨⟨⟨-, hread⟩, -⟩, -⟩
  have hseven := hread [7]
  have hvalue : (some 0 : Option Int64) = some (-1) := hseven
  cases hvalue

end Agreement

end MailServer.Store.Counters
