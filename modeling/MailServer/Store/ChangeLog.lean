import MailServer.Codec.Leb128
import Mathlib.Data.Finset.Basic

/-!
# The change log

A batch collects the changes of a collection in seven sets (`store/src/write/log.rs`); their
serialized form is merged, batch after batch, into one list of changes
(`Changes::deserialize`, `store/src/query/log.rs`).

Principal result: `deserialize_serialize`.
-/

namespace MailServer.Store

open MailServer.Codec List

/-! ## The builder -/

/-- A call of `ChangeLogBuilder` for one collection. -/
inductive LogCall where
  | containerInsert (documentId : UInt32)
  | containerUpdate (documentId : UInt32)
  | containerPropertyUpdate (documentId : UInt32)
  | containerDelete (documentId : UInt32)
  | itemInsert (pre : Option UInt32) (documentId : UInt32)
  | itemUpdate (pre : Option UInt32) (documentId : UInt32)
  | itemDelete (pre : Option UInt32) (documentId : UInt32)
deriving DecidableEq

/-- `build_id`: the item id, its prefix in the upper half. -/
def buildId (pre : Option UInt32) (documentId : UInt32) : UInt64 :=
  match pre with
  | some pre => pre.toUInt64 <<< 32 ||| documentId.toUInt64
  | none => documentId.toUInt64

/-- The changes of one collection in a batch. -/
structure Changes where
  itemInserts : Finset UInt64
  itemUpdates : Finset UInt64
  itemDeletes : Finset UInt64
  containerInserts : Finset UInt32
  containerUpdates : Finset UInt32
  containerDeletes : Finset UInt32
  containerPropertyChanges : Finset UInt32

def Changes.empty : Changes := ⟨∅, ∅, ∅, ∅, ∅, ∅, ∅⟩

/-- One call of the builder. -/
def Changes.log (c : Changes) : LogCall → Changes
  | .containerInsert id =>
    if id ∈ c.containerDeletes then
      { c with
        containerDeletes := c.containerDeletes.erase id
        containerUpdates := insert id c.containerUpdates }
    else { c with containerInserts := insert id c.containerInserts }
  | .containerUpdate id => { c with containerUpdates := insert id c.containerUpdates }
  | .containerPropertyUpdate id =>
    { c with containerPropertyChanges := insert id c.containerPropertyChanges }
  | .containerDelete id =>
    { c with
      containerUpdates := c.containerUpdates.erase id
      containerPropertyChanges := c.containerPropertyChanges.erase id
      containerDeletes := insert id c.containerDeletes }
  | .itemInsert pre documentId =>
    let id := buildId pre documentId
    if id ∈ c.itemDeletes then
      { c with
        itemDeletes := c.itemDeletes.erase id
        itemUpdates := insert id c.itemUpdates }
    else { c with itemInserts := insert id c.itemInserts }
  | .itemUpdate pre documentId =>
    { c with itemUpdates := insert (buildId pre documentId) c.itemUpdates }
  | .itemDelete pre documentId =>
    let id := buildId pre documentId
    { c with
      itemUpdates := c.itemUpdates.erase id
      itemDeletes := insert id c.itemDeletes }

/-- The changes of a whole batch. -/
def Changes.build (calls : List LogCall) : Changes :=
  calls.foldl Changes.log .empty

/-! ## Serialization -/

/-- The order in which a hash set is iterated: every member once, and no more of them than a
`usize` counts. -/
structure IterOrder {α : Type} (set : Finset α) where
  ids : List α
  nodup : ids.Nodup
  mem_iff : ∀ id, id ∈ ids ↔ id ∈ set
  fits : ids.length < 2 ^ 64

/-- An iteration order for each of the seven sets. -/
structure Changes.Order (c : Changes) where
  containerInserts : IterOrder c.containerInserts
  containerUpdates : IterOrder c.containerUpdates
  containerPropertyChanges : IterOrder c.containerPropertyChanges
  containerDeletes : IterOrder c.containerDeletes
  itemInserts : IterOrder c.itemInserts
  itemUpdates : IterOrder c.itemUpdates
  itemDeletes : IterOrder c.itemDeletes

/-- `Changes::serialize`: the seven sizes, then the ids. -/
def Changes.serialize (c : Changes) (o : c.Order) : List UInt8 :=
  toLeb128Bytes o.containerInserts.ids.length ++
  toLeb128Bytes o.containerUpdates.ids.length ++
  toLeb128Bytes o.containerPropertyChanges.ids.length ++
  toLeb128Bytes o.containerDeletes.ids.length ++
  toLeb128Bytes o.itemInserts.ids.length ++
  toLeb128Bytes o.itemUpdates.ids.length ++
  toLeb128Bytes o.itemDeletes.ids.length ++
  ([o.containerInserts.ids, o.containerUpdates.ids, o.containerPropertyChanges.ids,
    o.containerDeletes.ids].flatMap fun list => list.flatMap fun id => toLeb128Bytes id.toNat) ++
  ([o.itemInserts.ids, o.itemUpdates.ids, o.itemDeletes.ids].flatMap fun list =>
    list.flatMap fun id => toLeb128Bytes id.toNat)

/-! ## Merging -/

inductive Change where
  | insertContainer (id : UInt64)
  | updateContainer (id : UInt64)
  | updateContainerProperty (id : UInt64)
  | deleteContainer (id : UInt64)
  | insertItem (id : UInt64)
  | updateItem (id : UInt64)
  | deleteItem (id : UInt64)
deriving DecidableEq

/-- An updated container: the first change of the container that is not a deletion decides. -/
def updateContainer (id : UInt64) (isPropertyChange : Bool) : List Change → List Change
  | [] => [if isPropertyChange then .updateContainerProperty id else .updateContainer id]
  | change :: changes =>
    -- updated after inserted: the update is not counted
    if change = .insertContainer id then change :: changes
    else if change = .updateContainer id then changes ++ [.updateContainer id]
    else if change = .updateContainerProperty id then
      changes ++ [if isPropertyChange then .updateContainerProperty id else .updateContainer id]
    else change :: updateContainer id isPropertyChange changes

/-- A deleted container: its insertion or its update goes, a property update is not looked
for. -/
def deleteContainer (id : UInt64) : List Change → List Change
  | [] => [.deleteContainer id]
  | change :: changes =>
    if change = .insertContainer id then changes
    else if change = .updateContainer id then changes ++ [.deleteContainer id]
    else change :: deleteContainer id changes

def updateItem (id : UInt64) : List Change → List Change
  | [] => [.updateItem id]
  | change :: changes =>
    if change = .insertItem id then change :: changes
    else if change = .updateItem id then changes ++ [.updateItem id]
    else change :: updateItem id changes

def deleteItem (id : UInt64) : List Change → List Change
  | [] => [.deleteItem id]
  | change :: changes =>
    if change = .insertItem id then changes
    else if change = .updateItem id then changes ++ [.deleteItem id]
    else change :: deleteItem id changes

/-- Read `count` ids and merge each; `merge` is given the position of the id. -/
def readIds (merge : Nat → UInt64 → List Change → List Change) :
    (count pos : Nat) → List UInt8 → List Change → Option (List Change × List UInt8)
  | 0, _, bytes, changes => some (changes, bytes)
  | count + 1, pos, bytes, changes => do
    let (id, bytes) ← readLeb128 .u64 bytes
    readIds merge count (pos + 1) bytes (merge pos (UInt64.ofNat id) changes)

/-- `Changes::deserialize`: whether the batch has container and item changes, and the list with the
batch merged into it. -/
def deserialize (changes : List Change) (bytes : List UInt8) :
    Option ((Bool × Bool) × List Change) := do
  let (containerInserts, bytes) ← readLeb128 .usize bytes
  let (containerUpdates, bytes) ← readLeb128 .usize bytes
  let (containerPropertyChanges, bytes) ← readLeb128 .usize bytes
  let (containerDeletes, bytes) ← readLeb128 .usize bytes
  let (itemInserts, bytes) ← readLeb128 .usize bytes
  let (itemUpdates, bytes) ← readLeb128 .usize bytes
  let (itemDeletes, bytes) ← readLeb128 .usize bytes
  let hasContainerChanges :=
    containerInserts + containerUpdates + containerPropertyChanges + containerDeletes > 0
  let hasItemChanges := itemInserts + itemUpdates + itemDeletes > 0
  let (changes, bytes) ←
    readIds (fun _ id changes => changes ++ [.insertContainer id]) containerInserts 0 bytes changes
  let (changes, bytes) ←
    readIds (fun pos id changes => updateContainer id (pos ≥ containerUpdates) changes)
      (containerUpdates + containerPropertyChanges) 0 bytes changes
  let (changes, bytes) ←
    readIds (fun _ id changes => deleteContainer id changes) containerDeletes 0 bytes changes
  let (changes, bytes) ←
    readIds (fun _ id changes => changes ++ [.insertItem id]) itemInserts 0 bytes changes
  let (changes, bytes) ←
    readIds (fun _ id changes => updateItem id changes) itemUpdates 0 bytes changes
  let (changes, _) ←
    readIds (fun _ id changes => deleteItem id changes) itemDeletes 0 bytes changes
  some ((hasContainerChanges, hasItemChanges), changes)

/-! ## Reading back -/

def mergeIds (merge : UInt64 → List Change → List Change) (ids : List UInt64)
    (changes : List Change) : List Change :=
  ids.foldl (fun changes id => merge id changes) changes

/-- The list operations a serialized batch stands for. -/
def mergeOrder {c : Changes} (o : c.Order) (changes : List Change) : List Change :=
  let containers (ids : List UInt32) := ids.map UInt32.toUInt64
  mergeIds deleteItem o.itemDeletes.ids <|
  mergeIds updateItem o.itemUpdates.ids <|
  mergeIds (fun id changes => changes ++ [.insertItem id]) o.itemInserts.ids <|
  mergeIds deleteContainer (containers o.containerDeletes.ids) <|
  mergeIds (updateContainer · true) (containers o.containerPropertyChanges.ids) <|
  mergeIds (updateContainer · false) (containers o.containerUpdates.ids) <|
  mergeIds (fun id changes => changes ++ [.insertContainer id]) (containers o.containerInserts.ids)
    changes

theorem readIds_add (merge : Nat → UInt64 → List Change → List Change) :
    ∀ n m pos bytes changes,
      readIds merge (n + m) pos bytes changes =
        (readIds merge n pos bytes changes).bind fun (changes, bytes) =>
          readIds merge m (pos + n) bytes changes
  | 0, m, pos, bytes, changes => by simp [readIds]
  | n + 1, m, pos, bytes, changes => by
    rw [Nat.add_right_comm, readIds, readIds, Option.bind_eq_bind, Option.bind_assoc]
    congr 1
    funext ⟨id, bytes⟩
    dsimp only
    rw [readIds_add merge n m, Nat.add_assoc, Nat.add_comm 1 n]

theorem readIds_written {α : Type} {toNat : α → Nat} (hlt : ∀ a, toNat a < 2 ^ 64)
    {merge}
    {mergeOne} (rest : List UInt8) :
    ∀ (ids : List α) pos changes,
      (∀ p, pos ≤ p → p < pos + ids.length → merge p = mergeOne) →
      readIds merge ids.length pos ((ids.flatMap fun a => toLeb128Bytes (toNat a)) ++ rest)
          changes =
        some (mergeIds mergeOne (ids.map fun a => UInt64.ofNat (toNat a)) changes, rest)
  | [], pos, changes, _ => rfl
  | a :: ids, pos, changes, h => by
    have hnow : merge pos = mergeOne := h pos le_rfl (by simp)
    have ih := readIds_written hlt rest ids (pos + 1)
      (mergeOne (UInt64.ofNat (toNat a)) changes) fun p hle hlt' =>
        h p (by omega) (by simp only [length_cons]; omega)
    rw [length_cons, flatMap_cons, append_assoc, readIds,
      readLeb128_u64 (hlt a), Option.bind_eq_bind, Option.bind_some, hnow]
    exact ih

theorem toNat_lt (id : UInt32) : id.toNat < 2 ^ 64 :=
  Nat.lt_trans id.toNat_lt (by decide)

theorem map_ofNat_toNat (ids : List UInt32) :
    ids.map (fun id => UInt64.ofNat id.toNat) = ids.map UInt32.toUInt64 := by
  simp

theorem readIds_updates (updates propertyChanges : List UInt32) (rest : List UInt8)
    (changes : List Change) :
    readIds (fun pos id changes => updateContainer id (pos ≥ updates.length) changes)
        (updates.length + propertyChanges.length) 0
        ((updates.flatMap fun id => toLeb128Bytes id.toNat) ++
          ((propertyChanges.flatMap fun id => toLeb128Bytes id.toNat) ++ rest)) changes =
      some (mergeIds (updateContainer · true) (propertyChanges.map UInt32.toUInt64)
        (mergeIds (updateContainer · false) (updates.map UInt32.toUInt64) changes), rest) := by
  have hupdates : ∀ p, 0 ≤ p → p < 0 + updates.length →
      (fun id changes => updateContainer id (decide (p ≥ updates.length)) changes) =
        (updateContainer · false) := by
    intro p _ hp
    rw [decide_eq_false (by omega)]
  have hproperties : ∀ p, 0 + updates.length ≤ p → p < 0 + updates.length + propertyChanges.length →
      (fun id changes => updateContainer id (decide (p ≥ updates.length)) changes) =
        (updateContainer · true) := by
    intro p hp _
    rw [decide_eq_true (by omega)]
  rw [readIds_add, readIds_written toNat_lt _ updates 0 changes hupdates, Option.bind_some]
  dsimp only
  rw [readIds_written toNat_lt _ propertyChanges _ _ hproperties, map_ofNat_toNat,
    map_ofNat_toNat]

/-- Whether a batch has container changes and item changes. -/
def Changes.Order.flags {c : Changes} (o : c.Order) : Bool × Bool :=
  (o.containerInserts.ids.length + o.containerUpdates.ids.length +
      o.containerPropertyChanges.ids.length + o.containerDeletes.ids.length > 0,
    o.itemInserts.ids.length + o.itemUpdates.ids.length + o.itemDeletes.ids.length > 0)

/-- **A serialized batch is read back**: `deserialize` accepts it and merges it set by set. -/
theorem deserialize_serialize (c : Changes) (o : c.Order) (changes : List Change) :
    deserialize changes (c.serialize o) = some (o.flags, mergeOrder o changes) := by
  have hdeletes := append_nil (o.itemDeletes.ids.flatMap fun id => toLeb128Bytes id.toNat)
  unfold deserialize Changes.serialize
  simp only [append_assoc, flatMap_cons, flatMap_nil, append_nil,
    readLeb128_usize o.containerInserts.fits, readLeb128_usize o.containerUpdates.fits,
    readLeb128_usize o.containerPropertyChanges.fits, readLeb128_usize o.containerDeletes.fits,
    readLeb128_usize o.itemInserts.fits, readLeb128_usize o.itemUpdates.fits,
    readLeb128_usize o.itemDeletes.fits, Option.bind_eq_bind, Option.bind_some]
  rw [readIds_written toNat_lt _ _ _ _ fun _ _ _ => rfl, Option.bind_some, readIds_updates,
    Option.bind_some, readIds_written toNat_lt _ _ _ _ fun _ _ _ => rfl, Option.bind_some,
    readIds_written UInt64.toNat_lt _ _ _ _ fun _ _ _ => rfl, Option.bind_some,
    readIds_written UInt64.toNat_lt _ _ _ _ fun _ _ _ => rfl, Option.bind_some, ← hdeletes,
    readIds_written UInt64.toNat_lt _ _ _ _ fun _ _ _ => rfl]
  simp [mergeOrder, Changes.Order.flags]

end MailServer.Store
