import Mathlib.Algebra.Order.Ring.Nat
import Mathlib.Data.List.AList
import Mathlib.Data.List.Chain

/-!
# References between the objects of a request

The objects that a request creates refer to each other by their creation ids, and
`topological_sort` (`jmap-proto/src/references/mod.rs`) puts them in an order in which they can be
created.  It walks along the references with a stack of iterators, without a set of visited objects,
and takes a walk that is too deep for a cycle.  A hash map is the list of its entries, in the order
in which they are iterated.

Principal result: `topologicalSort_spec`.
-/

namespace MailServer.Jmap.References

open List

variable {K T : Type} [DecidableEq K]

/-- The ids that the object of an id refers to. -/
abbrev Graph (K : Type) := AList fun _ : K => List K

def Refers (graph : Graph K) (fromId toId : K) : Prop := toId ∈ (graph.lookup fromId).getD []

inductive SortError (K : Type) where
  /-- "Invalid reference to non-existing object" -/
  | invalidResultReference (toId fromId : K)
  /-- "Cyclical references are not allowed." -/
  | invalidArguments

/-- An iterator is what it has still to give out. -/
structure State (K T : Type) where
  create : List (K × T)
  sortedCreate : List (K × T)
  itStack : List (List K × K)
  it : List K

/-- Removes the entry of an id, which is appended to the sorted ones; right is `break 'main`. -/
def State.emit (s : State K T) (id : K) : State K T ⊕ State K T :=
  match s.create.find? fun entry => entry.1 = id with
  | some entry =>
    let create := s.create.eraseP fun entry => entry.1 = id
    let s := { s with create := create, sortedCreate := s.sortedCreate ++ [entry] }
    if create = [] then .inr s else .inl s
  | none => .inl s

/-- One turn of the inner loop, or of the outer one behind it: the walk goes on, or it ends. -/
def step (graph : Graph K) (s : State K T) : Except (SortError K) (State K T ⊕ State K T) :=
  match s.it, s.itStack with
  | fromId :: it, itStack =>
    match graph.lookup fromId with
    | some toIds =>
      if 1000 < itStack.length + 1 then .error .invalidArguments
      else .ok (.inl { s with it := toIds, itStack := (it, fromId) :: itStack })
    | none => .ok ({ s with it := it }.emit fromId)
  | [], (prevIt, fromId) :: itStack =>
    .ok ({ s with it := prevIt, itStack := itStack }.emit fromId)
  | [], [] => .ok (.inr s)

/-! ## The walk ends -/

/-- The steps that a list takes when so many iterators can still be put on the stack. -/
def cost (graph : Graph K) : ℕ → List K → ℕ
  | 0, it => it.length
  | depth + 1, it => (it.map fun id => cost graph depth ((graph.lookup id).getD []) + 2).sum

def stackCost (graph : Graph K) : List (List K × K) → ℕ
  | [] => 0
  | (prevIt, _) :: stack =>
    1 + cost graph (1000 - stack.length) prevIt + stackCost graph stack

def State.cost (graph : Graph K) (s : State K T) : ℕ :=
  References.cost graph (1000 - s.itStack.length) s.it + stackCost graph s.itStack

theorem cost_cons (graph : Graph K) (depth : ℕ) (id : K) (it : List K) :
    cost graph depth it < cost graph depth (id :: it) := by
  cases depth with
  | zero => simp [cost]
  | succ depth =>
    simp only [cost, map_cons, sum_cons]
    omega

theorem State.emit_cost {graph : Graph K} {s s' : State K T} {id : K} (h : s.emit id = .inl s') :
    s'.cost graph = s.cost graph := by
  unfold emit at h
  split at h
  · dsimp only at h
    split_ifs at h
    cases h
    rfl
  · cases h
    rfl

theorem step_cost {graph : Graph K} {s s' : State K T} (h : step graph s = .ok (.inl s')) :
    s'.cost graph < s.cost graph := by
  obtain ⟨create, sortedCreate, itStack, it⟩ := s
  unfold step at h
  dsimp only at h
  split at h
  · split at h
    · rename_i toIds hlookup
      split_ifs at h with hdeep
      cases h
      obtain ⟨depth, hdepth⟩ : ∃ depth, 1000 - itStack.length = depth + 1 :=
        ⟨1000 - itStack.length - 1, by omega⟩
      have hrest : 1000 - (itStack.length + 1) = depth := by omega
      simp only [State.cost, stackCost, length_cons, hdepth, hrest, cost, map_cons, sum_cons,
        hlookup, Option.getD_some]
      omega
    · rw [State.emit_cost (Except.ok.inj h)]
      exact Nat.add_lt_add_right (cost_cons ..) _
  · rw [State.emit_cost (Except.ok.inj h)]
    simp only [State.cost, stackCost]
    omega
  · cases h

def sortLoop (graph : Graph K) (s : State K T) : Except (SortError K) (State K T) :=
  match _h : step graph s with
  | .error e => .error e
  | .ok (.inl s') => sortLoop graph s'
  | .ok (.inr s') => .ok s'
termination_by s.cost graph
decreasing_by exact step_cost _h

/-- A reference to an object that is not there, and the object it is found at. -/
def invalidReference (create : List (K × T)) (graph : Graph K) : Option (K × K) :=
  graph.entries.findSome? fun entry =>
    (entry.2.find? fun toId => toId ∉ create.map Prod.fst).map fun toId => (toId, entry.1)

def topologicalSort (create : List (K × T)) (graph : Graph K) :
    Except (SortError K) (List (K × T)) :=
  match invalidReference create graph with
  | some (toId, fromId) => .error (.invalidResultReference toId fromId)
  | none =>
    -- the remaining items are added at the end
    (sortLoop graph ⟨create, [], [], graph.keys⟩).map fun s => s.sortedCreate ++ s.create

/-! ## The order -/

/-- Every object stands behind those that it refers to. -/
def Ordered (graph : Graph K) (ids : List K) : Prop :=
  ∀ i (h : i < ids.length), ∀ toId, Refers graph ids[i] toId → toId ∈ ids.take i

theorem Ordered.append {graph : Graph K} {ids rest : List K} (h : Ordered graph ids)
    (hrest : ∀ id ∈ rest, ∀ toId, Refers graph id toId → toId ∈ ids) :
    Ordered graph (ids ++ rest) := by
  intro i hi toId hto
  rcases Nat.lt_or_ge i ids.length with hlt | hge
  · rw [getElem_append_left hlt] at hto
    rw [take_append_of_le_length hlt.le]
    exact h i hlt toId hto
  · rw [getElem_append_right hge] at hto
    rw [take_append, take_of_length_le hge]
    exact mem_append_left _ (hrest _ (getElem_mem _) toId hto)

theorem Ordered.idxOf_lt {graph : Graph K} {ids : List K} (h : Ordered graph ids) {a b : K}
    (ha : a ∈ ids) (hab : Refers graph a b) : b ∈ ids ∧ ids.idxOf b < ids.idxOf a := by
  have hlt := idxOf_lt_length_of_mem ha
  have hb := h _ hlt b (by rwa [getElem_idxOf])
  exact ⟨mem_of_mem_take hb, (mem_take_iff_idxOf_lt (mem_of_mem_take hb)).1 hb⟩

theorem Ordered.acyclic {graph : Graph K} {ids : List K} (h : Ordered graph ids) {a b : K}
    (ha : a ∈ ids) (hab : Relation.TransGen (Refers graph) a b) :
    b ∈ ids ∧ ids.idxOf b < ids.idxOf a := by
  induction hab with
  | single hab => exact h.idxOf_lt ha hab
  | tail _ hbc ih =>
    obtain ⟨hb, hlt⟩ := ih
    exact ⟨(h.idxOf_lt hb hbc).1, (h.idxOf_lt hb hbc).2.trans hlt⟩

/-! ## The invariant -/

/-- What the iterators have given out is visited.  Below the top of the stack, this holds once the
object that the walk is at is visited as well. -/
def Frames (graph : Graph K) (visited : K → Prop) : List K → List (List K × K) → Prop
  | it, [] => ∀ id ∈ graph.keys, id ∈ it ∨ visited id
  | it, (prevIt, fromId) :: stack =>
    (∀ id ∈ it, Refers graph fromId id) ∧
      (∀ id, Refers graph fromId id → id ∈ it ∨ visited id) ∧
      Frames graph visited (fromId :: prevIt) stack

theorem Frames.visit {graph : Graph K} {visited visited' : K → Prop} {id : K} {it : List K}
    {stack} (h : Frames graph visited (id :: it) stack)
    (hmono : ∀ id, visited id → visited' id) (hid : visited' id) :
    Frames graph visited' it stack := by
  have hnext : ∀ {x : K}, x ∈ id :: it ∨ visited x → x ∈ it ∨ visited' x := by
    intro x hx
    rcases hx with hx | hx
    · rcases mem_cons.1 hx with rfl | hx
      · exact .inr hid
      · exact .inl hx
    · exact .inr (hmono x hx)
  -- below the top nothing but `visited` changes
  have hbelow : ∀ {stack : List (List K × K)} {it : List K},
      Frames graph visited it stack → Frames graph visited' it stack := by
    intro stack
    induction stack with
    | nil => exact fun h x hx => (h x hx).imp_right (hmono x)
    | cons frame stack ih =>
      exact fun h => ⟨h.1, fun x hx => (h.2.1 x hx).imp_right (hmono x), ih h.2.2⟩
  cases stack with
  | nil => exact fun x hx => hnext (h x hx)
  | cons frame stack =>
    exact ⟨fun x hx => h.1 x (.tail _ hx), fun x hx => hnext (h.2.1 x hx), hbelow h.2.2⟩

/-- The objects from the bottom of the stack to the one at hand refer to each other in turn. -/
theorem Frames.chain {graph : Graph K} {visited : K → Prop} {stack}
    {it : List K} (h : Frames graph visited it stack) {id : K} (hid : id ∈ it) :
    List.IsChain (fun a b => Refers graph b a) (id :: stack.map Prod.snd) := by
  induction stack generalizing it id with
  | nil => exact isChain_singleton id
  | cons frame stack ih => exact isChain_cons_cons.2 ⟨h.1 id hid, ih h.2.2 (.head _)⟩

/-- Of the objects to create, these are behind the walk. -/
def State.Visited (s : State K T) (create : List (K × T)) (id : K) : Prop :=
  id ∈ create.map Prod.fst → id ∈ s.sortedCreate.map Prod.fst

structure Inv (create : List (K × T)) (graph : Graph K) (s : State K T) : Prop where
  perm : (s.sortedCreate ++ s.create).Perm create
  ordered : Ordered graph (s.sortedCreate.map Prod.fst)
  frames : Frames graph (s.Visited create) s.it s.itStack

variable {create : List (K × T)} {graph : Graph K} {s : State K T}

/-- Every id that is referred to is one of an object to create. -/
def Closed (create : List (K × T)) (graph : Graph K) : Prop :=
  ∀ fromId toId, Refers graph fromId toId → toId ∈ create.map Prod.fst

/-- What one turn leads to: an error where so many objects refer to each other in turn; when the
walk ends, what is left can be appended. -/
def Next (create : List (K × T)) (graph : Graph K) :
    Except (SortError K) (State K T ⊕ State K T) → Prop
  | .error _ => ∃ chain, List.IsChain (Refers graph) chain ∧ 1000 < chain.length
  | .ok (.inl s) => Inv create graph s
  | .ok (.inr s) =>
    (s.sortedCreate ++ s.create).Perm create ∧
      Ordered graph ((s.sortedCreate ++ s.create).map Prod.fst)

theorem Inv.emit (h : Inv create graph s) {id : K} {it : List K} (hit : s.it = id :: it)
    (hrefs : ∀ toId, Refers graph id toId → toId ∈ s.sortedCreate.map Prod.fst) :
    Next create graph (.ok ({ s with it := it }.emit id)) := by
  have hframes := h.frames
  rw [hit] at hframes
  unfold State.emit
  split
  · rename_i entry hfind
    dsimp only at hfind ⊢
    obtain ⟨hentry, before, behind, hcreate, hbefore⟩ := find?_eq_some_iff_append.1 hfind
    replace hentry : entry.1 = id := of_decide_eq_true hentry
    have herase : s.create.eraseP (fun entry => entry.1 = id) = before ++ behind := by
      rw [hcreate, eraseP_append_right _ (by simpa using hbefore), eraseP_cons_of_pos (by simpa)]
    have hperm : (s.sortedCreate ++ [entry] ++ (before ++ behind)).Perm create := by
      rw [append_assoc]
      refine Perm.trans (.append_left _ ?_) h.perm
      rw [hcreate, singleton_append]
      exact perm_middle.symm
    have hordered : Ordered graph ((s.sortedCreate ++ [entry]).map Prod.fst) := by
      rw [map_append]
      refine h.ordered.append fun x hx => ?_
      obtain rfl : x = entry.1 := by simpa using hx
      rwa [hentry]
    rw [herase]
    split_ifs with hempty
    · exact ⟨hperm, by rwa [hempty, append_nil]⟩
    · refine ⟨hperm, hordered, hframes.visit (fun x hx hmem => ?_) fun _ => ?_⟩
      · rw [map_append]
        exact mem_append_left _ (hx hmem)
      · simp [hentry]
  · rename_i hfind
    refine ⟨h.perm, h.ordered, hframes.visit (fun _ hx => hx) fun hmem => ?_⟩
    have hgone : id ∉ s.create.map Prod.fst := by
      intro hmem
      obtain ⟨entry, hentry, rfl⟩ := mem_map.1 hmem
      simpa using find?_eq_none.1 hfind entry hentry
    have hmem' := (h.perm.map Prod.fst).mem_iff.2 hmem
    rw [map_append] at hmem'
    exact (mem_append.1 hmem').resolve_right hgone

theorem mem_keys_of_refers {fromId toId : K} (h : Refers graph fromId toId) :
    fromId ∈ graph.keys := by
  rw [← AList.mem_keys, ← AList.lookup_isSome]
  unfold Refers at h
  cases hlookup : graph.lookup fromId with
  | none => simp [hlookup] at h
  | some toIds => rfl

theorem step_spec (hclosed : Closed create graph) (h : Inv create graph s) :
    Next create graph (step graph s) := by
  obtain ⟨create', sortedCreate, itStack, it⟩ := s
  have hframes := h.frames
  cases it with
  | cons fromId it =>
    cases hlookup : graph.lookup fromId with
    | some toIds =>
      simp only [step, hlookup]
      split_ifs with hdeep
      · refine ⟨_, isChain_reverse.2 (hframes.chain (.head _)), ?_⟩
        simpa using hdeep
      · have hrefs : ∀ id, Refers graph fromId id ↔ id ∈ toIds := by
          intro id
          rw [Refers, hlookup, Option.getD_some]
        exact ⟨h.perm, h.ordered, fun id => (hrefs id).2, fun id hid => .inl ((hrefs id).1 hid),
          hframes⟩
    | none =>
      simp only [step, hlookup]
      exact h.emit rfl fun toId hto => by simp [Refers, hlookup] at hto
  | nil =>
    cases itStack with
    | cons frame itStack =>
      obtain ⟨-, hvisited, hbelow⟩ := hframes
      have h' : Inv create graph ⟨create', sortedCreate, itStack, frame.2 :: frame.1⟩ :=
        ⟨h.perm, h.ordered, hbelow⟩
      exact h'.emit rfl fun toId hto =>
        (hvisited toId hto).elim (fun hin => nomatch hin)
          fun hin => hin (hclosed _ _ hto)
    | nil =>
      refine ⟨h.perm, ?_⟩
      rw [map_append]
      refine h.ordered.append fun id hid toId hto => ?_
      -- every object with references was visited, and so were those
      have hmem : id ∈ sortedCreate.map Prod.fst := by
        refine ((hframes id (mem_keys_of_refers hto)).resolve_left not_mem_nil)
          ((h.perm.map Prod.fst).mem_iff.1 ?_)
        rw [map_append]
        exact mem_append_right _ hid
      exact (h.ordered.idxOf_lt hmem hto).1

theorem sortLoop_spec (hclosed : Closed create graph) (h : Inv create graph s) :
    Next create graph ((sortLoop graph s).map .inr) := by
  fun_induction sortLoop graph s with
  | case1 s e hstep =>
    have hspec := step_spec hclosed h
    rwa [hstep] at hspec
  | case2 s s' hstep ih =>
    have hspec := step_spec hclosed h
    rw [hstep] at hspec
    exact ih hspec
  | case3 s s' hstep =>
    have hspec := step_spec hclosed h
    rwa [hstep] at hspec

theorem invalidReference_eq_none_iff :
    invalidReference create graph = none ↔ Closed create graph := by
  unfold invalidReference Closed
  simp only [findSome?_eq_none_iff, Option.map_eq_none_iff, find?_eq_none, decide_eq_true_eq,
    not_not]
  constructor
  · intro h fromId toId hto
    unfold Refers at hto
    cases hlookup : graph.lookup fromId with
    | none => simp [hlookup] at hto
    | some toIds =>
      exact h ⟨fromId, toIds⟩ (AList.mem_lookup_iff.1 hlookup) toId (by simpa [hlookup] using hto)
  · intro h entry hentry toId hto
    refine h entry.1 toId ?_
    rw [Refers, AList.mem_lookup_iff.2 hentry]
    exact hto

/-- **The order of creations.** What is returned holds every object once, behind those it refers to;
there is a result if all that is referred to is there and no 1001 objects refer to each other in
turn, and an error if something is not there or the references have a cycle. -/
theorem topologicalSort_spec (create : List (K × T)) (graph : Graph K) :
    (∀ sorted, topologicalSort create graph = .ok sorted →
      sorted.Perm create ∧ Ordered graph (sorted.map Prod.fst)) ∧
    (Closed create graph → (∀ chain, List.IsChain (Refers graph) chain → chain.length ≤ 1000) →
      ∃ sorted, topologicalSort create graph = .ok sorted) ∧
    ((¬ Closed create graph ∨ ∃ id, Relation.TransGen (Refers graph) id id) →
      ∃ e, topologicalSort create graph = .error e) := by
  unfold topologicalSort
  cases hcheck : invalidReference create graph with
  | some reference =>
    have hopen : ¬ Closed create graph := by
      rw [← invalidReference_eq_none_iff, hcheck]
      nofun
    exact ⟨nofun, fun h => absurd h hopen, fun _ => ⟨_, rfl⟩⟩
  | none =>
    have hclosed := invalidReference_eq_none_iff.1 hcheck
    have hstart : Inv create graph ⟨create, [], [], graph.keys⟩ :=
      ⟨Perm.refl _, fun i hi => absurd hi (Nat.not_lt_zero i), fun id hid => .inl hid⟩
    have hspec := sortLoop_spec hclosed hstart
    generalize sortLoop graph _ = result at hspec ⊢
    cases result with
    | error e =>
      obtain ⟨chain, hchain, hlong⟩ := hspec
      exact ⟨nofun, fun _ hshort => absurd (hshort chain hchain) (Nat.not_le_of_lt hlong),
        fun _ => ⟨e, rfl⟩⟩
    | ok s =>
      refine ⟨?_, fun _ _ => ⟨_, rfl⟩, fun h => ?_⟩
      · rintro _ ⟨⟩
        exact hspec
      · obtain ⟨id, hcycle⟩ := h.resolve_left (not_not_intro hclosed)
        obtain ⟨fromId, -, hlast⟩ := Relation.TransGen.tail'_iff.1 hcycle
        have hmem := (hspec.1.map Prod.fst).mem_iff.2 (hclosed _ _ hlast)
        cases lt_irrefl _ (hspec.2.acyclic hmem hcycle).2

end MailServer.Jmap.References
