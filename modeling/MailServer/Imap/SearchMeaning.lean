import MailServer.Imap.SearchParser

/-!
# What SEARCH finds

The grammar of search keys and what the parser makes of it.

Principal results: `SearchKeys.parseItems_items` — what the parser makes of the items of a search
program; `SearchKeys.value_forest` — it has the value of the program where every `NOT` applies to
one operand; `exists_differsKeys` — where a `NOT` applies to more, it has another value for some
leaves.
-/

namespace MailServer.Imap.SearchCommand

open Bracketed List

/-! ## The grammar -/

mutual

inductive SearchKey (α : Type) : Type where
  | leaf (a : α)
  | not (key : SearchKey α)
  | or (first second : SearchKey α)
  | list (keys : SearchKeys α)

/-- One search key or more, which means their conjunction. -/
inductive SearchKeys (α : Type) : Type where
  | single (key : SearchKey α)
  | cons (key : SearchKey α) (rest : SearchKeys α)

end

variable {α β : Type}

mutual

def SearchKey.map (f : α → β) : SearchKey α → SearchKey β
  | .leaf a => .leaf (f a)
  | .not key => .not (key.map f)
  | .or first second => .or (first.map f) (second.map f)
  | .list keys => .list (keys.map f)

def SearchKeys.map (f : α → β) : SearchKeys α → SearchKeys β
  | .single key => .single (key.map f)
  | .cons key rest => .cons (key.map f) (rest.map f)

end

mutual

/-- The items that write a key down. -/
def SearchKey.items : SearchKey α → List (Item α)
  | .leaf a => [.key a]
  | .not key => .not :: key.items
  | .or first second => .or :: (first.items ++ second.items)
  | .list keys => .parenthesisOpen :: (keys.items ++ [.parenthesisClose])

def SearchKeys.items : SearchKeys α → List (Item α)
  | .single key => key.items
  | .cons key rest => key.items ++ rest.items

end

mutual

/-- How deep operators and parentheses are nested. -/
def SearchKey.depth : SearchKey α → ℕ
  | .leaf _ => 0
  | .not key => key.depth + 1
  | .or first second => max first.depth second.depth + 1
  | .list keys => keys.depth + 1

def SearchKeys.depth : SearchKeys α → ℕ
  | .single key => key.depth
  | .cons key rest => max key.depth rest.depth

end

mutual

/-- The messages that a key selects; `total` is all messages. -/
def SearchKey.value {ι : Type} (total : Set ι) (leafValue : α → Set ι) : SearchKey α → Set ι
  | .leaf a => leafValue a
  | .not key => total \ key.value total leafValue
  | .or first second => first.value total leafValue ∪ second.value total leafValue
  | .list keys => keys.value total leafValue

def SearchKeys.value {ι : Type} (total : Set ι) (leafValue : α → Set ι) : SearchKeys α → Set ι
  | .single key => key.value total leafValue
  | .cons key rest => key.value total leafValue ∩ rest.value total leafValue

end

mutual

/-- The number of operands of a key, when lists are spliced into the lists around them. -/
def SearchKey.operands : SearchKey α → ℕ
  | .leaf _ => 1
  | .not _ => 1
  | .or _ _ => 1
  | .list keys => keys.operands

def SearchKeys.operands : SearchKeys α → ℕ
  | .single key => key.operands
  | .cons key rest => key.operands + rest.operands

end

mutual

/-- No `NOT` applies to a list of more than one operand. -/
def SearchKey.negatesOne : SearchKey α → Prop
  | .leaf _ => True
  | .not key => key.operands = 1 ∧ key.negatesOne
  | .or first second => first.negatesOne ∧ second.negatesOne
  | .list keys => keys.negatesOne

def SearchKeys.negatesOne : SearchKeys α → Prop
  | .single key => key.negatesOne
  | .cons key rest => key.negatesOne ∧ rest.negatesOne

end

/-! ## What the parser makes of it -/

mutual

/-- The operands that a key becomes in a level with the operator. -/
def SearchKey.forestIn : BoolOp → SearchKey α → Forest BoolOp α
  | _, .leaf a => .leaf a .nil
  | _, .not key => .group .not (key.forestIn .not) .nil
  | _, .or first second => .group .or ((first.forestIn .or).append (second.forestIn .or)) .nil
  | op, .list keys =>
    if op ≠ .or ∨ keys.operands = 1 then keys.forest else .group .and keys.forest .nil

def SearchKeys.forest : SearchKeys α → Forest BoolOp α
  | .single key => key.forestIn .and
  | .cons key rest => (key.forestIn .and).append rest.forest

end

mutual

theorem SearchKey.length_forestIn_and : ∀ key : SearchKey α,
    (key.forestIn .and).length = key.operands
  | .leaf _ => rfl
  | .not _ => rfl
  | .or _ _ => rfl
  | .list keys => by
    exact keys.length_forest

theorem SearchKeys.length_forest : ∀ keys : SearchKeys α, keys.forest.length = keys.operands
  | .single key => key.length_forestIn_and
  | .cons key rest => by
    rw [SearchKeys.forest, Forest.length_append, key.length_forestIn_and, rest.length_forest,
      SearchKeys.operands]

end

theorem SearchKey.forestIn_not (key : SearchKey α) : key.forestIn .not = key.forestIn .and := by
  cases key with
  | leaf | not | or | list => rfl

theorem SearchKey.length_forestIn_or (key : SearchKey α) : (key.forestIn .or).length = 1 := by
  cases key with
  | leaf | not | or => rfl
  | list keys =>
    rw [forestIn]
    split
    · rename_i h
      rw [keys.length_forest]
      exact h.resolve_left fun h => h rfl
    · rfl

/-- The state after an operand has been added to the level: an `Or` with two operands and a `Not`
are closed. -/
def settle (level : Level α) (stack : List (Level α)) : State α :=
  if level.operator = .and ∨ (level.operator = .or ∧ level.filtersLen < 2) then ⟨level, stack⟩
  else closeLevels level stack

/-- The level can take an operand. -/
def TakesOperand (level : Level α) (stack : List (Level α)) : Prop :=
  level.operator = .and ∨ (level.operator = .or ∧ level.filtersLen < 2 ∧ stack ≠ []) ∨
    (level.operator = .not ∧ level.filtersLen = 0 ∧ stack ≠ [])

theorem closeLevels_cons (level prev : Level α) (stack : List (Level α)) :
    closeLevels level (prev :: stack) = settle (closeInto level prev) stack := rfl

theorem closeInto_group (filters : Filters α) (op : BoolOp) (n : ℕ) (prev : Level α)
    (h : ¬ (op = .and ∧ (prev.operator ≠ .or ∨ n = 1))) :
    closeInto ⟨filters, op, n⟩ prev =
      ⟨prev.filters ++ .opening op :: (filters ++ [.closing]), prev.operator,
        prev.filtersLen + 1⟩ := by
  unfold closeInto
  rw [if_neg h]

theorem closeInto_splice (filters : Filters α) (n : ℕ) (prev : Level α)
    (h : prev.operator ≠ .or ∨ n = 1) :
    closeInto ⟨filters, .and, n⟩ prev =
      ⟨prev.filters ++ filters, prev.operator, prev.filtersLen + n⟩ := by
  unfold closeInto
  rw [if_pos ⟨rfl, h⟩, Nat.add_comm]

/-- The items of a run, one after another. -/
def parseItems (items : List (Item α)) (s : State α) : Except String (State α) :=
  items.foldlM parseItem s

theorem parseItems_append (first second : List (Item α)) (s : State α) :
    parseItems (first ++ second) s = (parseItems first s).bind (parseItems second) :=
  foldlM_append ..

theorem parseItems_cons (item : Item α) (items : List (Item α)) (s : State α) :
    parseItems (item :: items) s = (parseItem s item).bind (parseItems items) := rfl

theorem openLevel_of_room {operator : BoolOp} {s : State α} (h : s.stack.length ≤ 10) :
    openLevel operator s = .ok ⟨⟨[], operator, 0⟩, s.level :: s.stack⟩ := by
  unfold openLevel
  rw [if_neg (by omega)]

theorem settle_closes {level prev : Level α} {stack}
    (h : level.operator = .not ∨ (level.operator = .or ∧ 2 ≤ level.filtersLen)) :
    settle level (prev :: stack) = settle (closeInto level prev) stack := by
  unfold settle
  rw [if_neg]
  · rfl
  · rintro (hand | ⟨hor, hlt⟩)
    · rcases h with h | h
      · rw [h] at hand
        cases hand
      · rw [h.1] at hand
        cases hand
    · rcases h with h | h
      · rw [h] at hor
        cases hor
      · cases Nat.not_lt_of_le h.2 hlt

theorem parseItem_key (level : Level α) (stack : List (Level α)) (a : α)
    (h : TakesOperand level stack) :
    parseItem ⟨level, stack⟩ (.key a) =
      .ok (settle ⟨level.filters ++ [.leaf a], level.operator, level.filtersLen + 1⟩ stack) := by
  unfold parseItem settle
  dsimp only
  rcases h with hop | ⟨hop, hn, hstack⟩ | ⟨hop, hn, hstack⟩
  · rw [hop]
    simp
  · rw [hop]
    by_cases hone : level.filtersLen + 1 = 2
    · simp [hone, hstack]
    · have hlt : level.filtersLen + 1 < 2 := by omega
      simp [hone, hlt]
  · rw [hop, hn]
    simp [hstack]

mutual

/-- **Parsing a key**: its operands are added to the level, which then settles. -/
theorem SearchKey.parseItems_items : ∀ (key : SearchKey α) (level : Level α)
    (stack : List (Level α)), TakesOperand level stack → stack.length + key.depth ≤ 11 →
    parseItems key.items ⟨level, stack⟩ =
      .ok (settle ⟨level.filters ++ (key.forestIn level.operator).tokens, level.operator,
        level.filtersLen + (key.forestIn level.operator).length⟩ stack)
  | .leaf a, level, stack, htakes, _ => by
    rw [SearchKey.items, parseItems_cons, parseItem_key level stack a htakes]
    rfl
  | .not key, level, stack, htakes, hroom => by
    rw [SearchKey.depth] at hroom
    change (openLevel .not _).bind _ = _
    rw [openLevel_of_room (by dsimp only; omega)]
    change parseItems key.items ⟨⟨[], .not, 0⟩, level :: stack⟩ = _
    rw [key.parseItems_items _ _ (.inr (.inr ⟨rfl, rfl, cons_ne_nil _ _⟩))
      (by rw [length_cons]; omega)]
    rfl
  | .or first second, level, stack, htakes, hroom => by
    rw [SearchKey.depth] at hroom
    change (openLevel .or _).bind _ = _
    rw [openLevel_of_room (by dsimp only; omega)]
    change parseItems (first.items ++ second.items) ⟨⟨[], .or, 0⟩, level :: stack⟩ = _
    rw [parseItems_append, first.parseItems_items _ _
      (.inr (.inl ⟨rfl, Nat.zero_lt_two, cons_ne_nil _ _⟩)) (by rw [length_cons]; omega)]
    rw [first.length_forestIn_or]
    change parseItems second.items ⟨⟨_, .or, 1⟩, level :: stack⟩ = _
    rw [second.parseItems_items _ _
      (.inr (.inl ⟨rfl, Nat.lt_succ_self 1, cons_ne_nil _ _⟩))
      (by rw [length_cons]; omega)]
    rw [second.length_forestIn_or, settle_closes (.inr ⟨rfl, Nat.le_refl 2⟩),
      closeInto_group _ _ _ _ (fun h => by cases h.1), nil_append, ← Forest.tokens_append]
    rfl
  | .list keys, level, stack, htakes, hroom => by
    rw [SearchKey.depth] at hroom
    change (openLevel .and _).bind _ = _
    rw [openLevel_of_room (by dsimp only; omega)]
    change parseItems (keys.items ++ [.parenthesisClose]) ⟨⟨[], .and, 0⟩, level :: stack⟩ = _
    rw [parseItems_append, keys.parseItems_items _ _ _ (by rw [length_cons]; omega)]
    change (Except.ok (closeLevels _ (level :: stack))).bind _ = _
    change Except.ok (settle _ stack) = _
    rw [nil_append, Nat.zero_add]
    by_cases h : level.operator ≠ .or ∨ keys.operands = 1
    · rw [closeInto_splice _ _ _ (by rw [keys.length_forest]; exact h), SearchKey.forestIn,
        if_pos h]
    · rw [closeInto_group _ _ _ _ (by rw [keys.length_forest]; exact fun hand => h hand.2),
        SearchKey.forestIn, if_neg h]
      rfl

theorem SearchKeys.parseItems_items : ∀ (keys : SearchKeys α) filters n
    (stack : List (Level α)), stack.length + keys.depth ≤ 11 →
    parseItems keys.items ⟨⟨filters, .and, n⟩, stack⟩ =
      .ok ⟨⟨filters ++ keys.forest.tokens, .and, n + keys.forest.length⟩, stack⟩
  | .single key, filters, n, stack, hroom => by
    rw [SearchKeys.items, key.parseItems_items _ _ (.inl rfl) hroom]
    rfl
  | .cons key rest, filters, n, stack, hroom => by
    rw [SearchKeys.depth] at hroom
    rw [SearchKeys.items, parseItems_append, key.parseItems_items _ _ (.inl rfl) (by omega)]
    change parseItems rest.items ⟨⟨_, .and, _⟩, stack⟩ = _
    rw [rest.parseItems_items _ _ _ (by omega), SearchKeys.forest, Forest.tokens_append,
      Forest.length_append, append_assoc, Nat.add_assoc]

end

/-! ## The value -/

section

variable {ι : Type} (total : Set ι) (leafValue : α → Set ι)

mutual

/-- Where every `NOT` applies to one operand, the operands have the value of the key. -/
theorem SearchKey.value_forestIn : ∀ key : SearchKey α, key.negatesOne →
    (key.forestIn .and).value total leafValue .and = key.value total leafValue ∧
      (key.forestIn .or).value total leafValue .or = key.value total leafValue
  | .leaf a, _ => ⟨Set.inter_univ _, Set.union_empty _⟩
  | .not key, h => by
    have hone : (key.forestIn .and).length = 1 := key.length_forestIn_and.trans h.1
    have hvalue : (key.forestIn .not).value total leafValue .not =
        total \ key.value total leafValue := by
      rw [key.forestIn_not, (Forest.value_of_length_one total leafValue hone).2,
        (key.value_forestIn h.2).1]
    refine ⟨?_, ?_⟩
    · rw [SearchKey.forestIn, Forest.value, hvalue]
      exact Set.inter_univ _
    · rw [SearchKey.forestIn, Forest.value, hvalue]
      exact Set.union_empty _
  | .or first second, h => by
    have hvalue : ((first.forestIn .or).append (second.forestIn .or)).value total leafValue .or =
        first.value total leafValue ∪ second.value total leafValue := by
      rw [Forest.value_append, (first.value_forestIn h.1).2, (second.value_forestIn h.2).2]
      rfl
    refine ⟨?_, ?_⟩
    · rw [SearchKey.forestIn, Forest.value, hvalue]
      exact Set.inter_univ _
    · rw [SearchKey.forestIn, Forest.value, hvalue]
      exact Set.union_empty _
  | .list keys, h => by
    have hvalue := keys.value_forest h
    rw [SearchKey.value]
    refine ⟨hvalue, ?_⟩
    rw [SearchKey.forestIn]
    split
    · rename_i hone
      have hlen : keys.forest.length = 1 :=
        keys.length_forest.trans (hone.resolve_left (fun h => h rfl))
      rw [(Forest.value_of_length_one total leafValue hlen).1, hvalue]
    · rw [Forest.value, hvalue]
      exact Set.union_empty _

theorem SearchKeys.value_forest : ∀ keys : SearchKeys α, keys.negatesOne →
    keys.forest.value total leafValue .and = keys.value total leafValue
  | .single key, h => (key.value_forestIn h).1
  | .cons key rest, h => by
    rw [SearchKeys.forest, Forest.value_append, (key.value_forestIn h.1).1, rest.value_forest h.2]
    rfl

end

end

/-! ## The shape of a key -/

mutual

theorem SearchKey.value_map {ι : Type} (total : Set ι) (leafValue : β → Set ι) (f : α → β) :
    ∀ key : SearchKey α,
      (key.map f).value total leafValue = key.value total fun a => leafValue (f a)
  | .leaf a => rfl
  | .not key => by
    rw [SearchKey.map, SearchKey.value, SearchKey.value, key.value_map]
  | .or first second => by
    rw [SearchKey.map, SearchKey.value, SearchKey.value, first.value_map, second.value_map]
  | .list keys => by
    rw [SearchKey.map, SearchKey.value, SearchKey.value, keys.value_map]

theorem SearchKeys.value_map {ι : Type} (total : Set ι) (leafValue : β → Set ι) (f : α → β) :
    ∀ keys : SearchKeys α,
      (keys.map f).value total leafValue = keys.value total fun a => leafValue (f a)
  | .single key => by
    rw [SearchKeys.map, SearchKeys.value, SearchKeys.value, key.value_map]
  | .cons key rest => by
    rw [SearchKeys.map, SearchKeys.value, SearchKeys.value, key.value_map, rest.value_map]

end

mutual

theorem SearchKey.shape_map (f : α → β) : ∀ key : SearchKey α,
    (key.map f).depth = key.depth ∧ (key.map f).operands = key.operands ∧
      ((key.map f).negatesOne ↔ key.negatesOne)
  | .leaf a => ⟨rfl, rfl, Iff.rfl⟩
  | .not key => by
    obtain ⟨hdepth, hoperands, hone⟩ := key.shape_map f
    rw [SearchKey.map, SearchKey.depth, SearchKey.depth, SearchKey.negatesOne, SearchKey.negatesOne,
      hdepth, hoperands, hone]
    exact ⟨rfl, rfl, Iff.rfl⟩
  | .or first second => by
    obtain ⟨hdepth, -, hone⟩ := first.shape_map f
    obtain ⟨hdepth', -, hone'⟩ := second.shape_map f
    rw [SearchKey.map, SearchKey.depth, SearchKey.depth, SearchKey.negatesOne, SearchKey.negatesOne,
      hdepth, hdepth', hone, hone']
    exact ⟨rfl, rfl, Iff.rfl⟩
  | .list keys => by
    obtain ⟨hdepth, hoperands, hone⟩ := keys.shape_map f
    rw [SearchKey.map, SearchKey.depth, SearchKey.depth, SearchKey.operands, SearchKey.operands,
      SearchKey.negatesOne, SearchKey.negatesOne, hdepth, hoperands, hone]
    exact ⟨rfl, rfl, Iff.rfl⟩

theorem SearchKeys.shape_map (f : α → β) : ∀ keys : SearchKeys α,
    (keys.map f).depth = keys.depth ∧ (keys.map f).operands = keys.operands ∧
      ((keys.map f).negatesOne ↔ keys.negatesOne)
  | .single key => key.shape_map f
  | .cons key rest => by
    obtain ⟨hdepth, hoperands, hone⟩ := key.shape_map f
    obtain ⟨hdepth', hoperands', hone'⟩ := rest.shape_map f
    rw [SearchKeys.map, SearchKeys.depth, SearchKeys.depth, SearchKeys.operands,
      SearchKeys.operands, SearchKeys.negatesOne, SearchKeys.negatesOne, hdepth, hdepth', hoperands,
      hoperands', hone, hone']
    exact ⟨rfl, rfl, Iff.rfl⟩

end

mutual

theorem SearchKey.value_forestIn_map {ι : Type} (total : Set ι) (leafValue : β → Set ι)
    (f : α → β) : ∀ (key : SearchKey α) outer op,
      ((key.map f).forestIn outer).value total leafValue op =
        (key.forestIn outer).value total (fun a => leafValue (f a)) op
  | .leaf a, outer, op => by
    cases op <;> rfl
  | .not key, outer, op => by
    have h := key.value_forestIn_map total leafValue f .not .not
    rw [SearchKey.map, SearchKey.forestIn, SearchKey.forestIn]
    cases op <;> rw [Forest.value, Forest.value, h] <;> rfl
  | .or first second, outer, op => by
    have h : (((first.map f).forestIn .or).append ((second.map f).forestIn .or)).value
        total leafValue .or =
          ((first.forestIn .or).append (second.forestIn .or)).value
            total (fun a => leafValue (f a)) .or := by
      rw [Forest.value_append, Forest.value_append, first.value_forestIn_map,
        second.value_forestIn_map]
    rw [SearchKey.map, SearchKey.forestIn]
    cases op <;> rw [Forest.value, h] <;> rfl
  | .list keys, outer, op => by
    have h := keys.value_forest_map total leafValue f
    rw [SearchKey.map, SearchKey.forestIn, SearchKey.forestIn, (keys.shape_map f).2.1]
    split
    · exact h op
    · cases op <;> rw [Forest.value, h .and] <;> rfl

theorem SearchKeys.value_forest_map {ι : Type} (total : Set ι) (leafValue : β → Set ι)
    (f : α → β) : ∀ (keys : SearchKeys α) op,
      (keys.map f).forest.value total leafValue op =
        keys.forest.value total (fun a => leafValue (f a)) op
  | .single key, op => key.value_forestIn_map total leafValue f .and op
  | .cons key rest, op => by
    rw [SearchKeys.map, SearchKeys.forest, SearchKeys.forest, Forest.value_append,
      Forest.value_append, key.value_forestIn_map, rest.value_forest_map]

end

mutual

theorem SearchKey.map_map {γ : Type} (f : α → β) (g : β → γ) : ∀ key : SearchKey α,
    (key.map f).map g = key.map fun a => g (f a)
  | .leaf a => rfl
  | .not key => by rw [SearchKey.map, SearchKey.map, SearchKey.map, key.map_map]
  | .or first second => by
    rw [SearchKey.map, SearchKey.map, SearchKey.map, first.map_map, second.map_map]
  | .list keys => by rw [SearchKey.map, SearchKey.map, SearchKey.map, keys.map_map]

theorem SearchKeys.map_map {γ : Type} (f : α → β) (g : β → γ) : ∀ keys : SearchKeys α,
    (keys.map f).map g = keys.map fun a => g (f a)
  | .single key => by rw [SearchKeys.map, SearchKeys.map, SearchKeys.map, key.map_map]
  | .cons key rest => by
    rw [SearchKeys.map, SearchKeys.map, SearchKeys.map, key.map_map, rest.map_map]

end

def Item.map (f : α → β) : Item α → Item β
  | .key a => .key (f a)
  | .or => .or
  | .not => .not
  | .parenthesisOpen => .parenthesisOpen
  | .parenthesisClose => .parenthesisClose

mutual

theorem SearchKey.items_map (f : α → β) : ∀ key : SearchKey α,
    (key.map f).items = key.items.map (Item.map f)
  | .leaf a => rfl
  | .not key => by
    rw [SearchKey.map, SearchKey.items, SearchKey.items, key.items_map, map_cons]
    rfl
  | .or first second => by
    rw [SearchKey.map, SearchKey.items, SearchKey.items, first.items_map, second.items_map,
      map_cons, map_append]
    rfl
  | .list keys => by
    rw [SearchKey.map, SearchKey.items, SearchKey.items, keys.items_map, map_cons,
      map_append]
    rfl

theorem SearchKeys.items_map (f : α → β) : ∀ keys : SearchKeys α,
    (keys.map f).items = keys.items.map (Item.map f)
  | .single key => key.items_map f
  | .cons key rest => by
    rw [SearchKeys.map, SearchKeys.items, SearchKeys.items, key.items_map, rest.items_map,
      map_append]

end

/-! ## Keys that the parser gets wrong -/

/-- All messages or none, of a world of one message. -/
def truth (b : Bool) : Set Unit := {_x | b = true}

/-- The value under an operator of operands that all have the same truth. -/
def outcome : BoolOp → Bool → Set Unit
  | .not, b => truth (!b)
  | _, b => truth b

theorem univ_sdiff_truth (b : Bool) : Set.univ \ truth b = truth (!b) := by
  ext
  cases b <;> simp [truth]

theorem truth_inter (b c : Bool) : truth b ∩ truth c = truth (b && c) := by
  ext
  simp [truth]

theorem truth_union (b c : Bool) : truth b ∪ truth c = truth (b || c) := by
  ext
  simp [truth]

theorem truth_injective {b c : Bool} (h : truth b = truth c) : b = c := by
  have hiff : b ↔ c := Set.ext_iff.1 h ()
  cases b <;> cases c <;> simp_all

theorem combine_outcome (op : BoolOp) (b : Bool) :
    Forest.combine op (outcome op b) (outcome op b) = outcome op b := by
  cases op with
  | and => exact Set.inter_self _
  | or => exact Set.union_self _
  | not => exact Set.inter_self _

abbrev Forest.truthValue (op : BoolOp) (f : Forest BoolOp Bool) : Set Unit :=
  Forest.value Set.univ truth op f

abbrev SearchKey.truthValue (key : SearchKey Bool) : Set Unit := key.value Set.univ truth

abbrev SearchKeys.truthValue (keys : SearchKeys Bool) : Set Unit := keys.value Set.univ truth

theorem truthValue_append (op : BoolOp) (f g : Forest BoolOp Bool) :
    Forest.truthValue op (f.append g) =
      Forest.combine op (Forest.truthValue op f) (Forest.truthValue op g) :=
  Forest.value_append Set.univ truth op f g

theorem SearchKey.truthValue_not (key : SearchKey Bool) :
    (SearchKey.not key).truthValue = Set.univ \ key.truthValue := by
  unfold SearchKey.truthValue
  rw [SearchKey.value]

theorem SearchKey.truthValue_or (first second : SearchKey Bool) :
    (SearchKey.or first second).truthValue = first.truthValue ∪ second.truthValue := by
  unfold SearchKey.truthValue
  rw [SearchKey.value]

theorem SearchKeys.truthValue_cons (key : SearchKey Bool) (rest : SearchKeys Bool) :
    (SearchKeys.cons key rest).truthValue = key.truthValue ∩ rest.truthValue := by
  unfold SearchKeys.truthValue
  rw [SearchKeys.value]

theorem truthValue_single {f} (h : f.length = 1) :
    Forest.truthValue .or f = Forest.truthValue .and f ∧
      Forest.truthValue .not f = Set.univ \ Forest.truthValue .and f :=
  Forest.value_of_length_one Set.univ truth h

theorem truthValue_group {op : BoolOp} {members} {b : Bool}
    (h : Forest.truthValue op members = truth b) (outer : BoolOp) :
    Forest.truthValue outer (.group op members .nil) = outcome outer b := by
  unfold Forest.truthValue at h ⊢
  cases outer with
  | and =>
    rw [Forest.value, h]
    exact Set.inter_univ _
  | or =>
    rw [Forest.value, h]
    exact Set.union_empty _
  | not =>
    rw [Forest.value, h]
    exact univ_sdiff_truth b

/-- A labelling of the leaves of a shape under which every operand of the key has the same truth. -/
structure Uniform (shape : SearchKey Unit) (b : Bool) (key : SearchKey Bool) : Prop where
  shape_eq : key.map (fun _ => ()) = shape
  value : key.truthValue = truth b
  spliced : ∀ op, Forest.truthValue op (key.forestIn .and) = outcome op b
  alternative : Forest.truthValue .or (key.forestIn .or) = truth b

structure UniformKeys (shape : SearchKeys Unit) (b : Bool) (keys : SearchKeys Bool) : Prop where
  shape_eq : keys.map (fun _ => ()) = shape
  value : keys.truthValue = truth b
  spliced : ∀ op, Forest.truthValue op keys.forest = outcome op b

mutual

theorem exists_uniform : ∀ shape b, ∃ key, Uniform shape b key
  | .leaf (), b => by
    have hvalue : ∀ op, Forest.truthValue op (.leaf b .nil) = outcome op b := by
      intro op
      cases op with
      | and => exact Set.inter_univ _
      | or => exact Set.union_empty _
      | not => exact univ_sdiff_truth b
    exact ⟨.leaf b, ⟨rfl, rfl, hvalue, hvalue .or⟩⟩
  | .not shape, b => by
    obtain ⟨key, hkey⟩ := exists_uniform shape (!b)
    have hmembers : Forest.truthValue .not (key.forestIn .not) = truth b := by
      rw [key.forestIn_not, hkey.spliced .not]
      exact congrArg truth (Bool.not_not b)
    refine ⟨.not key, ⟨?_, ?_, truthValue_group hmembers, truthValue_group hmembers .or⟩⟩
    · rw [SearchKey.map, hkey.shape_eq]
    · rw [SearchKey.truthValue_not, hkey.value, univ_sdiff_truth, Bool.not_not]
  | .or first second, b => by
    obtain ⟨key, hkey⟩ := exists_uniform first b
    obtain ⟨key', hkey'⟩ := exists_uniform second b
    have hmembers : Forest.truthValue .or ((key.forestIn .or).append (key'.forestIn .or)) =
        truth b := by
      rw [truthValue_append, hkey.alternative, hkey'.alternative]
      exact Set.union_self _
    refine ⟨.or key key', ⟨?_, ?_, truthValue_group hmembers, truthValue_group hmembers .or⟩⟩
    · rw [SearchKey.map, hkey.shape_eq, hkey'.shape_eq]
    · rw [SearchKey.truthValue_or, hkey.value, hkey'.value, Set.union_self]
  | .list shapes, b => by
    obtain ⟨keys, hkeys⟩ := exists_uniformKeys shapes b
    have hspliced : (SearchKey.list keys).forestIn .and = keys.forest := by
      rw [SearchKey.forestIn, if_pos (.inl (by decide))]
    refine ⟨.list keys, ⟨?_, ?_, ?_, ?_⟩⟩
    · rw [SearchKey.map, hkeys.shape_eq]
    · exact hkeys.value
    · exact hkeys.spliced
    · rw [SearchKey.forestIn]
      split
      · exact hkeys.spliced .or
      · exact truthValue_group (hkeys.spliced .and) .or

theorem exists_uniformKeys : ∀ (shape : SearchKeys Unit) b, ∃ keys, UniformKeys shape b keys
  | .single shape, b => by
    obtain ⟨key, hkey⟩ := exists_uniform shape b
    refine ⟨.single key, ⟨?_, hkey.value, hkey.spliced⟩⟩
    rw [SearchKeys.map, hkey.shape_eq]
  | .cons shape rest, b => by
    obtain ⟨key, hkey⟩ := exists_uniform shape b
    obtain ⟨keys, hkeys⟩ := exists_uniformKeys rest b
    refine ⟨.cons key keys, ⟨?_, ?_, fun op => ?_⟩⟩
    · rw [SearchKeys.map, hkey.shape_eq, hkeys.shape_eq]
    · rw [SearchKeys.truthValue_cons, hkey.value, hkeys.value, Set.inter_self]
    · rw [SearchKeys.forest, truthValue_append, hkey.spliced, hkeys.spliced, combine_outcome]

end

mutual

/-- Of more than one operand, let one be true: the conjunction is false, and so is the negation of
the union. -/
theorem exists_split : ∀ shape : SearchKey Unit, 2 ≤ shape.operands →
    ∃ key : SearchKey Bool, key.map (fun _ => ()) = shape ∧ key.truthValue = truth false ∧
      Forest.truthValue .not (key.forestIn .and) = truth false
  | .leaf _, h => absurd h (by rw [SearchKey.operands]; omega)
  | .not _, h => absurd h (by rw [SearchKey.operands]; omega)
  | .or _ _, h => absurd h (by rw [SearchKey.operands]; omega)
  | .list shapes, h => by
    obtain ⟨keys, hshape, hvalue, hforest⟩ := exists_splitKeys shapes h
    refine ⟨.list keys, ?_, hvalue, ?_⟩
    · rw [SearchKey.map, hshape]
    · exact hforest

theorem exists_splitKeys : ∀ shape : SearchKeys Unit, 2 ≤ shape.operands →
    ∃ keys : SearchKeys Bool, keys.map (fun _ => ()) = shape ∧ keys.truthValue = truth false ∧
      Forest.truthValue .not keys.forest = truth false
  | .single shape, h => by
    obtain ⟨key, hshape, hvalue, hforest⟩ := exists_split shape h
    refine ⟨.single key, ?_, hvalue, hforest⟩
    rw [SearchKeys.map, hshape]
  | .cons shape rest, _ => by
    obtain ⟨key, hkey⟩ := exists_uniform shape true
    obtain ⟨keys, hkeys⟩ := exists_uniformKeys rest false
    refine ⟨.cons key keys, ?_, ?_, ?_⟩
    · rw [SearchKeys.map, hkey.shape_eq, hkeys.shape_eq]
    · rw [SearchKeys.truthValue_cons, hkey.value, hkeys.value, truth_inter]
      rfl
    · rw [SearchKeys.forest, truthValue_append, hkey.spliced, hkeys.spliced]
      exact truth_inter false true

end

mutual

theorem SearchKey.operands_pos : ∀ key : SearchKey α, 0 < key.operands
  | .leaf _ => Nat.one_pos
  | .not _ => Nat.one_pos
  | .or _ _ => Nat.one_pos
  | .list keys => keys.operands_pos

theorem SearchKeys.operands_pos : ∀ keys : SearchKeys α, 0 < keys.operands
  | .single key => key.operands_pos
  | .cons key rest => by
    have h := key.operands_pos
    rw [SearchKeys.operands]
    omega

end

/-- A labelling under which the operands that the key becomes have another value than the key. -/
structure Differs (shape : SearchKey Unit) (c : Bool) (key : SearchKey Bool) : Prop where
  shape_eq : key.map (fun _ => ()) = shape
  value : key.truthValue = truth c
  spliced : Forest.truthValue .and (key.forestIn .and) = truth (!c)
  alternative : Forest.truthValue .or (key.forestIn .or) = truth (!c)

mutual

/-- **Where a `NOT` applies to more than one operand**, some labelling gives another value. -/
theorem exists_differs : ∀ shape : SearchKey Unit, ¬ shape.negatesOne →
    ∃ c key, Differs shape c key
  | .leaf _, h => absurd trivial h
  | .not shape, h => by
    by_cases hone : shape.operands = 1
    · have hbelow : ¬ shape.negatesOne := fun hnegates => h ⟨hone, hnegates⟩
      obtain ⟨c, key, hkey⟩ := exists_differs shape hbelow
      have hlen : (key.forestIn .and).length = 1 := by
        rw [key.length_forestIn_and, ← (key.shape_map fun _ => ()).2.1, hkey.shape_eq]
        exact hone
      have hmembers : Forest.truthValue .not (key.forestIn .not) = truth c := by
        rw [key.forestIn_not, (truthValue_single hlen).2, hkey.spliced, univ_sdiff_truth,
          Bool.not_not]
      refine ⟨!c, .not key, ⟨?_, ?_, ?_, ?_⟩⟩
      · rw [SearchKey.map, hkey.shape_eq]
      · rw [SearchKey.truthValue_not, hkey.value, univ_sdiff_truth]
      · rw [Bool.not_not]
        exact truthValue_group hmembers .and
      · rw [Bool.not_not]
        exact truthValue_group hmembers .or
    · have htwo : 2 ≤ shape.operands := by
        have hpos := shape.operands_pos
        omega
      obtain ⟨key, hshape, hvalue, hforest⟩ := exists_split shape htwo
      have hmembers : Forest.truthValue .not (key.forestIn .not) = truth false := by
        rw [key.forestIn_not]
        exact hforest
      refine ⟨true, .not key, ⟨?_, ?_, truthValue_group hmembers .and,
        truthValue_group hmembers .or⟩⟩
      · rw [SearchKey.map, hshape]
      · rw [SearchKey.truthValue_not, hvalue]
        exact univ_sdiff_truth false
  | .or first second, h => by
    -- the other operand is made false, so that the difference shows
    have hone : ∃ (c : Bool) (key key' : SearchKey Bool), key.map (fun _ => ()) = first ∧
        key'.map (fun _ => ()) = second ∧ key.truthValue ∪ key'.truthValue = truth c ∧
        Forest.truthValue .or (key.forestIn .or) ∪ Forest.truthValue .or (key'.forestIn .or) =
          truth (!c) := by
      by_cases hfirst : first.negatesOne
      · have hsecond : ¬ second.negatesOne := fun hsecond => h ⟨hfirst, hsecond⟩
        obtain ⟨key, hkey⟩ := exists_uniform first false
        obtain ⟨c, key', hkey'⟩ := exists_differs second hsecond
        refine ⟨c, key, key', hkey.shape_eq, hkey'.shape_eq, ?_, ?_⟩
        · rw [hkey.value, hkey'.value, truth_union, Bool.false_or]
        · rw [hkey.alternative, hkey'.alternative, truth_union, Bool.false_or]
      · obtain ⟨c, key, hkey⟩ := exists_differs first hfirst
        obtain ⟨key', hkey'⟩ := exists_uniform second false
        refine ⟨c, key, key', hkey.shape_eq, hkey'.shape_eq, ?_, ?_⟩
        · rw [hkey.value, hkey'.value, truth_union, Bool.or_false]
        · rw [hkey.alternative, hkey'.alternative, truth_union, Bool.or_false]
    obtain ⟨c, key, key', hshape, hshape', hvalue, hforest⟩ := hone
    have hmembers : Forest.truthValue .or ((key.forestIn .or).append (key'.forestIn .or)) =
        truth (!c) := by
      rw [truthValue_append]
      exact hforest
    refine ⟨c, .or key key', ⟨?_, (SearchKey.truthValue_or key key').trans hvalue,
      truthValue_group hmembers .and,
      truthValue_group hmembers .or⟩⟩
    rw [SearchKey.map, hshape, hshape']
  | .list shapes, h => by
    obtain ⟨c, keys, hshape, hvalue, hforest⟩ := exists_differsKeys shapes h
    refine ⟨c, .list keys, ⟨?_, hvalue, ?_, ?_⟩⟩
    · rw [SearchKey.map, hshape]
    · exact hforest
    · rw [SearchKey.forestIn]
      split
      · rename_i hone
        have hlen : keys.forest.length = 1 :=
          keys.length_forest.trans (hone.resolve_left (fun h => h rfl))
        rw [(truthValue_single hlen).1, hforest]
      · exact truthValue_group hforest .or

theorem exists_differsKeys : ∀ shape : SearchKeys Unit, ¬ shape.negatesOne →
    ∃ (c : Bool) (keys : SearchKeys Bool), keys.map (fun _ => ()) = shape ∧
      keys.truthValue = truth c ∧ Forest.truthValue .and keys.forest = truth (!c)
  | .single shape, h => by
    obtain ⟨c, key, hkey⟩ := exists_differs shape h
    refine ⟨c, .single key, ?_, hkey.value, hkey.spliced⟩
    rw [SearchKeys.map, hkey.shape_eq]
  | .cons shape rest, h => by
    -- the other operands are made true
    by_cases hfirst : shape.negatesOne
    · have hrest : ¬ rest.negatesOne := fun hrest => h ⟨hfirst, hrest⟩
      obtain ⟨key, hkey⟩ := exists_uniform shape true
      obtain ⟨c, keys, hshape, hvalue, hforest⟩ := exists_differsKeys rest hrest
      refine ⟨c, .cons key keys, ?_, ?_, ?_⟩
      · rw [SearchKeys.map, hkey.shape_eq, hshape]
      · rw [SearchKeys.truthValue_cons, hvalue, hkey.value, truth_inter, Bool.true_and]
      · rw [SearchKeys.forest, truthValue_append, hkey.spliced, hforest]
        exact truth_inter true (!c)
    · obtain ⟨c, key, hkey⟩ := exists_differs shape hfirst
      obtain ⟨keys, hkeys⟩ := exists_uniformKeys rest true
      refine ⟨c, .cons key keys, ?_, ?_, ?_⟩
      · rw [SearchKeys.map, hkey.shape_eq, hkeys.shape_eq]
      · rw [SearchKeys.truthValue_cons, hkey.value, hkeys.value, truth_inter, Bool.and_true]
      · rw [SearchKeys.forest, truthValue_append, hkey.spliced, hkeys.spliced]
        exact (truth_inter (!c) true).trans (congrArg truth (Bool.and_true _))

end

end MailServer.Imap.SearchCommand
