import Mathlib.Data.Set.Lattice

/-!
# Bracketed expressions

A bracketed expression is a token list in which every `opening` token is matched by a
`closing` token.  This module gives the tree behind such a list and the boolean meaning of
the tree:

* `Forest` is a sequence of operands, each a leaf or a group with an operator of its own;
* `Forest.tokens` writes a forest down and `Forest.parse` reads it back, and
  `Forest.parse_eq_some_iff` says that the two are inverse to each other;
* `Forest.value` is the meaning of a sequence of operands under an operator: conjunction is
  intersection, disjunction is union, negation is the complement, in a given universe, of the
  union.
-/

namespace Bracketed

/-- One token of a bracketed expression. -/
inductive Token (ω α : Type*) where
  | leaf (a : α)
  | opening (op : ω)
  | closing

/-- A sequence of operands: leaves, and groups of operands under an operator. -/
inductive Forest (ω α : Type*) where
  | nil
  | leaf (a : α) (rest : Forest ω α)
  | group (op : ω) (members rest : Forest ω α)
deriving DecidableEq

namespace Forest

variable {ω α β : Type*}

def tokens : Forest ω α → List (Token ω α)
  | nil => []
  | leaf a rest => .leaf a :: rest.tokens
  | group op members rest => .opening op :: (members.tokens ++ .closing :: rest.tokens)

/-- The operands of one forest followed by those of another. -/
def append : Forest ω α → Forest ω α → Forest ω α
  | nil, g => g
  | leaf a rest, g => leaf a (rest.append g)
  | group op members rest, g => group op members (rest.append g)

/-- The leaves of a forest, from left to right. -/
def leaves : Forest ω α → List α
  | nil => []
  | leaf a rest => a :: rest.leaves
  | group _ members rest => members.leaves ++ rest.leaves

/-- The number of operands of a forest. -/
def length : Forest ω α → ℕ
  | nil => 0
  | leaf _ rest => rest.length + 1
  | group _ _ rest => rest.length + 1

/-- Every group of the forest has at least one operand. -/
def full : Forest ω α → Bool
  | nil => true
  | leaf _ rest => rest.full
  | group _ nil _ => false
  | group _ members rest => members.full && rest.full

/-- The operators of the groups of a forest, from left to right. -/
def operators : Forest ω α → List ω
  | nil => []
  | leaf _ rest => rest.operators
  | group op members rest => op :: (members.operators ++ rest.operators)

attribute [local simp] tokens append leaves full

@[simp] theorem append_nil : ∀ f : Forest ω α, f.append nil = f
  | nil => rfl
  | leaf a rest => by rw [append, append_nil rest]
  | group op members rest => by rw [append, append_nil rest]

@[simp] theorem tokens_append : ∀ f g : Forest ω α, (f.append g).tokens = f.tokens ++ g.tokens
  | nil, _ => rfl
  | leaf a rest, g => by simp [tokens_append rest g]
  | group op members rest, g => by simp [tokens_append rest g]

theorem length_append : ∀ f g : Forest ω α, (f.append g).length = f.length + g.length
  | nil, g => (Nat.zero_add _).symm
  | leaf a rest, g => by
      rw [append, length, length_append rest g, length]
      omega
  | group op members rest, g => by
      rw [append, length, length_append rest g, length]
      omega

theorem eq_nil_of_length : ∀ {f : Forest ω α}, f.length = 0 → f = nil
  | nil, _ => rfl

theorem mem_leaves_iff (a : α) : ∀ f : Forest ω α, a ∈ f.leaves ↔ Token.leaf a ∈ f.tokens
  | nil => by simp
  | leaf b rest => by simp [mem_leaves_iff a rest]
  | group op members rest => by simp [mem_leaves_iff a members, mem_leaves_iff a rest]

theorem full_group (op : ω) (members rest : Forest ω α) :
    (group op members rest).full ↔
      members ≠ nil ∧ members.full ∧ rest.full := by
  cases members <;> simp

/-- Replace the leaves of a forest. -/
def map (g : α → β) : Forest ω α → Forest ω β
  | nil => nil
  | leaf a rest => leaf (g a) (rest.map g)
  | group op members rest => group op (members.map g) (rest.map g)

/-- Replace the leaf in a token. -/
def mapToken (g : α → β) : Token ω α → Token ω β
  | .leaf a => .leaf (g a)
  | .opening op => .opening op
  | .closing => .closing

attribute [local simp] map mapToken

theorem tokens_map (g : α → β) : ∀ f : Forest ω α, (f.map g).tokens = f.tokens.map (mapToken g)
  | nil => rfl
  | leaf a rest => by simp [tokens_map g rest]
  | group op members rest => by simp [tokens_map g members, tokens_map g rest]

theorem leaves_map (g : α → β) : ∀ f : Forest ω α, (f.map g).leaves = f.leaves.map g
  | nil => rfl
  | leaf a rest => by simp [leaves_map g rest]
  | group op members rest => by simp [leaves_map g members, leaves_map g rest]

theorem map_eq_nil_iff (g : α → β) (f : Forest ω α) : f.map g = nil ↔ f = nil := by
  cases f <;> simp

theorem full_map (g : α → β) : ∀ f : Forest ω α, (f.map g).full = f.full
  | nil => rfl
  | leaf a rest => by simp [full_map g rest]
  | group op members rest => by
      rw [Bool.eq_iff_iff, map, full_group, full_group, full_map g members, full_map g rest, ne_eq,
        map_eq_nil_iff]

theorem leaves_append : ∀ f g : Forest ω α, (f.append g).leaves = f.leaves ++ g.leaves
  | nil, _ => rfl
  | leaf a rest, g => by simp [leaves_append rest g]
  | group op members rest, g => by simp [leaves_append rest g]

theorem full_append : ∀ f g : Forest ω α, (f.append g).full = (f.full && g.full)
  | nil, _ => rfl
  | leaf a rest, g => full_append rest g
  | group op members rest, g => by
      rw [append, Bool.eq_iff_iff, full_group, full_append rest g]
      simp [full_group, and_assoc]

theorem eq_nil_of_leaves : ∀ {f : Forest ω α}, f.full → f.leaves = [] → f = nil
  | nil, _, _ => rfl
  | group op members rest, hfull, hleaves => by
      obtain ⟨hne, hmembers, -⟩ := (full_group op members rest).1 hfull
      rw [leaves, List.append_eq_nil_iff] at hleaves
      cases hne (eq_nil_of_leaves hmembers hleaves.1)

/-! ## Reading a token list -/

/-- Read one token, from right to left: the head of the stack is the sequence being read, those
below it continue the open groups. -/
def parseStep : Token ω α → Option (List (Forest ω α)) → Option (List (Forest ω α))
  | .leaf a, some (f :: stack) => some (leaf a f :: stack)
  | .closing, some stack => some (nil :: stack)
  | .opening op, some (members :: rest :: stack) => some (group op members rest :: stack)
  | _, _ => none

/-- Read a token list; `none` when its brackets do not match. -/
def parse (ts : List (Token ω α)) : Option (Forest ω α) :=
  match ts.foldr parseStep (some [nil]) with
  | some [f] => some f
  | _ => none

theorem foldr_parseStep_tokens :
    ∀ (f g : Forest ω α) (stack : List (Forest ω α)),
      f.tokens.foldr parseStep (some (g :: stack)) = some (f.append g :: stack)
  | nil, _, _ => rfl
  | leaf a rest, g, stack => by
      simp [foldr_parseStep_tokens rest g stack, parseStep]
  | group op members rest, g, stack => by
      simp only [tokens, List.foldr_cons, List.foldr_append, foldr_parseStep_tokens rest g stack,
        parseStep, foldr_parseStep_tokens members nil, append_nil, append]

/-- The tokens of a stack of sequences, one `closing` token between neighbours. -/
def stackTokens : List (Forest ω α) → List (Token ω α)
  | [] => []
  | [f] => f.tokens
  | f :: stack => f.tokens ++ .closing :: stackTokens stack

theorem stackTokens_cons_cons (f g : Forest ω α) (stack : List (Forest ω α)) :
    stackTokens (f :: g :: stack) = f.tokens ++ .closing :: stackTokens (g :: stack) := rfl

theorem stackTokens_of_foldr :
    ∀ (ts : List (Token ω α)) (stack : List (Forest ω α)),
      ts.foldr parseStep (some [nil]) = some stack → stack ≠ [] ∧ stackTokens stack = ts
  | [], stack, h => by
      obtain rfl : [nil] = stack := by simpa using h
      exact ⟨by simp, rfl⟩
  | t :: ts, stack, h => by
      rw [List.foldr_cons] at h
      cases hts : ts.foldr parseStep (some [nil]) with
      | none => rw [hts] at h; cases t <;> simp [parseStep] at h
      | some below =>
        obtain ⟨hne, ih⟩ := stackTokens_of_foldr ts below hts
        rw [hts] at h
        match t, below, h with
        | .leaf a, f :: stack', h =>
          obtain rfl : leaf a f :: stack' = stack := by simpa [parseStep] using h
          refine ⟨by simp, ?_⟩
          rw [← ih]
          cases stack' <;> simp [stackTokens]
        | .closing, f :: stack', h =>
          obtain rfl : nil :: f :: stack' = stack := by simpa [parseStep] using h
          exact ⟨by simp, by rw [stackTokens_cons_cons, ih]; rfl⟩
        | .opening op, members :: rest :: stack', h =>
          obtain rfl : group op members rest :: stack' = stack := by simpa [parseStep] using h
          refine ⟨by simp, ?_⟩
          rw [← ih]
          cases stack' <;> simp [stackTokens]

/-- **`parse` is the inverse of `tokens`**: it succeeds exactly on the token lists of forests,
and returns the forest. -/
theorem parse_eq_some_iff (ts : List (Token ω α)) (f : Forest ω α) :
    parse ts = some f ↔ f.tokens = ts := by
  constructor
  · intro h
    unfold parse at h
    split at h
    · next g hg =>
      cases h
      exact (stackTokens_of_foldr ts [f] hg).2
    · cases h
  · rintro rfl
    simp [parse, foldr_parseStep_tokens f nil []]

@[simp] theorem parse_tokens (f : Forest ω α) : parse f.tokens = some f :=
  (parse_eq_some_iff _ _).2 rfl

end Forest

/-! ## Boolean meaning -/

/-- The operators of a boolean expression. -/
inductive BoolOp where
  | and
  | or
  | not
deriving DecidableEq

namespace Forest

variable {α β ι : Type*} (total : Set ι) (leafValue : α → Set ι)

/-- The meaning of a sequence of operands under an operator. -/
def value : BoolOp → Forest BoolOp α → Set ι
  | .and, nil => Set.univ
  | .and, leaf a rest => leafValue a ∩ rest.value .and
  | .and, group op members rest => members.value op ∩ rest.value .and
  | .or, nil => ∅
  | .or, leaf a rest => leafValue a ∪ rest.value .or
  | .or, group op members rest => members.value op ∪ rest.value .or
  | .not, nil => total
  | .not, leaf a rest => rest.value .not \ leafValue a
  | .not, group op members rest => rest.value .not \ members.value op

attribute [local simp] value

theorem value_not : ∀ f : Forest BoolOp α,
    f.value total leafValue .not = total \ f.value total leafValue .or
  | nil => by simp
  | leaf a rest | group op members rest => by
      simp only [value, value_not rest, Set.sdiff_sdiff, Set.union_comm]

theorem value_not_subset (f : Forest BoolOp α) : f.value total leafValue .not ⊆ total := by
  rw [value_not]
  exact Set.sdiff_subset

theorem value_map (g : β → α) :
    ∀ (f : Forest BoolOp β) op,
      (f.map g).value total leafValue op = f.value total (fun b => leafValue (g b)) op
  | nil, op => by cases op <;> rfl
  | leaf b rest, op => by
      have ih := value_map g rest op
      cases op <;> simp only [map, value, ih]
  | group o members rest, op => by
      have ihMembers := value_map g members o
      have ihRest := value_map g rest op
      cases op <;> simp only [map, value, ihMembers, ihRest]

/-- Whether a document is in the value depends on the leaves and the total set at that document
only. -/
theorem mem_value_congr {total total' : Set ι} {leafValue leafValue'} {d : ι}
    (htotal : d ∈ total ↔ d ∈ total') :
    ∀ (f : Forest BoolOp α), (∀ a ∈ f.leaves, d ∈ leafValue a ↔ d ∈ leafValue' a) →
      ∀ op, d ∈ f.value total leafValue op ↔ d ∈ f.value total' leafValue' op
  | nil, _, op => by cases op <;> simp [htotal]
  | leaf a rest, h, op => by
      have ha := h a (by simp [leaves])
      have ih := mem_value_congr htotal rest (fun b hb => h b (by simp [leaves, hb])) op
      cases op <;> simp [ha, ih]
  | group o members rest, h, op => by
      have ihMembers := mem_value_congr htotal members (fun b hb => h b (by simp [leaves, hb])) o
      have ihRest := mem_value_congr htotal rest (fun b hb => h b (by simp [leaves, hb])) op
      cases op <;> simp [ihMembers, ihRest]

/-- How the operands of two sequences combine under an operator. -/
def combine : BoolOp → Set ι → Set ι → Set ι
  | .and, s, t => s ∩ t
  | .or, s, t => s ∪ t
  | .not, s, t => s ∩ t

theorem value_append (op : BoolOp) :
    ∀ f g : Forest BoolOp α, (f.append g).value total leafValue op =
      combine op (f.value total leafValue op) (g.value total leafValue op)
  | nil, g => by
      have h := value_not_subset total leafValue g
      cases op <;> simp [append, combine, h]
  | leaf a rest, g => by
      have ih := value_append op rest g
      ext d
      cases op <;>
        simp only [append, value, combine, ih, Set.mem_inter_iff, Set.mem_union, Set.mem_sdiff] <;>
        tauto
  | group o members rest, g => by
      have ih := value_append op rest g
      ext d
      cases op <;>
        simp only [append, value, combine, ih, Set.mem_inter_iff, Set.mem_union, Set.mem_sdiff] <;>
        tauto

theorem value_of_length_one {f : Forest BoolOp α} (h : f.length = 1) :
    f.value total leafValue .or = f.value total leafValue .and ∧
      f.value total leafValue .not = total \ f.value total leafValue .and := by
  cases f with
  | nil => cases h
  | leaf a rest | group op members rest =>
    obtain rfl : rest = nil := eq_nil_of_length (Nat.succ_injective h)
    simp

end Forest

end Bracketed
