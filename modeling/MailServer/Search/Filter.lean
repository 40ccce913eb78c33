import Mathlib.Data.Finset.SymmDiff
import MailServer.Lib.Bracketed

/-!
# Search filters

The filter language of the search store (`store/src/search/mod.rs`): a flat list of
`SearchFilter`s in which `And`, `Or` and `Not` open a group and `End` closes it.

`SearchFilter.token` reads such a list as a bracketed expression whose leaves are the
operators and the document sets, so that the forests of `Bracketed` are the expressions a
well-formed list stands for.
-/

namespace MailServer.Search

open Bracketed

/-- The 32-bit document ids of one account. -/
abbrev RoaringBitmap := Finset UInt32

/-- The 64-bit document ids of a global index. -/
abbrev RoaringTreemap := Finset UInt64

inductive SearchOperator where
  | lowerThan
  | lowerEqualThan
  | greaterThan
  | greaterEqualThan
  | equal
  | contains
deriving DecidableEq

inductive EmailSearchField where
  | «from» | to | cc | bcc | subject | body | attachment | receivedAt | sentAt | size
  | hasAttachment | headers
deriving DecidableEq

inductive CalendarSearchField where
  | title | description | location | owner | attendee | start | uid
deriving DecidableEq

inductive ContactSearchField where
  | member | kind | name | nickname | organization | email | phone | onlineService | address
  | note | uid
deriving DecidableEq

inductive FileSearchField where
  | name | content
deriving DecidableEq

inductive TracingSearchField where
  | eventType | queueId | keywords
deriving DecidableEq

inductive SearchField where
  | accountId
  | documentId
  | id
  | email (field : EmailSearchField)
  | calendar (field : CalendarSearchField)
  | contact (field : ContactSearchField)
  | file (field : FileSearchField)
  | tracing (field : TracingSearchField)
deriving DecidableEq

/-- The value an operator compares with, without the language of a text. -/
inductive SearchValue where
  | text (value : String)
  | keyValues (entries : List (String × String))
  | int (value : Int64)
  | uint (value : UInt64)
  | boolean (value : Bool)
deriving DecidableEq

inductive SearchFilter where
  | operator (field : SearchField) (op : SearchOperator) (value : SearchValue)
  | documentSet (set : RoaringBitmap)
  | and
  | or
  | not
  | end_
deriving DecidableEq

/-- The operands of a filter list that are not groups. -/
inductive Operand where
  | operator (field : SearchField) (op : SearchOperator) (value : SearchValue)
  | documentSet (set : RoaringBitmap)
deriving DecidableEq

/-- A filter as a token of a bracketed expression. -/
def SearchFilter.token : SearchFilter → Token BoolOp Operand
  | .operator field op value => .leaf (.operator field op value)
  | .documentSet set => .leaf (.documentSet set)
  | .and => .opening .and
  | .or => .opening .or
  | .not => .opening .not
  | .end_ => .closing

def SearchFilter.ofToken : Token BoolOp Operand → SearchFilter
  | .leaf (.operator field op value) => .operator field op value
  | .leaf (.documentSet set) => .documentSet set
  | .opening .and => .and
  | .opening .or => .or
  | .opening .not => .not
  | .closing => .end_

@[simp] theorem SearchFilter.ofToken_token : ∀ filter, ofToken filter.token = filter
  | .operator .. => rfl
  | .documentSet _ => rfl
  | .and => rfl
  | .or => rfl
  | .not => rfl
  | .end_ => rfl

@[simp] theorem SearchFilter.token_ofToken : ∀ t, (ofToken t).token = t
  | .leaf (.operator ..) => rfl
  | .leaf (.documentSet _) => rfl
  | .opening .and => rfl
  | .opening .or => rfl
  | .opening .not => rfl
  | .closing => rfl

/-- The filter list that writes an expression down. -/
def filtersOf (f : Forest BoolOp Operand) : List SearchFilter :=
  f.tokens.map SearchFilter.ofToken

@[simp] theorem filtersOf_nil : filtersOf .nil = [] := rfl

@[simp] theorem filtersOf_leaf (a : Operand) (rest : Forest BoolOp Operand) :
    filtersOf (.leaf a rest) = .ofToken (.leaf a) :: filtersOf rest := rfl

@[simp] theorem filtersOf_group (op : BoolOp) (members rest : Forest BoolOp Operand) :
    filtersOf (.group op members rest) =
      .ofToken (.opening op) :: (filtersOf members ++ .end_ :: filtersOf rest) := by
  simp [filtersOf, Forest.tokens, SearchFilter.ofToken]

@[simp] theorem filtersOf_append (f g : Forest BoolOp Operand) :
    filtersOf (f.append g) = filtersOf f ++ filtersOf g := by
  simp [filtersOf]

/-- The expression a filter list stands for; `none` when its groups are not balanced. -/
def expression (filters : List SearchFilter) : Option (Forest BoolOp Operand) :=
  Forest.parse (filters.map SearchFilter.token)

theorem expression_eq_some_iff (filters : List SearchFilter) (f : Forest BoolOp Operand) :
    expression filters = some f ↔ filters = filtersOf f := by
  rw [expression, Forest.parse_eq_some_iff, filtersOf]
  constructor
  · intro h
    simp [h, Function.comp_def]
  · rintro rfl
    simp [Function.comp_def]

end MailServer.Search
