import Mathlib.Data.List.Infix

/-!
# Public suffixes

`PublicSuffix` (`utils/src/suffixlist.rs`): the sets of rules that are read from a list, and the
part of a domain name that is registered below a public suffix.  `normalize` is `trim` and
`to_lowercase`; labels are listed from the right, in the order in which the loop meets them.

Principal result: `domainPart_iff`.
-/

namespace MailServer.Config

open List

abbrev Str := List Char

structure PublicSuffix where
  suffixes : List Str := []
  exceptions : List Str := []
  wildcards : List Str := []

inductive DomainPart where
  | sld
  | tld
  | host
deriving DecidableEq

section
variable (ps : PublicSuffix)

def PublicSuffix.contains (suffix : Str) : Bool :=
  decide (suffix ∈ ps.suffixes) ||
    (!decide (suffix ∈ ps.exceptions) && ps.wildcards.any (·.isSuffixOf suffix))

def PublicSuffix.addLine : Str → PublicSuffix
  | '/' :: '/' :: _ => ps
  | '*' :: domain => { ps with wildcards := ps.wildcards ++ [domain] }
  | '!' :: domain => { ps with exceptions := domain :: ps.exceptions }
  | line => { ps with suffixes := line :: ps.suffixes }

/-- The loop, with what is left of the position in reverse. -/
def PublicSuffix.scan (d : Str) (part : DomainPart) : Bool → Str → Str → Option Str
  | seen_dot, [], _ =>
    if seen_dot then if part = .sld then some d else none
    else if part = .host then some d else none
  | seen_dot, ch :: before, after =>
    if ch = '.' then
      if seen_dot then
        if ps.contains after then scan d part true before (ch :: after)
        else some (if part = .sld then after else before.reverse)
      else if part = .tld then some after
      else scan d part true before (ch :: after)
    else scan d part seen_dot before (ch :: after)

variable (normalize : Str → Str)

def PublicSuffix.domainPart (domain : Str) (part : DomainPart) : Option Str :=
  ps.scan (normalize domain) part false (normalize domain).reverse []

/-- `From<&str>`, of the lines of the list. -/
def PublicSuffix.ofLines (lines : List Str) : PublicSuffix :=
  let ps := (lines.map normalize).foldl addLine {}
  { ps with suffixes := "onion".toList :: ps.suffixes }

end

/-! ## The algorithm -/

def name : List Str → Str
  | [] => []
  | [label] => label
  | label :: labels => name labels ++ '.' :: label

inductive SuffixRule where
  | plain (labels : List Str)
  | wildcard (labels : List Str)
  | exception (labels : List Str)

def SuffixRule.line : SuffixRule → Str
  | .plain labels => name labels
  | .wildcard labels => '*' :: '.' :: name labels
  | .exception labels => '!' :: name labels

/-- The length of the suffix by an exception rule, where it matches. -/
def SuffixRule.excepts (labels : List Str) : SuffixRule → Option ℕ
  | .exception own => if own.isPrefixOf labels then some (own.length - 1) else none
  | _ => none

def SuffixRule.covers (labels : List Str) : SuffixRule → ℕ
  | .plain own => if own.isPrefixOf labels then own.length else 0
  | .wildcard own =>
    if own.isPrefixOf labels ∧ own.length < labels.length then own.length + 1 else 0
  | .exception _ => 0

/-- The number of labels of the public suffix. -/
def suffixLength (rules : List SuffixRule) (labels : List Str) : ℕ :=
  ((rules.findSome? (·.excepts labels)).getD ((rules.map (·.covers labels)).foldr max 1))

/-! ## The loop, label by label -/

attribute [local simp] name PublicSuffix.scan

theorem name_append {labels : List Str} (h : labels ≠ []) (label : Str) :
    name (labels ++ [label]) = label ++ '.' :: name labels := by
  induction labels with
  | nil => cases h rfl
  | cons first rest ih =>
    cases rest with
    | nil => rfl
    | cons second rest =>
      have hrest := ih (by simp)
      simp only [cons_append, name] at hrest ⊢
      rw [hrest]
      simp

theorem count_name {labels : List Str} (h : ∀ label ∈ labels, '.' ∉ label) :
    (name labels).count '.' = labels.length - 1 := by
  induction labels with
  | nil => rfl
  | cons first rest ih =>
    have hfirst : first.count '.' = 0 := count_eq_zero.2 (h first (by simp))
    cases rest with
    | nil => exact hfirst
    | cons second rest =>
      have hrest := ih fun label hlabel => h label (.tail _ hlabel)
      simp [hrest, hfirst]

/-- What is left of a position between labels, in reverse. -/
def leftOf : List Str → Str
  | [] => []
  | labels => '.' :: (name labels).reverse

theorem reverse_name (label : Str) (labels : List Str) :
    (name (label :: labels)).reverse = label.reverse ++ leftOf labels := by
  cases labels <;> simp [leftOf]

section
variable {ps : PublicSuffix} {d : Str} {part : DomainPart} {seen_dot : Bool}

theorem scan_label {label : Str} (h : '.' ∉ label) (before after : Str) :
    ps.scan d part seen_dot (label.reverse ++ before) after =
      ps.scan d part seen_dot before (label ++ after) := by
  induction label using reverseRecOn generalizing after with
  | nil => rfl
  | append_singleton init ch ih =>
    simp only [mem_append, mem_singleton, not_or] at h
    simp [Ne.symm h.2, ih h.1]

/-- The loop stops behind `m` labels. -/
structure StopsAt (ps : PublicSuffix) (labels : List Str) (start m : ℕ) : Prop where
  start_le : start ≤ m
  le : m ≤ labels.length
  listed : ∀ j, start ≤ j → j < m → ps.contains (name (labels.take j))
  stop : m = labels.length ∨ ¬ ps.contains (name (labels.take m))

def answer (labels : List Str) (part : DomainPart) (m : ℕ) : Option Str :=
  if m = labels.length then if part = .sld then some (name labels) else none
  else some (if part = .sld then name (labels.take m) else name (labels.drop m))

theorem scan_stops {passed rest : List Str} (hpassed : passed ≠ [])
    (hdots : ∀ label ∈ rest, '.' ∉ label) :
    ∃ m, StopsAt ps (passed ++ rest) passed.length m ∧ ∀ part,
      ps.scan (name (passed ++ rest)) part true (leftOf rest) (name passed) =
        answer (passed ++ rest) part m := by
  induction rest generalizing passed with
  | nil =>
    refine ⟨passed.length, ⟨le_rfl, by simp, fun j hj hlt => absurd hj (by omega), by simp⟩,
      fun part => by simp [leftOf, answer]⟩
  | cons label rest ih =>
    by_cases hlisted : ps.contains (name passed)
    · obtain ⟨m, hstops, hscan⟩ := @ih (passed ++ [label]) (by simp)
        fun l hl => hdots l (.tail _ hl)
      simp only [append_assoc, singleton_append, length_append] at hstops hscan
      refine ⟨m, ⟨by have := hstops.start_le; omega, hstops.le, fun j hj hlt => ?_, hstops.stop⟩,
        fun part => ?_⟩
      · rcases Nat.eq_or_lt_of_le hj with rfl | hj
        · simpa using hlisted
        · exact hstops.listed j hj hlt
      · rw [← hscan, name_append hpassed, ← scan_label (hdots label (by simp)), ← reverse_name]
        simp [leftOf, hlisted]
    · refine ⟨passed.length, ⟨le_rfl, by simp, fun j hj hlt => absurd hj (by omega),
        .inr (by simpa using hlisted)⟩, fun part => ?_⟩
      simp [leftOf, hlisted, answer]

end

section
variable {normalize : Str → Str} {rules : List SuffixRule} {labels : List Str}

theorem answer_sld (labels : List Str) (m : ℕ) :
    answer labels .sld m = some (name (labels.take m)) := by
  unfold answer
  split
  case isTrue h => simp [h]
  case isFalse => rfl

/-- The registrable domain is found where every level from two labels up to the public suffix is
listed and the next is not. -/
theorem domainPart_iff (hdots : ∀ label ∈ labels, '.' ∉ label)
    (hname : normalize (name labels) = name labels)
    (hlen : suffixLength rules labels < labels.length) :
    let ps := PublicSuffix.ofLines normalize (rules.map (·.line))
    let k := suffixLength rules labels
    (ps.domainPart normalize (name labels) .sld = some (name (labels.take (k + 1))) ∧
      ps.domainPart normalize (name labels) .host =
        if k + 1 = labels.length then none else some (name (labels.drop (k + 1)))) ↔
    StopsAt ps labels 2 (k + 1) := by
  intro ps k
  have hk : k < labels.length := hlen
  clear_value ps k
  unfold PublicSuffix.domainPart
  rw [hname]
  match labels with
  | [] => simp at hlen
  | [label] =>
    have hsld : ps.scan label .sld false label.reverse [] = none := by
      rw [← append_nil label.reverse, scan_label (hdots label (by simp))]
      rfl
    refine iff_of_false (fun h => ?_) fun h => absurd (h.start_le.trans h.le) (by simp)
    exact absurd (hsld.symm.trans h.1) (by simp)
  | first :: second :: rest =>
    obtain ⟨m, hstops, hscan⟩ := @scan_stops ps [first, second] rest (by simp)
      fun label hlabel => hdots label (by simp [hlabel])
    have hpart : ∀ part ≠ .tld, ps.scan (name (first :: second :: rest)) part false
        (name (first :: second :: rest)).reverse [] = answer (first :: second :: rest) part m := by
      intro part hne
      refine Eq.trans ?_ (hscan part)
      rw [reverse_name, scan_label (hdots first (by simp)), append_nil]
      change ps.scan _ part false ('.' :: (name (second :: rest)).reverse) first = _
      rw [PublicSuffix.scan, if_neg hne, reverse_name,
        scan_label (hdots second (by simp))]
      rfl
    rw [hpart .sld (by simp), hpart .host (by simp), answer_sld]
    constructor
    · intro h
      have hcount := congrArg (·.map (count '.')) h.1
      have hdots' := fun j label hlabel => hdots label (mem_of_mem_take (i := j) hlabel)
      have hstart : 2 ≤ m := hstops.start_le
      have hle : m ≤ rest.length + 1 + 1 := hstops.le
      simp only [Option.map_some, Option.some_inj, count_name (hdots' _), length_take] at hcount
      have hm : m = k + 1 := by
        simp only [length_cons] at hk hcount
        omega
      exact hm ▸ hstops
    · intro h
      have hm : m = k + 1 := by
        rcases Nat.lt_trichotomy m (k + 1) with hlt | heq | hgt
        · have hne := (hlt.trans_le h.le).ne
          cases hstops.stop.resolve_left hne (h.listed m hstops.start_le hlt)
        · exact heq
        · have hne := (hgt.trans_le hstops.le).ne
          cases h.stop.resolve_left hne (hstops.listed _ h.start_le hgt)
      rw [hm]
      exact ⟨rfl, by simp [answer]⟩

end

/-- `com` and `s3.amazonaws.com`. -/
def cloudRules : List SuffixRule :=
  [.plain ["com".toList], .plain ["com".toList, "amazonaws".toList, "s3".toList]]

theorem registrable_below_com :
    let ps := PublicSuffix.ofLines id (cloudRules.map (·.line))
    ((ps.domainPart id "mx.example.com".toList .sld = some "example.com".toList ∧
      ps.domainPart id "mx.example.com".toList .host = some "mx".toList) ↔
    StopsAt ps ["com".toList, "example".toList, "mx".toList] 2 2) ∧
    StopsAt ps ["com".toList, "example".toList, "mx".toList] 2 2 := by
  intro ps
  have hiff := @domainPart_iff id cloudRules ["com".toList, "example".toList, "mx".toList]
    (by decide) rfl (by decide)
  exact ⟨hiff, hiff.1 ⟨rfl, rfl⟩⟩

/-- Of `x.s3.amazonaws.com`, `amazonaws.com` is returned. -/
theorem level_between_not_listed :
    ¬ ∀ (normalize : Str → Str) (rules : List SuffixRule) (labels : List Str),
      (∀ label ∈ labels, '.' ∉ label) → normalize (name labels) = name labels →
      suffixLength rules labels < labels.length →
      (PublicSuffix.ofLines normalize (rules.map (·.line))).domainPart normalize
        (name labels) .sld =
        some (name (labels.take (suffixLength rules labels + 1))) := by
  intro h
  have hsld := h id cloudRules ["com".toList, "amazonaws".toList, "s3".toList, "x".toList]
    (by decide) rfl (by decide)
  cases hsld

end MailServer.Config
