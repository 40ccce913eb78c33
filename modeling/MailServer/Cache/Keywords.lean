import Mathlib.Data.List.Induction
import Mathlib.Data.List.Nodup
import Mathlib.Tactic.IntervalCases

/-!
# Keywords in the message cache

The cache keeps the keywords of a message as the bits of an integer (`email/src/cache/email.rs`): a
standard keyword has a bit of its own, a custom one the bit of its place in a table that all
messages share and that holds 99 names.

Principal results: `shown_addKeywords`, `Shown.grow`, `expandKeywords_of_shown`.
-/

namespace MailServer.Cache

open List

/-! ## Keywords and their ids -/

inductive Keyword where
  | other (name : String)
  | seen
  | draft
  | flagged
  | answered
  | recent
  | important
  | phishing
  | junk
  | notJunk
  | deleted
  | forwarded
  | mdnSent
  | autosent
  | canUnsubscribe
  | followed
  | hasAttachment
  | hasMemo
  | hasNoAttachment
  | imported
  | isTrusted
  | mailFlagBit0
  | mailFlagBit1
  | mailFlagBit2
  | maskedEmail
  | memo
  | muted
  | new
  | notify
  | unsubscribed
deriving DecidableEq

variable {bits : BitVec 128} {stored : List Keyword} {table : List String} {keyword : Keyword}

def OTHER : ℕ := 29

def Keyword.id : Keyword → Except String ℕ
  | .seen => .ok 0
  | .draft => .ok 1
  | .flagged => .ok 2
  | .answered => .ok 3
  | .recent => .ok 4
  | .important => .ok 5
  | .phishing => .ok 6
  | .junk => .ok 7
  | .notJunk => .ok 8
  | .deleted => .ok 9
  | .forwarded => .ok 10
  | .mdnSent => .ok 11
  | .autosent => .ok 12
  | .canUnsubscribe => .ok 13
  | .followed => .ok 14
  | .hasAttachment => .ok 15
  | .hasMemo => .ok 16
  | .hasNoAttachment => .ok 17
  | .imported => .ok 18
  | .isTrusted => .ok 19
  | .mailFlagBit0 => .ok 20
  | .mailFlagBit1 => .ok 21
  | .mailFlagBit2 => .ok 22
  | .maskedEmail => .ok 23
  | .memo => .ok 24
  | .muted => .ok 25
  | .new => .ok 26
  | .notify => .ok 27
  | .unsubscribed => .ok 28
  | .other name => .error name

def Keyword.tryFromId : ℕ → Except ℕ Keyword
  | 0 => .ok .seen
  | 1 => .ok .draft
  | 2 => .ok .flagged
  | 3 => .ok .answered
  | 4 => .ok .recent
  | 5 => .ok .important
  | 6 => .ok .phishing
  | 7 => .ok .junk
  | 8 => .ok .notJunk
  | 9 => .ok .deleted
  | 10 => .ok .forwarded
  | 11 => .ok .mdnSent
  | 12 => .ok .autosent
  | 13 => .ok .canUnsubscribe
  | 14 => .ok .followed
  | 15 => .ok .hasAttachment
  | 16 => .ok .hasMemo
  | 17 => .ok .hasNoAttachment
  | 18 => .ok .imported
  | 19 => .ok .isTrusted
  | 20 => .ok .mailFlagBit0
  | 21 => .ok .mailFlagBit1
  | 22 => .ok .mailFlagBit2
  | 23 => .ok .maskedEmail
  | 24 => .ok .memo
  | 25 => .ok .muted
  | 26 => .ok .new
  | 27 => .ok .notify
  | 28 => .ok .unsubscribed
  | id => .error id

theorem Keyword.tryFromId_id {id : ℕ} (h : keyword.id = .ok id) :
    Keyword.tryFromId id = .ok keyword := by
  cases keyword <;> cases h <;> rfl

theorem Keyword.id_lt {id : ℕ} (h : keyword.id = .ok id) : id < OTHER := by
  cases keyword <;> cases h <;> decide

theorem Keyword.eq_other {name : String} (h : keyword.id = .error name) :
    keyword = .other name := by
  cases keyword <;> cases h
  rfl

theorem Keyword.tryFromId_of_le {id : ℕ} (h : OTHER ≤ id) : Keyword.tryFromId id = .error id := by
  obtain ⟨k, rfl⟩ := Nat.exists_eq_add_of_le' h
  rfl

theorem Keyword.exists_tryFromId {id : ℕ} (h : id < OTHER) :
    ∃ keyword, Keyword.tryFromId id = .ok keyword ∧ keyword.id = .ok id := by
  unfold OTHER at h
  interval_cases id <;> exact ⟨_, rfl, rfl⟩

/-! ## Setting the bits -/

/-- The table of custom keywords and the bits of a message. -/
abbrev KeywordBits := List String × BitVec 128

/-- The loop body of `insert_item`; `none` of `idxOf?` is a name that is not in the table. -/
def addKeyword (state : KeywordBits) (keyword : Keyword) : KeywordBits :=
  match keyword.id with
  | .ok id => (state.1, state.2 ||| 1#128 <<< id)
  | .error custom =>
    match state.1.idxOf? custom with
    | some idx => (state.1, state.2 ||| 1#128 <<< (OTHER + idx))
    | none =>
      if state.1.length < 128 - OTHER then
        (state.1 ++ [custom],
          state.2 ||| 1#128 <<< (OTHER + (state.1 ++ [custom]).length - 1))
      else state

/-- The table and the bits after the keywords of a message. -/
def addKeywords (table : List String) (keywords : List Keyword) : KeywordBits :=
  keywords.foldl addKeyword (table, 0#128)

/-- A table of custom keywords. -/
structure IsTable (table : List String) : Prop where
  nodup : table.Nodup
  length_le : table.length ≤ 128 - OTHER

/-- The bits say which keywords are stored, and the table has no room for one that it lacks. -/
structure Shown (stored : List Keyword) (table : List String) (bits : BitVec 128) : Prop where
  standard : ∀ keyword id, keyword.id = .ok id → (bits.getLsbD id ↔ keyword ∈ stored)
  custom : ∀ name idx, table[idx]? = some name →
    (bits.getLsbD (OTHER + idx) ↔ Keyword.other name ∈ stored)
  known : ∀ i, bits.getLsbD i → i < OTHER + table.length
  missing : ∀ name, Keyword.other name ∈ stored → name ∉ table → table.length = 128 - OTHER

theorem isTable_nil : IsTable [] := ⟨nodup_nil, Nat.zero_le _⟩

theorem shown_nil (table : List String) : Shown [] table 0#128 where
  standard := by simp
  custom := by simp
  known := by simp
  missing := by simp

theorem getLsbD_setBit (bits : BitVec 128) {i : ℕ} (hi : i < 128) (j : ℕ) :
    (bits ||| 1#128 <<< i).getLsbD j ↔ bits.getLsbD j ∨ j = i := by
  rw [BitVec.getLsbD_or, BitVec.getLsbD_shiftLeft, BitVec.getLsbD_one, Bool.or_eq_true]
  refine or_congr_right ?_
  simp only [Bool.and_eq_true, decide_eq_true_eq, Bool.not_eq_true', decide_eq_false_iff_not]
  omega

/-- **A table that has grown** says the same about the keywords it had. -/
theorem Shown.grow {table table' : List String}
    (h : Shown stored table bits) (hextends : table <+: table') (htable : IsTable table') :
    Shown stored table' bits := by
  obtain ⟨extra, rfl⟩ := hextends
  refine ⟨h.standard, fun name idx hidx => ?_, fun i hi => ?_, fun name hstored hnew => ?_⟩
  · by_cases hlt : idx < table.length
    · rw [getElem?_append_left hlt] at hidx
      exact h.custom name idx hidx
    · -- a name that came later was not stored, or there would have been no room for it
      have hoff : ¬ bits.getLsbD (OTHER + idx) := fun hbit => by
        have hknown := h.known _ hbit
        omega
      refine iff_of_false hoff fun hstored => ?_
      have hmem : name ∈ extra := by
        rw [getElem?_append_right (by omega)] at hidx
        exact mem_of_getElem? hidx
      have hnew : name ∉ table := fun hold =>
        (nodup_append.1 htable.nodup).2.2 name hold name hmem rfl
      have hfull := h.missing name hstored hnew
      have hle := htable.length_le
      rw [length_append] at hle
      have hpos := length_pos_of_mem hmem
      omega
  · have hknown := h.known i hi
    rw [length_append]
    omega
  · have hfull := h.missing name hstored fun hold => hnew (mem_append_left _ hold)
    have hle := htable.length_le
    rw [length_append] at hle ⊢
    omega

theorem Shown.setBit (h : Shown stored table bits) {i : ℕ}
    (hi : keyword.id = .ok i ∨ ∃ name idx, keyword = .other name ∧ table[idx]? = some name ∧
      i = OTHER + idx)
    (htable : IsTable table) : Shown (stored ++ [keyword]) table (bits ||| 1#128 <<< i) := by
  have hlt : i < OTHER + table.length := by
    rcases hi with hid | ⟨name, idx, -, hidx, rfl⟩
    · have hlt := Keyword.id_lt hid
      omega
    · have hlt := (List.getElem?_eq_some_iff.1 hidx).1
      omega
  have hi128 : i < 128 := by
    have hle := htable.length_le
    unfold OTHER at *
    omega
  refine ⟨fun k id hid => ?_, fun name idx hidx => ?_, fun j hj => ?_, fun name hstored => ?_⟩
  · rw [getLsbD_setBit bits hi128, h.standard k id hid, mem_append, mem_singleton]
    refine or_congr_right ⟨?_, ?_⟩
    · rintro rfl
      rcases hi with hid' | ⟨name, idx, -, -, rfl⟩
      · exact Except.ok.inj ((Keyword.tryFromId_id hid).symm.trans (Keyword.tryFromId_id hid'))
      · have hlt := Keyword.id_lt hid
        omega
    · rintro rfl
      rcases hi with hid' | ⟨name, idx, rfl, -, -⟩
      · exact Except.ok.inj (hid.symm.trans hid')
      · cases hid
  · rw [getLsbD_setBit bits hi128, h.custom name idx hidx, mem_append, mem_singleton]
    refine or_congr_right ⟨?_, ?_⟩
    · rintro rfl
      rcases hi with hid | ⟨name', idx', rfl, hidx', heq⟩
      · have hlt := Keyword.id_lt hid
        omega
      · obtain rfl : idx = idx' := Nat.add_left_cancel heq
        rw [Option.some.inj (hidx.symm.trans hidx')]
    · rintro rfl
      rcases hi with hid | ⟨name', idx', hother, hidx', rfl⟩
      · cases hid
      · cases hother
        obtain ⟨hlt, heq⟩ := List.getElem?_eq_some_iff.1 hidx
        obtain ⟨hlt', heq'⟩ := List.getElem?_eq_some_iff.1 hidx'
        rw [htable.nodup.getElem_inj_iff.1 (heq.trans heq'.symm)]
  · rcases (getLsbD_setBit bits hi128 j).1 hj with hold | rfl
    · exact h.known j hold
    · exact hlt
  · intro hnew
    rcases mem_append.1 hstored with hold | hmem
    · exact h.missing name hold hnew
    · rw [mem_singleton] at hmem
      subst hmem
      rcases hi with hid | ⟨name', idx, hother, hidx, -⟩
      · cases hid
      · cases hother
        cases hnew (mem_of_getElem? hidx)

theorem shown_addKeyword
    (htable : IsTable table) (h : Shown stored table bits) (keyword : Keyword) :
    IsTable (addKeyword (table, bits) keyword).1 ∧
      table <+: (addKeyword (table, bits) keyword).1 ∧
      Shown (stored ++ [keyword]) (addKeyword (table, bits) keyword).1
        (addKeyword (table, bits) keyword).2 := by
  unfold addKeyword
  cases hid : keyword.id with
  | ok id => exact ⟨htable, prefix_refl _, h.setBit (.inl hid) htable⟩
  | error custom =>
    obtain rfl := Keyword.eq_other hid
    dsimp only
    cases hidx : table.idxOf? custom with
    | some idx =>
      have hplace : table[idx]? = some custom := by
        obtain ⟨hlt, heq, -⟩ := idxOf?_eq_some_iff.1 hidx
        rw [getElem?_eq_getElem hlt, heq]
      exact ⟨htable, prefix_refl _, h.setBit (.inr ⟨custom, idx, rfl, hplace, rfl⟩) htable⟩
    | none =>
      have hnew : custom ∉ table := idxOf?_eq_none_iff.1 hidx
      split_ifs with hroom
      · have hgrown : IsTable (table ++ [custom]) := by
          refine ⟨nodup_append.2 ⟨htable.nodup, nodup_singleton _, ?_⟩, ?_⟩
          · intro name hname name' hname'
            rw [mem_singleton.1 hname']
            rintro rfl
            exact hnew hname
          · rw [length_append]
            exact hroom
        have hplace : (table ++ [custom])[table.length]? = some custom := by
          rw [getElem?_append_right (Nat.le_refl _), Nat.sub_self]
          rfl
        have hbit : OTHER + (table ++ [custom]).length - 1 = OTHER + table.length := by
          rw [length_append, length_singleton]
          omega
        refine ⟨hgrown, prefix_append _ _, ?_⟩
        rw [hbit]
        exact (h.grow (prefix_append _ _) hgrown).setBit
          (.inr ⟨custom, table.length, rfl, hplace, rfl⟩) hgrown
      · refine ⟨htable, prefix_refl _, ?_⟩
        have hfull : table.length = 128 - OTHER :=
          Nat.le_antisymm htable.length_le (Nat.le_of_not_lt hroom)
        refine ⟨fun k id hk => ?_, fun name idx hname => ?_, h.known, fun _ _ _ => hfull⟩
        · rw [h.standard k id hk, mem_append, mem_singleton]
          refine (or_iff_left ?_).symm
          rintro rfl
          cases hk
        · rw [h.custom name idx hname, mem_append, mem_singleton]
          refine (or_iff_left ?_).symm
          rintro ⟨⟩
          exact hnew (mem_of_getElem? hname)

/-- **The keywords of a message**, from the first to the last. -/
theorem shown_addKeywords (htable : IsTable table) (keywords : List Keyword) :
    IsTable (addKeywords table keywords).1 ∧ table <+: (addKeywords table keywords).1 ∧
      Shown keywords (addKeywords table keywords).1 (addKeywords table keywords).2 := by
  unfold addKeywords
  induction keywords using reverseRecOn with
  | nil => exact ⟨htable, prefix_refl _, shown_nil table⟩
  | append_singleton keywords keyword ih =>
    obtain ⟨hgrown, hextends, hshown⟩ := ih
    obtain ⟨hgrown', hextends', hshown'⟩ := shown_addKeyword hgrown hshown keyword
    rw [foldl_append]
    exact ⟨hgrown', hextends.trans hextends', hshown'⟩

/-! ## Reading the bits back -/

/-- `KeywordsIter::next` again and again: the highest bit that is set is given out and cleared. -/
def iterBits : ℕ → BitVec 128 → List ℕ
  | 0, _ => []
  | fuel + 1, bits =>
    if bits ≠ 0#128 then
      let item := bits.toNat.log2
      item :: iterBits fuel (bits ^^^ 1#128 <<< item)
    else []

/-- `KeywordsIter`: there are 128 bits to give out. -/
def keywordsIter (bits : BitVec 128) : List ℕ := iterBits 128 bits

/-- `expand_keywords`; `none` is an index past the end of the table. -/
def expandKeywords (table : List String) (bits : BitVec 128) : Option (List Keyword) :=
  (keywordsIter bits).mapM fun id =>
    match Keyword.tryFromId id with
    | .ok keyword => some keyword
    | .error id => (table[id - OTHER]?).map Keyword.other

theorem mem_iterBits {fuel : ℕ} (h : bits.toNat < 2 ^ fuel) (i : ℕ) :
    i ∈ iterBits fuel bits ↔ bits.getLsbD i := by
  induction fuel generalizing bits with
  | zero =>
    have hzero : bits = 0#128 := BitVec.eq_of_toNat_eq (by simpa using h)
    subst hzero
    simp [iterBits]
  | succ fuel ih =>
    unfold iterBits
    split_ifs with hne
    · have hnat : bits.toNat ≠ 0 := fun hzero => hne (BitVec.eq_of_toNat_eq (by simpa using hzero))
      have hlog : bits.toNat.log2 < 128 := (Nat.log2_lt hnat).2 bits.isLt
      have hcleared : ∀ j, (bits ^^^ 1#128 <<< bits.toNat.log2).getLsbD j ↔
          bits.getLsbD j ∧ j ≠ bits.toNat.log2 := by
        intro j
        have htop : bits.getLsbD bits.toNat.log2 := Nat.testBit_log2 hnat
        rw [BitVec.getLsbD_xor, BitVec.getLsbD_shiftLeft]
        by_cases hj : j = bits.toNat.log2
        · subst hj
          rw [htop, decide_eq_true hlog]
          simp
        · by_cases hlt : j < bits.toNat.log2
          · simp [hlt, hj]
          · have hne : j - bits.toNat.log2 ≠ 0 := by omega
            simp [hj, hne]
      have hlow : (bits ^^^ 1#128 <<< bits.toNat.log2).toNat < 2 ^ fuel := by
        have hfuel : bits.toNat.log2 < fuel + 1 := (Nat.log2_lt hnat).2 h
        refine Nat.lt_of_lt_of_le (Nat.lt_pow_two_of_testBit _ fun j hj => ?_)
          (Nat.pow_le_pow_right Nat.zero_lt_two (Nat.le_of_lt_succ hfuel))
        refine Bool.eq_false_iff.2 fun hbit => ?_
        obtain ⟨hold, hnotop⟩ := (hcleared j).1 hbit
        have hhigh : bits.toNat < 2 ^ j :=
          Nat.lt_of_lt_of_le Nat.lt_log2_self
            (Nat.pow_le_pow_right Nat.zero_lt_two (by omega))
        have hoff : bits.getLsbD j = false := Nat.testBit_lt_two_pow hhigh
        rw [hoff] at hold
        cases hold
      rw [mem_cons, ih hlow, hcleared]
      constructor
      · rintro (rfl | ⟨hbit, -⟩)
        · exact Nat.testBit_log2 hnat
        · exact hbit
      · intro hbit
        exact (em (i = bits.toNat.log2)).imp id fun hi => ⟨hbit, hi⟩
    · rw [not_not] at hne
      subst hne
      simp

/-- **The iterator gives out the bits that are set.** -/
theorem mem_keywordsIter (bits : BitVec 128) (i : ℕ) :
    i ∈ keywordsIter bits ↔ bits.getLsbD i :=
  mem_iterBits bits.isLt i

theorem exists_mapM {α β : Type} {f : α → Option β} {l : List α}
    (h : ∀ a ∈ l, ∃ b, f a = some b) :
    ∃ bs, l.mapM f = some bs ∧ ∀ b, b ∈ bs ↔ ∃ a ∈ l, f a = some b := by
  induction l with
  | nil => exact ⟨[], rfl, by simp⟩
  | cons a l ih =>
    obtain ⟨⟨b, hb⟩, hrest⟩ := forall_mem_cons.1 h
    obtain ⟨bs, hbs, hmem⟩ := ih hrest
    refine ⟨b :: bs, ?_, fun b' => ?_⟩
    · rw [mapM_cons, hb, hbs]
      rfl
    · rw [mem_cons, hmem]
      simp [hb, eq_comm]

/-- **What `expand_keywords` gives back**: the stored keywords, of the custom ones those that are in
the table. -/
theorem expandKeywords_of_shown {bits : BitVec 128} (h : Shown stored table bits) :
    ∃ keywords, expandKeywords table bits = some keywords ∧ ∀ keyword, keyword ∈ keywords ↔
      keyword ∈ stored ∧ ∀ name, keyword = .other name → name ∈ table := by
  -- what the iterator gives out one by one
  have hstandard : ∀ {i : ℕ} {keyword : Keyword}, Keyword.tryFromId i = .ok keyword →
      keyword.id = .ok i := by
    intro i keyword hi
    have hlt : i < OTHER := by
      by_contra hge
      rw [Keyword.tryFromId_of_le (Nat.le_of_not_lt hge)] at hi
      cases hi
    obtain ⟨keyword', hi', hid⟩ := Keyword.exists_tryFromId hlt
    rw [hi'] at hi
    cases hi
    exact hid
  have hcustom : ∀ {i j : ℕ}, Keyword.tryFromId i = .error j → OTHER ≤ i ∧ j = i := by
    intro i j hi
    have hge : OTHER ≤ i := by
      by_contra hlt
      obtain ⟨keyword, hi', -⟩ := Keyword.exists_tryFromId (Nat.lt_of_not_le hlt)
      rw [hi'] at hi
      cases hi
    rw [Keyword.tryFromId_of_le hge] at hi
    cases hi
    exact ⟨hge, rfl⟩
  obtain ⟨keywords, hexpand, hmem⟩ := exists_mapM
    (f := fun id => match Keyword.tryFromId id with
      | .ok keyword => some keyword
      | .error id => (table[id - OTHER]?).map Keyword.other)
    (l := keywordsIter bits) (fun i hi => by
      cases hid : Keyword.tryFromId i with
      | ok keyword => exact ⟨keyword, rfl⟩
      | error j =>
        obtain ⟨hge, rfl⟩ := hcustom hid
        have hknown := h.known j ((mem_keywordsIter bits j).1 hi)
        have hlt : j - OTHER < table.length := by omega
        exact ⟨.other table[j - OTHER], by
          dsimp only
          rw [getElem?_eq_getElem hlt]
          rfl⟩)
  refine ⟨keywords, hexpand, fun keyword => ?_⟩
  rw [hmem]
  constructor
  · rintro ⟨i, hi, hkeyword⟩
    rw [mem_keywordsIter] at hi
    cases hid : Keyword.tryFromId i with
    | ok standard =>
      rw [hid] at hkeyword
      cases hkeyword
      refine ⟨(h.standard _ i (hstandard hid)).1 hi, ?_⟩
      rintro name rfl
      cases hstandard hid
    | error j =>
      rw [hid] at hkeyword
      obtain ⟨hge, rfl⟩ := hcustom hid
      obtain ⟨name, hname, rfl⟩ := Option.map_eq_some_iff.1 hkeyword
      have hbit : bits.getLsbD (OTHER + (j - OTHER)) := by
        rw [Nat.add_sub_cancel' hge]
        exact hi
      refine ⟨(h.custom name _ hname).1 hbit, ?_⟩
      rintro name' ⟨⟩
      exact mem_of_getElem? hname
  · rintro ⟨hstored, htable⟩
    cases hid : keyword.id with
    | ok i =>
      refine ⟨i, (mem_keywordsIter bits i).2 ((h.standard keyword i hid).2 hstored), ?_⟩
      rw [Keyword.tryFromId_id hid]
    | error name =>
      obtain rfl := Keyword.eq_other hid
      obtain ⟨idx, hidx⟩ := getElem?_of_mem (htable name rfl)
      refine ⟨OTHER + idx, (mem_keywordsIter bits _).2 ((h.custom name idx hidx).2 hstored), ?_⟩
      rw [Keyword.tryFromId_of_le (Nat.le_add_right _ _)]
      dsimp only
      rw [Nat.add_sub_cancel_left, hidx]
      rfl

end MailServer.Cache
