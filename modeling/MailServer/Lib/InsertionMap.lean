import Mathlib.Data.List.Perm.Basic
import Mathlib.Data.List.Induction

/-!
# Maps kept in order of insertion

A small map as a list of pairs, searched from the front; a new key goes to the end.

Principal results: `flatMap_alter_perm`, `exists_mem_alter`; `keys_alter` — altering a key keeps the
order of the keys and appends a new one; `find_alter` — altering a key changes what is found under
it and nothing else; `flatMap_gather_perm`, `mem_keys_gather` — gathering values under keys loses
and repeats none.
-/

/-- A map as a list of pairs in order of insertion. -/
abbrev InsertionMap (κ ν : Type*) := List (κ × ν)

namespace InsertionMap

open List

variable {κ ν β : Type*} [DecidableEq κ]

/-- Applies `f` to the value of `key`, which is `default` when the key is new. -/
def alter (key : κ) (default : ν) (f : ν → ν) : InsertionMap κ ν → InsertionMap κ ν
  | [] => [(key, f default)]
  | entry :: rest =>
    if entry.1 = key then (entry.1, f entry.2) :: rest else entry :: alter key default f rest

def keys (m : InsertionMap κ ν) : List κ := m.map Prod.fst

attribute [local simp] alter keys

variable {key : κ} {default : ν} {f : ν → ν} {m : InsertionMap κ ν}

theorem keys_alter :
    keys (alter key default f m) = if key ∈ keys m then keys m else keys m ++ [key] := by
  induction m with
  | nil => rfl
  | cons entry rest ih =>
    unfold alter
    by_cases h : entry.1 = key
    · simp [h]
    · rw [if_neg h]
      change entry.1 :: keys (alter key default f rest) = _
      rw [ih]
      by_cases hmem : key ∈ keys rest
      · have hmem' : key ∈ keys (entry :: rest) := .tail _ hmem
        rw [if_pos hmem, if_pos hmem']
        rfl
      · have hmem' : key ∉ keys (entry :: rest) := fun hin =>
          (mem_cons.1 hin).elim (fun heq => h heq.symm) hmem
        rw [if_neg hmem, if_neg hmem']
        rfl

variable {k : κ}

theorem mem_keys_alter :
    k ∈ keys (alter key default f m) ↔ k = key ∨ k ∈ keys m := by
  rw [keys_alter]
  by_cases hmem : key ∈ keys m
  · rw [if_pos hmem]
    exact ⟨.inr, fun h => h.elim (fun heq => heq ▸ hmem) id⟩
  · rw [if_neg hmem, mem_append, mem_singleton]
    exact or_comm

theorem nodup_keys_alter (h : (keys m).Nodup) : (keys (alter key default f m)).Nodup := by
  rw [keys_alter]
  split
  · exact h
  · rename_i hnew
    exact nodup_append.2 ⟨h, pairwise_singleton _ key, fun k hk k' hk' heq =>
      hnew (mem_singleton.1 hk' ▸ heq ▸ hk)⟩

/-- The value of the first entry with the key. -/
def find (key : κ) : InsertionMap κ ν → Option ν
  | [] => none
  | entry :: rest => if entry.1 = key then some entry.2 else find key rest

attribute [local simp] find

theorem find_alter :
    find k (alter key default f m) =
      if k = key then some (f ((find key m).getD default)) else find k m := by
  induction m with
  | nil =>
    by_cases h : k = key
    · simp [h]
    · simp [h, Ne.symm h]
  | cons entry rest ih =>
    obtain ⟨k', v⟩ := entry
    by_cases hk' : k' = key
    · subst hk'
      by_cases h : k = k'
      · simp [h]
      · simp [h, Ne.symm h]
    · by_cases h : k' = k
      · have hne : k ≠ key := fun heq => hk' (h.trans heq)
        simp [h, hne]
      · simp [hk', h, ih]

omit [DecidableEq κ] in
theorem mem_keys_of_mem {k : κ} {v : ν} (h : (k, v) ∈ m) : k ∈ keys m :=
  mem_map.2 ⟨(k, v), h, rfl⟩

theorem find_eq_some {v : ν} (hnodup : (keys m).Nodup) :
    find k m = some v ↔ (k, v) ∈ m := by
  induction m with
  | nil => simp
  | cons entry rest ih =>
    obtain ⟨k', v'⟩ := entry
    obtain ⟨hnew, hrest⟩ := nodup_cons.1 hnodup
    by_cases h : k' = k
    · subst h
      have hno : (k', v) ∉ rest := fun hmem => hnew (mem_keys_of_mem hmem)
      simp [hno, eq_comm]
    · simp [h, ih hrest, Ne.symm h]

theorem find_eq_none (h : k ∉ keys m) : find k m = none := by
  induction m with
  | nil => rfl
  | cons entry rest ih =>
    obtain ⟨hne, hrest⟩ := not_or.1 fun hmem => h (mem_cons.2 hmem)
    unfold find
    rw [if_neg (fun heq => hne heq.symm)]
    exact ih hrest

theorem mem_of_find {v : ν} (h : find k m = some v) : ∃ entry ∈ m, entry.2 = v := by
  induction m with
  | nil => cases h
  | cons entry rest ih =>
    unfold find at h
    split at h
    · cases h
      exact ⟨entry, (.head _) .., rfl⟩
    · obtain ⟨e, he, heq⟩ := ih h
      exact ⟨e, .tail _ he, heq⟩

theorem find_append {m'} :
    find k (m ++ m') = (find k m).or (find k m') := by
  induction m with
  | nil => rfl
  | cons entry rest ih =>
    by_cases h : entry.1 = k
    · simp [h]
    · simp [h, ih]

/-- Sets the value of `key`. -/
def insert (key : κ) (v : ν) (m : InsertionMap κ ν) : InsertionMap κ ν :=
  alter key v (fun _ => v) m

/-- Drops every entry of `key`. -/
def remove (key : κ) (m : InsertionMap κ ν) : InsertionMap κ ν :=
  m.filter fun entry => decide (entry.1 ≠ key)

theorem find_insert {v : ν} :
    find k (insert key v m) = if k = key then some v else find k m := by
  unfold insert
  rw [find_alter]

theorem insert_of_notMem {v : ν} (h : key ∉ keys m) : insert key v m = m ++ [(key, v)] := by
  induction m with
  | nil => rfl
  | cons entry rest ih =>
    obtain ⟨hne, hrest⟩ := not_or.1 fun hmem => h (mem_cons.2 hmem)
    unfold insert alter
    rw [if_neg (fun heq => hne heq.symm)]
    exact congrArg (entry :: ·) (ih hrest)

theorem foldl_insert {entries} (hnodup : (keys (m ++ entries)).Nodup) :
    entries.foldl (fun m entry => insert entry.1 entry.2 m) m = m ++ entries := by
  induction entries generalizing m with
  | nil => exact (append_nil m).symm
  | cons entry rest ih =>
    have hsplit : m ++ entry :: rest = (m ++ [entry]) ++ rest := append_cons m entry rest
    have hnew : entry.1 ∉ keys m := by
      intro hmem
      rw [keys, map_append] at hnodup
      exact (nodup_append.1 hnodup).2.2 _ hmem _ ((.head _) ..) rfl
    rw [foldl_cons, insert_of_notMem hnew, hsplit]
    exact ih (hsplit ▸ hnodup)

theorem find_foldl_insert {batch} (hnodup : (keys batch).Nodup) :
    find k (batch.foldl (fun m entry => insert entry.1 entry.2 m) m) =
      (find k batch).or (find k m) := by
  induction batch generalizing m with
  | nil => rfl
  | cons entry rest ih =>
    obtain ⟨hnew, hrest⟩ := nodup_cons.1 hnodup
    rw [foldl_cons, ih hrest, find_insert]
    change _ = (if entry.1 = k then some entry.2 else find k rest).or _
    by_cases h : k = entry.1
    · subst h
      rw [if_pos rfl, if_pos rfl, find_eq_none hnew]
      rfl
    · rw [if_neg h, if_neg (Ne.symm h)]

theorem nodup_keys_foldl_insert {batch : List (κ × ν)} (h : (keys m).Nodup) :
    (keys (batch.foldl (fun m entry => insert entry.1 entry.2 m) m)).Nodup := by
  induction batch generalizing m with
  | nil => exact h
  | cons entry rest ih => exact ih (nodup_keys_alter h)

theorem find_filter_key (p : κ → Bool) :
    find k (m.filter fun entry => p entry.1) = if p k then find k m else none := by
  induction m with
  | nil => simp
  | cons entry rest ih =>
    by_cases hp : p entry.1
    · rw [filter_cons_of_pos (p := fun entry : κ × ν => p entry.1) hp, find, find, ih]
      by_cases h : entry.1 = k
      · subst h
        rw [if_pos rfl, if_pos rfl, if_pos hp]
      · rw [if_neg h, if_neg h]
    · rw [filter_cons_of_neg (p := fun entry : κ × ν => p entry.1) hp, ih, find]
      by_cases h : entry.1 = k
      · subst h
        rw [if_neg hp, if_neg hp]
      · rw [if_neg h]

theorem foldl_remove (gone : List κ) :
    gone.foldl (fun m key => remove key m) m = m.filter fun entry => decide (entry.1 ∉ gone) := by
  induction gone generalizing m with
  | nil => simp
  | cons key rest ih =>
    rw [foldl_cons, ih, remove, filter_filter]
    refine filter_congr fun entry _ => ?_
    simp [Bool.and_comm]

theorem find_remove : find k (remove key m) = if k = key then none else find k m := by
  induction m with
  | nil => simp [remove]
  | cons entry rest ih =>
    unfold remove at ih ⊢
    by_cases h : entry.1 = key
    · rw [filter_cons_of_neg (by simp [h]), ih]
      by_cases hk : k = key
      · rw [if_pos hk, if_pos hk]
      · rw [if_neg hk, if_neg hk, find, if_neg fun heq => hk (heq.symm.trans h)]
    · rw [filter_cons_of_pos (by simp [h]), find, ih, find]
      by_cases hentry : entry.1 = k
      · rw [if_pos hentry, if_pos hentry, if_neg fun heq => h (hentry.trans heq)]
      · rw [if_neg hentry, if_neg hentry]

theorem nodup_keys_remove (h : (keys m).Nodup) : (keys (remove key m)).Nodup :=
  h.sublist (filter_sublist.map Prod.fst)

theorem alter_ne_nil : alter key default f m ≠ [] := by
  cases m with
  | nil => exact cons_ne_nil _ _
  | cons entry rest =>
    unfold alter
    split
    · exact cons_ne_nil _ _
    · exact cons_ne_nil _ _

/-- What is read off entry by entry, when the altered entry gains `extra`. -/
theorem flatMap_alter_perm {read} {extra : List β}
    (hnew : read (key, f default) = extra)
    (hold : ∀ v, (read (key, f v)).Perm (read (key, v) ++ extra)) :
    ((alter key default f m).flatMap read).Perm (m.flatMap read ++ extra) := by
  induction m with
  | nil => simp [hnew]
  | cons entry rest ih =>
    unfold alter
    by_cases h : entry.1 = key
    · rw [if_pos h]
      obtain ⟨k, v⟩ := entry
      obtain rfl : k = key := h
      have hswap : (extra ++ rest.flatMap read).Perm (rest.flatMap read ++ extra) :=
        perm_append_comm
      calc (((k, f v) :: rest).flatMap read)
          = read (k, f v) ++ rest.flatMap read := flatMap_cons
        _ |>.Perm ((read (k, v) ++ extra) ++ rest.flatMap read) := (hold v).append_right _
        _ |>.Perm (read (k, v) ++ (rest.flatMap read ++ extra)) := by
            rw [append_assoc]
            exact hswap.append_left _
        _ = ((k, v) :: rest).flatMap read ++ extra := by
            rw [flatMap_cons, append_assoc]
    · rw [if_neg h, flatMap_cons, flatMap_cons, append_assoc]
      exact ih.append_left _

/-- A property of the values that altering keeps, and that it establishes if `Q`. -/
theorem exists_mem_alter {P : ν → Prop} {Q : Prop}
    (hnew : P (f default) ↔ Q) (hold : ∀ v, P (f v) ↔ P v ∨ Q) :
    (∃ e ∈ alter key default f m, e.1 = k ∧ P e.2) ↔
      (∃ e ∈ m, e.1 = k ∧ P e.2) ∨ (k = key ∧ Q) := by
  induction m with
  | nil =>
    simp only [alter, mem_singleton, exists_eq_left, not_mem_nil, false_and,
      exists_false, false_or, hnew, eq_comm]
  | cons entry rest ih =>
    unfold alter
    by_cases h : entry.1 = key
    · rw [if_pos h]
      simp only [mem_cons, exists_eq_or_imp, hold, h, and_or_left, eq_comm (a := k)]
      exact or_right_comm
    · rw [if_neg h]
      simp only [mem_cons, exists_eq_or_imp, or_assoc]
      rw [ih]

theorem forall_mem_alter {P : ν → Prop} (hnew : P (f default))
    (hold : ∀ v, P v → P (f v)) (h : ∀ entry ∈ m, P entry.2) :
    ∀ entry ∈ alter key default f m, P entry.2 := by
  induction m with
  | nil =>
    intro entry hentry
    rw [mem_singleton.1 hentry]
    exact hnew
  | cons entry rest ih =>
    obtain ⟨hentry, hrest⟩ := forall_mem_cons.1 h
    unfold alter
    split
    · exact forall_mem_cons.2 ⟨hold _ hentry, hrest⟩
    · exact forall_mem_cons.2 ⟨hentry, ih hrest⟩

variable (entries : List (κ × β))

/-- Gathers values under their keys, both in order of appearance. -/
def gather : InsertionMap κ (List β) :=
  entries.foldl (fun m entry => alter entry.1 [] (· ++ [entry.2]) m) []

theorem pairs_gather_perm :
    ((gather entries).flatMap fun entry => entry.2.map (Prod.mk entry.1)).Perm entries := by
  induction entries using reverseRecOn with
  | nil => exact List.Perm.nil
  | append_singleton entries entry ih =>
    rw [gather, foldl_append]
    have hstep : ((alter entry.1 [] (· ++ [entry.2]) (gather entries)).flatMap
          fun entry => entry.2.map (Prod.mk entry.1)).Perm
        (((gather entries).flatMap fun entry => entry.2.map (Prod.mk entry.1)) ++
          [(entry.1, entry.2)]) :=
      flatMap_alter_perm rfl fun vs => List.Perm.of_eq map_append
    exact hstep.trans (ih.append_right _)

theorem flatMap_gather_perm :
    ((gather entries).flatMap Prod.snd).Perm (entries.map Prod.snd) := by
  induction entries using reverseRecOn with
  | nil => exact List.Perm.nil
  | append_singleton entries entry ih =>
    rw [gather, foldl_append, map_append]
    have hstep : ((alter entry.1 [] (· ++ [entry.2]) (gather entries)).flatMap Prod.snd).Perm
        ((gather entries).flatMap Prod.snd ++ [entry.2]) :=
      flatMap_alter_perm rfl fun _ => List.Perm.refl _
    exact hstep.trans (ih.append_right _)

theorem mem_keys_gather {entries : List (κ × β)} :
    k ∈ keys (gather entries) ↔ ∃ v, (k, v) ∈ entries := by
  induction entries using reverseRecOn with
  | nil => simp [gather]
  | append_singleton entries entry ih =>
    rw [gather, foldl_append, foldl_cons, foldl_nil, mem_keys_alter]
    constructor
    · rintro (rfl | h)
      · exact ⟨entry.2, mem_append_right _ (mem_singleton.2 rfl)⟩
      · obtain ⟨v, hv⟩ := ih.1 h
        exact ⟨v, mem_append_left _ hv⟩
    · rintro ⟨v, hv⟩
      rcases mem_append.1 hv with hv | hv
      · exact .inr (ih.2 ⟨v, hv⟩)
      · exact .inl (congrArg Prod.fst (mem_singleton.1 hv))

theorem nodup_keys_gather : (keys (gather entries)).Nodup := by
  induction entries using reverseRecOn with
  | nil => exact nodup_nil
  | append_singleton entries entry ih =>
    rw [gather, foldl_append]
    exact nodup_keys_alter ih

theorem find_gather (k : κ) :
    (find k (gather entries)).getD [] =
      (entries.filter fun entry => decide (entry.1 = k)).map Prod.snd := by
  induction entries using reverseRecOn with
  | nil => rfl
  | append_singleton entries entry ih =>
    rw [gather, foldl_append, foldl_cons, foldl_nil, find_alter, filter_append,
      map_append, ← ih]
    by_cases h : k = entry.1
    · subst h
      simp [gather]
    · rw [if_neg h, filter_cons_of_neg (by simp [Ne.symm h])]
      exact (append_nil _).symm

end InsertionMap
