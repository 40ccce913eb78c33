import Mathlib.Data.List.Basic

/-!
# Traversals that may fail

A list traversed with a function into `Except`: the traversal succeeds exactly when the function
does at every element, and what it yields is what the function yields at the elements, in order.
-/

namespace MailServer.Lib

open List

variable {ε α β : Type} {f : α → Except ε β}

theorem bind_eq_ok_iff {x : Except ε α} {y : β} :
    x >>= f = .ok y ↔ ∃ a, x = .ok a ∧ f a = .ok y := by
  cases x with
  | error e => exact ⟨(fun h => by cases h), fun ⟨_, h, _⟩ => by cases h⟩
  | ok a => exact ⟨fun h => ⟨a, rfl, h⟩, fun ⟨_, ha, h⟩ => by cases ha; exact h⟩

theorem bind_pure_eq_ok_iff {x : Except ε α} {g : α → β} {y : β} :
    (x >>= fun a => pure (g a)) = .ok y ↔ ∃ a, x = .ok a ∧ y = g a := by
  rw [bind_eq_ok_iff]
  refine exists_congr fun a => and_congr_right fun _ => ?_
  exact ⟨fun h => (Except.ok.inj h).symm, fun h => congrArg Except.ok h.symm⟩

theorem map_eq_ok_iff {x : Except ε α} {g : α → β} {y : β} :
    x.map g = .ok y ↔ ∃ a, x = .ok a ∧ y = g a := by
  cases x with
  | error e => exact ⟨(fun h => by cases h), (fun ⟨_, h, _⟩ => by cases h)⟩
  | ok a => exact ⟨fun h => ⟨a, rfl, (Except.ok.inj h).symm⟩,
    (fun ⟨_, ha, h⟩ => by cases ha; rw [h]; rfl)⟩

theorem mapError_eq_ok_iff {ε' : Type} {x : Except ε α} {f : ε → ε'} {y : α} :
    x.mapError f = .ok y ↔ x = .ok y := by
  cases x with
  | error e => exact ⟨(fun h => by cases h), (fun h => by cases h)⟩
  | ok a => exact ⟨fun h => congrArg Except.ok (Except.ok.inj h), fun h => by rw [h]; rfl⟩

theorem mapM_nil_eq_ok_iff {zs : List β} :
    ([] : List α).mapM f = .ok zs ↔ zs = [] := by
  simp [pure, Except.pure]

variable {xs : List α}

theorem mapM_cons_eq_ok_iff {x : α} {zs : List β} :
    (x :: xs).mapM f = .ok zs ↔
      ∃ y ys, f x = .ok y ∧ xs.mapM f = .ok ys ∧ zs = y :: ys := by
  rw [mapM_cons]
  constructor
  · intro h
    match hx : f x, hxs : xs.mapM f with
    | .error e, _ => rw [hx] at h; cases h
    | .ok y, .error e => rw [hx, hxs] at h; cases h
    | .ok y, .ok ys =>
      rw [hx, hxs] at h
      cases h
      exact ⟨y, ys, rfl, rfl, rfl⟩
  · rintro ⟨y, ys, hx, hxs, rfl⟩
    rw [hx, hxs]
    rfl

theorem mapM_ok (g : α → β) (xs : List α) :
    xs.mapM (fun x => (.ok (g x) : Except ε β)) = .ok (xs.map g) := by
  induction xs with
  | nil => exact mapM_nil_eq_ok_iff.2 rfl
  | cons x xs ih => exact mapM_cons_eq_ok_iff.2 ⟨g x, xs.map g, rfl, ih, rfl⟩

theorem exists_mapM_eq_ok_iff :
    (∃ ys, xs.mapM f = .ok ys) ↔ ∀ x ∈ xs, ∃ y, f x = .ok y := by
  induction xs with
  | nil => exact ⟨nofun, fun _ => ⟨[], mapM_nil_eq_ok_iff.2 rfl⟩⟩
  | cons x xs ih =>
    rw [forall_mem_cons, ← ih]
    constructor
    · rintro ⟨zs, h⟩
      obtain ⟨y, ys, hy, hys, -⟩ := mapM_cons_eq_ok_iff.1 h
      exact ⟨⟨y, hy⟩, ys, hys⟩
    · rintro ⟨⟨y, hy⟩, ys, hys⟩
      exact ⟨y :: ys, mapM_cons_eq_ok_iff.2 ⟨y, ys, hy, hys, rfl⟩⟩

theorem mem_of_mapM {ys : List β} (h : xs.mapM f = .ok ys)
    {y : β} : y ∈ ys ↔ ∃ x ∈ xs, f x = .ok y := by
  induction xs generalizing ys with
  | nil => simp [mapM_nil_eq_ok_iff.1 h]
  | cons x xs ih =>
    obtain ⟨z, zs, hz, hzs, rfl⟩ := mapM_cons_eq_ok_iff.1 h
    rw [mem_cons, ih hzs]
    constructor
    · rintro (rfl | ⟨x', hx', hy⟩)
      · exact ⟨x, .head _, hz⟩
      · exact ⟨x', .tail _ hx', hy⟩
    · rintro ⟨x', hx', hy⟩
      rcases mem_cons.1 hx' with rfl | hx'
      · rw [hz, Except.ok.injEq] at hy
        exact .inl hy.symm
      · exact .inr ⟨x', hx', hy⟩

theorem map_eq_of_mapM {γ : Type} {g : α → γ} {g' : β → γ}
    (hf : ∀ x y, f x = .ok y → g' y = g x) {ys : List β}
    (h : xs.mapM f = .ok ys) : ys.map g' = xs.map g := by
  induction xs generalizing ys with
  | nil => rw [mapM_nil_eq_ok_iff.1 h, map_nil, map_nil]
  | cons x xs ih =>
    obtain ⟨y, ys, hy, hys, rfl⟩ := mapM_cons_eq_ok_iff.1 h
    rw [map_cons, map_cons, hf x y hy, ih hys]

end MailServer.Lib
