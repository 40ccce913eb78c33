import MailServer.Lib.Run

/-!
# Two runs side by side

Two states of a system that nobody can tell apart: whatever happens next leads to the same states,
and whatever the system answers, as a function of its state and of what it is given, it answers
alike.

Principal result: `indistinguishable_iff` — for a system whose step is a function, only equal states
are so.
-/

namespace Runs

variable {σ α : Type*}

/-- What a system answers along a run. -/
def responses {ρ : Type} (step : σ → α → Option σ) (respond : σ → α → ρ) (s : σ) : List α → List ρ
  | [] => []
  | a :: as => respond s a :: ((step s a).map (fun s' => responses step respond s' as)).getD []

/-- **Nobody can tell the states apart**: not by a later state, and not by an answer. -/
structure Indistinguishable (step : σ → α → Option σ) (s t : σ) : Prop where
  states : ∀ run, exec step s run = exec step t run
  answers : ∀ {ρ : Type} (respond : σ → α → ρ) run,
    responses step respond s run = responses step respond t run

theorem indistinguishable_iff {step : σ → α → Option σ} {s t : σ} :
    Indistinguishable step s t ↔ s = t := by
  constructor
  · intro h
    exact Option.some_inj.1 (h.states [])
  · rintro rfl
    exact ⟨fun _ => rfl, fun _ _ => rfl⟩

end Runs
