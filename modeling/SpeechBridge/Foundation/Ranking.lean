import SpeechBridge.Foundation.Transition

namespace SpeechBridge.Foundation.Transition.System

variable {σ ι : Type*} {S : System σ ι} {P I : σ → Prop} {s t : σ} {l : ι}

def CanReach (S : System σ ι) (P : σ → Prop) (s : σ) : Prop :=
  ∃ ls t, S.run s ls = some t ∧ P t

theorem CanReach.here (h : P s) : S.CanReach P s := ⟨[], s, rfl, h⟩

theorem CanReach.step (hn : S.next s l = some t) (h : S.CanReach P t) : S.CanReach P s := by
  obtain ⟨ls, u, hr, hu⟩ := h
  exact ⟨l :: ls, u, by simp [run, hn, hr], hu⟩

/-- It is enough that, short of `P`, some step keeps `I` and brings the rank down. -/
theorem CanReach.of_rank (rank : σ → ℕ)
    (h : ∀ s, I s → P s ∨ ∃ l t, S.next s l = some t ∧ I t ∧ rank t < rank s) (hs : I s) :
    S.CanReach P s := by
  induction hn : rank s using Nat.strongRecOn generalizing s with
  | ind n ih =>
    rcases h s hs with hp | ⟨l, t, ht, hi, hlt⟩
    · exact .here hp
    · exact .step ht (ih (rank t) (hn ▸ hlt) hi rfl)

/-- What excludes `P` and is never left keeps `P` out of reach. -/
theorem not_canReach (hstep : ∀ s l t, I s → S.next s l = some t → I t)
    (hp : ∀ s, I s → ¬ P s) (hs : I s) : ¬ S.CanReach P s := by
  rintro ⟨ls, t, hr, ht⟩
  exact hp t (run_preserved (fun s l _ t ↦ hstep s l t) hs hr) ht

end SpeechBridge.Foundation.Transition.System
