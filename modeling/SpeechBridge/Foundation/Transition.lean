import Mathlib.Data.List.Basic
import Mathlib.Order.Defs.PartialOrder

namespace SpeechBridge.Foundation.Transition

/-- A labelled system whose step is determined by its label. A step that is not
enabled in a state, or that aborts the program there, has no successor. -/
structure System (σ ι : Type*) where
  init : σ → Prop
  next : σ → ι → Option σ

namespace System

variable {σ ι τ κ : Type*}

/-- A finite run: the steps taken, each with the state it was taken in, and the
state in which the run ends. -/
inductive Execution (S : System σ ι) : List (σ × ι) → σ → Prop
  | start {s : σ} : S.init s → Execution S [] s
  | step {tr : List (σ × ι)} {s t : σ} {l : ι} :
      Execution S tr s → S.next s l = some t → Execution S (tr ++ [(s, l)]) t

def Reachable (S : System σ ι) (s : σ) : Prop := ∃ tr, S.Execution tr s

def run (S : System σ ι) : σ → List ι → Option σ
  | s, [] => some s
  | s, l :: ls => (S.next s l).bind fun t ↦ run S t ls

def trace (S : System σ ι) : σ → List ι → List (σ × ι)
  | _, [] => []
  | s, l :: ls => (s, l) :: ((S.next s l).map fun t ↦ trace S t ls).getD []

variable {S : System σ ι}

theorem run_append {s t u : σ} {ls ls' : List ι} (h : S.run s ls = some t)
    (h' : S.run t ls' = some u) : S.run s (ls ++ ls') = some u := by
  induction ls generalizing s with
  | nil =>
    obtain rfl := Option.some.inj h
    exact h'
  | cons l ls ih =>
    simp only [run, Option.bind_eq_some_iff, List.cons_append] at h ⊢
    obtain ⟨v, hv, h⟩ := h
    exact ⟨v, hv, ih h⟩

theorem Execution.run {tr : List (σ × ι)} {s t : σ} {ls : List ι} (h : S.Execution tr s)
    (hr : S.run s ls = some t) : S.Execution (tr ++ S.trace s ls) t := by
  induction ls generalizing tr s with
  | nil =>
    simp only [System.run, Option.some.injEq] at hr
    simpa [trace] using hr ▸ h
  | cons l ls ih =>
    simp only [System.run, Option.bind_eq_some_iff] at hr
    obtain ⟨u, hu, hr⟩ := hr
    simpa [trace, hu] using ih (h.step hu) hr

theorem Execution.of_run {s t : σ} {ls : List ι} (h : S.init s) (hr : S.run s ls = some t) :
    S.Execution (S.trace s ls) t := (Execution.start h).run hr

theorem Reachable.start {s : σ} (h : S.init s) : S.Reachable s := ⟨[], .start h⟩

theorem Reachable.step {s t : σ} {l : ι} (h : S.Reachable s) (hs : S.next s l = some t) :
    S.Reachable t := by
  obtain ⟨tr, h⟩ := h
  exact ⟨tr ++ [(s, l)], .step h hs⟩

theorem Reachable.run {s t : σ} {ls : List ι} (h : S.Reachable s) (hr : S.run s ls = some t) :
    S.Reachable t := by
  obtain ⟨tr, h⟩ := h
  exact ⟨_, h.run hr⟩

theorem Reachable.induction {P : σ → Prop} (h₀ : ∀ s, S.init s → P s)
    (h₁ : ∀ s l t, S.Reachable s → P s → S.next s l = some t → P t)
    {s : σ} (h : S.Reachable s) : P s := by
  obtain ⟨tr, h⟩ := h
  induction h with
  | start hs => exact h₀ _ hs
  | step h hs ih => exact h₁ _ _ _ ⟨_, h⟩ ih hs

theorem Reachable.of_check {s : σ} (h : S.Reachable s) (ls : List ι) (check : σ → Bool)
    (hc : (S.run s ls).any check = true) : ∃ t, S.Reachable t ∧ check t = true := by
  cases hr : S.run s ls with
  | none => simp [hr] at hc
  | some t => exact ⟨t, h.run hr, by simpa [hr] using hc⟩

def restrict (S : System σ ι) (guard : σ → ι → Bool) : System σ ι where
  init := S.init
  next s l := if guard s l then S.next s l else none

theorem restrict_next {guard : σ → ι → Bool} {s t : σ} {l : ι} :
    (S.restrict guard).next s l = some t ↔ guard s l = true ∧ S.next s l = some t := by
  simp [restrict]

theorem Reachable.of_restrict {guard : σ → ι → Bool} {s : σ}
    (h : (S.restrict guard).Reachable s) : S.Reachable s := by
  refine Reachable.induction (S := S.restrict guard) (fun _ hs ↦ .start hs) ?_ h
  intro s l t _ ih hn
  exact ih.step (restrict_next.mp hn).2

structure Invariant (S : System σ ι) (I : σ → Prop) : Prop where
  start : ∀ s, S.init s → I s
  step : ∀ s l t, I s → S.next s l = some t → I t

theorem Invariant.reachable {I : σ → Prop} (h : S.Invariant I) {s : σ}
    (hs : S.Reachable s) : I s :=
  hs.induction h.start (fun s l t _ hi hn ↦ h.step s l t hi hn)

theorem run_preserved {I : σ → Prop} {ls : List ι}
    (h : ∀ s, ∀ l ∈ ls, ∀ t, I s → S.next s l = some t → I t)
    {s t : σ} (hi : I s) (hr : S.run s ls = some t) : I t := by
  induction ls generalizing s with
  | nil =>
    simp only [run, Option.some.injEq] at hr
    exact hr ▸ hi
  | cons l ls ih =>
    simp only [run, Option.bind_eq_some_iff] at hr
    obtain ⟨u, hu, hr⟩ := hr
    exact ih (fun s l hl ↦ h s l (List.mem_cons_of_mem _ hl)) (h s l (by simp) u hi hu) hr

theorem Execution.preserved {I : σ → Prop} {C : σ → ι → Prop} (h₀ : ∀ s, S.init s → I s)
    (h₁ : ∀ s l t, I s → C s l → S.next s l = some t → I t)
    {tr : List (σ × ι)} {s : σ} (h : S.Execution tr s) (hC : ∀ e ∈ tr, C e.1 e.2) :
    (∀ e ∈ tr, I e.1) ∧ I s := by
  induction h with
  | start hs => exact ⟨by simp, h₀ _ hs⟩
  | @step tr s t l h hs ih =>
    obtain ⟨hv, hi⟩ := ih (fun e he ↦ hC e (List.mem_append_left _ he))
    have hc : C s l := hC (s, l) (List.mem_append_right _ (by simp))
    refine ⟨fun e he ↦ ?_, h₁ s l t hi hc hs⟩
    rcases List.mem_append.mp he with he | he
    · exact hv e he
    · obtain rfl := List.mem_singleton.mp he
      exact hi

theorem Execution.le_of_step {α : Type*} [Preorder α] {f : σ → α}
    (hf : ∀ s l t, S.next s l = some t → f s ≤ f t)
    {tr : List (σ × ι)} {s : σ} (h : S.Execution tr s) : ∀ e ∈ tr, f e.1 ≤ f s := by
  induction h with
  | start hs => simp
  | @step tr s t l h hs ih =>
    intro e he
    rcases List.mem_append.mp he with he | he
    · exact le_trans (ih e he) (hf s l t hs)
    · obtain rfl := List.mem_singleton.mp he
      exact hf s l t hs

theorem Execution.visited {tr : List (σ × ι)} {s : σ} (h : S.Execution tr s) :
    ∀ e ∈ tr, S.Reachable e.1 := by
  induction h with
  | start hs => simp
  | @step tr s t l h hs ih =>
    intro e he
    rcases List.mem_append.mp he with he | he
    · exact ih e he
    · obtain rfl := List.mem_singleton.mp he
      exact ⟨tr, h⟩

theorem Execution.after {I : σ → Prop} {l₀ : ι} (h₀ : ∀ s t, S.next s l₀ = some t → I t)
    (h₁ : ∀ s l t, I s → S.next s l = some t → I t) {tr : List (σ × ι)} {s : σ}
    (h : S.Execution tr s) {before after : List (σ × ι)} {u : σ}
    (htr : tr = before ++ (u, l₀) :: after) : (∀ e ∈ after, I e.1) ∧ I s := by
  induction h generalizing after with
  | start hs => simp at htr
  | @step tr s t l h hs ih =>
    rcases List.eq_nil_or_concat' after with rfl | ⟨rest, e, rfl⟩
    · obtain ⟨-, he⟩ := List.append_inj' htr rfl
      cases he
      exact ⟨by simp, h₀ _ t hs⟩
    · have htr' : tr ++ [(s, l)] = (before ++ (u, l₀) :: rest) ++ [e] := by
        simpa using htr
      obtain ⟨hinit, he⟩ := List.append_inj' htr' rfl
      cases he
      obtain ⟨hrest, hi⟩ := ih hinit
      refine ⟨?_, h₁ s l t hi hs⟩
      intro e he
      rcases List.mem_append.mp he with he | he
      · exact hrest e he
      · obtain rfl := List.mem_singleton.mp he
        exact hi

/-- When meeting a step condition keeps `I`, and breaking it in an `I` state
breaks `P` at once, a run visits only `P` states exactly when each of its steps
meets the condition. -/
theorem Execution.exact {I P : σ → Prop} {C : σ → ι → Prop} (h₀ : ∀ s, S.init s → I s)
    (h₁ : ∀ s l t, I s → C s l → S.next s l = some t → I t) (hP : ∀ s, I s → P s)
    (h₂ : ∀ s l t, I s → ¬ C s l → S.next s l = some t → ¬ P t)
    {tr : List (σ × ι)} {s : σ} (h : S.Execution tr s) :
    ((∀ e ∈ tr, P e.1) ∧ P s) ↔ ∀ e ∈ tr, C e.1 e.2 := by
  constructor
  · induction h with
    | start hs => simp
    | @step tr s t l h hs ih =>
      intro hall e he
      obtain ⟨hv, ht⟩ := hall
      have hv' : ∀ e ∈ tr, P e.1 := fun e he ↦ hv e (List.mem_append_left _ he)
      have hs' : P s := hv (s, l) (List.mem_append_right _ (by simp))
      have hC := ih ⟨hv', hs'⟩
      rcases List.mem_append.mp he with he | he
      · exact hC e he
      · obtain rfl := List.mem_singleton.mp he
        have hi := (h.preserved h₀ h₁ hC).2
        by_contra hc
        exact h₂ s l t hi hc hs ht
  · intro hC
    obtain ⟨hv, hi⟩ := h.preserved h₀ h₁ hC
    exact ⟨fun e he ↦ hP _ (hv e he), hP _ hi⟩

/-- When meeting a step condition keeps `I`, and breaking it in an `I` state leads to what no
step undoes, a run is in either for good. -/
theorem Execution.decided {I B : σ → Prop} {C : σ → ι → Prop} (h₀ : ∀ s, S.init s → I s)
    (h₁ : ∀ s l t, I s → C s l → S.next s l = some t → I t)
    (h₂ : ∀ s l t, I s → ¬ C s l → S.next s l = some t → B t)
    (h₃ : ∀ s l t, B s → S.next s l = some t → B t)
    {tr : List (σ × ι)} {s : σ} (h : S.Execution tr s) :
    (∀ e ∈ tr, C e.1 e.2) ∨ (¬ ∀ e ∈ tr, C e.1 e.2) ∧ B s := by
  induction h with
  | start hs => simp
  | @step tr s t l h hs ih =>
    rcases ih with hC | ⟨hC, hb⟩
    · by_cases hc : C s l
      · refine .inl ?_
        intro e he
        rcases List.mem_append.mp he with he | he
        · exact hC e he
        · obtain rfl := List.mem_singleton.mp he
          exact hc
      · have hi := (h.preserved h₀ h₁ hC).2
        exact .inr ⟨fun hall ↦ hc (hall (s, l) (by simp)), h₂ s l t hi hc hs⟩
    · exact .inr ⟨fun hall ↦ hC fun e he ↦ hall e (List.mem_append_left _ he), h₃ s l t hb hs⟩

theorem Execution.balance {gain loss : σ × ι → Bool} (stock : σ → ℕ)
    (h₀ : ∀ s, S.init s → stock s = 0)
    (h₁ : ∀ s l t, S.Reachable s → S.next s l = some t →
      stock t + (if loss (s, l) then 1 else 0) = stock s + if gain (s, l) then 1 else 0)
    {tr : List (σ × ι)} {s : σ} (h : S.Execution tr s) :
    tr.countP gain = stock s + tr.countP loss := by
  induction h with
  | start hs => simp [h₀ _ hs]
  | @step tr s t l h hs ih =>
    have hstep := h₁ s l t ⟨tr, h⟩ hs
    rw [List.countP_append, List.countP_append, List.countP_singleton, List.countP_singleton]
    omega

/-- A state map under which every step of `S` is a step of `T` or invisible to
it carries reachable states to reachable states. -/
theorem Reachable.map {T : System τ κ} (f : σ → τ) (h₀ : ∀ s, S.init s → T.init (f s))
    (h₁ : ∀ s l t, S.Reachable s → S.next s l = some t →
      f t = f s ∨ ∃ k, T.next (f s) k = some (f t))
    {s : σ} (h : S.Reachable s) : T.Reachable (f s) := by
  refine h.induction (P := fun s ↦ T.Reachable (f s)) (fun s hs ↦ .start (h₀ s hs)) ?_
  intro s l t hr ih hn
  rcases h₁ s l t hr hn with he | ⟨k, hk⟩
  · exact he ▸ ih
  · exact ih.step hk

end System

end SpeechBridge.Foundation.Transition
