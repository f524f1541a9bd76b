import Mathlib.Logic.Function.Basic

namespace SpeechBridge.Foundation.Lease

open Function

variable {ρ κ : Type*}

/-- Where a pooled resource is in its life. One that is lost while it is held
keeps its holder. -/
inductive Phase (κ : Type*)
  | absent
  | requested
  | opening
  | idle
  | held (holder : κ)
  | lost (holder : Option κ)
  deriving DecidableEq

namespace Phase

def holder : Phase κ → Option κ
  | .held k => some k
  | .lost k => k
  | _ => none

def IsOpen : Phase κ → Prop
  | .opening | .idle | .held _ => True
  | _ => False

@[simp] theorem holder_absent : (absent : Phase κ).holder = none := rfl
@[simp] theorem holder_requested : (requested : Phase κ).holder = none := rfl
@[simp] theorem holder_opening : (opening : Phase κ).holder = none := rfl
@[simp] theorem holder_idle : (idle : Phase κ).holder = none := rfl
@[simp] theorem holder_held (k : κ) : (held k).holder = some k := rfl
@[simp] theorem holder_lost (k : Option κ) : (lost k).holder = k := rfl
@[simp] theorem isOpen_absent : ¬ (absent : Phase κ).IsOpen := id
@[simp] theorem isOpen_requested : ¬ (requested : Phase κ).IsOpen := id
@[simp] theorem isOpen_opening : (opening : Phase κ).IsOpen := trivial
@[simp] theorem isOpen_idle : (idle : Phase κ).IsOpen := trivial
@[simp] theorem isOpen_held (k : κ) : (held k).IsOpen := trivial
@[simp] theorem isOpen_lost (k : Option κ) : ¬ (lost k).IsOpen := id

inductive Next : Phase κ → Phase κ → Prop
  | request : Next .absent .requested
  | connect : Next .requested .opening
  | ready : Next .opening .idle
  | lease (k : κ) : Next .idle (.held k)
  | release (k : κ) : Next (.held k) .idle
  | lose {p : Phase κ} : p.IsOpen → Next p (.lost p.holder)

end Phase

/-- The resources of a pool, no two of them with the same holder. -/
structure Pool (ρ κ : Type*) where
  phase : ρ → Phase κ
  exclusive : ∀ r r' k, (phase r).holder = some k → (phase r').holder = some k → r = r'

namespace Pool

def empty : Pool ρ κ := ⟨fun _ ↦ .absent, by simp⟩

@[simp] theorem empty_phase (r : ρ) : (empty : Pool ρ κ).phase r = .absent := rfl

def Admits (a : Pool ρ κ) (r : ρ) (p : Phase κ) : Prop :=
  ∀ r' k, p.holder = some k → (a.phase r').holder = some k → r' = r

theorem admits_of_holder_eq_none (a : Pool ρ κ) (r : ρ) {p : Phase κ} (h : p.holder = none) :
    a.Admits r p := by simp [Admits, h]

theorem admits_lost (a : Pool ρ κ) (r : ρ) : a.Admits r (.lost (a.phase r).holder) :=
  fun r' k hk hk' ↦ a.exclusive r' r k hk' hk

theorem admits_held (a : Pool ρ κ) (r : ρ) {k : κ} (h : ∀ r', (a.phase r').holder ≠ some k) :
    a.Admits r (.held k) := by
  intro r' k' hk hk'
  rw [Phase.holder_held] at hk
  exact absurd (hk ▸ hk') (h r')

variable [DecidableEq ρ]

def move (a : Pool ρ κ) (r : ρ) (p : Phase κ) (h : a.Admits r p) : Pool ρ κ where
  phase := update a.phase r p
  exclusive := by
    intro r₁ r₂ k h₁ h₂
    by_cases e₁ : r₁ = r <;> by_cases e₂ : r₂ = r
    · exact e₁.trans e₂.symm
    · rw [e₁, update_self] at h₁
      rw [update_of_ne e₂] at h₂
      exact e₁.trans (h r₂ k h₁ h₂).symm
    · rw [update_of_ne e₁] at h₁
      rw [e₂, update_self] at h₂
      exact (h r₁ k h₂ h₁).trans e₂.symm
    · rw [update_of_ne e₁] at h₁
      rw [update_of_ne e₂] at h₂
      exact a.exclusive r₁ r₂ k h₁ h₂

theorem move_phase (a : Pool ρ κ) (r : ρ) (p : Phase κ) (h : a.Admits r p) (r' : ρ) :
    (a.move r p h).phase r' = if r' = r then p else a.phase r' := update_apply ..

def Step (a b : Pool ρ κ) : Prop :=
  ∃ r p h, (a.phase r).Next p ∧ b = a.move r p h

end Pool

end SpeechBridge.Foundation.Lease
