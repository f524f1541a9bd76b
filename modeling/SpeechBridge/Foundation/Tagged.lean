import Mathlib.Data.List.Basic

namespace SpeechBridge.Foundation.Tagged

/-! Lists in which each element belongs to one of many owners. -/

variable {τ α : Type*} [DecidableEq τ]

/-- The elements of one owner, in order. -/
def of (tag : τ) (xs : List (τ × α)) : List α := (xs.filter fun x ↦ x.1 = tag).map Prod.snd

variable {tag tag' : τ} {xs ys : List (τ × α)} {x : α}

@[simp] theorem of_nil (tag : τ) : of tag ([] : List (τ × α)) = [] := rfl

@[simp] theorem of_append : of tag (xs ++ ys) = of tag xs ++ of tag ys := by simp [of]

@[simp] theorem of_cons_self : of tag ((tag, x) :: xs) = x :: of tag xs := by simp [of]

theorem of_cons_ne (h : tag' ≠ tag) : of tag ((tag', x) :: xs) = of tag xs := by simp [of, h]

@[simp] theorem mem_of : x ∈ of tag xs ↔ (tag, x) ∈ xs := by
  simp [of]

theorem of_eq_nil_iff : of tag xs = [] ↔ ∀ x, (tag, x) ∉ xs := by
  rw [List.eq_nil_iff_forall_not_mem]
  simp

end SpeechBridge.Foundation.Tagged
