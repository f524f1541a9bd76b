import Mathlib.Data.List.Forall2

namespace SpeechBridge.Foundation.Mealy

/-! Machines that answer each input with a list of outputs. -/

variable {σ ι ο κ : Type*}

def outputs (step : σ → ι → σ × List ο) : σ → List ι → List (List ο)
  | _, [] => []
  | s, x :: xs => (step s x).2 :: outputs step (step s x).1 xs

def run (step : σ → ι → σ × List ο) : σ → List ι → σ × List ο
  | s, [] => (s, [])
  | s, x :: xs =>
    let (s, out) := step s x
    let (s, rest) := run step s xs
    (s, out ++ rest)

def final (step : σ → ι → σ × List ο) (s : σ) (xs : List ι) : σ :=
  xs.foldl (fun s x ↦ (step s x).1) s

variable {step : σ → ι → σ × List ο}

theorem final_append (s : σ) (xs ys : List ι) :
    final step s (xs ++ ys) = final step (final step s xs) ys := List.foldl_append

@[simp] theorem length_outputs (s : σ) (xs : List ι) : (outputs step s xs).length = xs.length := by
  induction xs generalizing s with
  | nil => rfl
  | cons x xs ih => simp [outputs, ih]

theorem outputs_append (s : σ) (xs ys : List ι) : outputs step s (xs ++ ys) =
    outputs step s xs ++ outputs step (final step s xs) ys := by
  induction xs generalizing s with
  | nil => rfl
  | cons x xs ih => simp [outputs, final, ih]

theorem outputs_getElem? (s : σ) (xs : List ι) (x : ι) (ys : List ι) :
    (outputs step s (xs ++ x :: ys))[xs.length]? = some (step (final step s xs) x).2 := by
  rw [outputs_append, List.getElem?_append_right (by simp), length_outputs, Nat.sub_self]
  rfl

theorem run_eq_flatten (s : σ) (xs : List ι) :
    (run step s xs).2 = (outputs step s xs).flatten := by
  induction xs generalizing s with
  | nil => rfl
  | cons x xs ih => simp [run, outputs, ih]

/-- What a view sees of the outputs follows from the inputs alone when it does so for each
step, whatever the state. -/
theorem run_flatMap {view : ο → List κ} {f : ι → List κ}
    (h : ∀ s x, (step s x).2.flatMap view = f x) (s : σ) (xs : List ι) :
    (run step s xs).2.flatMap view = xs.flatMap f := by
  induction xs generalizing s with
  | nil => rfl
  | cons x xs ih => simp [run, h, ih]

theorem forall_outputs {P : List ο → Prop} (h : ∀ s x, P (step s x).2) (s : σ) (xs : List ι) :
    ∀ out ∈ outputs step s xs, P out := by
  induction xs generalizing s with
  | nil => simp [outputs]
  | cons x xs ih => simpa [outputs, h] using ih _

theorem forall₂_outputs {R : ι → List ο → Prop} {C : ι → Prop}
    (h : ∀ s x, R x (step s x).2 ↔ C x) (s : σ) (xs : List ι) :
    List.Forall₂ R xs (outputs step s xs) ↔ ∀ x ∈ xs, C x := by
  induction xs generalizing s with
  | nil => simp [outputs]
  | cons x xs ih => simp [outputs, h, ih]

end SpeechBridge.Foundation.Mealy
