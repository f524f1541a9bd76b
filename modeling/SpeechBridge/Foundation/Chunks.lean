import Mathlib.Data.List.Basic

namespace SpeechBridge.Foundation

variable {α : Type*}

/-- The consecutive blocks of `n` elements. The last one holds what is left. -/
def chunks (n : ℕ) (xs : List α) : List (List α) :=
  (List.range ((xs.length + n - 1) / n)).map fun i ↦ (xs.drop (i * n)).take n

@[simp] theorem chunks_nil {n : ℕ} : chunks n ([] : List α) = [] := by
  have h : (n - 1) / n = 0 := by
    rcases Nat.eq_zero_or_pos n with rfl | hn
    · rfl
    · exact Nat.div_eq_of_lt (by omega)
  simp [chunks, h]

theorem chunks_eq_cons {n : ℕ} (hn : 0 < n) {xs : List α} (hxs : xs ≠ []) :
    chunks n xs = xs.take n :: chunks n (xs.drop n) := by
  have hpos : 0 < xs.length := List.length_pos_iff.mpr hxs
  have hcount : (xs.length + n - 1) / n = ((xs.drop n).length + n - 1) / n + 1 := by
    rw [List.length_drop]
    rcases Nat.lt_or_ge n xs.length with hlt | hle
    · have h₁ : xs.length + n - 1 = (xs.length - n + n - 1) + n := by omega
      rw [h₁, Nat.add_div_right _ hn]
    · have h₀ : (xs.length - n + n - 1) / n = 0 := Nat.div_eq_of_lt (by omega)
      have h₁ : xs.length + n - 1 = (xs.length - 1) + n := by omega
      rw [h₀, h₁, Nat.add_div_right _ hn, Nat.div_eq_of_lt (by omega)]
  have hblock : (fun i ↦ (xs.drop (i * n)).take n) ∘ Nat.succ =
      fun i ↦ ((xs.drop n).drop (i * n)).take n := by
    funext i
    rw [Function.comp_apply, List.drop_drop, Nat.succ_mul, Nat.add_comm]
  rw [chunks, hcount, List.range_succ_eq_map, List.map_cons, List.map_map, hblock, chunks,
    Nat.zero_mul, List.drop_zero]

/-- Full blocks with a last one that is neither empty nor too long. -/
structure Blocks (n : ℕ) (blocks : List (List α)) : Prop where
  full : ∀ b ∈ blocks.dropLast, b.length = n
  last : ∀ b ∈ blocks.getLast?, 0 < b.length ∧ b.length ≤ n

theorem Blocks.append {n : ℕ} {blocks : List (List α)} {b : List α}
    (h : ∀ b' ∈ blocks, b'.length = n) (hpos : 0 < b.length) (hle : b.length ≤ n) :
    Blocks n (blocks ++ [b]) where
  full := by simpa using h
  last := by simpa using ⟨hpos, hle⟩

theorem Blocks.of_full {n : ℕ} (hn : 0 < n) {blocks : List (List α)}
    (h : ∀ b ∈ blocks, b.length = n) : Blocks n blocks where
  full b hb := h b (List.dropLast_subset blocks hb)
  last b hb := by
    have hlen := h b (List.mem_of_getLast? hb)
    omega

theorem Blocks.eq_chunks {n : ℕ} {blocks : List (List α)} (h : Blocks n blocks) :
    blocks = chunks n blocks.flatten := by
  induction blocks with
  | nil => simp
  | cons b rest ih =>
    cases rest with
    | nil =>
      obtain ⟨hpos, hle⟩ := h.last b (by simp)
      have hb : b ≠ [] := List.length_pos_iff.mp hpos
      have hflat : [b].flatten = b := by simp
      rw [hflat, chunks_eq_cons (Nat.lt_of_lt_of_le hpos hle) hb, List.take_of_length_le hle,
        List.drop_of_length_le hle, chunks_nil]
    | cons b' rest =>
      have hlen : b.length = n := h.full b (by simp)
      have htail : Blocks n (b' :: rest) := by
        refine ⟨fun c hc ↦ h.full c ?_, fun c hc ↦ h.last c ?_⟩
        · rw [List.dropLast_cons_of_ne_nil (by simp)]
          exact List.mem_cons_of_mem _ hc
        · rwa [List.getLast?_cons_cons]
      have hpos : 0 < n := by
        cases hrest : (b' :: rest).getLast? with
        | none => simp at hrest
        | some c =>
          obtain ⟨hc, hle⟩ := htail.last c (by rw [hrest]; rfl)
          exact Nat.lt_of_lt_of_le hc hle
      have hne : b ++ (b' :: rest).flatten ≠ [] := by
        rw [← List.length_pos_iff, List.length_append]
        omega
      rw [List.flatten_cons, chunks_eq_cons hpos hne, List.take_left' hlen, List.drop_left' hlen,
        ← ih htail]

end SpeechBridge.Foundation
