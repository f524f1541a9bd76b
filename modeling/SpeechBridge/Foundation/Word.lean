import Mathlib.Data.List.Infix
import Mathlib.Data.Set.Insert

namespace SpeechBridge.Foundation.Word

variable {α : Type*}

/-- No word of the set begins another one, so that a reader knows where it ends. -/
def PrefixFree (W : Set (List α)) : Prop := ∀ x ∈ W, ∀ y ∈ W, x <+: y → x = y

def SuffixFree (W : Set (List α)) : Prop := ∀ x ∈ W, ∀ y ∈ W, x <:+ y → x = y

variable {W : Set (List α)} {x y s t : List α}

theorem PrefixFree.append_inj (hW : PrefixFree W) (hx : x ∈ W) (hy : y ∈ W)
    (h : x ++ s = y ++ t) : x = y ∧ s = t := by
  have hxy : x = y := by
    have hpx : x <+: y ++ t := h ▸ List.prefix_append x s
    rcases List.prefix_or_prefix_of_prefix hpx (List.prefix_append y t) with hp | hp
    · exact hW x hx y hy hp
    · exact (hW y hy x hx hp).symm
  subst hxy
  exact ⟨rfl, List.append_cancel_left h⟩

theorem SuffixFree.append_inj (hW : SuffixFree W) (hx : x ∈ W) (hy : y ∈ W)
    (h : s ++ x = t ++ y) : s = t ∧ x = y := by
  have hxy : x = y := by
    have hsx : x <:+ t ++ y := h ▸ List.suffix_append s x
    rcases List.suffix_or_suffix_of_suffix hsx (List.suffix_append t y) with hp | hp
    · exact hW x hx y hy hp
    · exact (hW y hy x hx hp).symm
  subst hxy
  exact ⟨List.append_cancel_right h, rfl⟩

theorem prefixFree_pair {x y : List α} (hxy : ¬ x <+: y) (hyx : ¬ y <+: x) :
    PrefixFree {x, y} := by
  intro u hu v hv huv
  rcases hu with rfl | rfl <;> rcases hv with rfl | rfl <;> first | rfl | contradiction

theorem suffixFree_pair {x y : List α} (hxy : ¬ x <:+ y) (hyx : ¬ y <:+ x) :
    SuffixFree {x, y} := by
  intro u hu v hv huv
  rcases hu with rfl | rfl <;> rcases hv with rfl | rfl <;> first | rfl | contradiction

/-- The fields of a template can be read off the text, also when the one in the middle may be
any text: the first from the left, the last from the right. -/
theorem template_inj {W V : Set (List Char)} (hW : PrefixFree W) (hV : SuffixFree V)
    {a b d e m m' l l' p p' : String} (hm : m.toList ∈ W) (hm' : m'.toList ∈ W)
    (hp : p.toList ∈ V) (hp' : p'.toList ∈ V)
    (h : a ++ m ++ b ++ l ++ d ++ p ++ e = a ++ m' ++ b ++ l' ++ d ++ p' ++ e) :
    m = m' ∧ l = l' ∧ p = p' := by
  rw [String.append_left_inj] at h
  have hchars := congrArg String.toList h
  simp only [String.toList_append] at hchars
  obtain ⟨hchars, hlast⟩ := hV.append_inj hp hp' hchars
  simp only [List.append_assoc, List.append_right_inj] at hchars
  obtain ⟨hfirst, hchars⟩ := hW.append_inj hm hm' hchars
  rw [List.append_right_inj, List.append_left_inj] at hchars
  exact ⟨String.toList_injective hfirst, String.toList_injective hchars,
    String.toList_injective hlast⟩

/-! A text cut at its first `c`. -/

section cut

variable [DecidableEq α] {c : α}

def before (c : α) (xs : List α) : List α := xs.takeWhile (· ≠ c)

def after (c : α) (xs : List α) : List α := (xs.dropWhile (· ≠ c)).tail

theorem before_append_cons {xs ys : List α} (h : c ∉ xs) : before c (xs ++ c :: ys) = xs := by
  have hall : ∀ x ∈ xs, decide (x ≠ c) = true := by
    intro x hx
    rw [decide_eq_true_eq]
    rintro rfl
    exact h hx
  rw [before, List.takeWhile_append_of_pos hall]
  simp

theorem after_append_cons {xs ys : List α} (h : c ∉ xs) : after c (xs ++ c :: ys) = ys := by
  have hall : ∀ x ∈ xs, decide (x ≠ c) = true := by
    intro x hx
    rw [decide_eq_true_eq]
    rintro rfl
    exact h hx
  rw [after, List.dropWhile_append_of_pos hall]
  simp

theorem one_lt_length_splitOn {xs : List α} (h : c ∈ xs) : 1 < (xs.splitOn c).length := by
  obtain ⟨ys, zs, rfl⟩ := List.append_of_mem h
  have hys := List.length_pos_iff.mpr (List.splitOn_ne_nil c ys)
  have hzs := List.length_pos_iff.mpr (List.splitOn_ne_nil c zs)
  rw [List.splitOn_append_cons_self, List.length_append]
  omega

end cut

end SpeechBridge.Foundation.Word
