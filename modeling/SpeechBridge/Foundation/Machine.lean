import Mathlib.Data.List.Basic
import Mathlib.Tactic.Ring

namespace SpeechBridge.Foundation.Machine

/-- What stops a C++ program short of returning: a failed `assert`, an exception
that leaves the function, or an operation whose behaviour is undefined. -/
inductive Fault
  | assertion (expr : String)
  | thrown (what : String)
  | badArrayNewLength
  | emptyFront
  | outOfBounds
  | nullDereference
  deriving DecidableEq, Repr

theorem toOption_eq_some_iff {ε α : Type*} {x : Except ε α} {a : α} :
    x.toOption = some a ↔ x = .ok a := by
  cases x <;> simp [Except.toOption]

theorem bind_eq_ok_iff.{u, v} {ε : Type u} {α β : Type v} {x : Except ε α}
    {f : α → Except ε β} {b : β} :
    (x >>= f) = .ok b ↔ ∃ a, x = .ok a ∧ f a = .ok b := by
  cases x <;> simp [bind, Except.bind]

/-- The value a 32-bit signed integer holds after `x` is stored in it. -/
def int32 (x : ℤ) : ℤ := x.bmod (2 ^ 32)

theorem int32_eq {x : ℤ} (h : -2 ^ 31 ≤ x) (h' : x < 2 ^ 31) : int32 x = x :=
  Int.bmod_eq_of_le (by norm_num; omega) (by norm_num; omega)

theorem int32_lt (x : ℤ) : int32 x < 2 ^ 31 := by
  have h := Int.bmod_lt (x := x) (m := 2 ^ 32) (by norm_num)
  norm_num at h
  exact h

@[simp] theorem int32_int32 (x : ℤ) : int32 (int32 x) = int32 x := by simp [int32]

theorem int32_sub_left (x y : ℤ) : int32 (int32 x - y) = int32 (x - y) := Int.bmod_sub_bmod

variable {α : Type*}

def splice (dst : List α) (i : ℕ) (xs : List α) : List α :=
  dst.take i ++ xs ++ dst.drop (i + xs.length)

@[simp] theorem splice_nil (dst : List α) (i : ℕ) : splice dst i [] = dst := by simp [splice]

theorem splice_zero (dst xs : List α) : splice dst 0 xs = xs ++ dst.drop xs.length := by
  simp [splice]

theorem splice_length {dst xs : List α} {i : ℕ} (h : i + xs.length ≤ dst.length) :
    (splice dst i xs).length = dst.length := by
  simp only [splice, List.length_append, List.length_take, List.length_drop]
  omega

theorem splice_splice {dst xs ys : List α} {i : ℕ} (h : i + xs.length ≤ dst.length) :
    splice (splice dst i xs) (i + xs.length) ys = splice dst i (xs ++ ys) := by
  have hl : (dst.take i ++ xs).length = i + xs.length := by
    simp only [List.length_append, List.length_take]
    omega
  have ht : (splice dst i xs).take (i + xs.length) = dst.take i ++ xs := by
    rw [splice, List.take_append_of_le_length hl.ge, List.take_of_length_le hl.le]
  have hd : (splice dst i xs).drop (i + xs.length + ys.length) =
      dst.drop (i + (xs ++ ys).length) := by
    rw [splice, List.drop_append, List.drop_of_length_le (by omega), hl, List.drop_drop]
    simp only [List.nil_append, List.length_append]
    congr 1
    omega
  rw [splice, ht, hd]
  simp only [splice, List.append_assoc]

/-- `memcpy(dst + dstOffset, src + srcOffset, n)` over arrays of known extent. -/
def memcpy (dst : List α) (dstOffset : ℤ) (src : List α) (srcOffset n : ℤ) :
    Except Fault (List α) :=
  if 0 ≤ n ∧ 0 ≤ dstOffset ∧ dstOffset + n ≤ dst.length ∧ 0 ≤ srcOffset ∧
      srcOffset + n ≤ src.length then
    .ok (splice dst dstOffset.toNat ((src.drop srcOffset.toNat).take n.toNat))
  else .error .outOfBounds

theorem memcpy_eq (dst src : List α) {i j n : ℕ} (hd : i + n ≤ dst.length)
    (hs : j + n ≤ src.length) :
    memcpy dst i src j n = .ok (splice dst i ((src.drop j).take n)) := by
  rw [memcpy, if_pos (by omega)]
  simp

end SpeechBridge.Foundation.Machine
