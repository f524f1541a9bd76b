import Mathlib.Data.List.Nodup
import Mathlib.Logic.Function.Basic

namespace SpeechBridge.Foundation

open Function

/-- Blocks of memory by their address. An address is handed out once, so that a pointer to a
block that was freed stays invalid. -/
structure Heap (α : Type*) where
  cells : ℕ → Option α
  fresh : ℕ

namespace Heap

variable {α : Type*}

def empty : Heap α where
  cells _ := none
  fresh := 0

def alloc (h : Heap α) (a : α) : Heap α × ℕ :=
  ({ cells := update h.cells h.fresh (some a), fresh := h.fresh + 1 }, h.fresh)

/-- There is no result for an address that holds no block, here and below. -/
def read (h : Heap α) (p : ℕ) : Option α := h.cells p

def write (h : Heap α) (p : ℕ) (a : α) : Option (Heap α) :=
  (h.cells p).map fun _ ↦ { h with cells := update h.cells p (some a) }

def free (h : Heap α) (p : ℕ) : Option (Heap α) :=
  (h.cells p).map fun _ ↦ { h with cells := update h.cells p none }

/-- The blocks that are live are these and no others. -/
structure Owns (h : Heap α) (blocks : List (ℕ × α)) : Prop where
  cells : ∀ p a, h.cells p = some a ↔ (p, a) ∈ blocks
  nodup : (blocks.map Prod.fst).Nodup
  bound : ∀ x ∈ blocks, x.1 < h.fresh

variable {h : Heap α} {blocks blocks' : List (ℕ × α)} {p : ℕ} {a b : α}

@[simp] theorem alloc_snd (h : Heap α) (a : α) : (h.alloc a).2 = h.fresh := rfl

theorem empty_owns : (empty : Heap α).Owns [] := by
  constructor <;> simp [empty]

theorem Owns.perm (ho : h.Owns blocks) (hp : blocks.Perm blocks') : h.Owns blocks' where
  cells p a := by rw [ho.cells, hp.mem_iff]
  nodup := (hp.map _).nodup_iff.mp ho.nodup
  bound x hx := ho.bound x (hp.mem_iff.mpr hx)

theorem Owns.alloc (ho : h.Owns blocks) (a : α) : (h.alloc a).1.Owns ((h.fresh, a) :: blocks) := by
  have hfresh (b : α) : (h.fresh, b) ∉ blocks := fun hb ↦ absurd (ho.bound _ hb) (Nat.lt_irrefl _)
  refine ⟨fun p b ↦ ?_, ?_, ?_⟩
  · by_cases hp : p = h.fresh
    · subst hp
      simp [Heap.alloc, hfresh, eq_comm]
    · simp [Heap.alloc, hp, ho.cells]
  · rw [List.map_cons, List.nodup_cons]
    refine ⟨fun hm ↦ ?_, ho.nodup⟩
    obtain ⟨x, hx, he⟩ := List.mem_map.mp hm
    exact absurd (ho.bound x hx) (he ▸ Nat.lt_irrefl _)
  · intro x hx
    rcases List.mem_cons.mp hx with rfl | hx
    · exact Nat.lt_succ_self _
    · exact Nat.lt_succ_of_lt (ho.bound x hx)

theorem Owns.read (ho : h.Owns ((p, a) :: blocks)) : h.read p = some a :=
  (ho.cells p a).mpr (by simp)

theorem Owns.head_notMem (ho : h.Owns ((p, a) :: blocks)) (b : α) : (p, b) ∉ blocks := by
  intro hb
  have hnodup := ho.nodup
  rw [List.map_cons, List.nodup_cons] at hnodup
  exact hnodup.1 (List.mem_map.mpr ⟨(p, b), hb, rfl⟩)

theorem Owns.write (ho : h.Owns ((p, a) :: blocks)) (b : α) :
    ∃ h', h.write p b = some h' ∧ h'.Owns ((p, b) :: blocks) := by
  refine ⟨{ h with cells := update h.cells p (some b) }, ?_, ?_⟩
  · rw [Heap.write, ← Heap.read, ho.read, Option.map_some]
  · refine ⟨fun p' b' ↦ ?_, ho.nodup, fun x hx ↦ ?_⟩
    · by_cases hp : p' = p
      · subst hp
        simp [ho.head_notMem, eq_comm]
      · simp [hp, ho.cells]
    · rcases List.mem_cons.mp hx with rfl | hx
      · exact ho.bound (p, a) (by simp)
      · exact ho.bound x (List.mem_cons_of_mem _ hx)

theorem Owns.free (ho : h.Owns ((p, a) :: blocks)) :
    ∃ h', h.free p = some h' ∧ h'.Owns blocks := by
  refine ⟨{ h with cells := update h.cells p none }, ?_, ?_⟩
  · rw [Heap.free, ← Heap.read, ho.read, Option.map_some]
  · have hnodup := ho.nodup
    rw [List.map_cons, List.nodup_cons] at hnodup
    refine ⟨fun p' b' ↦ ?_, hnodup.2, fun x hx ↦ ho.bound x (List.mem_cons_of_mem _ hx)⟩
    by_cases hp : p' = p
    · subst hp
      simp [ho.head_notMem]
    · simp [hp, ho.cells]

theorem Owns.cells_eq_none (ho : h.Owns []) (p : ℕ) : h.cells p = none := by
  cases hp : h.cells p with
  | none => rfl
  | some a => simpa using (ho.cells p a).mp hp

end Heap

end SpeechBridge.Foundation
