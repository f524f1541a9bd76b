import Mathlib.Data.List.Basic

namespace SpeechBridge.Foundation

/-- An unbounded first-in first-out pipe together with its history: everything
written to it, and the part of that which has been read. -/
structure Pipe (α : Type*) where
  written : List α
  delivered : List α
  closed : Bool
  delivered_le : delivered <+: written

namespace Pipe

variable {α : Type*}

def empty : Pipe α := ⟨[], [], false, List.prefix_rfl⟩

def pending (p : Pipe α) : List α := p.written.drop p.delivered.length

@[simp] theorem delivered_append_pending (p : Pipe α) :
    p.delivered ++ p.pending = p.written := by
  obtain ⟨rest, hr⟩ := p.delivered_le
  simp [pending, ← hr]

theorem length_delivered_add (p : Pipe α) :
    p.delivered.length + p.pending.length = p.written.length := by
  rw [← List.length_append, delivered_append_pending]

theorem pending_eq_nil_iff (p : Pipe α) : p.pending = [] ↔ p.delivered = p.written := by
  constructor
  · intro h
    simpa [h] using p.delivered_append_pending
  · intro h
    simp [pending, h]

def write (p : Pipe α) (xs : List α) : Pipe α where
  written := p.written ++ xs
  delivered := p.delivered
  closed := p.closed
  delivered_le := p.delivered_le.trans (List.prefix_append _ _)

def read (p : Pipe α) (n : ℕ) : Pipe α where
  written := p.written
  delivered := p.delivered ++ p.pending.take n
  closed := p.closed
  delivered_le := ⟨p.pending.drop n, by simp [List.append_assoc]⟩

def close (p : Pipe α) : Pipe α := { p with closed := true }

@[simp] theorem written_empty : (empty : Pipe α).written = [] := rfl

@[simp] theorem delivered_empty : (empty : Pipe α).delivered = [] := rfl

@[simp] theorem closed_empty : (empty : Pipe α).closed = false := rfl

@[simp] theorem pending_empty : (empty : Pipe α).pending = [] := rfl

@[simp] theorem written_write (p : Pipe α) (xs : List α) :
    (p.write xs).written = p.written ++ xs := rfl

@[simp] theorem delivered_write (p : Pipe α) (xs : List α) :
    (p.write xs).delivered = p.delivered := rfl

@[simp] theorem closed_write (p : Pipe α) (xs : List α) : (p.write xs).closed = p.closed := rfl

@[simp] theorem written_read (p : Pipe α) (n : ℕ) : (p.read n).written = p.written := rfl

@[simp] theorem delivered_read (p : Pipe α) (n : ℕ) :
    (p.read n).delivered = p.delivered ++ p.pending.take n := rfl

@[simp] theorem closed_read (p : Pipe α) (n : ℕ) : (p.read n).closed = p.closed := rfl

@[simp] theorem written_close (p : Pipe α) : p.close.written = p.written := rfl

@[simp] theorem delivered_close (p : Pipe α) : p.close.delivered = p.delivered := rfl

@[simp] theorem closed_close (p : Pipe α) : p.close.closed = true := rfl

@[simp] theorem pending_close (p : Pipe α) : p.close.pending = p.pending := rfl

@[simp] theorem pending_write (p : Pipe α) (xs : List α) :
    (p.write xs).pending = p.pending ++ xs := by
  have h := (p.write xs).delivered_append_pending
  rw [delivered_write, written_write, ← p.delivered_append_pending, List.append_assoc] at h
  exact List.append_cancel_left h

@[simp] theorem pending_read (p : Pipe α) (n : ℕ) : (p.read n).pending = p.pending.drop n := by
  have h := (p.read n).delivered_append_pending
  rw [delivered_read, written_read, ← p.delivered_append_pending, List.append_assoc] at h
  have h' := List.append_cancel_left h
  exact List.append_cancel_left (h'.trans (List.take_append_drop n _).symm)

theorem read_of_pending_eq_nil {p : Pipe α} (h : p.pending = []) (n : ℕ) : p.read n = p := by
  have hd : p.delivered ++ p.pending.take n = p.delivered := by simp [h]
  cases p
  simp only [read, hd]

theorem read_min (p : Pipe α) (n : ℕ) : p.read (min n p.pending.length) = p.read n := by
  simp only [read, ← List.take_eq_take_min]

end Pipe

end SpeechBridge.Foundation
