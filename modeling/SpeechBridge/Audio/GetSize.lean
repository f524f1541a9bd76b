import Mathlib.Algebra.Order.BigOperators.Group.List
import SpeechBridge.Audio.Conservation

namespace SpeechBridge.Audio

open Foundation.Machine

/-- One `memcpy` of `getSize`: the entry at the front when it is made, the range of the
caller's buffer that it writes, and whether the entry is popped after it. -/
structure Copy where
  entry : AudioQueueEntry
  destination : ℤ
  length : ℤ
  pops : Bool
  deriving DecidableEq

structure GetSizeState where
  remaining : ℤ
  offset : ℤ
  dataSize : ℤ
  audioQueue : List AudioQueueEntry
  copies : List Copy
  deriving DecidableEq

namespace GetSizeState

def start (q : AudioQueue) (requestedLength : ℤ) : GetSizeState where
  remaining := requestedLength
  offset := 0
  dataSize := q.dataSize
  audioQueue := q.audioQueue
  copies := []

def body (s : GetSizeState) : Except Fault GetSizeState :=
  match s.audioQueue with
  | [] => .error .emptyFront
  | entry :: rest =>
    if s.remaining < entry.length then .ok {
      remaining := s.remaining - s.remaining
      offset := s.offset + s.remaining
      dataSize := int32 (s.dataSize - s.remaining)
      audioQueue := { entry with
        offset := entry.offset + s.remaining
        length := entry.length - s.remaining } :: rest
      copies := s.copies ++ [⟨entry, s.offset, s.remaining, false⟩] }
    else .ok {
      remaining := s.remaining - entry.length
      offset := s.offset + entry.length
      dataSize := int32 (s.dataSize - entry.length)
      audioQueue := rest
      copies := s.copies ++ [⟨entry, s.offset, entry.length, true⟩] }

/-- `while (remaining > 0)`, for so many tests of its condition at most. -/
def loop : ℕ → GetSizeState → Option (Except Fault GetSizeState)
  | 0, _ => none
  | tests + 1, s =>
    if 0 < s.remaining then
      match s.body with
      | .error fault => some (.error fault)
      | .ok s => loop tests s
    else some (.ok s)

end GetSizeState

namespace Copy

def perform (buffer : List Byte) : List Copy → Except Fault (List Byte)
  | [] => .ok buffer
  | c :: copies => do
    let buffer ← memcpy buffer c.destination c.entry.buffer c.entry.offset c.length
    perform buffer copies

/-- The copies write the cells from `i` to `j` from left to right, each once. -/
def Consecutive : ℤ → List Copy → ℤ → Prop
  | i, [], j => i = j
  | i, c :: copies, j => c.destination = i ∧ Consecutive (i + c.length) copies j

structure Reads (c : Copy) : Prop where
  nonneg : 0 ≤ c.length
  unread : c.length ≤ c.entry.length
  completely : c.pops = true → c.length = c.entry.length

theorem Consecutive.within {i j : ℤ} {copies : List Copy} (h : Consecutive i copies j)
    (hr : ∀ c ∈ copies, c.Reads) :
    i ≤ j ∧ ∀ c ∈ copies, i ≤ c.destination ∧ c.destination + c.length ≤ j := by
  induction copies generalizing i with
  | nil => exact ⟨le_of_eq h, by simp⟩
  | cons c copies ih =>
    obtain ⟨rfl, h⟩ := h
    obtain ⟨hle, hrest⟩ := ih h fun c' hc' ↦ hr c' (List.mem_cons_of_mem _ hc')
    have hc := (hr c (by simp)).nonneg
    refine ⟨by omega, ?_⟩
    intro c' hc'
    rcases List.mem_cons.mp hc' with rfl | hc'
    · exact ⟨le_rfl, hle⟩
    · obtain ⟨hl, hu⟩ := hrest c' hc'
      exact ⟨by omega, hu⟩

end Copy

namespace GetSizeState

open Copy

structure Moves (entries : List AudioQueueEntry) (i j : ℤ) (copies : List Copy) : Prop where
  consecutive : Consecutive i copies j
  reads : ∀ c ∈ copies, c.Reads
  member : ∀ c ∈ copies, c.entry ∈ entries
  popped : (copies.filter (·.pops)).map (·.entry) <+: entries

/-- Each test of the loop that does not end it pops an entry, or leaves nothing to copy. -/
theorem loop_moves {entries : List AudioQueueEntry} (hlen : ∀ e ∈ entries, 0 ≤ e.length)
    {remaining : ℤ} (hr : 0 ≤ remaining) (hsum : remaining ≤ (entries.map (·.length)).sum)
    (offset dataSize : ℤ) (copies : List Copy) :
    ∃ s made, loop (entries.length + 1) ⟨remaining, offset, dataSize, entries, copies⟩ =
        some (.ok s) ∧ s.copies = copies ++ made ∧ s.remaining = 0 ∧
      Moves entries offset (offset + remaining) made := by
  induction entries generalizing remaining offset dataSize copies with
  | nil =>
    obtain rfl : remaining = 0 := le_antisymm (by simpa using hsum) hr
    exact ⟨⟨0, offset, dataSize, [], copies⟩, [], rfl, by simp, rfl,
      by simp [Consecutive], by simp, by simp, by simp⟩
  | cons entry rest ih =>
    rcases hr.eq_or_lt with rfl | hpos
    · exact ⟨⟨0, offset, dataSize, entry :: rest, copies⟩, [], rfl, by simp, rfl,
        by simp [Consecutive], by simp, by simp, by simp⟩
    have hentry := hlen entry (by simp)
    have hrest : ∀ e ∈ rest, 0 ≤ e.length := fun e he ↦ hlen e (List.mem_cons_of_mem _ he)
    rw [List.map_cons, List.sum_cons] at hsum
    by_cases hlt : remaining < entry.length
    · let s : GetSizeState := {
        remaining := remaining - remaining
        offset := offset + remaining
        dataSize := int32 (dataSize - remaining)
        audioQueue := { entry with
          offset := entry.offset + remaining
          length := entry.length - remaining } :: rest
        copies := copies ++ [⟨entry, offset, remaining, false⟩] }
      have hdone : s.remaining = 0 := sub_self remaining
      refine ⟨s, [⟨entry, offset, remaining, false⟩], ?_, rfl, hdone, ⟨rfl, rfl⟩, ?_, by simp,
        by simp⟩
      · rw [List.length_cons, loop]
        simp only [hpos, if_true, body, hlt]
        rw [loop, if_neg (by simp)]
      · intro c hc
        obtain rfl := List.mem_singleton.mp hc
        exact ⟨hpos.le, hlt.le, by simp⟩
    · have hr' : 0 ≤ remaining - entry.length := by omega
      have hsum' : remaining - entry.length ≤ (rest.map (·.length)).sum := by omega
      obtain ⟨s, made, hrun, hcopies, hdone, hmoves⟩ := ih hrest hr' hsum'
        (offset + entry.length) (int32 (dataSize - entry.length))
        (copies ++ [⟨entry, offset, entry.length, true⟩])
      refine ⟨s, ⟨entry, offset, entry.length, true⟩ :: made, ?_, ?_, hdone, ?_⟩
      · rw [List.length_cons, loop]
        simp only [hpos, if_true, body, hlt, if_false]
        exact hrun
      · rw [hcopies, List.append_assoc]
        rfl
      · refine ⟨⟨rfl, ?_⟩, ?_, ?_, ?_⟩
        · have hj : offset + entry.length + (remaining - entry.length) = offset + remaining := by
            ring
          exact hj ▸ hmoves.consecutive
        · intro c hc
          rcases List.mem_cons.mp hc with rfl | hc
          · exact ⟨hentry, le_rfl, fun _ ↦ rfl⟩
          · exact hmoves.reads c hc
        · intro c hc
          rcases List.mem_cons.mp hc with rfl | hc
          · simp
          · exact List.mem_cons_of_mem _ (hmoves.member c hc)
        · simpa using hmoves.popped

/-- A run of the loop that copies exactly what is asked for. The last field is about the
bytes that an entry was allocated with. -/
structure Complete (q : AudioQueue) (requestedLength : ℤ) (s : GetSizeState) : Prop where
  done : s.remaining = 0
  writes : Consecutive 0 s.copies requestedLength
  within : ∀ c ∈ s.copies, 0 ≤ c.destination ∧ c.destination + c.length ≤ requestedLength
  reads : ∀ c ∈ s.copies, c.Reads
  popped : (s.copies.filter (·.pops)).map (·.entry) <+: q.audioQueue
  allocated : ∀ c ∈ s.copies, c.entry ∈ q.audioQueue ∧
    (c.entry.offset + c.entry.length ≤ c.entry.buffer.length →
      0 ≤ c.entry.offset ∧ c.entry.offset + c.length ≤ c.entry.buffer.length)
  model : ∀ buffer, AudioQueue.getSizeLoop requestedLength 0 q.dataSize buffer q.audioQueue =
    (perform buffer s.copies).map fun buffer ↦ (s.audioQueue, s.dataSize, buffer)

end GetSizeState

namespace AudioQueue

end AudioQueue

namespace Calls

variable {s : Calls} {n size : ℤ}

end Calls

end SpeechBridge.Audio
