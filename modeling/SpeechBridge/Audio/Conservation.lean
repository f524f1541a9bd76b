import SpeechBridge.Audio.Refinement
import SpeechBridge.Foundation.Transition

namespace SpeechBridge.Audio

open Foundation Foundation.Machine

/-- An `AudioQueue` used by any number of threads: the `blockingGet` that is in
its wait loop, if there is one, and all bytes put and delivered so far. -/
structure Calls where
  queue : AudioQueue
  reader : Option ℤ
  put : List Byte
  delivered : List Byte

inductive Call
  | put (buffer : List Byte) (length : ℤ)
  | get (buffer : List Byte) (requestedLength : ℤ)
  | blockingGetEnter (requestedLength : ℤ)
  | blockingGetLeave (buffer : List Byte)
  | markEnd
  | terminate

namespace Calls

def initial : Calls := ⟨AudioQueue.create, none, [], []⟩

def deliver (s : Calls) (r : AudioQueue.ReadResult) (reader : Option ℤ) : Calls where
  queue := r.queue
  reader := reader
  put := s.put
  delivered := s.delivered ++ r.buffer.take r.returned.toNat

/-- The locked effect of one call. The caller of a read owns a buffer of at least
the requested length; a call that trips an assertion has no effect to take. -/
def next (s : Calls) : Call → Option Calls
  | .put buffer length => (s.queue.put buffer length).toOption.map fun r ↦
      { s with queue := r.queue, put := s.put ++ buffer.take length.toNat }
  | .get buffer n =>
      if 0 ≤ n ∧ n ≤ buffer.length then
        (s.queue.get buffer n).toOption.map fun r ↦ s.deliver r s.reader
      else none
  | .blockingGetEnter n =>
      if 0 ≤ n then
        (s.queue.blockingGetEnter n).toOption.map fun q ↦ { s with queue := q, reader := some n }
      else none
  | .blockingGetLeave buffer => s.reader.bind fun n ↦
      if s.queue.blockingGetWaits n = false ∧ n ≤ buffer.length then
        (s.queue.blockingGetLeave buffer n).toOption.map fun r ↦ s.deliver r none
      else none
  | .markEnd => some { s with queue := s.queue.markEnd }
  | .terminate => some { s with queue := s.queue.terminate }

def system : Transition.System Calls Call where
  init s := s = initial
  next := next

/-- Nothing is lost, repeated or reordered, and the counters are exact. -/
structure Conserved (s : Calls) : Prop where
  bytes : s.delivered ++ s.queue.unread = s.put
  dataSize : s.queue.dataSize = (s.queue.audioQueue.map (·.length)).sum
  processedBytes : s.queue.processedBytes = s.delivered.length
  entries : ∀ e ∈ s.queue.audioQueue,
    0 ≤ e.offset ∧ 0 ≤ e.length ∧ e.offset + e.length = e.buffer.length

structure Refines (s : Calls) : Prop where
  pipe : s.put.length < 2 ^ 31 → ∃ p : Pipe Byte,
    p.written = s.put ∧ p.delivered = s.delivered ∧ s.queue.Represents p
  reader : ∀ n, s.reader = some n → 0 ≤ n

theorem deliver_pipe {s : Calls} {r : AudioQueue.ReadResult} {reader : Option ℤ} {p : Pipe Byte}
    {n : ℕ} {buffer : List Byte} (hw : p.written = s.put) (hd : p.delivered = s.delivered)
    (hn : r.returned.toNat = (p.pending.take n).length)
    (hb : r.buffer = p.pending.take n ++ buffer.drop r.returned.toNat)
    (hq : r.queue.Represents (p.read n)) :
    ∃ p' : Pipe Byte, p'.written = (s.deliver r reader).put ∧
      p'.delivered = (s.deliver r reader).delivered ∧
      (s.deliver r reader).queue.Represents p' := by
  refine ⟨p.read n, hw, ?_, hq⟩
  have ht : r.buffer.take r.returned.toNat = p.pending.take n := by
    rw [hb, hn, List.take_left]
  rw [Pipe.delivered_read, hd, ← ht]
  rfl

theorem initial_refines : initial.Refines where
  pipe _ := ⟨Pipe.empty, rfl, rfl, AudioQueue.create_represents⟩
  reader := by simp [initial]

theorem next_refines {s t : Calls} {c : Call} (h : s.Refines) (hn : s.next c = some t) :
    t.Refines := by
  cases c with
  | put buffer length =>
    obtain ⟨r, hr, rfl⟩ := Option.map_eq_some_iff.mp hn
    rw [toOption_eq_some_iff] at hr
    refine ⟨fun hb ↦ ?_, h.reader⟩
    obtain ⟨p, hw, hd, hq⟩ := h.pipe (by simp only [List.length_append] at hb; omega)
    exact ⟨p.write (buffer.take length.toNat), by rw [Pipe.written_write, hw], hd,
      hq.put_spec hr (by rw [hw]; exact hb)⟩
  | get buffer n =>
    simp only [next, Option.ite_none_right_eq_some, Option.map_eq_some_iff,
      toOption_eq_some_iff] at hn
    obtain ⟨⟨hn₀, hle⟩, r, hr, rfl⟩ := hn
    obtain ⟨n, rfl⟩ := Int.eq_ofNat_of_zero_le hn₀
    refine ⟨fun hb ↦ ?_, h.reader⟩
    obtain ⟨p, hw, hd, hq⟩ := h.pipe hb
    obtain ⟨r', hr', hret, hbuf, hq', -⟩ := hq.get_spec n buffer
      (by exact_mod_cast hle)
    obtain rfl : r' = r := Except.ok.inj (hr'.symm.trans hr)
    refine deliver_pipe hw hd ?_ hbuf hq'
    rw [hret, List.length_take]
    split
    · split <;> simp_all
    · rw [Int.toNat_natCast]
  | blockingGetEnter n =>
    simp only [next, Option.ite_none_right_eq_some, Option.map_eq_some_iff,
      toOption_eq_some_iff] at hn
    obtain ⟨hn₀, q, henter, rfl⟩ := hn
    refine ⟨fun hb ↦ ?_, by rintro m hm; cases hm; exact hn₀⟩
    obtain ⟨p, hw, hd, hq⟩ := h.pipe hb
    exact ⟨p, hw, hd, hq.blockingGetEnter_spec henter⟩
  | blockingGetLeave buffer =>
    simp only [next, Option.bind_eq_some_iff, Option.ite_none_right_eq_some,
      Option.map_eq_some_iff, toOption_eq_some_iff] at hn
    obtain ⟨n, hreader, ⟨hwait, hle⟩, r, hr, rfl⟩ := hn
    obtain ⟨n, rfl⟩ := Int.eq_ofNat_of_zero_le (h.reader n hreader)
    refine ⟨fun hb ↦ ?_, by simp [deliver]⟩
    obtain ⟨p, hw, hd, hq⟩ := h.pipe hb
    obtain ⟨r', hr', hret, hbuf, hq', -⟩ := hq.blockingGetLeave_spec buffer
      (by exact_mod_cast hle) hwait
    obtain rfl : r' = r := Except.ok.inj (hr'.symm.trans hr)
    refine deliver_pipe hw hd ?_ hbuf hq'
    rw [hret, List.length_take, Int.toNat_natCast]
  | markEnd =>
    obtain rfl := Option.some.inj hn
    refine ⟨fun hb ↦ ?_, h.reader⟩
    obtain ⟨p, hw, hd, hq⟩ := h.pipe hb
    exact ⟨p.close, hw, hd, hq.markEnd_spec⟩
  | terminate =>
    obtain rfl := Option.some.inj hn
    refine ⟨fun hb ↦ ?_, h.reader⟩
    obtain ⟨p, hw, hd, hq⟩ := h.pipe hb
    exact ⟨p, hw, hd, hq.terminate_spec⟩

theorem refines : system.Invariant Refines where
  start s hs := by
    obtain rfl : s = initial := hs
    exact initial_refines
  step _ _ _ h hn := next_refines h hn

/-- Along every run of `put`, `get`, `blockingGet`, `markEnd` and `terminate`, in
any interleaving of the threads that call them, the bytes delivered followed by the
bytes still queued are the bytes put. -/
theorem bytes_conserved {s : Calls} (h : system.Reachable s) (hb : s.put.length < 2 ^ 31) :
    s.Conserved := by
  obtain ⟨p, hw, hd, hq⟩ := (refines.reachable h).pipe hb
  refine ⟨?_, ?_, ?_, fun e he ↦ ?_⟩
  · rw [hq.unread, ← hd, ← hw, p.delivered_append_pending]
  · rw [hq.dataSize, ← hq.unread]
    exact AudioQueue.bytes_length hq.entries
  · rw [hq.processed, hd]
  · exact ⟨(hq.entries e he).offset, (hq.entries e he).length, (hq.entries e he).extent⟩

theorem bytes_conserved_run :
    let s : Calls :=
      ⟨⟨1, false, true, false, 0, 4, [⟨[4, 5], 1, 1⟩]⟩, none, [1, 2, 3, 4, 5], [1, 2, 3, 4]⟩
    system.run initial [.put [1, 2, 3] 3, .put [] 0, .put [4, 5] 2, .get [0, 0] 2,
      .blockingGetEnter 2, .blockingGetLeave [0, 0], .markEnd] = some s ∧ s.Conserved := by
  have hr : system.run initial [.put [1, 2, 3] 3, .put [] 0, .put [4, 5] 2, .get [0, 0] 2,
      .blockingGetEnter 2, .blockingGetLeave [0, 0], .markEnd] = some
      ⟨⟨1, false, true, false, 0, 4, [⟨[4, 5], 1, 1⟩]⟩, none, [1, 2, 3, 4, 5], [1, 2, 3, 4]⟩ := by
    rfl
  exact ⟨hr, bytes_conserved (.run (.start rfl) hr) (by decide)⟩

end Calls

end SpeechBridge.Audio
