import SpeechBridge.Audio.Refinement
import SpeechBridge.Audio.WakeUp
import SpeechBridge.Foundation.Chunks

namespace SpeechBridge.Audio

open Foundation Foundation.Machine

/-- A producer that puts its pieces and then marks the end, and a consumer that reads blocks
of one length until a read gives it nothing. -/
structure Rechunk where
  shared : WakeUp
  pieces : List (List Byte)
  blocks : List (List Byte)
  stopped : Bool
  deriving DecidableEq

namespace Rechunk

def initial (pieces : List (List Byte)) : Rechunk := ⟨WakeUp.initial, pieces, [], false⟩

def next (n : ℤ) (s : Rechunk) : WakeUpStep → Option Rechunk
  | .put buffer length =>
      match s.pieces with
      | [] => none
      | piece :: pieces =>
        if buffer = piece ∧ length = piece.length then
          (s.shared.next (.put buffer length)).map fun shared ↦ { s with
            shared := shared
            pieces := pieces }
        else none
  | .setEnded =>
      if s.pieces = [] ∧ s.shared.queue.ended = false then
        (s.shared.next .setEnded).map fun shared ↦ { s with shared := shared }
      else none
  | .enter m =>
      if m = n ∧ s.stopped = false then
        (s.shared.next (.enter m)).map fun shared ↦ { s with shared := shared }
      else none
  | .leave buffer =>
      (s.shared.queue.blockingGetLeave buffer n).toOption.bind fun r ↦
        (s.shared.next (.leave buffer)).map fun shared ↦ { s with
          shared := shared
          blocks := if r.returned = 0 then s.blocks
            else s.blocks ++ [r.buffer.take r.returned.toNat]
          stopped := r.returned = 0 }
  | .get _ _ | .setTerminating => none
  | step => (s.shared.next step).map fun shared ↦ { s with shared := shared }

def system (n : ℤ) (pieces : List (List Byte)) : Transition.System Rechunk WakeUpStep where
  init s := s = initial pieces
  next := next n

structure AtReader (n : ℤ) (s : WakeUp) : Prop where
  length : ∀ m, s.reader.request = some m → m = n
  ready : s.Ready

/-- The text is what the consumer has, then what the queue holds, then what the producer has;
only the last bytes of the text make a block that is not full. -/
structure Cut (n : ℕ) (text : List Byte) (s : Rechunk) : Prop where
  pipe : ∃ p : Pipe Byte, p.written ++ s.pieces.flatten = text ∧ p.delivered = s.blocks.flatten ∧
    s.shared.queue.Represents p
  running : s.shared.queue.terminating = false
  ended : s.shared.queue.ended = true → s.pieces = []
  reader : AtReader n s.shared
  blocks : (∀ b ∈ s.blocks, b.length = n) ∨
    Blocks n s.blocks ∧ s.shared.queue.ended = true ∧ s.shared.queue.unread = []
  stopped : s.stopped = true → s.shared.queue.ended = true ∧ s.shared.queue.unread = []

theorem next_atReader {n : ℤ} {s t : WakeUp} {l : WakeUpStep} (h : AtReader n s)
    (hl : ∀ m, l = .enter m → m = n) (hn : s.next l = some t) : AtReader n t := by
  refine ⟨?_, WakeUp.next_ready h.ready hn⟩
  intro m hm
  cases WakeUp.next_outcome hn with
  | put hfree hr =>
    dsimp only at hm
    split at hm
    · rw [Reader.request_notify] at hm
      exact h.length m hm
    · exact h.length m hm
  | get hfree hle hr => exact h.length m hm
  | setEnded => exact h.length m hm
  | setTerminating => exact h.length m hm
  | notifyAll hpos =>
    rw [Reader.request_notify] at hm
    exact h.length m hm
  | enter hout hpos hb =>
    cases hm
    exact hl m rfl
  | leave hr hle hleave => cases hm
  | waits hr hw => exact h.length m (hr ▸ hm)
  | leaves hr hw => exact h.length m (hr ▸ hm)
  | sleep hr => exact h.length m (hr ▸ hm)
  | wakeSpuriously hr => exact h.length m (hr ▸ hm)
  | relock hr => exact h.length m (hr ▸ hm)

section steps

variable {n : ℕ} {text : List Byte} {s : Rechunk}

theorem Cut.move (h : Cut n text s) {shared : WakeUp} (hq : shared.queue = s.shared.queue)
    (hr : AtReader n shared) : Cut n text { s with shared := shared } where
  pipe := hq ▸ h.pipe
  running := hq ▸ h.running
  ended := hq ▸ h.ended
  reader := hr
  blocks := hq ▸ h.blocks
  stopped := hq ▸ h.stopped

theorem put_cut (h : Cut n text s) (htext : text.length < 2 ^ 31) {piece : List Byte}
    {pieces : List (List Byte)} (hp : s.pieces = piece :: pieces) {r : AudioQueue.PutResult}
    (hr : s.shared.queue.put piece piece.length = .ok r) {reader : Reader}
    (hreader : AtReader n { s.shared with queue := r.queue, reader := reader }) :
    Cut n text { s with
      shared := { s.shared with queue := r.queue, reader := reader }
      pieces := pieces } := by
  obtain ⟨p, hw, hd, hq⟩ := h.pipe
  have ht : piece.take (piece.length : ℤ).toNat = piece := by simp
  have hopen := (AudioQueue.put_eq_ok.mp hr).1
  have hbound : (p.written ++ piece).length < 2 ^ 31 := by
    rw [hp, List.flatten_cons, ← List.append_assoc] at hw
    rw [← hw, List.length_append] at htext
    omega
  have hspec := hq.put_spec hr (by rw [ht]; exact hbound)
  rw [ht] at hspec
  have hended : r.queue.ended = false := by
    rw [hspec.ended, Pipe.closed_write, ← hq.ended]
    exact hopen
  refine ⟨⟨p.write piece, ?_, hd, hspec⟩, ?_, by simp [hended], hreader, ?_, ?_⟩
  · rw [Pipe.written_write, List.append_assoc, ← List.flatten_cons, ← hp]
    exact hw
  · obtain ⟨-, hrun, m, -, -, rfl⟩ := AudioQueue.put_eq_ok.mp hr
    exact hrun
  · refine .inl (h.blocks.resolve_right ?_)
    intro hlast
    simp [hopen] at hlast
  · intro hs
    have hlast := (h.stopped hs).1
    simp [hopen] at hlast

structure Taken (n : ℕ) (p : Pipe Byte) (r : AudioQueue.ReadResult) : Prop where
  returned : r.returned = (p.pending.take n).length
  block : r.buffer.take r.returned.toNat = p.pending.take n
  queue : r.queue.Represents (p.read n)
  running : r.queue.terminating = false
  short : p.pending.length < n → p.closed = true

theorem leave_taken {q : AudioQueue} {p : Pipe Byte} (hq : q.Represents p)
    (hrun : q.terminating = false) (hwait : q.blockingGetWaits n = false) {buffer : List Byte}
    (hle : (n : ℤ) ≤ buffer.length) {r : AudioQueue.ReadResult}
    (hr : q.blockingGetLeave buffer n = .ok r) : Taken n p r := by
  obtain ⟨r', hr', hret, hbuf, hq', hterm⟩ := hq.blockingGetLeave_spec buffer
    (by exact_mod_cast hle) hwait
  obtain rfl : r' = r := Except.ok.inj (hr'.symm.trans hr)
  rw [hrun] at hret hbuf hq' hterm
  simp only [Bool.false_eq_true, if_false] at hret hbuf hq'
  refine ⟨by simpa using hret, ?_, hq', hterm, ?_⟩
  · have hlen : r'.returned.toNat = (p.pending.take n).length := by
      rw [hret, List.length_take, Int.toNat_natCast]
    rw [hbuf, hlen, List.take_left]
  · -- A queue that is left short of a full block has ended.
    intro hlt
    simp only [AudioQueue.blockingGetWaits, hrun, decide_eq_false_iff_not, not_and,
      Bool.not_eq_false, true_and] at hwait
    rw [← hq.ended]
    apply hwait
    rw [hq.dataSize]
    exact_mod_cast hlt

theorem leave_cut (hn : 0 < n) (h : Cut n text s) {buffer : List Byte} {r : AudioQueue.ReadResult}
    (hm : s.shared.reader = .leaving n) (hle : (n : ℤ) ≤ buffer.length)
    (hr : s.shared.queue.blockingGetLeave buffer n = .ok r) :
    Cut n text { s with
      shared := { s.shared with queue := r.queue, reader := .outside }
      blocks := if r.returned = 0 then s.blocks else s.blocks ++ [r.buffer.take r.returned.toNat]
      stopped := r.returned = 0 } := by
  obtain ⟨p, hw, hd, hq⟩ := h.pipe
  have ht := leave_taken hq h.running (h.reader.ready n hm) hle hr
  have hclosed : r.queue.ended = p.closed := ht.queue.ended
  have hunread : r.queue.unread = p.pending.drop n := ht.queue.unread.trans (p.pending_read n)
  have hended : r.queue.ended = true → s.pieces = [] := by
    intro he
    apply h.ended
    rw [hq.ended, ← hclosed, he]
  have hreader : AtReader n { s.shared with queue := r.queue, reader := .outside } :=
    ⟨by simp [Reader.request], by simp [WakeUp.Ready]⟩
  have hret := ht.returned
  rw [ht.block]
  rcases List.eq_nil_or_concat' p.pending with hempty | ⟨_, _, hcons⟩
  · have hret₀ : r.returned = 0 := by simp [hret, hempty]
    have hdone : r.queue.ended = true ∧ r.queue.unread = [] := by
      rw [hclosed, hunread, hempty, List.drop_nil]
      exact ⟨ht.short (by simpa [hempty] using hn), rfl⟩
    simp only [hret₀, if_true, decide_true]
    refine ⟨⟨p.read n, hw, ?_, ht.queue⟩, ht.running, hended, hreader, ?_, fun _ ↦ hdone⟩
    · rw [Pipe.delivered_read, hempty, List.take_nil, List.append_nil, hd]
    · exact h.blocks.imp_right fun hlast ↦ ⟨hlast.1, hdone⟩
  · have hpos : 0 < p.pending.length := by simp [hcons]
    have hret₀ : r.returned ≠ 0 := by
      rw [hret, List.length_take]
      omega
    have hfull : ∀ b ∈ s.blocks, b.length = n := by
      refine h.blocks.resolve_right ?_
      intro hlast
      have hnil := hq.unread.symm.trans hlast.2.2
      simp [hnil] at hpos
    simp only [hret₀, if_false, decide_false]
    refine ⟨⟨p.read n, hw, ?_, ht.queue⟩, ht.running, hended, hreader, ?_, by simp⟩
    · rw [Pipe.delivered_read, List.flatten_append, hd, List.flatten_singleton]
    · rcases Nat.lt_or_ge p.pending.length n with hlt | hge
      · refine .inr ⟨.append hfull ?_ ?_, hclosed.trans (ht.short hlt), ?_⟩
        · rw [List.length_take]
          omega
        · rw [List.length_take]
          omega
        · rw [hunread, List.drop_of_length_le hlt.le]
      · refine .inl ?_
        intro b hb
        rcases List.mem_append.mp hb with hb | hb
        · exact hfull b hb
        · rw [List.mem_singleton.mp hb, List.length_take]
          omega

end steps

theorem initial_cut (n : ℕ) (pieces : List (List Byte)) :
    Cut n pieces.flatten (initial pieces) where
  pipe := ⟨Pipe.empty, rfl, rfl, AudioQueue.create_represents⟩
  running := rfl
  ended := by simp [initial, WakeUp.initial, AudioQueue.create]
  reader := ⟨by simp [initial, WakeUp.initial, Reader.request], WakeUp.ready.start _ rfl⟩
  blocks := .inl (by simp [initial])
  stopped := by simp [initial]

theorem next_cut {n : ℕ} {text : List Byte} {s t : Rechunk} {l : WakeUpStep} (hpos : 0 < n)
    (htext : text.length < 2 ^ 31) (h : Cut n text s) (hn : s.next n l = some t) :
    Cut n text t := by
  cases l with
  | put buffer length =>
    simp only [next] at hn
    split at hn
    case h_1 => cases hn
    case h_2 piece pieces hp =>
      simp only [Option.ite_none_right_eq_some, Option.map_eq_some_iff] at hn
      obtain ⟨⟨rfl, rfl⟩, shared, hn, rfl⟩ := hn
      cases WakeUp.next_outcome hn with
      | put hfree hr => exact put_cut h htext hp hr (next_atReader h.reader (by simp) hn)
  | get buffer m => cases hn
  | setTerminating => cases hn
  | setEnded =>
    simp only [next, Option.ite_none_right_eq_some, Option.map_eq_some_iff] at hn
    obtain ⟨⟨hp, -⟩, shared, hn, rfl⟩ := hn
    have hreader := next_atReader h.reader (by simp) hn
    obtain rfl := Option.some.inj hn
    obtain ⟨p, hw, hd, hq⟩ := h.pipe
    refine ⟨⟨p.close, hw, hd, hq.markEnd_spec⟩, h.running, fun _ ↦ hp, hreader, ?_, ?_⟩
    · exact h.blocks.imp_right fun hlast ↦ ⟨hlast.1, rfl, hlast.2.2⟩
    · exact fun hs ↦ ⟨rfl, (h.stopped hs).2⟩
  | enter m =>
    simp only [next, Option.ite_none_right_eq_some, Option.map_eq_some_iff] at hn
    obtain ⟨⟨rfl, hs⟩, shared, hn, rfl⟩ := hn
    have hreader := next_atReader h.reader (by simp) hn
    cases WakeUp.next_outcome hn with
    | enter hout hm hb =>
      obtain ⟨p, hw, hd, hq⟩ := h.pipe
      have henter : s.shared.queue.blockingGetEnter n = .ok _ :=
        AudioQueue.blockingGetEnter_eq_ok.mpr ⟨hb, rfl⟩
      exact ⟨⟨p, hw, hd, hq.blockingGetEnter_spec henter⟩, h.running, h.ended, hreader, h.blocks,
        h.stopped⟩
  | leave buffer =>
    simp only [next, Option.bind_eq_some_iff, Option.map_eq_some_iff, toOption_eq_some_iff] at hn
    obtain ⟨r, hr, shared, hn, rfl⟩ := hn
    cases WakeUp.next_outcome hn with
    | @leave _ m r' hm hle hr' =>
      obtain rfl := h.reader.length m (by rw [hm]; rfl)
      obtain rfl : r' = r := Except.ok.inj (hr'.symm.trans hr)
      exact leave_cut hpos h hm hle hr
  | _ =>
    obtain ⟨shared, hs, rfl⟩ := Option.map_eq_some_iff.mp hn
    exact h.move (WakeUp.next_queue rfl hs) (next_atReader h.reader (by simp) hs)

/-- However a text is cut into pieces and however its producer and its consumer take turns, a
consumer that has been told the end has got the consecutive blocks of the text. -/
theorem rechunked {n : ℕ} (hn : 0 < n) {pieces : List (List Byte)}
    (htext : pieces.flatten.length < 2 ^ 31) {s : Rechunk} (h : (system n pieces).Reachable s)
    (hs : s.stopped = true) :
    s.blocks = chunks n pieces.flatten ∧ Blocks n s.blocks ∧
      ∀ pieces' : List (List Byte), pieces'.flatten = pieces.flatten →
        ∀ s', (system n pieces').Reachable s' → s'.stopped = true → s'.blocks = s.blocks := by
  have hblocks : ∀ pieces' : List (List Byte), pieces'.flatten = pieces.flatten →
      ∀ s', (system n pieces').Reachable s' → s'.stopped = true →
        Blocks n s'.blocks ∧ s'.blocks = chunks n pieces.flatten := by
    intro pieces' hp s' h' hs'
    have hinv : (system n pieces').Invariant (Cut n pieces'.flatten) := by
      refine ⟨?_, fun s l t hi hstep ↦ next_cut hn (hp ▸ htext) hi hstep⟩
      intro s₀ h₀
      obtain rfl : s₀ = initial pieces' := h₀
      exact initial_cut n pieces'
    have hcut := hinv.reachable h'
    obtain ⟨p, hw, hd, hq⟩ := hcut.pipe
    obtain ⟨hended, hunread⟩ := hcut.stopped hs'
    have hflat : s'.blocks.flatten = pieces.flatten := by
      have hpend : p.delivered = p.written := by
        rw [← p.pending_eq_nil_iff, ← hq.unread, hunread]
      rw [← hd, hpend, ← hp, ← hw, hcut.ended hended]
      simp
    have hb : Blocks n s'.blocks := by
      rcases hcut.blocks with hfull | hlast
      · exact .of_full hn hfull
      · exact hlast.1
    exact ⟨hb, hflat ▸ hb.eq_chunks⟩
  obtain ⟨hb, heq⟩ := hblocks pieces rfl s h hs
  refine ⟨heq, hb, ?_⟩
  intro pieces' hp s' h' hs'
  rw [heq]
  exact (hblocks pieces' hp s' h' hs').2

theorem rechunked_run :
    ∃ s, (system 2 [[1], [], [2, 3, 4, 5]]).Reachable s ∧ s.stopped = true ∧
      s.blocks = chunks 2 [1, 2, 3, 4, 5] := by
  have h₀ : (system 2 [[1], [], [2, 3, 4, 5]]).Reachable (initial [[1], [], [2, 3, 4, 5]]) :=
    .start rfl
  obtain ⟨s, hs, hc⟩ := h₀.of_check
    [.enter 2, .test, .sleep, .put [1] 1, .put [] 0, .put [2, 3, 4, 5] 4, .relock, .test,
      .leave [0, 0], .enter 2, .test, .leave [0, 0], .enter 2, .test, .sleep, .setEnded,
      .notifyAll, .relock, .test, .leave [0, 0], .enter 2, .test, .leave [0, 0]]
    (fun s ↦ s.stopped) (by decide)
  exact ⟨s, hs, hc, (rechunked (by decide) (by decide) hs hc).1⟩

end Rechunk

end SpeechBridge.Audio
