import SpeechBridge.Audio.Queue
import SpeechBridge.Foundation.Pipe

namespace SpeechBridge.Audio

open Foundation Foundation.Machine

namespace AudioQueueEntry

structure Valid (e : AudioQueueEntry) : Prop where
  offset : 0 ≤ e.offset
  length : 0 ≤ e.length
  extent : e.offset + e.length = e.buffer.length

def unread (e : AudioQueueEntry) : List Byte :=
  (e.buffer.drop e.offset.toNat).take e.length.toNat

theorem Valid.exists_nat {e : AudioQueueEntry} (h : e.Valid) :
    ∃ o n : ℕ, e.offset = o ∧ e.length = n ∧ o + n = e.buffer.length := by
  obtain ⟨o, ho⟩ := Int.eq_ofNat_of_zero_le h.offset
  obtain ⟨n, hn⟩ := Int.eq_ofNat_of_zero_le h.length
  have he := h.extent
  exact ⟨o, n, ho, hn, by omega⟩

theorem unread_length {e : AudioQueueEntry} (h : e.Valid) : (e.unread.length : ℤ) = e.length := by
  obtain ⟨o, n, ho, hn, he⟩ := h.exists_nat
  simp only [unread, ho, hn, Int.toNat_natCast, List.length_take, List.length_drop]
  omega

end AudioQueueEntry

namespace AudioQueue

open AudioQueueEntry

def bytes (entries : List AudioQueueEntry) : List Byte := entries.flatMap unread

def unread (q : AudioQueue) : List Byte := bytes q.audioQueue

@[simp] theorem bytes_nil : bytes [] = [] := rfl

@[simp] theorem bytes_cons (e : AudioQueueEntry) (rest : List AudioQueueEntry) :
    bytes (e :: rest) = e.unread ++ bytes rest := rfl

@[simp] theorem bytes_append (a b : List AudioQueueEntry) :
    bytes (a ++ b) = bytes a ++ bytes b := List.flatMap_append

theorem bytes_length {entries : List AudioQueueEntry} (h : ∀ e ∈ entries, e.Valid) :
    ((bytes entries).length : ℤ) = (entries.map (·.length)).sum := by
  induction entries with
  | nil => rfl
  | cons e rest ih =>
    have he := unread_length (h e (by simp))
    have hr := ih (fun e' he' ↦ h e' (List.mem_cons_of_mem _ he'))
    simp only [bytes_cons, List.length_append, List.map_cons, List.sum_cons, Nat.cast_add, he, hr]

theorem getSizeLoop_spec {entries : List AudioQueueEntry} (hv : ∀ e ∈ entries, e.Valid)
    {n i : ℕ} (dataSize : ℤ) (buffer : List Byte) (hn : n ≤ (bytes entries).length)
    (hb : i + n ≤ buffer.length) (hd : int32 dataSize = dataSize) :
    ∃ entries', getSizeLoop n i dataSize buffer entries =
        .ok (entries', int32 (dataSize - n), splice buffer i ((bytes entries).take n)) ∧
      (∀ e ∈ entries', e.Valid) ∧ bytes entries' = (bytes entries).drop n := by
  induction entries generalizing n i dataSize buffer with
  | nil =>
    obtain rfl : n = 0 := by simpa using hn
    exact ⟨[], by simp [getSizeLoop, hd], by simp, rfl⟩
  | cons e rest ih =>
    rcases Nat.eq_zero_or_pos n with rfl | hpos
    · exact ⟨e :: rest, by simp [getSizeLoop, hd], hv, rfl⟩
    have hrest : ∀ e' ∈ rest, e'.Valid := fun e' he' ↦ hv e' (List.mem_cons_of_mem _ he')
    obtain ⟨o, m, ho, hm, he⟩ := (hv e (by simp)).exists_nat
    have hu : e.unread = (e.buffer.drop o).take m := by rw [AudioQueueEntry.unread, ho, hm]; rfl
    have hul : e.unread.length = m := by
      rw [hu, List.length_take, List.length_drop]
      omega
    by_cases hlt : n < m
    · let e' : AudioQueueEntry := ⟨e.buffer, ((o + n : ℕ) : ℤ), ((m - n : ℕ) : ℤ)⟩
      have hu' : e'.unread = e.unread.drop n := by
        rw [hu, List.drop_take, List.drop_drop]
        rfl
      have ht : (bytes (e :: rest)).take n = (e.buffer.drop o).take n := by
        rw [bytes_cons, List.take_append_of_le_length (by omega), hu, List.take_take,
          min_eq_left hlt.le]
      have hc := memcpy_eq buffer e.buffer hb (show o + n ≤ _ by omega)
      have he' : (⟨e.buffer, (o : ℤ) + n, (m : ℤ) - n⟩ : AudioQueueEntry) = e' := by
        simp only [e', AudioQueueEntry.mk.injEq, true_and]
        omega
      refine ⟨e' :: rest, ?_, ?_, ?_⟩
      · rw [ht, getSizeLoop, ho, hm, if_pos (by omega), if_pos (by omega), hc, ← he']
        rfl
      · rintro a (_ | ⟨_, ha⟩)
        · exact ⟨Int.natCast_nonneg _, Int.natCast_nonneg _, by simp only [e']; omega⟩
        · exact hrest a ha
      · rw [bytes_cons, bytes_cons, hu', List.drop_append_of_le_length (by omega)]
    · have hle : m ≤ n := Nat.le_of_not_lt hlt
      have hlen : (bytes (e :: rest)).length = m + (bytes rest).length := by
        rw [bytes_cons, List.length_append, hul]
      have hc := memcpy_eq buffer e.buffer (show i + m ≤ _ by omega) he.le
      rw [← hu] at hc
      have hb' : i + e.unread.length ≤ buffer.length := by omega
      obtain ⟨entries', hrun, hv', hbytes⟩ := ih hrest (n := n - m) (i := i + m)
        (int32 (dataSize - m)) (splice buffer i e.unread) (by omega)
        (by rw [splice_length hb']; omega) (by simp)
      have ht : (bytes (e :: rest)).take n = e.unread ++ (bytes rest).take (n - m) := by
        rw [bytes_cons, List.take_append, List.take_of_length_le (hul.le.trans hle), hul]
      have hs : splice (splice buffer i e.unread) (i + m) ((bytes rest).take (n - m)) =
          splice buffer i ((bytes (e :: rest)).take n) := by
        rw [ht, ← splice_splice hb', hul]
      have hsize : int32 (int32 (dataSize - m) - (n - m : ℕ)) = int32 (dataSize - n) := by
        rw [int32_sub_left]
        congr 1
        omega
      refine ⟨entries', ?_, hv', ?_⟩
      · rw [hs, hsize] at hrun
        rw [getSizeLoop, ho, hm, if_pos (by omega), if_neg (by omega), hc, ← hrun,
          Int.natCast_sub hle]
        rfl
      · rw [hbytes, bytes_cons, List.drop_append, hul, List.drop_of_length_le (hul.le.trans hle),
          List.nil_append]

structure Exact (q : AudioQueue) : Prop where
  entries : ∀ e ∈ q.audioQueue, e.Valid
  dataSize : q.dataSize = q.unread.length
  bounded : q.unread.length < 2 ^ 31

/-- The queue holds exactly what is in transit in `p`, in well-formed entries. -/
structure Represents (q : AudioQueue) (p : Pipe Byte) : Prop where
  entries : ∀ e ∈ q.audioQueue, e.Valid
  unread : q.unread = p.pending
  dataSize : q.dataSize = p.pending.length
  processed : q.processedBytes = p.delivered.length
  ended : q.ended = p.closed
  bounded : p.written.length < 2 ^ 31

variable {q : AudioQueue} {p : Pipe Byte}

theorem create_represents : create.Represents Pipe.empty where
  entries := by simp [create]
  unread := rfl
  dataSize := rfl
  processed := rfl
  ended := rfl
  bounded := by simp

theorem Represents.pending_lt (h : q.Represents p) : p.pending.length < 2 ^ 31 := by
  have hl := p.length_delivered_add
  have hb := h.bounded
  omega

theorem Exact.getSize_spec (h : q.Exact) (n : ℕ) (buffer : List Byte) (hn : n ≤ q.unread.length)
    (hb : n ≤ buffer.length) :
    ∃ q', q.getSize buffer n = .ok (q', q.unread.take n ++ buffer.drop n) ∧ q'.Exact ∧
      q'.unread = q.unread.drop n ∧ q'.processedBytes = int32 (q.processedBytes + n) := by
  have hu : bytes q.audioQueue = q.unread := rfl
  have hlt := h.bounded
  have hd : int32 q.dataSize = q.dataSize := by
    rw [h.dataSize]
    exact int32_eq (by omega) (by omega)
  have hsize : int32 (q.dataSize - n) = q.dataSize - n := by
    rw [h.dataSize]
    exact int32_eq (by omega) (by omega)
  obtain ⟨entries, hrun, hv, hbytes⟩ := getSizeLoop_spec h.entries (i := 0) q.dataSize buffer
    (hu ▸ hn) (by simpa using hb) hd
  have hlen : (q.unread.take n).length = n := by simpa using hn
  rw [hu] at hrun hbytes
  rw [splice_zero, hlen, Nat.cast_zero] at hrun
  let q' : AudioQueue := { q with
    audioQueue := entries
    dataSize := int32 (q.dataSize - n)
    processedBytes := int32 (q.processedBytes + n) }
  have hl : q'.unread.length = q.unread.length - n := by
    change (bytes entries).length = _
    rw [hbytes, List.length_drop]
  refine ⟨q', ?_, ⟨hv, ?_, by omega⟩, hbytes, rfl⟩
  · rw [getSize, hrun]
    rfl
  · rw [hl, Nat.cast_sub hn, ← h.dataSize]
    exact hsize

theorem Exact.get_spec (h : q.Exact) (n : ℕ) (buffer : List Byte) (hb : n ≤ buffer.length) :
    ∃ r, q.get buffer n = .ok r ∧ r.queue.Exact ∧
      r.returned = (if q.unread = [] then (if q.ended then -1 else 0 : ℤ)
        else ((min n q.unread.length : ℕ) : ℤ)) := by
  by_cases hp : q.unread = []
  · have hd : q.dataSize = 0 := by simp [h.dataSize, hp]
    refine ⟨⟨q, buffer, if q.ended then -1 else 0⟩, ?_, h, by rw [if_pos hp]⟩
    rw [get, if_pos hd]
    cases q.ended <;> rfl
  · have hpos : 0 < q.unread.length := List.length_pos_iff.mpr hp
    have hd : q.dataSize ≠ 0 := by rw [h.dataSize]; omega
    have hmin : min (n : ℤ) q.dataSize = (min n q.unread.length : ℕ) := by
      rw [h.dataSize]
      omega
    obtain ⟨q', hrun, hq', -⟩ := h.getSize_spec (min n q.unread.length) buffer
      (Nat.min_le_right _ _) ((Nat.min_le_left _ _).trans hb)
    refine ⟨⟨q', q.unread.take (min n q.unread.length) ++ buffer.drop (min n q.unread.length),
      (min n q.unread.length : ℕ)⟩, ?_, hq', by rw [if_neg hp]⟩
    rw [get, if_neg hd]
    simp only [hmin, hrun]
    rfl

theorem Represents.exact (h : q.Represents p) : q.Exact where
  entries := h.entries
  dataSize := by rw [h.unread, h.dataSize]
  bounded := h.unread ▸ h.pending_lt

theorem Represents.getSize_spec (h : q.Represents p) (n : ℕ) (buffer : List Byte)
    (hn : n ≤ p.pending.length) (hb : n ≤ buffer.length) :
    ∃ q', q.getSize buffer n = .ok (q', p.pending.take n ++ buffer.drop n) ∧
      q'.Represents (p.read n) ∧ q'.terminating = q.terminating := by
  have hl := p.length_delivered_add
  have hw := h.bounded
  obtain ⟨q', hrun, he, hu, hproc⟩ := h.exact.getSize_spec n buffer (h.unread ▸ hn) hb
  obtain ⟨hended, ht⟩ := getSize_frame hrun
  rw [h.unread] at hrun hu
  rw [← p.pending_read] at hu
  have hlen : (p.pending.take n).length = n := by simpa using hn
  have hsize : int32 (q.processedBytes + n) = q.processedBytes + n := by
    rw [h.processed]
    exact int32_eq (by omega) (by omega)
  refine ⟨q', hrun, ⟨he.entries, hu, ?_, ?_, hended.trans h.ended, h.bounded⟩, ht⟩
  · rw [he.dataSize, hu]
  · rw [hproc, hsize, Pipe.delivered_read, List.length_append, hlen, Nat.cast_add, h.processed]

section put

variable {buffer : List Byte} {length : ℤ} {r : PutResult}

theorem put_unread (hr : q.put buffer length = .ok r) :
    r.queue.unread = q.unread ++ buffer.take length.toNat := by
  obtain ⟨-, -, n, rfl, -, rfl⟩ := put_eq_ok.mp hr
  have hu : AudioQueueEntry.unread ⟨buffer.take n, 0, n⟩ = buffer.take n := by
    rw [AudioQueueEntry.unread, Int.toNat_zero, List.drop_zero, Int.toNat_natCast,
      List.take_take, min_self]
  rw [AudioQueue.unread, bytes_append, bytes_cons, hu, bytes_nil, List.append_nil,
    Int.toNat_natCast]
  rfl

theorem put_entries (h : ∀ e ∈ q.audioQueue, e.Valid) (hr : q.put buffer length = .ok r) :
    ∀ e ∈ r.queue.audioQueue, e.Valid := by
  obtain ⟨-, -, n, rfl, hn, rfl⟩ := put_eq_ok.mp hr
  intro e hmem
  rcases List.mem_append.mp hmem with hmem | hmem
  · exact h e hmem
  · obtain rfl := List.mem_singleton.mp hmem
    exact ⟨le_rfl, Int.natCast_nonneg _, by simp [hn]⟩

theorem Exact.put_spec (h : q.Exact) (hr : q.put buffer length = .ok r)
    (hb : q.unread.length + length < 2 ^ 31) : r.queue.Exact := by
  have hu := put_unread hr
  have hv := put_entries h.entries hr
  obtain ⟨-, -, n, rfl, hn, rfl⟩ := put_eq_ok.mp hr
  have hl : (q.unread ++ buffer.take (n : ℤ).toNat).length = q.unread.length + n := by
    simp [hn]
  have hsize : int32 (q.dataSize + n) = q.dataSize + n := by
    rw [h.dataSize]
    exact int32_eq (by omega) (by omega)
  refine ⟨hv, ?_, by rw [hu, hl]; omega⟩
  rw [hu, hl, Nat.cast_add, ← h.dataSize]
  exact hsize

theorem Represents.put_spec (h : q.Represents p) (hr : q.put buffer length = .ok r)
    (hb : (p.written ++ buffer.take length.toNat).length < 2 ^ 31) :
    r.queue.Represents (p.write (buffer.take length.toNat)) := by
  have hu := put_unread hr
  obtain ⟨-, -, n, rfl, hn, rfl⟩ := put_eq_ok.mp hr
  have hlen : (buffer.take (n : ℤ).toNat).length = n := by simp [hn]
  have hl := p.length_delivered_add
  have he := h.exact.put_spec hr (by
    rw [List.length_append, hlen] at hb
    rw [h.unread]
    omega)
  rw [h.unread, ← Pipe.pending_write] at hu
  refine ⟨he.entries, hu, ?_, h.processed, h.ended, ?_⟩
  · rw [he.dataSize, hu]
  · rw [Pipe.written_write]
    exact hb

end put

/-- `get` reads from the pipe, and its three-way result tells an empty queue, an
ended and drained queue, and the number of bytes apart. -/
theorem Represents.get_spec (h : q.Represents p) (n : ℕ) (buffer : List Byte)
    (hb : n ≤ buffer.length) :
    ∃ r, q.get buffer n = .ok r ∧
      r.returned = (if p.pending = [] then (if p.closed then -1 else 0 : ℤ)
        else ((min n p.pending.length : ℕ) : ℤ)) ∧
      r.buffer = p.pending.take n ++ buffer.drop r.returned.toNat ∧
      r.queue.Represents (p.read n) ∧ r.queue.terminating = q.terminating := by
  by_cases hp : p.pending = []
  · have hd : q.dataSize = 0 := by simp [h.dataSize, hp]
    refine ⟨⟨q, buffer, if p.closed then -1 else 0⟩, ?_, by rw [if_pos hp], ?_,
      (Pipe.read_of_pending_eq_nil hp n).symm ▸ h, rfl⟩
    · rw [get, if_pos hd, h.ended]
      cases p.closed <;> rfl
    · rw [hp]
      cases p.closed <;> simp
  · have hpos : 0 < p.pending.length := List.length_pos_iff.mpr hp
    have hd : q.dataSize ≠ 0 := by rw [h.dataSize]; omega
    obtain ⟨q', hrun, hq', ht⟩ := h.getSize_spec (min n p.pending.length) buffer
      (Nat.min_le_right _ _) ((Nat.min_le_left _ _).trans hb)
    have hmin : min (n : ℤ) q.dataSize = (min n p.pending.length : ℕ) := by
      rw [h.dataSize]
      omega
    refine ⟨⟨q', p.pending.take n ++ buffer.drop (min n p.pending.length),
      (min n p.pending.length : ℕ)⟩, ?_, by rw [if_neg hp], by rw [Int.toNat_natCast],
      p.read_min n ▸ hq', ht⟩
    rw [get, if_neg hd]
    simp only [hmin, hrun]
    rw [← List.take_eq_take_min]
    rfl

theorem Represents.blockingGetEnter_spec (h : q.Represents p) {q' : AudioQueue} {n : ℤ}
    (he : q.blockingGetEnter n = .ok q') : q'.Represents p := by
  obtain ⟨-, rfl⟩ := blockingGetEnter_eq_ok.mp he
  exact ⟨h.entries, h.unread, h.dataSize, h.processed, h.ended, h.bounded⟩

theorem Represents.markEnd_spec (h : q.Represents p) : q.markEnd.Represents p.close :=
  ⟨h.entries, h.unread, h.dataSize, h.processed, rfl, h.bounded⟩

theorem Represents.terminate_spec (h : q.Represents p) : q.terminate.Represents p :=
  ⟨h.entries, h.unread, h.dataSize, h.processed, h.ended, h.bounded⟩

/-- Once its wait is over `blockingGet` reads from the pipe as well: the requested
number of bytes, or what is left of an ended queue, or nothing of a terminated one. -/
theorem Represents.blockingGetLeave_spec (h : q.Represents p) {n : ℕ} (buffer : List Byte)
    (hb : n ≤ buffer.length) (hw : q.blockingGetWaits n = false) :
    ∃ r, q.blockingGetLeave buffer n = .ok r ∧
      r.returned = min (if q.terminating then 0 else n) p.pending.length ∧
      r.buffer = p.pending.take (if q.terminating then 0 else n) ++
        buffer.drop r.returned.toNat ∧
      r.queue.Represents (p.read (if q.terminating then 0 else n)) ∧
      r.queue.terminating = q.terminating := by
  have hzero : p.read 0 = p := by
    cases p
    simp [Pipe.read]
  cases ht : q.terminating with
  | true =>
    refine ⟨⟨q, buffer, 0⟩, by rw [blockingGetLeave, ht, if_pos rfl], by simp, by simp, ?_, ht⟩
    simpa [hzero] using h
  | false =>
    by_cases hd : q.ended = true ∧ q.dataSize = 0
    · have hp : p.pending = [] := by
        have hz := hd.2
        rw [h.dataSize] at hz
        exact List.eq_nil_of_length_eq_zero (by omega)
      refine ⟨⟨q, buffer, 0⟩, ?_, by simp [hp], by simp [hp], ?_, ht⟩
      · rw [blockingGetLeave, ht, if_neg (by simp), if_pos hd]
      · simpa [Pipe.read_of_pending_eq_nil hp] using h
    · have hsize : (if q.ended = true ∧ q.dataSize < n then q.dataSize else n) =
          ((min n p.pending.length : ℕ) : ℤ) := by
        simp only [blockingGetWaits, ht, true_and, decide_eq_false_iff_not, not_and,
          Bool.not_eq_false] at hw
        have hs := h.dataSize
        split
        · omega
        · rename_i hc
          by_cases hlt : q.dataSize < n
          · exact absurd ⟨hw hlt, hlt⟩ hc
          · omega
      obtain ⟨q', hrun, hq', ht'⟩ := h.getSize_spec (min n p.pending.length) buffer
        (Nat.min_le_right _ _) ((Nat.min_le_left _ _).trans hb)
      refine ⟨⟨{ q' with busy := false, requestedSize := 0 },
        p.pending.take n ++ buffer.drop (min n p.pending.length), (min n p.pending.length : ℕ)⟩,
        ?_, ?_, ?_, ?_, ht'.trans ht⟩
      · rw [blockingGetLeave, ht, if_neg (by simp), if_neg hd]
        simp only [hsize, hrun]
        rw [← List.take_eq_take_min]
        rfl
      · simp
      · simp only [Int.toNat_natCast, Bool.false_eq_true, if_false]
      · rw [p.read_min] at hq'
        exact ⟨hq'.entries, hq'.unread, hq'.dataSize, hq'.processed, hq'.ended, hq'.bounded⟩

end AudioQueue

end SpeechBridge.Audio
