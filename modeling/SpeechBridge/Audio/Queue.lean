import SpeechBridge.Foundation.Machine

namespace SpeechBridge.Audio

open Foundation.Machine

abbrev Byte := UInt8

structure AudioQueueEntry where
  buffer : List Byte
  offset : ℤ
  length : ℤ
  deriving DecidableEq, Repr

/-- `AudioQueue` without its lock and its condition variable. The `int` fields
hold what a 32-bit integer holds. -/
structure AudioQueue where
  dataSize : ℤ
  busy : Bool
  ended : Bool
  terminating : Bool
  requestedSize : ℤ
  processedBytes : ℤ
  audioQueue : List AudioQueueEntry
  deriving DecidableEq, Repr

namespace AudioQueue

def create : AudioQueue where
  dataSize := 0
  busy := false
  ended := false
  terminating := false
  requestedSize := 0
  processedBytes := 0
  audioQueue := []

/-- What `put` leaves behind: the queue, whether it called `notify_one`, and the
returned value. -/
structure PutResult where
  queue : AudioQueue
  notified : Bool
  returned : ℤ
  deriving DecidableEq, Repr

structure ReadResult where
  queue : AudioQueue
  buffer : List Byte
  returned : ℤ
  deriving DecidableEq, Repr

def put (q : AudioQueue) (buffer : List Byte) (length : ℤ) : Except Fault PutResult :=
  if q.ended = true ∨ q.terminating = true then
    .error (.assertion "!this->ended && !this->terminating")
  else if length < 0 then .error .badArrayNewLength
  else do
    let copy ← memcpy (List.replicate length.toNat 0) 0 buffer 0 length
    let dataSize := int32 (q.dataSize + length)
    .ok {
      queue := { q with
        dataSize := dataSize
        audioQueue := q.audioQueue ++ [⟨copy, 0, length⟩] }
      notified := 0 < q.requestedSize ∧ q.requestedSize ≤ dataSize
      returned := length }

theorem put_eq_ok {q : AudioQueue} {buffer : List Byte} {length : ℤ} {r : PutResult} :
    q.put buffer length = .ok r ↔
      q.ended = false ∧ q.terminating = false ∧ ∃ n : ℕ, length = n ∧ n ≤ buffer.length ∧
        r = {
          queue := { q with
            dataSize := int32 (q.dataSize + n)
            audioQueue := q.audioQueue ++ [⟨buffer.take n, 0, n⟩] }
          notified := 0 < q.requestedSize ∧ q.requestedSize ≤ int32 (q.dataSize + n)
          returned := n } := by
  have hcopy (n : ℕ) (h : n ≤ buffer.length) :
      memcpy (List.replicate n (0 : Byte)) 0 buffer 0 n = .ok (buffer.take n) := by
    have hc := memcpy_eq (List.replicate n (0 : Byte)) buffer (i := 0) (j := 0) (n := n)
      (by simp) (by simpa using h)
    have hs : splice (List.replicate n (0 : Byte)) 0 (buffer.take n) = buffer.take n := by
      simp [splice_zero, h]
    rw [List.drop_zero, hs] at hc
    exact hc
  constructor
  · intro h
    rw [put] at h
    split at h
    · cases h
    rename_i hopen
    split at h
    · cases h
    rename_i hneg
    obtain ⟨n, rfl⟩ := Int.eq_ofNat_of_zero_le (not_lt.mp hneg)
    have hle : n ≤ buffer.length := by
      by_contra hgt
      rw [memcpy, if_neg (by omega)] at h
      cases h
    rw [Int.toNat_natCast, hcopy n hle] at h
    simp only [not_or, Bool.not_eq_true] at hopen
    exact ⟨hopen.1, hopen.2, n, rfl, hle, (Except.ok.inj h).symm⟩
  · intro h
    obtain ⟨he, ht, n, rfl, hle, rfl⟩ := h
    rw [put, if_neg (by simp [he, ht]), if_neg (by omega), Int.toNat_natCast, hcopy n hle]
    rfl

/-- The loop of `getSize`, on the entries from the front. When an entry is longer
than what remains, `remaining` drops to zero and the loop is left. -/
def getSizeLoop (remaining offset dataSize : ℤ) (buffer : List Byte) :
    List AudioQueueEntry → Except Fault (List AudioQueueEntry × ℤ × List Byte)
  | [] => if 0 < remaining then .error .emptyFront else .ok ([], dataSize, buffer)
  | entry :: rest =>
    if 0 < remaining then
      if remaining < entry.length then do
        let buffer ← memcpy buffer offset entry.buffer entry.offset remaining
        .ok ({ entry with
          offset := entry.offset + remaining
          length := entry.length - remaining } :: rest, int32 (dataSize - remaining), buffer)
      else do
        let buffer ← memcpy buffer offset entry.buffer entry.offset entry.length
        getSizeLoop (remaining - entry.length) (offset + entry.length)
          (int32 (dataSize - entry.length)) buffer rest
    else .ok (entry :: rest, dataSize, buffer)

def getSize (q : AudioQueue) (buffer : List Byte) (requestedLength : ℤ) :
    Except Fault (AudioQueue × List Byte) := do
  let (entries, dataSize, buffer) ← getSizeLoop requestedLength 0 q.dataSize buffer q.audioQueue
  .ok ({ q with
    audioQueue := entries
    dataSize := dataSize
    processedBytes := int32 (q.processedBytes + requestedLength) }, buffer)

def get (q : AudioQueue) (buffer : List Byte) (requestedLength : ℤ) : Except Fault ReadResult :=
  if q.dataSize = 0 then
    if q.ended then .ok ⟨q, buffer, -1⟩ else .ok ⟨q, buffer, 0⟩
  else do
    let size := min requestedLength q.dataSize
    let (q, buffer) ← q.getSize buffer size
    .ok ⟨q, buffer, size⟩

theorem getSizeLoop_dataSize {entries entries' : List AudioQueueEntry}
    {remaining offset d d' : ℤ} {buffer buffer' : List Byte} (hd : int32 d = d)
    (h : getSizeLoop remaining offset d buffer entries = .ok (entries', d', buffer')) :
    d' = int32 (d - max remaining 0) := by
  induction entries generalizing remaining offset d buffer with
  | nil =>
    rw [getSizeLoop] at h
    split at h
    · cases h
    · rename_i hr
      cases h
      rw [max_eq_right (not_lt.mp hr), sub_zero, hd]
  | cons e rest ih =>
    rw [getSizeLoop] at h
    split at h
    · rename_i hr
      rw [max_eq_left hr.le]
      split at h
      · obtain ⟨b, -, h⟩ := bind_eq_ok_iff.mp h
        cases h
        rfl
      · rename_i hle
        obtain ⟨b, -, h⟩ := bind_eq_ok_iff.mp h
        rw [ih (int32_int32 _) h, max_eq_left (by omega), int32_sub_left]
        congr 1
        ring
    · rename_i hr
      cases h
      rw [max_eq_right (not_lt.mp hr), sub_zero, hd]

theorem getSize_dataSize {q q' : AudioQueue} {buffer buffer' : List Byte} {n : ℤ}
    (hd : int32 q.dataSize = q.dataSize) (h : q.getSize buffer n = .ok (q', buffer')) :
    q'.dataSize = int32 (q.dataSize - max n 0) := by
  obtain ⟨r, hr, h⟩ := bind_eq_ok_iff.mp h
  cases h
  exact getSizeLoop_dataSize hd hr

theorem getSize_frame {q q' : AudioQueue} {buffer buffer' : List Byte} {n : ℤ}
    (h : q.getSize buffer n = .ok (q', buffer')) :
    q'.ended = q.ended ∧ q'.terminating = q.terminating := by
  obtain ⟨r, -, hr⟩ := bind_eq_ok_iff.mp h
  cases hr
  exact ⟨rfl, rfl⟩

theorem getSize_reader {q q' : AudioQueue} {buffer buffer' : List Byte} {n : ℤ}
    (h : q.getSize buffer n = .ok (q', buffer')) :
    q'.busy = q.busy ∧ q'.requestedSize = q.requestedSize := by
  obtain ⟨r, -, hr⟩ := bind_eq_ok_iff.mp h
  cases hr
  exact ⟨rfl, rfl⟩

theorem get_cases {q : AudioQueue} {buffer : List Byte} {n : ℤ} {r : ReadResult}
    (h : q.get buffer n = .ok r) :
    (q.dataSize = 0 ∧ r = ⟨q, buffer, if q.ended then -1 else 0⟩) ∨
    (q.dataSize ≠ 0 ∧ r.returned = min n q.dataSize ∧
      q.getSize buffer (min n q.dataSize) = .ok (r.queue, r.buffer)) := by
  rw [get] at h
  split at h
  · rename_i hd
    refine .inl ⟨hd, ?_⟩
    split at h <;> rename_i he <;> cases h <;> simp [he]
  · rename_i hd
    obtain ⟨r', hg, hr⟩ := bind_eq_ok_iff.mp h
    cases hr
    exact .inr ⟨hd, rfl, hg⟩

theorem get_frame {q : AudioQueue} {buffer : List Byte} {n : ℤ} {r : ReadResult}
    (h : q.get buffer n = .ok r) :
    r.queue.ended = q.ended ∧ r.queue.terminating = q.terminating := by
  obtain ⟨-, rfl⟩ | ⟨-, -, hg⟩ := get_cases h
  · exact ⟨rfl, rfl⟩
  · exact getSize_frame hg

theorem get_reader {q : AudioQueue} {buffer : List Byte} {n : ℤ} {r : ReadResult}
    (h : q.get buffer n = .ok r) :
    r.queue.busy = q.busy ∧ r.queue.requestedSize = q.requestedSize := by
  obtain ⟨-, rfl⟩ | ⟨-, -, hg⟩ := get_cases h
  · exact ⟨rfl, rfl⟩
  · exact getSize_reader hg

theorem get_dataSize {q : AudioQueue} {buffer : List Byte} {n : ℤ} {r : ReadResult}
    (hd : int32 q.dataSize = q.dataSize) (h : q.get buffer n = .ok r) :
    r.queue.dataSize ≤ q.dataSize ∧ int32 r.queue.dataSize = r.queue.dataSize := by
  obtain ⟨-, rfl⟩ | ⟨-, -, hg⟩ := get_cases h
  · exact ⟨le_rfl, hd⟩
  · have hsize := getSize_dataSize hd hg
    have hlt := int32_lt q.dataSize
    rw [hd] at hlt
    refine ⟨?_, by rw [hsize, int32_int32]⟩
    rcases le_or_gt (min n q.dataSize) 0 with hle | hpos
    · rw [hsize, max_eq_right hle, sub_zero, hd]
    · rw [hsize, max_eq_left hpos.le, int32_eq (by omega) (by omega)]
      omega

/-- `blockingGet` up to its wait loop. -/
def blockingGetEnter (q : AudioQueue) (requestedLength : ℤ) : Except Fault AudioQueue :=
  if q.busy then .error (.assertion "!this->busy")
  else .ok { q with busy := true, requestedSize := requestedLength }

theorem blockingGetEnter_eq_ok {q q' : AudioQueue} {n : ℤ} : q.blockingGetEnter n = .ok q' ↔
    q.busy = false ∧ q' = { q with busy := true, requestedSize := n } := by
  rw [blockingGetEnter]
  cases q.busy <;> simp [eq_comm]

def blockingGetWaits (q : AudioQueue) (requestedLength : ℤ) : Bool :=
  q.dataSize < requestedLength ∧ q.terminating = false ∧ q.ended = false

/-- `blockingGet` from the end of its wait loop. -/
def blockingGetLeave (q : AudioQueue) (buffer : List Byte) (requestedLength : ℤ) :
    Except Fault ReadResult :=
  if q.terminating then .ok ⟨q, buffer, 0⟩
  else if q.ended = true ∧ q.dataSize = 0 then .ok ⟨q, buffer, 0⟩
  else do
    let requestedLength :=
      if q.ended = true ∧ q.dataSize < requestedLength then q.dataSize else requestedLength
    let (q, buffer) ← q.getSize buffer requestedLength
    .ok ⟨{ q with busy := false, requestedSize := 0 }, buffer, requestedLength⟩

theorem blockingGetLeave_dataSize {q : AudioQueue} {buffer : List Byte} {n : ℤ} {r : ReadResult}
    (hd : int32 q.dataSize = q.dataSize) (h : q.blockingGetLeave buffer n = .ok r) :
    int32 r.queue.dataSize = r.queue.dataSize := by
  rw [blockingGetLeave] at h
  split at h
  · cases h
    exact hd
  · split at h
    · cases h
      exact hd
    · obtain ⟨⟨q', buffer'⟩, hg, hr⟩ := bind_eq_ok_iff.mp h
      cases hr
      dsimp only
      rw [getSize_dataSize hd hg, int32_int32]

def ReturnsEarly (q : AudioQueue) : Prop :=
  q.terminating = true ∨ q.ended = true ∧ q.dataSize = 0

instance : DecidablePred ReturnsEarly :=
  fun q ↦ inferInstanceAs (Decidable (q.terminating = true ∨ q.ended = true ∧ q.dataSize = 0))

theorem blockingGetLeave_early {q : AudioQueue} (h : q.ReturnsEarly) (buffer : List Byte) (n : ℤ) :
    q.blockingGetLeave buffer n = .ok ⟨q, buffer, 0⟩ := by
  rw [blockingGetLeave]
  split
  · rfl
  · rename_i ht
    rw [if_pos (h.resolve_left ht)]

theorem blockingGetLeave_reset {q : AudioQueue} {buffer : List Byte} {n : ℤ} {r : ReadResult}
    (h : q.blockingGetLeave buffer n = .ok r) (he : ¬ q.ReturnsEarly) :
    r.queue.busy = false ∧ r.queue.requestedSize = 0 := by
  rw [ReturnsEarly, not_or] at he
  rw [blockingGetLeave, if_neg he.1, if_neg he.2] at h
  obtain ⟨r', -, hr⟩ := bind_eq_ok_iff.mp h
  cases hr
  exact ⟨rfl, rfl⟩

def markEnd (q : AudioQueue) : AudioQueue := { q with ended := true }

def terminate (q : AudioQueue) : AudioQueue := { q with terminating := true }

end AudioQueue

end SpeechBridge.Audio
