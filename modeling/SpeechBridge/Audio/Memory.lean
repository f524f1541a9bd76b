import SpeechBridge.Audio.Conservation
import SpeechBridge.Foundation.Agree
import SpeechBridge.Foundation.Heap

namespace SpeechBridge.Audio

open Foundation Foundation.Machine

abbrev EntryPtr := ℕ

abbrev BufferPtr := ℕ

/-- An `AudioQueueEntry` in memory, with its buffer in a block of its own. -/
structure EntryFields where
  buffer : Option BufferPtr
  offset : ℤ
  length : ℤ
  deriving DecidableEq, Repr

/-- What stops an operation that works with pointers: one to no live block, or what stops
the operation in any case. -/
inductive MemoryFault
  | invalidPointer
  | program (fault : Fault)
  deriving DecidableEq, Repr

/-- `AudioQueue` as it is in memory: a queue of pointers, with the blocks that are live. -/
structure QueueMemory where
  dataSize : ℤ
  busy : Bool
  ended : Bool
  terminating : Bool
  requestedSize : ℤ
  processedBytes : ℤ
  audioQueue : List EntryPtr
  entries : Heap EntryFields
  buffers : Heap (List Byte)

namespace QueueMemory

def valid {α : Type*} : Option α → Except MemoryFault α
  | some a => .ok a
  | none => .error .invalidPointer

def program {α : Type*} : Except Fault α → Except MemoryFault α
  | .ok a => .ok a
  | .error fault => .error (.program fault)

def create : QueueMemory where
  dataSize := 0
  busy := false
  ended := false
  terminating := false
  requestedSize := 0
  processedBytes := 0
  audioQueue := []
  entries := Heap.empty
  buffers := Heap.empty

/-- `~AudioQueue`, from the front of the queue on. -/
def destroyLoop (entries : Heap EntryFields) (buffers : Heap (List Byte)) :
    List EntryPtr → Except MemoryFault (Heap EntryFields × Heap (List Byte))
  | [] => .ok (entries, buffers)
  | e :: rest => do
    let fields ← valid (entries.read e)
    let block ← valid fields.buffer
    let buffers ← valid (buffers.free block)
    let entries ← valid (entries.free e)
    destroyLoop entries buffers rest

def destroy (q : QueueMemory) : Except MemoryFault (Heap EntryFields × Heap (List Byte)) :=
  destroyLoop q.entries q.buffers q.audioQueue

/-- `put`, with whether it called `notify_one` and the returned value. -/
def put (q : QueueMemory) (buffer : List Byte) (length : ℤ) :
    Except MemoryFault (QueueMemory × Bool × ℤ) :=
  if q.ended = true ∨ q.terminating = true then
    .error (.program (.assertion "!this->ended && !this->terminating"))
  else do
    let (entries, entry) := q.entries.alloc ⟨none, 0, 0⟩
    if length < 0 then .error (.program .badArrayNewLength)
    else do
      let (buffers, block) := q.buffers.alloc (List.replicate length.toNat 0)
      let entries ← valid (entries.write entry ⟨some block, 0, 0⟩)
      let bytes ← valid (buffers.read block)
      let copy ← program (memcpy bytes 0 buffer 0 length)
      let buffers ← valid (buffers.write block copy)
      let entries ← valid (entries.write entry ⟨some block, 0, length⟩)
      let dataSize := int32 (q.dataSize + length)
      .ok ({ q with
        dataSize := dataSize
        audioQueue := q.audioQueue ++ [entry]
        entries := entries
        buffers := buffers }, decide (0 < q.requestedSize ∧ q.requestedSize ≤ dataSize), length)

/-- The loop of `getSize`, which frees each entry that it drains. -/
def getSizeLoop (remaining offset dataSize : ℤ) (buffer : List Byte) (entries : Heap EntryFields)
    (buffers : Heap (List Byte)) : List EntryPtr →
      Except MemoryFault (List EntryPtr × Heap EntryFields × Heap (List Byte) × ℤ × List Byte)
  | [] =>
    if 0 < remaining then .error (.program .emptyFront)
    else .ok ([], entries, buffers, dataSize, buffer)
  | entry :: rest =>
    if 0 < remaining then do
      let fields ← valid (entries.read entry)
      let block ← valid fields.buffer
      let bytes ← valid (buffers.read block)
      if remaining < fields.length then do
        let buffer ← program (memcpy buffer offset bytes fields.offset remaining)
        let entries ← valid (entries.write entry { fields with
          offset := fields.offset + remaining
          length := fields.length - remaining })
        .ok (entry :: rest, entries, buffers, int32 (dataSize - remaining), buffer)
      else do
        let buffer ← program (memcpy buffer offset bytes fields.offset fields.length)
        let buffers ← valid (buffers.free block)
        let entries ← valid (entries.free entry)
        getSizeLoop (remaining - fields.length) (offset + fields.length)
          (int32 (dataSize - fields.length)) buffer entries buffers rest
    else .ok (entry :: rest, entries, buffers, dataSize, buffer)

def getSize (q : QueueMemory) (buffer : List Byte) (requestedLength : ℤ) :
    Except MemoryFault (QueueMemory × List Byte) := do
  let (audioQueue, entries, buffers, dataSize, buffer) ←
    getSizeLoop requestedLength 0 q.dataSize buffer q.entries q.buffers q.audioQueue
  .ok ({ q with
    audioQueue := audioQueue
    entries := entries
    buffers := buffers
    dataSize := dataSize
    processedBytes := int32 (q.processedBytes + requestedLength) }, buffer)

def get (q : QueueMemory) (buffer : List Byte) (requestedLength : ℤ) :
    Except MemoryFault (QueueMemory × List Byte × ℤ) :=
  if q.dataSize = 0 then
    if q.ended then .ok (q, buffer, -1) else .ok (q, buffer, 0)
  else do
    let size := min requestedLength q.dataSize
    let (q, buffer) ← q.getSize buffer size
    .ok (q, buffer, size)

def blockingGetEnter (q : QueueMemory) (requestedLength : ℤ) : Except MemoryFault QueueMemory :=
  if q.busy then .error (.program (.assertion "!this->busy"))
  else .ok { q with busy := true, requestedSize := requestedLength }

def blockingGetWaits (q : QueueMemory) (requestedLength : ℤ) : Bool :=
  q.dataSize < requestedLength ∧ q.terminating = false ∧ q.ended = false

def blockingGetLeave (q : QueueMemory) (buffer : List Byte) (requestedLength : ℤ) :
    Except MemoryFault (QueueMemory × List Byte × ℤ) :=
  if q.terminating then .ok (q, buffer, 0)
  else if q.ended = true ∧ q.dataSize = 0 then .ok (q, buffer, 0)
  else do
    let requestedLength :=
      if q.ended = true ∧ q.dataSize < requestedLength then q.dataSize else requestedLength
    let (q, buffer) ← q.getSize buffer requestedLength
    .ok ({ q with busy := false, requestedSize := 0 }, buffer, requestedLength)

def markEnd (q : QueueMemory) : QueueMemory := { q with ended := true }

def terminate (q : QueueMemory) : QueueMemory := { q with terminating := true }

structure Block where
  entry : EntryPtr
  buffer : BufferPtr
  value : AudioQueueEntry

def Block.fields (b : Block) : ℕ × EntryFields :=
  (b.entry, ⟨some b.buffer, b.value.offset, b.value.length⟩)

def Block.bytes (b : Block) : ℕ × List Byte := (b.buffer, b.value.buffer)

/-- Each element has an entry and a buffer of its own, and no other block is live. -/
structure Holds (entries : Heap EntryFields) (buffers : Heap (List Byte)) (blocks : List Block) :
    Prop where
  entries : entries.Owns (blocks.map Block.fields)
  buffers : buffers.Owns (blocks.map Block.bytes)

def value (m : QueueMemory) (blocks : List Block) : AudioQueue where
  dataSize := m.dataSize
  busy := m.busy
  ended := m.ended
  terminating := m.terminating
  requestedSize := m.requestedSize
  processedBytes := m.processedBytes
  audioQueue := blocks.map Block.value

def Represents (m : QueueMemory) (q : AudioQueue) : Prop :=
  ∃ blocks, m.audioQueue = blocks.map Block.entry ∧ q = m.value blocks ∧
    Holds m.entries m.buffers blocks

variable {m : QueueMemory} {q : AudioQueue} {entries : Heap EntryFields}
  {buffers : Heap (List Byte)} {b : Block} {blocks : List Block}

@[simp] theorem valid_some {α : Type*} (a : α) : valid (some a) = .ok a := rfl

theorem program_agrees {α : Type*} (x : Except Fault α) :
    Agree .program Eq (program x) x := by
  cases x <;> rfl

theorem create_represents : create.Represents AudioQueue.create :=
  ⟨[], rfl, rfl, Heap.empty_owns, Heap.empty_owns⟩

theorem Holds.perm (h : Holds entries buffers blocks) {blocks' : List Block}
    (hp : blocks.Perm blocks') : Holds entries buffers blocks' :=
  ⟨h.entries.perm (hp.map _), h.buffers.perm (hp.map _)⟩

theorem Holds.free (h : Holds entries buffers (b :: blocks)) :
    ∃ buffers' entries', buffers.free b.buffer = some buffers' ∧
      entries.free b.entry = some entries' ∧ Holds entries' buffers' blocks := by
  obtain ⟨buffers', hb, hbuffers⟩ := h.buffers.free
  obtain ⟨entries', he, hentries⟩ := h.entries.free
  exact ⟨buffers', entries', hb, he, hentries, hbuffers⟩

theorem destroyLoop_ok (h : Holds entries buffers blocks) :
    ∃ entries' buffers', destroyLoop entries buffers (blocks.map Block.entry) =
      .ok (entries', buffers') ∧ Holds entries' buffers' [] := by
  induction blocks generalizing entries buffers with
  | nil => exact ⟨entries, buffers, rfl, h⟩
  | cons b blocks ih =>
    obtain ⟨buffers', entries', hbuffers, hentries, hrest⟩ := h.free
    obtain ⟨entries'', buffers'', hloop, hnil⟩ := ih hrest
    refine ⟨entries'', buffers'', ?_, hnil⟩
    have hread : entries.read b.entry = some ⟨some b.buffer, b.value.offset, b.value.length⟩ :=
      h.entries.read
    rw [List.map_cons, destroyLoop, hread]
    simp only [bind, Except.bind, valid_some, hbuffers, hentries, hloop]

theorem getSizeLoop_agrees (h : Holds entries buffers blocks) (remaining offset dataSize : ℤ)
    (buffer : List Byte) : Agree .program (fun r r' ↦ ∃ blocks', r.1 = blocks'.map Block.entry ∧
        r'.1 = blocks'.map Block.value ∧ Holds r.2.1 r.2.2.1 blocks' ∧ r.2.2.2 = r'.2)
      (getSizeLoop remaining offset dataSize buffer entries buffers (blocks.map Block.entry))
      (AudioQueue.getSizeLoop remaining offset dataSize buffer (blocks.map Block.value)) := by
  induction blocks generalizing remaining offset dataSize buffer entries buffers with
  | nil =>
    rw [List.map_nil, List.map_nil, getSizeLoop, AudioQueue.getSizeLoop]
    split
    · rfl
    · exact ⟨[], rfl, rfl, h, rfl⟩
  | cons b blocks ih =>
    have hread : entries.read b.entry = some ⟨some b.buffer, b.value.offset, b.value.length⟩ :=
      h.entries.read
    have hbytes : buffers.read b.buffer = some b.value.buffer := h.buffers.read
    rw [List.map_cons, List.map_cons, getSizeLoop, AudioQueue.getSizeLoop]
    split
    · rw [hread]
      simp only [bind, Except.bind, valid_some, hbytes]
      split
      · refine (program_agrees _).bind fun buffer' _ he ↦ ?_
        subst he
        obtain ⟨entries', hwrite, hentries⟩ := h.entries.write
          ⟨some b.buffer, b.value.offset + remaining, b.value.length - remaining⟩
        have hwrite' : entries.write b.entry _ = some entries' := hwrite
        rw [hwrite']
        exact ⟨{ b with value := { b.value with
          offset := b.value.offset + remaining
          length := b.value.length - remaining } } :: blocks, rfl, rfl, ⟨hentries, h.buffers⟩, rfl⟩
      · refine (program_agrees _).bind fun buffer' _ he ↦ ?_
        subst he
        obtain ⟨buffers', entries', hbuffers, hentries, hrest⟩ := h.free
        rw [hbuffers, hentries]
        exact ih hrest _ _ _ _
    · exact ⟨b :: blocks, rfl, rfl, h, rfl⟩

theorem put_agrees (h : m.Represents q) (buffer : List Byte) (length : ℤ) :
    Agree .program (fun r r' ↦ r.1.Represents r'.queue ∧ r.2 = (r'.notified, r'.returned))
      (m.put buffer length) (q.put buffer length) := by
  obtain ⟨blocks, hqueue, rfl, hholds⟩ := h
  by_cases hopen : m.ended = true ∨ m.terminating = true
  · have hopen' : (m.value blocks).ended = true ∨ (m.value blocks).terminating = true := hopen
    rw [put, AudioQueue.put, if_pos hopen, if_pos hopen']
    rfl
  have hopen' : ¬ ((m.value blocks).ended = true ∨ (m.value blocks).terminating = true) := hopen
  rw [put, AudioQueue.put, if_neg hopen, if_neg hopen']
  by_cases hneg : length < 0
  · simp only [bind, Except.bind, if_pos hneg]
    rfl
  -- The new entry and its buffer, which no element of the queue has.
  have hentry := hholds.entries.alloc ⟨none, 0, 0⟩
  have hbuffer := hholds.buffers.alloc (List.replicate length.toNat 0)
  obtain ⟨entries₁, hwrite₁, hentry₁⟩ := hentry.write ⟨some m.buffers.fresh, 0, 0⟩
  obtain ⟨entries₂, hwrite₂, hentry₂⟩ := hentry₁.write ⟨some m.buffers.fresh, 0, length⟩
  simp only [bind, Except.bind, if_neg hneg, Heap.alloc_snd, hwrite₁, hbuffer.read, valid_some]
  refine (program_agrees _).bind fun copy _ he ↦ ?_
  subst he
  obtain ⟨buffers₁, hcopy, hbuffer₁⟩ := hbuffer.write copy
  rw [hcopy, hwrite₂]
  have hnew : Holds entries₂ buffers₁
      (⟨m.entries.fresh, m.buffers.fresh, copy, 0, length⟩ :: blocks) := ⟨hentry₂, hbuffer₁⟩
  exact ⟨⟨blocks ++ [⟨m.entries.fresh, m.buffers.fresh, copy, 0, length⟩], by simp [hqueue],
    by simp [value], hnew.perm (List.perm_append_singleton _ _).symm⟩, rfl⟩

theorem getSize_agrees (h : m.Represents q) (buffer : List Byte) (n : ℤ) :
    Agree .program (fun r r' ↦ r.1.Represents r'.1 ∧ r.2 = r'.2) (m.getSize buffer n)
      (q.getSize buffer n) := by
  obtain ⟨blocks, hqueue, rfl, hholds⟩ := h
  rw [getSize, AudioQueue.getSize, hqueue]
  refine (getSizeLoop_agrees hholds n 0 m.dataSize buffer).bind fun r r' hr ↦ ?_
  obtain ⟨audioQueue, entries, buffers, dataSize, buffer'⟩ := r
  obtain ⟨audioQueue', rest⟩ := r'
  obtain ⟨blocks', rfl, rfl, hholds', rfl⟩ := hr
  exact ⟨⟨blocks', rfl, rfl, hholds'⟩, rfl⟩

def Reads (r : QueueMemory × List Byte × ℤ) (r' : AudioQueue.ReadResult) : Prop :=
  r.1.Represents r'.queue ∧ r.2 = (r'.buffer, r'.returned)

theorem get_agrees (h : m.Represents q) (buffer : List Byte) (n : ℤ) :
    Agree .program Reads (m.get buffer n) (q.get buffer n) := by
  have hrep := h
  obtain ⟨blocks, -, rfl, -⟩ := h
  by_cases hzero : m.dataSize = 0
  · have hzero' : (m.value blocks).dataSize = 0 := hzero
    rw [get, AudioQueue.get, if_pos hzero, if_pos hzero']
    cases hended : m.ended with
    | true =>
      rw [if_pos rfl, if_pos (show (m.value blocks).ended = true from hended)]
      exact ⟨hrep, rfl⟩
    | false =>
      rw [if_neg (by simp), if_neg (by simp [value, hended])]
      exact ⟨hrep, rfl⟩
  · have hzero' : (m.value blocks).dataSize ≠ 0 := hzero
    rw [get, AudioQueue.get, if_neg hzero, if_neg hzero']
    refine (getSize_agrees hrep buffer (min n m.dataSize)).bind fun r r' hr ↦ ?_
    exact ⟨hr.1, by rw [hr.2]; rfl⟩

theorem blockingGetEnter_agrees (h : m.Represents q) (n : ℤ) :
    Agree .program Represents (m.blockingGetEnter n) (q.blockingGetEnter n) := by
  obtain ⟨blocks, hqueue, rfl, hholds⟩ := h
  cases hbusy : m.busy with
  | true =>
    rw [blockingGetEnter, AudioQueue.blockingGetEnter, if_pos hbusy,
      if_pos (show (m.value blocks).busy = true from hbusy)]
    rfl
  | false =>
    rw [blockingGetEnter, AudioQueue.blockingGetEnter, if_neg (by simp [hbusy]),
      if_neg (by simp [value, hbusy])]
    exact ⟨blocks, hqueue, rfl, hholds⟩

theorem blockingGetLeave_agrees (h : m.Represents q) (buffer : List Byte) (n : ℤ) :
    Agree .program Reads (m.blockingGetLeave buffer n) (q.blockingGetLeave buffer n) := by
  have hrep := h
  obtain ⟨blocks, -, rfl, -⟩ := h
  by_cases hearly : m.terminating = true ∨ m.ended = true ∧ m.dataSize = 0
  · rw [AudioQueue.blockingGetLeave_early (q := m.value blocks) hearly]
    rw [blockingGetLeave]
    split
    · exact ⟨hrep, rfl⟩
    · rename_i hterminating
      rw [if_pos (hearly.resolve_left hterminating)]
      exact ⟨hrep, rfl⟩
  · obtain ⟨hterminating, hended⟩ := not_or.mp hearly
    rw [blockingGetLeave, AudioQueue.blockingGetLeave, if_neg hterminating, if_neg hended,
      if_neg (show ¬ (m.value blocks).terminating = true from hterminating),
      if_neg (show ¬ ((m.value blocks).ended = true ∧ (m.value blocks).dataSize = 0) from hended)]
    refine (getSize_agrees hrep buffer _).bind fun r r' hr ↦ ?_
    obtain ⟨⟨blocks', hqueue', hvalue, hholds'⟩, hbuffer⟩ := hr
    refine ⟨⟨blocks', hqueue', ?_, hholds'⟩, by rw [hbuffer]; rfl⟩
    rw [hvalue]
    rfl

theorem blockingGetWaits_eq (h : m.Represents q) (n : ℤ) :
    m.blockingGetWaits n = q.blockingGetWaits n := by
  obtain ⟨blocks, -, rfl, -⟩ := h
  rfl

theorem markEnd_represents (h : m.Represents q) : m.markEnd.Represents q.markEnd := by
  obtain ⟨blocks, hqueue, rfl, hholds⟩ := h
  exact ⟨blocks, hqueue, rfl, hholds⟩

theorem terminate_represents (h : m.Represents q) : m.terminate.Represents q.terminate := by
  obtain ⟨blocks, hqueue, rfl, hholds⟩ := h
  exact ⟨blocks, hqueue, rfl, hholds⟩

/-- Each operation returns in memory what it returns on the values, and fails as it fails
there. -/
structure Simulates (m : QueueMemory) (q : AudioQueue) : Prop where
  put : ∀ buffer length,
    Agree .program (fun r r' ↦ r.1.Represents r'.queue ∧ r.2 = (r'.notified, r'.returned))
      (m.put buffer length) (q.put buffer length)
  get : ∀ buffer n, Agree .program Reads (m.get buffer n) (q.get buffer n)
  blockingGetEnter : ∀ n,
    Agree .program Represents (m.blockingGetEnter n) (q.blockingGetEnter n)
  blockingGetWaits : ∀ n, m.blockingGetWaits n = q.blockingGetWaits n
  blockingGetLeave : ∀ buffer n,
    Agree .program Reads (m.blockingGetLeave buffer n) (q.blockingGetLeave buffer n)
  markEnd : m.markEnd.Represents q.markEnd
  terminate : m.terminate.Represents q.terminate

theorem Represents.simulates (h : m.Represents q) : m.Simulates q where
  put := put_agrees h
  get := get_agrees h
  blockingGetEnter := blockingGetEnter_agrees h
  blockingGetWaits := blockingGetWaits_eq h
  blockingGetLeave := blockingGetLeave_agrees h
  markEnd := markEnd_represents h
  terminate := terminate_represents h

end QueueMemory

structure MemoryCalls where
  queue : QueueMemory
  reader : Option ℤ
  put : List Byte
  delivered : List Byte

namespace MemoryCalls

open QueueMemory

def initial : MemoryCalls := ⟨QueueMemory.create, none, [], []⟩

def deliver (s : MemoryCalls) (r : QueueMemory × List Byte × ℤ) (reader : Option ℤ) :
    MemoryCalls where
  queue := r.1
  reader := reader
  put := s.put
  delivered := s.delivered ++ r.2.1.take r.2.2.toNat

def next (s : MemoryCalls) : Call → Option MemoryCalls
  | .put buffer length => (s.queue.put buffer length).toOption.map fun r ↦
      { s with queue := r.1, put := s.put ++ buffer.take length.toNat }
  | .get buffer n =>
      if 0 ≤ n ∧ n ≤ buffer.length then
        (s.queue.get buffer n).toOption.map fun r ↦ s.deliver r s.reader
      else none
  | .blockingGetEnter n =>
      if 0 ≤ n then
        (s.queue.blockingGetEnter n).toOption.map fun q ↦ { s with queue := q, reader := some n }
      else none
  | .blockingGetLeave buffer => s.reader.bind fun n ↦
      if s.queue.blockingGetWaits n = false ∧ n ≤ buffer.length then
        (s.queue.blockingGetLeave buffer n).toOption.map fun r ↦ s.deliver r none
      else none
  | .markEnd => some { s with queue := s.queue.markEnd }
  | .terminate => some { s with queue := s.queue.terminate }

def system : Transition.System MemoryCalls Call where
  init s := s = initial
  next := next

structure Shows (s : MemoryCalls) (v : Calls) : Prop where
  queue : s.queue.Represents v.queue
  reader : s.reader = v.reader
  put : s.put = v.put
  delivered : s.delivered = v.delivered

variable {s : MemoryCalls} {v : Calls}

theorem Shows.deliver (h : s.Shows v) {r : QueueMemory × List Byte × ℤ}
    {r' : AudioQueue.ReadResult} (hr : Reads r r') {reader reader' : Option ℤ}
    (he : reader = reader') : (s.deliver r reader).Shows (v.deliver r' reader') := by
  refine ⟨hr.1, he, h.put, ?_⟩
  rw [MemoryCalls.deliver, Calls.deliver, h.delivered, hr.2]

theorem next_shows (h : s.Shows v) (c : Call) : Option.Rel Shows (s.next c) (v.next c) := by
  have hqueue := h.queue.simulates
  cases c with
  | put buffer length =>
    refine (hqueue.put buffer length).map_toOption fun r r' hr ↦ ?_
    exact ⟨hr.1, h.reader, by rw [h.put], h.delivered⟩
  | get buffer n =>
    rw [next, Calls.next]
    split
    · exact (hqueue.get buffer n).map_toOption fun r r' hr ↦ h.deliver hr h.reader
    · exact .none
  | blockingGetEnter n =>
    rw [next, Calls.next]
    split
    · refine (hqueue.blockingGetEnter n).map_toOption fun q q' hq ↦ ?_
      exact ⟨hq, rfl, h.put, h.delivered⟩
    · exact .none
  | blockingGetLeave buffer =>
    rw [next, Calls.next, h.reader]
    cases v.reader with
    | none => exact .none
    | some n =>
      simp only [Option.bind_some, hqueue.blockingGetWaits]
      split
      · exact (hqueue.blockingGetLeave buffer n).map_toOption fun r r' hr ↦ h.deliver hr rfl
      · exact .none
  | markEnd => exact .some ⟨hqueue.markEnd, h.reader, h.put, h.delivered⟩
  | terminate => exact .some ⟨hqueue.terminate, h.reader, h.put, h.delivered⟩

theorem reachable_shows (h : system.Reachable s) : ∃ v, Calls.system.Reachable v ∧ s.Shows v := by
  refine h.induction (P := fun s ↦ ∃ v, Calls.system.Reachable v ∧ s.Shows v) ?_ ?_
  · rintro s rfl
    exact ⟨Calls.initial, .start rfl, create_represents, rfl, rfl, rfl⟩
  · intro s c t _ ih hn
    obtain ⟨v, hv, hs⟩ := ih
    have hrel := next_shows hs c
    replace hn : s.next c = some t := hn
    rw [hn] at hrel
    cases hc : v.next c with
    | none =>
      rw [hc] at hrel
      cases hrel
    | some u =>
      rw [hc] at hrel
      cases hrel with
      | some ht => exact ⟨u, hv.step hc, ht⟩

/-- However its calls interleave, the queue uses no pointer to an entry or a buffer that was
freed, frees none twice, and does and returns what the queue of values does and returns. Its
destructor frees all that is left at any point. -/
theorem memory_safe (h : system.Reachable s) :
    (∃ v, Calls.system.Reachable v ∧ s.Shows v ∧ s.queue.Simulates v.queue ∧
        ∀ c, Option.Rel Shows (s.next c) (v.next c)) ∧
      (∀ buffer n, s.queue.put buffer n ≠ .error .invalidPointer ∧
        s.queue.get buffer n ≠ .error .invalidPointer ∧
        s.queue.blockingGetLeave buffer n ≠ .error .invalidPointer) ∧
      ∃ entries buffers, s.queue.destroy = .ok (entries, buffers) ∧
        ∀ p, entries.cells p = none ∧ buffers.cells p = none := by
  obtain ⟨v, hv, hs⟩ := reachable_shows h
  have hqueue := hs.queue.simulates
  refine ⟨⟨v, hv, hs, hqueue, next_shows hs⟩, fun buffer n ↦ ⟨?_, ?_, ?_⟩, ?_⟩
  · exact (hqueue.put buffer n).ne_error (by simp)
  · exact (hqueue.get buffer n).ne_error (by simp)
  · exact (hqueue.blockingGetLeave buffer n).ne_error (by simp)
  · obtain ⟨blocks, hqueue, -, hholds⟩ := hs.queue
    obtain ⟨entries, buffers, hdestroy, hnil⟩ := destroyLoop_ok hholds
    exact ⟨entries, buffers, by rw [destroy, hqueue, hdestroy],
      fun p ↦ ⟨hnil.entries.cells_eq_none p, hnil.buffers.cells_eq_none p⟩⟩

theorem memory_safe_run :
    let calls : List Call := [.put [1, 2, 3] 3, .put [4] 1, .get [0, 0, 0, 0] 2, .markEnd]
    ∃ s v, system.run initial calls = some s ∧ s.delivered = [1, 2] ∧
      s.queue.audioQueue = [0, 1] ∧ Calls.system.Reachable v ∧
      (s.queue.get [0, 0, 0, 0] 4).map Prod.snd = .ok ([3, 4, 0, 0], 2) ∧
      (v.queue.get [0, 0, 0, 0] 4).map (fun r ↦ (r.buffer, r.returned)) =
        .ok ([3, 4, 0, 0], 2) ∧
      ∃ entries buffers, s.queue.destroy = .ok (entries, buffers) ∧
        ∀ p, entries.cells p = none ∧ buffers.cells p = none := by
  intro calls
  have hi : system.init initial := rfl
  have hr : (system.run initial calls).any (fun s ↦ decide (s.delivered = [1, 2]) &&
      decide (s.queue.audioQueue = [0, 1]) &&
      decide ((s.queue.get [0, 0, 0, 0] 4).map Prod.snd = .ok ([3, 4, 0, 0], 2))) = true := by
    decide
  obtain ⟨s, hs, hc⟩ := (Option.any_eq_true _ _).mp hr
  simp only [Bool.and_eq_true, decide_eq_true_eq] at hc
  obtain ⟨⟨hdelivered, hqueue⟩, hget⟩ := hc
  obtain ⟨⟨v, hv, -, hsim, -⟩, -, hdestroy⟩ :=
    memory_safe ((Transition.System.Reachable.start hi).run hs)
  have hvalue := ((hsim.get [0, 0, 0, 0] 4).map_eq_ok_iff fun _ _ hr ↦ hr.2).mp hget
  exact ⟨s, v, hs, hdelivered, hqueue, hv, hget, hvalue, hdestroy⟩

end MemoryCalls

end SpeechBridge.Audio
