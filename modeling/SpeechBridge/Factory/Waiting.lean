import SpeechBridge.Factory.Limit

namespace SpeechBridge.Factory

open Function Foundation Foundation.Machine Session

namespace Pool

def uri (p : Pool) (s : RecoPtr) : String := (p.factory.recognitionSessions s).uri

/-- The sessions of a uri that are pending, connecting or checked out: a caller that finds
none available can still get one of these. -/
def serving (p : Pool) (uri : String) : Finset RecoPtr :=
  p.live.filter fun s ↦ p.uri s = uri ∧ (s ∈ p.factory.pendingSessions ∨ s ∉ p.ready ∨
    (p.factory.recognitionSessions s).checkedOut = true)

def coming (p : Pool) (uri : String) : Finset RecoPtr :=
  p.live.filter fun s ↦ p.uri s = uri ∧ (s ∈ p.factory.pendingSessions ∨ s ∉ p.ready ∨
    s ∈ p.factory.availableSessionsByUri uri)

def blocked (p : Pool) (uri : String) : Set ThreadId :=
  {thread | ∃ w, p.waiters thread = some w ∧ w.uri = uri}

variable {p p' : Pool} {l : PoolStep} {a : Lease.Pool RecoPtr SessionPtr} {s : RecoPtr}

theorem Invariant.mem_serving (h : p.Invariant a) {uri : String} : s ∈ p.serving uri ↔
    p.uri s = uri ∧ (a.phase s = .requested ∨ a.phase s = .opening ∨ ∃ k, a.phase s = .held k) := by
  have hshow := h.represents s
  have ht := h.tracks s
  simp only [serving, live, Finset.mem_filter, Finset.mem_union, hshow.pending, hshow.sessions,
    hshow.checkedOut]
  cases hp : a.phase s with
  | requested => simp
  | opening => simp [ht.notReady (.inr (.inr hp))]
  | idle => simp [ht.ready (.inl hp)]
  | held k => simp
  | _ => simp

theorem Invariant.mem_coming (h : p.Invariant a) {uri : String} : s ∈ p.coming uri ↔
    p.uri s = uri ∧ (a.phase s = .requested ∨ a.phase s = .opening ∨ a.phase s = .idle) := by
  have hshow := h.represents s
  have ht := h.tracks s
  simp only [coming, live, Finset.mem_filter, Finset.mem_union, hshow.pending, hshow.sessions,
    hshow.available]
  cases hp : a.phase s with
  | requested => simp
  | opening => simp [ht.notReady (.inr (.inr hp))]
  | idle => simp +contextual [ht.ready (.inl hp), Pool.uri]
  | held k => simp [ht.ready (.inr ⟨k, hp⟩)]
  | _ => simp

theorem checkOut_uri (f : MSSpeechSessionFactory) (uri requestId : String) (first s : RecoPtr)
    (k : SessionPtr) : ((f.checkOut uri requestId first k).recognitionSessions s).uri =
      (f.recognitionSessions s).uri := by
  by_cases hs : s = first <;>
    simp [MSSpeechSessionFactory.checkOut, MSSpeechSessionFactory.checkOutFields, hs]

theorem next_uri (hn : p.next l = some p') (hl : ∀ thread uri requestId first,
    l = .getSession thread uri requestId first → p.factory.availableSessionsByUri uri ≠ ∅) :
    p'.uri = p.uri := by
  funext s
  cases next_outcome hn with
  | create _ he => exact absurd he (hl _ _ _ _ rfl)
  | take _ _ | wakeUp _ _ => exact checkOut_uri ..
  | sleep _ _ | connectFailed _ => rfl
  | @putSession _ s' _ _ _ =>
    by_cases hs : s = s' <;> simp [uri, MSSpeechSessionFactory.returnFields, hs]
  | @connect s' _ _ =>
    by_cases hs : s = s'
    · simp [uri, hs, MSSpeechSessionFactory.processPendingSession_object]
    · rw [uri, (MSSpeechSessionFactory.SameAt.processPendingSession hs _).object, uri]
  | clientReady _ _ _ _ | connectionClosed _ _ _ => simp [uri]

theorem createNewSession_uri (thread : ThreadId) (uri requestId : String) (first : RecoPtr) :
    (p.afterGet thread uri requestId first (p.factory.createNewSession p.created uri) none).uri =
      update p.uri p.created uri := by
  funext s
  by_cases hs : s = p.created <;>
    simp [Pool.uri, afterGet, MSSpeechSessionFactory.createNewSession, hs]

theorem notifyAll_eq_some {thread : ThreadId} {w : Waiter} : p.notifyAll thread = some w ↔
    ∃ w', p.waiters thread = some w' ∧ w = { w' with notified := true } := by
  simp [notifyAll, eq_comm]

/-- Nobody sleeps beside an available session of its uri without having been notified. -/
def NoneMissed (p : Pool) : Prop := ∀ thread w, p.waiters thread = some w →
  w.notified = false → p.factory.availableSessionsByUri w.uri = ∅

theorem NoneMissed.checkOut (h : p.NoneMissed) (thread : ThreadId) (uri requestId : String)
    (first : RecoPtr) : (p.afterGet thread uri requestId first
      (p.factory.checkOut uri requestId first p.issued) (some p.issued)).NoneMissed := by
  intro t w hw hn
  by_cases ht : t = thread
  · simp [afterGet, ht] at hw
  · have he := h t w (by simpa [afterGet, ht] using hw) hn
    ext s
    simp [afterGet, MSSpeechSessionFactory.checkOut, MSSpeechSessionFactory.checkOutFields, he]

theorem NoneMissed.sleep (h : p.NoneMissed) (thread : ThreadId) {uri : String}
    (requestId : String) (first : RecoPtr) {f : MSSpeechSessionFactory}
    (hf : f.availableSessionsByUri = p.factory.availableSessionsByUri)
    (he : p.factory.availableSessionsByUri uri = ∅) :
    (p.afterGet thread uri requestId first f none).NoneMissed := by
  intro t w hw hn
  simp only [afterGet, hf] at hw ⊢
  by_cases ht : t = thread
  · have hw' : ⟨uri, requestId, false⟩ = w := by simpa [ht] using hw
    exact hw' ▸ he
  · exact h t w (by simpa [ht] using hw) hn

theorem NoneMissed.next (h : p.NoneMissed) (hn : p.next l = some p') : p'.NoneMissed := by
  cases next_outcome hn with
  | create _ he => exact h.sleep _ _ _ rfl he
  | sleep _ he => exact h.sleep _ _ _ rfl he
  | take _ _ | wakeUp _ _ => exact h.checkOut _ _ _ _
  | putSession _ _ _ | clientReady _ _ _ _ =>
    intro t w hw hnot
    obtain ⟨w', -, rfl⟩ := notifyAll_eq_some.mp hw
    simp at hnot
  | connectFailed _ => exact h
  | connect _ =>
    intro t w hw hnot
    simpa using h t w hw hnot
  | connectionClosed _ _ _ =>
    intro t w hw hnot
    have he := h t w hw hnot
    ext s
    simp [he]

theorem reachable_noneMissed (h : system.Reachable p) : p.NoneMissed := by
  have hinv : system.Invariant NoneMissed := by
    refine ⟨?_, fun p l p' hp hn ↦ hp.next hn⟩
    intro p hp
    obtain ⟨maxSessions, rfl⟩ := hp
    exact fun t w hw ↦ by simp [create] at hw
  exact hinv.reachable h

end Pool

end SpeechBridge.Factory
