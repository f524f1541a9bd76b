import SpeechBridge.Factory.Keys

namespace SpeechBridge.Factory

open Function Foundation Foundation.Machine Session

namespace Pool

def connections (p : Pool) (uri : String) : Finset RecoPtr :=
  p.live.filter fun s ↦ p.uri s = uri

def creates (uri : String) : Pool × PoolStep → Bool
  | (p, .getSession _ uri' _ _) => uri' = uri ∧ p.factory.availableSessionsByUri uri = ∅
  | _ => false

def loses (uri : String) : Pool × PoolStep → Bool
  | (p, .connectionClosed s) => p.uri s = uri
  | _ => false

def Connecting (p : Pool) (s : RecoPtr) : Prop :=
  s ∈ p.factory.pendingSessions ∨ s ∉ p.ready

/-- A request that finds no session available for its uri is the only one under way for it. -/
def Alone (p : Pool) : PoolStep → Prop
  | .getSession _ uri _ _ => p.factory.availableSessionsByUri uri = ∅ →
      p.blocked uri = ∅ ∧ ∀ k s, p.outstanding k = some s → p.uri s ≠ uri
  | _ => True

variable {p p' : Pool} {l : PoolStep} {a : Lease.Pool RecoPtr SessionPtr} {s : RecoPtr}
  {uri : String}

theorem creates_eq_true : creates uri (p, l) = true ↔ ∃ thread requestId first,
    l = .getSession thread uri requestId first ∧ p.factory.availableSessionsByUri uri = ∅ := by
  cases l with
  | getSession thread uri' requestId first =>
    simp only [creates, Bool.decide_and, Bool.and_eq_true, decide_eq_true_eq,
      PoolStep.getSession.injEq]
    constructor
    · rintro ⟨rfl, he⟩
      exact ⟨thread, requestId, first, ⟨rfl, rfl, rfl, rfl⟩, he⟩
    · rintro ⟨_, _, _, ⟨-, rfl, -, -⟩, he⟩
      exact ⟨rfl, he⟩
  | _ => simp [creates]

theorem mem_connections : s ∈ p.connections uri ↔ s ∈ p.live ∧ p.uri s = uri := by
  simp [connections]

theorem Invariant.mem_live (h : p.Invariant a) :
    s ∈ p.live ↔ a.phase s = .requested ∨ (a.phase s).IsOpen := by
  rw [live, Finset.mem_union, (h.represents s).pending, (h.represents s).sessions]

theorem Invariant.live_cases (h : p.Invariant a) (hs : s ∈ p.live) : p.Connecting s ∨
    s ∈ p.factory.availableSessionsByUri (p.uri s) ∨ ∃ k, p.outstanding k = some s := by
  have ht := h.tracks s
  rw [h.mem_live] at hs
  cases hp : a.phase s with
  | requested => exact .inl (.inl ((h.represents s).pending.mpr hp))
  | opening => exact .inl (.inr (ht.notReady (.inr (.inr hp))))
  | idle => exact .inr (.inl (((h.represents s).available _).mpr ⟨hp, rfl⟩))
  | held k => exact .inr (.inr ⟨k, (ht.outstanding k).mpr (by simp [hp])⟩)
  | absent => simp [hp] at hs
  | lost holder => simp [hp] at hs

theorem Invariant.available_not_connecting (h : p.Invariant a)
    (hs : s ∈ p.factory.availableSessionsByUri uri) : ¬ p.Connecting s := by
  have hidle := (((h.represents s).available uri).mp hs).1
  rintro (hpending | hready)
  · rw [(h.represents s).pending, hidle] at hpending
    cases hpending
  · exact hready ((h.tracks s).ready (.inl hidle))

theorem next_live_eq (hn : p.next l = some p') (hcreate : ∀ uri, creates uri (p, l) = false)
    (hclose : ∀ s, l ≠ .connectionClosed s) : p'.live = p.live := by
  cases next_outcome hn with
  | @create _ uri _ _ _ he => simpa [creates, he] using hcreate uri
  | take _ _ | sleep _ _ | wakeUp _ _ | connectFailed _ | clientReady _ _ _ _ => rfl
  | putSession _ _ _ => simp [live, MSSpeechSessionFactory.returnFields]
  | connect hs => exact connect_live hs
  | connectionClosed _ _ _ => exact absurd rfl (hclose _)

theorem uri_of_not_creates (hn : p.next l = some p')
    (hcreate : ∀ uri, creates uri (p, l) = false) : p'.uri = p.uri := by
  refine next_uri hn ?_
  rintro thread uri requestId first rfl he
  simpa [creates, he] using hcreate uri

theorem Connecting.of_next (hn : p.next l = some p') (hcreate : ∀ uri, creates uri (p, l) = false)
    (hs : p'.Connecting s) : p.Connecting s := by
  cases next_outcome hn with
  | @create _ uri _ _ _ he => simpa [creates, he] using hcreate uri
  | take _ _ | sleep _ _ | wakeUp _ _ | connectFailed _ => exact hs
  | putSession _ _ _ => simpa [Connecting, MSSpeechSessionFactory.returnFields] using hs
  | connectionClosed _ _ _ => simpa [Connecting] using hs
  | @connect s' connection hs' =>
    refine hs.imp_left fun hpending ↦ ?_
    simp only [MSSpeechSessionFactory.processPendingSession,
      MSSpeechSessionFactory.commitPending] at hpending
    split at hpending
    · exact Finset.mem_of_mem_erase hpending
    · exact hpending
  | clientReady _ _ _ _ => exact hs.imp id fun hready hr ↦ hready (Finset.mem_insert_of_mem hr)

theorem blocked_next (hn : p.next l = some p') (h : (p.blocked uri).Nonempty) :
    (p'.blocked uri).Nonempty ∨
      ∃ thread first, l = .wake thread first ∧ first ∈ p.factory.availableSessionsByUri uri := by
  obtain ⟨thread, w, hw, rfl⟩ := h
  have hkept (h : (p'.waiters thread).map (·.uri) = some w.uri) : (p'.blocked w.uri).Nonempty := by
    obtain ⟨w', hw', hu⟩ := Option.map_eq_some_iff.mp h
    exact ⟨thread, w', hw', hu⟩
  by_cases hget : ∃ uri requestId first, l = .getSession thread uri requestId first
  · obtain ⟨uri, requestId, first, rfl⟩ := hget
    cases next_outcome hn with
    | create hnone _ | take hnone _ => simp [hnone] at hw
  by_cases hwake : ∃ first, l = .wake thread first
  · obtain ⟨first, rfl⟩ := hwake
    obtain ⟨w', hw', hgets⟩ := wake_getsFor hn
    obtain rfl : w = w' := by simpa [hw] using hw'
    rcases hgets with hkeeps | ⟨-, hfirst⟩
    · exact .inl (hkept hkeeps)
    · exact .inr ⟨thread, first, rfl, hfirst⟩
  · refine .inl (hkept ?_)
    rw [next_waiters hn (fun uri requestId first he ↦ hget ⟨uri, requestId, first, he⟩)
      (fun first he ↦ hwake ⟨first, he⟩), hw]
    rfl

theorem connections_create (ha : p.Invariant a) {thread : ThreadId} {uri' requestId : String}
    {first : RecoPtr} (he : p.factory.availableSessionsByUri uri' = ∅)
    (hn : p.next (.getSession thread uri' requestId first) = some p') (uri : String) :
    p'.connections uri =
        (if uri' = uri then insert p.created (p.connections uri) else p.connections uri) ∧
      (p.blocked uri ⊆ p'.blocked uri) ∧ (p'.blocked uri').Nonempty ∧
      ∀ s, s ≠ p.created → p'.Connecting s → p.Connecting s := by
  have hfresh := ha.created_not_live
  cases next_outcome hn with
  | take _ hfirst => simp [he] at hfirst
  | create hnone _ =>
    refine ⟨?_, ?_, ⟨thread, ⟨uri', requestId, false⟩, by simp [afterGet], rfl⟩, ?_⟩
    · ext s
      have hlive : s ∈ (p.afterGet thread uri' requestId first
          (p.factory.createNewSession p.created uri') none).live ↔ s = p.created ∨ s ∈ p.live := by
        simp [live, afterGet, MSSpeechSessionFactory.createNewSession]
      rw [mem_connections, hlive, createNewSession_uri]
      by_cases hs : s = p.created
      · subst hs
        split
        · next hu => simp [hu]
        · next hu => simp [mem_connections, hu, hfresh]
      · split <;> simp [mem_connections, hs]
    · intro t ht
      obtain ⟨w, hw, hu⟩ := ht
      have hne : t ≠ thread := by
        rintro rfl
        simp [hnone] at hw
      exact ⟨w, by simpa [afterGet, hne] using hw, hu⟩
    · intro s hs hconnecting
      simpa [Connecting, afterGet, MSSpeechSessionFactory.createNewSession, hs] using hconnecting

theorem connections_close (ha : p.Invariant a)
    (hn : p.next (.connectionClosed s) = some p') (uri : String) :
    p'.connections uri = (p.connections uri).erase s ∧ s ∈ p.live := by
  have huri := uri_of_not_creates hn fun uri ↦ rfl
  cases next_outcome hn with
  | connectionClosed _ _ hs =>
    have hpending : s ∉ p.factory.pendingSessions := by
      rw [(ha.represents s).pending]
      intro he
      have hopen := (ha.represents s).sessions.mp hs
      simp [he] at hopen
    refine ⟨?_, Finset.mem_union_right _ hs⟩
    ext s'
    rw [mem_connections, huri, Finset.mem_erase, mem_connections]
    by_cases he : s' = s
    · subst he
      simp [live, hpending]
    · simp [live, he]

theorem connections_step (ha : p.Invariant a) (hn : p.next l = some p') (uri : String) :
    (p'.connections uri).card + (if loses uri (p, l) then 1 else 0) =
      (p.connections uri).card + if creates uri (p, l) then 1 else 0 := by
  by_cases hcreate : ∀ uri, creates uri (p, l) = false
  · by_cases hclose : ∀ s, l ≠ .connectionClosed s
    · have hlose : loses uri (p, l) = false := by
        cases l with
        | connectionClosed s => exact absurd rfl (hclose s)
        | _ => rfl
      rw [connections, next_live_eq hn hcreate hclose, uri_of_not_creates hn hcreate, ← connections,
        hlose, hcreate]
    · push Not at hclose
      obtain ⟨s, rfl⟩ := hclose
      obtain ⟨hconn, hlive⟩ := connections_close ha hn uri
      by_cases hu : p.uri s = uri
      · have hmem : s ∈ p.connections uri := mem_connections.mpr ⟨hlive, hu⟩
        have hpos := Finset.card_pos.mpr ⟨s, hmem⟩
        rw [hconn, Finset.card_erase_of_mem hmem]
        simp only [loses, creates, hu, decide_true, if_true, Bool.false_eq_true, if_false]
        omega
      · have hmem : s ∉ p.connections uri := fun hm ↦ hu (mem_connections.mp hm).2
        rw [hconn, Finset.erase_eq_of_notMem hmem]
        simp [loses, creates, hu]
  · push Not at hcreate
    obtain ⟨uri', hcreate⟩ := hcreate
    obtain ⟨thread, requestId, first, rfl, he⟩ := creates_eq_true.mp (by simpa using hcreate)
    rw [(connections_create ha he hn uri).1]
    by_cases hu : uri' = uri
    · subst hu
      have hmem : p.created ∉ p.connections uri' :=
        fun hm ↦ ha.created_not_live (mem_connections.mp hm).1
      simp [loses, creates, he, Finset.card_insert_of_notMem hmem]
    · simp [loses, creates, hu]

theorem connections_balance {tr : List (Pool × PoolStep)} (h : system.Execution tr p)
    (uri : String) :
    tr.countP (creates uri) = (p.connections uri).card + tr.countP (loses uri) := by
  refine h.balance (fun p ↦ (p.connections uri).card) ?_ ?_
  · intro p hp
    obtain ⟨maxSessions, rfl⟩ := hp
    rfl
  · intro p l p' hp hn
    obtain ⟨a, ha⟩ := reachable_invariant hp
    exact connections_step ha hn uri

/-- There is at most one session of a uri that is pending or open, and while it connects there
is a caller to get it. -/
def Single (p : Pool) (uri : String) : Prop :=
  (p.connections uri).card ≤ 1 ∧
    ∀ s ∈ p.connections uri, p.Connecting s → (p.blocked uri).Nonempty

theorem Single.next (h : p.Single uri) (ha : p.Invariant a) (hn : p.next l = some p')
    (hcreate : ∀ uri, creates uri (p, l) = false) : p'.Single uri := by
  have hsub : p'.connections uri ⊆ p.connections uri := by
    intro s hs
    rw [mem_connections, uri_of_not_creates hn hcreate] at hs
    refine mem_connections.mpr ⟨?_, hs.2⟩
    rcases next_live hn with hlive | ⟨thread, uri', requestId, first, rfl, he, -⟩
    · exact hlive hs.1
    · simpa [creates, he] using hcreate uri'
  refine ⟨(Finset.card_le_card hsub).trans h.1, ?_⟩
  intro s hs hconnecting
  have hbefore := hconnecting.of_next hn hcreate
  rcases blocked_next hn (h.2 s (hsub hs) hbefore) with hb | ⟨thread, first, rfl, hfirst⟩
  · exact hb
  · obtain ⟨hidle, huri⟩ := ((ha.represents first).available uri).mp hfirst
    have hmem : first ∈ p.connections uri :=
      mem_connections.mpr ⟨ha.mem_live.mpr (.inr (by simp [hidle])), huri⟩
    obtain rfl := Finset.card_le_one.mp h.1 s (hsub hs) first hmem
    exact absurd hbefore (ha.available_not_connecting hfirst)

theorem Single.connections_eq_empty (h : p.Single uri) (ha : p.Invariant a)
    (he : p.factory.availableSessionsByUri uri = ∅) (hb : p.blocked uri = ∅)
    (ho : ∀ k s, p.outstanding k = some s → p.uri s ≠ uri) : p.connections uri = ∅ := by
  rw [Finset.eq_empty_iff_forall_notMem]
  intro s hs
  obtain ⟨hlive, huri⟩ := mem_connections.mp hs
  rcases ha.live_cases hlive with hconnecting | havailable | ⟨k, hk⟩
  · have hne := h.2 s hs hconnecting
    simp [hb] at hne
  · simp [huri, he] at havailable
  · exact ho k s hk huri

theorem Single.create (h : p.Single uri) (ha : p.Invariant a) {thread : ThreadId}
    {uri' requestId : String} {first : RecoPtr}
    (he : p.factory.availableSessionsByUri uri' = ∅)
    (halone : p.Alone (.getSession thread uri' requestId first))
    (hn : p.next (.getSession thread uri' requestId first) = some p') : p'.Single uri := by
  obtain ⟨hconn, hblocked, hcaller, hconnecting⟩ := connections_create ha he hn uri
  obtain ⟨hb, ho⟩ := halone he
  by_cases hu : uri' = uri
  · subst hu
    have hempty := h.connections_eq_empty ha he hb ho
    rw [if_pos rfl, hempty] at hconn
    exact ⟨by simp [hconn], fun _ _ _ ↦ hcaller⟩
  · rw [if_neg hu] at hconn
    rw [Single, hconn]
    refine ⟨h.1, fun s hs hc ↦ (h.2 s hs (hconnecting s ?_ hc)).mono hblocked⟩
    rintro rfl
    exact ha.created_not_live (mem_connections.mp hs).1

theorem create_single (maxSessions : ℤ) (uri : String) : (create maxSessions).Single uri := by
  simp [Single, connections, live, create, MSSpeechSessionFactory.create]

theorem Single.step (h : p.Single uri) (ha : p.Invariant a) (hn : p.next l = some p')
    (halone : p.Alone l) : p'.Single uri := by
  by_cases hcreate : ∀ uri, creates uri (p, l) = false
  · exact h.next ha hn hcreate
  · push Not at hcreate
    obtain ⟨uri', hcreate⟩ := hcreate
    obtain ⟨thread, requestId, first, rfl, he⟩ := creates_eq_true.mp (by simpa using hcreate)
    exact h.create ha he halone hn

theorem Invariant.idle_or_held (ha : p.Invariant a) (hready : s ∈ p.ready)
    (hclosed : s ∉ p.closed) : a.phase s = .idle ∨ ∃ k, a.phase s = .held k := by
  have ht := ha.tracks s
  cases hp : a.phase s with
  | idle => exact .inl rfl
  | held k => exact .inr ⟨k, rfl⟩
  | lost holder => exact absurd (ht.closed.mpr ⟨holder, hp⟩) hclosed
  | _ => exact absurd hready (ht.notReady (by simp [hp]))

theorem Invariant.live_of_ready (ha : p.Invariant a) (hready : s ∈ p.ready)
    (hclosed : s ∉ p.closed) : s ∈ p.live := by
  rw [ha.mem_live]
  rcases ha.idle_or_held hready hclosed with hp | ⟨k, hp⟩ <;> simp [hp]

theorem Invariant.next_ready (ha : p.Invariant a) (hready : s ∈ p.ready) (hclosed : s ∉ p.closed)
    (ho : ∀ k, p.outstanding k ≠ some s) {thread : ThreadId} (hw : p.waiters thread = none)
    (requestId : String) : p.next (.getSession thread (p.uri s) requestId s) =
      some (p.afterGet thread (p.uri s) requestId s
        (p.factory.checkOut (p.uri s) requestId s p.issued) (some p.issued)) := by
  have hidle : a.phase s = .idle := by
    rcases ha.idle_or_held hready hclosed with hp | ⟨k, hp⟩
    · exact hp
    · exact absurd (((ha.tracks s).outstanding k).mpr (by simp [hp])) (ho k)
  have havailable := ((ha.represents s).available (p.uri s)).mpr ⟨hidle, rfl⟩
  exact (Outcome.take hw havailable).next

/-- When every request that finds no session is alone, a uri never has more than one
connection, another one is only ever created for one that was lost, and the connection is
given to the next request once it is ready. -/
theorem connection_reused {tr : List (Pool × PoolStep)} (h : system.Execution tr p)
    (hC : ∀ e ∈ tr, e.1.Alone e.2) (uri : String) :
    (p.connections uri).card ≤ 1 ∧ tr.countP (creates uri) ≤ tr.countP (loses uri) + 1 ∧
      ∀ thread requestId s, p.waiters thread = none → s ∈ p.connections uri → s ∈ p.ready →
        (∀ k, p.outstanding k ≠ some s) → p.next (.getSession thread uri requestId s) =
          some (p.afterGet thread uri requestId s
            (p.factory.checkOut uri requestId s p.issued) (some p.issued)) := by
  have hsingle : (∃ a, p.Invariant a) ∧ p.Single uri := by
    refine (h.preserved (I := fun p ↦ (∃ a, p.Invariant a) ∧ p.Single uri) ?_ ?_ hC).2
    · intro p hp
      obtain ⟨maxSessions, rfl⟩ := hp
      exact ⟨⟨_, create_invariant maxSessions⟩, create_single maxSessions uri⟩
    · intro p l p' hp hc hn
      obtain ⟨⟨a, ha⟩, hs⟩ := hp
      exact ⟨(ha.next hn).imp fun _ hb ↦ hb.1, hs.step ha hn hc⟩
  obtain ⟨⟨a, ha⟩, hcard, -⟩ := hsingle
  have hbalance := connections_balance h uri
  refine ⟨hcard, by omega, ?_⟩
  intro thread requestId s hw hs hready ho
  obtain ⟨hlive, rfl⟩ := mem_connections.mp hs
  refine ha.next_ready hready ?_ ho hw requestId
  rw [(ha.tracks s).closed]
  rintro ⟨holder, hp⟩
  rw [ha.mem_live, hp] at hlive
  simp at hlive

theorem connection_reused_run :
    let steps : List PoolStep := [.getSession 0 "wss" "a" 0, .processPendingSession 0 (some 7),
      .clientReady 0, .wake 0 0, .putSession 1, .getSession 1 "wss" "b" 0]
    ∃ p, system.run (create 0) steps = some p ∧ (p.connections "wss").card ≤ 1 ∧
      (system.trace (create 0) steps).countP (creates "wss") ≤
        (system.trace (create 0) steps).countP (loses "wss") + 1 := by
  intro steps
  have hi : system.init (create 0) := ⟨0, rfl⟩
  obtain ⟨p, hp⟩ : ∃ p, system.run (create 0) steps = some p :=
    Option.isSome_iff_exists.mp (by decide)
  have hfound : ∀ e ∈ (system.trace (create 0) steps).tail, (match e.2 with
      | .getSession _ uri _ _ => decide (e.1.factory.availableSessionsByUri uri ≠ ∅)
      | _ => true) = true := by decide
  have hC : ∀ e ∈ system.trace (create 0) steps, e.1.Alone e.2 := by
    refine List.forall_mem_cons.mpr ⟨fun _ ↦ ?_, fun e he ↦ ?_⟩
    · exact ⟨by simp [blocked, create], by simp [create]⟩
    · have hcheck := hfound e he
      obtain ⟨p, l⟩ := e
      cases l with
      | getSession thread uri requestId first =>
        exact fun hempty ↦ absurd hempty (of_decide_eq_true hcheck)
      | _ => exact trivial
  have hreused := connection_reused (.of_run hi hp) hC "wss"
  exact ⟨p, hp, hreused.1, hreused.2.1⟩

end Pool

end SpeechBridge.Factory
