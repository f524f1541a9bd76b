import SpeechBridge.Service.Bridge

namespace SpeechBridge.Service

open Function Foundation Foundation.Machine Audio Session Factory

def RequestPc.stream : RequestPc → Option SessionPtr
  | .locking k | .sending k | .completing k | .returning k => some k
  | _ => none

theorem RequestPc.session_of_stream {pc : RequestPc} {k : SessionPtr}
    (h : pc.stream = some k) : pc.session = some k := by
  cases pc <;> simp_all [RequestPc.stream, RequestPc.session]

namespace Bridge

def Live (s : Bridge) (q : ThreadId) (connection : Connection) : Prop :=
  s.turns q = .streaming connection ∨ ∃ m, (q, m) ∈ s.inbox connection

def Awaits (pc : RequestPc) (k : SessionPtr) (session : MSSpeechSession) : Prop :=
  pc = .locking k ∨ (pc = .sending k ∨ pc = .completing k) ∧ session.completionLock = true

/-- A message on its way is for the checkout that is current on its connection. -/
structure Invariant (s : Bridge) : Prop where
  pool : ∃ a, s.pool.Invariant a
  session : ∀ q k, (s.requests q).session = some k →
    s.checkout q = some k ∧ ∃ r, s.pool.outstanding k = some r
  unassigned : ∀ q, s.requests q = .idle ∨ s.requests q = .getting → s.checkout q = none
  checkout : ∀ q k, s.checkout q = some k → k < s.pool.issued
  distinct : ∀ q q' k, s.checkout q = some k → s.checkout q' = some k → q = q'
  userData : ∀ r c, (s.pool.factory.recognitionSessions r).connection = some c →
    s.userData c = some r
  connection : ∀ k r c, s.pool.outstanding k = some r → (s.sessions k).connection = some c →
    s.userData c = some r
  handler : ∀ q k, (s.requests q).stream = some k → (s.sessions k).sessionHandler = some q
  live : ∀ q c, s.Live q c → ∃ k, Awaits (s.requests q) k (s.sessions k) ∧
    (s.sessions k).connection = some c
  order : ∀ c, (s.inbox c).Pairwise fun x y ↦ x.1 = y.1 → x.2 ≠ .turnEnd
  ended : ∀ q c c', (q, .turnEnd) ∈ s.inbox c → s.turns q ≠ .streaming c'
  isolated : s.Isolated

theorem Awaits.session {pc : RequestPc} {k : SessionPtr} {session : MSSpeechSession}
    (h : Awaits pc k session) : pc.session = some k := by
  rcases h with rfl | ⟨rfl | rfl, -⟩ <;> rfl

theorem Awaits.stream {pc : RequestPc} {k : SessionPtr} {session : MSSpeechSession}
    (h : Awaits pc k session) : pc.stream = some k := by
  rcases h with rfl | ⟨rfl | rfl, -⟩ <;> rfl

variable {s : Bridge} {q : ThreadId} {k : SessionPtr}

theorem Invariant.not_live (h : s.Invariant)
    (hq : ∀ k, ¬ Awaits (s.requests q) k (s.sessions k)) (c : Connection) : ¬ s.Live q c := by
  intro hl
  obtain ⟨k, hk, -⟩ := h.live q c hl
  exact hq k hk

theorem Invariant.session_ne (h : s.Invariant) (hq : s.checkout q = some k) {q' : ThreadId}
    {k' : SessionPtr} (hne : q' ≠ q) (hq' : (s.requests q').session = some k') : k' ≠ k := by
  intro he
  subst he
  exact hne (h.distinct q' q k' (h.session q' k' hq').1 hq)

theorem Invariant.completionLock (h : s.Invariant) {c : Connection}
    (hq : s.requests q = .sending k ∨ s.requests q = .completing k) (hl : s.Live q c) :
    (s.sessions k).completionLock = true := by
  obtain ⟨k', haw, -⟩ := h.live q c hl
  rcases haw with hlocking | ⟨hpc, hlock⟩
  · rcases hq with hq | hq <;> simp [hq] at hlocking
  · have he : k' = k := by
      rcases hq with hq | hq <;> simp only [hq, reduceCtorEq, or_false, false_or,
        RequestPc.sending.injEq, RequestPc.completing.injEq] at hpc <;> exact hpc.symm
    exact he ▸ hlock

theorem Invariant.withPool (h : s.Invariant) {pool : Pool} (hpool : ∃ a, pool.Invariant a)
    (hout : pool.outstanding = s.pool.outstanding) (hissued : s.pool.issued ≤ pool.issued)
    (hconn : ∀ r c, (pool.factory.recognitionSessions r).connection = some c →
      (s.pool.factory.recognitionSessions r).connection = some c) :
    Invariant { s with pool := pool } :=
  { h with
    pool := hpool
    session := fun q k hk ↦ hout ▸ h.session q k hk
    checkout := fun q k hk ↦ (h.checkout q k hk).trans_le hissued
    userData := fun r c hc ↦ h.userData r c (hconn r c hc)
    connection := fun k r c hk ↦ h.connection k r c (hout ▸ hk) }

theorem Invariant.setPc (h : s.Invariant) {pc : RequestPc} (hpc : pc.session = none)
    (hq : ∀ k, ¬ Awaits (s.requests q) k (s.sessions k)) (hnone : s.checkout q = none) :
    Invariant { s with requests := update s.requests q pc } := by
  refine { h with session := ?_, unassigned := ?_, handler := ?_, live := ?_ }
  · intro q' k hk
    by_cases hne : q' = q
    · simp [hne, hpc] at hk
    · exact h.session q' k (by simpa [hne] using hk)
  · intro q' hidle
    by_cases hne : q' = q
    · exact hne ▸ hnone
    · exact h.unassigned q' (by simpa [hne] using hidle)
  · intro q' k hk
    by_cases hne : q' = q
    · have hsession := RequestPc.session_of_stream hk
      simp [hne, hpc] at hsession
    · exact h.handler q' k (by simpa [hne] using hk)
  · intro q' c hl
    obtain ⟨k, hk, hc⟩ := h.live q' c hl
    have hne : q' ≠ q := by
      intro he
      subst he
      exact hq k hk
    exact ⟨k, by simpa [hne] using hk, hc⟩

theorem Invariant.advance (h : s.Invariant) {session : MSSpeechSession} {pc : RequestPc}
    (hk : (s.requests q).session = some k) (hpc : pc.session = some k)
    (hconn : session.connection = (s.sessions k).connection)
    (hhandler : pc.stream = some k → session.sessionHandler = some q)
    (hlive : ∀ c, s.Live q c → Awaits pc k session) :
    (s.advance q k session pc).Invariant := by
  have hother {q' : ThreadId} {k' : SessionPtr} (hne : q' ≠ q)
      (hq' : (s.requests q').session = some k') : k' ≠ k :=
    h.session_ne (h.session q k hk).1 hne hq'
  refine { h with session := ?_, unassigned := ?_, connection := ?_, handler := ?_, live := ?_ }
  · intro q' k' hk'
    by_cases hne : q' = q
    · obtain rfl := hne
      obtain rfl : k = k' := by simpa [Bridge.advance, hpc] using hk'
      exact h.session q' k hk
    · exact h.session q' k' (by simpa [Bridge.advance, hne] using hk')
  · intro q' hidle
    by_cases hne : q' = q
    · exfalso
      rw [hne] at hidle
      simp only [Bridge.advance, update_self] at hidle
      rcases hidle with he | he <;> simp [he, RequestPc.session] at hpc
    · exact h.unassigned q' (by simpa [Bridge.advance, hne] using hidle)
  · intro k' r c ho hc
    apply h.connection k' r c ho
    by_cases hne : k' = k
    · simpa [Bridge.advance, hne, hconn] using hc
    · simpa [Bridge.advance, hne] using hc
  · intro q' k' hk'
    by_cases hne : q' = q
    · have hstream : pc.stream = some k' := by simpa [Bridge.advance, hne] using hk'
      have he : k' = k := by simpa [hpc] using (RequestPc.session_of_stream hstream).symm
      simp [Bridge.advance, he, hne, hhandler (he ▸ hstream)]
    · have hold : (s.requests q').stream = some k' := by simpa [Bridge.advance, hne] using hk'
      have hk' : k' ≠ k := hother hne (RequestPc.session_of_stream hold)
      simpa [Bridge.advance, hk'] using h.handler q' k' hold
  · intro q' c hl
    obtain ⟨k', haw, hc⟩ := h.live q' c hl
    by_cases hne : q' = q
    · have he : k' = k := by simpa [hne, hk] using haw.session.symm
      refine ⟨k, ?_, ?_⟩
      · simpa [Bridge.advance, hne] using hlive c (hne ▸ hl)
      · simpa [Bridge.advance, hconn, ← he] using hc
    · have hk' : k' ≠ k := hother hne haw.session
      exact ⟨k', by simpa [Bridge.advance, hne, hk'] using haw,
        by simpa [Bridge.advance, hk'] using hc⟩

theorem Invariant.startStream (h : s.Invariant) {turn : Turn} (hq : s.requests q = .locking k)
    (hnone : ∀ c m, (q, m) ∉ s.inbox c)
    (hturn : ∀ c, turn = .streaming c → (s.sessions k).connection = some c) :
    Invariant { s with turns := update s.turns q turn } := by
  refine { h with live := ?_, ended := ?_ }
  · rintro q' c (hstream | ⟨m, hm⟩)
    · by_cases hne : q' = q
      · have hc := hturn c (by simpa [hne] using hstream)
        exact ⟨k, .inl (hne ▸ hq), hc⟩
      · exact h.live q' c (.inl (by simpa [hne] using hstream))
    · exact h.live q' c (.inr ⟨m, hm⟩)
  · intro q' c c' hm
    have hne : q' ≠ q := by
      intro he
      subst he
      exact hnone c _ hm
    simpa [hne] using h.ended q' c c' hm

theorem Invariant.setObject (h : s.Invariant) {session : MSSpeechSession}
    (hconn : session.connection = (s.sessions k).connection)
    (hhandler : session.sessionHandler = (s.sessions k).sessionHandler)
    (hlock : session.completionLock = (s.sessions k).completionLock) :
    Invariant { s with sessions := update s.sessions k session } := by
  have hsame (k' : SessionPtr) :
      (update s.sessions k session k').connection = (s.sessions k').connection ∧
      (update s.sessions k session k').sessionHandler = (s.sessions k').sessionHandler ∧
      (update s.sessions k session k').completionLock = (s.sessions k').completionLock := by
    by_cases hk : k' = k <;> simp [hk, hconn, hhandler, hlock]
  refine { h with connection := ?_, handler := ?_, live := ?_ }
  · intro k' r c ho hc
    exact h.connection k' r c ho ((hsame k').1 ▸ hc)
  · intro q k' hk
    exact (hsame k').2.1.trans (h.handler q k' hk)
  · intro q c hl
    obtain ⟨k', haw, hc⟩ := h.live q c hl
    refine ⟨k', ?_, (hsame k').1.trans hc⟩
    rw [Awaits, (hsame k').2.2]
    exact haw

theorem Invariant.emit (h : s.Invariant) {c : Connection} (hq : s.turns q = .streaming c)
    (m : Message) : Invariant { s with
      turns := if m = .turnEnd then update s.turns q .ended else s.turns
      inbox := update s.inbox c (s.inbox c ++ [(q, m)]) } := by
  have hturns (q' : ThreadId) (c' : Connection)
      (ht : (if m = .turnEnd then update s.turns q .ended else s.turns) q' = .streaming c') :
      s.turns q' = .streaming c' := by
    by_cases hm : m = .turnEnd <;> by_cases hne : q' = q <;> simp_all
  have hinbox (c' : Connection) (x : ThreadId × Message)
      (hx : x ∈ update s.inbox c (s.inbox c ++ [(q, m)]) c') :
      x ∈ s.inbox c' ∨ c' = c ∧ x = (q, m) := by
    by_cases hc : c' = c
    · subst hc
      simpa using hx
    · exact .inl (by simpa [hc] using hx)
  refine { h with live := ?_, order := ?_, ended := ?_ }
  · rintro q' c' (hstream | ⟨m', hm'⟩)
    · exact h.live q' c' (.inl (hturns q' c' hstream))
    · rcases hinbox c' _ hm' with hold | ⟨rfl, he⟩
      · exact h.live q' c' (.inr ⟨m', hold⟩)
      · cases he
        exact h.live q c' (.inl hq)
  · intro c'
    by_cases hc : c' = c
    · subst hc
      simp only [update_self, List.pairwise_append, h.order, List.pairwise_singleton,
        List.mem_singleton, forall_eq, true_and]
      intro x hx he hend
      have hx' : (q, .turnEnd) ∈ s.inbox c' := by
        rw [← he, ← hend]
        exact hx
      exact h.ended q c' c' hx' hq
    · simpa [hc] using h.order c'
  · intro q' c' c'' hm' ht
    rcases hinbox c' _ hm' with hold | ⟨rfl, he⟩
    · exact h.ended q' c' c'' hold (hturns q' c'' ht)
    · cases he
      simp at ht

theorem Invariant.dispatch (h : s.Invariant) {c : Connection} {r : RecoPtr} {m : Message}
    {rest : List (ThreadId × Message)} {k : SessionPtr} {session : MSSpeechSession}
    {calls : List (HandlerPtr × Message)} (hin : s.inbox c = (q, m) :: rest)
    (hr : s.userData c = some r)
    (hcall : s.pool.factory.msspeechMessage s.sessions r m = .ok (k, session, calls)) :
    Invariant { s with
      sessions := update s.sessions k session
      inbox := update s.inbox c rest
      log := s.log ++ [⟨q, m, k, calls⟩] } := by
  obtain ⟨hk', rfl, hcalls, hhandlers⟩ := MSSpeechSessionFactory.msspeechMessage_cases hcall
  -- The session current on the connection is the one checked out for the message's request.
  obtain ⟨kq, haw, hconn⟩ := h.live q c (.inr ⟨m, by simp [hin]⟩)
  obtain ⟨hcheckout, rq, ho⟩ := h.session q kq haw.session
  obtain rfl : rq = r := Option.some.inj ((h.connection kq rq c ho hconn).symm.trans hr)
  obtain ⟨a, ha⟩ := h.pool
  have hholder := ((ha.tracks rq).outstanding kq).mp ho
  have hsession := (MSSpeechSessionFactory.callbackSession_eq_ok.mp hk').2
  rw [(ha.represents rq).session, hholder, Option.some.injEq] at hsession
  obtain rfl := hsession
  have hhandler : (s.sessions kq).sessionHandler = some q := h.handler q kq haw.stream
  have hcalls' : calls = if m.isRecognition then [(q, m)] else [] := by
    cases hm : m.isRecognition with
    | false => simpa [hm] using hcalls
    | true =>
      simp only [hm, if_true, List.map_eq_singleton_iff] at hcalls
      obtain ⟨⟨handler, m'⟩, rfl, rfl⟩ := hcalls
      have he : handler = q := by simpa [hhandler, eq_comm] using hhandlers (handler, m') (by simp)
      simp [he]
  have hinbox (c' : Connection) (x : ThreadId × Message)
      (hx : x ∈ update s.inbox c rest c') : x ∈ s.inbox c' := by
    by_cases hc : c' = c
    · subst hc
      simpa [hin] using Or.inr (by simpa using hx)
    · simpa [hc] using hx
  refine { h with connection := ?_, handler := ?_, live := ?_, order := ?_, ended := ?_,
                  isolated := ?_ }
  · intro k' r' c' ho' hc'
    apply h.connection k' r' c' ho'
    by_cases hk : k' = kq <;> simpa [hk] using hc'
  · intro q' k' hk'
    have hold := h.handler q' k' hk'
    by_cases hk : k' = kq <;> simpa [hk] using hold
  · intro q' c' hl
    have hold : s.Live q' c' := hl.imp_right fun ⟨m', hm'⟩ ↦ ⟨m', hinbox c' _ hm'⟩
    obtain ⟨k', haw', hc'⟩ := h.live q' c' hold
    by_cases hne : q' = q
    · subst hne
      obtain rfl : k' = kq := Option.some.inj (haw'.session.symm.trans haw.session)
      obtain rfl : c' = c := Option.some.inj (hc'.symm.trans hconn)
      have hm : m ≠ .turnEnd := by
        intro he
        subst he
        rcases hl with hstream | ⟨m', hm'⟩
        · exact h.ended q' c' c' (by simp [hin]) hstream
        · have horder := h.order c'
          rw [hin, List.pairwise_cons] at horder
          exact horder.1 (q', m') (by simpa using hm') rfl rfl
      exact ⟨k', by simpa [Awaits, bne_iff_ne.mpr hm] using haw', by simpa using hc'⟩
    · have hk : k' ≠ kq := h.session_ne hcheckout hne haw'.session
      exact ⟨k', by simpa [hk] using haw', by simpa [hk] using hc'⟩
  · intro c'
    by_cases hc : c' = c
    · subst hc
      have horder := h.order c'
      rw [hin, List.pairwise_cons] at horder
      simpa using horder.2
    · simpa [hc] using h.order c'
  · exact fun q' c' c'' hm' ↦ h.ended q' c' c'' (hinbox c' _ hm')
  · intro d hd
    rcases List.mem_append.mp hd with hd | hd
    · exact h.isolated d hd
    · obtain rfl := List.mem_singleton.mp hd
      exact ⟨hcheckout, hcalls'⟩

theorem Invariant.afterGet (h : s.Invariant) {pool : Pool} {first : RecoPtr}
    (hidle : s.requests q = .idle ∨ s.requests q = .getting)
    (hpool : ∃ a, pool.Invariant a) (hget : s.pool.GetOutcome pool q first)
    (hconn : ∀ r c, (pool.factory.recognitionSessions r).connection = some c →
      (s.pool.factory.recognitionSessions r).connection = some c)
    (requestId : String) (pendingAudio : Bool) :
    (s.afterGet q requestId first pendingAudio pool).Invariant := by
  have hnot (k : SessionPtr) : ¬ Awaits (s.requests q) k (s.sessions k) := by
    intro haw
    rcases hidle with he | he <;> simpa [he, RequestPc.session] using haw.session
  have hnone := h.unassigned q hidle
  rw [Bridge.afterGet]
  cases hget with
  | asleep hw hout hissued =>
    rw [if_pos hw]
    exact (h.withPool hpool hout hissued hconn).setPc rfl hnot hnone
  | returned hw hout hissued =>
    rw [if_neg (by simp [hw])]
    have hfresh {q' : ThreadId} {k' : SessionPtr} (hk' : s.checkout q' = some k') :
        k' ≠ s.pool.issued := (h.checkout q' k' hk').ne
    refine { h with pool := hpool, session := ?_, unassigned := ?_, checkout := ?_, distinct := ?_,
                    userData := ?_, connection := ?_, handler := ?_, live := ?_, isolated := ?_ }
    · intro q' k' hk'
      by_cases hne : q' = q
      · obtain rfl : s.pool.issued = k' := by simpa [hne, RequestPc.session] using hk'
        simp [hne, hout]
      · obtain ⟨hc, ho⟩ := h.session q' k' (by simpa [hne] using hk')
        simpa [hne, hout, hfresh hc] using ⟨hc, ho⟩
    · intro q' hidle'
      by_cases hne : q' = q
      · simp [hne] at hidle'
      · simpa [hne] using h.unassigned q' (by simpa [hne] using hidle')
    · intro q' k' hk'
      by_cases hne : q' = q
      · obtain rfl : s.pool.issued = k' := by simpa [hne] using hk'
        simp [hissued]
      · have hlt := h.checkout q' k' (by simpa [hne] using hk')
        exact hlt.trans (hissued ▸ Nat.lt_succ_self _)
    · intro q₁ q₂ k' h₁ h₂
      by_cases e₁ : q₁ = q <;> by_cases e₂ : q₂ = q
      · exact e₁.trans e₂.symm
      · obtain rfl : s.pool.issued = k' := by simpa [e₁] using h₁
        exact absurd rfl (hfresh (show s.checkout q₂ = some _ by simpa [e₂] using h₂))
      · obtain rfl : s.pool.issued = k' := by simpa [e₂] using h₂
        exact absurd rfl (hfresh (show s.checkout q₁ = some _ by simpa [e₁] using h₁))
      · exact h.distinct q₁ q₂ k' (by simpa [e₁] using h₁) (by simpa [e₂] using h₂)
    · exact fun r c hc ↦ h.userData r c (hconn r c hc)
    · intro k' r c ho hc
      by_cases hk : k' = s.pool.issued
      · obtain rfl : first = r := by simpa [hout, hk] using ho
        apply h.userData first c
        simpa [hk, MSSpeechSessionFactory.newSession, MSSpeechSession.setRequestId,
          MSSpeechSession.create] using hc
      · exact h.connection k' r c (by simpa [hout, hk] using ho) (by simpa [hk] using hc)
    · intro q' k' hk'
      have hne : q' ≠ q := by
        intro he
        subst he
        simp [RequestPc.stream] at hk'
      have hold : (s.requests q').stream = some k' := by simpa [hne] using hk'
      have hf := hfresh (h.session q' k' (RequestPc.session_of_stream hold)).1
      simpa [hf] using h.handler q' k' hold
    · intro q' c hl
      obtain ⟨k', haw, hc⟩ := h.live q' c hl
      have hne : q' ≠ q := by
        intro he
        subst he
        exact hnot k' haw
      have hf := hfresh (h.session q' k' haw.session).1
      exact ⟨k', by simpa [hne, hf] using haw, by simpa [hf] using hc⟩
    · intro d hd
      obtain ⟨hd₁, hd₂⟩ := h.isolated d hd
      have hne : d.request ≠ q := by
        intro he
        simp [he, hnone] at hd₁
      exact ⟨by simpa [hne] using hd₁, hd₂⟩

theorem Invariant.putSession (h : s.Invariant) {pool : Pool} (hq : s.requests q = .returning k)
    (hput : s.pool.next (.putSession k) = some pool) :
    Invariant { s with
      pool := pool
      requests := update s.requests q .done } := by
  have hnot (k' : SessionPtr) : ¬ Awaits (s.requests q) k' (s.sessions k') := by
    rw [hq]
    simp [Awaits]
  have hcheckout : s.checkout q = some k := (h.session q k (by rw [hq]; rfl)).1
  obtain ⟨a, ha⟩ := h.pool
  have hpool : ∃ a, pool.Invariant a := (ha.next hput).imp fun _ hb ↦ hb.1
  have hconn (r : RecoPtr) (c : Connection)
      (hc : (pool.factory.recognitionSessions r).connection = some c) :
      (s.pool.factory.recognitionSessions r).connection = some c :=
    (Pool.next_connection hput hc).resolve_right (by simp)
  simp only [Pool.next, Option.ite_none_right_eq_some, Option.map_eq_some_iff] at hput
  obtain ⟨-, f, -, rfl⟩ := hput
  refine { h with pool := hpool, session := ?_, unassigned := ?_, userData := ?_,
                  connection := ?_, handler := ?_, live := ?_ }
  · intro q' k' hk'
    have hne : q' ≠ q := by
      intro he
      subst he
      simp [RequestPc.session] at hk'
    have hold : (s.requests q').session = some k' := by simpa [hne] using hk'
    have hk : k' ≠ k := h.session_ne hcheckout hne hold
    simpa [hk] using h.session q' k' hold
  · intro q' hidle
    have hne : q' ≠ q := by
      intro he
      subst he
      simp at hidle
    exact h.unassigned q' (by simpa [hne] using hidle)
  · exact fun r c hc ↦ h.userData r c (hconn r c hc)
  · intro k' r c ho hc
    have hk : k' ≠ k := by
      intro he
      subst he
      simp at ho
    exact h.connection k' r c (by simpa [hk] using ho) hc
  · intro q' k' hk'
    have hne : q' ≠ q := by
      intro he
      subst he
      simp [RequestPc.stream] at hk'
    exact h.handler q' k' (by simpa [hne] using hk')
  · intro q' c hl
    obtain ⟨k', haw, hc⟩ := h.live q' c hl
    have hne : q' ≠ q := by
      intro he
      subst he
      exact hnot k' haw
    exact ⟨k', by simpa [hne] using haw, hc⟩

theorem Invariant.connect (h : s.Invariant) {pool : Pool} {r : RecoPtr} {c : Connection}
    (hc : s.userData c = none)
    (hn : s.pool.next (.processPendingSession r (some c)) = some pool) :
    Invariant { s with
      pool := pool
      userData := update s.userData c (some r) } := by
  obtain ⟨a, ha⟩ := h.pool
  have hpool : ∃ a, pool.Invariant a := (ha.next hn).imp fun _ hb ↦ hb.1
  have hgrow {c' : Connection} {r' : RecoPtr} (hu : s.userData c' = some r') :
      update s.userData c (some r) c' = some r' := by
    have hne : c' ≠ c := by
      intro he
      subst he
      simp [hc] at hu
    simpa [hne] using hu
  have hconn (r' : RecoPtr) (c' : Connection)
      (hc' : (pool.factory.recognitionSessions r').connection = some c') :
      update s.userData c (some r) c' = some r' := by
    rcases Pool.next_connection hn hc' with hold | he
    · exact hgrow (h.userData r' c' hold)
    · cases he
      simp
  simp only [Pool.next, Option.ite_none_right_eq_some, Option.some.injEq] at hn
  obtain ⟨-, rfl⟩ := hn
  exact { h with
    pool := hpool
    userData := hconn
    connection := fun k r' c' ho hc' ↦ hgrow (h.connection k r' c' ho hc') }

theorem Invariant.runLoopStep (h : s.Invariant) {pool : Pool} {l : PoolStep}
    (hn : s.pool.next l = some pool) (hl : l.isRunLoop = true)
    (hconnect : ∀ r c, l ≠ .processPendingSession r (some c)) :
    Invariant { s with pool := pool } := by
  obtain ⟨a, ha⟩ := h.pool
  obtain ⟨hout, hissued⟩ := Pool.next_runLoop hn hl
  exact h.withPool ((ha.next hn).imp fun _ hb ↦ hb.1) hout hissued.ge fun r c hc ↦
    (Pool.next_connection hn hc).resolve_right (hconnect r c)

theorem invariant_step {t : Bridge} {l : BridgeStep} (h : s.Invariant) (hn : s.next l = some t) :
    t.Invariant := by
  obtain ⟨a, ha⟩ := h.pool
  have hpool {l : PoolStep} {pool : Pool} (hn : s.pool.next l = some pool) :
      ∃ a, pool.Invariant a := (ha.next hn).imp fun _ hb ↦ hb.1
  cases next_outcome hn with
  | getSession hidle hget =>
    exact h.afterGet (.inl hidle) (hpool hget) (Pool.next_getSession hget)
      (fun r c hc ↦ (Pool.next_connection hget hc).resolve_right (by simp)) _ _
  | wake hgetting hget =>
    exact h.afterGet (.inr hgetting) (hpool hget) (Pool.next_wake hget)
      (fun r c hc ↦ (Pool.next_connection hget hc).resolve_right (by simp)) _ _
  | @recognizeStream q k hq _ =>
    have hnot : ∀ c, ¬ s.Live q c := h.not_live fun k' ↦ by simp [hq, Awaits]
    have hadvance : (s.advance q k { s.sessions k with
        sessionHandler := some q
        pendingAudio := false
        recognitionStarted := true } (.locking k)).Invariant :=
      h.advance (by rw [hq]; rfl) rfl rfl (fun _ ↦ rfl) (fun c hl ↦ absurd hl (hnot c))
    refine hadvance.startStream (k := k) (by simp [Bridge.advance])
      (fun c m hm ↦ hnot c (.inr ⟨m, hm⟩)) fun c hc ↦ ?_
    cases hconn : (s.sessions k).connection with
    | none => simp [hconn, startedOn] at hc
    | some c' => simpa [Bridge.advance, hconn, startedOn] using hc
  | lock hq _ =>
    exact h.advance (by rw [hq]; rfl) rfl rfl (fun _ ↦ h.handler _ _ (by rw [hq]; rfl))
      (fun c hl ↦ .inr ⟨.inl rfl, rfl⟩)
  | sendAudio hq _ =>
    exact h.advance (by rw [hq]; rfl) rfl rfl (fun _ ↦ h.handler _ _ (by rw [hq]; rfl))
      (fun c hl ↦ .inr ⟨.inl rfl, h.completionLock (.inl hq) hl⟩)
  | endAudio hq =>
    exact h.advance (by rw [hq]; rfl) rfl rfl (fun _ ↦ h.handler _ _ (by rw [hq]; rfl))
      (fun c hl ↦ .inr ⟨.inr rfl, h.completionLock (.inl hq) hl⟩)
  | waitForCompletion hq hfree =>
    refine h.advance (by rw [hq]; rfl) rfl rfl (fun _ ↦ h.handler _ _ (by rw [hq]; rfl))
      (fun c hl ↦ ?_)
    have hlock := h.completionLock (.inr hq) hl
    simp [hfree] at hlock
  | putSession hq hput => exact h.putSession hq hput
  | connectFailed hcall => exact h.runLoopStep hcall rfl (by simp)
  | connect hfresh hcall => exact h.connect hfresh hcall
  | clientReady hcall | connectionClosed hcall => exact h.runLoopStep hcall rfl (by simp)
  | audioCallback _ _ => exact h.setObject rfl rfl rfl
  | emit hq => exact h.emit hq _
  | dispatch hin hr hcall => exact h.dispatch hin hr hcall

theorem create_invariant (maxSessions : ℤ) : (create maxSessions).Invariant where
  pool := ⟨_, Pool.create_invariant maxSessions⟩
  session q k hk := by simp [create, RequestPc.session] at hk
  unassigned _ _ := rfl
  checkout q k hk := by simp [create] at hk
  distinct q q' k hk := by simp [create] at hk
  userData r c hc := by
    simp [create, Pool.create, MSSpeechSessionFactory.create, RecognitionSession.create] at hc
  connection k r c ho := by simp [create, Pool.create] at ho
  handler q k hk := by simp [create, RequestPc.stream] at hk
  live q c hl := by simp [create, Live] at hl
  order c := .nil
  ended q c c' hm := by simp [create] at hm
  isolated d hd := by simp [create] at hd

theorem invariant_system : system.Invariant Bridge.Invariant := by
  refine ⟨?_, fun s l t ↦ invariant_step⟩
  intro s hs
  obtain ⟨maxSessions, rfl⟩ := hs
  exact create_invariant maxSessions

/-- However the requests interleave and reuse the connections, each message reaches the
object and the handler of the request it was sent for. -/
theorem request_isolation (h : system.Reachable s) : s.Isolated :=
  (invariant_system.reachable h).isolated

theorem request_isolation_run : ∃ s, system.run (create 1)
    [.getSession 0 "wss" "a" 0 false, .processPendingSession 0 (some 7), .clientReady 0,
      .wake 0 0 false, .recognizeStream 0, .lock 0, .sendAudio 0 [1], .endAudio 0,
      .emit 0 (.speechHypothesis "a"), .emit 0 .turnEnd, .dispatch 7, .dispatch 7,
      .waitForCompletion 0, .putSession 0, .getSession 1 "wss" "b" 0 true, .recognizeStream 1,
      .emit 1 (.speechFragment "b"), .lock 1, .dispatch 7] = some s ∧
    s.log = [⟨0, .speechHypothesis "a", 1, [(0, .speechHypothesis "a")]⟩, ⟨0, .turnEnd, 1, []⟩,
      ⟨1, .speechFragment "b", 2, [(1, .speechFragment "b")]⟩] ∧ s.Isolated := by
  have hi : system.init (create 1) := ⟨1, rfl⟩
  have hr : (system.run (create 1) [.getSession 0 "wss" "a" 0 false,
      .processPendingSession 0 (some 7), .clientReady 0, .wake 0 0 false, .recognizeStream 0,
      .lock 0, .sendAudio 0 [1], .endAudio 0, .emit 0 (.speechHypothesis "a"), .emit 0 .turnEnd,
      .dispatch 7, .dispatch 7, .waitForCompletion 0, .putSession 0,
      .getSession 1 "wss" "b" 0 true, .recognizeStream 1, .emit 1 (.speechFragment "b"), .lock 1,
      .dispatch 7]).any (·.log == [⟨0, .speechHypothesis "a", 1, [(0, .speechHypothesis "a")]⟩,
        ⟨0, .turnEnd, 1, []⟩, ⟨1, .speechFragment "b", 2, [(1, .speechFragment "b")]⟩]) = true := by
    decide
  obtain ⟨s, hs, hlog⟩ := (Option.any_eq_true _ _).mp hr
  exact ⟨s, hs, by simpa using hlog,
    request_isolation ((Transition.System.Reachable.start hi).run hs)⟩

end Bridge

end SpeechBridge.Service
