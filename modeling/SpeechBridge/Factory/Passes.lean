import Mathlib.Data.Finset.Card
import SpeechBridge.Factory.PendingPass
import SpeechBridge.Foundation.Transition

namespace SpeechBridge.Factory

open Function Foundation Foundation.Machine Session

/-- Where the run loop is: between two passes, in the loop of a pass, or in its body after
`ms_speech_connect` has given a handle and before the lock is taken. -/
inductive PassPhase
  | idle
  | passing (snapshot visited : Finset RecoPtr) (ownsLock : Bool)
  | connected (snapshot visited : Finset RecoPtr) (ownsLock : Bool) (s : RecoPtr)

namespace PassPhase

def lockFree : PassPhase → Bool
  | .idle => true
  | .passing _ _ ownsLock | .connected _ _ ownsLock _ => !ownsLock

def current : PassPhase → Option RecoPtr
  | .idle | .passing _ _ _ => none
  | .connected _ _ _ s => some s

def unvisited : PassPhase → Finset RecoPtr
  | .idle => ∅
  | .passing snapshot visited _ | .connected snapshot visited _ _ => snapshot \ visited

end PassPhase

/-- The run loop with the callers of `createNewSession`, and what has happened so far: the
handles given for each session, the sessions that were committed or closed, and those that
failed or were created since the last copy was made. -/
structure Passes where
  factory : MSSpeechSessionFactory
  phase : PassPhase
  created : RecoPtr
  connects : RecoPtr → List Connection
  committed : Finset RecoPtr
  closed : Finset RecoPtr
  late : Finset RecoPtr

inductive PassesStep
  | snapshot
  | connect (s : RecoPtr) (result : Option Connection)
  | commit
  | endPass
  | createNewSession (uri : String)
  | connectionClosed (s : RecoPtr)

namespace Passes

def create (maxSessions : ℤ) : Passes where
  factory := MSSpeechSessionFactory.create maxSessions
  phase := .idle
  created := 0
  connects _ := []
  committed := ∅
  closed := ∅
  late := ∅

/-- The loop comes to each session at most once in a pass, whether it is in the copy or has
been inserted since: it runs over the member. A `lock()` on the owned lock throws. -/
def next (p : Passes) : PassesStep → Option Passes
  | .snapshot =>
      match p.phase with
      | .idle => some { p with
          phase := if 0 < p.factory.pendingSessions.card
            then .passing p.factory.pendingSessions ∅ false else .idle
          late := ∅ }
      | _ => none
  | .connect s result =>
      match p.phase with
      | .passing snapshot visited ownsLock =>
        if (s ∈ snapshot ∨ s ∈ p.factory.pendingSessions) ∧ s ∉ visited then
          match result with
          | none => some { p with
              phase := .passing snapshot (insert s visited) ownsLock
              late := insert s p.late }
          | some connection => some { p with
              factory := p.factory.setConnection s connection
              phase := .connected snapshot (insert s visited) ownsLock s
              connects := update p.connects s (p.connects s ++ [connection]) }
        else none
      | _ => none
  | .commit =>
      match p.phase with
      | .connected snapshot visited ownsLock s =>
        if ownsLock then none
        else some { p with
          factory := p.factory.commitPending s
          phase := .passing snapshot visited true
          committed := if s ∈ p.factory.pendingSessions then insert s p.committed
            else p.committed }
      | _ => none
  | .endPass =>
      match p.phase with
      | .passing snapshot visited ownsLock =>
        -- After an erase the loop may take its erased iterator for the end.
        if snapshot ⊆ visited ∨ ownsLock = true then some { p with phase := .idle } else none
      | _ => none
  | .createNewSession uri =>
      if p.phase.lockFree then
        some { p with
          factory := p.factory.createNewSession p.created uri
          created := p.created + 1
          late := insert p.created p.late }
      else none
  | .connectionClosed s =>
      match p.phase with
      | .idle =>
        if s ∈ p.committed ∧ s ∉ p.closed then
          (p.factory.msspeechConnectionClosed s).toOption.map fun factory ↦ { p with
            factory := factory
            closed := insert s p.closed }
        else none
      | _ => none

def system : Transition.System Passes PassesStep where
  init p := ∃ maxSessions, p = create maxSessions
  next := next

section pass

variable {walks : RecoPtr → Bool} {outcome : RecoPtr → Option Connection} {p : Passes}
  {snapshot visited : Finset RecoPtr} {ownsLock : Bool}

theorem run_body {s : RecoPtr} {connects : List (RecoPtr × Bool)}
    (hphase : p.phase = .passing snapshot visited ownsLock) (hs : s ∈ snapshot)
    (hv : s ∉ visited) (h : (Pass.body outcome ⟨p.factory, ownsLock, connects⟩ s).2 = none) :
    ∃ ls p', system.run p ls = some p' ∧
      p'.factory = (Pass.body outcome ⟨p.factory, ownsLock, connects⟩ s).1.factory ∧
      p'.phase = .passing snapshot (insert s visited)
        (Pass.body outcome ⟨p.factory, ownsLock, connects⟩ s).1.ownsLock := by
  rw [Pass.body] at h ⊢
  cases ho : outcome s with
  | none =>
    have hrun : system.run p [.connect s none] = some { p with
        phase := .passing snapshot (insert s visited) ownsLock
        late := insert s p.late } := by
      simp [Transition.System.run, system, next, hphase, hs, hv]
    exact ⟨_, _, hrun, rfl, rfl⟩
  | some connection =>
    cases ownsLock with
    | true => simp [ho] at h
    | false =>
      have hrun : system.run p [.connect s (some connection), .commit] = some { p with
          factory := (p.factory.setConnection s connection).commitPending s
          phase := .passing snapshot (insert s visited) true
          connects := update p.connects s (p.connects s ++ [connection])
          committed := if s ∈ (p.factory.setConnection s connection).pendingSessions
            then insert s p.committed else p.committed } := by
        simp [Transition.System.run, system, next, hphase, hs, hv]
      exact ⟨_, _, hrun, rfl, rfl⟩

theorem run_loop {order : List RecoPtr} (hnodup : order.Nodup) {connects : List (RecoPtr × Bool)}
    (hphase : p.phase = .passing snapshot visited ownsLock)
    (horder : ∀ s ∈ order, s ∈ snapshot ∧ s ∉ visited)
    (h : (Pass.loop walks outcome order ⟨p.factory, ownsLock, connects⟩).2 = none) :
    ∃ ls p' ownsLock', system.run p ls = some p' ∧
      p'.factory = (Pass.loop walks outcome order ⟨p.factory, ownsLock, connects⟩).1.factory ∧
      p'.phase = .passing snapshot (visited ∪ order.toFinset) ownsLock' := by
  induction order generalizing p visited ownsLock connects with
  | nil => exact ⟨[], p, ownsLock, rfl, rfl, by simpa using hphase⟩
  | cons s order ih =>
    obtain ⟨hs, hv⟩ := horder s (by simp)
    simp only [Pass.loop] at h ⊢
    split at h
    case h_1 => simp at h
    case h_2 result hbody =>
      have hreturns : (Pass.body outcome ⟨p.factory, ownsLock, connects⟩ s).2 = none := by
        rw [hbody]
      obtain ⟨ls, p', hrun, hfactory, hphase'⟩ := run_body hphase hs hv hreturns
      rw [hbody] at hfactory hphase'
      split at h
      case isFalse => simp at h
      case isTrue hin =>
        rw [if_pos hin]
        have horder' : ∀ s' ∈ order, s' ∈ snapshot ∧ s' ∉ insert s visited := by
          intro s' hs'
          obtain ⟨hsnap, hv'⟩ := horder s' (List.mem_cons_of_mem _ hs')
          have hne : s' ≠ s := by
            rintro rfl
            exact (List.nodup_cons.mp hnodup).1 hs'
          exact ⟨hsnap, by simp [hne, hv']⟩
        have hresult : result = ⟨p'.factory, result.ownsLock, result.connects⟩ := by
          rw [hfactory]
        rw [hresult] at h
        obtain ⟨ls', p'', ownsLock', hrun', hfactory', hphase''⟩ :=
          ih hnodup.of_cons hphase' horder' h
        refine ⟨ls ++ ls', p'', ownsLock', Transition.System.run_append hrun hrun', ?_, ?_⟩
        · rw [hfactory', ← hresult]
        · rw [hphase'', List.toFinset_cons, Finset.insert_union, Finset.union_insert]

/-- A pass that returns is a run of these steps, from one idle run loop to the next. -/
theorem run_processPendingSessions {order : List RecoPtr} (hidle : p.phase = .idle)
    (hnodup : order.Nodup) (horder : ∀ s, s ∈ order ↔ s ∈ p.factory.pendingSessions)
    (h : (p.factory.processPendingSessions walks outcome order).2 = none) :
    ∃ ls p', system.run p ls = some p' ∧ p'.phase = .idle ∧
      p'.factory = (p.factory.processPendingSessions walks outcome order).1.factory := by
  rw [MSSpeechSessionFactory.processPendingSessions] at h ⊢
  by_cases hcard : 0 < p.factory.pendingSessions.card
  · rw [if_pos hcard] at h ⊢
    have hnext : system.next p .snapshot = some { p with
        phase := .passing p.factory.pendingSessions ∅ false
        late := ∅ } := by
      simp [system, next, hidle, hcard]
    obtain ⟨ls, p', ownsLock, hrun, hfactory, hphase⟩ := run_loop (p := { p with
      phase := .passing p.factory.pendingSessions ∅ false
      late := ∅ }) hnodup rfl (fun s hs ↦ ⟨(horder s).mp hs, by simp⟩) h
    have hsub : p.factory.pendingSessions ⊆ ∅ ∪ order.toFinset := by
      intro s hs
      simpa using (horder s).mpr hs
    have hend : system.next p' .endPass = some { p' with phase := .idle } := by
      simp only [system, next, hphase]
      exact if_pos (.inl hsub)
    refine ⟨.snapshot :: (ls ++ [.endPass]), { p' with phase := .idle }, ?_, rfl, hfactory⟩
    rw [Transition.System.run, hnext, Option.bind_some]
    apply Transition.System.run_append hrun
    rw [Transition.System.run, hend]
    rfl
  · rw [if_neg hcard]
    have hrun : system.run p [.snapshot] = some { p with phase := .idle, late := ∅ } := by
      simp [Transition.System.run, system, next, hidle, hcard]
    exact ⟨_, _, hrun, rfl, rfl⟩

end pass

/-- No session is lost, and none is connected twice. -/
structure Intact (p : Passes) : Prop where
  placed : ∀ s < p.created, s ∉ p.closed →
    Xor (s ∈ p.factory.pendingSessions) (s ∈ p.factory.sessions)
  once : ∀ s, (p.connects s).length ≤ 1
  handle : ∀ s ∈ p.factory.sessions, ∃ connection, p.connects s = [connection] ∧
    (p.factory.recognitionSessions s).connection = some connection
  kept : ∀ s ∈ p.late, s ∉ p.committed → s ∈ p.factory.pendingSessions

def Carries (p : Passes) (s : RecoPtr) : Prop :=
  ∃ connection, p.connects s = [connection] ∧
    (p.factory.recognitionSessions s).connection = some connection

structure Consistent (p : Passes) : Prop where
  fresh : ∀ s, p.created ≤ s → s ∉ p.factory.pendingSessions ∧ s ∉ p.factory.sessions ∧
    p.connects s = []
  placed : ∀ s < p.created, s ∉ p.closed →
    s ∈ p.factory.pendingSessions ∨ s ∈ p.factory.sessions
  disjoint : ∀ s ∈ p.factory.pendingSessions, s ∉ p.factory.sessions
  once : ∀ s, (p.connects s).length ≤ 1
  unconnected : ∀ s ∈ p.factory.pendingSessions, p.phase.current ≠ some s → p.connects s = []
  current : ∀ s, p.phase.current = some s → s ∈ p.factory.pendingSessions ∧ p.Carries s
  visited : ∀ s, p.phase.current = some s → s ∉ p.phase.unvisited
  handle : ∀ s ∈ p.factory.sessions, p.Carries s
  unvisited : ∀ s ∈ p.phase.unvisited, s ∈ p.factory.pendingSessions
  kept : ∀ s ∈ p.late, s ∉ p.committed → s ∈ p.factory.pendingSessions

theorem Consistent.toIntact {p : Passes} (h : p.Consistent) : p.Intact where
  placed s hs hc := by
    rcases h.placed s hs hc with hp | hp
    · exact .inl ⟨hp, h.disjoint s hp⟩
    · exact .inr ⟨hp, fun hpending ↦ h.disjoint s hpending hp⟩
  once := h.once
  handle := h.handle
  kept := h.kept

theorem create_consistent (maxSessions : ℤ) : (create maxSessions).Consistent := by
  refine ⟨?_, ?_, ?_, ?_, ?_, ?_, ?_, ?_, ?_, ?_⟩ <;>
    simp [create, MSSpeechSessionFactory.create, PassPhase.current, PassPhase.unvisited]

section steps

variable {p : Passes} {s : RecoPtr}

theorem Consistent.move (h : p.Consistent) {phase : PassPhase} {late : Finset RecoPtr}
    (hc : phase.current = none) (hcurrent : p.phase.current = none)
    (hu : ∀ s ∈ phase.unvisited, s ∈ p.factory.pendingSessions)
    (hl : ∀ s ∈ late, s ∉ p.committed → s ∈ p.factory.pendingSessions) :
    Consistent { p with phase := phase, late := late } where
  fresh := h.fresh
  placed := h.placed
  disjoint := h.disjoint
  once := h.once
  unconnected s hs _ := h.unconnected s hs (by simp [hcurrent])
  current s hs := by simp [hc] at hs
  visited s hs := by simp [hc] at hs
  handle := h.handle
  unvisited := hu
  kept := hl

theorem connect_consistent (h : p.Consistent) {snapshot visited : Finset RecoPtr}
    {ownsLock : Bool} (hphase : p.phase = .passing snapshot visited ownsLock)
    (hs : s ∈ p.factory.pendingSessions) (connection : Connection) :
    Consistent { p with
      factory := p.factory.setConnection s connection
      phase := .connected snapshot (insert s visited) ownsLock s
      connects := update p.connects s (p.connects s ++ [connection]) } := by
  have hempty : p.connects s = [] := h.unconnected s hs (by simp [hphase, PassPhase.current])
  have hlt : s < p.created := by
    by_contra hge
    exact (h.fresh s (not_lt.mp hge)).1 hs
  refine ⟨?_, h.placed, h.disjoint, ?_, ?_, ?_, ?_, ?_, ?_, h.kept⟩
  · intro s' hs'
    have hne : s' ≠ s := (hlt.trans_le hs').ne'
    simpa [MSSpeechSessionFactory.setConnection, update_of_ne hne] using h.fresh s' hs'
  · intro s'
    by_cases hne : s' = s
    · simp [hne, hempty]
    · simpa [update_of_ne hne] using h.once s'
  · intro s' hs' hcur
    have hne : s' ≠ s := by
      rintro rfl
      exact hcur rfl
    simpa [update_of_ne hne] using
      h.unconnected s' hs' (by simp [hphase, PassPhase.current])
  · intro s' hcur
    obtain rfl : s = s' := Option.some.inj hcur
    exact ⟨hs, connection, by simp [hempty], by simp [MSSpeechSessionFactory.setConnection]⟩
  · intro s' hcur
    obtain rfl : s = s' := Option.some.inj hcur
    simp [PassPhase.unvisited]
  · intro s' hs'
    have hne : s' ≠ s := by
      rintro rfl
      exact h.disjoint s' hs hs'
    obtain ⟨c, hc, hrec⟩ := h.handle s' hs'
    exact ⟨c, by simp [update_of_ne hne, hc],
      by simpa [MSSpeechSessionFactory.setConnection, update_of_ne hne] using hrec⟩
  · intro s' hs'
    have hold := h.unvisited s'
    simp only [hphase, PassPhase.unvisited, Finset.mem_sdiff] at hold
    simp only [PassPhase.unvisited, Finset.mem_sdiff, Finset.mem_insert, not_or] at hs'
    exact hold ⟨hs'.1, hs'.2.2⟩

theorem commit_consistent (h : p.Consistent) {snapshot visited : Finset RecoPtr}
    {ownsLock : Bool} (hphase : p.phase = .connected snapshot visited ownsLock s) :
    Consistent { p with
      factory := p.factory.commitPending s
      phase := .passing snapshot visited true
      committed := if s ∈ p.factory.pendingSessions then insert s p.committed
        else p.committed } := by
  have hcur : p.phase.current = some s := by simp [hphase, PassPhase.current]
  obtain ⟨hs, hcarries⟩ := h.current s hcur
  have hcommit : p.factory.commitPending s = { p.factory with
      pendingSessions := p.factory.pendingSessions.erase s
      sessions := insert s p.factory.sessions } := if_pos hs
  rw [hcommit, if_pos hs]
  refine ⟨?_, ?_, ?_, h.once, ?_, by simp [PassPhase.current], by simp [PassPhase.current],
    ?_, ?_, ?_⟩
  · intro s' hs'
    obtain ⟨hpending, hsessions, hc⟩ := h.fresh s' hs'
    have hne : s' ≠ s := by
      rintro rfl
      exact hpending hs
    simp [hpending, hsessions, hc, hne]
  · intro s' hs' hclosed
    by_cases hne : s' = s
    · simp [hne]
    · simpa [hne] using h.placed s' hs' hclosed
  · intro s' hs'
    obtain ⟨hne, hs'⟩ := Finset.mem_erase.mp hs'
    simpa [hne] using h.disjoint s' hs'
  · intro s' hs' _
    obtain ⟨hne, hs'⟩ := Finset.mem_erase.mp hs'
    exact h.unconnected s' hs' (by simpa [hcur] using hne.symm)
  · intro s' hs'
    rcases Finset.mem_insert.mp hs' with rfl | hs'
    · exact hcarries
    · exact h.handle s' hs'
  · intro s' hs'
    have hold : s' ∈ p.phase.unvisited := by rwa [hphase]
    have hne : s' ≠ s := by
      rintro rfl
      exact h.visited s' hcur hold
    exact Finset.mem_erase.mpr ⟨hne, h.unvisited s' hold⟩
  · intro s' hs' hcommitted
    obtain ⟨hne, hcommitted⟩ := not_or.mp (Finset.mem_insert.not.mp hcommitted)
    exact Finset.mem_erase.mpr ⟨hne, h.kept s' hs' hcommitted⟩

theorem created_consistent (h : p.Consistent) (uri : String) :
    Consistent { p with
      factory := p.factory.createNewSession p.created uri
      created := p.created + 1
      late := insert p.created p.late } := by
  obtain ⟨hpending, hsessions, hconnects⟩ := h.fresh p.created le_rfl
  have hcarries : ∀ s', s' ≠ p.created → p.Carries s' → Carries { p with
      factory := p.factory.createNewSession p.created uri
      created := p.created + 1
      late := insert p.created p.late } s' := by
    intro s' hne hc
    obtain ⟨c, hc, hrec⟩ := hc
    exact ⟨c, hc, by simpa [MSSpeechSessionFactory.createNewSession, update_of_ne hne] using hrec⟩
  refine ⟨?_, ?_, ?_, h.once, ?_, ?_, h.visited, ?_, ?_, ?_⟩
  · intro s' hs'
    obtain ⟨hp, hs, hc⟩ := h.fresh s' ((Nat.le_succ _).trans hs')
    have hne : s' ≠ p.created := (Nat.lt_of_succ_le hs').ne'
    simp [MSSpeechSessionFactory.createNewSession, hp, hs, hc, hne]
  · intro s' hs' hclosed
    by_cases hne : s' = p.created
    · simp [MSSpeechSessionFactory.createNewSession, hne]
    · have hlt : s' < p.created := lt_of_le_of_ne (Nat.lt_succ_iff.mp hs') hne
      simpa [MSSpeechSessionFactory.createNewSession, hne] using h.placed s' hlt hclosed
  · intro s' hs'
    rcases Finset.mem_insert.mp hs' with rfl | hs'
    · exact hsessions
    · exact h.disjoint s' hs'
  · intro s' hs' hcur
    rcases Finset.mem_insert.mp hs' with rfl | hs'
    · exact hconnects
    · exact h.unconnected s' hs' hcur
  · intro s' hcur
    obtain ⟨hs', hc⟩ := h.current s' hcur
    have hne : s' ≠ p.created := by
      rintro rfl
      exact hpending hs'
    exact ⟨Finset.mem_insert_of_mem hs', hcarries s' hne hc⟩
  · intro s' hs'
    have hne : s' ≠ p.created := by
      rintro rfl
      exact hsessions hs'
    exact hcarries s' hne (h.handle s' hs')
  · intro s' hs'
    exact Finset.mem_insert_of_mem (h.unvisited s' hs')
  · intro s' hs' hcommitted
    rcases Finset.mem_insert.mp hs' with rfl | hs'
    · exact Finset.mem_insert_self _ _
    · exact Finset.mem_insert_of_mem (h.kept s' hs' hcommitted)

theorem closed_consistent (h : p.Consistent) {factory : MSSpeechSessionFactory}
    (hc : p.factory.msspeechConnectionClosed s = .ok factory) :
    Consistent { p with factory := factory, closed := insert s p.closed } := by
  obtain ⟨_, hassert, hok⟩ := bind_eq_ok_iff.mp hc
  have hs : s ∈ p.factory.sessions := by
    by_contra hs
    rw [MSSpeechSessionFactory.assertSession, if_neg hs] at hassert
    cases hassert
  have hpending : s ∉ p.factory.pendingSessions := fun hp ↦ h.disjoint s hp hs
  obtain rfl := Except.ok.inj hok
  refine ⟨?_, ?_, ?_, h.once, ?_, ?_, h.visited, ?_, ?_, ?_⟩
  · intro s' hs'
    simpa using And.imp_right (And.imp_left fun hn _ ↦ hn) (h.fresh s' hs')
  · intro s' hs' hclosed
    obtain ⟨hne, hclosed⟩ := not_or.mp (Finset.mem_insert.not.mp hclosed)
    simpa [hne] using h.placed s' hs' hclosed
  · intro s' hs'
    have hd := h.disjoint s' (by simpa using hs')
    simp [hd]
  · intro s' hs' hcur
    exact h.unconnected s' (by simpa using hs') hcur
  · intro s' hcur
    obtain ⟨hs', c, hc, hrec⟩ := h.current s' hcur
    exact ⟨by simpa using hs', c, hc, by simpa using hrec⟩
  · intro s' hs'
    obtain ⟨c, hc, hrec⟩ := h.handle s' (Finset.mem_of_mem_erase (by simpa using hs'))
    exact ⟨c, hc, by simpa using hrec⟩
  · intro s' hs'
    simpa using h.unvisited s' hs'
  · intro s' hs' hcommitted
    simpa using h.kept s' hs' hcommitted

end steps

theorem next_consistent {p p' : Passes} {l : PassesStep} (h : p.Consistent)
    (hn : p.next l = some p') : p'.Consistent := by
  cases l with
  | snapshot =>
    simp only [next] at hn
    split at hn
    case h_2 => cases hn
    case h_1 hphase =>
      obtain rfl := Option.some.inj hn
      apply h.move
      · split <;> rfl
      · rw [hphase]
        rfl
      · split <;> simp [PassPhase.unvisited]
      · simp
  | connect s result =>
    simp only [next] at hn
    split at hn
    case h_2 => cases hn
    case h_1 snapshot visited ownsLock hphase =>
      rw [Option.ite_none_right_eq_some] at hn
      obtain ⟨⟨hmem, hvisited⟩, hn⟩ := hn
      have hs : s ∈ p.factory.pendingSessions := by
        rcases hmem with hsnap | hs
        · apply h.unvisited s
          rw [hphase]
          exact Finset.mem_sdiff.mpr ⟨hsnap, hvisited⟩
        · exact hs
      cases result with
      | none =>
        obtain rfl := Option.some.inj hn
        apply h.move rfl (by rw [hphase]; rfl)
        · intro s' hs'
          apply h.unvisited s'
          rw [hphase]
          simp only [PassPhase.unvisited, Finset.mem_sdiff, Finset.mem_insert, not_or] at hs' ⊢
          exact ⟨hs'.1, hs'.2.2⟩
        · intro s' hs' hcommitted
          rcases Finset.mem_insert.mp hs' with rfl | hs'
          · exact hs
          · exact h.kept s' hs' hcommitted
      | some connection =>
        obtain rfl := Option.some.inj hn
        exact connect_consistent h hphase hs connection
  | commit =>
    simp only [next] at hn
    split at hn
    case h_2 => cases hn
    case h_1 snapshot visited ownsLock s hphase =>
      rw [Option.ite_none_left_eq_some] at hn
      obtain rfl := Option.some.inj hn.2
      exact commit_consistent h hphase
  | endPass =>
    simp only [next] at hn
    split at hn
    case h_2 => cases hn
    case h_1 snapshot visited ownsLock hphase =>
      rw [Option.ite_none_right_eq_some] at hn
      obtain rfl := Option.some.inj hn.2
      exact h.move rfl (by rw [hphase]; rfl) (by simp [PassPhase.unvisited]) h.kept
  | createNewSession uri =>
    simp only [next, Option.ite_none_right_eq_some, Option.some.injEq] at hn
    obtain ⟨-, rfl⟩ := hn
    exact created_consistent h uri
  | connectionClosed s =>
    simp only [next] at hn
    split at hn
    case h_2 => cases hn
    case h_1 hphase =>
      simp only [Option.ite_none_right_eq_some, Option.map_eq_some_iff,
        toOption_eq_some_iff] at hn
      obtain ⟨-, factory, hc, rfl⟩ := hn
      exact closed_consistent h hc

theorem consistent : system.Invariant Consistent where
  start p hp := by
    obtain ⟨maxSessions, rfl⟩ := hp
    exact create_consistent maxSessions
  step _ _ _ h hn := next_consistent h hn

/-- Over any number of passes, with any outcomes, no session is lost or connected twice, and
the next copy has each session that the last pass left or did not see. -/
theorem intact {p : Passes} (h : system.Reachable p) : p.Intact ∧
    ∀ p', p.next .snapshot = some p' → ∀ s ∈ p.late, s ∉ p.committed → s ∈ p'.phase.unvisited := by
  have hi := consistent.reachable h
  refine ⟨hi.toIntact, ?_⟩
  intro p' hn s hs hcommitted
  have hpending := hi.kept s hs hcommitted
  have hcard : 0 < p.factory.pendingSessions.card := Finset.card_pos.mpr ⟨s, hpending⟩
  simp only [next] at hn
  split at hn
  case h_2 => cases hn
  case h_1 =>
    obtain rfl := Option.some.inj hn
    simpa [hcard, PassPhase.unvisited] using hpending

theorem intact_retry : ∃ p, system.Reachable p ∧ 0 ∈ p.factory.sessions ∧
    1 ∈ p.factory.pendingSessions ∧ p.Intact := by
  have h₀ : system.Reachable (create 2) := .start ⟨2, rfl⟩
  obtain ⟨p, hp, hc⟩ := h₀.of_check
    [.createNewSession "wss", .snapshot, .connect 0 none, .createNewSession "wss", .endPass,
      .snapshot, .connect 1 none, .connect 0 (some 7), .commit, .endPass]
    (fun p ↦ 0 ∈ p.factory.sessions && 1 ∈ p.factory.pendingSessions) (by decide)
  simp only [Bool.and_eq_true, decide_eq_true_eq] at hc
  exact ⟨p, hp, hc.1, hc.2, (intact hp).1⟩

end Passes

end SpeechBridge.Factory
