import Monkey.Lib.Run
import Monkey.Worker.Outcome

/-!
# Monkey.Worker.Sessions

Sessions and busy slots over whole runs of a worker: every session belongs to
exactly one busy slot, so that a descriptor number that is used again never meets
the session of an earlier connection.

Two steps break this.  A plugin hook that answers an event with
`MK_PLUGIN_RET_EVENT_CLOSE` makes the loop release the slot and leave the session
behind; and the first loop of `mk_sched_check_timeouts` releases a slot that is
still PENDING although its session may be complete, which the second loop then
skips.  `KeepsSessions` excludes exactly these.
-/

namespace Monkey

/-- Every session is held by exactly one busy slot, no two sessions share a
descriptor, and a descriptor without a slot has no session. -/
def OneSlotPerSession (w : Worker) : Prop :=
  (∀ cs ∈ w.sessions, w.sched.busyQueue.countP (·.socket == cs.socket) = 1) ∧
    w.sessionFds.Nodup ∧
    ∀ fd, mkSchedGetConnection w.sched fd = none → mkSessionGet w fd = none

/-- The event does not release the slot of a session that stays. -/
def KeepsSessions (cfg : Config) (w : Worker) : Event → Prop
  | .assign _ => True
  | .epoll _ io fd =>
      io.hook = .close → io.closeHook.passes = true → mkSessionGet w fd = none
  | .checkTimeouts now =>
      ∀ cs ∈ w.sessions, ∀ sc ∈ w.sched.busyQueue, sc.socket = cs.socket →
        connExpired cfg now sc = true → sessionExpired cfg now cs = true

instance (cfg : Config) (w : Worker) : (e : Event) → Decidable (KeepsSessions cfg w e)
  | .assign _ => inferInstanceAs (Decidable True)
  | .epoll _ io fd => inferInstanceAs (Decidable
      (io.hook = .close → io.closeHook.passes = true → mkSessionGet w fd = none))
  | .checkTimeouts now => inferInstanceAs (Decidable
      (∀ cs ∈ w.sessions, ∀ sc ∈ w.sched.busyQueue, sc.socket = cs.socket →
        connExpired cfg now sc = true → sessionExpired cfg now cs = true))

/-- The inductive form of `OneSlotPerSession`. -/
structure SessionsHeld (w : Worker) : Prop extends Distinct w where
  held : ∀ fd ∈ w.sessionFds, fd ∈ w.sched.busyFds

/-! ## one step -/

/-- Releasing the slot of a descriptor that has no session. -/
theorem SessionsHeld.close {w : Worker} {hook : EventRet} {fd : Int} (h : SessionsHeld w)
    (hfd : hook.passes = true → fd ∉ w.sessionFds) : SessionsHeld (mkConnClose hook fd w).2 := by
  refine ⟨h.toDistinct.close, ?_⟩
  rw [mkConnClose_eq]
  split
  · next hpass =>
      intro fd' hfd'
      simp only [mkSchedRemoveClient_sessionFds] at hfd'
      have hne : fd' ≠ fd := fun he => hfd hpass (he ▸ hfd')
      simpa using (List.mem_erase_of_ne hne).mpr (h.held fd' hfd')
  · exact h.held

/-- A handler keeps the invariant. -/
theorem SessionsHeld.outcome {cfg : Config} {kind : EpollKind} {io : EventIo} {fd : Int}
    {w : Worker} {r : Int × Worker} (h : SessionsHeld w) (ho : Outcome cfg kind io fd w r) :
    SessionsHeld r.2 := by
  have hdistinct := h.toDistinct.outcome ho
  cases ho with
  | owned => exact h
  | hookClosed hook => exact h
  | registered hkind hook hsession hslot hstage htake =>
      refine ⟨hdistinct, fun fd' hfd' => ?_⟩
      rw [schedTake_busyFds htake]
      exact List.mem_append_left _ (h.held fd' hfd')
  | rejected hkind hook hsession hslot hstage => exact h.close fun _ => hsession
  | handled hkind hook hh =>
      cases hh with
      | kept hret hk =>
          refine ⟨hdistinct, fun fd' hfd' => ?_⟩
          rw [hk.sched.busyFds]
          rcases hk.sessions with hs | ⟨_, hslot, hs⟩
          · exact h.held fd' (hs ▸ hfd')
          · rw [hs, List.mem_append, List.mem_singleton] at hfd'
            rcases hfd' with hfd' | rfl
            · exact h.held fd' hfd'
            · exact hslot
      | ended he =>
          refine ⟨hdistinct, fun fd' hfd' => ?_⟩
          rw [he.sessions] at hfd'
          rw [he.sched.busyFds]
          exact h.held fd' (List.mem_of_mem_erase hfd')
  | errored hkind hook =>
      refine ⟨hdistinct, fun fd' hfd' => ?_⟩
      simp only [dropClient_sessionFds, dropClient_sched, schedRelease_busyFds] at hfd' ⊢
      obtain ⟨hne, hmem⟩ := h.sessions.mem_erase_iff.mp hfd'
      exact (List.mem_erase_of_ne hne).mpr (h.held fd' hmem)

/-- A handler that makes the loop close has removed the session, unless a hook
asked for the close. -/
theorem Outcome.session_gone {cfg : Config} {kind : EpollKind} {io : EventIo} {fd : Int}
    {w : Worker} {r : Int × Worker} (ho : Outcome cfg kind io fd w r) (h : Distinct w)
    (hret : r.1 < 0) (hkeep : io.hook = .close → fd ∉ w.sessionFds) : fd ∉ r.2.sessionFds := by
  cases ho with
  | owned => contradiction
  | hookClosed hook => exact hkeep hook
  | registered hkind hook hsession hslot hstage htake => contradiction
  | rejected hkind hook hsession hslot hstage =>
      rw [mkConnClose_eq]
      split <;> simpa using hsession
  | handled hkind hook hh =>
      cases hh with
      | kept hpos hk => omega
      | ended he => exact he.sessions ▸ h.sessions.not_mem_erase
  | errored hkind hook => contradiction

/-- The timeout check keeps the invariant when no slot is released under a
session that stays. -/
theorem SessionsHeld.timeouts {cfg : Config} {now : Int} {w : Worker} (h : SessionsHeld w)
    (hkeep : KeepsSessions cfg w (.checkTimeouts now)) :
    SessionsHeld (mkSchedCheckTimeouts cfg now w) := by
  refine ⟨h.toDistinct.timeouts, fun fd hfd => ?_⟩
  rw [mkSchedCheckTimeouts_sessionFds h.sessions, List.mem_filter, decide_eq_true_eq] at hfd
  obtain ⟨hmem, hnot⟩ := hfd
  rw [mkSchedCheckTimeouts_busyFds h.busy, List.mem_filter]
  refine ⟨h.held fd hmem, ?_⟩
  simp only [Bool.and_eq_true, decide_eq_true_eq]
  refine ⟨?_, hnot⟩
  -- an expired slot of `fd` would make its session one of the expired ones
  intro hexp
  obtain ⟨sc, hsc, rfl⟩ := List.mem_map.mp hexp
  obtain ⟨hscmem, hscexp⟩ := List.mem_filter.mp hsc
  obtain ⟨cs, hcs, hsock⟩ := List.mem_map.mp hmem
  have hcsexp := hkeep cs hcs sc hscmem hsock.symm hscexp
  exact hnot (hsock ▸ List.mem_map_of_mem (List.mem_filter.mpr ⟨hcs, hcsexp⟩))

/-- **Step lemma.** -/
theorem SessionsHeld.step {cfg : Config} {w w' : Worker} {e : Event} (h : SessionsHeld w)
    (hkeep : KeepsSessions cfg w e) (hstep : Worker.Step cfg w e w') : SessionsHeld w' := by
  cases e with
  | assign fd =>
      cases hstep
      exact ⟨⟨h.busy, h.sessions⟩, h.held⟩
  | epoll kind io fd =>
      obtain ⟨r, ho, rfl⟩ := mkEpollEvent_outcome hstep
      split
      · next hret =>
          refine (h.outcome ho).close fun hclose => ho.session_gone h.toDistinct hret fun hook => ?_
          exact mkSessionGet_eq_none.mp (hkeep hook hclose)
      · exact h.outcome ho
  | checkTimeouts now =>
      cases hstep
      exact h.timeouts hkeep

theorem SessionsHeld.init (cfg : Config) : SessionsHeld (Worker.init cfg) :=
  ⟨.init cfg, fun _ h => h⟩

/-! ## the property and its exact condition -/

/-- Counting the slots of a descriptor. -/
theorem countP_socket (node : SchedListNode) (fd : Int) :
    node.busyQueue.countP (·.socket == fd) = node.busyFds.count fd := by
  rw [SchedListNode.busyFds, List.count, List.countP_map]
  rfl

theorem SessionsHeld.oneSlotPerSession {w : Worker} (h : SessionsHeld w) :
    OneSlotPerSession w := by
  refine ⟨?_, h.sessions, ?_⟩
  · intro cs hcs
    rw [countP_socket]
    exact List.count_eq_one_of_mem h.busy (h.held _ (List.mem_map_of_mem hcs))
  · intro fd hslot
    rw [mkSessionGet_eq_none]
    intro hmem
    exact mkSchedGetConnection_eq_none.mp hslot (h.held fd hmem)

/-- A session in a state with the property has a slot. -/
theorem OneSlotPerSession.held {w : Worker} (h : OneSlotPerSession w) {fd : Int}
    (hfd : fd ∈ w.sessionFds) : fd ∈ w.sched.busyFds := by
  by_contra hno
  exact mkSessionGet_eq_none.mp (h.2.2 fd (mkSchedGetConnection_eq_none.mpr hno)) hfd

/-- A step into a state with the property releases no slot under a session. -/
theorem keepsSessions_of_step {cfg : Config} {w w' : Worker} {e : Event} (h : SessionsHeld w)
    (hstep : Worker.Step cfg w e w') (hone : OneSlotPerSession w') : KeepsSessions cfg w e := by
  cases e with
  | assign fd => trivial
  | epoll kind io fd =>
      intro hook hclose
      rw [mkSessionGet_eq_none]
      intro hmem
      have hw' : w' = (mkSchedRemoveClient w fd).2 := by
        have hs : mkEpollEvent cfg kind io fd w = some w' := hstep
        have hclosed := mkConnClose_eq io.closeHook fd w
        rw [if_pos hclose] at hclosed
        cases kind <;>
          simpa [mkEpollEvent, EpollKind.handler, mkConnRead, mkConnWrite, mkConnError, behindHook,
            hook, hclosed] using hs.symm
      subst hw'
      have hslot : fd ∈ w.sched.busyFds.erase fd := by simpa using hone.held (by simpa using hmem)
      exact h.busy.not_mem_erase hslot
  | checkTimeouts now =>
      cases hstep
      intro cs hcs sc hsc hsock hexp
      by_contra hno
      have hnot : cs.socket ∉ expiredSessions cfg now w := by
        intro hmem
        obtain ⟨cs', hcs', hsock'⟩ := List.mem_map.mp hmem
        obtain ⟨hmem', hexp'⟩ := List.mem_filter.mp hcs'
        have heq := List.inj_on_of_nodup_map h.sessions hmem' hcs hsock'
        exact hno (heq ▸ hexp')
      have hstays : cs.socket ∈ (mkSchedCheckTimeouts cfg now w).sessionFds := by
        rw [mkSchedCheckTimeouts_sessionFds h.sessions, List.mem_filter]
        exact ⟨List.mem_map_of_mem hcs, by simpa using hnot⟩
      have hslot := hone.held hstays
      rw [mkSchedCheckTimeouts_busyFds h.busy, List.mem_filter] at hslot
      have hgone : cs.socket ∈ expiredConns cfg now w :=
        hsock ▸ List.mem_map_of_mem (List.mem_filter.mpr ⟨hsc, hexp⟩)
      simp [hgone] at hslot

/-- **Sessions and slots**: a run of a worker stays in states where every session
is held by exactly one busy slot if and only if none of its steps releases the
slot of a session that stays. -/
theorem sessions_one_slot_iff {cfg : Config} {es : List Event} {w : Worker}
    (h : Run (Worker.Step cfg) (Worker.init cfg) es w) :
    (∀ es' w', es' <+: es → Run (Worker.Step cfg) (Worker.init cfg) es' w' → OneSlotPerSession w') ↔
      Run (Guarded (KeepsSessions cfg) (Worker.Step cfg)) (Worker.init cfg) es w :=
  Run.always_iff_guarded Worker.Step.deterministic (fun _ _ _ hi hp hs => hi.step hp hs)
    (fun _ hi => hi.oneSlotPerSession) (fun _ _ _ hi hs hq => keepsSessions_of_step hi hs hq)
    (SessionsHeld.init cfg) h

/- A client that is served once and hangs up. -/

/-- The events of that client. -/
def servedThenHangUp : List Event :=
  [.assign 5, .epoll .read { now := 0, sys := sampleSys } 5,
    .epoll .read { now := 1, read := .data sampleRequest, sys := sampleSys } 5,
    .epoll .write { now := 1, sys := sampleSys } 5, .checkTimeouts 15,
    .epoll .error { now := 16, sys := sampleSys } 5]

theorem sessions_one_slot_servedThenHangUp :
    ∃ w, Run (Worker.Step sampleConfig) (Worker.init sampleConfig) servedThenHangUp w ∧
      ∀ es' w', es' <+: servedThenHangUp →
        Run (Worker.Step sampleConfig) (Worker.init sampleConfig) es' w' →
        OneSlotPerSession w' := by
  have hrun : Run (Guarded (KeepsSessions sampleConfig) (Worker.Step sampleConfig))
      (Worker.init sampleConfig) servedThenHangUp _ := Run.guarded_of_foldlM rfl
  exact ⟨_, hrun.of_guarded, (sessions_one_slot_iff hrun.of_guarded).mpr hrun⟩

/- A client whose request is complete when its time runs out: the read event
completes the request, the timeout check comes before the write event. -/

/-- The events of that client. -/
def completedAtTimeout : List Event :=
  [.assign 5, .epoll .read { now := 0, sys := sampleSys } 5,
    .epoll .read { now := 15, read := .data sampleRequest, sys := sampleSys } 5,
    .checkTimeouts 15]

/-- Its session outlives its slot. -/
theorem completedAtTimeout_stale_session :
    ¬ ∀ (cfg : Config) (es : List Event) (w : Worker),
      Run (Worker.Step cfg) (Worker.init cfg) es w → OneSlotPerSession w := by
  intro hall
  obtain ⟨w, hw, hsessions, hbusy⟩ : ∃ w, completedAtTimeout.foldlM (Worker.step sampleConfig)
      (Worker.init sampleConfig) = some w ∧ w.sessionFds = [5] ∧ w.sched.busyFds = [] :=
    ⟨_, rfl, by decide, by decide⟩
  have hone := hall sampleConfig completedAtTimeout w (Run.of_foldlM hw)
  have hslot : (5 : Int) ∈ w.sched.busyFds := hone.held (by simp [hsessions])
  simp [hbusy] at hslot

end Monkey
