import Monkey.Lib.Run
import Monkey.Worker.Outcome

/-!
# Monkey.Worker.Closes

Calls of `close(2)` over whole runs of a worker: a descriptor number that has been
closed must not be closed again before the listener has assigned it anew.

The event loop closes twice when STAGE_10 rejects a connection
(`mk_sched_register_client` closes and its caller makes the loop close again), and
the timeout check closes a descriptor twice when its slot is PENDING and its
session INCOMPLETE and both are over time, or when the session has outlived its
connection.  `ClosesOnce` excludes exactly these.
-/

namespace Monkey

/-! ## reading the log -/

/-- Assigned to the worker and not closed since. -/
def isOpen : List Call → Int → Bool
  | [], _ => false
  | .assigned f :: l, fd => f == fd || isOpen l fd
  | .close f :: l, fd => f != fd && isOpen l fd
  | _ :: l, fd => isOpen l fd

/-- Closed by the worker and not assigned since. -/
def closedSince : List Call → Int → Bool
  | [], _ => false
  | .assigned f :: l, fd => f != fd && closedSince l fd
  | .close f :: l, fd => f == fd || closedSince l fd
  | _ :: l, fd => closedSince l fd

/-- No descriptor is passed to `close(2)` again before it is assigned again. -/
def ClosedOnce : List Call → Prop
  | [] => True
  | .close fd :: l => closedSince l fd = false ∧ ClosedOnce l
  | _ :: l => ClosedOnce l

theorem closedSince_of_isOpen {l : List Call} {fd : Int} (h : isOpen l fd = true) :
    closedSince l fd = false := by
  induction l with
  | nil => rfl
  | cons c l ih => cases c <;> grind [isOpen, closedSince]

/-- What epoll can deliver: events on descriptors in its interest list, those
assigned to the worker and not closed since. -/
def Delivered (w : Worker) : Event → Prop
  | .epoll _ _ fd => isOpen w.log fd = true
  | _ => True

/-- The event does not close a closed descriptor. -/
def ClosesOnce (cfg : Config) (w : Worker) : Event → Prop
  | .assign _ => True
  | .epoll kind io fd =>
      kind = .read → io.hook.passes = true → mkSessionGet w fd = none →
        mkSchedGetConnection w.sched fd = none → io.stage10Close = true →
        io.rejectHook.passes = true → io.closeHook.passes = false
  | .checkTimeouts now =>
      ∀ cs ∈ w.sessions, sessionExpired cfg now cs = true →
        closedSince w.log cs.socket = false ∧
          ∀ sc ∈ w.sched.busyQueue, sc.socket = cs.socket → connExpired cfg now sc = false

instance (w : Worker) : (e : Event) → Decidable (Delivered w e)
  | .assign _ => inferInstanceAs (Decidable True)
  | .epoll _ _ fd => inferInstanceAs (Decidable (isOpen w.log fd = true))
  | .checkTimeouts _ => inferInstanceAs (Decidable True)

instance (cfg : Config) (w : Worker) : (e : Event) → Decidable (ClosesOnce cfg w e)
  | .assign _ => inferInstanceAs (Decidable True)
  | .epoll kind io fd => inferInstanceAs (Decidable
      (kind = .read → io.hook.passes = true → mkSessionGet w fd = none →
        mkSchedGetConnection w.sched fd = none → io.stage10Close = true →
        io.rejectHook.passes = true → io.closeHook.passes = false))
  | .checkTimeouts now => inferInstanceAs (Decidable
      (∀ cs ∈ w.sessions, sessionExpired cfg now cs = true →
        closedSince w.log cs.socket = false ∧
          ∀ sc ∈ w.sched.busyQueue, sc.socket = cs.socket → connExpired cfg now sc = false))

/-! ## the operations -/

/-- A removal is one more `close(2)`. -/
theorem mkSchedRemoveClient_closedOnce (w : Worker) (fd : Int) :
    ClosedOnce (mkSchedRemoveClient w fd).2.log ↔
      closedSince w.log fd = false ∧ ClosedOnce w.log := by
  rw [mkSchedRemoveClient_log]
  split <;> simp [ClosedOnce]

@[simp] theorem mkSchedRemoveClient_closedSince (w : Worker) (fd x : Int) :
    closedSince (mkSchedRemoveClient w fd).2.log x = (fd == x || closedSince w.log x) := by
  rw [mkSchedRemoveClient_log]
  split <;> simp [closedSince]

/-- A series of closes, one descriptor after the other, written by `f`. -/
theorem foldl_closedOnce {f : Worker → Int → Worker}
    (honce : ∀ w fd, ClosedOnce (f w fd).log ↔ closedSince w.log fd = false ∧ ClosedOnce w.log)
    (hsince : ∀ w fd x, closedSince (f w fd).log x = (fd == x || closedSince w.log x))
    (fds : List Int) (w : Worker) :
    ClosedOnce (fds.foldl f w).log ↔
      ClosedOnce w.log ∧ fds.Nodup ∧ ∀ fd ∈ fds, closedSince w.log fd = false := by
  induction fds generalizing w with
  | nil => simp
  | cons fd fds ih =>
      rw [List.foldl_cons, ih, honce, List.nodup_cons]
      simp only [hsince, Bool.or_eq_false_iff, beq_eq_false_iff_ne, List.mem_cons, forall_eq_or_imp]
      constructor
      · rintro ⟨⟨hfd, honce'⟩, hnodup, hall⟩
        exact ⟨honce', ⟨fun hmem => (hall fd hmem).1 rfl, hnodup⟩, hfd, fun x hx => (hall x hx).2⟩
      · rintro ⟨honce', ⟨hnew, hnodup⟩, hfd, hall⟩
        exact ⟨⟨hfd, honce'⟩, hnodup, fun x hx => ⟨fun he => hnew (he ▸ hx), hall x hx⟩⟩

/-- What is closed after the series. -/
theorem foldl_closedSince {f : Worker → Int → Worker}
    (hsince : ∀ w fd x, closedSince (f w fd).log x = (fd == x || closedSince w.log x))
    (fds : List Int) (w : Worker) (x : Int) :
    closedSince (fds.foldl f w).log x = (decide (x ∈ fds) || closedSince w.log x) := by
  induction fds generalizing w with
  | nil => simp
  | cons fd fds ih =>
      rw [List.foldl_cons, ih, hsince]
      by_cases hx : x = fd
      · simp [hx]
      · have hne : (fd == x) = false := by simpa using Ne.symm hx
        simp [hx, hne]

theorem dropClient_log (w : Worker) (fd : Int) :
    (dropClient w fd).log = (mkSchedRemoveClient w fd).2.log := rfl

/-- The closes of a timeout check. -/
theorem mkSchedCheckTimeouts_closedOnce (cfg : Config) (now : Int) (w : Worker) :
    ClosedOnce (mkSchedCheckTimeouts cfg now w).log ↔
      (ClosedOnce w.log ∧ (expiredConns cfg now w).Nodup ∧
        ∀ fd ∈ expiredConns cfg now w, closedSince w.log fd = false) ∧
      (expiredSessions cfg now w).Nodup ∧
        ∀ fd ∈ expiredSessions cfg now w,
          fd ∉ expiredConns cfg now w ∧ closedSince w.log fd = false := by
  have honce := fun (w : Worker) (fd : Int) => mkSchedRemoveClient_closedOnce w fd
  have hsince := fun (w : Worker) (fd x : Int) => mkSchedRemoveClient_closedSince w fd x
  rw [mkSchedCheckTimeouts, checkSessions_eq, expiredSessions_checkPending,
    foldl_closedOnce (fun w fd => dropClient_log w fd ▸ honce w fd)
      (fun w fd x => dropClient_log w fd ▸ hsince w fd x),
    checkPending_eq, foldl_closedOnce honce hsince]
  simp only [foldl_closedSince hsince, Bool.or_eq_false_iff, decide_eq_false_iff_not]

/-- What is closed after a timeout check. -/
theorem mkSchedCheckTimeouts_closedSince (cfg : Config) (now : Int) (w : Worker) (x : Int) :
    closedSince (mkSchedCheckTimeouts cfg now w).log x =
      (decide (x ∈ expiredSessions cfg now w) ||
        (decide (x ∈ expiredConns cfg now w) || closedSince w.log x)) := by
  have hsince := fun (w : Worker) (fd x : Int) => mkSchedRemoveClient_closedSince w fd x
  rw [mkSchedCheckTimeouts, checkSessions_eq, expiredSessions_checkPending,
    foldl_closedSince (fun w fd x => dropClient_log w fd ▸ hsince w fd x), checkPending_eq,
    foldl_closedSince hsince]

/-! ## one step -/

/-- The invariant: no descriptor closed twice, and the busy ones are open. -/
structure Closes (w : Worker) : Prop extends Distinct w where
  once : ClosedOnce w.log
  busy_open : ∀ fd ∈ w.sched.busyFds, closedSince w.log fd = false

theorem Kept.closedOnce {fd : Int} {w v : Worker} (h : Kept fd w v) :
    (ClosedOnce v.log ↔ ClosedOnce w.log) ∧ ∀ x, closedSince v.log x = closedSince w.log x := by
  rcases h.log with hlog | ⟨out, hlog⟩ <;> simp [hlog, ClosedOnce, closedSince]

theorem Ended.closedOnce {refused : Prop} {fd : Int} {w v : Worker} (h : Ended refused fd w v) :
    (ClosedOnce v.log ↔ ClosedOnce w.log) ∧ ∀ x, closedSince v.log x = closedSince w.log x := by
  rcases h.log with hlog | ⟨out, hlog⟩ | ⟨_, out, hlog⟩ <;> simp [hlog, ClosedOnce, closedSince]

/-- Closing an open descriptor. -/
theorem Closes.close {w : Worker} {hook : EventRet} {fd : Int} (h : Closes w)
    (hfd : hook.passes = true → closedSince w.log fd = false) : Closes (mkConnClose hook fd w).2 := by
  refine ⟨h.toDistinct.close, ?_, ?_⟩
  all_goals rw [mkConnClose_eq]
  all_goals split
  · next hpass => exact (mkSchedRemoveClient_closedOnce w fd).mpr ⟨hfd hpass, h.once⟩
  · exact h.once
  · intro fd' hfd'
    simp only [mkSchedRemoveClient_sched, schedRelease_busyFds] at hfd'
    obtain ⟨hne, hmem⟩ := h.busy.mem_erase_iff.mp hfd'
    simpa [Ne.symm hne] using h.busy_open fd' hmem
  · exact h.busy_open

/-- A handler on an open descriptor keeps the invariant. -/
theorem Closes.outcome {cfg : Config} {kind : EpollKind} {io : EventIo} {fd : Int}
    {w : Worker} {r : Int × Worker} (h : Closes w) (hfd : closedSince w.log fd = false)
    (ho : Outcome cfg kind io fd w r) : Closes r.2 := by
  have hdistinct := h.toDistinct.outcome ho
  cases ho with
  | owned => exact h
  | hookClosed hook => exact h
  | registered hkind hook hsession hslot hstage htake =>
      refine ⟨hdistinct, h.once, fun fd' hfd' => ?_⟩
      rw [schedTake_busyFds htake, List.mem_append, List.mem_singleton] at hfd'
      rcases hfd' with hfd' | rfl
      · exact h.busy_open fd' hfd'
      · exact hfd
  | rejected hkind hook hsession hslot hstage => exact h.close fun _ => hfd
  | handled hkind hook hh =>
      cases hh with
      | kept hret hk =>
          obtain ⟨honce, hsince⟩ := hk.closedOnce
          refine ⟨hdistinct, honce.mpr h.once, fun fd' hfd' => ?_⟩
          rw [hsince]
          exact h.busy_open fd' (hk.sched.busyFds ▸ hfd')
      | ended he =>
          obtain ⟨honce, hsince⟩ := he.closedOnce
          refine ⟨hdistinct, honce.mpr h.once, fun fd' hfd' => ?_⟩
          rw [hsince]
          exact h.busy_open fd' (he.sched.busyFds ▸ hfd')
  | errored hkind hook =>
      refine ⟨hdistinct, ?_, fun fd' hfd' => ?_⟩
      · rw [dropClient_log]
        exact (mkSchedRemoveClient_closedOnce w fd).mpr ⟨hfd, h.once⟩
      · simp only [dropClient_sched, schedRelease_busyFds] at hfd'
        obtain ⟨hne, hmem⟩ := h.busy.mem_erase_iff.mp hfd'
        simpa [dropClient_log, Ne.symm hne] using h.busy_open fd' hmem

/-- A handler that makes the loop close has left the descriptor open, unless it
has rejected the connection itself. -/
theorem Outcome.still_open {cfg : Config} {kind : EpollKind} {io : EventIo} {fd : Int}
    {w : Worker} {r : Int × Worker} (ho : Outcome cfg kind io fd w r)
    (hfd : closedSince w.log fd = false) (hret : r.1 < 0)
    (hkeep : ClosesOnce cfg w (.epoll kind io fd)) (hclose : io.closeHook.passes = true) :
    closedSince r.2.log fd = false := by
  cases ho with
  | owned => contradiction
  | hookClosed hook => exact hfd
  | registered hkind hook hsession hslot hstage htake => contradiction
  | rejected hkind hook hsession hslot hstage =>
      have hno := hkeep hkind hook (mkSessionGet_eq_none.mpr hsession)
        (mkSchedGetConnection_eq_none.mpr hslot) hstage
      have hreject : io.rejectHook.passes = false := by
        by_contra hpass
        simp [hno (by simpa using hpass)] at hclose
      simpa [mkConnClose_eq, hreject] using hfd
  | handled hkind hook hh =>
      cases hh with
      | kept hpos hk => omega
      | ended he => exact (he.closedOnce.2 fd).trans hfd
  | errored hkind hook => contradiction

/-- The first loop closes busy, open descriptors, each once. -/
theorem Closes.expiredConns {w : Worker} (h : Closes w) (cfg : Config) (now : Int) :
    (expiredConns cfg now w).Nodup ∧
      ∀ fd ∈ Monkey.expiredConns cfg now w, closedSince w.log fd = false := by
  refine ⟨h.busy.sublist (List.filter_sublist.map _), fun fd hfd => h.busy_open fd ?_⟩
  obtain ⟨sc, hsc, rfl⟩ := List.mem_map.mp hfd
  exact List.mem_map_of_mem (List.mem_of_mem_filter hsc)

theorem Distinct.expiredSessions_nodup {w : Worker} (h : Distinct w) (cfg : Config) (now : Int) :
    (expiredSessions cfg now w).Nodup :=
  h.sessions.sublist (List.filter_sublist.map _)

theorem Closes.timeouts {cfg : Config} {now : Int} {w : Worker} (h : Closes w)
    (hkeep : ClosesOnce cfg w (.checkTimeouts now)) : Closes (mkSchedCheckTimeouts cfg now w) := by
  refine ⟨h.toDistinct.timeouts, ?_, fun fd hfd => ?_⟩
  · rw [mkSchedCheckTimeouts_closedOnce]
    refine ⟨⟨h.once, h.expiredConns cfg now⟩, h.toDistinct.expiredSessions_nodup cfg now, ?_⟩
    intro fd hfd
    obtain ⟨cs, hcs, rfl⟩ := List.mem_map.mp hfd
    obtain ⟨hmem, hexp⟩ := List.mem_filter.mp hcs
    obtain ⟨hopen, hslots⟩ := hkeep cs hmem hexp
    refine ⟨?_, hopen⟩
    intro hconn
    obtain ⟨sc, hsc, hsock⟩ := List.mem_map.mp hconn
    obtain ⟨hscmem, hscexp⟩ := List.mem_filter.mp hsc
    simp [hslots sc hscmem hsock] at hscexp
  · rw [mkSchedCheckTimeouts_busyFds h.busy, List.mem_filter] at hfd
    obtain ⟨hmem, hnot⟩ := hfd
    simp only [Bool.and_eq_true, decide_eq_true_eq] at hnot
    rw [mkSchedCheckTimeouts_closedSince]
    simp [hnot.1, hnot.2, h.busy_open fd hmem]

/-- **Step lemma.** -/
theorem Closes.step {cfg : Config} {w w' : Worker} {e : Event} (h : Closes w)
    (hkeep : ClosesOnce cfg w e) (hstep : Guarded Delivered (Worker.Step cfg) w e w') :
    Closes w' := by
  obtain ⟨hdel, hstep⟩ := hstep
  cases e with
  | assign fd =>
      cases hstep
      refine ⟨⟨h.busy, h.sessions⟩, h.once, fun fd' hfd' => ?_⟩
      simp [Worker.assign, closedSince, h.busy_open fd' hfd']
  | epoll kind io fd =>
      have hfd := closedSince_of_isOpen hdel
      obtain ⟨r, ho, rfl⟩ := mkEpollEvent_outcome hstep
      split
      · next hret => exact (h.outcome hfd ho).close fun hclose => ho.still_open hfd hret hkeep hclose
      · exact h.outcome hfd ho
  | checkTimeouts now =>
      cases hstep
      exact h.timeouts hkeep

theorem Closes.init (cfg : Config) : Closes (Worker.init cfg) :=
  ⟨.init cfg, trivial, fun _ hfd => absurd hfd List.not_mem_nil⟩

/-! ## the exact condition -/

/-- A step after which no descriptor has been closed twice. -/
theorem closesOnce_of_step {cfg : Config} {w w' : Worker} {e : Event}
    (hstep : Guarded Delivered (Worker.Step cfg) w e w') (honce : ClosedOnce w'.log) :
    ClosesOnce cfg w e := by
  obtain ⟨hdel, hstep⟩ := hstep
  cases e with
  | assign fd => trivial
  | epoll kind io fd =>
      rintro rfl hook hsession hslot hstage hreject
      by_contra hclose
      rw [Bool.not_eq_false] at hclose
      have hw' : w' = (mkSchedRemoveClient (mkSchedRemoveClient w fd).2 fd).2 := by
        have hs : mkEpollEvent cfg .read io fd w = some w' := hstep
        rw [mkEpollEvent, EpollKind.handler, mkConnRead, behindHook_passes hook, mkConnReadCore,
          hsession, hslot] at hs
        simp only [mkSchedRegisterClient, hstage] at hs
        split at hs
        · contradiction
        · simpa [mkConnClose_eq, hreject, hclose] using hs.symm
      subst hw'
      have := (mkSchedRemoveClient_closedOnce _ fd).mp honce
      simp at this
  | checkTimeouts now =>
      cases hstep
      obtain ⟨_, _, hsessions⟩ := (mkSchedCheckTimeouts_closedOnce cfg now w).mp honce
      intro cs hcs hexp
      obtain ⟨hconn, hopen⟩ :=
        hsessions cs.socket (List.mem_map_of_mem (List.mem_filter.mpr ⟨hcs, hexp⟩))
      refine ⟨hopen, fun sc hsc hsock => ?_⟩
      by_contra hscexp
      refine hconn (hsock ▸ List.mem_map_of_mem (List.mem_filter.mpr ⟨hsc, ?_⟩))
      simpa using hscexp

/-- **Closes**: in a run of a worker no descriptor is closed again before it is
assigned again if and only if every step meets `ClosesOnce`. -/
theorem closed_once_iff {cfg : Config} {es : List Event} {w : Worker}
    (h : Run (Guarded Delivered (Worker.Step cfg)) (Worker.init cfg) es w) :
    (∀ es' w', es' <+: es → Run (Guarded Delivered (Worker.Step cfg)) (Worker.init cfg) es' w' →
      ClosedOnce w'.log) ↔
      Run (Guarded (ClosesOnce cfg) (Guarded Delivered (Worker.Step cfg))) (Worker.init cfg) es w :=
  Run.always_iff_guarded
    (fun _ _ _ _ h₁ h₂ => Worker.Step.deterministic _ _ _ _ h₁.2 h₂.2)
    (fun _ _ _ hi hp hs => hi.step hp hs) (fun _ hi => hi.once)
    (fun _ _ _ _ hs hq => closesOnce_of_step hs hq) (Closes.init cfg) h

/- A descriptor number used by two connections, the first of which times out
before it has sent anything. -/

/-- The events of the two connections. -/
def numberUsedTwice : List Event :=
  [.assign 5, .epoll .read { now := 0, sys := sampleSys } 5, .checkTimeouts 15,
    .assign 5, .epoll .read { now := 16, sys := sampleSys } 5,
    .epoll .read { now := 16, read := .eof, sys := sampleSys } 5]

theorem closed_once_numberUsedTwice :
    ∃ w, Run (Guarded Delivered (Worker.Step sampleConfig)) (Worker.init sampleConfig)
        numberUsedTwice w ∧
      ∀ es' w', es' <+: numberUsedTwice →
        Run (Guarded Delivered (Worker.Step sampleConfig)) (Worker.init sampleConfig) es' w' →
        ClosedOnce w'.log := by
  have hrun : Run (Guarded (ClosesOnce sampleConfig) (Guarded Delivered (Worker.Step sampleConfig)))
      (Worker.init sampleConfig) numberUsedTwice _ :=
    Run.guarded_guarded_of_foldlM rfl
  exact ⟨_, hrun.of_guarded, (closed_once_iff hrun.of_guarded).mpr hrun⟩

/- A connection that STAGE_10 rejects. -/

/-- The rejected connection is closed by the registration and by the loop. -/
theorem rejected_closed_twice :
    ¬ ∀ (cfg : Config) (es : List Event) (w : Worker),
      Run (Guarded Delivered (Worker.Step cfg)) (Worker.init cfg) es w → ClosedOnce w.log := by
  intro hall
  have hrun : Run (Guarded Delivered (Worker.Step sampleConfig)) (Worker.init sampleConfig)
      [.assign 5, .epoll .read { stage10Close := true, now := 0, sys := sampleSys } 5] _ :=
    Run.guarded_of_foldlM rfl
  have honce := hall _ _ _ hrun
  have htwice : ¬ ClosedOnce [.close 5, .close 5, .assigned 5] := by
    simp [ClosedOnce, closedSince]
  exact htwice honce

end Monkey
