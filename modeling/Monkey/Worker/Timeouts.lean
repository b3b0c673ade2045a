import Monkey.Lib.Run
import Monkey.Worker.Queues

/-!
# Monkey.Worker.Timeouts

The deadlines of a worker over whole runs of the `mk_epoll_init` loop: when the loop
calls `mk_sched_check_timeouts`, and which connections that removes.  Every deadline is
the sum of a `time_t` and an `int` kept in an `int`.

The clock (`log_current_utime`) is set by another thread; it is read once in a turn of
the loop and may show anything.
-/

namespace Monkey

/-! ## the loop -/

/-- A descriptor the listener assigns, or an event of the epoll set. -/
inductive LoopEvent
  | assign (fd : Int)
  | epoll (kind : EpollKind) (io : EventIo) (fd : Int)

def LoopEvent.event : LoopEvent → Event
  | .assign fd => .assign fd
  | .epoll kind io fd => .epoll kind io fd

/-- One turn of the `while` loop of `mk_epoll_init`: its events, and the clock after
them. -/
structure LoopTurn where
  events : List LoopEvent
  now : Int

/-- The worker, the `int` deadline of the next check, and the time the last one was
made or the loop was entered. -/
structure EventLoop where
  worker : Worker
  fdsTimeout : Int
  lastCheck : Int

/-- `mk_epoll_init` up to its loop. -/
def mkEpollInit (cfg : Config) (now : Int) (w : Worker) : EventLoop where
  worker := w
  fdsTimeout := toInt (now + cfg.timeout)
  lastCheck := now

/-- The events of a turn. -/
def LoopTurn.dispatch (cfg : Config) (turn : LoopTurn) (w : Worker) : Option Worker :=
  turn.events.foldlM (fun w e => w.step cfg e.event) w

/-- The turn ends with a check. -/
def LoopTurn.checks (turn : LoopTurn) (loop : EventLoop) : Bool :=
  decide (turn.now ≥ loop.fdsTimeout)

/-- A turn of the loop. -/
def EventLoop.step (cfg : Config) (loop : EventLoop) (turn : LoopTurn) : Option EventLoop :=
  (turn.dispatch cfg loop.worker).map fun w =>
    if turn.checks loop = true then mkEpollInit cfg turn.now (mkSchedCheckTimeouts cfg turn.now w)
    else { loop with worker := w }

def EventLoop.Step (cfg : Config) (loop : EventLoop) (turn : LoopTurn) (loop' : EventLoop) : Prop :=
  loop.step cfg turn = some loop'

/-! ## deadlines -/

/-- The timeout that applies to a session. -/
def sessionTimeout (cfg : Config) (cs : ClientSession) : Int :=
  if cs.counterConnections = 0 then cfg.timeout else cfg.keepAliveTimeout

/-- A pending connection of the descriptor is over. -/
def PendingOver (cfg : Config) (now : Int) (w : Worker) (fd : Int) : Prop :=
  ∃ sc ∈ w.sched.busyQueue, sc.socket = fd ∧ sc.status = .pending ∧
    now ≥ sc.arriveTime + cfg.timeout

/-- An incomplete session of the descriptor is over. -/
def SessionOver (cfg : Config) (now : Int) (w : Worker) (fd : Int) : Prop :=
  ∃ cs ∈ w.sessions, cs.socket = fd ∧ cs.status = .incomplete ∧
    now ≥ cs.initTime + sessionTimeout cfg cs

/-- A check that removes in its first loop only pending connections that are over, and
in its second loop only connections and sessions of incomplete sessions that are over. -/
def RemovesOver (cfg : Config) (now : Int) (w : Worker) : Prop :=
  ∀ fd,
    (fd ∈ w.sched.busyFds → fd ∉ (checkPending cfg now w).sched.busyFds → PendingOver cfg now w fd) ∧
    (fd ∈ (checkPending cfg now w).sched.busyFds →
      fd ∉ (mkSchedCheckTimeouts cfg now w).sched.busyFds → SessionOver cfg now w fd) ∧
    (fd ∈ w.sessionFds → fd ∉ (mkSchedCheckTimeouts cfg now w).sessionFds → SessionOver cfg now w fd)

/-- A turn that checks when it is time to, and removes only what is over. -/
def OnTime (cfg : Config) (loop : EventLoop) (turn : LoopTurn) : Prop :=
  (turn.now ≥ loop.lastCheck + cfg.timeout → turn.checks loop = true) ∧
  ∀ w, turn.dispatch cfg loop.worker = some w → turn.checks loop = true → RemovesOver cfg turn.now w

/-- The deadlines of a turn stay in the range of `int`: that of the next check does not
fall below it, and those of the connections that are checked do not exceed it. -/
def DeadlinesFit (cfg : Config) (loop : EventLoop) (turn : LoopTurn) : Prop :=
  -2 ^ 31 ≤ loop.lastCheck + cfg.timeout ∧
  ∀ w, turn.dispatch cfg loop.worker = some w → turn.checks loop = true →
    (∀ sc ∈ w.sched.busyQueue, sc.status = .pending → sc.arriveTime + cfg.timeout < 2 ^ 31) ∧
    ∀ cs ∈ w.sessions, cs.status = .incomplete → cs.initTime + sessionTimeout cfg cs < 2 ^ 31

/-- The first loop removes what is over. -/
theorem pendingOver_of_expired {cfg : Config} {now : Int} {w : Worker} {fd : Int}
    (hfit : ∀ sc ∈ w.sched.busyQueue, sc.status = .pending → sc.arriveTime + cfg.timeout < 2 ^ 31)
    (h : fd ∈ expiredConns cfg now w) : PendingOver cfg now w fd := by
  obtain ⟨sc, hsc, rfl⟩ := List.mem_map.mp h
  obtain ⟨hmem, hexpired⟩ := List.mem_filter.mp hsc
  obtain ⟨hpending, htime⟩ := Bool.and_eq_true_iff.mp hexpired
  have hstatus : sc.status = .pending := by simpa using hpending
  refine ⟨sc, hmem, rfl, hstatus, (le_toInt (hfit sc hmem hstatus)).trans ?_⟩
  exact of_decide_eq_true htime

/-- The second loop removes what is over. -/
theorem sessionOver_of_expired {cfg : Config} {now : Int} {w : Worker} {fd : Int}
    (hfit : ∀ cs ∈ w.sessions, cs.status = .incomplete → cs.initTime + sessionTimeout cfg cs < 2 ^ 31)
    (h : fd ∈ expiredSessions cfg now w) : SessionOver cfg now w fd := by
  obtain ⟨cs, hcs, rfl⟩ := List.mem_map.mp h
  obtain ⟨hmem, hexpired⟩ := List.mem_filter.mp hcs
  obtain ⟨hincomplete, htime⟩ := Bool.and_eq_true_iff.mp hexpired
  have hstatus : cs.status = .incomplete := by simpa using hincomplete
  refine ⟨cs, hmem, rfl, hstatus, (le_toInt (hfit cs hmem hstatus)).trans ?_⟩
  exact of_decide_eq_true htime

/-- A check of connections whose deadlines fit. -/
theorem removesOver_of_fit {cfg : Config} {now : Int} {w : Worker}
    (hconns : ∀ sc ∈ w.sched.busyQueue, sc.status = .pending → sc.arriveTime + cfg.timeout < 2 ^ 31)
    (hsessions : ∀ cs ∈ w.sessions, cs.status = .incomplete →
      cs.initTime + sessionTimeout cfg cs < 2 ^ 31) : RemovesOver cfg now w := by
  intro fd
  refine ⟨fun hbusy hgone => ?_, fun hbusy hgone => ?_, fun hsession hgone => ?_⟩
  · rw [checkPending_eq, foldl_remove_busyFds] at hgone
    exact pendingOver_of_expired hconns (mem_of_not_mem_foldl_erase hbusy hgone)
  · rw [mkSchedCheckTimeouts, checkSessions_eq, foldl_drop_busyFds, expiredSessions_checkPending]
      at hgone
    exact sessionOver_of_expired hsessions (mem_of_not_mem_foldl_erase hbusy hgone)
  · rw [mkSchedCheckTimeouts, checkSessions_eq, foldl_drop_sessionFds, expiredSessions_checkPending]
      at hgone
    refine sessionOver_of_expired hsessions (mem_of_not_mem_foldl_erase ?_ hgone)
    simpa [Worker.sessionFds] using hsession

/-- The loop keeps the deadline of its last check. -/
theorem EventLoop.step_fdsTimeout {cfg : Config} {loop loop' : EventLoop} {turn : LoopTurn}
    (h : loop.fdsTimeout = toInt (loop.lastCheck + cfg.timeout)) (hstep : loop.Step cfg turn loop') :
    loop'.fdsTimeout = toInt (loop'.lastCheck + cfg.timeout) := by
  obtain ⟨w, -, rfl⟩ := Option.map_eq_some_iff.mp hstep
  split
  · rfl
  · exact h

/-- In every run of the loop whose deadlines fit, every turn is on time. -/
theorem timeouts_on_time {cfg : Config} {start : Int} {w : Worker} {turns : List LoopTurn}
    {loop loop' : EventLoop} {turn : LoopTurn}
    (h : Run (Guarded (DeadlinesFit cfg) (EventLoop.Step cfg)) (mkEpollInit cfg start w) turns loop)
    (hturn : Guarded (DeadlinesFit cfg) (EventLoop.Step cfg) loop turn loop') :
    OnTime cfg loop turn := by
  have hdeadline : loop.fdsTimeout = toInt (loop.lastCheck + cfg.timeout) :=
    h.guarded_invariant (I := fun loop => loop.fdsTimeout = toInt (loop.lastCheck + cfg.timeout))
      (fun _ _ _ hs _ hstep => EventLoop.step_fdsTimeout hs hstep) rfl
  obtain ⟨⟨hcheck, hfit⟩, -⟩ := hturn
  refine ⟨fun hdue => decide_eq_true ?_, fun w hw hchecks => ?_⟩
  · rw [hdeadline]
    exact (toInt_le hcheck).trans hdue
  · obtain ⟨hconns, hsessions⟩ := hfit w hw hchecks
    exact removesOver_of_fit hconns hsessions

/-- A turn in which a client connects. -/
def connectTurn (now : Int) : LoopTurn :=
  ⟨[.assign 5, .epoll .read { now := now, sys := sampleSys } 5], now⟩

/-- A client that sends nothing for fifteen seconds. -/
theorem timeouts_on_time_silent_client :
    ∃ loop loop', Run (Guarded (DeadlinesFit sampleConfig) (EventLoop.Step sampleConfig))
        (mkEpollInit sampleConfig 0 (Worker.init sampleConfig)) [connectTurn 1] loop ∧
      Guarded (DeadlinesFit sampleConfig) (EventLoop.Step sampleConfig) loop ⟨[], 16⟩ loop' ∧
      loop'.worker.sched.busyFds = [] ∧ OnTime sampleConfig loop ⟨[], 16⟩ := by
  have hrun : ∃ loop loop', Run (Guarded (DeadlinesFit sampleConfig) (EventLoop.Step sampleConfig))
        (mkEpollInit sampleConfig 0 (Worker.init sampleConfig)) [connectTurn 1] loop ∧
      Guarded (DeadlinesFit sampleConfig) (EventLoop.Step sampleConfig) loop ⟨[], 16⟩ loop' ∧
      loop'.worker.sched.busyFds = [] := by
    refine ⟨_, _, .cons ⟨⟨by decide, ?_⟩, rfl⟩ (.nil _), ⟨⟨by decide, ?_⟩, rfl⟩, by decide⟩
    · intro w _ hchecks
      exact absurd hchecks (by decide)
    · intro w hw _
      obtain rfl := Option.some.inj hw
      decide
  obtain ⟨loop, loop', hrun, hturn, hbusy⟩ := hrun
  exact ⟨loop, loop', hrun, hturn, hbusy, timeouts_on_time hrun hturn⟩

/-- Ten seconds before the clock passes `2 ^ 31`, a client is removed in the turn in
which it connects. -/
theorem timeout_wraps :
    ¬ ∀ (cfg : Config) (start : Int) (w : Worker) (turns : List LoopTurn)
      (loop loop' : EventLoop) (turn : LoopTurn),
      Run (EventLoop.Step cfg) (mkEpollInit cfg start w) turns loop → loop.Step cfg turn loop' →
      OnTime cfg loop turn := by
  intro h
  obtain ⟨w, hw, hconns, hbusy⟩ : ∃ w, (connectTurn (2 ^ 31 - 10)).dispatch sampleConfig
      (Worker.init sampleConfig) = some w ∧
      w.sched.busyQueue = [⟨0, 5, .pending, 2 ^ 31 - 10⟩] ∧
      (checkPending sampleConfig (2 ^ 31 - 10) w).sched.busyFds = [] :=
    ⟨_, rfl, by decide, by decide⟩
  obtain ⟨-, hremoves⟩ := h sampleConfig (2 ^ 31 - 100) (Worker.init sampleConfig) [] _ _
    (connectTurn (2 ^ 31 - 10)) (.nil _) rfl
  obtain ⟨hpending, -⟩ := hremoves w hw (by decide) 5
  have hgone : (5 : Int) ∉ (checkPending sampleConfig (2 ^ 31 - 10) w).sched.busyFds := by
    rw [hbusy]
    exact List.not_mem_nil
  obtain ⟨sc, hsc, -, -, hover⟩ := hpending (by simp [SchedListNode.busyFds, hconns]) hgone
  rw [hconns, List.mem_singleton] at hsc
  subst hsc
  simp [connectTurn, sampleConfig] at hover

end Monkey
