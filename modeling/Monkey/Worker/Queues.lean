import Monkey.Lib.Keyed
import Monkey.Connection

/-!
# Monkey.Worker.Queues

What the worker's operations do to the descriptors of its busy queue
(`busyFds`), to those of its sessions (`sessionFds`) and to its log.  Everything
proved about whole runs is proved from these equations.
-/

namespace Monkey

/-- The descriptors held by busy slots. -/
def SchedListNode.busyFds (node : SchedListNode) : List Int := node.busyQueue.map (·.socket)

/-- The descriptors of the sessions. -/
def Worker.sessionFds (w : Worker) : List Int := w.sessions.map (·.socket)

/-- The hook lets the core go on. -/
def EventRet.passes : EventRet → Bool
  | .owned => false
  | .close => false
  | _ => true

/-! ## lookups -/

theorem mkSchedGetConnection_eq_none {node : SchedListNode} {fd : Int} :
    mkSchedGetConnection node fd = none ↔ fd ∉ node.busyFds :=
  find?_key_eq_none

theorem mkSchedGetConnection_eq_some {node : SchedListNode} {fd : Int} {sc : SchedConnection}
    (h : mkSchedGetConnection node fd = some sc) : sc ∈ node.busyQueue ∧ sc.socket = fd :=
  find?_key_eq_some h

theorem mem_busyFds_of_get {node : SchedListNode} {fd : Int} {sc : SchedConnection}
    (h : mkSchedGetConnection node fd = some sc) : fd ∈ node.busyFds := by
  obtain ⟨hmem, rfl⟩ := mkSchedGetConnection_eq_some h
  exact List.mem_map_of_mem hmem

theorem mkSessionGet_eq_none {w : Worker} {fd : Int} :
    mkSessionGet w fd = none ↔ fd ∉ w.sessionFds :=
  find?_key_eq_none

theorem mkSessionGet_eq_some {w : Worker} {fd : Int} {cs : ClientSession}
    (h : mkSessionGet w fd = some cs) : cs ∈ w.sessions ∧ cs.socket = fd :=
  find?_key_eq_some h

theorem mem_sessionFds_of_get {w : Worker} {fd : Int} {cs : ClientSession}
    (h : mkSessionGet w fd = some cs) : fd ∈ w.sessionFds := by
  obtain ⟨hmem, rfl⟩ := mkSessionGet_eq_some h
  exact List.mem_map_of_mem hmem

/-! ## the scheduler node -/

/-- A slot taken for `fd` puts `fd` last in the busy queue. -/
theorem schedTake_busyFds {node node' : SchedListNode} {fd now : Int}
    (h : schedTake node fd now = some node') : node'.busyFds = node.busyFds ++ [fd] := by
  unfold schedTake at h
  split at h
  · contradiction
  · simp only [Option.some.injEq] at h
    subst h
    simp [SchedListNode.busyFds]

@[simp] theorem schedRelease_busyFds (node : SchedListNode) (fd : Int) :
    (schedRelease node fd).busyFds = node.busyFds.erase fd := by
  unfold schedRelease
  split
  · next h => rw [List.erase_of_not_mem (mkSchedGetConnection_eq_none.mp h)]
  · exact map_eraseP_key

/-- A status change keeps whatever it does not write. -/
theorem mkSchedUpdateConnStatus_map {β : Type*} {f : SchedConnection → β}
    (hf : ∀ sc status, f { sc with status := status } = f sc) (node : SchedListNode) (fd : Int)
    (status : ConnStatus) :
    (mkSchedUpdateConnStatus node fd status).2.busyQueue.map f = node.busyQueue.map f := by
  unfold mkSchedUpdateConnStatus
  split
  · rfl
  · apply map_replaceF_key
    intro x y hxy
    split at hxy
    · simp only [Option.some.injEq] at hxy
      exact hxy ▸ hf x status
    · contradiction

@[simp] theorem mkSchedUpdateConnStatus_busyFds (node : SchedListNode) (fd : Int)
    (status : ConnStatus) : (mkSchedUpdateConnStatus node fd status).2.busyFds = node.busyFds :=
  mkSchedUpdateConnStatus_map (fun _ _ => rfl) node fd status

/-! ## the worker -/

@[simp] theorem mkSchedRemoveClient_sched (w : Worker) (fd : Int) :
    (mkSchedRemoveClient w fd).2.sched = schedRelease w.sched fd := by
  unfold mkSchedRemoveClient schedRelease
  split <;> rfl

@[simp] theorem mkSchedRemoveClient_sessions (w : Worker) (fd : Int) :
    (mkSchedRemoveClient w fd).2.sessions = w.sessions := by
  unfold mkSchedRemoveClient
  split <;> rfl

@[simp] theorem mkSchedRemoveClient_sessionFds (w : Worker) (fd : Int) :
    (mkSchedRemoveClient w fd).2.sessionFds = w.sessionFds := by
  simp [Worker.sessionFds]

/-- A removal closes the descriptor; STAGE_50 and the release follow when a slot
held it. -/
theorem mkSchedRemoveClient_log (w : Worker) (fd : Int) :
    (mkSchedRemoveClient w fd).2.log =
      if fd ∈ w.sched.busyFds then .released fd :: .stage50 fd :: .close fd :: w.log
      else .close fd :: w.log := by
  unfold mkSchedRemoveClient
  split
  · next h => rw [if_neg (mkSchedGetConnection_eq_none.mp h)]
  · next h => rw [if_pos (mem_busyFds_of_get h)]

@[simp] theorem mkSessionRemove_sched (w : Worker) (fd : Int) :
    (mkSessionRemove w fd).sched = w.sched := rfl

@[simp] theorem mkSessionRemove_log (w : Worker) (fd : Int) :
    (mkSessionRemove w fd).log = w.log := rfl

@[simp] theorem mkSessionRemove_sessionFds (w : Worker) (fd : Int) :
    (mkSessionRemove w fd).sessionFds = w.sessionFds.erase fd :=
  map_eraseP_key

@[simp] theorem setSession_sched (w : Worker) (cs : ClientSession) :
    (w.setSession cs).sched = w.sched := rfl

@[simp] theorem setSession_log (w : Worker) (cs : ClientSession) :
    (w.setSession cs).log = w.log := rfl

@[simp] theorem setSession_sessionFds (w : Worker) (cs : ClientSession) :
    (w.setSession cs).sessionFds = w.sessionFds := by
  apply map_replaceF_key
  intro x y hxy
  split at hxy
  · next hx =>
      simp only [Option.some.injEq] at hxy
      subst hxy
      exact (beq_iff_eq.mp hx).symm
  · contradiction

/-- `mk_conn_close` removes the client unless its hook keeps it from doing so. -/
theorem mkConnClose_eq (hook : EventRet) (fd : Int) (w : Worker) :
    (mkConnClose hook fd w).2 = if hook.passes then (mkSchedRemoveClient w fd).2 else w := by
  cases hook <;> rfl

/-- Both halves of a connection removed, slot first. -/
def dropClient (w : Worker) (fd : Int) : Worker := mkSessionRemove (mkSchedRemoveClient w fd).2 fd

@[simp] theorem dropClient_sched (w : Worker) (fd : Int) :
    (dropClient w fd).sched = schedRelease w.sched fd := by
  simp [dropClient]

@[simp] theorem dropClient_sessionFds (w : Worker) (fd : Int) :
    (dropClient w fd).sessionFds = w.sessionFds.erase fd := by
  simp [dropClient]

/-! ## the timeout check -/

/-- The descriptors the first loop of `mk_sched_check_timeouts` removes. -/
def expiredConns (cfg : Config) (now : Int) (w : Worker) : List Int :=
  (w.sched.busyQueue.filter (connExpired cfg now)).map (·.socket)

/-- The descriptors its second loop removes. -/
def expiredSessions (cfg : Config) (now : Int) (w : Worker) : List Int :=
  (w.sessions.filter (sessionExpired cfg now)).map (·.socket)

theorem checkPending_eq (cfg : Config) (now : Int) (w : Worker) :
    checkPending cfg now w =
      (expiredConns cfg now w).foldl (fun w fd => (mkSchedRemoveClient w fd).2) w := by
  rw [checkPending, expiredConns, List.foldl_map]

theorem checkSessions_eq (cfg : Config) (now : Int) (w : Worker) :
    checkSessions cfg now w = (expiredSessions cfg now w).foldl dropClient w := by
  rw [checkSessions, expiredSessions, List.foldl_map]
  rfl

/-- Removing several clients touches no session. -/
theorem foldl_remove_sessions (fds : List Int) (w : Worker) :
    (fds.foldl (fun w fd => (mkSchedRemoveClient w fd).2) w).sessions = w.sessions := by
  induction fds generalizing w with
  | nil => rfl
  | cons fd fds ih => simp [ih]

/-- Removing several clients erases their descriptors from the busy queue. -/
theorem foldl_remove_busyFds (fds : List Int) (w : Worker) :
    (fds.foldl (fun w fd => (mkSchedRemoveClient w fd).2) w).sched.busyFds =
      fds.foldl List.erase w.sched.busyFds := by
  induction fds generalizing w with
  | nil => rfl
  | cons fd fds ih => simp [ih]

theorem foldl_drop_busyFds (fds : List Int) (w : Worker) :
    (fds.foldl dropClient w).sched.busyFds = fds.foldl List.erase w.sched.busyFds := by
  induction fds generalizing w with
  | nil => rfl
  | cons fd fds ih => simp [ih]

theorem foldl_drop_sessionFds (fds : List Int) (w : Worker) :
    (fds.foldl dropClient w).sessionFds = fds.foldl List.erase w.sessionFds := by
  induction fds generalizing w with
  | nil => rfl
  | cons fd fds ih => simp [ih]

@[simp] theorem checkPending_sessions (cfg : Config) (now : Int) (w : Worker) :
    (checkPending cfg now w).sessions = w.sessions := by
  rw [checkPending_eq, foldl_remove_sessions]

/-- The first loop does not change which sessions the second one removes. -/
@[simp] theorem expiredSessions_checkPending (cfg : Config) (now : Int) (w : Worker) :
    expiredSessions cfg now (checkPending cfg now w) = expiredSessions cfg now w := by
  simp [expiredSessions]

/-- What the timeout check leaves in the busy queue. -/
theorem mkSchedCheckTimeouts_busyFds {cfg : Config} {now : Int} {w : Worker}
    (hb : w.sched.busyFds.Nodup) :
    (mkSchedCheckTimeouts cfg now w).sched.busyFds =
      w.sched.busyFds.filter fun fd =>
        decide (fd ∉ expiredConns cfg now w) && decide (fd ∉ expiredSessions cfg now w) := by
  have hp : (checkPending cfg now w).sched.busyFds =
      w.sched.busyFds.filter (· ∉ expiredConns cfg now w) := by
    rw [checkPending_eq, foldl_remove_busyFds, foldl_erase_eq_filter hb]
  rw [mkSchedCheckTimeouts, checkSessions_eq, foldl_drop_busyFds, expiredSessions_checkPending, hp,
    foldl_erase_eq_filter (hb.filter _), List.filter_filter]
  simp [Bool.and_comm]

/-- What the timeout check leaves in the list of sessions. -/
theorem mkSchedCheckTimeouts_sessionFds {cfg : Config} {now : Int} {w : Worker}
    (hs : w.sessionFds.Nodup) :
    (mkSchedCheckTimeouts cfg now w).sessionFds =
      w.sessionFds.filter (· ∉ expiredSessions cfg now w) := by
  have hp : (checkPending cfg now w).sessionFds = w.sessionFds := by
    simp [Worker.sessionFds]
  rw [mkSchedCheckTimeouts, checkSessions_eq, foldl_drop_sessionFds, expiredSessions_checkPending,
    hp, foldl_erase_eq_filter hs]

end Monkey
