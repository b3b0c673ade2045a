import Monkey.Request.Read
import Monkey.Request.Write

/-!
# Monkey.Scheduler

The per-worker scheduler node (`struct sched_list_node`) and the worker thread
around it.  A connection slot is a record that moves between the two queues of
its node; `slot` is its index in the array allocated by
`mk_sched_register_thread`.

The worker keeps a log of the calls that matter outside of it, newest first:
descriptors assigned by the listener, slots taken and released, `close(2)`,
plugin stages and what was written to the clients.
-/

namespace Monkey

/-! ## the scheduler node -/

/-- `MK_SCHEDULER_CONN_*`. -/
inductive ConnStatus
  | available | pending | process
deriving DecidableEq, Repr

/-- `struct sched_connection`. -/
structure SchedConnection where
  slot : Nat
  socket : Int := -1
  status : ConnStatus := .available
  arriveTime : Int := 0
deriving DecidableEq, Repr

/-- `struct sched_list_node`: the two `unsigned long long` counters and the two
queues.  The queues are lists of slots here; that the list operations of `mk_list.h` on the
slots in memory keep such lists is shown in `Monkey.System.Rings`.  The listener writes one
counter and the worker the other. -/
structure SchedListNode where
  acceptedConnections : UInt64 := 0
  closedConnections : UInt64 := 0
  busyQueue : List SchedConnection := []
  avQueue : List SchedConnection := []
deriving DecidableEq, Repr

/-- `mk_sched_register_thread`: every slot of the array starts available. -/
def mkSchedRegisterThread (cfg : Config) : SchedListNode :=
  { avQueue := (List.range cfg.workerCapacity.toNat).map fun i => { slot := i } }

/-- `accepted_connections - closed_connections`. -/
def SchedListNode.load (node : SchedListNode) : UInt64 :=
  node.acceptedConnections - node.closedConnections

/-- `mk_sched_get_connection` inside a worker. -/
def mkSchedGetConnection (node : SchedListNode) (fd : Int) : Option SchedConnection :=
  node.busyQueue.find? fun sc => sc.socket == fd

/-- The list moves of `mk_sched_register_client`: the first available slot goes
to the end of the busy queue. -/
def schedTake (node : SchedListNode) (fd now : Int) : Option SchedListNode :=
  match node.avQueue with
  | [] => none
  | sc :: av =>
      some { node with
        avQueue := av
        busyQueue := node.busyQueue ++
          [{ sc with socket := fd, status := .pending, arriveTime := now }] }

/-- The list moves of `mk_sched_remove_client`: the slot found for `fd` goes to
the end of the available queue. -/
def schedRelease (node : SchedListNode) (fd : Int) : SchedListNode :=
  match mkSchedGetConnection node fd with
  | none => node
  | some sc =>
      { node with
        closedConnections := node.closedConnections + 1
        busyQueue := node.busyQueue.eraseP fun sc => sc.socket == fd
        avQueue := node.avQueue ++ [{ sc with socket := -1, status := .available }] }

/-- `mk_sched_update_conn_status`. -/
def mkSchedUpdateConnStatus (node : SchedListNode) (fd : Int) (status : ConnStatus) :
    Int × SchedListNode :=
  match mkSchedGetConnection node fd with
  | none => (-1, node)
  | some _ =>
      (0, { node with
        busyQueue := node.busyQueue.replaceF fun sc =>
          if sc.socket == fd then some { sc with status := status } else none })

/-! ## the worker -/

/-- A call of the worker that is visible outside of it. -/
inductive Call
  | assigned (fd : Int)
  | registered (fd : Int)
  | released (fd : Int)
  | close (fd : Int)
  | stage50 (fd : Int)
  | wrote (fd : Int) (out : List Out)
deriving DecidableEq, Repr

/-- A worker thread: its scheduler node, its list of sessions and its log.  The log is not in the
source.  It stands for what other threads and the kernel see of the worker, and the properties of
whole runs (no descriptor closed twice, one STAGE_50 for each connection) are properties of it.
The caches of the thread, its clock and the contexts of the plugins are left out: no decision of
the scheduler depends on them. -/
structure Worker where
  sched : SchedListNode
  sessions : List ClientSession := []
  log : List Call := []

/-- A worker before its first event. -/
def Worker.init (cfg : Config) : Worker := { sched := mkSchedRegisterThread cfg }

/-- `mk_session_get`. -/
def mkSessionGet (w : Worker) (fd : Int) : Option ClientSession :=
  w.sessions.find? fun cs => cs.socket == fd

/-- `mk_session_remove`: the first session of the socket. -/
def mkSessionRemove (w : Worker) (fd : Int) : Worker :=
  { w with sessions := w.sessions.eraseP fun cs => cs.socket == fd }

/-- The session of `cs.socket` updated in place. -/
def Worker.setSession (w : Worker) (cs : ClientSession) : Worker :=
  { w with
    sessions := w.sessions.replaceF fun c => if c.socket == cs.socket then some cs else none }

/-- `mk_sched_remove_client`: the descriptor is closed whether or not a slot
holds it; STAGE_50 and the counter only follow when one does. -/
def mkSchedRemoveClient (w : Worker) (fd : Int) : Int × Worker :=
  match mkSchedGetConnection w.sched fd with
  | none => (-1, { w with log := .close fd :: w.log })
  | some _ =>
      (0, { w with
        sched := schedRelease w.sched fd
        log := .released fd :: .stage50 fd :: .close fd :: w.log })

/-! ## timeouts -/

/-- `client_timeout <= log_current_utime`, with `client_timeout` an `int`. -/
def timedOut (since timeout now : Int) : Bool := toInt (since + timeout) ≤ now

/-- A pending connection whose time is over (first loop of
`mk_sched_check_timeouts`). -/
def connExpired (cfg : Config) (now : Int) (sc : SchedConnection) : Bool :=
  sc.status == .pending && timedOut sc.arriveTime cfg.timeout now

/-- An incomplete session whose time is over (second loop). -/
def sessionExpired (cfg : Config) (now : Int) (cs : ClientSession) : Bool :=
  cs.status == .incomplete &&
    timedOut cs.initTime
      (if cs.counterConnections = 0 then cfg.timeout else cfg.keepAliveTimeout) now

/-- The first loop of `mk_sched_check_timeouts`. -/
def checkPending (cfg : Config) (now : Int) (w : Worker) : Worker :=
  (w.sched.busyQueue.filter (connExpired cfg now)).foldl
    (fun w sc => (mkSchedRemoveClient w sc.socket).2) w

/-- The second loop of `mk_sched_check_timeouts`. -/
def checkSessions (cfg : Config) (now : Int) (w : Worker) : Worker :=
  (w.sessions.filter (sessionExpired cfg now)).foldl
    (fun w cs => mkSessionRemove (mkSchedRemoveClient w cs.socket).2 cs.socket) w

/-- `mk_sched_check_timeouts`: first the connections that have sent nothing, then the sessions whose
request is not complete.  The lists to go through are taken at the start of each loop, as
`mk_list_foreach_safe` takes its next node: removing one entry does not lead past another. -/
def mkSchedCheckTimeouts (cfg : Config) (now : Int) (w : Worker) : Worker :=
  checkSessions cfg now (checkPending cfg now w)

end Monkey
