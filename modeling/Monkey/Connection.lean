import Monkey.Scheduler

/-!
# Monkey.Connection

The event handlers of a worker thread — `mk_conn_read`, `mk_conn_write`,
`mk_conn_error`, `mk_conn_close` — and the body of the `mk_epoll_init` loop that
dispatches them.

A handler that takes a slot of an empty `av_queue` would follow the list head of
the queue as if it were a slot; such an event has no result (`none`).  Plugin
hooks are known by the value they return, and descriptors a plugin adds to the
epoll set on its own are not events of this model.
-/

namespace Monkey

/-- `MK_PLUGIN_RET_EVENT_*`. -/
inductive EventRet
  | next | owned | close | continue
deriving DecidableEq, Repr

/-- Everything the outside world answers while one event is handled: the hook of
the event, the close hook of the loop, the STAGE_10 verdict with the close hook
of the rejection, the clock, the socket, the allocator and the request's
surroundings. -/
structure EventIo where
  hook : EventRet := .continue
  closeHook : EventRet := .continue
  stage10Close : Bool := false
  rejectHook : EventRet := .continue
  now : Int
  read : SocketRead := .again
  reallocOk : Bool := true
  sys : Sys

/-- The three branches of the `mk_epoll_init` loop. -/
inductive EpollKind
  | read | write | error
deriving DecidableEq, Repr

/-! ## closing and registering -/

/-- `mk_conn_close`. -/
def mkConnClose (hook : EventRet) (fd : Int) (w : Worker) : Int × Worker :=
  match hook with
  | .owned => (mkPluginRetContinue, w)
  | .close => (-1, w)
  | _ => (0, (mkSchedRemoveClient w fd).2)

/-- `mk_sched_register_client`: STAGE_10 runs before the slot is taken. -/
def mkSchedRegisterClient (io : EventIo) (fd : Int) (w : Worker) : Option (Int × Worker) :=
  match schedTake w.sched fd io.now with
  | none => none
  | some sched =>
      if io.stage10Close then some (-1, (mkConnClose io.rejectHook fd w).2)
      else some (0, { w with sched := sched, log := .registered fd :: w.log })

/-- `mk_request_premature_close`: the error is answered, and STAGE_50 is run here
although the slot is still busy. -/
def mkRequestPrematureClose (cfg : Config) (sys : Sys) (httpStatus : Int) (cs : ClientSession)
    (w : Worker) : Worker :=
  let list := if cs.requestList = [] then [{}] else cs.requestList
  let sr := list.headD {}
  let sr := if sr.hostConf = {} then { sr with hostConf := cfg.defaultHost } else sr
  let out :=
    if httpStatus > 0 then (mkRequestError ⟨cfg, sys, cs, list.tail, 0⟩ httpStatus sr).out ++ [.stage40]
    else []
  mkSessionRemove { w with log := .stage50 cs.socket :: .wrote cs.socket out :: w.log } cs.socket

/-! ## mk_conn_read -/

/-- The second half of `mk_conn_read`, on the session found or created. -/
def mkConnReadSession (cfg : Config) (io : EventIo) (cs : ClientSession) (w : Worker) :
    Int × Worker :=
  match mkHandlerRead cfg io.reallocOk io.read cs with
  | .premature status => (-1, mkRequestPrematureClose cfg io.sys status cs w)
  | .removed => (-1, mkSessionRemove w cs.socket)
  | .done ret cs =>
      match mkHttpPendingRequest cfg cs with
      | (pending, cs) =>
          if pending = 0 then (ret, w.setSession cs)
          else if (cs.bodyLength : Int) + 1 ≥ cfg.maxRequestSize then
            (-1, mkSessionRemove w cs.socket)
          else (ret, w.setSession cs)

/-- `mk_conn_read` after its hook. -/
def mkConnReadCore (cfg : Config) (io : EventIo) (fd : Int) (w : Worker) : Option (Int × Worker) :=
  match mkSessionGet w fd with
  | some cs => some (mkConnReadSession cfg io cs w)
  | none =>
      match mkSchedGetConnection w.sched fd with
      | none => mkSchedRegisterClient io fd w
      | some sc =>
          let cs := mkSessionCreate fd sc.arriveTime
          some (mkConnReadSession cfg io cs { w with sessions := w.sessions ++ [cs] })

/-- A handler behind its plugin hook. -/
def behindHook (hook : EventRet) (w : Worker) (handler : Option (Int × Worker)) :
    Option (Int × Worker) :=
  match hook with
  | .owned => some (mkPluginRetContinue, w)
  | .close => some (-1, w)
  | _ => handler

/-- `mk_conn_read`. -/
def mkConnRead (cfg : Config) (io : EventIo) (fd : Int) (w : Worker) : Option (Int × Worker) :=
  behindHook io.hook w (mkConnReadCore cfg io fd w)

/-! ## mk_conn_write -/

/-- `mk_handler_write`: the list is parsed on the first write event of a round. -/
def mkHandlerWrite (cfg : Config) (sys : Sys) (cs : ClientSession) :
    Int × ClientSession × List Out :=
  let parsed := if cs.requestList = [] then mkRequestParse cs else (0, cs)
  match parsed with
  | (ret, cs) =>
      if ret ≠ 0 then (-1, cs, [])
      else
        let walk := mkHandlerWriteList cfg sys cs cs.requestList
        (walk.ret, { cs with requestList := walk.list }, walk.out.map (·.2))

/-- `mk_http_request_end` for the session `cs`. -/
def mkHttpRequestEnd (cfg : Config) (now : Int) (cs : ClientSession) (w : Worker) : Int × Worker :=
  if mkHttpKeepaliveCheck cfg cs cs.requestList < 0 then (-1, mkSessionRemove w cs.socket)
  else (0, w.setSession (mkRequestKaNext now { cs with requestList := [] }))

/-- The second half of `mk_conn_write`, on the session of the descriptor. -/
def mkConnWriteSession (cfg : Config) (io : EventIo) (cs : ClientSession) (w : Worker) :
    Int × Worker :=
  match mkHandlerWrite cfg io.sys cs with
  | (ret, cs, out) =>
      let w := { w with log := .wrote cs.socket out :: w.log }
      if ret < 0 then (-1, mkSessionRemove w cs.socket)
      else if ret = 0 then mkHttpRequestEnd cfg io.now cs w
      else (0, w.setSession cs)

/-- `mk_conn_write` after its hook. -/
def mkConnWriteCore (cfg : Config) (io : EventIo) (fd : Int) (w : Worker) : Int × Worker :=
  let w := { w with sched := (mkSchedUpdateConnStatus w.sched fd .process).2 }
  match mkSessionGet w fd with
  | none => (0, w)
  | some cs => mkConnWriteSession cfg io cs w

/-- `mk_conn_write`. -/
def mkConnWrite (cfg : Config) (io : EventIo) (fd : Int) (w : Worker) : Option (Int × Worker) :=
  behindHook io.hook w (some (mkConnWriteCore cfg io fd w))

/-! ## mk_conn_error -/

/-- `mk_conn_error` after its hook: slot first, then session. -/
def mkConnErrorCore (fd : Int) (w : Worker) : Int × Worker :=
  (0, mkSessionRemove (mkSchedRemoveClient w fd).2 fd)

/-- `mk_conn_error`. -/
def mkConnError (io : EventIo) (fd : Int) (w : Worker) : Option (Int × Worker) :=
  behindHook io.hook w (some (mkConnErrorCore fd w))

/-! ## the loop -/

/-- The handler of an event. -/
def EpollKind.handler (cfg : Config) (io : EventIo) (fd : Int) (w : Worker) :
    EpollKind → Option (Int × Worker)
  | .read => mkConnRead cfg io fd w
  | .write => mkConnWrite cfg io fd w
  | .error => mkConnError io fd w

/-- One turn of the `mk_epoll_init` loop: a negative return value closes.  The loop itself, with
the batch of `epoll_wait` and the timeout check behind it, is in `Monkey.System.Model` for all
threads and in `Monkey.Worker.Timeouts` for the times; here an event may follow any other. -/
def mkEpollEvent (cfg : Config) (kind : EpollKind) (io : EventIo) (fd : Int) (w : Worker) :
    Option Worker :=
  (kind.handler cfg io fd w).map fun (ret, w) =>
    if ret < 0 then (mkConnClose io.closeHook fd w).2 else w

/-- What happens to a worker: the listener assigns a descriptor, an event is
dispatched, or the timeouts are checked.  They may come in any order and for any descriptor, also
for one the worker does not know, so that what holds over all runs of these holds over the runs
the kernel allows. -/
inductive Event
  | assign (fd : Int)
  | epoll (kind : EpollKind) (io : EventIo) (fd : Int)
  | checkTimeouts (now : Int)

/-- `mk_sched_add_client` as the worker sees it. -/
def Worker.assign (fd : Int) (w : Worker) : Worker :=
  { w with
    sched := { w.sched with acceptedConnections := w.sched.acceptedConnections + 1 }
    log := .assigned fd :: w.log }

/-- A step of the worker. -/
def Worker.step (cfg : Config) (w : Worker) : Event → Option Worker
  | .assign fd => some (w.assign fd)
  | .epoll kind io fd => mkEpollEvent cfg kind io fd w
  | .checkTimeouts now => some (mkSchedCheckTimeouts cfg now w)

/-- The step relation of a worker. -/
def Worker.Step (cfg : Config) (w : Worker) (e : Event) (w' : Worker) : Prop :=
  w.step cfg e = some w'

end Monkey
