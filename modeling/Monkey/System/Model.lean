import Monkey.Lib.Run
import Monkey.Worker.Outcome

/-!
# Monkey.System.Model

The listener and its workers.  The listener runs the loop of `mk_server_loop`:
accept, `_next_target` (one read of a worker's counters at a time), `mk_epoll_add`
and the increment of `accepted_connections`.  A worker runs the loop of
`mk_epoll_init`: `epoll_wait`, one handler after the other, each followed by the
close handler when it returned a negative value, and the timeout check after the
batch.  Any step of one thread may come between two steps of another.

The kernel keeps the open descriptors and the interest list of every epoll
instance; a closed descriptor leaves all of them, and `accept` returns only
descriptors that are not open.
-/

namespace Monkey

/-! ## the listener's choice -/

/-- The loop of `_next_target` over the loads of the workers from `i` on. -/
def nextTargetLoop : Nat → Nat → UInt64 → List UInt64 → Nat × UInt64
  | _, target, cur, [] => (target, cur)
  | i, target, cur, tmp :: loads =>
      if tmp < cur then
        if tmp = 0 then (i, tmp) else nextTargetLoop (i + 1) i tmp loads
      else nextTargetLoop (i + 1) target cur loads

/-- `_next_target` on the loads it reads, in order; `none` is its `-1`. -/
def nextTarget (cfg : Config) : List UInt64 → Option Nat
  | [] => none
  | cur :: loads =>
      if cur = 0 then some 0
      else
        match nextTargetLoop 1 0 cur loads with
        | (target, cur) => if cur ≥ cfg.workerCapacity.toUInt64 then none else some target

/-- The scan ends early on a worker without connections. -/
def scanDone (cfg : Config) (seen : List UInt64) : Bool :=
  seen.length == cfg.workers || seen.contains 0

/-! ## state -/

/-- A worker thread with its epoll instance: the interest list, the events of the
last `epoll_wait` not dispatched yet, and a close the loop still owes. -/
structure Proc where
  worker : Worker
  interest : Finset Int := ∅
  ready : List Int := []
  closing : Option (Int × EventRet) := none

/-- Where the listener is: waiting in `accept`, scanning the loads, about to add
the descriptor to its target, about to count it. -/
inductive Listener
  | idle
  | scan (fd : Int) (seen : List UInt64)
  | chosen (fd : Int) (target : Nat)
  | added (fd : Int) (target : Nat)

/-- The listener, its workers and the open descriptors of the process.  There are as many workers
as the configuration says, and a `Proc` for every number: those behind the last worker
are never a target.  Files, pipes and the sockets of plugins are not among the descriptors,
which are those of clients. -/
structure System where
  procs : Nat → Proc
  listener : Listener := .idle
  openFds : Finset Int := ∅

def System.init (cfg : Config) : System := { procs := fun _ => { worker := Worker.init cfg } }

/-! ## steps -/

/-- The descriptors closed by the calls of a log. -/
def closesIn (log : List Call) : List Int :=
  log.filterMap fun
    | .close fd => some fd
    | _ => none

/-- The descriptors a worker has closed between two states. -/
def newCloses (w w' : Worker) : List Int := closesIn (w'.log.take (w'.log.length - w.log.length))

/-- The kernel's part of `close(2)`. -/
def System.closeFds (s : System) (fds : List Int) : System :=
  { s with
    procs := fun i => { s.procs i with interest := s.procs i |>.interest.filter (· ∉ fds) }
    openFds := s.openFds.filter (· ∉ fds) }

def System.setProc (s : System) (i : Nat) (p : Proc) : System :=
  { s with procs := Function.update s.procs i p }

/-- A worker goes on as `p`, and the kernel with what it has closed. -/
def System.proceed (s : System) (i : Nat) (p : Proc) : System :=
  (s.setProc i p).closeFds (newCloses (s.procs i).worker p.worker)

/-- The steps of the threads.  A step is as much of the code as another thread can not come between
and be noticed: one read of a counter, one change of a queue, one system call, or one handler of
an event. -/
inductive Act
  | accept (fd : Int)
  | readLoad
  | choose
  | epollAdd (ok : Bool)
  | count
  | wait (i : Nat) (batch : List Int)
  | event (i : Nat) (kind : EpollKind) (io : EventIo)
  | closeEvent (i : Nat)
  | timeouts (i : Nat) (now : Int)

/-- One step of the listener. -/
def System.listen (cfg : Config) (s : System) : Act → Option System
  | .accept fd =>
      match s.listener with
      | .idle =>
          if fd ∈ s.openFds then none
          else some { s with openFds := insert fd s.openFds, listener := .scan fd [] }
      | _ => none
  | .readLoad =>
      match s.listener with
      | .scan fd seen =>
          if scanDone cfg seen then none
          else some { s with
            listener := .scan fd (seen ++ [(s.procs seen.length).worker.sched.load]) }
      | _ => none
  | .choose =>
      match s.listener with
      | .scan fd seen =>
          if scanDone cfg seen then
            match nextTarget cfg seen with
            | some target => some { s with listener := .chosen fd target }
            | none => some { s.closeFds [fd] with listener := .idle }
          else none
      | _ => none
  | .epollAdd ok =>
      match s.listener with
      | .chosen fd target =>
          let p := s.procs target
          if ok then
            some { s.setProc target { p with interest := insert fd p.interest } with
              listener := .added fd target }
          else some { s.closeFds [fd] with listener := .idle }
      | _ => none
  | .count =>
      match s.listener with
      | .added fd target =>
          let p := s.procs target
          some { s.setProc target { p with worker := p.worker.assign fd } with listener := .idle }
      | _ => none
  | _ => none

/-- One step of worker `i`, whose state is `p`. -/
def System.work (cfg : Config) (s : System) : Act → Option System
  | .wait i batch =>
      let p := s.procs i
      if i < cfg.workers ∧ p.ready = [] ∧ p.closing = none ∧ batch.Nodup ∧
          ∀ fd ∈ batch, fd ∈ p.interest then
        some (s.setProc i { p with ready := batch })
      else none
  | .event i kind io =>
      let p := s.procs i
      match p.ready, p.closing with
      | fd :: ready, none =>
          if i < cfg.workers then
            (kind.handler cfg io fd p.worker).map fun (ret, w) =>
              s.proceed i { p with
                worker := w, ready := ready
                closing := if ret < 0 then some (fd, io.closeHook) else none }
          else none
      | _, _ => none
  | .closeEvent i =>
      let p := s.procs i
      match p.closing with
      | some (fd, hook) =>
          if i < cfg.workers then
            some (s.proceed i { p with
              worker := (mkConnClose hook fd p.worker).2, closing := none })
          else none
      | none => none
  | .timeouts i now =>
      let p := s.procs i
      if i < cfg.workers ∧ p.ready = [] ∧ p.closing = none then
        some (s.proceed i { p with worker := mkSchedCheckTimeouts cfg now p.worker })
      else none
  | _ => none

/-- One step of the system. -/
def System.step (cfg : Config) (s : System) (a : Act) : Option System :=
  match a with
  | .accept _ | .readLoad | .choose | .epollAdd _ | .count => s.listen cfg a
  | _ => s.work cfg a

/-- The step relation of the system. -/
def System.Step (cfg : Config) (s : System) (a : Act) (s' : System) : Prop :=
  s.step cfg a = some s'

/-! ## what a step can do -/

/-- The steps of the listener, with what they need. -/
inductive System.Listens (cfg : Config) (s : System) : Act → System → Prop
  | accept {fd : Int} (hl : s.listener = .idle) (hnew : fd ∉ s.openFds) :
      Listens cfg s (.accept fd) { s with openFds := insert fd s.openFds, listener := .scan fd [] }
  | readLoad {fd : Int} {seen : List UInt64} (hl : s.listener = .scan fd seen)
      (hscan : scanDone cfg seen = false) :
      Listens cfg s .readLoad { s with
        listener := .scan fd (seen ++ [(s.procs seen.length).worker.sched.load]) }
  | choose {fd : Int} {seen : List UInt64} {target : Nat} (hl : s.listener = .scan fd seen)
      (htarget : nextTarget cfg seen = some target) :
      Listens cfg s .choose { s with listener := .chosen fd target }
  | full {fd : Int} {seen : List UInt64} (hl : s.listener = .scan fd seen) :
      Listens cfg s .choose { s.closeFds [fd] with listener := .idle }
  | handOver {fd : Int} {target : Nat} (hl : s.listener = .chosen fd target) :
      Listens cfg s (.epollAdd true)
        { s.setProc target { s.procs target with interest := insert fd (s.procs target).interest } with
          listener := .added fd target }
  | refused {fd : Int} {target : Nat} (hl : s.listener = .chosen fd target) :
      Listens cfg s (.epollAdd false) { s.closeFds [fd] with listener := .idle }
  | count {fd : Int} {target : Nat} (hl : s.listener = .added fd target) :
      Listens cfg s .count
        { s.setProc target { s.procs target with worker := (s.procs target).worker.assign fd } with
          listener := .idle }

theorem System.listens_of_listen {cfg : Config} {s s' : System} {a : Act}
    (hs : s.listen cfg a = some s') : s.Listens cfg a s' := by
  unfold System.listen at hs
  split at hs
  · split at hs <;> try contradiction
    next hl =>
    split at hs <;> try contradiction
    next hnew =>
    exact Option.some.inj hs ▸ .accept hl hnew
  · split at hs <;> try contradiction
    next hl =>
    split at hs <;> try contradiction
    next hscan =>
    exact Option.some.inj hs ▸ .readLoad hl (Bool.eq_false_iff.mpr hscan)
  · split at hs <;> try contradiction
    next hl =>
    split at hs <;> try contradiction
    split at hs
    · next htarget => exact Option.some.inj hs ▸ .choose hl htarget
    · exact Option.some.inj hs ▸ .full hl
  · next ok =>
    split at hs <;> try contradiction
    next hl =>
    cases ok with
    | true => exact Option.some.inj hs ▸ .handOver hl
    | false => exact Option.some.inj hs ▸ .refused hl
  · split at hs <;> try contradiction
    next hl =>
    exact Option.some.inj hs ▸ .count hl
  · contradiction

/-- The steps of worker `i`, with what they need. -/
inductive System.Works (cfg : Config) (s : System) : Act → System → Prop
  | wait {i : Nat} {batch : List Int} (hi : i < cfg.workers) (hclosing : (s.procs i).closing = none)
      (hnodup : batch.Nodup) (hsub : ∀ fd ∈ batch, fd ∈ (s.procs i).interest) :
      Works cfg s (.wait i batch) (s.setProc i { s.procs i with ready := batch })
  | event {i : Nat} {kind : EpollKind} {io : EventIo} {fd : Int} {ready : List Int} {ret : Int}
      {w : Worker} (hi : i < cfg.workers) (hready : (s.procs i).ready = fd :: ready)
      (hr : kind.handler cfg io fd (s.procs i).worker = some (ret, w)) :
      Works cfg s (.event i kind io) (s.proceed i { s.procs i with
        worker := w, ready := ready
        closing := if ret < 0 then some (fd, io.closeHook) else none })
  | closeEvent {i : Nat} {fd : Int} {hook : EventRet} (hi : i < cfg.workers)
      (hclosing : (s.procs i).closing = some (fd, hook)) :
      Works cfg s (.closeEvent i) (s.proceed i { s.procs i with
        worker := (mkConnClose hook fd (s.procs i).worker).2, closing := none })
  | timeouts {i : Nat} {now : Int} (hi : i < cfg.workers) (hready : (s.procs i).ready = [])
      (hclosing : (s.procs i).closing = none) :
      Works cfg s (.timeouts i now) (s.proceed i { s.procs i with
        worker := mkSchedCheckTimeouts cfg now (s.procs i).worker })

theorem System.works_of_work {cfg : Config} {s s' : System} {a : Act}
    (hs : s.work cfg a = some s') : s.Works cfg a s' := by
  unfold System.work at hs
  split at hs
  · simp only at hs
    split at hs <;> try contradiction
    next hc =>
    exact Option.some.inj hs ▸ .wait hc.1 hc.2.2.1 hc.2.2.2.1 hc.2.2.2.2
  · simp only at hs
    split at hs <;> try contradiction
    next hready _ =>
    split at hs <;> try contradiction
    next hi =>
    obtain ⟨⟨ret, w⟩, hr, rfl⟩ := Option.map_eq_some_iff.mp hs
    exact .event hi hready hr
  · simp only at hs
    split at hs <;> try contradiction
    next hclosing =>
    split at hs <;> try contradiction
    next hi =>
    exact Option.some.inj hs ▸ .closeEvent hi hclosing
  · simp only at hs
    split at hs <;> try contradiction
    next hc =>
    exact Option.some.inj hs ▸ .timeouts hc.1 hc.2.1 hc.2.2
  · contradiction

end Monkey
