import Monkey.Fastcgi.Handlers
import Monkey.Lib.Run

/-!
# Monkey.Fastcgi.World

The FastCGI plugin in a worker thread: the requests of its clients, the packages of
its backends, and what the kernel answers, in any order.

The thread has one table of descriptors.  The kernel gives out the numbers that are
not in use, and events come only for descriptors that are open.
-/

namespace Monkey.Fastcgi

/-- The context of the thread and the open sockets of its clients.  Of the core there is no more:
that it reads a request, finds the location and closes a socket is in the inputs, and what the
plugin asks of it in the effects.  Of a backend there is nothing but what is read from its
connection, which may be any bytes in any cut.  The thread shares nothing with the others, whose
contexts have slots and connections of their own. -/
structure World where
  ctx : FcgiContext
  clients : List Int := []
deriving DecidableEq, Repr

/-- What happens to the thread: a client connects, its request reaches the stage 30
hook, a descriptor has an event, or a client that waits for nothing times out, which
the core does not tell the plugin.  `connect` is the answer to a new connection. -/
inductive Input
  | accept (socket : Int)
  | request (socket : Int) (location : Option Nat) (client : ClientRequest) (junk : Junk)
      (connect : Option Int)
  | read (socket : Int) (results : List ReadResult) (connect : Option Int)
  | write (socket : Int) (io : WriteIo) (connect : Option Int)
  | hangup (socket : Int) (connect : Option Int)
  | timeout (socket : Int)

/-! ## the descriptors -/

/-- The socket of a backend. -/
def Backend (ctx : FcgiContext) (socket : Int) : Prop := socket ≠ -1 ∧ ∃ f ∈ ctx.fds, f.fd = socket

instance (ctx : FcgiContext) (socket : Int) : Decidable (Backend ctx socket) :=
  inferInstanceAs (Decidable (_ ∧ _))

/-- A number the kernel may give out. -/
def Fresh (w : World) (fd : Int) : Prop := 0 ≤ fd ∧ fd ∉ w.clients ∧ ¬ Backend w.ctx fd

instance (w : World) (fd : Int) : Decidable (Fresh w fd) := inferInstanceAs (Decidable (_ ∧ _))

/-- The answer to a new connection made in place of `socket`: its number is free
again. -/
def Reconnect (w : World) (socket : Int) (connect : Option Int) : Prop :=
  ∀ fd ∈ connect, fd = socket ∧ Backend w.ctx socket ∨ Fresh w fd

/-- What can happen: the kernel has no event for a descriptor that is closed, and gives out no
number that is in use, and a client whose request sleeps is not among those the core times out.
Nothing else is asked; a backend that breaks the protocol, a client that hangs up at any time and
a connection that fails are all possible. -/
def Possible (w : World) : Input → Prop
  | .accept socket => Fresh w socket
  | .request socket _ _ _ connect => socket ∈ w.clients ∧ ∀ fd ∈ connect, Fresh w fd
  | .read socket _ connect => Backend w.ctx socket ∧ Reconnect w socket connect
  | .write socket _ connect => (socket ∈ w.clients ∨ Backend w.ctx socket) ∧ Reconnect w socket connect
  | .hangup socket connect => (socket ∈ w.clients ∨ Backend w.ctx socket) ∧ Reconnect w socket connect
  | .timeout socket => socket ∈ w.clients ∧ ∀ q ∈ w.ctx.rl.rs, q.fd = socket → q.sleeping = false

instance (w : World) (socket : Int) (connect : Option Int) : Decidable (Reconnect w socket connect) :=
  inferInstanceAs (Decidable (∀ fd ∈ connect, _))

instance (w : World) : (i : Input) → Decidable (Possible w i)
  | .accept socket => inferInstanceAs (Decidable (Fresh w socket))
  | .request _ _ _ _ connect => inferInstanceAs (Decidable (_ ∧ ∀ fd ∈ connect, Fresh w fd))
  | .read _ _ _ => inferInstanceAs (Decidable (_ ∧ _))
  | .write _ _ _ => inferInstanceAs (Decidable (_ ∧ _))
  | .hangup _ _ => inferInstanceAs (Decidable (_ ∧ _))
  | .timeout _ => inferInstanceAs (Decidable (_ ∧ ∀ q ∈ w.ctx.rl.rs, _))

/-! ## steps -/

section config

variable (config : FcgiConfig)

/-- A handler ran on `socket`: a client whose connection was closed is gone. -/
def World.after (w : World) (socket : Int) (h : HookRet) : World × List Effect :=
  ({ ctx := h.ctx
     clients :=
      if h.ret = .close ∨ .requestEnd socket false ∈ h.effects then w.clients.erase socket
      else w.clients },
    h.effects)

/-- One input, with what the plugin does outside the context. -/
def World.input (w : World) : Input → Option (World × List Effect)
  | .accept socket => some ({ w with clients := socket :: w.clients }, [])
  | .request socket location client junk connect =>
      (stage30 config w.ctx socket location client junk connect).map fun s =>
        ({ w with ctx := s.2.1 }, s.2.2)
  | .read socket results connect =>
      (eventRead w.ctx socket results).map fun h => w.after socket (closeAfter config h socket connect)
  | .write socket io connect =>
      (eventWrite config w.ctx socket io).map fun h => w.after socket (closeAfter config h socket connect)
  | .hangup socket connect =>
      some (w.after socket { hangup config w.ctx socket connect with ret := .close })
  | .timeout socket => some ({ w with clients := w.clients.erase socket }, [])

/-- A step of the thread. -/
def World.Step (w : World) (i : Input) (w' : World) : Prop :=
  Possible w i ∧ (w.input config i).map (·.1) = some w'

/-- A worker thread as the server starts it. -/
def World.Initial (w : World) : Prop :=
  w.clients = [] ∧ ∃ alloc workers workerCapacity,
    ∃ ctxs, fcgiContextListInit alloc config workers workerCapacity = some ctxs ∧ w.ctx ∈ ctxs

/-- Every slot is free at the start. -/
theorem World.Initial.slots {w : World} (h : w.Initial config) :
    (∀ q ∈ w.ctx.rl.rs, q = {}) ∧ ∀ f ∈ w.ctx.fds, ∃ type server location, f = fcgiFdInit type server location := by
  obtain ⟨-, alloc, workers, workerCapacity, ctxs, hinit, hmem⟩ := h
  simp only [fcgiContextListInit] at hinit
  split at hinit
  case isFalse => contradiction
  case isTrue =>
    obtain ⟨t, ht⟩ := exists_of_mem_mapM hinit hmem
    exact fcgiContextInit_slots ht

end config

/-! ## a server with one backend -/

/-- Two connections to one server, which is asked to keep them. -/
def oneBackend : FcgiConfig :=
  { servers := [{ maxConnections := 2 }], locations := [{ keepAlive := true, serverIds := [0] }] }

/-- Its only worker, with room for two requests. -/
def oneWorker : World :=
  { ctx :=
      { rl := { idOffset := 1, clockHands := [0], rs := [{}, {}] }
        fds := [fcgiFdInit .inet 0 0, fcgiFdInit .inet 0 0] } }

theorem oneWorker_initial : oneWorker.Initial oneBackend :=
  ⟨rfl, fun _ => true, 1, 2, [oneWorker.ctx], by decide +kernel, List.mem_cons_self⟩

/-- A client connects and sends a request, which is written whole to the backend. -/
def requestSent : List Input :=
  [.accept 5, .request 5 (some 0) {} {} (some 11), .write 11 { sent := .wrote 264 } none]

/-- The backend answers with a blank line and one byte, and ends the request. -/
def backendAnswer : Bytes :=
  [1, 6, 0, 2, 0, 2, 0, 0, 0x0a, 0x41, 1, 3, 0, 2, 0, 8, 0, 0, 0, 0, 0, 0, 0, 0, 0, 0]

/-- The inputs one by one, as long as they are possible. -/
def World.exec (config : FcgiConfig) (w : World) (inputs : List Input) : Option World :=
  inputs.foldlM (fun w i => if Possible w i then (w.input config i).map (·.1) else none) w

theorem World.run_of_exec {config : FcgiConfig} {w w' : World} {inputs : List Input}
    (h : w.exec config inputs = some w') : Run (World.Step config) w inputs w' :=
  Run.guarded_of_foldlM h

/-- A run that ends as `p` says. -/
theorem World.exists_run {config : FcgiConfig} {w : World} {inputs : List Input} {p : World → Bool}
    (h : (w.exec config inputs).any p = true) : ∃ w', Run (World.Step config) w inputs w' ∧ p w' = true := by
  obtain ⟨w', hw', hp⟩ := (Option.any_eq_true ..).mp h
  exact ⟨w', World.run_of_exec hw', hp⟩

/-- A run under a condition that ends as `p` says. -/
theorem World.exists_guarded_run {config : FcgiConfig} {w : World} {inputs : List Input}
    {P : World → Input → Prop} [∀ w i, Decidable (P w i)] {p : World → Bool}
    (h : (inputs.foldlM (fun w i => if P w i ∧ Possible w i then (w.input config i).map (·.1) else none) w).any p =
      true) : ∃ w', Run (Guarded P (World.Step config)) w inputs w' ∧ p w' = true := by
  obtain ⟨w', hw', hp⟩ := (Option.any_eq_true ..).mp h
  exact ⟨w', Run.guarded_guarded_of_foldlM hw', hp⟩

end Monkey.Fastcgi
