import Monkey.Fastcgi.Answers

/-!
# Monkey.Fastcgi.Wakeup

The FastCGI plugin and the epoll states of its thread.

A request that waits for its backend puts the socket of its client to sleep, and
`mk_epoll_change_mode` ends the server when a descriptor is woken up that does not
sleep.  A client that hangs up while its request sleeps is gone, but the request stays
marked as asleep as long as a backend has it.
-/

namespace Monkey.Fastcgi

section epoll

variable (efd : Int)

/-! ## the calls -/

/-- What an effect asks of the epoll instance `efd`; `refused` is whether the kernel
refuses a new connection.  The end of an answer puts a connection that is kept back to
reading, and a descriptor below 1 is not deleted. -/
def Effect.epollOps (refused : Bool) : Effect → List EpollOp
  | .changeMode fd mode => [.changeMode efd fd mode mkEpollLevelTriggered]
  | .eventAdd _ fd => [.add efd fd .rw mkEpollLevelTriggered refused]
  | .eventDel _ fd => if 0 < fd then [.del efd fd] else []
  | .requestEnd fd keep => if keep then [.changeMode efd fd .read mkEpollLevelTriggered] else []
  | .sent .. | .headerSend .. | .requestError .. => []

/-- What the core asks of it before the plugin: a new client is registered. -/
def Input.epollOps : Input → List EpollOp
  | .accept socket => [.add efd socket .read mkEpollLevelTriggered false]
  | _ => []

/-- What the core asks of it after the plugin: the clients that are gone are removed. -/
def goneOps (w w' : World) : List EpollOp := (w.clients.filter (· ∉ w'.clients)).map (.del efd ·)

/-- The calls one by one; there is no index when one of them ends the server. -/
def watch (index : EpollIndex) (ops : List EpollOp) : Option EpollIndex := ops.foldlM EpollIndex.step index

/-! ## a worker and its epoll states -/

/-- A worker with the epoll states of its thread, as long as the server runs. -/
structure Watched where
  world : World
  index : Option EpollIndex := some mkEpollStateInit
deriving DecidableEq, Repr

/-- An input, or a mode the core asks for on the socket of a client: it waits for the
rest of a request, or to write. -/
inductive WatchedInput
  | plugin (input : Input) (refused : Bool)
  | core (socket : Int) (mode : EpollMode)

/-- The descriptor of a read or write event. -/
def Input.ready : Input → Option Int
  | .request socket .. | .read socket .. | .write socket .. => some socket
  | _ => none

/-- What can happen while the server runs: of a descriptor that sleeps the kernel tells
only errors and hang-ups. -/
def Watched.Possible (w : Watched) (index : EpollIndex) : WatchedInput → Prop
  | .plugin input _ =>
      Fastcgi.Possible w.world input ∧ ∀ socket ∈ input.ready, index.modeOf efd socket ≠ some .sleep
  | .core socket mode =>
      socket ∈ w.world.clients ∧ index.modeOf efd socket ≠ some .sleep ∧ (mode = .read ∨ mode = .write)

instance (w : Watched) (index : EpollIndex) : (i : WatchedInput) → Decidable (w.Possible efd index i)
  | .plugin input _ => inferInstanceAs (Decidable (_ ∧ ∀ socket ∈ input.ready, _))
  | .core _ _ => inferInstanceAs (Decidable (_ ∧ _ ∧ _))

/-- An input, with the index before it. -/
def Watched.input (config : FcgiConfig) (w : Watched) (index : EpollIndex) : WatchedInput → Option Watched
  | .plugin input refused =>
      (w.world.input config input).map fun s =>
        { world := s.1
          index := watch index
            (input.epollOps efd ++ s.2.flatMap (Effect.epollOps efd refused) ++ goneOps efd w.world s.1) }
  | .core socket mode =>
      some { w with index := index.step (.changeMode efd socket mode mkEpollLevelTriggered) }

/-- A step of a server that runs. -/
def Watched.Step (config : FcgiConfig) (w : Watched) (i : WatchedInput) (w' : Watched) : Prop :=
  ∃ index, w.index = some index ∧ w.Possible efd index i ∧ w.input efd config index i = some w'

/-- No client hangs up while its request sleeps and a backend has it. -/
def SleepGuard (ctx : FcgiContext) : Moment → Prop
  | .drop r => (ctx.req r).sleeping = true → (ctx.req r).fcgiFd = -1
  | _ => True

instance (ctx : FcgiContext) : (m : Moment) → Decidable (SleepGuard ctx m)
  | .drop _ => inferInstanceAs (Decidable (_ → _))
  | .package _ _ | .giveUp _ | .close _ => inferInstanceAs (Decidable True)

/-- The moments of an input meet it. -/
def Watched.Guard (config : FcgiConfig) (w : Watched) : WatchedInput → Prop
  | .plugin input _ => World.Meets config SleepGuard w.world input
  | .core _ _ => True

instance Watched.decidableGuard (config : FcgiConfig) (w : Watched) : (i : WatchedInput) → Decidable (w.Guard config i)
  | .plugin input _ => inferInstanceAs (Decidable (World.Meets config SleepGuard w.world input))
  | .core _ _ => inferInstanceAs (Decidable True)

/-! ## the invariant -/

/-- What is marked as asleep is: clients with a request that is not over, and
connections. -/
structure SleepOk (clients : List Int) (ctx : FcgiContext) (index : EpollIndex) : Prop where
  client : ∀ r, (ctx.req r).sleeping = true → (ctx.req r).fd ∈ clients
  request : ∀ r, (ctx.req r).sleeping = true → index.modeOf efd (ctx.req r).fd = some .sleep
  awake : ∀ r, (ctx.req r).state = .available ∨ (ctx.req r).state = .failed → (ctx.req r).sleeping = false
  conn : ∀ i, (ctx.conn i).state = .sleeping → index.modeOf efd (ctx.conn i).fd = some .sleep

end epoll

namespace SleepOk

variable {efd : Int} {clients : List Int} {ctx ctx' : FcgiContext} {index index' : EpollIndex}

theorem of_same (h : SleepOk efd clients ctx index) (hconn : ∀ i, ctx'.conn i = ctx.conn i)
    (hreq : ∀ r, ctx'.req r = ctx.req r) : SleepOk efd clients ctx' index := by
  refine ⟨fun r => ?_, fun r => ?_, fun r => ?_, fun i => ?_⟩
  · rw [hreq]
    exact h.client r
  · rw [hreq]
    exact h.request r
  · rw [hreq]
    exact h.awake r
  · rw [hconn]
    exact h.conn i

/-- A request changes. -/
theorem setReq (h : SleepOk efd clients ctx index) {r : Nat} {q : Request}
    (hq : q.sleeping = true → (q.fd ∈ clients ∧ index.modeOf efd q.fd = some .sleep) ∧
      ¬ (q.state = .available ∨ q.state = .failed)) : SleepOk efd clients (ctx.setReq r q) index := by
  refine ⟨fun a => ?_, fun a => ?_, fun a => ?_, h.conn⟩
  · rw [FcgiContext.req_setReq]
    split
    · exact fun hs => (hq hs).1.1
    · exact h.client a
  · rw [FcgiContext.req_setReq]
    split
    · exact fun hs => (hq hs).1.2
    · exact h.request a
  · rw [FcgiContext.req_setReq]
    split
    · intro hover
      by_contra hs
      exact (hq (by simpa using hs)).2 hover
    · exact h.awake a

/-- A request sleeps on, if it does. -/
theorem setReq_same (h : SleepOk efd clients ctx index) {r : Nat} {q : Request}
    (hsleeping : q.sleeping = (ctx.req r).sleeping) (hfd : q.fd = (ctx.req r).fd)
    (hstate : q.state = (ctx.req r).state ∨ ¬ (q.state = .available ∨ q.state = .failed)) :
    SleepOk efd clients (ctx.setReq r q) index := by
  refine h.setReq fun hs => ?_
  have hold : (ctx.req r).sleeping = true := hsleeping ▸ hs
  rw [hfd]
  refine ⟨⟨h.client r hold, h.request r hold⟩, ?_⟩
  obtain hstate | hstate := hstate
  · rw [hstate]
    exact fun hover => absurd hold (by rw [h.awake r hover]; decide)
  · exact hstate

/-- A connection changes. -/
theorem setConn (h : SleepOk efd clients ctx index) {i : Nat} {f : FcgiFd}
    (hf : f.state = .sleeping → index.modeOf efd f.fd = some .sleep) :
    SleepOk efd clients (ctx.setConn i f) index := by
  refine ⟨h.client, h.request, h.awake, fun j => ?_⟩
  rw [FcgiContext.conn_setConn]
  split
  · exact hf
  · exact h.conn j

/-- A call for a descriptor that nothing sleeps on. -/
theorem step_of_awake (h : SleepOk efd clients ctx index) {op : EpollOp} {fd : Int} (hkey : op.key = (efd, fd))
    (hstep : index.step op = some index') (hreq : ∀ r, (ctx.req r).sleeping = true → (ctx.req r).fd ≠ fd)
    (hconn : ∀ i, (ctx.conn i).state = .sleeping → (ctx.conn i).fd ≠ fd) : SleepOk efd clients ctx index' := by
  refine ⟨h.client, fun r hs => ?_, h.awake, fun i hs => ?_⟩
  · rw [EpollIndex.step_modeOf_of_ne hstep]
    · exact h.request r hs
    · rw [hkey]
      exact fun heq => hreq r hs (congrArg Prod.snd heq)
  · rw [EpollIndex.step_modeOf_of_ne hstep]
    · exact h.conn i hs
    · rw [hkey]
      exact fun heq => hconn i hs (congrArg Prod.snd heq)

/-- Sleeping never hurts. -/
theorem step_sleep (h : SleepOk efd clients ctx index) {fd : Int} {behavior : UInt32}
    (hstep : index.step (.changeMode efd fd .sleep behavior) = some index') : SleepOk efd clients ctx index' := by
  obtain ⟨index'', hstep', hfd⟩ := index.step_sleep efd fd behavior
  obtain rfl : index'' = index' := Option.some.inj (hstep'.symm.trans hstep)
  have hkeep : ∀ fd', index.modeOf efd fd' = some .sleep → index''.modeOf efd fd' = some .sleep := by
    intro fd' hs
    by_cases heq : fd' = fd
    · rw [heq, hfd]
    · rw [EpollIndex.step_modeOf_of_ne hstep]
      · exact hs
      · exact fun hkey => heq (congrArg Prod.snd hkey)
  exact ⟨h.client, fun r hs => hkeep _ (h.request r hs), h.awake, fun i hs => hkeep _ (h.conn i hs)⟩

/-- A request that sleeps has a slot. -/
theorem lt_of_sleeping {r : Nat} (hr : (ctx.req r).sleeping = true) : r < ctx.rl.rs.length := by
  by_contra hge
  rw [FcgiContext.req, List.getD_eq_default _ _ (Nat.not_lt.mp hge)] at hr
  contradiction

/-- No other request has the socket of one that sleeps, and no connection. -/
theorem other_ne (h : SleepOk efd clients ctx index) (hfds : FdsOk clients ctx) (hnone : -1 ∉ clients) {r : Nat}
    (hr : (ctx.req r).sleeping = true) {a : Nat} (hfd : (ctx.req a).fd = (ctx.req r).fd) : a = r :=
  hfds.slots a r hfd fun hnil => hnone (hnil ▸ hfd ▸ h.client r hr)

/-- A request is woken up. -/
theorem wakeRequest (h : SleepOk efd clients ctx index) (hfds : FdsOk clients ctx) (hnone : -1 ∉ clients) {r : Nat}
    {q : Request} (hsleeping : q.sleeping = (ctx.req r).sleeping) (hfd : q.fd = (ctx.req r).fd) (refused : Bool) :
    ∃ index', watch index ((wakeRequest q).2.flatMap (Effect.epollOps efd refused)) = some index' ∧
      SleepOk efd clients (ctx.setReq r (wakeRequest q).1) index' := by
  have hset : SleepOk efd clients (ctx.setReq r (Fastcgi.wakeRequest q).1) index := by
    rw [wakeRequest_eq]
    exact h.setReq fun hs => by simp at hs
  unfold Fastcgi.wakeRequest at hset ⊢
  by_cases hs : q.sleeping = true
  · rw [if_pos hs] at hset ⊢
    have hold : (ctx.req r).sleeping = true := hsleeping ▸ hs
    have hmem : q.fd ∈ clients := hfd ▸ h.client r hold
    obtain ⟨index', hstep⟩ := EpollIndex.step_wakeup (hfd ▸ h.request r hold) mkEpollLevelTriggered
    refine ⟨index', by simpa [watch, Effect.epollOps] using hstep, hset.step_of_awake rfl hstep ?_ ?_⟩
    · intro a ha heq
      rw [FcgiContext.req_setReq] at ha heq
      split at ha
      · contradiction
      · next hne =>
          rw [if_neg hne, hfd] at heq
          exact hne ⟨h.other_ne hfds hnone hold heq, lt_of_sleeping hold⟩
    · exact fun i _ heq => hfds.clients i (heq ▸ hmem)
  · rw [if_neg hs] at hset ⊢
    exact ⟨index, rfl, hset⟩

/-- **Moves** wake up only what sleeps. -/
theorem moved (h : SleepOk efd clients ctx index) (hfds : FdsOk clients ctx) (hnone : -1 ∉ clients)
    {new : Int → Prop} {takes : Nat → Nat → Prop} (hnew : ∀ s, new s → s ∈ clients) {es : List Effect}
    (hm : Moved new (Free clients) takes ctx es ctx') (refused : Bool) :
    ∃ index', watch index (es.flatMap (Effect.epollOps efd refused)) = some index' ∧
      SleepOk efd clients ctx' index' := by
  have hone : ∀ {fd mode index'}, index.step (.changeMode efd fd mode mkEpollLevelTriggered) = some index' →
      watch index ([Effect.changeMode fd mode].flatMap (Effect.epollOps efd refused)) = some index' := by
    intro fd mode index' hstep
    simpa [watch, Effect.epollOps] using hstep
  cases hm with
  | @say e he =>
      refine ⟨index, ?_, h⟩
      cases e <;> first | rfl | contradiction
  | search hrs => exact ⟨index, rfl, h.of_same (fun _ => rfl) (FcgiContext.req_withRl hrs)⟩
  | @assign r socket clockId client q hr hav hnew' hsocket hq =>
      have hawake := h.awake r (.inl hav)
      obtain rfl := requestAssign_eq_some hq
      exact ⟨index, rfl, h.setReq fun hs => by simp [hawake] at hs⟩
  | output r iov headersSent => exact ⟨index, rfl, h.setReq_same rfl rfl (.inl rfl)⟩
  | @sleep r hstate hsocket =>
      obtain ⟨index', hstep, hfd⟩ := index.step_sleep efd (ctx.req r).fd mkEpollLevelTriggered
      refine ⟨index', hone hstep, (h.step_sleep hstep).setReq fun _ => ⟨⟨hnew _ hsocket, hfd⟩, ?_⟩⟩
      simp [hstate]
  | fail r => exact h.wakeRequest hfds hnone (by rfl) (by rfl) refused
  | recycle r => exact ⟨index, rfl, h.setReq fun hs => by simp [requestRecycle, requestReset] at hs⟩
  | @connect i fd hi hav hfree hfresh =>
      have hset : SleepOk efd clients (ctx.setConn i { ctx.conn i with fd := fd, state := .ready }) index :=
        h.setConn fun hs => by simp at hs
      obtain ⟨index', hstep⟩ : ∃ index', index.step (.add efd fd .rw mkEpollLevelTriggered refused) = some index' :=
        ⟨_, rfl⟩
      refine ⟨index', by simpa [watch, Effect.epollOps] using hstep, hset.step_of_awake rfl hstep ?_ ?_⟩
      · exact fun r hs heq => hfree.2 (heq ▸ h.client r hs)
      · intro j hs
        rw [FcgiContext.conn_setConn] at hs ⊢
        split at hs
        · contradiction
        · next hne =>
            rw [if_neg hne]
            exact hfresh j
  | unconnected hav => exact ⟨index, rfl, h.setConn fun hs => by simp [hav] at hs⟩
  | @wake i hf =>
      obtain ⟨index', hstep⟩ := EpollIndex.step_wakeup (h.conn i hf) mkEpollLevelTriggered
      have hset : SleepOk efd clients (ctx.setConn i { ctx.conn i with state := .ready }) index :=
        h.setConn fun hs => by simp at hs
      have hopen : (ctx.conn i).fd ≠ -1 := fun hnil => by simp [(hfds.available i).mpr hnil] at hf
      refine ⟨index', hone hstep, hset.step_of_awake rfl hstep ?_ ?_⟩
      · exact fun r hs heq => hfds.clients i (heq ▸ h.client r hs)
      · intro j hs heq
        rw [FcgiContext.conn_setConn_fd (by rfl)] at heq
        obtain rfl := hfds.distinct j i heq (heq ▸ hopen)
        rw [FcgiContext.conn_setConn_self (lt_of_conn_fd hopen)] at hs
        contradiction
  | @doze i hf =>
      obtain ⟨index', hstep, hfd⟩ := index.step_sleep efd (ctx.conn i).fd mkEpollLevelTriggered
      exact ⟨index', hone hstep, (h.step_sleep hstep).setConn fun _ => hfd⟩
  | @take i r remain htakes hi hr hf hq hclock =>
      have hreq : SleepOk efd clients
          (ctx.setReq r { ctx.req r with fcgiFd := (ctx.conn i).fd, state := .sent }) index :=
        h.setReq_same rfl rfl (.inr (by simp))
      exact ⟨index, rfl, hreq.setConn fun hs => by simp at hs⟩
  | @progress i r remain begin? state iov hf hbegin hstate =>
      have hconn : SleepOk efd clients (ctx.setConn i
          { ctx.conn i with state := state, beginReqRemain := remain, beginReq := begin? }) index :=
        h.setConn fun hs => by obtain ⟨rfl, -⟩ | ⟨rfl, -⟩ := hstate <;> contradiction
      exact ⟨index, rfl, hconn.setReq_same rfl rfl (.inl rfl)⟩

/-- **Packages** wake up only what sleeps. -/
theorem recvPkg (h : SleepOk efd clients ctx index) (hfds : FdsOk clients ctx) (hnone : -1 ∉ clients) {i : Nat}
    (hi : (ctx.conn i).fd ≠ -1) (before : List Effect) (pkg : FcgiHeader × Bytes) (refused : Bool) :
    ∃ es index', (recvPkg i (ctx, before) pkg).2.2 = before ++ es ∧
      watch index (es.flatMap (Effect.epollOps efd refused)) = some index' ∧
      SleepOk efd clients (recvPkg i (ctx, before) pkg).2.1 index' := by
  obtain ⟨rl, hrs, heq | ⟨r, ok, f, q, es, -, -, hh, heq⟩⟩ := recvPkg_handled i ctx before pkg
  · rw [heq]
    exact ⟨[], index, (List.append_nil _).symm, rfl, h.of_same (fun _ => rfl) (FcgiContext.req_withRl hrs)⟩
  rw [heq]
  have hstart : SleepOk efd clients ((ctx.withRl rl).setConn i f) index := by
    have hsearch : SleepOk efd clients (ctx.withRl rl) index := h.of_same (fun _ => rfl) (FcgiContext.req_withRl hrs)
    refine hsearch.setConn fun hs => ?_
    cases hh <;> first | exact h.conn i hs | simp at hs
  have hfds' := hfds.handled hi hrs hh
  have hreq : ((ctx.withRl rl).setConn i f).req r = ctx.req r := FcgiContext.req_withRl hrs r
  generalize (ctx.withRl rl).setConn i f = start at hstart hfds' hreq
  suffices hdone : ∃ index', watch index (es.flatMap (Effect.epollOps efd refused)) = some index' ∧
      SleepOk efd clients (start.setReq r q) index' by
    obtain ⟨index', hwatch, hok⟩ := hdone
    exact ⟨es, index', rfl, hwatch, hok⟩
  -- the request is woken up, or nothing is asked
  have hwake : ∀ q' : Request, q'.sleeping = (ctx.req r).sleeping → q'.fd = (ctx.req r).fd →
      ∃ index', watch index ((Fastcgi.wakeRequest q').2.flatMap (Effect.epollOps efd refused)) = some index' ∧
        SleepOk efd clients (start.setReq r (Fastcgi.wakeRequest q').1) index' := by
    rw [← hreq]
    exact fun q' hsleeping hfd => hstart.wakeRequest hfds' hnone hsleeping hfd refused
  have hsame : ∀ {q' : Request}, q'.sleeping = (ctx.req r).sleeping → q'.fd = (ctx.req r).fd →
      (q'.state = (ctx.req r).state ∨ ¬ (q'.state = .available ∨ q'.state = .failed)) →
      SleepOk efd clients (start.setReq r q') index := by
    rw [← hreq]
    exact hstart.setReq_same
  cases hh with
  | ignored => exact ⟨index, rfl, hsame rfl rfl (.inl rfl)⟩
  | queued hstate iov => exact ⟨index, rfl, hsame rfl rfl (.inl rfl)⟩
  | streamClosed hstate => exact ⟨index, rfl, hsame rfl rfl (.inr (by simp))⟩
  | failed => exact hwake _ rfl rfl
  | refused hend hf => exact hwake _ rfl rfl
  | gone hend hf hfd => exact ⟨index, rfl, hstart.setReq fun hs => by simp [requestRecycle, requestReset] at hs⟩
  | kept hend hf hstate => exact ⟨index, rfl, hsame rfl rfl (.inl rfl)⟩
  | ended hend hf => exact hwake _ rfl rfl
  | stray hend hf => exact hwake _ rfl rfl

/-- The close of a connection. -/
theorem closeConn (h : SleepOk efd clients ctx index) (hfds : FdsOk clients ctx) {i : Nat}
    (hi : (ctx.conn i).fd ≠ -1) (refused : Bool) :
    ∃ index', watch index ([Effect.eventDel i (ctx.conn i).fd].flatMap (Effect.epollOps efd refused)) = some index' ∧
      SleepOk efd clients (closeConn ctx i) index' := by
  have hset : SleepOk efd clients (Fastcgi.closeConn ctx i) index := h.setConn fun hs => by simp at hs
  simp only [List.flatMap_singleton, Effect.epollOps]
  split
  · obtain ⟨index', hstep⟩ : ∃ index', index.step (.del efd (ctx.conn i).fd) = some index' := ⟨_, rfl⟩
    refine ⟨index', by simpa [watch] using hstep, hset.step_of_awake rfl hstep ?_ ?_⟩
    · exact fun r hs heq => hfds.clients i (heq ▸ h.client r hs)
    · intro j hs heq
      unfold Fastcgi.closeConn at hs heq
      rw [FcgiContext.conn_setConn] at hs heq
      split at hs
      · contradiction
      · next hne =>
          rw [if_neg hne] at heq
          exact hne ⟨hfds.distinct j i heq (heq ▸ hi), lt_of_conn_fd hi⟩
  · exact ⟨index, rfl, hset⟩

/-- The end of an answer. -/
theorem finish (h : SleepOk efd clients ctx index) (hfds : FdsOk clients ctx) {socket : Int}
    (hsocket : socket ∈ clients) (hfailed : ∀ r, (ctx.req r).fd = socket → (ctx.req r).state = .failed) (keep : Bool)
    (refused : Bool) :
    ∃ index', watch index ([Effect.requestEnd socket keep].flatMap (Effect.epollOps efd refused)) = some index' ∧
      SleepOk efd clients ctx index' := by
  cases keep with
  | true =>
      obtain ⟨index', hstep⟩ :
          ∃ index', index.step (.changeMode efd socket .read mkEpollLevelTriggered) = some index' := ⟨_, rfl⟩
      refine ⟨index', by simpa [watch, Effect.epollOps] using hstep, h.step_of_awake rfl hstep ?_ ?_⟩
      · intro r hs heq
        rw [h.awake r (.inr (hfailed r heq))] at hs
        contradiction
      · exact fun i _ heq => hfds.clients i (heq ▸ hsocket)
  | false => exact ⟨index, rfl, h⟩

/-- The hang-up of a client whose request does not sleep with a backend. -/
theorem dropClient (h : SleepOk efd clients ctx index) {r : Nat}
    (hguard : (ctx.req r).sleeping = true → (ctx.req r).fcgiFd = -1) :
    SleepOk efd clients (ctx.setReq r (dropClient (ctx.req r))) index := by
  refine h.setReq fun hs => absurd hs ?_
  unfold Fastcgi.dropClient
  split
  · simp [requestRecycle, requestReset]
  · next hfcgi => exact fun hs => hfcgi (hguard hs)

end SleepOk

/-! ## runs -/

theorem watch_append (index : EpollIndex) (ops ops' : List EpollOp) :
    watch index (ops ++ ops') = (watch index ops).bind (watch · ops') :=
  List.foldlM_append

/-- After the effects so far what is marked as asleep is. -/
def SleepSo (efd : Int) (refused : Bool) (index : EpollIndex) (clients : List Int) (ctx : FcgiContext)
    (es : List Effect) : Prop :=
  ∃ index', watch index (es.flatMap (Effect.epollOps efd refused)) = some index' ∧ SleepOk efd clients ctx index'

namespace SleepSo

variable {efd : Int} {refused : Bool} {index : EpollIndex} {clients : List Int} {ctx ctx' : FcgiContext}
  {before es : List Effect}

theorem append (h : SleepSo efd refused index clients ctx before)
    (hes : ∀ index, SleepOk efd clients ctx index → SleepSo efd refused index clients ctx' es) :
    SleepSo efd refused index clients ctx' (before ++ es) := by
  obtain ⟨index', hwatch, hok⟩ := h
  obtain ⟨index'', hwatch', hok'⟩ := hes index' hok
  refine ⟨index'', ?_, hok'⟩
  rw [List.flatMap_append, watch_append, hwatch]
  exact hwatch'

/-- **The handlers wake up only what sleeps**, where the moments meet the guard. -/
theorem keeps (hnone : -1 ∉ clients) {new : Int → Prop} {takes : Nat → Nat → Prop}
    (hnew : ∀ s, new s → s ∈ clients) : Keeps clients new takes SleepGuard (SleepSo efd refused index clients) where
  moved _ _ _ _ hfds h hm := h.append fun _ hok => hok.moved hfds hnone hnew hm refused
  package i ctx before pkg hfds h hi _ := by
    obtain ⟨index', hwatch, hok⟩ := h
    obtain ⟨es, index'', heff, hwatch', hok'⟩ := hok.recvPkg hfds hnone hi before pkg refused
    refine ⟨index'', ?_, hok'⟩
    rw [heff, List.flatMap_append, watch_append, hwatch]
    exact hwatch'
  giveUp _ _ _ _ _ h _ hf := by
    obtain ⟨index', hwatch, hok⟩ := h
    refine ⟨index', hwatch, hok.setConn fun hs => ?_⟩
    rw [(fcgiFdSetState_eq_some hf).2] at hs
    contradiction
  close _ _ _ hfds h hi _ := h.append fun _ hok => hok.closeConn hfds hi refused
  drop r _ _ _ h _ hguard := by
    obtain ⟨index', hwatch, hok⟩ := h
    refine ⟨index', hwatch, hok.dropClient fun hs => ?_⟩
    obtain hfailed | hguard := hguard
    · rw [hok.awake r (.inr hfailed)] at hs
      contradiction
    · exact hguard hs
  finish _ keep _ _ hfds h hsocket hfailed := h.append fun _ hok => hok.finish hfds hsocket hfailed keep refused
  buffer i _ _ _ _ h := by
    obtain ⟨index', hwatch, hok⟩ := h
    exact ⟨index', hwatch, hok.setConn (hok.conn i)⟩

end SleepSo

/-- Descriptors that nothing sleeps on are removed. -/
theorem SleepOk.dels {efd : Int} {clients : List Int} {ctx : FcgiContext} {index : EpollIndex} {fds : List Int}
    (h : SleepOk efd clients ctx index)
    (hreq : ∀ s ∈ fds, ∀ r, (ctx.req r).sleeping = true → (ctx.req r).fd ≠ s)
    (hconn : ∀ s ∈ fds, ∀ i, (ctx.conn i).fd ≠ s) :
    ∃ index', watch index (fds.map (.del efd ·)) = some index' ∧ SleepOk efd clients ctx index' := by
  induction fds generalizing index with
  | nil => exact ⟨index, rfl, h⟩
  | cons fd fds ih =>
      obtain ⟨index', hstep⟩ : ∃ index', index.step (.del efd fd) = some index' := ⟨_, rfl⟩
      have hdel := h.step_of_awake rfl hstep (hreq fd List.mem_cons_self) fun i _ => hconn fd List.mem_cons_self i
      obtain ⟨index'', hwatch, hok⟩ := ih hdel (fun s hs => hreq s (List.mem_cons_of_mem _ hs))
        fun s hs => hconn s (List.mem_cons_of_mem _ hs)
      refine ⟨index'', ?_, hok⟩
      rw [List.map_cons, watch, List.foldlM_cons, hstep]
      exact hwatch

/-- A client connects. -/
theorem SleepOk.register {efd : Int} {w : World} {input : Input} {index : EpollIndex}
    (h : SleepOk efd w.clients w.ctx index) (hposs : Possible w input) :
    ∃ index', watch index (input.epollOps efd) = some index' ∧ SleepOk efd w.clients w.ctx index' := by
  cases input with
  | accept socket =>
      have hfresh : Fresh w socket := hposs
      obtain ⟨index', hstep⟩ :
          ∃ index', index.step (.add efd socket .read mkEpollLevelTriggered false) = some index' := ⟨_, rfl⟩
      refine ⟨index', by simpa [watch, Input.epollOps] using hstep, h.step_of_awake rfl hstep ?_ ?_⟩
      · exact fun r hs heq => hfresh.2.1 (heq ▸ h.client r hs)
      · exact fun i _ => hfresh.conn_ne i
  | _ => exact ⟨index, rfl, h⟩

/-- A client that is gone has no request that sleeps. -/
theorem World.gone_awake {config : FcgiConfig} {w w' : World} {input : Input} {effects : List Effect}
    (hw : WorldOk w) (hposs : Possible w input) (h : w.input config input = some (w', effects)) {s : Int}
    (hs : s ∈ w.clients) (hgone : s ∉ w'.clients) {r : Nat} (hr : (w'.ctx.req r).sleeping = true) :
    (w'.ctx.req r).fd ≠ s := by
  obtain rfl | hslots := World.input_gone hw hposs h hs hgone
  · cases h
    intro heq
    have hmem : w.ctx.req r ∈ w.ctx.rl.rs := by simp [FcgiContext.req, SleepOk.lt_of_sleeping hr]
    have hawake : (w.ctx.req r).sleeping = false := hposs.2 _ hmem heq
    exact absurd hr (by rw [hawake]; decide)
  · exact hslots r

/-- **One input** under the guard: the server goes on, and what is marked as asleep is. -/
theorem SleepOk.input {efd : Int} {config : FcgiConfig} {w w' : World} {input : Input} {effects : List Effect}
    {index : EpollIndex} (h : SleepOk efd w.clients w.ctx index) (hw : WorldOk w) (hposs : Possible w input)
    (hguard : World.Meets config SleepGuard w input) (hinput : w.input config input = some (w', effects))
    (refused : Bool) :
    ∃ index', watch index
        (input.epollOps efd ++ effects.flatMap (Effect.epollOps efd refused) ++ goneOps efd w w') = some index' ∧
      SleepOk efd w'.clients w'.ctx index' := by
  have hnone : -1 ∉ w.clients := fun hmem => hw.clients _ hmem rfl
  have hnew : ∀ s, input.assigns s → s ∈ w.clients := by
    intro s hs
    cases input with
    | request socket location client junk connect =>
        have heq : s = socket := hs
        exact heq ▸ hposs.1
    | _ => exact hs.elim
  obtain ⟨index₁, hwatch₁, hok₁⟩ := h.register hposs
  obtain ⟨hfds, index₂, hwatch₂, hok₂⟩ := World.input_rule
    (@SleepSo.keeps efd refused index₁ w.clients hnone input.assigns (w.takes input) hnew) hw hposs hinput hguard
    ⟨index₁, rfl, hok₁⟩
  have hawake : ∀ {s}, s ∈ w.clients → s ∉ w'.clients → ∀ r, (w'.ctx.req r).sleeping = true →
      (w'.ctx.req r).fd ≠ s := fun hs hgone r hr => World.gone_awake hw hposs hinput hs hgone hr
  obtain ⟨index₃, hwatch₃, hok₃⟩ := @SleepOk.dels efd _ _ _ (w.clients.filter (· ∉ w'.clients)) hok₂
    (fun s hs => hawake (List.mem_filter.mp hs).1 (of_decide_eq_true (List.mem_filter.mp hs).2))
    fun s hs i heq => hfds.clients i (heq ▸ (List.mem_filter.mp hs).1)
  refine ⟨index₃, ?_, ?_, hok₃.request, hok₃.awake, hok₃.conn⟩
  · rw [watch_append, watch_append, hwatch₁, Option.bind_some, hwatch₂]
    exact hwatch₃
  · intro r hr
    by_contra hgone
    exact hawake (hok₃.client r hr) hgone r hr rfl

/-- **Wake-ups.**  As long as no client hung up while its request slept and a backend had
it, the server runs, and a request is marked as asleep only while the socket of its
client is registered and asleep. -/
theorem wakeup_of_guarded {efd : Int} {config : FcgiConfig} {w : World} {v : Watched} {inputs : List WatchedInput}
    (hinit : w.Initial config)
    (hrun : Run (Guarded (Watched.Guard config) (Watched.Step efd config)) { world := w } inputs v) :
    ∃ index, v.index = some index ∧ ∀ r, (v.world.ctx.req r).sleeping = true →
      (v.world.ctx.req r).fd ∈ v.world.clients ∧ index.modeOf efd (v.world.ctx.req r).fd = some .sleep := by
  obtain ⟨-, index, hindex, hok⟩ : WorldOk v.world ∧
      ∃ index, v.index = some index ∧ SleepOk efd v.world.clients v.world.ctx index := by
    refine hrun.guarded_invariant (I := fun v => WorldOk v.world ∧
      ∃ index, v.index = some index ∧ SleepOk efd v.world.clients v.world.ctx index) ?_ ⟨.initial hinit, _, rfl, ?_⟩
    · rintro v input v' ⟨hw, index, hindex, hok⟩ hguard ⟨index', hindex', hposs, hstep⟩
      obtain rfl : index = index' := Option.some.inj (hindex.symm.trans hindex')
      cases input with
      | plugin input refused =>
          obtain ⟨⟨w', effects⟩, hinput, rfl⟩ := Option.map_eq_some_iff.mp hstep
          exact ⟨hw.input hposs.1 hinput, hok.input hw hposs.1 hguard hinput refused⟩
      | core socket mode =>
          obtain ⟨hclient, hawake, hmode⟩ := hposs
          cases hstep
          obtain ⟨index', hstep⟩ :
              ∃ index', index.step (.changeMode efd socket mode mkEpollLevelTriggered) = some index' := by
            obtain rfl | rfl := hmode <;> exact ⟨_, rfl⟩
          refine ⟨hw, index', hstep, hok.step_of_awake rfl hstep ?_ ?_⟩
          · exact fun r hs heq => hawake (heq ▸ hok.request r hs)
          · exact fun i _ heq => hw.fds.clients i (heq ▸ hclient)
    · refine ⟨fun r hr => ?_, fun r hr => ?_, fun r _ => ?_, fun i hi => ?_⟩
      · simp [hinit.req r] at hr
      · simp [hinit.req r] at hr
      · rw [hinit.req r]
      · obtain ⟨type, server, location, heq⟩ := hinit.conn i
        simp [heq, fcgiFdInit] at hi
  exact ⟨index, hindex, fun r hr => ⟨hok.client r hr, hok.request r hr⟩⟩

/-- A run under a condition that ends as `p` says. -/
theorem Watched.exists_guarded_run {efd : Int} {config : FcgiConfig} {v : Watched} {inputs : List WatchedInput}
    {P : Watched → WatchedInput → Prop} [∀ v i, Decidable (P v i)] {p : Watched → Bool}
    (h : (inputs.foldlM (fun v i => if P v i then
        v.index.bind fun index => if v.Possible efd index i then v.input efd config index i else none
      else none) v).any p = true) :
    ∃ v', Run (Guarded P (Watched.Step efd config)) v inputs v' ∧ p v' = true := by
  obtain ⟨v', hv', hp⟩ := (Option.any_eq_true ..).mp h
  refine ⟨v', (Run.guarded_of_foldlM hv').mono fun v i v' hs => ⟨hs.1, ?_⟩, hp⟩
  obtain ⟨index, hindex, hstep⟩ := Option.bind_eq_some_iff.mp hs.2
  obtain ⟨hposs, hstep⟩ := Option.ite_none_right_eq_some.mp hstep
  exact ⟨index, hindex, hposs, hstep⟩

/-- A client whose request waits for its backend is woken up by the answer. -/
theorem wakeup_request_answered :
    ∃ v, Run (Guarded (Watched.Guard oneBackend) (Watched.Step 3 oneBackend)) { world := oneWorker }
        ([.plugin (.accept 5) false, .core 5 .write, .plugin (.request 5 (some 0) {} {} (some 11)) false,
          .plugin (.write 11 { sent := .wrote 264 } none) false,
          .plugin (.read 11 [.data backendAnswer, .again] none) false,
          .plugin (.write 5 { sent := .wrote 1 } none) false]) v ∧ v.index ≠ none := by
  obtain ⟨v, hrun, -⟩ := @Watched.exists_guarded_run 3 oneBackend { world := oneWorker }
    [.plugin (.accept 5) false, .core 5 .write, .plugin (.request 5 (some 0) {} {} (some 11)) false,
      .plugin (.write 11 { sent := .wrote 264 } none) false,
      .plugin (.read 11 [.data backendAnswer, .again] none) false,
      .plugin (.write 5 { sent := .wrote 1 } none) false]
    (Watched.Guard oneBackend) _ (fun _ => true) (by decide +kernel)
  obtain ⟨index, hindex, -⟩ := wakeup_of_guarded oneWorker_initial hrun
  exact ⟨v, hrun, by rw [hindex]; exact Option.some_ne_none index⟩

/-- A client hangs up while its request is being sent, and the backend refuses the
request: no descriptor is woken up, which ends the server. -/
theorem not_wakeup_after_hangup :
    ∃ v, Run (Watched.Step 3 oneBackend) { world := oneWorker }
        [.plugin (.accept 5) false, .core 5 .write, .plugin (.request 5 (some 0) {} {} (some 11)) false,
          .plugin (.write 11 { sent := .wrote 100 } none) false, .plugin (.hangup 5 none) false,
          .plugin (.read 11 [.data [1, 3, 0, 2, 0, 8, 0, 0, 0, 0, 0, 0, 2, 0, 0, 0]] none) false] v ∧
      v.index = none := by
  obtain ⟨v, hrun, hv⟩ := @Watched.exists_guarded_run 3 oneBackend { world := oneWorker }
    [.plugin (.accept 5) false, .core 5 .write, .plugin (.request 5 (some 0) {} {} (some 11)) false,
      .plugin (.write 11 { sent := .wrote 100 } none) false, .plugin (.hangup 5 none) false,
      .plugin (.read 11 [.data [1, 3, 0, 2, 0, 8, 0, 0, 0, 0, 0, 0, 2, 0, 0, 0]] none) false]
    (fun _ _ => True) (fun _ _ => inferInstanceAs (Decidable True)) (fun v => v.index = none) (by decide +kernel)
  exact ⟨v, hrun.of_guarded, of_decide_eq_true hv⟩

end Monkey.Fastcgi
