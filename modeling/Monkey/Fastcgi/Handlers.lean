import Monkey.Fastcgi.Context
import Monkey.Fastcgi.Prepare
import Monkey.Fastcgi.Recv
import Monkey.Connection
import Monkey.Epoll

/-!
# Monkey.Fastcgi.Handlers

The event handlers of the FastCGI plugin (`fastcgi.c`) on the context of one worker
thread: the stage 30 hook, the read and write events, and the hang-up of a client or
a backend.

A handler returns the new context and what it asked of the core and the kernel, in
order.  What the kernel answers is a parameter; there is no result for answers a
kernel does not give, and none where the code runs over one of its buffers.

The plugin keeps a request and a connection by their places in the lists of the thread, as the
source does by pointers into arrays that never move.  Logging and the lookups of the core are
left out, and so is what goes on in a backend.  Which orders of calls are possible is not said
here but in `Monkey.Fastcgi.World`.
-/

namespace Monkey.Fastcgi

/-! ## the context -/

namespace FcgiContext

def req (ctx : FcgiContext) (r : Nat) : Request := ctx.rl.rs.getD r {}

def conn (ctx : FcgiContext) (i : Nat) : FcgiFd := ctx.fds.getD i (fcgiFdInit .unix 0 0)

/-- The context after a search of the list, which moves only the cache and the hands. -/
def withRl (ctx : FcgiContext) (rl : RequestList) : FcgiContext := { ctx with rl := rl }

def setReq (ctx : FcgiContext) (r : Nat) (q : Request) : FcgiContext :=
  { ctx with rl := { ctx.rl with rs := ctx.rl.rs.set r q } }

def setConn (ctx : FcgiContext) (i : Nat) (f : FcgiFd) : FcgiContext :=
  { ctx with fds := ctx.fds.set i f }

theorem getD_set {α : Type} (l : List α) (i j : Nat) (a d : α) :
    (l.set i a).getD j d = if j = i ∧ i < l.length then a else l.getD j d := by
  rw [List.getD_eq_getElem?_getD, List.getD_eq_getElem?_getD, List.getElem?_set]
  by_cases hij : i = j
  · subst hij
    by_cases hlt : i < l.length
    · simp [hlt]
    · simp [hlt]
  · rw [if_neg hij, if_neg fun h => hij h.1.symm]

theorem req_setReq (ctx : FcgiContext) (r r' : Nat) (q : Request) :
    (ctx.setReq r q).req r' = if r' = r ∧ r < ctx.rl.rs.length then q else ctx.req r' :=
  getD_set ..

theorem conn_setConn (ctx : FcgiContext) (i j : Nat) (f : FcgiFd) :
    (ctx.setConn i f).conn j = if j = i ∧ i < ctx.fds.length then f else ctx.conn j :=
  getD_set ..

theorem req_withRl {ctx : FcgiContext} {rl : RequestList} (h : rl.rs = ctx.rl.rs) (r : Nat) :
    (ctx.withRl rl).req r = ctx.req r := by
  rw [req, req, withRl, h]

@[simp]
theorem conn_withRl (ctx : FcgiContext) (rl : RequestList) (i : Nat) : (ctx.withRl rl).conn i = ctx.conn i := rfl

@[simp]
theorem req_setConn (ctx : FcgiContext) (i r : Nat) (f : FcgiFd) : (ctx.setConn i f).req r = ctx.req r := rfl

@[simp]
theorem conn_setReq (ctx : FcgiContext) (r i : Nat) (q : Request) : (ctx.setReq r q).conn i = ctx.conn i := rfl

theorem req_setReq_self {ctx : FcgiContext} {r : Nat} (h : r < ctx.rl.rs.length) (q : Request) :
    (ctx.setReq r q).req r = q := by
  rw [req_setReq, if_pos ⟨rfl, h⟩]

theorem req_setReq_of_ne {ctx : FcgiContext} {r r' : Nat} (h : r' ≠ r) (q : Request) :
    (ctx.setReq r q).req r' = ctx.req r' := by
  rw [req_setReq, if_neg fun hc => h hc.1]

theorem conn_setConn_self {ctx : FcgiContext} {i : Nat} (h : i < ctx.fds.length) (f : FcgiFd) :
    (ctx.setConn i f).conn i = f := by
  rw [conn_setConn, if_pos ⟨rfl, h⟩]

theorem conn_setConn_of_ne {ctx : FcgiContext} {i j : Nat} (h : j ≠ i) (f : FcgiFd) :
    (ctx.setConn i f).conn j = ctx.conn j := by
  rw [conn_setConn, if_neg fun hc => h hc.1]

/-- A connection that keeps its number. -/
theorem conn_setConn_fd {ctx : FcgiContext} {i : Nat} {f : FcgiFd} (hf : f.fd = (ctx.conn i).fd) (j : Nat) :
    ((ctx.setConn i f).conn j).fd = (ctx.conn j).fd := by
  rw [conn_setConn]
  split
  · next hj => rw [hj.1, hf]
  · rfl

theorem setReq_setReq (ctx : FcgiContext) (r : Nat) (q q' : Request) :
    (ctx.setReq r q).setReq r q' = ctx.setReq r q' := by
  simp only [setReq, List.set_set]

@[simp]
theorem length_rs_setReq (ctx : FcgiContext) (r : Nat) (q : Request) :
    (ctx.setReq r q).rl.rs.length = ctx.rl.rs.length := List.length_set

@[simp]
theorem length_fds_setConn (ctx : FcgiContext) (i : Nat) (f : FcgiFd) :
    (ctx.setConn i f).fds.length = ctx.fds.length := List.length_set

end FcgiContext

/-- What a handler does outside the context.  `eventAdd` and `eventDel` name the slot of
the connection as well; `eventDel` is also the close of the socket. -/
inductive Effect
  | changeMode (fd : Int) (mode : EpollMode)
  | eventAdd (slot : Nat) (fd : Int)
  | eventDel (slot : Nat) (fd : Int)
  | sent (fd : Int) (bytes : Bytes)
  | headerSend (fd : Int) (rows : List Bytes) (contentLength : Nat)
  | requestError (fd : Int)
  | requestEnd (fd : Int) (keep : Bool)
deriving DecidableEq, Repr

/-- What an event handler returns. -/
structure HookRet where
  ret : EventRet
  ctx : FcgiContext
  effects : List Effect := []
deriving DecidableEq, Repr

/-! ## failing -/

/-- A sleeping request is woken up. -/
def wakeRequest (q : Request) : Request × List Effect :=
  if q.sleeping then ({ q with sleeping := false }, [.changeMode q.fd .wakeup]) else (q, [])

/-- The `error` labels: the request fails. -/
def failRequest (q : Request) : Request × List Effect := wakeRequest { q with state := .failed }

theorem wakeRequest_eq (q : Request) : (wakeRequest q).1 = { q with sleeping := false } := by
  unfold wakeRequest
  split
  · rfl
  · next hawake =>
      obtain ⟨state, sleeping, headersSent, fd, fcgiFd, clockId, client, iov⟩ := q
      obtain rfl : sleeping = false := by simpa using hawake
      rfl

theorem failRequest_eq (q : Request) : (failRequest q).1 = { q with state := .failed, sleeping := false } :=
  wakeRequest_eq _

/-! ## packages -/

/-- The error of a package: its request fails. -/
def pkgError (f : FcgiFd) (q : Request) : Bool × FcgiFd × Request × List Effect := (false, f, failRequest q)

/-- `FCGI_STDOUT`: the end of the stream, or a body to queue; `none` is an error. -/
def handleStdout (q : Request) (pkg : FcgiHeader × Bytes) : Option Request :=
  if q.state = .failed then some q
  else if pkg.1.bodyLen = 0 then requestSetState q .streamClosed
  else requestAddPkg q pkg.2

/-- `FCGI_END_REQUEST` for a request that was taken off its connection.  The statuses
of the body are only logged. -/
def handleEndRequest (f : FcgiFd) (q : Request) : Bool × FcgiFd × Request × List Effect :=
  match fcgiFdSetState f .ready with
  | none => pkgError f q
  | some f =>
      if q.fd = -1 then (true, f, requestRecycle q, [])
      else if q.state = .failed then (true, f, q, [])
      else
        match requestSetState q .ended with
        | some q => (true, f, wakeRequest q)
        | none => pkgError f q

/-- `fcgi_handle_pkg` with the request the package names. -/
def fcgiHandlePkg (f : FcgiFd) (q : Request) (pkg : FcgiHeader × Bytes) :
    Bool × FcgiFd × Request × List Effect :=
  if pkg.1.type = fcgiStderr then (true, f, q, [])
  else if pkg.1.type = fcgiStdout then
    match handleStdout q pkg with
    | some q => (true, f, q, [])
    | none => pkgError f q
  else if pkg.1.type = fcgiEndRequest then handleEndRequest f (requestSetFcgiFd q (-1))
  else if pkg.1.type = 0 then pkgError f q
  else (true, f, q, [])

/-- A package received on connection `i`: the request is found by the id of the
package, then the package is handled. -/
def recvPkg (i : Nat) (st : FcgiContext × List Effect) (pkg : FcgiHeader × Bytes) :
    Bool × FcgiContext × List Effect :=
  match st with
  | (ctx, effects) =>
      match requestListGet ctx.rl pkg.1.reqId with
      | (rl, none) => (false, ctx.withRl rl, effects)
      | (rl, some r) =>
          let ctx := ctx.withRl rl
          match fcgiHandlePkg (ctx.conn i) (ctx.req r) pkg with
          | (ok, f, q, new) => (ok, (ctx.setConn i f).setReq r q, effects ++ new)

/-- `fcgi_fd_set_state(fd, FCGI_FD_CLOSING)`. -/
def setClosing (i : Nat) (st : FcgiContext × List Effect) : Option (FcgiContext × List Effect) :=
  (fcgiFdSetState (st.1.conn i) .closing).map fun f => (st.1.setConn i f, st.2)

/-- `_mkp_event_read`. -/
def eventRead (ctx : FcgiContext) (socket : Int) (rs : List ReadResult) : Option HookRet :=
  match fcgiFdListGetByFd ctx.fds socket with
  | none => some ⟨.next, ctx, []⟩
  | some i =>
      (fcgiRecvResponse (recvPkg i) (setClosing i) rs (ctx.conn i).chunk (ctx, [])).map fun r =>
        let ctx := r.st.1.setConn i { r.st.1.conn i with chunk := r.chunk }
        ⟨if r.ok ∧ (ctx.conn i).state ≠ .closing then .owned else .close, ctx, r.st.2⟩

section config

variable (config : FcgiConfig)

/-! ## connections -/

/-- `fcgi_new_connection`; `connect` is what `fcgi_server_connect` returns. -/
def fcgiNewConnection (ctx : FcgiContext) (locationId : Nat) (connect : Option Int) :
    Bool × FcgiContext × List Effect :=
  match fcgiFdListGet ctx.fds [.available] locationId with
  | none => (true, ctx, [])
  | some i =>
      let f := ctx.conn i
      if f.serverId < config.servers.length then
        match connect with
        | none => (false, ctx.setConn i { f with fd := -1 }, [])
        | some fd => (true, ctx.setConn i { f with fd := fd, state := .ready }, [.eventAdd i fd])
      else (false, ctx, [])

/-- `fcgi_wake_connection`: `false` when there is no connection to wake. -/
def fcgiWakeConnection (ctx : FcgiContext) (locationId : Nat) : Bool × FcgiContext × List Effect :=
  match fcgiFdListGet ctx.fds [.sleeping, .ready] locationId with
  | none => (false, ctx, [])
  | some i =>
      let f := ctx.conn i
      if f.state = .sleeping then
        (true, ctx.setConn i { f with state := .ready }, [.changeMode f.fd .wakeup])
      else (true, ctx, [])

/-- `hangup`. -/
def hangup (ctx : FcgiContext) (socket : Int) (connect : Option Int) : HookRet :=
  match fcgiFdListGetByFd ctx.fds socket with
  | some i =>
      let f := ctx.conn i
      let closed := ctx.setConn i { f with fd := -1, state := .available }
      if f.state = .closing then
        match fcgiNewConnection config closed f.locationId connect with
        | (_, ctx, effects) => ⟨.owned, ctx, .eventDel i f.fd :: effects⟩
      else ⟨.owned, closed, [.eventDel i f.fd]⟩
  | none =>
      match requestListGetByFd ctx.rl socket with
      | (rl, none) => ⟨.next, ctx.withRl rl, []⟩
      | (rl, some r) =>
          let ctx := ctx.withRl rl
          let q : Request := { ctx.req r with state := .failed }
          let q := if q.fcgiFd = -1 then requestRecycle q else { q with fd := -1, client := none }
          ⟨.continue, ctx.setReq r q, []⟩

/-- `http_request_end`: a connection that is not kept is closed, which runs the close
hook of the plugin. -/
def httpRequestEnd (ctx : FcgiContext) (fd : Int) (keep : Bool) : FcgiContext × List Effect :=
  if keep then (ctx, [.requestEnd fd true])
  else
    let h := hangup config ctx fd none
    (h.ctx, .requestEnd fd false :: h.effects)

/-! ## stage 30 -/

/-- What the memory held before: of the request buffer, and of the buffer of the URI. -/
structure Junk where
  buffer : Nat → UInt8 := fun _ => 0
  tmpuri : Nat → UInt8 := fun _ => 0

/-- Everything written or referred to lies in the buffer. -/
def Prepared.inBounds (p : Prepared) : Bool :=
  p.writes.all (fun w => w.off + w.bytes.length ≤ prepareLen) &&
    p.entries.all fun e => match e with | .buffer off len => off + len ≤ prepareLen | .data => true

/-- `fcgi_prepare_request` on the output vector of slot `r`: `none` where it runs over
a buffer, else the vector or a failure. -/
def prepareIov (junk : Junk) (rl : RequestList) (r : Nat) (q : Request) (client : ClientRequest) :
    Option (Option ChunkIov) :=
  match fcgiPrepareRequest junk.tmpuri (requestListIndexOf rl r) (config.locations[q.clockId.toNat]?)
      q.iov client with
  | .ok p =>
      if p.inBounds then some (some { q.iov with io := q.iov.io ++ p.io junk.buffer client.data }) else none
  | .failed => some none
  | .fault => none

/-- A connection for the request: one that is there is used, else one is made. -/
def stage30Connect (ctx : FcgiContext) (locationId : Nat) (connect : Option Int) :
    Bool × FcgiContext × List Effect :=
  match fcgiWakeConnection ctx locationId with
  | (true, ctx, effects) => (true, ctx, effects)
  | (false, ctx, _) => fcgiNewConnection config ctx locationId connect

/-- The `error` label of `_mkp_stage_30`. -/
def stage30Error (ctx : FcgiContext) (r : Nat) (effects : List Effect) : FcgiContext × List Effect :=
  let q := failRequest (ctx.req r)
  (ctx.setReq r q.1, effects ++ q.2)

/-- `_mkp_stage_30` with the slot `r` for the request. -/
def stage30Slot (ctx : FcgiContext) (r : Nat) (socket : Int) (location : Nat) (client : ClientRequest)
    (junk : Junk) (connect : Option Int) : Option (FcgiContext × List Effect) :=
  match requestAssign (ctx.req r) socket (UInt16.ofNat location) client with
  | none => some (stage30Error ctx r [])
  | some q =>
      match prepareIov config junk ctx.rl r q client with
      | none => none
      | some none => some (stage30Error (ctx.setReq r { q with iov := chunkIovReset q.iov }) r [])
      | some (some iov) =>
          match stage30Connect config (ctx.setReq r { q with iov := iov }) location connect with
          | (false, ctx, effects) => some (stage30Error ctx r effects)
          | (true, ctx, effects) =>
              some (ctx.setReq r { ctx.req r with sleeping := true }, effects ++ [.changeMode socket .sleep])

/-- `_mkp_stage_30` for a request whose path matches `location`. -/
def stage30 (ctx : FcgiContext) (socket : Int) (location : Option Nat) (client : ClientRequest)
    (junk : Junk) (connect : Option Int) : Option (Stage30Ret × FcgiContext × List Effect) :=
  match requestListGetByFd ctx.rl socket with
  | (rl, some _) => some (.continue, ctx.withRl rl, [])
  | (rl, none) =>
      match location with
      | none => some (.notMe, ctx.withRl rl, [])
      | some location =>
          match requestListNextAvailable rl (UInt16.ofNat location) with
          | none => some (.continue, ctx.withRl rl, [])
          | some r =>
              (stage30Slot config (ctx.withRl rl) r socket location client junk connect).map (.continue, ·)

/-! ## write events -/

/-- What `writev` returned. -/
inductive SendResult
  | wrote (n : Nat)
  | again
  | error
deriving DecidableEq, Repr

/-- `chunk_iov_sendv`; nothing is sent of an empty vector. -/
def chunkIovSendv (iov : ChunkIov) (res : SendResult) : Option SendResult :=
  if 0 < iov.index then
    match res with
    | .wrote n =>
        if n ≤ chunkIovLength iov ∧ (0 < n ∨ chunkIovLength iov = 0) then some (.wrote n) else none
    | res => some res
  else some (.wrote 0)

/-- The answers of the world to a write event: `beyond` is the memory behind the first
entry of the response, `keep` whether the connection of the client is kept alive. -/
structure WriteIo where
  sent : SendResult
  beyond : Bytes := []
  keep : Bool := true

/-- The loop of `fcgi_parse_cgi_headers` from position `pos`: a line is searched in as
many bytes as the first entry has, from wherever the last one ended. -/
def parseHeaderLines (entry beyond : Bytes) : Nat → Nat → Nat × List Bytes
  | 0, pos => (pos, [])
  | fuel + 1, pos =>
      if pos < entry.length then
        match memchr ((entry ++ beyond).drop pos) 0x0a entry.length with
        | none => (pos, [])
        | some k =>
            if k ≤ 2 then (pos + k + 1, [])
            else
              let rest := parseHeaderLines entry beyond fuel (pos + k + 1)
              (rest.1, ((entry ++ beyond).drop pos).take (k + 1) :: rest.2)
      else (pos, [])

/-- `fcgi_parse_cgi_headers`: how many bytes the headers take, and their lines. -/
def fcgiParseCgiHeaders (entry beyond : Bytes) : Nat × List Bytes :=
  parseHeaderLines entry beyond entry.length 0

/-- `fcgi_send_response_headers`.  In an empty vector the first entry is an old one,
but nothing can be dropped whatever it holds. -/
def fcgiSendResponseHeaders (q : Request) (beyond : Bytes) : Option (Request × List Effect) :=
  if q.headersSent then some (q, [])
  else
    match q.iov.io with
    | [] => none
    | entry :: _ =>
        match fcgiParseCgiHeaders entry beyond with
        | (offset, rows) =>
            (chunkIovDrop q.iov offset).map fun iov =>
              ({ q with iov := iov, headersSent := true }, [.headerSend q.fd rows (chunkIovLength iov)])

/-- `fcgi_send_response`; the inner `Option` is its return value. -/
def fcgiSendResponse (ctx : FcgiContext) (r : Nat) (io : WriteIo) :
    Option (Bool × FcgiContext × List Effect) :=
  let q := ctx.req r
  if q.headersSent then
    match chunkIovSendv q.iov io.sent with
    | none => none
    | some (.wrote n) =>
        let sent := [Effect.sent q.fd (q.iov.bytes.take n)]
        if n = chunkIovLength q.iov then
          match requestSetState q .finished with
          | none => some (false, ctx, sent)
          | some finished =>
              match httpRequestEnd config (ctx.setReq r (requestRecycle finished)) q.fd io.keep with
              | (ctx, effects) => some (true, ctx, sent ++ effects)
        else
          match chunkIovDrop q.iov n with
          | none => some (false, ctx, sent)
          | some iov => some (true, ctx.setReq r { q with iov := iov }, sent)
    | some _ => some (false, ctx, [])
  else some (false, ctx, [])

/-- The `error` label of `_mkp_event_write` for a request. -/
def eventWriteError (ctx : FcgiContext) (r : Nat) (effects : List Effect) : HookRet :=
  let q := failRequest (ctx.req r)
  ⟨.close, ctx.setReq r q.1, effects ++ q.2⟩

/-- `_mkp_event_write` on the socket of a client with request `r`. -/
def eventWriteClient (ctx : FcgiContext) (r : Nat) (socket : Int) (io : WriteIo) : Option HookRet :=
  let q := ctx.req r
  match q.state with
  | .ended =>
      match fcgiSendResponseHeaders q io.beyond with
      | none => some (eventWriteError ctx r [])
      | some (q, headers) =>
          match fcgiSendResponse config (ctx.setReq r q) r io with
          | none => none
          | some (true, ctx, effects) => some ⟨.owned, ctx, headers ++ effects⟩
          | some (false, ctx, effects) => some (eventWriteError ctx r (headers ++ effects))
  | .failed =>
      let ctx := if q.fcgiFd = -1 then ctx.setReq r (requestRecycle q) else ctx
      match httpRequestEnd config ctx socket io.keep with
      | (ctx, effects) => some ⟨.owned, ctx, .requestError q.fd :: effects⟩
  | _ => some ⟨.continue, ctx, []⟩

/-- `_mkp_event_write` on a connection that is sending. -/
def eventWriteSending (ctx : FcgiContext) (i : Nat) (res : SendResult) : Option HookRet :=
  let f := ctx.conn i
  match f.beginReq with
  | none => some ⟨.close, ctx, []⟩
  | some r =>
      let q := ctx.req r
      match chunkIovSendv q.iov res with
      | none => none
      | some .error => some ⟨.close, ctx, []⟩
      | some .again => some ⟨.owned, ctx, []⟩
      | some (.wrote n) =>
          let sent := [Effect.sent f.fd (q.iov.bytes.take n)]
          let remain := (f.beginReqRemain + 2 ^ 64 - n) % 2 ^ 64
          if remain = 0 then
            some ⟨.owned, (ctx.setConn i { f with state := .receiving, beginReqRemain := 0, beginReq := none }).setReq r
              { q with iov := chunkIovReset q.iov }, sent⟩
          else
            some ⟨.owned, (ctx.setConn i { f with beginReqRemain := remain }).setReq r
              { q with iov := (chunkIovDrop q.iov n).getD q.iov }, sent⟩

/-- `_mkp_event_write` on a connection that is ready: the next request of its location
is sent on it; without one it sleeps, or is closed if it is not kept alive. -/
def eventWriteReady (ctx : FcgiContext) (i : Nat) (res : SendResult) : Option HookRet :=
  let f := ctx.conn i
  match requestListNextAssigned ctx.rl (UInt16.ofNat f.locationId) with
  | (rl, some r) =>
      let ctx := ctx.withRl rl
      let q := requestSetFcgiFd (ctx.req r) f.fd
      match requestSetState q .sent with
      | none => some (eventWriteError (ctx.setReq r q) r [])
      | some q =>
          let ctx := ctx.setReq r q
          match (fcgiFdSetBeginReqIov f r q.iov).bind (fcgiFdSetState · .sending) with
          | none => some (eventWriteError ctx r [])
          | some f => eventWriteSending (ctx.setConn i f) i res
  | (rl, none) =>
      let ctx := ctx.withRl rl
      match config.locations[f.locationId]? with
      | none => some ⟨.close, ctx, []⟩
      | some location =>
          if location.keepAlive then
            some ⟨.owned, ctx.setConn i { f with state := .sleeping }, [.changeMode f.fd .sleep]⟩
          else some ⟨.close, ctx, []⟩

/-- `_mkp_event_write`. -/
def eventWrite (ctx : FcgiContext) (socket : Int) (io : WriteIo) : Option HookRet :=
  match fcgiFdListGetByFd ctx.fds socket with
  | some i =>
      match (ctx.conn i).state with
      | .ready => eventWriteReady config ctx i io.sent
      | .sending => eventWriteSending ctx i io.sent
      | _ => some ⟨.continue, ctx, []⟩
  | none =>
      match requestListGetByFd ctx.rl socket with
      | (rl, none) => some ⟨.next, ctx.withRl rl, []⟩
      | (rl, some r) => eventWriteClient config (ctx.withRl rl) r socket io

/-! ## the event loop -/

/-- A handler that returns `MK_PLUGIN_RET_EVENT_CLOSE` has its descriptor closed by the
core, through the close hook. -/
def closeAfter (h : HookRet) (socket : Int) (connect : Option Int) : HookRet :=
  match h.ret with
  | .close =>
      let c := hangup config h.ctx socket connect
      ⟨.close, c.ctx, h.effects ++ c.effects⟩
  | _ => h

end config

end Monkey.Fastcgi
