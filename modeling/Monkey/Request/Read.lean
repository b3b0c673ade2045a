import Monkey.Http.Init

/-!
# Monkey.Request.Read

The receiving side of a session: `mk_handler_read` fills and grows the buffer,
`mk_http_pending_request` decides whether a whole request has arrived,
`mk_request_parse` cuts the buffer into request blocks and `mk_request_ka_next`
prepares the session for the next keep-alive round.

What `read` and `realloc` answer are arguments.  A session has one buffer, and what lies in it
behind the requests of a round is dropped when the round ends: it is either part of the batch
or lost.
-/

namespace Monkey

/-- `MK_REQUEST_CHUNK`. -/
def mkRequestChunk : Nat := 4096

/-- `mk_session_create`, for a connection registered at `arriveTime`.  The buffer is the fixed one
of the session; a larger one is allocated when it is full. -/
def mkSessionCreate (socket arriveTime : Int) : ClientSession :=
  { socket := socket, bodySize := mkRequestChunk, initTime := arriveTime }

/-! ## mk_handler_read -/

/-- What `mk_socket_read` returns: bytes, end of file, `EAGAIN` or an error. -/
inductive SocketRead
  | data (bytes : Bytes)
  | eof
  | again
  | error
deriving DecidableEq, Repr

/-- The buffer growth at the head of `mk_handler_read`: the new session, or the
status of the premature close. -/
def mkHandlerReadGrow (cfg : Config) (reallocOk : Bool) (cs : ClientSession) :
    Except Int ClientSession :=
  if (cs.bodySize : Int) - cs.bodyLength ≤ 0 then
    let newSize := cs.bodySize + mkRequestChunk
    if (newSize : Int) ≥ cfg.maxRequestSize then .error mkClientRequestEntityTooLarge
    else if cs.bodyFixed then .ok { cs with bodyFixed := false, bodySize := newSize }
    else if reallocOk then .ok { cs with bodySize := newSize }
    else .error mkServerInternalError
  else .ok cs

/-- How `mk_handler_read` ends: a premature close with a status, the session
removed, or a positive count with the updated session. -/
inductive HandlerRead
  | premature (status : Int)
  | removed
  | done (ret : Int) (cs : ClientSession)

/-- `mk_handler_read`: at most the free space of the buffer is read.  `reallocOk` is the answer to
a request for memory.  The NUL that the function puts behind the bytes read is not stored: the
searches of the model end at the bytes received, as those of the source end at the NUL, and where
it lies in the buffer is the subject of `Monkey.Request.Buffer`. -/
def mkHandlerRead (cfg : Config) (reallocOk : Bool) (rd : SocketRead) (cs : ClientSession) :
    HandlerRead :=
  match mkHandlerReadGrow cfg reallocOk cs with
  | .error status => .premature status
  | .ok cs =>
      match rd with
      | .again => .done 1 cs
      | .error => .removed
      | .eof => .removed
      | .data bytes =>
          match bytes.take (cs.bodySize - cs.bodyLength) with
          | [] => .removed
          | b :: bs => .done (bs.length + 1) { cs with body := cs.body ++ b :: bs }

/-! ## mk_http_pending_request -/

/-- The end of the header block: the tail of the buffer is tried first, then the
first CRLFCRLF; a position once found is kept. -/
def pendingPosEnd (cs : ClientSession) : Int :=
  if cs.bodyPosEnd < 0 then
    if strncmp (cs.body.drop (cs.bodyLength - mkEndblock.length)) mkEndblock mkEndblock.length then
      cs.bodyLength - mkEndblock.length
    else mkStringSearch cs.body mkEndblock
  else cs.bodyPosEnd

/-- The POST and PUT branch of `mk_http_pending_request`. -/
def pendingData (cfg : Config) (cs : ClientSession) : Int × ClientSession :=
  if cs.bodyPosEnd > 0 then
    let current := (cs.bodyLength : Int) - cs.bodyPosEnd - mkEndblock.length
    let contentLength := toInt (mkMethodValidateContentLength cs.body current)
    if contentLength ≥ cfg.maxRequestSize then (0, cs)
    else if cs.bodyPosEnd = (cs.bodyLength : Int) - mkEndblock.length then
      if contentLength ≤ 0 then (0, { cs with status := .completed }) else (-1, cs)
    else if current < contentLength then (-1, cs)
    else (0, { cs with status := .completed })
  else (-1, cs)

/-- `mk_http_pending_request`: `0` when the request is complete, `-1` when more
data is expected.  It is asked after every read, with all that has arrived so far, and keeps in
the session the end of the header block once it is found. -/
def mkHttpPendingRequest (cfg : Config) (cs : ClientSession) : Int × ClientSession :=
  if cs.bodyLength ≥ mkEndblock.length then
    let posEnd := pendingPosEnd cs
    if posEnd < 0 then (-1, cs)
    else
      let cs := { cs with
        bodyPosEnd := posEnd
        firstMethod := if cs.firstMethod = .unknown then mkHttpMethodGet cs.body
          else cs.firstMethod }
      if cs.firstMethod = .post ∨ cs.firstMethod = .put then pendingData cfg cs
      else (0, { cs with status := .completed })
  else (-1, cs)

/-! ## mk_request_parse -/

/-- The node `mk_request_parse` builds for the block from `i` to `stop`. -/
def requestNode (cs : ClientSession) (i : Nat) (stop : Int) : SessionRequest :=
  let body : MkPointer := ⟨some (cs.body.drop i), toULong (stop - i)⟩
  let method := if i = 0 then cs.firstMethod else mkHttpMethodGet (cs.body.drop i)
  let offset := stop + mkEndblock.length
  { body := body, method := method,
    data := if method = .post then
        ⟨some (cs.body.drop offset.toNat), toULong (toInt (cs.bodyLength - offset))⟩ else {} }

/-- The loop of `mk_request_parse` from index `i`, as long as
`i <= body_pos_end`.  Every round moves `i` forward, so `body_pos_end + 2` rounds
are enough.  `none` is the `return -1` on a block without end. -/
def mkRequestParseLoop (cs : ClientSession) : Nat → Nat → Option (List SessionRequest)
  | 0, _ => some []
  | fuel + 1, i =>
      if (i : Int) ≤ cs.bodyPosEnd then
        -- blocks are searched for only from the second round of the session on
        let stop := if cs.counterConnections > 0 then
            mkStringSearch (cs.body.drop i) mkEndblock + i else cs.bodyPosEnd
        if stop < 0 then none
        else
          (mkRequestParseLoop cs fuel (stop + mkEndblock.length).toNat).map
            (requestNode cs i stop :: ·)
      else some []

/-- `mk_request_parse`: several blocks must all be GET or HEAD.  A node of the source points
into the buffer of the session; here it has the bytes from there on, and the length of its
block. -/
def mkRequestParse (cs : ClientSession) : Int × ClientSession :=
  match mkRequestParseLoop cs (cs.bodyPosEnd + 2).toNat 0 with
  | none => (-1, cs)
  | some nodes =>
      let cs := { cs with requestList := cs.requestList ++ nodes }
      if nodes.length > 1 then
        if cs.requestList.all fun sr => sr.method == .get || sr.method == .head then
          (0, { cs with pipelined := true })
        else (-1, cs)
      else (0, cs)

/-- `mk_request_ka_next`: the session is as new but for its socket, its buffer and its counter.
The nodes of the round are freed before (`mk_request_free_list`), and `pipelined` stays as it
was. -/
def mkRequestKaNext (now : Int) (cs : ClientSession) : ClientSession :=
  { cs with
    firstMethod := .unknown, bodyPosEnd := -1, body := [],
    counterConnections := cs.counterConnections + 1,
    initTime := now, status := .incomplete }

end Monkey
