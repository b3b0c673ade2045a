import Monkey.Fastcgi.World

/-!
# Monkey.Fastcgi.Moves

What the handlers of the FastCGI plugin can do to the context, said once.

A handler is a sequence of moves (`Moved`), each a change of one request, of one
connection, or of both where the code links them.  Some changes are not moves, since
whether they keep the context in order depends on more than their own guards: a
package (`recvPkg`), a connection given up or closed (`setClosing`, `hangup`) and the
hang-up of a client.
-/

namespace Monkey.Fastcgi

/-- Effects that neither the descriptors nor the next request of a client depend on. -/
def Effect.quiet : Effect → Bool
  | .sent .. | .headerSend .. | .requestError .. => true
  | _ => false

/-- One move, with its effects; a request may be assigned for the sockets that are `new`,
the kernel gives out the numbers that are `free`, and a connection `takes` the request
it found. -/
inductive Moved (new free : Int → Prop) (takes : Nat → Nat → Prop) (ctx : FcgiContext) : List Effect → FcgiContext → Prop
  | say {e : Effect} (he : e.quiet = true) : Moved new free takes ctx [e] ctx
  | search {rl : RequestList} (hrs : rl.rs = ctx.rl.rs) : Moved new free takes ctx [] (ctx.withRl rl)
  | assign {r : Nat} {socket : Int} {clockId : UInt16} {client : ClientRequest} {q : Request}
      (hr : r < ctx.rl.rs.length) (hav : (ctx.req r).state = .available)
      (hnew : ∀ r', (ctx.req r').fd ≠ socket) (hsocket : new socket)
      (hq : requestAssign (ctx.req r) socket clockId client = some q) : Moved new free takes ctx [] (ctx.setReq r q)
  | output (r : Nat) (iov : ChunkIov) (headersSent : Bool) (hbusy : (ctx.req r).state ≠ .available) :
      Moved new free takes ctx [] (ctx.setReq r { ctx.req r with iov := iov, headersSent := headersSent })
  | sleep {r : Nat} (hstate : (ctx.req r).state = .assigned) (hsocket : new (ctx.req r).fd) :
      Moved new free takes ctx [.changeMode (ctx.req r).fd .sleep] (ctx.setReq r { ctx.req r with sleeping := true })
  | fail (r : Nat) : Moved new free takes ctx (failRequest (ctx.req r)).2 (ctx.setReq r (failRequest (ctx.req r)).1)
  | recycle (r : Nat) : Moved new free takes ctx [] (ctx.setReq r (requestRecycle (ctx.req r)))
  | connect {i : Nat} {fd : Int} (hi : i < ctx.fds.length) (hav : (ctx.conn i).state = .available)
      (hfree : free fd) (hfresh : ∀ j, (ctx.conn j).fd ≠ fd) :
      Moved new free takes ctx [.eventAdd i fd] (ctx.setConn i { ctx.conn i with fd := fd, state := .ready })
  | unconnected {i : Nat} (hav : (ctx.conn i).state = .available) :
      Moved new free takes ctx [] (ctx.setConn i { ctx.conn i with fd := -1 })
  | wake {i : Nat} (hf : (ctx.conn i).state = .sleeping) :
      Moved new free takes ctx [.changeMode (ctx.conn i).fd .wakeup] (ctx.setConn i { ctx.conn i with state := .ready })
  | doze {i : Nat} (hf : (ctx.conn i).state = .ready) :
      Moved new free takes ctx [.changeMode (ctx.conn i).fd .sleep] (ctx.setConn i { ctx.conn i with state := .sleeping })
  | take {i r : Nat} {remain : Nat} (htakes : takes i r) (hi : i < ctx.fds.length) (hr : r < ctx.rl.rs.length)
      (hf : (ctx.conn i).state = .ready) (hq : (ctx.req r).state = .assigned)
      (hclock : (ctx.req r).clockId = UInt16.ofNat (ctx.conn i).locationId) :
      Moved new free takes ctx [] ((ctx.setReq r { ctx.req r with fcgiFd := (ctx.conn i).fd, state := .sent }).setConn i
        { ctx.conn i with state := .sending, beginReqRemain := remain, beginReq := some r })
  | progress {i r : Nat} {remain : Nat} {begin? : Option Nat} {state : FcgiFdState} (iov : ChunkIov)
      (hf : (ctx.conn i).state = .sending) (hbegin : (ctx.conn i).beginReq = some r)
      (hstate : state = .sending ∧ begin? = some r ∨ state = .receiving ∧ begin? = none)
      (hempty : (ctx.req r).iov.io = [] → iov.io = []) :
      Moved new free takes ctx [] ((ctx.setConn i { ctx.conn i with state := state, beginReqRemain := remain, beginReq := begin? }).setReq r
        { ctx.req r with iov := iov })

/-- Moves in order. -/
inductive Moves (new free : Int → Prop) (takes : Nat → Nat → Prop) : FcgiContext → List Effect → FcgiContext → Prop
  | nil (ctx : FcgiContext) : Moves new free takes ctx [] ctx
  | cons {ctx ctx' ctx'' : FcgiContext} {es es' : List Effect} :
      Moved new free takes ctx es ctx' → Moves new free takes ctx' es' ctx'' → Moves new free takes ctx (es ++ es') ctx''

namespace Moves

variable {new free : Int → Prop} {takes : Nat → Nat → Prop}

theorem single {ctx ctx' : FcgiContext} {es : List Effect} (h : Moved new free takes ctx es ctx') :
    Moves new free takes ctx es ctx' := by
  have := Moves.cons h (.nil ctx')
  rwa [List.append_nil] at this

theorem trans {ctx ctx' ctx'' : FcgiContext} {es es' : List Effect} (h : Moves new free takes ctx es ctx')
    (h' : Moves new free takes ctx' es' ctx'') : Moves new free takes ctx (es ++ es') ctx'' := by
  induction h with
  | nil ctx => exact h'
  | cons hm _ ih =>
      rw [List.append_assoc]
      exact .cons hm (ih h')

/-- **What every move keeps, a handler keeps**, with the effects so far. -/
theorem invariant {I : FcgiContext → List Effect → Prop}
    (hI : ∀ ctx before es ctx', I ctx before → Moved new free takes ctx es ctx' → I ctx' (before ++ es))
    {ctx ctx' : FcgiContext} {before es : List Effect} (h : Moves new free takes ctx es ctx') (hctx : I ctx before) :
    I ctx' (before ++ es) := by
  induction h generalizing before with
  | nil ctx => rwa [List.append_nil]
  | cons hm _ ih =>
      rw [← List.append_assoc]
      exact ih (hI _ _ _ _ hctx hm)

/-- The number of slots stays. -/
theorem length_rs {ctx ctx' : FcgiContext} {es : List Effect} (h : Moves new free takes ctx es ctx') :
    ctx'.rl.rs.length = ctx.rl.rs.length := by
  refine @invariant new free takes (fun ctx' _ => ctx'.rl.rs.length = ctx.rl.rs.length) ?_ ctx ctx' [] es h rfl
  rintro ctx' - es ctx'' hlen hm
  rw [← hlen]
  cases hm with
  | search hrs => exact congrArg List.length hrs
  | _ => first | rfl | exact List.length_set

end Moves

/-! ## stage 30 -/

section config

variable {config : FcgiConfig} {new free : Int → Prop} {takes : Nat → Nat → Prop} {ctx : FcgiContext}

/-- The answer to a new connection is a number not in use. -/
def Unused (free : Int → Prop) (ctx : FcgiContext) (connect : Option Int) : Prop :=
  ∀ fd ∈ connect, free fd ∧ ∀ j, (ctx.conn j).fd ≠ fd

theorem fcgiNewConnection_moves {location : Nat} {connect : Option Int} (hfresh : Unused free ctx connect) :
    Moves new free takes ctx (fcgiNewConnection config ctx location connect).2.2
      (fcgiNewConnection config ctx location connect).2.1 := by
  simp only [fcgiNewConnection]
  split
  · exact .nil ctx
  · next i hi =>
      obtain ⟨hlt, hstate, -⟩ := fcgiFdListGet_some hi (fcgiFdInit .unix 0 0)
      have hav : (ctx.conn i).state = .available := List.mem_singleton.mp hstate
      split
      · cases connect with
        | none => exact .single (.unconnected hav)
        | some fd =>
            obtain ⟨hfree, hne⟩ := hfresh fd rfl
            exact .single (.connect hlt hav hfree hne)
      · exact .nil ctx

theorem fcgiWakeConnection_moves (location : Nat) :
    Moves new free takes ctx (fcgiWakeConnection ctx location).2.2 (fcgiWakeConnection ctx location).2.1 := by
  simp only [fcgiWakeConnection]
  split
  · exact .nil ctx
  · split
    · next hstate => exact .single (.wake hstate)
    · exact .nil ctx

theorem stage30Connect_moves {location : Nat} {connect : Option Int} (hfresh : Unused free ctx connect) :
    Moves new free takes ctx (stage30Connect config ctx location connect).2.2
      (stage30Connect config ctx location connect).2.1 := by
  have hwake := @fcgiWakeConnection_moves new free takes ctx location
  unfold stage30Connect
  split
  · next heq =>
      rw [heq] at hwake
      exact hwake
  · next ctx' _ heq =>
      -- a connection that is not there was not woken up
      have hsame : ctx' = ctx := by
        simp only [fcgiWakeConnection] at heq
        split at heq
        · exact (congrArg (·.2.1) heq).symm
        · split at heq <;> simp at heq
      rw [hsame]
      exact fcgiNewConnection_moves hfresh

theorem stage30Connect_req (location : Nat) (connect : Option Int) (r : Nat) :
    (stage30Connect config ctx location connect).2.1.req r = ctx.req r := by
  unfold stage30Connect fcgiWakeConnection fcgiNewConnection
  grind [FcgiContext.req_setConn]

theorem requestAssign_eq_some {q q' : Request} {socket : Int} {clockId : UInt16} {client : ClientRequest}
    (h : requestAssign q socket clockId client = some q') :
    q' = { q with state := .assigned, fd := socket, clockId := clockId, client := some client } := by
  unfold requestAssign requestSetState at h
  split at h
  · exact (Option.some.inj h).symm
  · contradiction

theorem stage30Slot_moves {r : Nat} {socket : Int} {location : Nat} {client : ClientRequest} {junk : Junk}
    {connect : Option Int} {ctx' : FcgiContext} {effects : List Effect}
    (hr : r < ctx.rl.rs.length) (hav : (ctx.req r).state = .available)
    (hnew : ∀ r', (ctx.req r').fd ≠ socket) (hsocket : new socket) (hfresh : Unused free ctx connect)
    (h : stage30Slot config ctx r socket location client junk connect = some (ctx', effects)) :
    Moves new free takes ctx effects ctx' := by
  unfold stage30Slot at h
  cases hassign : requestAssign (ctx.req r) socket (UInt16.ofNat location) client with
  | none =>
      simp only [hassign, Option.some.injEq] at h
      cases h
      exact .single (.fail r)
  | some q =>
      have hstep : Moved new free takes ctx [] (ctx.setReq r q) := .assign hr hav hnew hsocket hassign
      have hq := requestAssign_eq_some hassign
      -- the vector of the request is filled
      have hfill : ∀ iov, Moves new free takes ctx [] (ctx.setReq r { q with iov := iov }) := by
        intro iov
        have hout := @Moved.output new free takes (ctx.setReq r q) r iov q.headersSent
          (by rw [FcgiContext.req_setReq_self hr, hq]; simp)
        rw [FcgiContext.req_setReq_self hr, FcgiContext.setReq_setReq] at hout
        exact (Moves.single hstep).trans (.single hout)
      simp only [hassign] at h
      cases hprep : prepareIov config junk ctx.rl r q client with
      | none => simp [hprep] at h
      | some prepared =>
          cases prepared with
          | none =>
              simp only [hprep, Option.some.injEq] at h
              cases h
              exact (hfill _).trans (.single (.fail r))
          | some iov =>
              have hconn := @stage30Connect_moves config new free takes (ctx.setReq r { q with iov := iov }) location connect hfresh
              have hreq := @stage30Connect_req config (ctx.setReq r { q with iov := iov }) location connect r
              rw [FcgiContext.req_setReq_self hr] at hreq
              simp only [hprep] at h
              cases hret : stage30Connect config (ctx.setReq r { q with iov := iov }) location connect with
              | mk ok rest =>
                  obtain ⟨ctx1, es⟩ := rest
                  rw [hret] at hconn hreq h
                  have hsofar := (hfill iov).trans hconn
                  cases ok with
                  | false =>
                      simp only [Option.some.injEq] at h
                      cases h
                      exact hsofar.trans (.single (.fail r))
                  | true =>
                      simp only [Option.some.injEq] at h
                      cases h
                      have hsleep := @Moved.sleep new free takes ctx1 r (by rw [hreq, hq]) (by rw [hreq, hq]; exact hsocket)
                      rw [show (ctx1.req r).fd = socket by rw [hreq, hq]] at hsleep
                      exact hsofar.trans (.single hsleep)

/-- **The stage 30 hook** is made of moves. -/
theorem stage30_moves {socket : Int} {location : Option Nat} {client : ClientRequest} {junk : Junk}
    {connect : Option Int} {ret : Stage30Ret} {ctx' : FcgiContext} {effects : List Effect}
    (hsocket : new socket) (hne : socket ≠ -1) (hfresh : Unused free ctx connect)
    (h : stage30 config ctx socket location client junk connect = some (ret, ctx', effects)) :
    Moves new free takes ctx effects ctx' := by
  have hrs := requestListGetByFd_rs ctx.rl socket
  have hnone := @requestListGetByFd_none ctx.rl socket
  unfold stage30 at h
  cases hget : requestListGetByFd ctx.rl socket with
  | mk rl found =>
      rw [hget] at h hrs hnone
      have hsearch : Moves new free takes ctx [] (ctx.withRl rl) := .single (.search hrs)
      cases found with
      | some r =>
          cases h
          exact hsearch
      | none =>
          cases location with
          | none =>
              cases h
              exact hsearch
          | some location =>
              dsimp only at h
              split at h
              · cases h
                exact hsearch
              · next r hr =>
                  obtain ⟨hlt, hav⟩ := scanFrom_eq_some hr
                  have hav : ((ctx.withRl rl).req r).state = .available := eq_of_beq hav
                  have hnew : ∀ r', ((ctx.withRl rl).req r').fd ≠ socket := by
                    intro r'
                    rw [FcgiContext.req_withRl hrs]
                    by_cases hr' : r' < ctx.rl.rs.length
                    · exact hnone rfl hr'
                    · rw [FcgiContext.req, List.getD_eq_default _ _ (Nat.not_lt.mp hr')]
                      exact hne.symm
                  obtain ⟨s, hs, heq⟩ := Option.map_eq_some_iff.mp h
                  cases heq
                  exact hsearch.trans (stage30Slot_moves hlt hav hnew hsocket hfresh hs)

/-! ## write events -/

/-- Nothing can be dropped of an empty vector. -/
theorem chunkIovDrop_empty (n : Nat) {iov : ChunkIov} (h : iov.io = []) : ((chunkIovDrop iov n).getD iov).io = [] := by
  unfold chunkIovDrop
  split
  · rw [h]
    rfl
  · exact h

theorem eventWriteSending_moves {i : Nat} {res : SendResult} {h : HookRet}
    (hstate : (ctx.conn i).state = .sending) (hret : eventWriteSending ctx i res = some h) :
    Moves new free takes ctx h.effects h.ctx := by
  unfold eventWriteSending at hret
  dsimp only at hret
  split at hret
  · cases hret
    exact .nil ctx
  · next r hr =>
      split at hret
      · contradiction
      · cases hret
        exact .nil ctx
      · cases hret
        exact .nil ctx
      · next n _ =>
          have hsaid : Moved new free takes ctx [.sent (ctx.conn i).fd ((ctx.req r).iov.bytes.take n)] ctx := .say rfl
          split at hret
          · cases hret
            exact .cons hsaid (.single (.progress _ hstate hr (.inr ⟨rfl, rfl⟩) fun _ => rfl))
          · cases hret
            exact .cons hsaid (.single (.progress _ hstate hr (.inl ⟨hstate, hr⟩) (chunkIovDrop_empty _)))

/-- Connection `i` took request `r`. -/
def takeRequest (ctx : FcgiContext) (i r : Nat) : FcgiContext :=
  (ctx.setReq r { ctx.req r with fcgiFd := (ctx.conn i).fd, state := .sent }).setConn i
    { ctx.conn i with
      state := .sending, beginReqRemain := chunkIovLength (ctx.req r).iov, beginReq := some r }

/-- A connection that is ready takes the request it finds, and sends it. -/
theorem eventWriteReady_take {i r : Nat} {res : SendResult} {rl : RequestList}
    (hstate : (ctx.conn i).state = .ready)
    (hnext : requestListNextAssigned ctx.rl (UInt16.ofNat (ctx.conn i).locationId) = (rl, some r)) :
    eventWriteReady config ctx i res = eventWriteSending (takeRequest (ctx.withRl rl) i r) i res := by
  have hrs := requestListNextAssigned_rs ctx.rl (UInt16.ofNat (ctx.conn i).locationId)
  obtain ⟨-, hassigned, -⟩ := requestListNextAssigned_some (congrArg Prod.snd hnext)
  rw [hnext] at hrs
  have hassigned : ((ctx.withRl rl).req r).state = .assigned := by
    rwa [FcgiContext.req_withRl hrs]
  have hsent : requestSetState (requestSetFcgiFd ((ctx.withRl rl).req r) (ctx.conn i).fd) .sent =
      some { (ctx.withRl rl).req r with fcgiFd := (ctx.conn i).fd, state := .sent } := by
    simp [requestSetState, requestSetFcgiFd, hassigned, canFollow]
  have hbegin : ∀ iov, (fcgiFdSetBeginReqIov (ctx.conn i) r iov).bind (fcgiFdSetState · .sending) =
      some { ctx.conn i with
        state := .sending, beginReqRemain := chunkIovLength iov, beginReq := some r } := by
    intro iov
    simp [fcgiFdSetBeginReqIov, fcgiFdSetState, hstate, fdCanFollow]
  simp only [eventWriteReady, hnext, hsent, hbegin]
  rfl

theorem eventWriteReady_moves {i : Nat} {res : SendResult} {h : HookRet} (hi : i < ctx.fds.length)
    (hstate : (ctx.conn i).state = .ready)
    (htakes : ∀ r, (requestListNextAssigned ctx.rl (UInt16.ofNat (ctx.conn i).locationId)).2 = some r → takes i r)
    (hret : eventWriteReady config ctx i res = some h) :
    Moves new free takes ctx h.effects h.ctx := by
  have hrs := requestListNextAssigned_rs ctx.rl (UInt16.ofNat (ctx.conn i).locationId)
  have hsome := @requestListNextAssigned_some ctx.rl (UInt16.ofNat (ctx.conn i).locationId)
  cases hnext : requestListNextAssigned ctx.rl (UInt16.ofNat (ctx.conn i).locationId) with
  | mk rl found =>
      rw [hnext] at hrs hsome
      have hsearch : Moves new free takes ctx [] (ctx.withRl rl) := .single (.search hrs)
      cases found with
      | none =>
          simp only [eventWriteReady, hnext] at hret
          split at hret
          · cases hret
            exact hsearch
          · split at hret
            · cases hret
              exact hsearch.trans (.single (.doze hstate))
            · cases hret
              exact hsearch
      | some r =>
          obtain ⟨hlt, hassigned, hclock⟩ := hsome rfl
          have hlt : r < (ctx.withRl rl).rl.rs.length := by
            show r < rl.rs.length
            rwa [hrs]
          have hassigned : ((ctx.withRl rl).req r).state = .assigned := by
            rwa [FcgiContext.req_withRl hrs]
          have hclock : ((ctx.withRl rl).req r).clockId = UInt16.ofNat ((ctx.withRl rl).conn i).locationId := by
            rwa [FcgiContext.req_withRl hrs]
          rw [eventWriteReady_take hstate hnext] at hret
          have htake := @Moved.take new free takes (ctx.withRl rl) i r (chunkIovLength ((ctx.withRl rl).req r).iov)
            (htakes r (by rw [hnext])) hi hlt hstate hassigned hclock
          refine hsearch.trans ((Moves.single htake).trans (eventWriteSending_moves ?_ hret))
          exact congrArg FcgiFd.state (FcgiContext.conn_setConn_self hi _)

/-- The headers change the output of the request. -/
theorem fcgiSendResponseHeaders_eq_some {q q' : Request} {beyond : Bytes} {headers : List Effect}
    (h : fcgiSendResponseHeaders q beyond = some (q', headers)) :
    ∃ iov headersSent, q' = { q with iov := iov, headersSent := headersSent } ∧
      (headers = [] ∨ ∃ rows n, headers = [.headerSend q.fd rows n]) := by
  unfold fcgiSendResponseHeaders at h
  split at h
  · cases h
    exact ⟨q.iov, q.headersSent, rfl, .inl rfl⟩
  · split at h
    · contradiction
    · obtain ⟨iov, -, heq⟩ := Option.map_eq_some_iff.mp h
      cases heq
      exact ⟨iov, true, rfl, .inr ⟨_, _, rfl⟩⟩

theorem fcgiSendResponse_moves {r : Nat} {io : WriteIo} {ok : Bool} {ctx' : FcgiContext}
    {effects : List Effect} (hr : r < ctx.rl.rs.length) (hbusy : (ctx.req r).state ≠ .available)
    (h : fcgiSendResponse config ctx r io = some (ok, ctx', effects)) :
    (Moves new free takes ctx effects ctx' ∧ ∀ r' ≠ r, ctx'.req r' = ctx.req r') ∨
    ∃ ctx'' es, Moves new free takes ctx es ctx'' ∧ (∀ r' ≠ r, ctx''.req r' = ctx.req r') ∧
      (ctx''.req r).fd = -1 ∧ ok = true ∧
      ctx' = (httpRequestEnd config ctx'' (ctx.req r).fd io.keep).1 ∧
      effects = es ++ (httpRequestEnd config ctx'' (ctx.req r).fd io.keep).2 := by
  unfold fcgiSendResponse at h
  dsimp only at h
  split at h
  case isFalse =>
    cases h
    exact .inl ⟨.nil ctx, fun _ _ => rfl⟩
  split at h
  · contradiction
  · next n _ =>
      have hsaid : Moved new free takes ctx [.sent (ctx.req r).fd ((ctx.req r).iov.bytes.take n)] ctx := .say rfl
      split at h
      · split at h
        · cases h
          exact .inl ⟨.single hsaid, fun _ _ => rfl⟩
        · next finished hfin =>
            -- whatever state it went through, the slot is free
            have hfree : requestRecycle finished = requestRecycle (ctx.req r) := by
              unfold requestSetState at hfin
              split at hfin
              · rw [← Option.some.inj hfin]
                rfl
              · contradiction
            rw [hfree] at h
            cases h
            refine .inr ⟨_, _, (Moves.single hsaid).trans (.single (.recycle r)), ?_, ?_, rfl, rfl, rfl⟩
            · exact fun r' hr' => FcgiContext.req_setReq_of_ne hr' _
            · exact congrArg Request.fd (FcgiContext.req_setReq_self hr _)
      · split at h
        · cases h
          exact .inl ⟨.single hsaid, fun _ _ => rfl⟩
        · cases h
          exact .inl ⟨(Moves.single hsaid).trans (.single (.output r _ _ hbusy)),
            fun r' hr' => FcgiContext.req_setReq_of_ne hr' _⟩
  · cases h
    exact .inl ⟨.nil ctx, fun _ _ => rfl⟩

/-- How the client of request `r` was answered: the request has no descriptor any more,
or it failed and its backend still works on it. -/
structure Answered (new free : Int → Prop) (takes : Nat → Nat → Prop) (r : Nat) (ctx ctx' : FcgiContext)
    (es : List Effect) : Prop where
  moves : Moves new free takes ctx es ctx'
  others : ∀ r' ≠ r, ctx'.req r' = ctx.req r'
  slot : (ctx'.req r).fd = -1 ∨ (ctx.req r).state = .failed ∧ (ctx.req r).fcgiFd ≠ -1 ∧ ctx' = ctx

/-- The header of a response is a move of its request, which keeps its descriptor. -/
theorem fcgiSendResponseHeaders_moves {r : Nat} {beyond : Bytes} {q : Request} {headers : List Effect}
    (hended : (ctx.req r).state = .ended) (h : fcgiSendResponseHeaders (ctx.req r) beyond = some (q, headers)) :
    Moves new free takes ctx headers (ctx.setReq r q) ∧ q.fd = (ctx.req r).fd ∧ q.state ≠ .available := by
  obtain ⟨iov, headersSent, rfl, hsaid⟩ := fcgiSendResponseHeaders_eq_some h
  refine ⟨?_, rfl, by simp [hended]⟩
  rw [← List.append_nil headers]
  refine Moves.trans ?_ (.single (.output r iov headersSent (by simp [hended])))
  obtain rfl | ⟨rows, n, rfl⟩ := hsaid
  · exact .nil ctx
  · exact .single (.say rfl)

/-- The answer of a request that failed: it is recycled unless its backend still works on it. -/
theorem answered_failed {r : Nat} (hr : r < ctx.rl.rs.length) (hstate : (ctx.req r).state = .failed) :
    Answered new free takes r ctx
      (if (ctx.req r).fcgiFd = -1 then ctx.setReq r (requestRecycle (ctx.req r)) else ctx)
      [.requestError (ctx.req r).fd] := by
  by_cases hfcgi : (ctx.req r).fcgiFd = -1
  · rw [if_pos hfcgi]
    refine ⟨.cons (.say rfl) (.single (.recycle r)), ?_, .inl ?_⟩
    · exact fun r' hr' => FcgiContext.req_setReq_of_ne hr' _
    · exact congrArg Request.fd (FcgiContext.req_setReq_self hr _)
  · rw [if_neg hfcgi]
    exact ⟨.single (.say rfl), fun _ _ => rfl, .inr ⟨hstate, hfcgi, rfl⟩⟩

/-- **A write event of a client** is made of moves, up to the end of its answer; a client
that is to be closed has a failed request. -/
theorem eventWriteClient_moves {r : Nat} {socket : Int} {io : WriteIo} {h : HookRet}
    (hr : r < ctx.rl.rs.length) (hfd : (ctx.req r).fd = socket)
    (hret : eventWriteClient config ctx r socket io = some h) :
    (Moves new free takes ctx h.effects h.ctx ∧ (∀ r' ≠ r, h.ctx.req r' = ctx.req r') ∧
      (h.ret = .close → (h.ctx.req r).state = .failed)) ∨
    ∃ ctx' es, Answered new free takes r ctx ctx' es ∧ h.ret = .owned ∧
      h.ctx = (httpRequestEnd config ctx' socket io.keep).1 ∧
      h.effects = es ++ (httpRequestEnd config ctx' socket io.keep).2 := by
  have hfailed : ∀ start : FcgiContext, r < start.rl.rs.length →
      ((start.setReq r (failRequest (start.req r)).1).req r).state = .failed := by
    intro start hlt
    rw [FcgiContext.req_setReq_self hlt, failRequest_eq]
  unfold eventWriteClient at hret
  dsimp only at hret
  split at hret
  · next hended =>
    split at hret
    · cases hret
      exact .inl ⟨.single (.fail r), fun r' hr' => FcgiContext.req_setReq_of_ne hr' _, fun _ => hfailed ctx hr⟩
    · next q headers hheaders =>
        obtain ⟨hout, hkept, hstate⟩ := @fcgiSendResponseHeaders_moves new free takes ctx r _ q headers hended hheaders
        have hlen : r < (ctx.setReq r q).rl.rs.length := by simpa using hr
        have hsocket : ((ctx.setReq r q).req r).fd = socket := by
          rw [FcgiContext.req_setReq_self hr, hkept, hfd]
        have hbusy : ((ctx.setReq r q).req r).state ≠ .available := by
          rwa [FcgiContext.req_setReq_self hr]
        have hsame : ∀ r' ≠ r, (ctx.setReq r q).req r' = ctx.req r' :=
          fun r' hr' => FcgiContext.req_setReq_of_ne hr' _
        generalize ctx.setReq r q = start at hret hout hlen hsocket hbusy hsame
        split at hret
        · contradiction
        · next hsend =>
            cases hret
            obtain ⟨hmoves, hothers⟩ | ⟨ctx'', es, hmoves, hothers, hslot, -, rfl, rfl⟩ :=
              fcgiSendResponse_moves hlen hbusy hsend
            · exact .inl ⟨hout.trans hmoves, fun r' hr' => (hothers r' hr').trans (hsame r' hr'),
                fun hclose => by contradiction⟩
            · rw [hsocket]
              exact .inr ⟨ctx'', headers ++ es,
                ⟨hout.trans hmoves, fun r' hr' => (hothers r' hr').trans (hsame r' hr'), .inl hslot⟩, rfl, rfl,
                (List.append_assoc ..).symm⟩
        · next ctx' effects hsend =>
            cases hret
            obtain ⟨hmoves, hothers⟩ | ⟨-, -, -, -, -, hok, -⟩ :=
              @fcgiSendResponse_moves config new free takes start r io _ _ _ hlen hbusy hsend
            · have hlen' : r < ctx'.rl.rs.length := by rwa [hmoves.length_rs]
              refine .inl ⟨(hout.trans hmoves).trans (.single (.fail r)), fun r' hr' => ?_, fun _ => hfailed ctx' hlen'⟩
              exact (FcgiContext.req_setReq_of_ne hr' _).trans ((hothers r' hr').trans (hsame r' hr'))
            · contradiction
  · next hstate =>
      cases hret
      exact .inr ⟨_, [.requestError (ctx.req r).fd], answered_failed hr hstate, rfl, rfl, rfl⟩
  · cases hret
    exact .inl ⟨.nil ctx, fun _ _ => rfl, fun hclose => by contradiction⟩

/-- A request with a descriptor has a slot. -/
theorem req_lt_of_fd {r : Nat} {socket : Int} (hsocket : socket ≠ -1) (hfd : (ctx.req r).fd = socket) :
    r < ctx.rl.rs.length := by
  by_contra hge
  rw [FcgiContext.req, List.getD_eq_default _ _ (Nat.not_lt.mp hge)] at hfd
  exact hsocket hfd.symm

/-- The connection on `socket` is ready, and finds a request to take. -/
def Takes (ctx : FcgiContext) (socket : Int) (i r : Nat) : Prop :=
  fcgiFdListGetByFd ctx.fds socket = some i ∧ (ctx.conn i).state = .ready ∧
    (requestListNextAssigned ctx.rl (UInt16.ofNat (ctx.conn i).locationId)).2 = some r

/-- **Write events**: of a connection, of a client with a request, of another. -/
theorem eventWrite_cases {socket : Int} {io : WriteIo} {h : HookRet} (hsocket : socket ≠ -1)
    (hret : eventWrite config ctx socket io = some h) :
    (∃ i, fcgiFdListGetByFd ctx.fds socket = some i ∧ (ctx.conn i).fd = socket ∧
      ∀ new free, Moves new free (Takes ctx socket) ctx h.effects h.ctx) ∨
    (fcgiFdListGetByFd ctx.fds socket = none ∧ ∃ rl, rl.rs = ctx.rl.rs ∧
      (h = ⟨.next, ctx.withRl rl, []⟩ ∨
      ∃ r, r < ctx.rl.rs.length ∧ (ctx.req r).fd = socket ∧
        eventWriteClient config (ctx.withRl rl) r socket io = some h)) := by
  unfold eventWrite at hret
  cases hget : fcgiFdListGetByFd ctx.fds socket with
  | some i =>
      obtain ⟨hi, hfd⟩ := fcgiFdListGetByFd_some hget (fcgiFdInit .unix 0 0)
      refine .inl ⟨i, rfl, hfd, fun new free => ?_⟩
      simp only [hget] at hret
      split at hret
      · next hready => exact eventWriteReady_moves hi hready (fun r hr => ⟨hget, hready, hr⟩) hret
      · next hsending => exact eventWriteSending_moves hsending hret
      · cases hret
        exact .nil ctx
  | none =>
      have hrs := requestListGetByFd_rs ctx.rl socket
      have hsome := @requestListGetByFd_some ctx.rl socket
      refine .inr ⟨rfl, ?_⟩
      simp only [hget] at hret
      cases hfound : requestListGetByFd ctx.rl socket with
      | mk rl found =>
          rw [hfound] at hrs hsome
          simp only [hfound] at hret
          cases found with
          | none => exact ⟨rl, hrs, .inl (Option.some.inj hret).symm⟩
          | some r =>
              have hfd : (ctx.req r).fd = socket := hsome rfl
              exact ⟨rl, hrs, .inr ⟨r, req_lt_of_fd hsocket hfd, hfd, hret⟩⟩

/-! ## hang-ups -/

/-- The connection `i` closed. -/
def closeConn (ctx : FcgiContext) (i : Nat) : FcgiContext :=
  ctx.setConn i { ctx.conn i with fd := -1, state := .available }

/-- The request of a client that is gone: its slot is free again, unless a backend has
it. -/
def dropClient (q : Request) : Request :=
  if q.fcgiFd = -1 then requestRecycle q else { q with state := .failed, fd := -1, client := none }

/-- **What a hang-up does.** -/
theorem hangup_cases {socket : Int} {connect : Option Int} (hsocket : socket ≠ -1)
    (hfresh : ∀ i, (ctx.conn i).fd = socket → Unused free (closeConn ctx i) connect) :
    (∃ i es, fcgiFdListGetByFd ctx.fds socket = some i ∧ (ctx.conn i).fd = socket ∧
      Moves new free takes (closeConn ctx i) es (hangup config ctx socket connect).ctx ∧
      (hangup config ctx socket connect).effects = .eventDel i socket :: es) ∨
    (fcgiFdListGetByFd ctx.fds socket = none ∧ (hangup config ctx socket connect).effects = [] ∧
      ∃ rl, rl.rs = ctx.rl.rs ∧
        ((requestListGetByFd ctx.rl socket).2 = none ∧ (hangup config ctx socket connect).ctx = ctx.withRl rl ∨
        ∃ r, (requestListGetByFd ctx.rl socket).2 = some r ∧ r < ctx.rl.rs.length ∧ (ctx.req r).fd = socket ∧
          (hangup config ctx socket connect).ctx = (ctx.withRl rl).setReq r (dropClient (ctx.req r)))) := by
  unfold hangup
  cases hget : fcgiFdListGetByFd ctx.fds socket with
  | some i =>
      obtain ⟨-, hfd⟩ := fcgiFdListGetByFd_some hget (fcgiFdInit .unix 0 0)
      have hfd : (ctx.conn i).fd = socket := hfd
      left
      dsimp only
      split
      · refine ⟨i, _, rfl, hfd, fcgiNewConnection_moves (hfresh i hfd), ?_⟩
        rw [hfd]
        rfl
      · exact ⟨i, [], rfl, hfd, .nil _, by rw [hfd]⟩
  | none =>
      have hrs := requestListGetByFd_rs ctx.rl socket
      have hsome := @requestListGetByFd_some ctx.rl socket
      right
      refine ⟨rfl, ?_⟩
      dsimp only
      cases hfound : requestListGetByFd ctx.rl socket with
      | mk rl found =>
          rw [hfound] at hrs hsome
          cases found with
          | none => exact ⟨rfl, rl, hrs, .inl ⟨rfl, rfl⟩⟩
          | some r =>
              have hfd : (ctx.req r).fd = socket := hsome rfl
              refine ⟨rfl, rl, hrs, .inr ⟨r, rfl, req_lt_of_fd hsocket hfd, hfd, ?_⟩⟩
              dsimp only
              rw [FcgiContext.req_withRl hrs, dropClient]
              rfl

theorem closeAfter_of_ne {h : HookRet} {socket : Int} {connect : Option Int} (hret : h.ret ≠ .close) :
    closeAfter config h socket connect = h := by
  unfold closeAfter
  split
  · contradiction
  · rfl

end config

/-! ## packages -/

theorem requestSetState_ended {q q' : Request} (h : requestSetState q .ended = some q') :
    q' = { q with state := .ended } := by
  unfold requestSetState at h
  split at h
  · exact (Option.some.inj h).symm
  · contradiction

theorem requestAddPkg_eq_some {q q' : Request} {body : Bytes} (h : requestAddPkg q body = some q') :
    q.state = .sent ∧ ∃ iov, q' = { q with iov := iov } := by
  unfold requestAddPkg at h
  split at h
  case isFalse => contradiction
  case isTrue hstate =>
    refine ⟨hstate, ?_⟩
    split at h
    · exact ⟨_, (Option.some.inj h).symm⟩
    · obtain ⟨iov, -, rfl⟩ := Option.map_eq_some_iff.mp h
      exact ⟨iov, rfl⟩

/-- What a package does to the connection and the request it is handled with. -/
inductive Handled (f : FcgiFd) (q : Request) (pkg : FcgiHeader × Bytes) :
    Bool → FcgiFd → Request → List Effect → Prop
  | ignored : Handled f q pkg true f q []
  | queued (hstate : q.state = .sent) (iov : ChunkIov) : Handled f q pkg true f { q with iov := iov } []
  | streamClosed (hstate : q.state = .sent) : Handled f q pkg true f { q with state := .streamClosed } []
  | failed : Handled f q pkg false f (failRequest q).1 (failRequest q).2
  | refused (hend : pkg.1.type = fcgiEndRequest) (hf : fdCanFollow .ready f.state = false) :
      Handled f q pkg false f (failRequest { q with fcgiFd := -1 }).1 (failRequest { q with fcgiFd := -1 }).2
  | gone (hend : pkg.1.type = fcgiEndRequest) (hf : fdCanFollow .ready f.state = true) (hfd : q.fd = -1) :
      Handled f q pkg true { f with state := .ready } (requestRecycle q) []
  | kept (hend : pkg.1.type = fcgiEndRequest) (hf : fdCanFollow .ready f.state = true)
      (hstate : q.state = .failed) :
      Handled f q pkg true { f with state := .ready } { q with fcgiFd := -1 } []
  | ended (hend : pkg.1.type = fcgiEndRequest) (hf : fdCanFollow .ready f.state = true) :
      Handled f q pkg true { f with state := .ready }
        (wakeRequest { q with fcgiFd := -1, state := .ended }).1
        (wakeRequest { q with fcgiFd := -1, state := .ended }).2
  | stray (hend : pkg.1.type = fcgiEndRequest) (hf : fdCanFollow .ready f.state = true) :
      Handled f q pkg false { f with state := .ready }
        (failRequest { q with fcgiFd := -1 }).1 (failRequest { q with fcgiFd := -1 }).2

/-- **`fcgi_handle_pkg`, case by case.** -/
theorem fcgiHandlePkg_handled (f : FcgiFd) (q : Request) (pkg : FcgiHeader × Bytes) :
    Handled f q pkg (fcgiHandlePkg f q pkg).1 (fcgiHandlePkg f q pkg).2.1 (fcgiHandlePkg f q pkg).2.2.1
      (fcgiHandlePkg f q pkg).2.2.2 := by
  unfold fcgiHandlePkg
  split
  · exact .ignored
  split
  · cases hout : handleStdout q pkg with
    | none => exact .failed
    | some q' =>
        unfold handleStdout at hout
        split at hout
        · cases hout
          exact .ignored
        · split at hout
          · unfold requestSetState at hout
            split at hout
            · next hfollow =>
                cases hout
                exact .streamClosed (eq_of_beq hfollow)
            · contradiction
          · obtain ⟨hstate, iov, rfl⟩ := requestAddPkg_eq_some hout
            exact .queued hstate iov
  split
  · next hend =>
      unfold handleEndRequest fcgiFdSetState
      by_cases hf : fdCanFollow .ready f.state = true
      · rw [if_pos hf]
        dsimp only
        split
        · next hfd => exact .gone hend hf hfd
        · split
          · next hstate => exact .kept hend hf hstate
          · split
            · next q' hq' =>
                rw [requestSetState_ended hq']
                exact .ended hend hf
            · exact .stray hend hf
      · rw [if_neg hf]
        exact .refused hend (by simpa using hf)
  split
  · exact .failed
  · exact .ignored

/-- What a package received on connection `i` does to the context. -/
theorem recvPkg_cases (i : Nat) (ctx : FcgiContext) (effects : List Effect) (pkg : FcgiHeader × Bytes) :
    ∃ rl, rl.rs = ctx.rl.rs ∧
      (((requestListGet ctx.rl pkg.1.reqId).2 = none ∧
        recvPkg i (ctx, effects) pkg = (false, ctx.withRl rl, effects)) ∨
      ∃ r, (requestListGet ctx.rl pkg.1.reqId).2 = some r ∧ r < ctx.rl.rs.length ∧
        recvPkg i (ctx, effects) pkg =
          ((fcgiHandlePkg (ctx.conn i) (ctx.req r) pkg).1,
            ((ctx.withRl rl).setConn i (fcgiHandlePkg (ctx.conn i) (ctx.req r) pkg).2.1).setReq r
              (fcgiHandlePkg (ctx.conn i) (ctx.req r) pkg).2.2.1,
            effects ++ (fcgiHandlePkg (ctx.conn i) (ctx.req r) pkg).2.2.2)) := by
  have hrs := requestListGet_rs ctx.rl pkg.1.reqId
  cases hget : requestListGet ctx.rl pkg.1.reqId with
  | mk rl o =>
      rw [hget] at hrs
      refine ⟨rl, hrs, ?_⟩
      cases o with
      | none => exact .inl ⟨rfl, by simp only [recvPkg, hget]⟩
      | some r =>
          refine .inr ⟨r, rfl, requestListGet_lt (congrArg Prod.snd hget), ?_⟩
          simp only [recvPkg, hget, FcgiContext.req_withRl hrs, FcgiContext.conn_withRl]

/-- The same, with what the package did. -/
theorem recvPkg_handled (i : Nat) (ctx : FcgiContext) (before : List Effect) (pkg : FcgiHeader × Bytes) :
    ∃ rl, rl.rs = ctx.rl.rs ∧
      (recvPkg i (ctx, before) pkg = (false, ctx.withRl rl, before) ∨
      ∃ r ok f q es, (requestListGet ctx.rl pkg.1.reqId).2 = some r ∧ r < ctx.rl.rs.length ∧
        Handled (ctx.conn i) (ctx.req r) pkg ok f q es ∧
        recvPkg i (ctx, before) pkg = (ok, ((ctx.withRl rl).setConn i f).setReq r q, before ++ es)) := by
  obtain ⟨rl, hrs, ⟨-, heq⟩ | ⟨r, hget, hr, heq⟩⟩ := recvPkg_cases i ctx before pkg
  · exact ⟨rl, hrs, .inl heq⟩
  · exact ⟨rl, hrs, .inr ⟨r, _, _, _, _, hget, hr, fcgiHandlePkg_handled _ _ pkg, heq⟩⟩

/-! ## read events -/

/-- The handler with a trace of the contexts in which it was given its packages. -/
def traced (i : Nat) (st : (FcgiContext × List Effect) × List (FcgiContext × Option (FcgiHeader × Bytes)))
    (pkg : FcgiHeader × Bytes) :
    Bool × (FcgiContext × List Effect) × List (FcgiContext × Option (FcgiHeader × Bytes)) :=
  ((recvPkg i st.1 pkg).1, (recvPkg i st.1 pkg).2, st.2 ++ [(st.1.1, some pkg)])

/-- The connection is given up, with a trace. -/
def tracedClosing (i : Nat) (st : (FcgiContext × List Effect) × List (FcgiContext × Option (FcgiHeader × Bytes))) :
    Option ((FcgiContext × List Effect) × List (FcgiContext × Option (FcgiHeader × Bytes))) :=
  (setClosing i st.1).map (·, st.2 ++ [(st.1.1, none)])

/-- What a read event does on connection `i`, each time with the context it finds: it
hands over a package, or gives the connection up. -/
def readTrace (i : Nat) (ctx : FcgiContext) (rs : List ReadResult) :
    List (FcgiContext × Option (FcgiHeader × Bytes)) :=
  ((fcgiRecvResponse (traced i) (tracedClosing i) rs (ctx.conn i).chunk ((ctx, []), [])).map (·.st.2)).getD []

/-- The packages it hands over. -/
def handed (i : Nat) (ctx : FcgiContext) (rs : List ReadResult) : List (FcgiContext × FcgiHeader × Bytes) :=
  (readTrace i ctx rs).filterMap fun e => e.2.map (e.1, ·)

/-- A read event is the call with the trace, without it. -/
theorem eventRead_traced {i : Nat} {ctx : FcgiContext} {socket : Int} {rs : List ReadResult} {h : HookRet}
    (hi : fcgiFdListGetByFd ctx.fds socket = some i) (hread : eventRead ctx socket rs = some h) :
    ∃ r, fcgiRecvResponse (traced i) (tracedClosing i) rs (ctx.conn i).chunk ((ctx, []), []) = some r ∧
      readTrace i ctx rs = r.st.2 ∧ h.effects = r.st.1.2 ∧
      h.ctx = r.st.1.1.setConn i { r.st.1.1.conn i with chunk := r.chunk } ∧
      h.ret = if r.ok ∧ (h.ctx.conn i).state ≠ .closing then .owned else .close := by
  simp only [eventRead, hi] at hread
  have hmap := @fcgiRecvResponse_map _ (recvPkg i) (setClosing i) _ Prod.fst (traced i) (tracedClosing i)
    (fun _ _ => rfl) (fun st => by rw [tracedClosing]; cases setClosing i st.1 <;> rfl)
    rs (ctx.conn i).chunk ((ctx, []), [])
  rw [hmap, Option.map_map, Option.map_eq_some_iff] at hread
  obtain ⟨r, hr, rfl⟩ := hread
  refine ⟨r, hr, ?_, rfl, rfl, rfl⟩
  rw [readTrace, hr]
  rfl

/-- **Rule for read events**: what the event does in the contexts of its trace is kept,
then it is by the event. -/
theorem eventRead_induction {I : FcgiContext → List Effect → Prop} {i : Nat}
    {P : FcgiContext → Option (FcgiHeader × Bytes) → Prop}
    (hclose : ∀ ctx before f, I ctx before → P ctx none → fcgiFdSetState (ctx.conn i) .closing = some f →
      I (ctx.setConn i f) before)
    (hbuffer : ∀ ctx before chunk, I ctx before → I (ctx.setConn i { ctx.conn i with chunk := chunk }) before)
    (hpkg : ∀ ctx before pkg, I ctx before → P ctx (some pkg) →
      I (recvPkg i (ctx, before) pkg).2.1 (recvPkg i (ctx, before) pkg).2.2)
    {ctx : FcgiContext} {socket : Int} {rs : List ReadResult} {h : HookRet}
    (hi : fcgiFdListGetByFd ctx.fds socket = some i) (hread : eventRead ctx socket rs = some h)
    (hP : ∀ e ∈ readTrace i ctx rs, P e.1 e.2) (hctx : I ctx []) : I h.ctx h.effects := by
  obtain ⟨r, hr, htrace, heff, hctx', -⟩ := eventRead_traced hi hread
  rw [htrace] at hP
  rw [heff, hctx']
  refine hbuffer _ _ _ (@fcgiRecvResponse_induction _ (traced i) (tracedClosing i)
    (fun st => (∀ e ∈ st.2, P e.1 e.2) → I st.1.1 st.1.2) ?_ ?_ rs (ctx.conn i).chunk ((ctx, []), []) r
    (fun _ => hctx) hr hP)
  · rintro ⟨⟨ctx', before⟩, trace⟩ pkg hst hall
    exact hpkg ctx' before pkg (hst fun e he => hall e (List.mem_append_left _ he))
      (hall (ctx', some pkg) (List.mem_append_right _ List.mem_cons_self))
  · rintro ⟨⟨ctx', before⟩, trace⟩ st' hst hst' hall
    obtain ⟨st, hclosing, rfl⟩ := Option.map_eq_some_iff.mp hst'
    obtain ⟨f, hf, rfl⟩ := Option.map_eq_some_iff.mp hclosing
    exact hclose _ _ _ (hst fun e he => hall e (List.mem_append_left _ he))
      (hall (ctx', none) (List.mem_append_right _ List.mem_cons_self)) hf

end Monkey.Fastcgi
