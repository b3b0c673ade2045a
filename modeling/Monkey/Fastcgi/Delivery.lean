import Monkey.Fastcgi.Exchange

/-!
# Monkey.Fastcgi.Delivery

The body of a finished response on its way to the client: the write events of the client,
each with what its `writev` returned, until the request is ended.

A write that would block is not told from one on a dead socket, and the request fails; on
the connection of a backend the same answer is waited out.
-/

namespace Monkey.Fastcgi

/-- The delivery of one response: the bytes written to the client, how many writes took
bytes, and whether the request was ended. -/
structure Delivery where
  ctx : FcgiContext
  received : Bytes := []
  writes : Nat := 0
  ended : Bool := false
deriving DecidableEq, Repr

/-- A write event of the client, and what happens to the thread besides. -/
inductive DeliveryInput
  | write (io : WriteIo)
  | other (ctx : FcgiContext)

/-- The connection of a client was handed back to the core. -/
def endedOn (fd : Int) (effects : List Effect) : Bool :=
  effects.any fun e =>
    match e with
    | .requestEnd fd' _ => fd' == fd
    | _ => false

namespace Delivery

section delivery

variable (r : Nat) (socket : Int) (beyond : Bytes)

/-- The events while the client stays connected: the write events that find request `r`, with
the memory `beyond` its first entry, and what leaves the request alone. -/
def Possible (x : Delivery) : DeliveryInput → Prop
  | .write io =>
      x.ended = false ∧ fcgiFdListGetByFd x.ctx.fds socket = none ∧
        (requestListGetByFd x.ctx.rl socket).2 = some r ∧ io.beyond = beyond ∧ io.sent ≠ .error
  | .other ctx => x.ended = false → ctx.req r = x.ctx.req r ∧ ctx.rl.rs.length = x.ctx.rl.rs.length

/-- One event. -/
def input (config : FcgiConfig) (x : Delivery) : DeliveryInput → Option Delivery
  | .write io =>
      (eventWrite config x.ctx socket io).map fun h =>
        { ctx := h.ctx
          received := x.received ++ sentOn socket h.effects
          writes := if io.sent = .again then x.writes else x.writes + 1
          ended := x.ended || endedOn socket h.effects }
  | .other ctx => some { x with ctx := ctx }

def Step (config : FcgiConfig) (x : Delivery) (i : DeliveryInput) (x' : Delivery) : Prop :=
  Possible r socket beyond x i ∧ x.input socket config i = some x'

/-- The request has the bytes of `rest` still to send, once its header is sent. -/
def Unsent (q : Request) (rest : Bytes) : Prop :=
  ∃ q' headers, fcgiSendResponseHeaders q beyond = some (q', headers) ∧ q'.iov.bytes = rest

/-- The delivery is in order: the client got a beginning of the body, and all of it when the
request is ended; until then the request stays `ENDED` with the rest, and every write so far
sent something. -/
structure InOrder (body : Bytes) (x : Delivery) : Prop where
  received : x.received <+: body
  done : x.ended = true → x.received = body
  pending : x.ended = false →
    (x.ctx.req r).state = .ended ∧ Unsent beyond (x.ctx.req r) (body.drop x.received.length) ∧
      x.writes ≤ x.received.length

/-- The response of a finished request, nothing of which is sent, its header included. -/
structure Starts (body : Bytes) (x : Delivery) : Prop where
  fresh : x.received = [] ∧ x.writes = 0 ∧ x.ended = false
  slot : r < x.ctx.rl.rs.length
  state : (x.ctx.req r).state = .ended
  head : (x.ctx.req r).headersSent = false
  unsent : Unsent beyond (x.ctx.req r) body

/-- The write does not block. -/
def Guard : DeliveryInput → Prop
  | .write io => io.sent ≠ .again
  | .other _ => True

end delivery

end Delivery

/-! ## the bytes of the client -/

theorem sentOn_append (fd : Int) (es es' : List Effect) : sentOn fd (es ++ es') = sentOn fd es ++ sentOn fd es' :=
  List.flatMap_append

theorem endedOn_append (fd : Int) (es es' : List Effect) :
    endedOn fd (es ++ es') = (endedOn fd es || endedOn fd es') := List.any_append

theorem fcgiNewConnection_sentOn (config : FcgiConfig) (ctx : FcgiContext) (location : Nat) (connect : Option Int)
    (fd : Int) : sentOn fd (fcgiNewConnection config ctx location connect).2.2 = [] := by
  simp only [fcgiNewConnection]
  split
  · rfl
  · split
    · cases connect <;> rfl
    · rfl

theorem hangup_sentOn (config : FcgiConfig) (ctx : FcgiContext) (socket : Int) (connect : Option Int) (fd : Int) :
    sentOn fd (hangup config ctx socket connect).effects = [] := by
  simp only [hangup]
  split
  · split
    · exact fcgiNewConnection_sentOn config _ _ connect fd
    · rfl
  · split <;> rfl

theorem httpRequestEnd_sentOn (config : FcgiConfig) (ctx : FcgiContext) (socket : Int) (keep : Bool) (fd : Int) :
    sentOn fd (httpRequestEnd config ctx socket keep).2 = [] := by
  cases keep with
  | true => rfl
  | false => exact hangup_sentOn config ctx socket none fd

theorem httpRequestEnd_endedOn (config : FcgiConfig) (ctx : FcgiContext) (socket : Int) (keep : Bool) :
    endedOn socket (httpRequestEnd config ctx socket keep).2 = true := by
  cases keep <;> simp [httpRequestEnd, endedOn]

theorem failRequest_sentOn (q : Request) (fd : Int) :
    sentOn fd (failRequest q).2 = [] ∧ endedOn fd (failRequest q).2 = false := by
  unfold failRequest wakeRequest
  split <;> exact ⟨rfl, rfl⟩

/-! ## one write event -/

/-- The header of a response, and what its sending leaves. -/
theorem fcgiSendResponseHeaders_spec {q q' : Request} {beyond : Bytes} {headers : List Effect}
    (h : fcgiSendResponseHeaders q beyond = some (q', headers)) (hindex : q.headersSent = true → 0 < q.iov.index) :
    q'.headersSent = true ∧ q'.fd = q.fd ∧ q'.state = q.state ∧ 0 < q'.iov.index ∧
      (∀ fd, sentOn fd headers = []) ∧ ∀ fd, endedOn fd headers = false := by
  unfold fcgiSendResponseHeaders at h
  split at h
  · next hsent =>
      cases h
      exact ⟨hsent, rfl, rfl, hindex hsent, fun _ => rfl, fun _ => rfl⟩
  · split at h
    · contradiction
    · next hio =>
        obtain ⟨iov, hdrop, heq⟩ := Option.map_eq_some_iff.mp h
        cases heq
        refine ⟨rfl, rfl, rfl, ?_, fun _ => rfl, fun _ => rfl⟩
        show 0 < iov.index
        rw [(chunkIovDrop_eq_some hdrop).2.2, ChunkIov.index, hio, List.length_cons]
        exact Nat.succ_pos _

section write

variable {config : FcgiConfig} {ctx ctx' : FcgiContext} {r : Nat} {io : WriteIo} {es : List Effect} {ok : Bool}

/-- **What `fcgi_send_response` does** on a socket that is not dead: it would block, or it sends
the rest and ends the request, or it sends a part and keeps what follows. -/
theorem fcgiSendResponse_cases (hhead : (ctx.req r).headersSent = true) (hstate : (ctx.req r).state = .ended)
    (hindex : 0 < (ctx.req r).iov.index) (hne : io.sent ≠ .error)
    (h : fcgiSendResponse config ctx r io = some (ok, ctx', es)) :
    (io.sent = .again ∧ ok = false ∧ ctx' = ctx ∧ es = []) ∨
    (io.sent ≠ .again ∧ ok = true ∧ sentOn (ctx.req r).fd es = (ctx.req r).iov.bytes ∧
      endedOn (ctx.req r).fd es = true) ∨
    ∃ n q, io.sent ≠ .again ∧ 0 < n ∧ n ≤ (ctx.req r).iov.bytes.length ∧ ok = true ∧ ctx' = ctx.setReq r q ∧
      q.headersSent = true ∧ q.state = .ended ∧ q.iov.bytes = (ctx.req r).iov.bytes.drop n ∧
      q.iov.index = (ctx.req r).iov.index ∧ es = [.sent (ctx.req r).fd ((ctx.req r).iov.bytes.take n)] := by
  simp only [fcgiSendResponse] at h
  rw [if_pos hhead] at h
  cases hres : io.sent with
  | error => exact absurd hres hne
  | again =>
      have hsend : chunkIovSendv (ctx.req r).iov io.sent = some .again := by
        simp only [chunkIovSendv, if_pos hindex, hres]
      rw [hsend] at h
      cases h
      exact .inl ⟨rfl, rfl, rfl, rfl⟩
  | wrote n =>
      right
      have hsend : chunkIovSendv (ctx.req r).iov io.sent =
          if n ≤ (ctx.req r).iov.bytes.length ∧ (0 < n ∨ (ctx.req r).iov.bytes.length = 0) then some (.wrote n)
          else none := by
        simp only [chunkIovSendv, if_pos hindex, hres, chunkIovLength_eq]
      by_cases hok : n ≤ (ctx.req r).iov.bytes.length ∧ (0 < n ∨ (ctx.req r).iov.bytes.length = 0)
      case neg =>
        rw [if_neg hok] at hsend
        rw [hsend] at h
        contradiction
      rw [if_pos hok] at hsend
      obtain ⟨hle, hpos⟩ := hok
      rw [hsend] at h
      simp only [chunkIovLength_eq] at h
      by_cases hall : n = (ctx.req r).iov.bytes.length
      · left
        have hfin : requestSetState (ctx.req r) .finished = some { ctx.req r with state := .finished } := by
          rw [requestSetState, hstate]
          rfl
        rw [if_pos hall, hfin] at h
        cases h
        refine ⟨by simp, rfl, ?_, ?_⟩
        · rw [sentOn_append, Exchange.sentOn_sent, httpRequestEnd_sentOn, List.append_nil, hall, List.take_length]
        · rw [endedOn_append, httpRequestEnd_endedOn, Bool.or_true]
      · right
        have hn : 0 < n := by omega
        have hdrop : chunkIovDrop (ctx.req r).iov n =
            some { (ctx.req r).iov with io := dropEntries (ctx.req r).iov.io n } := by
          rw [chunkIovDrop, if_pos ⟨hn, by rwa [chunkIovLength_eq]⟩]
        rw [if_neg hall, hdrop] at h
        cases h
        obtain ⟨hbytes, -, hindex'⟩ := chunkIovDrop_eq_some hdrop
        exact ⟨n, _, by simp, hn, hle, rfl, rfl, hhead, hstate, hbytes, hindex', rfl⟩

end write

/-! ## the invariant -/

namespace Delivery

variable {config : FcgiConfig} {r : Nat} {socket : Int} {beyond body : Bytes} {x x' : Delivery}

/-- The delivery is in order, and its header was taken from an entry of the vector. -/
structure Ok (r : Nat) (beyond body : Bytes) (x : Delivery) : Prop extends InOrder r beyond body x where
  slot : x.ended = false → r < x.ctx.rl.rs.length
  entries : x.ended = false → (x.ctx.req r).headersSent = true → 0 < (x.ctx.req r).iov.index

theorem Ok.starts (h : Starts r beyond body x) : Ok r beyond body x := by
  obtain ⟨hreceived, hwrites, hended⟩ := h.fresh
  refine ⟨⟨hreceived ▸ List.nil_prefix, fun hend => ?_, fun _ => ⟨h.state, ?_, ?_⟩⟩, fun _ => h.slot,
    fun _ hsent => ?_⟩
  · rw [hended] at hend
    contradiction
  · rw [hreceived]
    exact h.unsent
  · rw [hwrites]
    exact Nat.zero_le _
  · rw [h.head] at hsent
    contradiction

/-- A write event goes to the request while it is there. -/
theorem eventWrite_pending {io : WriteIo} {h : HookRet} (hnone : fcgiFdListGetByFd x.ctx.fds socket = none)
    (hfound : (requestListGetByFd x.ctx.rl socket).2 = some r) (hstate : (x.ctx.req r).state = .ended)
    {q' : Request} {headers : List Effect}
    (hhead : fcgiSendResponseHeaders (x.ctx.req r) io.beyond = some (q', headers))
    (h' : eventWrite config x.ctx socket io = some h) :
    ∃ ctx : FcgiContext, (∀ a, ctx.req a = x.ctx.req a) ∧ ctx.rl.rs.length = x.ctx.rl.rs.length ∧
      ∃ ok ctx' es, fcgiSendResponse config (ctx.setReq r q') r io = some (ok, ctx', es) ∧
        h = if ok then ⟨.owned, ctx', headers ++ es⟩ else eventWriteError ctx' r (headers ++ es) := by
  have hrs := requestListGetByFd_rs x.ctx.rl socket
  obtain ⟨rl, found, hget⟩ : ∃ rl found, requestListGetByFd x.ctx.rl socket = (rl, found) := ⟨_, _, rfl⟩
  rw [hget] at hfound hrs
  obtain rfl := hfound
  have hreq : (x.ctx.withRl rl).req r = x.ctx.req r := FcgiContext.req_withRl hrs r
  simp only [eventWrite, hnone, hget, eventWriteClient, hreq, hstate, hhead] at h'
  refine ⟨x.ctx.withRl rl, FcgiContext.req_withRl hrs, congrArg List.length hrs, ?_⟩
  split at h'
  · contradiction
  · next hsend => exact ⟨true, _, _, hsend, by simpa using h'.symm⟩
  · next hsend => exact ⟨false, _, _, hsend, by simpa using h'.symm⟩

/-- **One write** of a delivery in order: it stays in order exactly when the write did not
block. -/
theorem Ok.write (h : Ok r beyond body x) {io : WriteIo} (hstep : Step r socket beyond config x (.write io) x') :
    (io.sent ≠ .again ∧ Ok r beyond body x') ∨ (io.sent = .again ∧ ¬ InOrder r beyond body x') := by
  obtain ⟨⟨hopen, hnone, hfound, rfl, hne⟩, hinput⟩ := hstep
  obtain ⟨hret, hwrite, rfl⟩ := Option.map_eq_some_iff.mp hinput
  obtain ⟨hstate, ⟨q', headers, hhead, hrest⟩, hwrites⟩ := h.pending hopen
  obtain ⟨ctx, hreq, hlen, ok, ctx', es, hsend, rfl⟩ := eventWrite_pending hnone hfound hstate hhead hwrite
  obtain ⟨hsent, hfd, hstate', hindex, hsaid, hend⟩ := fcgiSendResponseHeaders_spec hhead (h.entries hopen)
  have hfd' : q'.fd = socket := hfd.trans (requestListGetByFd_some hfound)
  have hslot : r < ctx.rl.rs.length := hlen ▸ h.slot hopen
  have hq' : (ctx.setReq r q').req r = q' := FcgiContext.req_setReq_self hslot q'
  have hcases := fcgiSendResponse_cases (by rw [hq', hsent]) (by rw [hq', hstate', hstate]) (by rw [hq']; exact hindex)
    hne hsend
  rw [hq', hfd', hrest] at hcases
  obtain ⟨hagain, rfl, rfl, rfl⟩ | ⟨hgo, rfl, hall, hended⟩ | ⟨n, q, hgo, hpos, hle, rfl, rfl, hsent', hended,
    hiov, hiovIndex, rfl⟩ := hcases
  · -- the request failed, although the client is still there
    refine .inr ⟨hagain, fun hin => ?_⟩
    have hquiet : endedOn socket (eventWriteError (ctx.setReq r q') r (headers ++ [])).effects = false := by
      simp only [eventWriteError, endedOn_append, hend, (failRequest_sentOn _ socket).2]
      rfl
    simp only [Bool.false_eq_true, if_false] at hin
    have hopen' : (x.ended || endedOn socket (eventWriteError (ctx.setReq r q') r (headers ++ [])).effects) = false := by
      rw [hopen, hquiet]
      rfl
    have hfailed := (hin.pending hopen').1
    simp only [eventWriteError, hq', failRequest_eq] at hfailed
    rw [FcgiContext.req_setReq_self (by rwa [FcgiContext.length_rs_setReq])] at hfailed
    contradiction
  · have hbody : x.received ++ sentOn socket (headers ++ es) = body := by
      rw [sentOn_append, hsaid, List.nil_append, hall]
      exact List.prefix_iff_eq_append.mp h.received
    have hclosed : (x.ended || endedOn socket (headers ++ es)) = true := by
      rw [endedOn_append, hended, Bool.or_true, Bool.or_true]
    simp only [if_true, hbody, hclosed]
    exact .inl ⟨hgo, ⟨⟨List.prefix_refl body, fun _ => rfl, fun hp => Bool.noConfusion (show true = false from hp)⟩,
      fun hp => Bool.noConfusion (show true = false from hp), fun hp => Bool.noConfusion (show true = false from hp)⟩⟩
  · have hpart : x.received ++ sentOn socket (headers ++ [.sent socket ((body.drop x.received.length).take n)]) =
        body.take (x.received.length + n) := by
      rw [sentOn_append, hsaid, List.nil_append, Exchange.sentOn_sent, List.take_add,
        ← List.prefix_iff_eq_take.mp h.received]
    have hmore : (body.take (x.received.length + n)).length = x.received.length + n := by
      have hbound := h.received.length_le
      rw [List.length_drop] at hle
      rw [List.length_take]
      omega
    have hopen' : (x.ended || endedOn socket (headers ++ [.sent socket ((body.drop x.received.length).take n)])) =
        false := by
      rw [hopen, endedOn_append, hend]
      rfl
    simp only [if_true, hpart, hopen', if_neg hgo, FcgiContext.setReq_setReq]
    have hnow : (ctx.setReq r q).req r = q := FcgiContext.req_setReq_self hslot q
    refine .inl ⟨hgo, ⟨⟨List.take_prefix _ _, fun hp => Bool.noConfusion (show false = true from hp),
      fun _ => ⟨?_, ⟨q, [], ?_, ?_⟩, ?_⟩⟩, fun _ => ?_, fun _ _ => ?_⟩⟩
    · rw [hnow, hended]
    · rw [hnow, fcgiSendResponseHeaders, if_pos hsent']
    · rw [hmore, hiov, List.drop_drop]
    · rw [hmore]
      exact Nat.add_le_add hwrites hpos
    · rwa [FcgiContext.length_rs_setReq]
    · rw [hnow, hiovIndex]
      exact hindex

theorem Ok.other (h : Ok r beyond body x) {ctx : FcgiContext} (hstep : Step r socket beyond config x (.other ctx) x') :
    Ok r beyond body x' := by
  obtain ⟨hsame, hinput⟩ := hstep
  obtain rfl := Option.some.inj hinput
  refine ⟨⟨h.received, h.done, fun hopen => ?_⟩, fun hopen => ?_, fun hopen hsent => ?_⟩
  · rw [show ctx.req r = x.ctx.req r from (hsame hopen).1]
    exact h.pending hopen
  · show r < ctx.rl.rs.length
    rw [(hsame hopen).2]
    exact h.slot hopen
  · rw [show ctx.req r = x.ctx.req r from (hsame hopen).1] at hsent ⊢
    exact h.entries hopen hsent

/-- **The delivery of a response**: in every run of write events while the client stays
connected, the client has a beginning of the body after each, all of it once the request is
ended, and until then the rest is kept for the next event, exactly when no write would block. -/
theorem inOrder_iff_guarded {inputs : List DeliveryInput} (hstart : Starts r beyond body x)
    (hrun : Run (Step r socket beyond config) x inputs x') :
    (∀ before y, before <+: inputs → Run (Step r socket beyond config) x before y → InOrder r beyond body y) ↔
      Run (Guarded (fun _ => Guard) (Step r socket beyond config)) x inputs x' := by
  refine Run.always_iff_guarded ?_ ?_ (fun y hy => hy.toInOrder) ?_ (Ok.starts hstart) hrun
  · rintro y a y₁ y₂ ⟨-, h₁⟩ ⟨-, h₂⟩
    exact Option.some.inj (h₁.symm.trans h₂)
  · rintro y (io | ctx) y' hy hguard hstep
    · obtain ⟨-, hok⟩ | ⟨hagain, -⟩ := hy.write hstep
      · exact hok
      · exact absurd hagain hguard
    · exact hy.other hstep
  · rintro y (io | ctx) y' hy hstep hin
    · obtain ⟨hgo, -⟩ | ⟨-, hnot⟩ := hy.write hstep
      · exact hgo
      · exact absurd hin hnot
    · trivial

/-! ## a response of two bytes -/

instance (r : Nat) (socket : Int) (beyond : Bytes) (x : Delivery) :
    (a : DeliveryInput) → Decidable (Possible r socket beyond x a)
  | .write _ => inferInstanceAs (Decidable (_ ∧ _ ∧ _ ∧ _ ∧ _))
  | .other _ => inferInstanceAs (Decidable (x.ended = false → _))

instance : (a : DeliveryInput) → Decidable (Guard a)
  | .write io => inferInstanceAs (Decidable (io.sent ≠ .again))
  | .other _ => inferInstanceAs (Decidable True)

/-- The backend answered with a blank line and two bytes. -/
def twoBytes : Delivery :=
  { ctx := ((oneWorker.exec oneBackend (requestSent ++ [.read 11 [.data ([1, 6, 0, 2, 0, 3, 0, 0, 0x0a, 0x41, 0x42] ++
      [1, 3, 0, 2, 0, 8, 0, 0, 0, 0, 0, 0, 0, 0, 0, 0]), .again] none])).map (·.ctx)).getD oneWorker.ctx }

theorem twoBytes_starts : Starts 1 [] [0x41, 0x42] twoBytes := by
  obtain ⟨⟨hslot, hstate, hhead⟩, hsent⟩ :
      (1 < twoBytes.ctx.rl.rs.length ∧ (twoBytes.ctx.req 1).state = .ended ∧
        (twoBytes.ctx.req 1).headersSent = false) ∧
        (fcgiSendResponseHeaders (twoBytes.ctx.req 1) []).any (fun p => p.1.iov.bytes = [0x41, 0x42]) = true := by
    decide +kernel
  obtain ⟨⟨q', headers⟩, hheaders, hbytes⟩ := (Option.any_eq_true ..).mp hsent
  exact ⟨⟨rfl, rfl, rfl⟩, hslot, hstate, hhead, q', headers, hheaders, of_decide_eq_true hbytes⟩

/-- Sent in two parts. -/
theorem inOrder_two_parts : ∃ x, Run (Step 1 5 [] oneBackend) twoBytes
      [.write { sent := .wrote 1 }, .write { sent := .wrote 1 }] x ∧
    ∀ before y, before <+: [.write { sent := .wrote 1 }, .write { sent := .wrote 1 }] →
      Run (Step 1 5 [] oneBackend) twoBytes before y → InOrder 1 [] [0x41, 0x42] y := by
  obtain ⟨x, hx⟩ := Option.isSome_iff_exists.mp (show (List.foldlM
    (fun x a => if Guard a ∧ Possible 1 5 [] x a then input 5 oneBackend x a else none) twoBytes
    [.write { sent := .wrote 1 }, .write { sent := .wrote 1 }]).isSome = true by decide +kernel)
  have hrun : Run (Guarded (fun _ => Guard) (Step 1 5 [] oneBackend)) twoBytes
      [.write { sent := .wrote 1 }, .write { sent := .wrote 1 }] x := Run.guarded_guarded_of_foldlM hx
  exact ⟨x, hrun.of_guarded, (inOrder_iff_guarded twoBytes_starts hrun.of_guarded).mpr hrun⟩

/-- The second part would block: the request fails with a byte unsent. -/
theorem not_inOrder_would_block : ∃ x, Run (Step 1 5 [] oneBackend) twoBytes
      [.write { sent := .wrote 1 }, .write { sent := .again }] x ∧ Starts 1 [] [0x41, 0x42] twoBytes ∧
    x.received = [0x41] ∧ (x.ctx.req 1).state = .failed ∧ ¬ InOrder 1 [] [0x41, 0x42] x := by
  obtain ⟨x, hx, hfailed⟩ := (Option.any_eq_true ..).mp (show (List.foldlM
    (fun x a => if Possible 1 5 [] x a then input 5 oneBackend x a else none) twoBytes
    [.write { sent := .wrote 1 }, .write { sent := .again }]).any
    (fun x => x.received = [0x41] ∧ (x.ctx.req 1).state = .failed ∧ x.ended = false) = true by decide +kernel)
  obtain ⟨hreceived, hstate, hopen⟩ := of_decide_eq_true hfailed
  have hrun : Run (Step 1 5 [] oneBackend) twoBytes [.write { sent := .wrote 1 }, .write { sent := .again }] x :=
    Run.guarded_of_foldlM hx
  refine ⟨x, hrun, twoBytes_starts, hreceived, hstate, fun hin => ?_⟩
  have hended := (hin.pending hopen).1
  rw [hstate] at hended
  exact absurd hended (by decide)

end Delivery

end Monkey.Fastcgi
