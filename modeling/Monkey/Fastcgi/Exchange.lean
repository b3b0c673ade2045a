import Monkey.Fastcgi.Moves

/-!
# Monkey.Fastcgi.Exchange

One vector for both directions: the `iov` of a request is what is still to be written to
the backend, and then what is queued for the client.

Nothing but the state of the connection tells the two apart.  Output that comes while
the request is still being sent is queued behind it: the end of the sending drops it, or
it is sent back.
-/

namespace Monkey.Fastcgi

/-! ## the exchange of one request -/

/-- The exchange of one request with its backend: the connection that took it, the bytes
written on it, and the bodies of the output received. -/
structure Exchange where
  ctx : FcgiContext
  conn : Option Nat := none
  written : Bytes := []
  bodies : Bytes := []
deriving DecidableEq, Repr

/-- A write event on connection `i`, an output record received on connection `j`, and
what happens to the thread besides. -/
inductive ExchangeInput
  | write (i : Nat) (io : WriteIo)
  | stdout (j : Nat) (pkg : FcgiHeader × Bytes)
  | other (ctx : FcgiContext)

/-- The bytes the effects write on `fd`. -/
def sentOn (fd : Int) (effects : List Effect) : Bytes :=
  effects.flatMap fun e =>
    match e with
    | .sent fd' bytes => if fd' = fd then bytes else []
    | _ => []

/-- The vector takes one more entry. -/
def ChunkIov.HasRoom (iov : ChunkIov) : Prop :=
  iov.index < iov.size ∨ iov.index < iov.size + 2 ∧ iov.size + 2 ≤ uioMaxiov

instance (iov : ChunkIov) : Decidable iov.HasRoom := inferInstanceAs (Decidable (_ ∨ _))

/-- Fewer than `remain` bytes were written. -/
def SendResult.Below (remain : Nat) : SendResult → Prop
  | .wrote n => n < remain
  | _ => True

instance (remain : Nat) : (res : SendResult) → Decidable (res.Below remain)
  | .wrote n => inferInstanceAs (Decidable (n < remain))
  | .again => inferInstanceAs (Decidable True)
  | .error => inferInstanceAs (Decidable True)

instance (ctx : FcgiContext) (socket : Int) (i r : Nat) : Decidable (Takes ctx socket i r) :=
  inferInstanceAs (Decidable (_ ∧ _ ∧ _))

namespace Exchange

/-- The events of the exchange of request `r`: the writes of the connection that takes
or took it, the output records with its id, and what leaves it and its connection
alone. -/
def Possible (r : Nat) (x : Exchange) : ExchangeInput → Prop
  | .write i io =>
      fcgiFdListGetByFd x.ctx.fds (x.ctx.conn i).fd = some i ∧ io.sent ≠ .error ∧
        (x.conn = some i ∨ x.conn = none ∧ Takes x.ctx (x.ctx.conn i).fd i r)
  | .stdout _ pkg =>
      pkg.1.type = fcgiStdout ∧ pkg.2.length = pkg.1.bodyLen.toNat ∧
        (requestListGet x.ctx.rl pkg.1.reqId).2 = some r
  | .other ctx =>
      ctx.rl.rs.length = x.ctx.rl.rs.length ∧ ctx.fds.length = x.ctx.fds.length ∧
        ctx.req r = x.ctx.req r ∧
        ∀ i ∈ x.conn, ctx.conn i = { x.ctx.conn i with chunk := (ctx.conn i).chunk }

/-- One event. -/
def input (config : FcgiConfig) (x : Exchange) : ExchangeInput → Option Exchange
  | .write i io =>
      (eventWrite config x.ctx (x.ctx.conn i).fd io).map fun h =>
        { x with
          ctx := h.ctx, conn := some i
          written := x.written ++ sentOn (x.ctx.conn i).fd h.effects }
  | .stdout j pkg => some { x with ctx := (recvPkg j (x.ctx, []) pkg).2.1, bodies := x.bodies ++ pkg.2 }
  | .other ctx => some { x with ctx := ctx }

/-- A step of the exchange of request `r`. -/
def Step (config : FcgiConfig) (r : Nat) (x : Exchange) (i : ExchangeInput) (x' : Exchange) : Prop :=
  Possible r x i ∧ x.input config i = some x'

/-- The exchange is clean: what was written is a beginning of the request, and all of it
once the connection is not sending any more; the vector holds the rest of the request
and then the output. -/
structure Clean (r : Nat) (prepared : Bytes) (x : Exchange) : Prop where
  written : x.written <+: prepared
  done : ∀ i ∈ x.conn, (x.ctx.conn i).state ≠ .sending → x.written = prepared
  queued : (x.ctx.req r).iov.bytes = prepared.drop x.written.length ++ x.bodies

/-- No output is queued when a write gets to the end of the request, and output comes
while it can be queued. -/
def Guard (r : Nat) (x : Exchange) : ExchangeInput → Prop
  | .write i io =>
      (x.ctx.conn i).state = .sending → x.bodies = [] ∨ io.sent.Below (x.ctx.conn i).beginReqRemain
  | .stdout _ pkg => pkg.2 = [] ∨ (x.ctx.req r).state = .sent ∧ (x.ctx.req r).iov.HasRoom
  | .other _ => True

/-! ## output -/

theorem requestAddPkg_isSome {q : Request} {body : Bytes} (hbody : body ≠ []) (hstate : q.state = .sent)
    (hroom : q.iov.HasRoom) :
    ∃ iov, requestAddPkg q body = some { q with iov := iov } ∧ iov.bytes = q.iov.bytes ++ body := by
  have hpos : 0 < body.length := List.length_pos_iff.mpr hbody
  have hbytes : ∀ size, ({ io := q.iov.io ++ [body], size := size } : ChunkIov).bytes = q.iov.bytes ++ body := by
    intro size
    simp [ChunkIov.bytes]
  unfold requestAddPkg
  rw [if_pos hstate]
  by_cases hlt : q.iov.index < q.iov.size
  · refine ⟨{ q.iov with io := q.iov.io ++ [body] }, ?_, hbytes _⟩
    rw [chunkIovAdd, if_pos ⟨hlt, hpos⟩]
  · obtain ⟨hgrown, hmax⟩ := hroom.resolve_left hlt
    refine ⟨{ io := q.iov.io ++ [body], size := q.iov.size + 2 }, ?_, hbytes _⟩
    rw [chunkIovAdd, if_neg fun h => hlt h.1, chunkIovResize, if_pos hmax]
    dsimp only [Option.bind_some]
    rw [chunkIovAdd, if_pos ⟨hgrown, hpos⟩]
    rfl

theorem requestAddPkg_isNone {q : Request} {body : Bytes}
    (h : ¬ (q.state = .sent ∧ q.iov.HasRoom)) : requestAddPkg q body = none := by
  unfold requestAddPkg
  split
  case isFalse => rfl
  case isTrue hstate =>
    have hfull : ¬ q.iov.HasRoom := fun hroom => h ⟨hstate, hroom⟩
    obtain ⟨hge, hmax⟩ := not_or.mp hfull
    rw [chunkIovAdd, if_neg fun hc => hge hc.1]
    dsimp only
    by_cases hgrow : q.iov.size + 2 ≤ uioMaxiov
    · rw [chunkIovResize, if_pos hgrow]
      dsimp only [Option.bind_some]
      rw [chunkIovAdd, if_neg fun hc => hmax ⟨hc.1, hgrow⟩]
      rfl
    · rw [chunkIovResize, if_neg hgrow]
      rfl

/-- The request after an output record. -/
def stdoutRequest (q : Request) (pkg : FcgiHeader × Bytes) : Request :=
  (handleStdout q pkg).getD (failRequest q).1

theorem stdoutRequest_state {q : Request} (pkg : FcgiHeader × Bytes) (h : q.state ≠ .sent) :
    (stdoutRequest q pkg).state = q.state ∨ (stdoutRequest q pkg).state = .failed := by
  have hadd : ∀ body, requestAddPkg q body = none := fun body => requestAddPkg_isNone fun hc => h hc.1
  have hclose : requestSetState q .streamClosed = none := by simp [requestSetState, canFollow, h]
  unfold stdoutRequest handleStdout
  split
  · exact .inl rfl
  · right
    rw [hadd, hclose, ite_self, Option.getD_none, failRequest_eq]

/-- Output that can be queued is. -/
theorem stdoutRequest_queued {q : Request} {pkg : FcgiHeader × Bytes} (hlen : pkg.2.length = pkg.1.bodyLen.toNat)
    (h : pkg.2 = [] ∨ q.state = .sent ∧ q.iov.HasRoom) :
    (stdoutRequest q pkg).iov.bytes = q.iov.bytes ++ pkg.2 := by
  unfold stdoutRequest handleStdout
  by_cases hbody : pkg.2 = []
  · have hzero : pkg.1.bodyLen = 0 := by
      apply UInt16.toNat.inj
      rw [← hlen, hbody]
      rfl
    rw [if_pos hzero, hbody, List.append_nil]
    unfold requestSetState
    split
    · rfl
    · split
      · rfl
      · rw [Option.getD_none, failRequest_eq]
  · obtain ⟨hstate, hroom⟩ := h.resolve_left hbody
    have hpos : pkg.1.bodyLen ≠ 0 := by
      intro hzero
      rw [hzero] at hlen
      exact hbody (List.length_eq_zero_iff.mp hlen)
    obtain ⟨iov, hadd, hbytes⟩ := requestAddPkg_isSome hbody hstate hroom
    rw [if_neg (by simp [hstate]), if_neg hpos, hadd]
    exact hbytes

/-- Output that cannot be queued is dropped. -/
theorem stdoutRequest_dropped {q : Request} {pkg : FcgiHeader × Bytes} (hlen : pkg.2.length = pkg.1.bodyLen.toNat)
    (hbody : pkg.2 ≠ []) (h : ¬ (q.state = .sent ∧ q.iov.HasRoom)) : (stdoutRequest q pkg).iov = q.iov := by
  have hpos : pkg.1.bodyLen ≠ 0 := by
    intro hzero
    rw [hzero] at hlen
    exact hbody (List.length_eq_zero_iff.mp hlen)
  unfold stdoutRequest handleStdout
  rw [requestAddPkg_isNone h, if_neg hpos]
  split
  · rfl
  · rw [Option.getD_none, failRequest_eq]

/-- **What an output record does**: it changes its request, and no connection. -/
theorem recvPkg_stdout {ctx : FcgiContext} {r : Nat} {pkg : FcgiHeader × Bytes} (j : Nat)
    (htype : pkg.1.type = fcgiStdout) (hget : (requestListGet ctx.rl pkg.1.reqId).2 = some r) :
    ∃ rl, rl.rs = ctx.rl.rs ∧ (recvPkg j (ctx, []) pkg).2.1 =
      ((ctx.withRl rl).setConn j (ctx.conn j)).setReq r (stdoutRequest (ctx.req r) pkg) := by
  obtain ⟨rl, hrs, ⟨hnone, -⟩ | ⟨r', hget', -, heq⟩⟩ := recvPkg_cases j ctx [] pkg
  · rw [hnone] at hget
    contradiction
  · obtain rfl : r = r' := Option.some.inj (hget.symm.trans hget')
    refine ⟨rl, hrs, ?_⟩
    have hne : fcgiStdout ≠ fcgiStderr := by decide
    rw [heq, fcgiHandlePkg, htype, if_neg hne, if_pos rfl, stdoutRequest]
    cases handleStdout (ctx.req r) pkg <;> rfl

/-! ## writing -/

/-- What is written is what the kernel says, or nothing of nothing. -/
theorem chunkIovSendv_eq_some {iov : ChunkIov} {res sent : SendResult} (h : chunkIovSendv iov res = some sent) :
    (sent = res ∧ ∀ n, res = .wrote n → n ≤ iov.bytes.length ∧ (0 < n ∨ iov.bytes = [])) ∨
      (sent = .wrote 0 ∧ iov.bytes = []) := by
  unfold chunkIovSendv at h
  rw [chunkIovLength_eq] at h
  split at h
  · left
    cases res with
    | wrote n =>
        dsimp only at h
        split at h
        · next hok =>
            cases h
            refine ⟨rfl, fun m hm => ?_⟩
            cases hm
            exact ⟨hok.1, hok.2.imp_right List.length_eq_zero_iff.mp⟩
        · contradiction
    | again => exact ⟨(Option.some.inj h).symm, by simp⟩
    | error => exact ⟨(Option.some.inj h).symm, by simp⟩
  · next hempty =>
      have hio : iov.io = [] := List.length_eq_zero_iff.mp (Nat.eq_zero_of_not_pos hempty)
      exact .inr ⟨(Option.some.inj h).symm, by rw [ChunkIov.bytes, hio, List.flatten_nil]⟩

theorem bytes_chunkIovDrop (iov : ChunkIov) {n : Nat} (hle : n ≤ iov.bytes.length) :
    ((chunkIovDrop iov n).getD iov).bytes = iov.bytes.drop n := by
  by_cases h0 : 0 < n
  · have hdrop : chunkIovDrop iov n = some { iov with io := dropEntries iov.io n } := by
      rw [chunkIovDrop, if_pos ⟨h0, by rwa [chunkIovLength_eq]⟩]
    rw [hdrop]
    exact (chunkIovDrop_eq_some hdrop).1
  · obtain rfl : n = 0 := Nat.eq_zero_of_not_pos h0
    rfl

/-- What is left to send after `n` bytes (`size_t`). -/
def remainAfter (f : FcgiFd) (n : Nat) : Nat := (f.beginReqRemain + 2 ^ 64 - n) % 2 ^ 64

/-- **What a write on a connection that is sending does**: nothing, or `n` bytes are
written. -/
theorem eventWriteSending_sent {ctx : FcgiContext} {i r : Nat} {res : SendResult} {h : HookRet}
    (hbegin : (ctx.conn i).beginReq = some r) (hne : res ≠ .error)
    (hret : eventWriteSending ctx i res = some h) :
    (res = .again ∧ h.ctx = ctx ∧ h.effects = []) ∨
    ∃ n f q, n ≤ (ctx.req r).iov.bytes.length ∧ (res = .wrote n ∨ (ctx.req r).iov.bytes = []) ∧
      h.effects = [.sent (ctx.conn i).fd ((ctx.req r).iov.bytes.take n)] ∧
      h.ctx = (ctx.setConn i f).setReq r q ∧ q.state = (ctx.req r).state ∧ f.fd = (ctx.conn i).fd ∧
      ((remainAfter (ctx.conn i) n = 0 ∧ f.state = .receiving ∧ q.iov.bytes = []) ∨
        (remainAfter (ctx.conn i) n ≠ 0 ∧ f.state = (ctx.conn i).state ∧ f.beginReq = some r ∧
          f.beginReqRemain = remainAfter (ctx.conn i) n ∧ q.iov.bytes = (ctx.req r).iov.bytes.drop n)) := by
  simp only [eventWriteSending, hbegin] at hret
  split at hret
  · contradiction
  · next hsend =>
      obtain ⟨heq, -⟩ | ⟨heq, -⟩ := chunkIovSendv_eq_some hsend
      · exact absurd heq.symm hne
      · contradiction
  · next hsend =>
      cases hret
      obtain ⟨heq, -⟩ | ⟨heq, -⟩ := chunkIovSendv_eq_some hsend
      · exact .inl ⟨heq.symm, rfl, rfl⟩
      · contradiction
  · next n hsend =>
      have hn : n ≤ (ctx.req r).iov.bytes.length ∧ (res = .wrote n ∨ (ctx.req r).iov.bytes = []) := by
        obtain ⟨heq, hbound⟩ | ⟨heq, hnil⟩ := chunkIovSendv_eq_some hsend
        · exact ⟨(hbound n heq.symm).1, .inl heq.symm⟩
        · cases heq
          exact ⟨Nat.zero_le _, .inr hnil⟩
      obtain ⟨hle, hres⟩ := hn
      right
      split at hret
      · next hzero =>
          cases hret
          exact ⟨n, _, _, hle, hres, rfl, rfl, rfl, rfl, .inl ⟨hzero, rfl, rfl⟩⟩
      · next hmore =>
          cases hret
          exact ⟨n, _, _, hle, hres, rfl, rfl, rfl, rfl,
            .inr ⟨hmore, rfl, rfl, rfl, bytes_chunkIovDrop _ hle⟩⟩

@[simp]
theorem sentOn_nil (fd : Int) : sentOn fd [] = [] := rfl

theorem sentOn_sent (fd : Int) (bytes : Bytes) : sentOn fd [.sent fd bytes] = bytes := by
  simp [sentOn]

/-! ## the invariant -/

/-- A clean exchange, with what the connection knows of it. -/
structure Ok (r : Nat) (prepared : Bytes) (x : Exchange) : Prop extends Clean r prepared x where
  slot : r < x.ctx.rl.rs.length
  waiting : x.conn = none → x.written = [] ∧ x.bodies = [] ∧ (x.ctx.req r).state ≠ .sent
  taken : ∀ i ∈ x.conn, i < x.ctx.fds.length ∧
    ((x.ctx.conn i).state = .sending ∧ (x.ctx.conn i).beginReq = some r ∧
        (x.ctx.conn i).beginReqRemain = prepared.length - x.written.length ∨
      (x.ctx.conn i).state = .receiving)

variable {config : FcgiConfig} {r : Nat} {prepared : Bytes} {x x' : Exchange}

/-- The bytes not written yet. -/
theorem Clean.length_queued (h : Clean r prepared x) :
    (x.ctx.req r).iov.bytes.length = prepared.length - x.written.length + x.bodies.length := by
  rw [h.queued, List.length_append, List.length_drop]

/-- A write of the rest of the request, or of a part of it. -/
theorem Clean.written_append (h : Clean r prepared x) {n : Nat} (hn : n ≤ prepared.length - x.written.length) :
    x.written ++ (x.ctx.req r).iov.bytes.take n = prepared.take (x.written.length + n) := by
  have hwritten : prepared.take x.written.length = x.written := List.prefix_iff_eq_take.mp h.written |>.symm
  have htake : (x.ctx.req r).iov.bytes.take n = (prepared.drop x.written.length).take n := by
    rw [h.queued, List.take_append_of_le_length (by rwa [List.length_drop])]
  rw [htake, List.take_add, hwritten]

/-- A write that is allowed stays within the request, and gets to its end only when nothing is
queued behind it. -/
theorem Ok.sent_within (h : Ok r prepared x) {n remain : Nat} {res : SendResult}
    (hremain : remain = prepared.length - x.written.length) (hle : n ≤ (x.ctx.req r).iov.bytes.length)
    (hres : res = .wrote n ∨ (x.ctx.req r).iov.bytes = []) (hguard : x.bodies = [] ∨ res.Below remain) :
    n ≤ prepared.length - x.written.length ∧ (n = prepared.length - x.written.length → x.bodies = []) := by
  have hlen := h.length_queued
  obtain hnone | hpart := hguard
  · refine ⟨?_, fun _ => hnone⟩
    rw [hlen, hnone] at hle
    exact hle
  · obtain hwrote | hnil := hres
    · have hlt : n < remain := (hwrote ▸ hpart : SendResult.Below _ (.wrote n))
      exact ⟨hremain ▸ hlt.le, fun heq => absurd heq (hremain ▸ hlt).ne⟩
    · rw [hnil, List.length_nil] at hle hlen
      exact ⟨by omega, fun _ => List.length_eq_zero_iff.mp (by omega)⟩

/-- **A write on the connection that is sending** leaves the exchange clean, where no
output is queued or it does not get to the end of the request. -/
theorem Ok.sending (h : Ok r prepared x) {i : Nat} {res : SendResult} {hr : HookRet}
    (hsize : prepared.length < 2 ^ 64) (hconn : x.conn = some i) (hstate : (x.ctx.conn i).state = .sending)
    (hne : res ≠ .error) (hret : eventWriteSending x.ctx i res = some hr)
    (hguard : x.bodies = [] ∨ res.Below (x.ctx.conn i).beginReqRemain) :
    Ok r prepared { x with ctx := hr.ctx, conn := some i, written := x.written ++ sentOn (x.ctx.conn i).fd hr.effects } := by
  obtain ⟨hlt, ⟨-, hbegin, hremain⟩ | hreceiving⟩ := h.taken i hconn
  case inr => simp [hstate] at hreceiving
  obtain ⟨-, hctx, heff⟩ | ⟨n, f, q, hle, hres, heff, hctx, hq, -, hcases⟩ :=
    eventWriteSending_sent hbegin hne hret
  · rw [hctx, heff, sentOn_nil, List.append_nil, ← hconn]
    exact h
  obtain ⟨hle', hend'⟩ := h.sent_within hremain hle hres hguard
  have hwritten := h.written_append hle'
  have hlength : (prepared.take (x.written.length + n)).length = x.written.length + n := by
    rw [List.length_take]
    have := h.written.length_le
    omega
  rw [heff, sentOn_sent, hwritten, hctx]
  have hslot : r < (x.ctx.setConn i f).rl.rs.length := h.slot
  have hremain' : remainAfter (x.ctx.conn i) n = prepared.length - x.written.length - n := by
    rw [remainAfter, hremain]
    omega
  rw [hremain'] at hcases
  obtain ⟨hzero, hf, hiov⟩ | ⟨hmore, hf, hf', hremain, hiov⟩ := hcases
  · -- the request is written: nothing may be queued behind it
    have hend : x.written.length + n = prepared.length := by
      have := h.written.length_le
      omega
    have hnone : x.bodies = [] := hend' (by omega)
    rw [hend, List.take_length]
    refine ⟨⟨List.prefix_rfl, fun _ _ _ => rfl, ?_⟩, by simpa using hslot, fun hc => ?_, fun j hj => ?_⟩
    · simp [FcgiContext.req_setReq_self hslot, hiov, hnone]
    · contradiction
    · obtain rfl : i = j := Option.some.inj hj
      refine ⟨by simpa [FcgiContext.setReq] using hlt, .inr ?_⟩
      rw [FcgiContext.conn_setReq, FcgiContext.conn_setConn_self hlt, hf]
  · refine ⟨⟨List.take_prefix .., fun j hj hdone => ?_, ?_⟩, by simpa using hslot, fun hc => ?_, fun j hj => ?_⟩
    · obtain rfl : i = j := Option.some.inj hj
      rw [FcgiContext.conn_setReq, FcgiContext.conn_setConn_self hlt, hf] at hdone
      exact absurd hstate hdone
    · rw [FcgiContext.req_setReq_self hslot, hiov, h.queued, hlength,
        List.drop_append_of_le_length (by rwa [List.length_drop]), List.drop_drop]
    · contradiction
    · obtain rfl : i = j := Option.some.inj hj
      refine ⟨by simpa [FcgiContext.setReq] using hlt, .inl ?_⟩
      rw [FcgiContext.conn_setReq, FcgiContext.conn_setConn_self hlt]
      refine ⟨hf.trans hstate, hf', ?_⟩
      rw [hremain, hlength, Nat.sub_sub]

/-- The connection that is ready takes the request. -/
theorem Ok.take (h : Ok r prepared x) {i : Nat} {rl : RequestList} (hconn : x.conn = none)
    (hi : i < x.ctx.fds.length) (hrs : rl.rs = x.ctx.rl.rs) :
    Ok r prepared { x with ctx := takeRequest (x.ctx.withRl rl) i r, conn := some i } := by
  obtain ⟨hwritten, hbodies, -⟩ := h.waiting hconn
  have hslot : r < (x.ctx.withRl rl).rl.rs.length := by
    show r < rl.rs.length
    rw [hrs]
    exact h.slot
  have hi' : i < ((x.ctx.withRl rl).setReq r
      { (x.ctx.withRl rl).req r with fcgiFd := ((x.ctx.withRl rl).conn i).fd, state := .sent }).fds.length := hi
  have hiov : (takeRequest (x.ctx.withRl rl) i r).req r =
      { x.ctx.req r with fcgiFd := ((x.ctx.withRl rl).conn i).fd, state := .sent } := by
    rw [takeRequest, FcgiContext.req_setConn, FcgiContext.req_setReq_self hslot, FcgiContext.req_withRl hrs]
  have htaken : (takeRequest (x.ctx.withRl rl) i r).conn i = { x.ctx.conn i with
      state := .sending, beginReqRemain := chunkIovLength (x.ctx.req r).iov, beginReq := some r } := by
    rw [takeRequest, FcgiContext.conn_setConn_self hi', FcgiContext.req_withRl hrs]
    rfl
  refine ⟨⟨h.written, fun j hj hdone => ?_, ?_⟩, by simpa [takeRequest, FcgiContext.setConn] using hslot,
    by simp, fun j hj => ?_⟩
  · obtain rfl : i = j := Option.some.inj hj
    rw [htaken] at hdone
    exact absurd rfl hdone
  · rw [hiov]
    exact h.queued
  · obtain rfl : i = j := Option.some.inj hj
    refine ⟨by simpa [takeRequest] using hi', .inl ?_⟩
    rw [htaken]
    refine ⟨rfl, rfl, ?_⟩
    rw [chunkIovLength_eq, h.length_queued, hbodies]
    rfl

/-- An output record leaves the exchange clean where the output can be queued. -/
theorem Ok.stdout (h : Ok r prepared x) {j : Nat} {pkg : FcgiHeader × Bytes}
    (hposs : Possible r x (.stdout j pkg)) (hguard : Guard r x (.stdout j pkg)) :
    Ok r prepared { x with ctx := (recvPkg j (x.ctx, []) pkg).2.1, bodies := x.bodies ++ pkg.2 } := by
  obtain ⟨htype, hlen, hget⟩ := hposs
  obtain ⟨rl, hrs, heq⟩ := recvPkg_stdout j htype hget
  have hslot : r < ((x.ctx.withRl rl).setConn j (x.ctx.conn j)).rl.rs.length := by
    show r < rl.rs.length
    rw [hrs]
    exact h.slot
  have hconn : ∀ i, (recvPkg j (x.ctx, []) pkg).2.1.conn i = x.ctx.conn i := by
    intro i
    rw [heq, FcgiContext.conn_setReq, FcgiContext.conn_setConn]
    split
    · next hij => rw [hij.1]
    · rfl
  have hreq : (recvPkg j (x.ctx, []) pkg).2.1.req r = stdoutRequest (x.ctx.req r) pkg := by
    rw [heq, FcgiContext.req_setReq_self hslot]
  refine ⟨⟨h.written, fun i hi => ?_, ?_⟩, ?_, fun hnone => ?_, fun i hi => ?_⟩
  · rw [hconn]
    exact h.done i hi
  · rw [hreq, stdoutRequest_queued hlen hguard, h.queued, List.append_assoc]
  · rw [heq]
    simpa using hslot
  · obtain ⟨hwritten, hbodies, hstate⟩ := h.waiting hnone
    have hempty : pkg.2 = [] := hguard.resolve_right fun hc => hstate hc.1
    refine ⟨hwritten, by simp [hbodies, hempty], ?_⟩
    rw [hreq]
    obtain hsame | hfailed := stdoutRequest_state pkg hstate
    · rwa [hsame]
    · simp [hfailed]
  · rw [hconn]
    refine ⟨?_, (h.taken i hi).2⟩
    rw [heq]
    simpa [FcgiContext.setReq, FcgiContext.withRl] using (h.taken i hi).1

theorem Ok.other (h : Ok r prepared x) {ctx : FcgiContext} (hposs : Possible r x (.other ctx)) :
    Ok r prepared { x with ctx := ctx } := by
  obtain ⟨hrs, hfds, hreq, hconn⟩ := hposs
  refine ⟨⟨h.written, fun i hi => ?_, ?_⟩, hrs ▸ h.slot, fun hnone => ?_, fun i hi => ?_⟩
  · rw [hconn i hi]
    exact h.done i hi
  · rw [hreq]
    exact h.queued
  · rw [hreq]
    exact h.waiting hnone
  · rw [hconn i hi, hfds]
    exact h.taken i hi

/-- A write event of the exchange is a write on the connection that is sending, once it
took the request, or changes nothing. -/
theorem Ok.write_cases (h : Ok r prepared x) {i : Nat} {io : WriteIo} (hstep : Step config r x (.write i io) x') :
    x' = x ∧ (x.ctx.conn i).state ≠ .sending ∨ ∃ y hr, Ok r prepared y ∧ y.conn = some i ∧ (y.ctx.conn i).state = .sending ∧
      y.bodies = x.bodies ∧ (y.bodies ≠ [] → y = x) ∧ io.sent ≠ .error ∧ eventWriteSending y.ctx i io.sent = some hr ∧
      x' = { y with
        ctx := hr.ctx, conn := some i
        written := y.written ++ sentOn (y.ctx.conn i).fd hr.effects } := by
  obtain ⟨⟨hget, hne, hconn⟩, hinput⟩ := hstep
  obtain ⟨hr, hwrite, rfl⟩ := Option.map_eq_some_iff.mp hinput
  simp only [eventWrite, hget] at hwrite
  obtain hconn | ⟨hconn, -, hready, hnext⟩ := hconn
  · obtain ⟨hlt, ⟨hsending, -⟩ | hreceiving⟩ := h.taken i hconn
    · simp only [hsending] at hwrite
      exact .inr ⟨x, hr, h, hconn, hsending, rfl, fun _ => rfl, hne, hwrite, rfl⟩
    · simp only [hreceiving] at hwrite
      cases hwrite
      refine .inl ⟨?_, by simp [hreceiving]⟩
      rw [sentOn_nil, List.append_nil, ← hconn]
  · simp only [hready] at hwrite
    obtain ⟨hlt, -⟩ := fcgiFdListGetByFd_some hget (fcgiFdInit .unix 0 0)
    have hrs := requestListNextAssigned_rs x.ctx.rl (UInt16.ofNat (x.ctx.conn i).locationId)
    rcases hfound : requestListNextAssigned x.ctx.rl (UInt16.ofNat (x.ctx.conn i).locationId) with ⟨rl, found⟩
    rw [hfound] at hnext hrs
    obtain rfl : found = some r := hnext
    rw [eventWriteReady_take hready hfound] at hwrite
    have hok := h.take hconn hlt hrs
    have htaken : ((takeRequest (x.ctx.withRl rl) i r).conn i) = { x.ctx.conn i with
        state := .sending, beginReqRemain := chunkIovLength ((x.ctx.withRl rl).req r).iov, beginReq := some r } :=
      FcgiContext.conn_setConn_self (by exact hlt) _
    refine .inr ⟨_, hr, hok, rfl, by rw [htaken], rfl, fun hbodies => ?_, hne, hwrite, ?_⟩
    · exact absurd (h.waiting hconn).2.1 hbodies
    · dsimp only
      rw [htaken]

/-- **Every guarded event leaves the exchange clean.** -/
theorem Ok.step (h : Ok r prepared x) (hsize : prepared.length < 2 ^ 64) {a : ExchangeInput}
    (hguard : Guard r x a) (hstep : Step config r x a x') : Ok r prepared x' := by
  cases a with
  | write i io =>
      obtain ⟨rfl, -⟩ | ⟨y, hr, hok, hconn, hsending, -, hsame, hne, hret, rfl⟩ := h.write_cases hstep
      · exact h
      · refine hok.sending hsize hconn hsending hne hret ?_
        by_cases hbodies : y.bodies = []
        · exact .inl hbodies
        · obtain rfl := hsame hbodies
          exact hguard hsending
  | stdout j pkg =>
      obtain ⟨hposs, hinput⟩ := hstep
      cases hinput
      exact h.stdout hposs hguard
  | other ctx =>
      obtain ⟨hposs, hinput⟩ := hstep
      cases hinput
      exact h.other hposs

/-- With output queued, a write that leaves the exchange clean stays within the request. -/
theorem Ok.lt_of_clean (h : Ok r prepared x) {i n : Nat} {hr : HookRet} (hconn : x.conn = some i)
    (hsending : (x.ctx.conn i).state = .sending) (hbodies : x.bodies ≠ [])
    (hret : eventWriteSending x.ctx i (.wrote n) = some hr)
    (hclean : Clean r prepared
      { x with ctx := hr.ctx, conn := some i, written := x.written ++ sentOn (x.ctx.conn i).fd hr.effects }) :
    n < (x.ctx.conn i).beginReqRemain := by
  obtain ⟨hlt, ⟨-, hbegin, hremain⟩ | hreceiving⟩ := h.taken i hconn
  case inr => simp [hsending] at hreceiving
  have hpos : 0 < x.bodies.length := List.length_pos_iff.mpr hbodies
  have hlen := h.length_queued
  obtain ⟨hno, -⟩ | ⟨m, f, q, hle, hres, heff, hctx, -, -, hcases⟩ :=
    eventWriteSending_sent hbegin (by simp) hret
  · contradiction
  have hm : m = n := by
    obtain heq | hnil := hres
    · cases heq
      rfl
    · rw [hnil, List.length_nil] at hlen
      omega
  subst hm
  by_contra hge
  -- what was written is still a beginning of the request, so the write got to its end
  have hprefix := hclean.written.length_le
  dsimp only at hprefix
  rw [heff, sentOn_sent, List.length_append, List.length_take, min_eq_left hle] at hprefix
  have hend : remainAfter (x.ctx.conn i) m = 0 := by
    rw [remainAfter, hremain]
    omega
  obtain ⟨-, -, hiov⟩ | ⟨hmore, -⟩ := hcases
  · have hslot : r < (x.ctx.setConn i f).rl.rs.length := h.slot
    have hqueued := hclean.queued
    dsimp only at hqueued
    rw [hctx, FcgiContext.req_setReq_self hslot, hiov] at hqueued
    exact hbodies (List.append_eq_nil_iff.mp hqueued.symm).2
  · exact hmore hend

/-- **Any other event leaves it not clean.** -/
theorem Ok.guard_of_clean (h : Ok r prepared x) {a : ExchangeInput} (hstep : Step config r x a x')
    (hclean : Clean r prepared x') : Guard r x a := by
  cases a with
  | write i io =>
      intro hsending
      rw [or_iff_not_imp_left]
      intro hbodies
      obtain ⟨-, hno⟩ | ⟨y, hr, hok, hconn, -, hsame, hself, hne, hret, rfl⟩ := h.write_cases hstep
      · exact absurd hsending hno
      obtain rfl := hself (hsame ▸ hbodies)
      cases hsent : io.sent with
      | wrote n => exact h.lt_of_clean hconn hsending hbodies (hsent ▸ hret) hclean
      | again => trivial
      | error => trivial
  | stdout j pkg =>
      obtain ⟨⟨htype, hlen, hget⟩, hinput⟩ := hstep
      cases hinput
      by_contra hguard
      obtain ⟨hbody, hroom⟩ := not_or.mp hguard
      obtain ⟨rl, hrs, heq⟩ := recvPkg_stdout j htype hget
      have hslot : r < ((x.ctx.withRl rl).setConn j (x.ctx.conn j)).rl.rs.length := by
        show r < rl.rs.length
        rw [hrs]
        exact h.slot
      have hqueued := hclean.queued
      dsimp only at hqueued
      rw [heq, FcgiContext.req_setReq_self hslot, stdoutRequest_dropped hlen hbody hroom, h.queued,
        ← List.append_assoc, List.self_eq_append_right] at hqueued
      exact hbody hqueued
  | other ctx => trivial

/-! ## the exchanges of a request -/

theorem stage30Connect_rl (ctx : FcgiContext) (location : Nat) (connect : Option Int) :
    (stage30Connect config ctx location connect).2.1.rl = ctx.rl := by
  unfold stage30Connect fcgiWakeConnection fcgiNewConnection
  grind [FcgiContext.setConn]

/-- The stage 30 hook leaves the prepared request in its slot. -/
theorem stage30Slot_prepared {junk : Junk} {ctx ctx' : FcgiContext} {socket : Int} {location : Nat}
    {client : ClientRequest} {connect : Option Int} {effects : List Effect} {q : Request} {iov : ChunkIov}
    (hr : r < ctx.rl.rs.length) (hassign : requestAssign (ctx.req r) socket (UInt16.ofNat location) client = some q)
    (hprepare : prepareIov config junk ctx.rl r q client = some (some iov))
    (hhook : stage30Slot config ctx r socket location client junk connect = some (ctx', effects)) :
    (ctx'.req r).iov = iov ∧ (ctx'.req r).state ≠ .sent ∧ r < ctx'.rl.rs.length := by
  obtain rfl := requestAssign_eq_some hassign
  have hrl := @stage30Connect_rl config
    (ctx.setReq r { ctx.req r with
      state := .assigned, fd := socket, clockId := UInt16.ofNat location, client := some client, iov := iov })
    location connect
  simp only [stage30Slot, hassign, hprepare] at hhook
  split at hhook
  all_goals
    next ctx₁ es hconnect =>
      rw [hconnect] at hrl
      have hslot : r < ctx₁.rl.rs.length := by
        rw [hrl]
        simpa using hr
      have hreq : ctx₁.req r = { ctx.req r with
          state := .assigned, fd := socket, clockId := UInt16.ofNat location, client := some client, iov := iov } := by
        rw [FcgiContext.req, hrl]
        exact FcgiContext.req_setReq_self hr _
      obtain ⟨rfl, -⟩ := Prod.mk.inj (Option.some.inj hhook)
      simp [FcgiContext.req_setReq_self hslot, failRequest_eq, hreq, hslot]

/-- The exchange of the request the stage 30 hook prepared in slot `r`. -/
def Starts (config : FcgiConfig) (r : Nat) (prepared : Bytes) (x : Exchange) : Prop :=
  ∃ junk ctx socket location client connect q iov effects,
    r < ctx.rl.rs.length ∧ requestAssign (ctx.req r) socket (UInt16.ofNat location) client = some q ∧
      prepareIov config junk ctx.rl r q client = some (some iov) ∧ iov.bytes = prepared ∧
      stage30Slot config ctx r socket location client junk connect = some (x.ctx, effects) ∧
      x.conn = none ∧ x.written = [] ∧ x.bodies = []

theorem Ok.starts (h : Starts config r prepared x) : Ok r prepared x := by
  obtain ⟨junk, ctx, socket, location, client, connect, q, iov, effects, hr, hassign, hprepare, rfl, hhook, hconn,
    hwritten, hbodies⟩ := h
  obtain ⟨hiov, hstate, hslot⟩ := stage30Slot_prepared hr hassign hprepare hhook
  refine ⟨⟨by simp [hwritten], by simp [hconn], ?_⟩, hslot, fun _ => ⟨hwritten, hbodies, hstate⟩, by simp [hconn]⟩
  rw [hiov, hwritten, hbodies]
  exact (List.append_nil _).symm

/-- **The exchange of a request**, from the stage 30 hook on: in every run its bytes and
the output stay apart, in every state so far, exactly when no write gets to the end of
the request while output is queued, and output comes only when it can be queued. -/
theorem clean_iff_guarded {inputs : List ExchangeInput} (hsize : prepared.length < 2 ^ 64)
    (hstart : Starts config r prepared x) (hrun : Run (Step config r) x inputs x') :
    (∀ before y, before <+: inputs → Run (Step config r) x before y → Clean r prepared y) ↔
      Run (Guarded (Guard r) (Step config r)) x inputs x' := by
  refine Run.always_iff_guarded ?_ (fun y a y' hy hguard hstep => hy.step hsize hguard hstep)
    (fun y hy => hy.toClean) (fun y a y' hy hstep hclean => hy.guard_of_clean hstep hclean) (Ok.starts hstart) hrun
  rintro y a y₁ y₂ ⟨-, h₁⟩ ⟨-, h₂⟩
  exact Option.some.inj (h₁.symm.trans h₂)

/-! ## a request of 264 bytes -/

instance (r : Nat) (x : Exchange) : (a : ExchangeInput) → Decidable (Possible r x a)
  | .write _ _ => inferInstanceAs (Decidable (_ ∧ _ ∧ (_ ∨ _ ∧ _)))
  | .stdout _ _ => inferInstanceAs (Decidable (_ ∧ _ ∧ _))
  | .other ctx => inferInstanceAs (Decidable (_ ∧ _ ∧ _ ∧ ∀ i ∈ x.conn, ctx.conn i = _))

instance (r : Nat) (x : Exchange) : (a : ExchangeInput) → Decidable (Guard r x a)
  | .write i _ => inferInstanceAs (Decidable ((x.ctx.conn i).state = .sending → _))
  | .stdout _ _ => inferInstanceAs (Decidable (_ ∨ _))
  | .other _ => inferInstanceAs (Decidable True)

/-- The request of a client, about to be sent on a new connection. -/
def oneRequest : Exchange :=
  { ctx := ((stage30Slot oneBackend oneWorker.ctx 1 5 0 {} {} (some 11)).map (·.1)).getD oneWorker.ctx }

/-- What was prepared for it. -/
def oneRequestBytes : Bytes := (oneRequest.ctx.req 1).iov.bytes

theorem oneRequest_starts : Starts oneBackend 1 oneRequestBytes oneRequest := by
  have hassign : requestAssign (oneWorker.ctx.req 1) 5 (UInt16.ofNat 0) {} =
      some { state := .assigned, fd := 5, clockId := 0, client := some {} } := by decide +kernel
  obtain ⟨iov, hiov⟩ := Option.isSome_iff_exists.mp (show (prepareIov oneBackend {} oneWorker.ctx.rl 1
    { state := .assigned, fd := 5, clockId := 0, client := some {} } {}).join.isSome = true by decide +kernel)
  have hprepare := Option.join_eq_some_iff.mp hiov
  obtain ⟨⟨ctx, effects⟩, hhook⟩ := Option.isSome_iff_exists.mp
    (show (stage30Slot oneBackend oneWorker.ctx 1 5 0 {} {} (some 11)).isSome = true by decide +kernel)
  have hctx : oneRequest.ctx = ctx := by rw [oneRequest, hhook]; rfl
  refine ⟨{}, oneWorker.ctx, 5, 0, {}, some 11, _, iov, effects, by decide, hassign, hprepare, ?_,
    hctx ▸ hhook, rfl, rfl, rfl⟩
  rw [oneRequestBytes, hctx, (stage30Slot_prepared (by decide) hassign hprepare hhook).1]

/-- An output record of one byte for it. -/
def oneByte : FcgiHeader × Bytes := ({ type := fcgiStdout, reqId := 2, bodyLen := 1 }, [0x41])

/-- Written in two parts, and then answered. -/
theorem clean_partial_writes : ∃ x, Run (Step oneBackend 1) oneRequest
      [.write 0 { sent := .wrote 100 }, .write 0 { sent := .wrote 164 }, .stdout 0 oneByte] x ∧
    ∀ before y, before <+: [.write 0 { sent := .wrote 100 }, .write 0 { sent := .wrote 164 }, .stdout 0 oneByte] →
      Run (Step oneBackend 1) oneRequest before y → Clean 1 oneRequestBytes y := by
  obtain ⟨x, hx⟩ := Option.isSome_iff_exists.mp (show (List.foldlM
    (fun x a => if Guard 1 x a ∧ Possible 1 x a then input oneBackend x a else none) oneRequest
    [.write 0 { sent := .wrote 100 }, .write 0 { sent := .wrote 164 }, .stdout 0 oneByte]).isSome = true
    by decide +kernel)
  have hrun := Run.guarded_guarded_of_foldlM hx
  exact ⟨x, hrun.of_guarded, (clean_iff_guarded (by decide +kernel) oneRequest_starts hrun.of_guarded).mpr hrun⟩

/-- Answered before it is written whole: the output is sent back to the backend. -/
theorem not_clean_early_output : ∃ x, Run (Step oneBackend 1) oneRequest
      [.write 0 { sent := .wrote 100 }, .stdout 0 oneByte, .write 0 { sent := .wrote 165 }] x ∧
    Starts oneBackend 1 oneRequestBytes oneRequest ∧ x.written = oneRequestBytes ++ [0x41] ∧
      ¬ Clean 1 oneRequestBytes x := by
  obtain ⟨x, hx, hwritten⟩ := (Option.any_eq_true ..).mp (show (List.foldlM
    (fun x a => if Possible 1 x a then input oneBackend x a else none) oneRequest
    [.write 0 { sent := .wrote 100 }, .stdout 0 oneByte, .write 0 { sent := .wrote 165 }]).any
    (fun x => x.written = oneRequestBytes ++ [0x41]) = true by decide +kernel)
  have hwritten := of_decide_eq_true hwritten
  refine ⟨x, Run.guarded_of_foldlM hx, oneRequest_starts, hwritten, fun hclean => ?_⟩
  have hle := hclean.written.length_le
  rw [hwritten, List.length_append] at hle
  simp at hle

end Exchange

end Monkey.Fastcgi
