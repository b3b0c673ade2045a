import Monkey.Fastcgi.Inputs

/-!
# Monkey.Fastcgi.Links

Requests and the backend connections that work for them: two state machines linked by
a number, the `fcgi_fd` of the request.

The link is kept as long as a connection becomes free only for the request it works
for, and is closed only when it works for none.  Nothing in the code sees to either.
-/

namespace Monkey.Fastcgi

/-- The request is with a backend. -/
def Busy (q : Request) : Prop := q.state = .sent ∨ q.state = .streamClosed

/-- The connection works for the request: it is the one the request refers to, is of
its location, and sends or receives. -/
def Serves (f : FcgiFd) (q : Request) : Prop :=
  f.fd = q.fcgiFd ∧ UInt16.ofNat f.locationId = q.clockId ∧ (f.state = .sending ∨ f.state = .receiving)

/-- Requests and connections fit together. -/
structure Linked (ctx : FcgiContext) : Prop where
  busy : ∀ r, Busy (ctx.req r) → (ctx.req r).fcgiFd ≠ -1 ∧ ∃ i, Serves (ctx.conn i) (ctx.req r)
  distinct : ∀ r r', Busy (ctx.req r) → Busy (ctx.req r') → (ctx.req r).fcgiFd = (ctx.req r').fcgiFd → r = r'
  closed : ∀ r, (ctx.req r).fcgiFd ≠ -1 → ∃ i, (ctx.conn i).fd = (ctx.req r).fcgiFd

/-- A connection that receives is made ready only by the end of the request it works
for; one that is given up or closed works for none. -/
def LinkGuard (ctx : FcgiContext) : Moment → Prop
  | .package i pkg =>
      pkg.1.type = fcgiEndRequest → (ctx.conn i).state = .receiving →
        ∀ r' ∈ (requestListGet ctx.rl pkg.1.reqId).2, ∀ r < ctx.rl.rs.length,
          (ctx.req r).fcgiFd = (ctx.conn i).fd → r = r'
  | .giveUp i => ∀ r < ctx.rl.rs.length, (ctx.req r).fcgiFd ≠ (ctx.conn i).fd
  | .close i => ∀ r < ctx.rl.rs.length, (ctx.req r).fcgiFd ≠ (ctx.conn i).fd
  | .drop _ => True

instance (ctx : FcgiContext) : (m : Moment) → Decidable (LinkGuard ctx m)
  | .package _ pkg =>
      inferInstanceAs (Decidable (_ → _ → ∀ r' ∈ (requestListGet ctx.rl pkg.1.reqId).2, ∀ r < ctx.rl.rs.length, _))
  | .giveUp _ => inferInstanceAs (Decidable (∀ r < ctx.rl.rs.length, _))
  | .close _ => inferInstanceAs (Decidable (∀ r < ctx.rl.rs.length, _))
  | .drop _ => inferInstanceAs (Decidable True)

/-- A request that refers to a connection has a slot. -/
theorem req_lt_of_fcgiFd {ctx : FcgiContext} {r : Nat} (h : (ctx.req r).fcgiFd ≠ -1) : r < ctx.rl.rs.length := by
  by_contra hge
  rw [FcgiContext.req, List.getD_eq_default _ _ (Nat.not_lt.mp hge)] at h
  exact h rfl

/-! ## the invariant -/

/-- A request by itself: with a backend it refers to a connection, before that it does
not. -/
structure RequestOk (q : Request) : Prop where
  busy : Busy q → q.fcgiFd ≠ -1
  idle : q.state = .available ∨ q.state = .assigned → q.fcgiFd = -1

/-- Every reference is to a connection that works for the request, and for no other. -/
structure LinkOk (ctx : FcgiContext) : Prop where
  request : ∀ r, RequestOk (ctx.req r)
  serves : ∀ r, (ctx.req r).fcgiFd ≠ -1 → ∃ i, Serves (ctx.conn i) (ctx.req r)
  unique : ∀ r r', (ctx.req r).fcgiFd = (ctx.req r').fcgiFd → (ctx.req r).fcgiFd ≠ -1 → r = r'

theorem LinkOk.linked {ctx : FcgiContext} (h : LinkOk ctx) : Linked ctx := by
  refine ⟨fun r hr => ?_, fun r r' hr _ heq => ?_, fun r hr => ?_⟩
  · have hne := (h.request r).busy hr
    exact ⟨hne, h.serves r hne⟩
  · exact h.unique r r' heq ((h.request r).busy hr)
  · obtain ⟨i, hi, -⟩ := h.serves r hr
    exact ⟨i, hi⟩

namespace LinkOk

variable {ctx ctx' : FcgiContext}

theorem of_same (h : LinkOk ctx) (hconn : ∀ i, ctx'.conn i = ctx.conn i) (hreq : ∀ r, ctx'.req r = ctx.req r) :
    LinkOk ctx' := by
  refine ⟨fun r => ?_, fun r => ?_, fun r r' => ?_⟩
  · rw [hreq]
    exact h.request r
  · simp only [hreq, hconn]
    exact h.serves r
  · rw [hreq, hreq]
    exact h.unique r r'

/-- A request changes and keeps its connection, or gives it up. -/
theorem setReq (h : LinkOk ctx) {r : Nat} {q : Request} (hok : RequestOk q)
    (hq : q.fcgiFd = -1 ∨ q.fcgiFd = (ctx.req r).fcgiFd ∧ q.clockId = (ctx.req r).clockId) :
    LinkOk (ctx.setReq r q) := by
  have hcases : ∀ a, ((ctx.setReq r q).req a).fcgiFd ≠ -1 →
      ((ctx.setReq r q).req a).fcgiFd = (ctx.req a).fcgiFd ∧
        ((ctx.setReq r q).req a).clockId = (ctx.req a).clockId := by
    intro a
    rw [FcgiContext.req_setReq]
    split
    · next ha =>
        rw [ha.1]
        exact fun hne => hq.resolve_left hne
    · exact fun _ => ⟨rfl, rfl⟩
  refine ⟨fun a => ?_, fun a hne => ?_, fun a b heq hne => ?_⟩
  · rw [FcgiContext.req_setReq]
    split
    · exact hok
    · exact h.request a
  · obtain ⟨hfd, hclock⟩ := hcases a hne
    obtain ⟨i, hi⟩ := h.serves a (hfd ▸ hne)
    refine ⟨i, ?_⟩
    rw [Serves, hfd, hclock]
    exact hi
  · obtain ⟨hfd, -⟩ := hcases a hne
    obtain ⟨hfd', -⟩ := hcases b (heq ▸ hne)
    exact h.unique a b (by rw [← hfd, ← hfd', heq]) (hfd ▸ hne)

/-- A connection changes and works on for its request, if it has one. -/
theorem setConn (h : LinkOk ctx) {i : Nat} {f : FcgiFd}
    (hf : ∀ r, (ctx.req r).fcgiFd ≠ -1 → Serves (ctx.conn i) (ctx.req r) → Serves f (ctx.req r)) :
    LinkOk (ctx.setConn i f) := by
  refine ⟨h.request, fun r hne => ?_, h.unique⟩
  obtain ⟨j, hj⟩ := h.serves r hne
  refine ⟨j, ?_⟩
  rw [FcgiContext.conn_setConn]
  split
  · next hij => exact hf r hne (hij.1 ▸ hj)
  · exact hj

/-- A connection that works for no request. -/
theorem setConn_idle (h : LinkOk ctx) {i : Nat} {f : FcgiFd}
    (hidle : (ctx.conn i).state ≠ .sending ∧ (ctx.conn i).state ≠ .receiving) : LinkOk (ctx.setConn i f) :=
  h.setConn fun _ _ hs => absurd hs.2.2 (not_or.mpr hidle)

/-- A connection takes a request. -/
theorem take (h : LinkOk ctx) {i r : Nat} {f : FcgiFd} {q : Request} (hi : i < ctx.fds.length)
    (hidle : (ctx.conn i).state ≠ .sending ∧ (ctx.conn i).state ≠ .receiving)
    (hfds : ∀ j, (ctx.conn j).fd = (ctx.conn i).fd → j = i) (hf : f.fd = (ctx.conn i).fd) (hs : Serves f q)
    (hok : RequestOk q) : LinkOk ((ctx.setReq r q).setConn i f) := by
  -- no one refers to the connection yet
  have hnone : ∀ a, (ctx.req a).fcgiFd ≠ -1 → (ctx.req a).fcgiFd ≠ f.fd := by
    intro a hne heq
    obtain ⟨j, hj⟩ := h.serves a hne
    obtain rfl := hfds j (hj.1.trans (heq.trans hf))
    exact absurd hj.2.2 (not_or.mpr hidle)
  have hq : q.fcgiFd = f.fd := hs.1.symm
  refine ⟨fun a => ?_, fun a => ?_, fun a b => ?_⟩
  · rw [FcgiContext.req_setConn, FcgiContext.req_setReq]
    split
    · exact hok
    · exact h.request a
  · rw [FcgiContext.req_setConn, FcgiContext.req_setReq]
    split
    · exact fun _ => ⟨i, by rw [FcgiContext.conn_setConn_self (by exact hi)]; exact hs⟩
    · intro hne
      obtain ⟨j, hj⟩ := h.serves a hne
      refine ⟨j, ?_⟩
      rw [FcgiContext.conn_setConn_of_ne]
      · exact hj
      · rintro rfl
        exact absurd hj.2.2 (not_or.mpr hidle)
  · rw [FcgiContext.req_setConn, FcgiContext.req_setConn, FcgiContext.req_setReq, FcgiContext.req_setReq]
    split
    · next ha =>
        split
        · next hb => exact fun _ _ => ha.1.trans hb.1.symm
        · intro heq hne
          exact absurd (heq.symm.trans hq) (hnone b (heq ▸ hne))
    · split
      · intro heq hne
        exact absurd (heq.trans hq) (hnone a hne)
      · exact h.unique a b

/-- A connection that a request does not refer to any more. -/
theorem setConn_unreferred (h : LinkOk ctx) {i : Nat} {f : FcgiFd}
    (hnone : ∀ r, (ctx.req r).fcgiFd ≠ -1 → (ctx.req r).fcgiFd ≠ (ctx.conn i).fd) : LinkOk (ctx.setConn i f) :=
  h.setConn fun r hne hs => absurd hs.1.symm (hnone r hne)

theorem moved {clients : List Int} {new free : Int → Prop} {takes : Nat → Nat → Prop} {es : List Effect} (h : LinkOk ctx)
    (hfds : FdsOk clients ctx) (hm : Moved new free takes ctx es ctx') : LinkOk ctx' := by
  cases hm with
  | say => exact h
  | search hrs => exact h.of_same (fun _ => rfl) (FcgiContext.req_withRl hrs)
  | @assign r socket clockId client q hr hav hnew hsocket hq =>
      have hfcgi : (ctx.req r).fcgiFd = -1 := (h.request r).idle (.inl hav)
      obtain rfl := requestAssign_eq_some hq
      exact h.setReq ⟨fun hbusy => by simp [Busy] at hbusy, fun _ => hfcgi⟩ (.inl hfcgi)
  | output r iov headersSent => exact h.setReq ⟨(h.request r).busy, (h.request r).idle⟩ (.inr ⟨rfl, rfl⟩)
  | @sleep r hstate hsocket => exact h.setReq ⟨(h.request r).busy, (h.request r).idle⟩ (.inr ⟨rfl, rfl⟩)
  | fail r =>
      rw [failRequest_eq]
      exact h.setReq ⟨fun hbusy => by simp [Busy] at hbusy, fun hidle => by simp at hidle⟩ (.inr ⟨rfl, rfl⟩)
  | recycle r => exact h.setReq ⟨fun hbusy => by simp [Busy, requestRecycle, requestReset] at hbusy, fun _ => rfl⟩ (.inl rfl)
  | connect hi hav hfree hfresh => exact h.setConn_idle (by simp [hav])
  | unconnected hav => exact h.setConn_idle (by simp [hav])
  | wake hf => exact h.setConn_idle (by simp [hf])
  | doze hf => exact h.setConn_idle (by simp [hf])
  | @take i r remain htakes hi hr hf hq hclock =>
      have hfd : (ctx.conn i).fd ≠ -1 := fun heq => by simp [(hfds.available i).mpr heq] at hf
      refine h.take hi (by simp [hf]) (fun j hj => hfds.distinct j i hj (hj ▸ hfd)) rfl
        ⟨rfl, hclock.symm, .inl rfl⟩ ⟨fun _ => hfd, fun hidle => by simp at hidle⟩
  | @progress i r remain begin? state iov hf hbegin hstate =>
      have hconn : LinkOk (ctx.setConn i
          { ctx.conn i with state := state, beginReqRemain := remain, beginReq := begin? }) :=
        h.setConn fun _ _ hs => ⟨hs.1, hs.2.1, hstate.imp (·.1) (·.1)⟩
      exact hconn.setReq ⟨(h.request r).busy, (h.request r).idle⟩ (.inr ⟨rfl, rfl⟩)

/-- A package that ends only the request of its connection. -/
theorem recvPkg (h : LinkOk ctx) {i : Nat} {pkg : FcgiHeader × Bytes} (hguard : LinkGuard ctx (.package i pkg))
    (before : List Effect) :
    LinkOk (recvPkg i (ctx, before) pkg).2.1 := by
  obtain ⟨rl, hrs, heq | ⟨r, ok, f, q, es, hget, hr, hh, heq⟩⟩ := recvPkg_handled i ctx before pkg
  · rw [heq]
    exact h.of_same (fun _ => rfl) (FcgiContext.req_withRl hrs)
  rw [heq]
  have hsearch : LinkOk (ctx.withRl rl) := h.of_same (fun _ => rfl) (FcgiContext.req_withRl hrs)
  have hreq : (ctx.withRl rl).req r = ctx.req r := FcgiContext.req_withRl hrs r
  have hlt : r < (ctx.withRl rl).rl.rs.length := by
    show r < rl.rs.length
    rwa [hrs]
  -- the connection stays as it is
  have hkeep : ∀ q', RequestOk q' →
      (q'.fcgiFd = -1 ∨ q'.fcgiFd = (ctx.req r).fcgiFd ∧ q'.clockId = (ctx.req r).clockId) →
      LinkOk (((ctx.withRl rl).setConn i (ctx.conn i)).setReq r q') := by
    intro q' hok hq'
    have hsame : LinkOk ((ctx.withRl rl).setConn i (ctx.conn i)) := hsearch.setConn fun _ _ hs => hs
    refine hsame.setReq hok ?_
    rwa [FcgiContext.req_setConn, hreq]
  -- the request gives its connection up, and then that is ready
  have hready : ∀ q', RequestOk q' → q'.fcgiFd = -1 → pkg.1.type = fcgiEndRequest →
      fdCanFollow .ready (ctx.conn i).state = true →
      LinkOk (((ctx.withRl rl).setConn i { ctx.conn i with state := .ready }).setReq r q') := by
    intro q' hok hfcgi hend hf
    have hoff : LinkOk ((ctx.withRl rl).setReq r q') := hsearch.setReq hok (.inl hfcgi)
    refine hoff.setConn fun a hne hs => ?_
    have har : a ≠ r := by
      rintro rfl
      rw [FcgiContext.req_setReq_self hlt] at hne
      exact hne hfcgi
    rw [FcgiContext.req_setReq_of_ne har, FcgiContext.req_withRl hrs] at hs
    obtain ⟨hfd, -, hsending | hreceiving⟩ := hs
    · rw [FcgiContext.conn_setReq, FcgiContext.conn_withRl] at hsending
      simp [hsending, fdCanFollow] at hf
    · rw [FcgiContext.req_setReq_of_ne har, FcgiContext.req_withRl hrs] at hne
      exact absurd (hguard hend hreceiving r hget a (req_lt_of_fcgiFd hne) hfd.symm) har
  have hold := h.request r
  have hfailed : ∀ fcgiFd, RequestOk { ctx.req r with state := .failed, sleeping := false, fcgiFd := fcgiFd } :=
    fun _ => ⟨fun hbusy => by simp [Busy] at hbusy, fun hidle => by simp at hidle⟩
  cases hh with
  | ignored => exact hkeep _ hold (.inr ⟨rfl, rfl⟩)
  | queued hstate iov => exact hkeep _ ⟨hold.busy, hold.idle⟩ (.inr ⟨rfl, rfl⟩)
  | streamClosed hstate =>
      exact hkeep _ ⟨fun _ => hold.busy (.inl hstate), fun hidle => by simp at hidle⟩ (.inr ⟨rfl, rfl⟩)
  | failed =>
      rw [failRequest_eq]
      exact hkeep _ (hfailed _) (.inr ⟨rfl, rfl⟩)
  | refused hend hf =>
      rw [failRequest_eq]
      exact hkeep _ (hfailed (-1)) (.inl rfl)
  | gone hend hf hfd =>
      exact hready _ ⟨fun hbusy => by simp [Busy, requestRecycle, requestReset] at hbusy, fun _ => rfl⟩ rfl hend hf
  | kept hend hf hstate =>
      exact hready _ ⟨fun hbusy => by simp [Busy, hstate] at hbusy, fun _ => rfl⟩ rfl hend hf
  | ended hend hf =>
      rw [wakeRequest_eq]
      exact hready _ ⟨fun hbusy => by simp [Busy] at hbusy, fun _ => rfl⟩ rfl hend hf
  | stray hend hf =>
      rw [failRequest_eq]
      exact hready _ (hfailed (-1)) rfl hend hf

/-- **The handlers keep the links**, where the moments meet the guard. -/
theorem keeps (clients : List Int) (new : Int → Prop) (takes : Nat → Nat → Prop) :
    Keeps clients new takes LinkGuard fun ctx _ => LinkOk ctx where
  moved _ _ _ _ hfds h hm := h.moved hfds hm
  package _ _ before _ _ h _ hguard := h.recvPkg hguard before
  giveUp _ _ _ _ _ h hguard _ := h.setConn_unreferred fun r hne => hguard r (req_lt_of_fcgiFd hne)
  close _ _ _ _ h _ hguard := h.setConn_unreferred fun r hne => hguard r (req_lt_of_fcgiFd hne)
  drop r ctx _ _ h _ _ := by
    unfold dropClient
    split
    · exact h.setReq ⟨fun hbusy => by simp [Busy, requestRecycle, requestReset] at hbusy, fun _ => rfl⟩ (.inl rfl)
    · exact h.setReq ⟨fun hbusy => by simp [Busy] at hbusy, fun hidle => by simp at hidle⟩ (.inr ⟨rfl, rfl⟩)
  finish _ _ _ _ _ h _ _ := h
  buffer _ _ _ _ _ h := h.setConn fun _ _ hs => hs

theorem initial {config : FcgiConfig} {w : World} (h : w.Initial config) : LinkOk w.ctx := by
  have hreq : ∀ r, (w.ctx.req r).fcgiFd = -1 := fun r => by rw [h.req r]
  refine ⟨fun r => ⟨fun hbusy => ?_, fun _ => hreq r⟩, fun r hne => absurd (hreq r) hne,
    fun r r' _ hne => absurd (hreq r) hne⟩
  rw [h.req r] at hbusy
  simp [Busy] at hbusy

end LinkOk

/-- **Links.**  In every state a worker reaches in which, so far, connections were made
ready only by the end of the request they worked for and given up or closed only when
they worked for none, requests and connections fit together. -/
theorem linked_of_guarded {config : FcgiConfig} {w w' : World} {inputs : List Input} (hinit : w.Initial config)
    (hrun : Run (Guarded (World.Meets config LinkGuard) (World.Step config)) w inputs w') : Linked w'.ctx :=
  (World.run_rule LinkOk.keeps hinit (.initial hinit) hrun).2.linked

/-- A request is sent, answered and ended. -/
theorem linked_request_answered : ∃ w, Run (Guarded (World.Meets oneBackend LinkGuard) (World.Step oneBackend))
      oneWorker (requestSent ++ [.read 11 [.data backendAnswer, .again] none, .write 5 { sent := .wrote 1 } none]) w ∧
    Linked w.ctx := by
  obtain ⟨w, hrun, -⟩ := @World.exists_guarded_run oneBackend oneWorker
    (requestSent ++ [.read 11 [.data backendAnswer, .again] none, .write 5 { sent := .wrote 1 } none])
    (World.Meets oneBackend LinkGuard) _ (fun _ => true) (by decide +kernel)
  exact ⟨w, hrun, linked_of_guarded oneWorker_initial hrun⟩

/-- The backend hangs up before it answers: its request refers to it for ever. -/
theorem not_linked_after_hangup : ∃ w, Run (World.Step oneBackend) oneWorker
      (requestSent ++ [.hangup 11 none]) w ∧ ¬ Linked w.ctx := by
  obtain ⟨w, hrun, hw⟩ := @World.exists_run oneBackend oneWorker (requestSent ++ [.hangup 11 none])
    (fun w => (w.ctx.req 1).state = .sent ∧ (w.ctx.req 1).fcgiFd = 11 ∧ ∀ f ∈ w.ctx.fds, f.fd ≠ 11)
    (by decide +kernel)
  obtain ⟨-, hfcgi, hclosed⟩ := of_decide_eq_true hw
  refine ⟨w, hrun, fun hlinked => ?_⟩
  obtain ⟨i, hi⟩ := hlinked.closed 1 (by rw [hfcgi]; decide)
  rw [hfcgi] at hi
  exact hclosed _ (conn_mem (by decide) hi) hi

end Monkey.Fastcgi
