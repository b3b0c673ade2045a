import Monkey.Fastcgi.Inputs

/-!
# Monkey.Fastcgi.Recycle

A slot that is available is clean.

The output of a request is changed only while the slot is in use, or by a connection
that still sends for an earlier request and finds nothing to send.
-/

namespace Monkey.Fastcgi

/-- Nothing is left of an earlier request. -/
structure Recycled (q : Request) : Prop where
  fd : q.fd = -1
  fcgiFd : q.fcgiFd = -1
  sleeping : q.sleeping = false
  headersSent : q.headersSent = false
  empty : q.iov.index = 0

theorem Recycled.requestReset (q : Request) : Recycled (requestReset q) := ⟨rfl, rfl, rfl, rfl, rfl⟩

/-- A request in a clean slot starts with what it is given. -/
theorem Recycled.requestAssign {q q' : Request} {fd : Int} {clockId : UInt16} {client : ClientRequest}
    (h : Recycled q) (hassign : requestAssign q fd clockId client = some q') :
    q' = { state := .assigned, fd := fd, clockId := clockId, client := some client,
           iov := { size := q.iov.size } } := by
  obtain rfl := requestAssign_eq_some hassign
  obtain ⟨state, sleeping, headersSent, fd', fcgiFd, clockId', client', io, size⟩ := q
  obtain ⟨hfd, hfcgi, hsleeping, hheaders, hempty⟩ := h
  obtain rfl : io = [] := List.length_eq_zero_iff.mp hempty
  simp_all

/-- The slots in order. -/
def SlotsClean (ctx : FcgiContext) : Prop :=
  ∀ r, (ctx.req r).state = .available → Recycled (ctx.req r)

namespace SlotsClean

variable {ctx ctx' : FcgiContext}

theorem of_same (h : SlotsClean ctx) (hreq : ∀ r, ctx'.req r = ctx.req r) : SlotsClean ctx' := by
  intro r
  rw [hreq]
  exact h r

theorem setReq (h : SlotsClean ctx) {r : Nat} {q : Request} (hq : q.state = .available → Recycled q) :
    SlotsClean (ctx.setReq r q) := by
  intro r'
  rw [FcgiContext.req_setReq]
  split
  · exact hq
  · exact h r'

theorem moved {new free : Int → Prop} {takes : Nat → Nat → Prop} {es : List Effect} (h : SlotsClean ctx)
    (hm : Moved new free takes ctx es ctx') : SlotsClean ctx' := by
  cases hm with
  | say => exact h
  | search hrs => exact h.of_same (FcgiContext.req_withRl hrs)
  | assign hr hav hnew hsocket hq =>
      obtain rfl := requestAssign_eq_some hq
      exact h.setReq (by simp)
  | output r iov headersSent hbusy => exact h.setReq fun hav => absurd hav hbusy
  | sleep hstate => exact h.setReq (by simp [hstate])
  | fail r => exact h.setReq (by simp [failRequest_eq])
  | recycle r => exact h.setReq fun _ => .requestReset _
  | connect | unconnected | wake | doze => exact h
  | @take i r remain htakes hi hr hf hq hclock =>
      have hsent := @setReq ctx h r { ctx.req r with fcgiFd := (ctx.conn i).fd, state := .sent } (by simp)
      exact hsent
  | @progress i r remain begin? state iov hf hbegin hstate hempty =>
      -- the connection may send for a request that left the slot before
      refine @setReq (ctx.setConn i _) h r { ctx.req r with iov := iov } fun hav => ?_
      have hclean : Recycled (ctx.req r) := h r hav
      exact { hclean with empty := List.length_eq_zero_iff.mpr (hempty (List.length_eq_zero_iff.mp hclean.empty)) }

/-- No package leaves an available slot dirty, whichever slot it names. -/
theorem recvPkg (h : SlotsClean ctx) (i : Nat) (before : List Effect) (pkg : FcgiHeader × Bytes) :
    SlotsClean (recvPkg i (ctx, before) pkg).2.1 := by
  obtain ⟨rl, hrs, heq | ⟨r, ok, f, q, es, -, -, hh, heq⟩⟩ := recvPkg_handled i ctx before pkg
  · rw [heq]
    exact h.of_same (FcgiContext.req_withRl hrs)
  · rw [heq]
    have hsearch : SlotsClean ((ctx.withRl rl).setConn i f) := h.of_same (FcgiContext.req_withRl hrs)
    refine hsearch.setReq ?_
    cases hh with
    | ignored => exact h r
    | queued hstate | streamClosed hstate | kept _ _ hstate => simp [hstate]
    | failed | refused | stray => simp [failRequest_eq]
    | gone => exact fun _ => .requestReset _
    | ended => simp [wakeRequest_eq]

theorem keeps (clients : List Int) (new : Int → Prop) (takes : Nat → Nat → Prop) :
    Keeps clients new takes (fun _ _ => True) fun ctx _ => SlotsClean ctx where
  moved _ _ _ _ _ h hm := h.moved hm
  close _ _ _ _ h _ _ := h
  drop r ctx _ _ h _ _ := by
    refine h.setReq ?_
    unfold dropClient
    split
    · exact fun _ => .requestReset _
    · simp
  finish _ _ _ _ _ h _ _ := h
  package i _ before pkg _ h _ _ := h.recvPkg i before pkg
  giveUp _ _ _ _ _ h _ _ := h
  buffer _ _ _ _ _ h := h

end SlotsClean

/-- **Slots.**  In every state a worker reaches, whatever its clients and its backends do,
an available slot is clean, and a request assigned to it starts with nothing of an
earlier one. -/
theorem slots_clean {config : FcgiConfig} {w w' : World} {inputs : List Input} (hinit : w.Initial config)
    (hrun : Run (World.Step config) w inputs w') (r : Nat) (hav : (w'.ctx.req r).state = .available) :
    Recycled (w'.ctx.req r) ∧
      ∀ fd clockId client q, requestAssign (w'.ctx.req r) fd clockId client = some q →
        q = { state := .assigned, fd := fd, clockId := clockId, client := some client,
              iov := { size := (w'.ctx.req r).iov.size } } := by
  have hstart : SlotsClean w.ctx := by
    intro r _
    rw [hinit.req r]
    exact ⟨rfl, rfl, rfl, rfl, rfl⟩
  have hguarded : Run (Guarded (World.Meets config fun _ _ => True) (World.Step config)) w inputs w' :=
    hrun.mono fun _ _ _ hstep => ⟨fun _ _ => trivial, hstep⟩
  have hclean := (World.run_rule SlotsClean.keeps hinit hstart hguarded).2 r hav
  exact ⟨hclean, fun fd clockId client q hq => hclean.requestAssign hq⟩

/-- A request is sent, answered and ended: its slot is available again. -/
theorem slots_clean_request_answered : ∃ w, Run (World.Step oneBackend) oneWorker
      (requestSent ++ [.read 11 [.data backendAnswer, .again] none, .write 5 { sent := .wrote 1 } none]) w ∧
    (w.ctx.req 1).state = .available ∧ Recycled (w.ctx.req 1) := by
  obtain ⟨w, hrun, hw⟩ := @World.exists_run oneBackend oneWorker
    (requestSent ++ [.read 11 [.data backendAnswer, .again] none, .write 5 { sent := .wrote 1 } none])
    (fun w => (w.ctx.req 1).state = .available) (by decide +kernel)
  have hav := of_decide_eq_true hw
  exact ⟨w, hrun, hav, (slots_clean oneWorker_initial hrun 1 hav).1⟩

end Monkey.Fastcgi
