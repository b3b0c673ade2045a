import Monkey.Fastcgi.Inputs

/-!
# Monkey.Fastcgi.Reuse

The connections of a slot, one after the other.

The chunk and the request of a connection live in its slot, and the next connection
finds them there: of what a connection leaves only the socket and the state are reset.
A run keeps for every slot what happened on it since it was last opened.  Bytes that
were not read when a connection was closed are taken for the first ones of the next.
-/

namespace Monkey.Fastcgi

/-! ## what a connection should hand over -/

/-- A receiver: the unfinished bytes, and the packages so far. -/
structure Receiver where
  rest : Bytes := []
  pkgs : List (FcgiHeader × Bytes) := []
deriving DecidableEq, Repr

/-- The unfinished bytes an event goes on with: as in every chunk, some first reads lose
them. -/
def Receiver.kept (r : Receiver) (rs : List ReadResult) : Bytes :=
  if firstReadKeeps (some (pendingChunk r.rest)) rs.head? then r.rest else []

def Receiver.read (r : Receiver) (rs : List ReadResult) : Receiver :=
  { rest := unfinished (r.kept rs ++ readBytes rs)
    pkgs := r.pkgs ++ packages (r.kept rs ++ readBytes rs) }

/-- A receiver that starts with nothing. -/
def receive (events : List (List ReadResult)) : Receiver := events.foldl Receiver.read {}

theorem receive_append (events : List (List ReadResult)) (rs : List ReadResult) :
    receive (events ++ [rs]) = (receive events).read rs := by
  rw [receive, List.foldl_append]
  rfl

theorem receive_rest (events : List (List ReadResult)) : ¬ fcgiFormat.Complete (receive events).rest := by
  rcases List.eq_nil_or_concat events with rfl | ⟨events, rs, rfl⟩
  · exact RecordFormat.not_complete_nil
  · rw [List.concat_eq_append, receive_append]
    exact unfinished_not_complete _

/-! ## what happened on a slot -/

/-- What happened on a slot since its connection was opened: what was read, the packages
handed over, and the request taken last. -/
structure Opening where
  results : List (List ReadResult) := []
  log : List (FcgiHeader × Bytes) := []
  begun : Option Nat := none
deriving DecidableEq, Repr

/-- A read event on slot `i` recorded. -/
def Opening.read (h : Opening) (i : Nat) (ctx : FcgiContext) (rs : List ReadResult) : Opening :=
  { h with results := h.results ++ [rs], log := h.log ++ (handed i ctx rs).map (·.2) }

/-- A worker with what happened on its slots. -/
structure Tracked where
  world : World
  slots : Nat → Opening := fun _ => {}

/-- An event recorded for its slot. -/
def World.record (w : World) (slots : Nat → Opening) : Input → Nat → Opening
  | .read socket results _ =>
      match fcgiFdListGetByFd w.ctx.fds socket with
      | some i => Function.update slots i ((slots i).read i w.ctx results)
      | none => slots
  | .write socket _ _ =>
      match fcgiFdListGetByFd w.ctx.fds socket with
      | some i =>
          if (w.ctx.conn i).state = .ready then
            Function.update slots i
              { slots i with
                begun := (requestListNextAssigned w.ctx.rl (UInt16.ofNat (w.ctx.conn i).locationId)).2 }
          else slots
      | none => slots
  | _ => slots

/-- The slot is opened. -/
def opens (es : List Effect) (i : Nat) : Bool :=
  es.any fun e => match e with | .eventAdd slot _ => slot == i | _ => false

/-- Slots that were opened start anew. -/
def reopened (es : List Effect) (slots : Nat → Opening) (i : Nat) : Opening :=
  if opens es i then {} else slots i

def Tracked.input (config : FcgiConfig) (t : Tracked) (input : Input) : Option Tracked :=
  (t.world.input config input).map fun s =>
    { world := s.1, slots := reopened s.2 (t.world.record t.slots input) }

def Tracked.Step (config : FcgiConfig) (t : Tracked) (input : Input) (t' : Tracked) : Prop :=
  Possible t.world input ∧ t.input config input = some t'

/-- A connection is closed only when all its bytes were read. -/
def CloseGuard (ctx : FcgiContext) : Moment → Prop
  | .close i => unread (ctx.conn i).chunk = []
  | _ => True

instance (ctx : FcgiContext) : (m : Moment) → Decidable (CloseGuard ctx m)
  | .close i => inferInstanceAs (Decidable (unread (ctx.conn i).chunk = []))
  | .package _ _ | .giveUp _ | .drop _ => inferInstanceAs (Decidable True)

def Tracked.Guard (config : FcgiConfig) (t : Tracked) (input : Input) : Prop :=
  World.Meets config CloseGuard t.world input

instance Tracked.decidableGuard (config : FcgiConfig) (t : Tracked) (input : Input) : Decidable (t.Guard config input) :=
  inferInstanceAs (Decidable (World.Meets config CloseGuard t.world input))

/-! ## the invariant -/

/-- A slot and what happened on it: everything that was read was handed over, up to the
unfinished bytes; a slot that is not open has none. -/
structure SlotOk (f : FcgiFd) (h : Opening) : Prop where
  parsed : h.log <+: (receive h.results).pkgs
  opened : f.fd ≠ -1 → h.log = (receive h.results).pkgs ∧ Holds f.chunk (receive h.results).rest
  closed : f.fd = -1 → Holds f.chunk []
  begun : f.state = .sending → f.beginReq ≠ none ∧ f.beginReq = h.begun
  closing : f.state ≠ .closing

namespace SlotOk

variable {f f' : FcgiFd} {h : Opening}

/-- The state changes, but not to one with a request. -/
theorem of_state (hok : SlotOk f h) (hfd : f'.fd = f.fd) (hchunk : f'.chunk = f.chunk)
    (hstate : f'.state ≠ .sending ∧ f'.state ≠ .closing) : SlotOk f' h := by
  refine ⟨hok.parsed, ?_, ?_, fun hs => absurd hs hstate.1, hstate.2⟩
  · rw [hfd, hchunk]
    exact hok.opened
  · rw [hfd, hchunk]
    exact hok.closed

/-- A connection is closed with nothing unread. -/
theorem close (hok : SlotOk f h) (hopen : f.fd ≠ -1) (hunread : unread f.chunk = []) :
    SlotOk { f with fd := -1, state := .available } h :=
  ⟨hok.parsed, fun hne => absurd rfl hne, fun _ => ⟨hunread, (hok.opened hopen).2.ok, fun hne => absurd rfl hne⟩,
    fun hs => by simp at hs, by simp⟩

/-- A connection is opened. -/
theorem reopen (hok : SlotOk f h) (hclosed : f.fd = -1) {fd : Int} :
    SlotOk { f with fd := fd, state := .ready } {} :=
  ⟨List.nil_prefix, fun _ => ⟨rfl, hok.closed hclosed⟩, fun _ => hok.closed hclosed, fun hs => by simp at hs, by simp⟩

end SlotOk

/-! ## moves -/

theorem opens_append (es es' : List Effect) (i : Nat) : opens (es ++ es') i = (opens es i || opens es' i) :=
  List.any_append

theorem reopened_append (es es' : List Effect) (slots : Nat → Opening) (i : Nat) :
    reopened (es ++ es') slots i = reopened es' (reopened es slots) i := by
  simp only [reopened, opens_append]
  cases opens es i <;> cases opens es' i <;> rfl

theorem reopened_of_not_opens {es : List Effect} {i : Nat} (h : opens es i = false) (slots : Nat → Opening) :
    reopened es slots i = slots i := by
  rw [reopened, h]
  rfl

theorem opens_wakeRequest (q : Request) (i : Nat) : opens (wakeRequest q).2 i = false := by
  unfold wakeRequest
  split <;> rfl

section moved

variable {clients : List Int} {new free : Int → Prop} {takes : Nat → Nat → Prop} {ctx ctx' : FcgiContext}
  {es : List Effect} {slots : Nat → Opening}

/-- Only a new connection opens a slot. -/
theorem Moved.opens (hm : Moved new free takes ctx es ctx') (hfree : ∀ fd, ¬ free fd) (k : Nat) :
    opens es k = false := by
  cases hm with
  | @say e he => cases e <;> first | rfl | contradiction
  | fail r => exact opens_wakeRequest _ k
  | connect hi hav hfd hfresh => exact absurd hfd (hfree _)
  | _ => rfl

/-- One slot changes. -/
theorem slotOk_setConn (h : ∀ k, SlotOk (ctx.conn k) (slots k)) {i : Nat} {f : FcgiFd} (hf : SlotOk f (slots i))
    (k : Nat) : SlotOk ((ctx.setConn i f).conn k) (slots k) := by
  rw [FcgiContext.conn_setConn]
  split
  · next hk => exact hk.1 ▸ hf
  · exact h k

/-- **Moves** keep the slots; a connection that takes a request is recorded with it. -/
theorem slotOk_moved (h : ∀ k, SlotOk (ctx.conn k) (slots k)) (hfds : FdsOk clients ctx)
    (hm : Moved new free takes ctx es ctx') (htakes : ∀ i r, takes i r → (slots i).begun = some r) (k : Nat) :
    SlotOk (ctx'.conn k) (reopened es slots k) := by
  cases hm with
  | @say e he =>
      rw [reopened_of_not_opens]
      · exact h k
      · cases e <;> first | rfl | contradiction
  | fail r =>
      have hno : opens (failRequest (ctx.req r)).2 k = false := opens_wakeRequest _ k
      rw [reopened_of_not_opens hno]
      exact h k
  | @connect i fd hi hav hfd hfresh =>
      have hreset : ∀ k ≠ i, reopened [.eventAdd i fd] slots k = slots k := fun k hne =>
        reopened_of_not_opens (by simpa [opens] using hne.symm) slots
      by_cases hk : k = i
      · rw [hk, FcgiContext.conn_setConn_self hi, reopened, if_pos (by simp [opens])]
        exact (h i).reopen ((hfds.available i).mp hav)
      · rw [FcgiContext.conn_setConn_of_ne hk, hreset k hk]
        exact h k
  | @unconnected i hav =>
      have hclosed : { ctx.conn i with fd := -1 } = ctx.conn i := by rw [← (hfds.available i).mp hav]
      rw [hclosed]
      exact slotOk_setConn h (h i) k
  | @wake i hf =>
      exact slotOk_setConn (f := { ctx.conn i with state := .ready }) h ((h i).of_state rfl rfl (by simp)) k
  | @doze i hf =>
      exact slotOk_setConn (f := { ctx.conn i with state := .sleeping }) h ((h i).of_state rfl rfl (by simp)) k
  | @take i r remain htake hi hr hf hq hclock =>
      have hf' : SlotOk
          { ctx.conn i with state := .sending, beginReqRemain := remain, beginReq := some r } (slots i) :=
        ⟨(h i).parsed, (h i).opened, (h i).closed,
          fun _ => ⟨Option.some_ne_none r, (htakes i r htake).symm⟩, by simp⟩
      exact slotOk_setConn h hf' k
  | @progress i r remain begin? state iov hf hbegin hstate =>
      have hf' : SlotOk
          { ctx.conn i with state := state, beginReqRemain := remain, beginReq := begin? } (slots i) := by
        refine ⟨(h i).parsed, (h i).opened, (h i).closed, fun hs => ?_, ?_⟩
        · obtain ⟨-, rfl⟩ | ⟨rfl, -⟩ := hstate
          · rw [← hbegin]
            exact (h i).begun hf
          · contradiction
        · obtain ⟨rfl, -⟩ | ⟨rfl, -⟩ := hstate <;> simp
      exact slotOk_setConn h hf' k
  | _ => exact h k

/-- **The handlers keep the slots**, where connections are closed with nothing unread. -/
theorem slotOk_keeps (htakes : ∀ i r, ¬ takes i r) (slots : Nat → Opening) :
    KeepsMoves clients new takes CloseGuard fun ctx es => ∀ k, SlotOk (ctx.conn k) (reopened es slots k) where
  moved ctx before es ctx' hfds h hm k := by
    rw [reopened_append]
    exact slotOk_moved h hfds hm (fun i r ht => absurd ht (htakes i r)) k
  close i ctx before hfds h hi hguard k := by
    rw [reopened_append, reopened_of_not_opens (by rfl)]
    exact slotOk_setConn h ((h i).close hi hguard) k
  drop _ _ _ _ h _ _ := h
  finish _ _ _ _ _ h _ _ k := by
    rw [reopened_append, reopened_of_not_opens (by rfl)]
    exact h k

end moved

/-! ## read events -/

theorem handed_pkgs (i : Nat) (ctx : FcgiContext) (rs : List ReadResult) :
    (handed i ctx rs).map (·.2) = (readTrace i ctx rs).filterMap (·.2) := by
  rw [handed, List.map_filterMap]
  congr
  funext e
  cases e.2 <;> rfl

/-- What handling packages adds to the trace. -/
theorem handleAll_traced (i : Nat) (st : FcgiContext × List Effect)
    (trace : List (FcgiContext × Option (FcgiHeader × Bytes))) (pkgs : List (FcgiHeader × Bytes)) :
    ∃ new, (handleAll (traced i) (st, trace) pkgs).2.2 = trace ++ new ∧ new.filterMap (·.2) <+: pkgs ∧
      ((handleAll (traced i) (st, trace) pkgs).1 = true → new.filterMap (·.2) = pkgs) := by
  induction pkgs generalizing st trace with
  | nil => exact ⟨[], by simp [handleAll], List.prefix_rfl, fun _ => rfl⟩
  | cons pkg pkgs ih =>
      simp only [handleAll, traced]
      cases recvPkg i st pkg with
      | mk ok st' =>
          cases ok with
          | false => exact ⟨[(st.1, some pkg)], rfl, by simp, by simp⟩
          | true =>
              obtain ⟨new, htrace, hprefix, hall⟩ := ih st' (trace ++ [(st.1, some pkg)])
              refine ⟨(st.1, some pkg) :: new, ?_, ?_, fun h => ?_⟩
              · simpa using htrace
              · simpa using hprefix
              · simpa using hall h

theorem tracedClosing_eq_some {i : Nat}
    {st st' : (FcgiContext × List Effect) × List (FcgiContext × Option (FcgiHeader × Bytes))}
    (h : tracedClosing i st = some st') :
    st'.2.filterMap (·.2) = st.2.filterMap (·.2) ∧
      ∃ f : FcgiFd, f.state = .closing ∧ st'.1.1 = st.1.1.setConn i f := by
  obtain ⟨st'', hst, rfl⟩ := Option.map_eq_some_iff.mp h
  obtain ⟨f, hf, rfl⟩ := Option.map_eq_some_iff.mp hst
  refine ⟨by simp, f, ?_, rfl⟩
  rw [(fcgiFdSetState_eq_some hf).2]

/-- **A read event** hands over the packages of what was read, up to one that is refused;
unless it closes the connection, all of them. -/
theorem SlotOk.read {ctx : FcgiContext} {socket : Int} {i : Nat} {rs : List ReadResult} {hr : HookRet} {h : Opening}
    (hok : SlotOk (ctx.conn i) h) (hget : fcgiFdListGetByFd ctx.fds socket = some i)
    (hopen : (ctx.conn i).fd ≠ -1) (hopen' : (hr.ctx.conn i).fd ≠ -1) (hread : eventRead ctx socket rs = some hr) :
    (h.read i ctx rs).log <+: (receive (h.read i ctx rs).results).pkgs ∧ ChunkOk (hr.ctx.conn i).chunk ∧
      (hr.ret ≠ .close → (h.read i ctx rs).log = (receive (h.read i ctx rs).results).pkgs ∧
        Holds (hr.ctx.conn i).chunk (receive (h.read i ctx rs).results).rest ∧
        (hr.ctx.conn i).state ≠ .closing) := by
  obtain ⟨r, hr', htrace, -, hctx, hret⟩ := eventRead_traced hget hread
  obtain ⟨hlog, hholds⟩ := hok.opened hopen
  have hlt : i < r.st.1.1.fds.length := by
    have hlt := lt_of_conn_fd hopen'
    rw [hctx] at hlt
    simpa using hlt
  have hchunk : (hr.ctx.conn i).chunk = r.chunk := by
    rw [hctx, FcgiContext.conn_setConn_self hlt]
  -- the unfinished bytes the event goes on with
  have hkept : (if firstReadKeeps (ctx.conn i).chunk rs.head? then unread (ctx.conn i).chunk else []) =
      (receive h.results).kept rs := by
    rw [hholds.unread, Receiver.kept]
    by_cases hnil : (receive h.results).rest = []
    · rw [hnil, ite_self, ite_self]
    · rw [hholds.pending hnil]
  have hrest : ¬ fcgiFormat.Complete (unread (ctx.conn i).chunk) := by
    rw [hholds.unread]
    exact receive_rest _
  have hspec := fcgiRecvResponse_spec hholds.ok hrest hr'
  rw [hkept] at hspec
  have hreceive : receive (h.read i ctx rs).results = (receive h.results).read rs := receive_append _ _
  obtain ⟨new, hnew, hprefix, hall⟩ := handleAll_traced i (ctx, []) []
    (packages ((receive h.results).kept rs ++ readBytes rs))
  have hhanded : (h.read i ctx rs).log = (receive h.results).pkgs ++ new.filterMap (·.2) := by
    have hst : r.st.2.filterMap (·.2) = new.filterMap (·.2) := by
      obtain hst | hst := hspec.state
      · rw [hst, hnew]
        rfl
      · rw [(tracedClosing_eq_some hst).1, hnew]
        rfl
    rw [Opening.read, handed_pkgs, htrace, hst, hlog]
  rw [hhanded, hreceive]
  refine ⟨?_, ?_, fun hnot => ?_⟩
  · exact (List.prefix_append_right_inj _).mpr hprefix
  · rw [hchunk]
    exact hspec.chunk
  · rw [hret] at hnot
    have hgood : r.ok = true ∧ (hr.ctx.conn i).state ≠ .closing := by
      by_contra hbad
      exact hnot (if_neg hbad)
    have hlast : rs.getLast? = some .again := by
      refine (hspec.last hgood.1).resolve_right fun hclosing => hgood.2 ?_
      obtain ⟨-, f, hf, heq⟩ := tracedClosing_eq_some hclosing
      rw [hctx, FcgiContext.conn_setConn_self hlt]
      show (r.st.1.1.conn i).state = .closing
      rw [heq] at hlt ⊢
      rw [FcgiContext.conn_setConn_self (by simpa using hlt)]
      exact hf
    refine ⟨?_, ?_, hgood.2⟩
    · rw [hall (hspec.ok hgood.1)]
      rfl
    · rw [hchunk]
      exact (hspec.again hgood.1 hlast).2

/-- What a read event leaves alone: the other connections, the sockets, and a request
that is being sent. -/
structure ReadFrame (clients : List Int) (i : Nat) (ctx ctx' : FcgiContext) (es : List Effect) : Prop where
  fds : FdsOk clients ctx'
  sockets : ∀ j, (ctx'.conn j).fd = (ctx.conn j).fd
  others : ∀ j ≠ i, ctx'.conn j = ctx.conn j
  sending : (ctx'.conn i).state = .sending →
    (ctx.conn i).state = .sending ∧ (ctx'.conn i).beginReq = (ctx.conn i).beginReq
  opens : ∀ k, opens es k = false

theorem eventRead_readFrame {clients : List Int} {ctx : FcgiContext} {socket : Int} {i : Nat} {rs : List ReadResult}
    {hr : HookRet} (hfds : FdsOk clients ctx) (hget : fcgiFdListGetByFd ctx.fds socket = some i)
    (hopen : (ctx.conn i).fd ≠ -1) (hread : eventRead ctx socket rs = some hr) :
    ReadFrame clients i ctx hr.ctx hr.effects := by
  have hstart : ReadFrame clients i ctx ctx [] :=
    ⟨hfds, fun _ => rfl, fun _ _ => rfl, fun hs => ⟨hs, rfl⟩, fun _ => rfl⟩
  -- the connection changes and keeps its socket
  have hset : ∀ {ctx' : FcgiContext} {es : List Effect} {f : FcgiFd}, ReadFrame clients i ctx ctx' es →
      FdsOk clients (ctx'.setConn i f) → f.fd = (ctx'.conn i).fd →
      (f.state = .sending → (ctx'.conn i).state = .sending ∧ f.beginReq = (ctx'.conn i).beginReq) →
      ReadFrame clients i ctx (ctx'.setConn i f) es := by
    intro ctx' es f h hfds' hfd hf
    refine ⟨hfds', fun j => ?_, fun j hj => ?_, fun hs => ?_, h.opens⟩
    · exact (FcgiContext.conn_setConn_fd hfd j).trans (h.sockets j)
    · rw [FcgiContext.conn_setConn_of_ne hj]
      exact h.others j hj
    · rw [FcgiContext.conn_setConn] at hs ⊢
      split at hs
      · next hi =>
          obtain ⟨hold, hbegin⟩ := hf hs
          rw [if_pos hi, hbegin]
          exact h.sending hold
      · next hi =>
          rw [if_neg hi]
          exact h.sending hs
  refine @eventRead_induction (ReadFrame clients i ctx) i (fun _ _ => True) ?_ ?_ ?_ ctx socket rs hr hget hread
    (fun _ _ => trivial) hstart
  · intro ctx' es f h _ hf
    have hclosing := h.fds.setClosing hf
    obtain ⟨-, rfl⟩ := fcgiFdSetState_eq_some hf
    exact hset h hclosing rfl fun hs => by simp at hs
  · intro ctx' es chunk h
    exact hset h (h.fds.setConn rfl Iff.rfl) rfl fun hs => ⟨hs, rfl⟩
  · intro ctx' es pkg h _
    have hopen' : (ctx'.conn i).fd ≠ -1 := by rwa [h.sockets i]
    have hfds' := h.fds.recvPkg hopen' es pkg
    obtain ⟨rl, hrs, heq | ⟨r, ok, f, q, new, -, -, hh, heq⟩⟩ := recvPkg_handled i ctx' es pkg
    · rw [heq] at hfds' ⊢
      exact ⟨hfds', h.sockets, h.others, h.sending, h.opens⟩
    · rw [heq] at hfds' ⊢
      have hsame : ctx'.rl.rs = ctx'.rl.rs := rfl
      have hconn := hset h (h.fds.handled hopen' hsame hh) (by cases hh <;> rfl)
        (by cases hh <;> first | exact fun hs => ⟨hs, rfl⟩ | exact fun hs => by simp at hs)
      refine ⟨hfds', hconn.sockets, hconn.others, hconn.sending, fun k => ?_⟩
      rw [opens_append, h.opens, Bool.false_or]
      cases hh <;> first | rfl | exact opens_wakeRequest _ k

/-! ## inputs -/

section input

variable {config : FcgiConfig} {w w' : World} {slots : Nat → Opening} {effects : List Effect}

/-- A read event. -/
theorem SlotOk.input_read {socket : Int} {rs : List ReadResult} {connect : Option Int}
    (hw : WorldOk w) (hok : ∀ k, SlotOk (w.ctx.conn k) (slots k)) (hposs : Possible w (.read socket rs connect))
    (hguard : World.Meets config CloseGuard w (.read socket rs connect))
    (h : w.input config (.read socket rs connect) = some (w', effects)) (k : Nat) :
    SlotOk (w'.ctx.conn k) (reopened effects (w.record slots (.read socket rs connect)) k) := by
  obtain ⟨hbackend, hre⟩ := hposs
  obtain ⟨hr, hread, heq⟩ := Option.map_eq_some_iff.mp h
  cases heq
  obtain ⟨i, hget, hfd⟩ := get_of_backend hbackend
  have hopen : (w.ctx.conn i).fd ≠ -1 := hfd ▸ hbackend.1
  have hframe := eventRead_readFrame hw.fds hget hopen hread
  have hopen' : (hr.ctx.conn i).fd ≠ -1 := by rwa [hframe.sockets i]
  obtain ⟨hparsed, hchunk, hall⟩ := (hok i).read hget hopen hopen' hread
  have hrecord : w.record slots (.read socket rs connect) =
      Function.update slots i ((slots i).read i w.ctx rs) := by
    simp only [World.record, hget]
  rw [hrecord]
  have hsending : (hr.ctx.conn i).state = .sending →
      (hr.ctx.conn i).beginReq ≠ none ∧ (hr.ctx.conn i).beginReq = ((slots i).read i w.ctx rs).begun := by
    intro hs
    obtain ⟨hold, hbegin⟩ := hframe.sending hs
    rw [hbegin]
    exact (hok i).begun hold
  by_cases hclose : hr.ret = .close
  · -- the connection is closed, and another one may be opened in its place
    have hnone : -1 ∉ w.clients := fun hmem => hw.clients _ hmem rfl
    obtain ⟨i', es, hget', hfd', hmoves, heff⟩ | ⟨hget', -⟩ :=
      @hangup_cases config (fun _ => False) (Free w.clients) (fun _ _ => False) hr.ctx socket connect hbackend.1
        fun j hj => unused_of_reconnect hw hre hframe.sockets hj
    swap
    · exact absurd ((hframe.sockets i).trans hfd) (conn_fd_ne_of_none hbackend.1 hget' i)
    obtain rfl : i' = i :=
      hframe.fds.distinct i' i (by rw [hfd', hframe.sockets, hfd]) (hfd' ▸ hbackend.1)
    have hunread : unread (hr.ctx.conn i').chunk = [] :=
      hguard (hr.ctx, .close i') (by simp [World.moments, hget, hookMoments, closeMoments, hread, hclose, hget'])
    have hstart : ∀ k, SlotOk ((closeConn hr.ctx i').conn k)
        (reopened (hr.effects ++ [.eventDel i' socket]) (Function.update slots i' ((slots i').read i' w.ctx rs)) k) := by
      intro k
      rw [reopened_of_not_opens (by rw [opens_append, hframe.opens]; rfl)]
      by_cases hk : k = i'
      · rw [hk, closeConn, FcgiContext.conn_setConn_self (lt_of_conn_fd hopen'), Function.update_self]
        exact ⟨hparsed, fun hne => absurd rfl hne, fun _ => ⟨hunread, hchunk, fun hne => absurd rfl hne⟩,
          fun hs => by simp at hs, by simp⟩
      · rw [closeConn, FcgiContext.conn_setConn_of_ne hk, hframe.others k hk, Function.update_of_ne hk]
        exact hok k
    have hdone := ((slotOk_keeps (fun _ _ => id) _).moves (hframe.fds.closeConn hnone i') hstart hmoves).2
    rw [List.append_assoc, List.singleton_append, ← heff] at hdone
    show SlotOk ((closeAfter config hr socket connect).ctx.conn k)
      (reopened (closeAfter config hr socket connect).effects _ k)
    rw [closeAfter, hclose]
    exact hdone k
  · obtain ⟨hlog, hholds, hclosing⟩ := hall hclose
    show SlotOk ((closeAfter config hr socket connect).ctx.conn k)
      (reopened (closeAfter config hr socket connect).effects _ k)
    rw [closeAfter_of_ne hclose, reopened_of_not_opens (hframe.opens k)]
    by_cases hk : k = i
    · rw [hk, Function.update_self]
      exact ⟨hparsed, fun _ => ⟨hlog, hholds⟩, fun hnil => absurd hnil hopen', hsending, hclosing⟩
    · rw [hframe.others k hk, Function.update_of_ne hk]
      exact hok k

/-- A write event recorded: the connection has the request it takes. -/
theorem SlotOk.record_write {socket : Int} {io : WriteIo} {connect : Option Int} {i : Nat}
    (hok : ∀ k, SlotOk (w.ctx.conn k) (slots k)) (hget : fcgiFdListGetByFd w.ctx.fds socket = some i) :
    (∀ k, SlotOk (w.ctx.conn k) (w.record slots (.write socket io connect) k)) ∧
      ∀ j r, Takes w.ctx socket j r → (w.record slots (.write socket io connect) j).begun = some r := by
  simp only [World.record, hget]
  split
  · next hready =>
      refine ⟨fun k => ?_, ?_⟩
      · by_cases hk : k = i
        · rw [hk, Function.update_self]
          exact ⟨(hok i).parsed, (hok i).opened, (hok i).closed, fun hs => by simp [hready] at hs, (hok i).closing⟩
        · rw [Function.update_of_ne hk]
          exact hok k
      · rintro j r ⟨hj, -, hr⟩
        obtain rfl : i = j := Option.some.inj (hget.symm.trans hj)
        rw [Function.update_self]
        exact hr
  · next hready =>
      refine ⟨hok, ?_⟩
      rintro j r ⟨hj, hready', -⟩
      obtain rfl : i = j := Option.some.inj (hget.symm.trans hj)
      exact absurd hready' hready

/-- A write event on a connection. -/
theorem SlotOk.input_write {socket : Int} {io : WriteIo} {connect : Option Int} {i : Nat}
    (hw : WorldOk w) (hok : ∀ k, SlotOk (w.ctx.conn k) (slots k)) (hposs : Possible w (.write socket io connect))
    (hguard : World.Meets config CloseGuard w (.write socket io connect))
    (hget : fcgiFdListGetByFd w.ctx.fds socket = some i)
    (h : w.input config (.write socket io connect) = some (w', effects)) (k : Nat) :
    SlotOk (w'.ctx.conn k) (reopened effects (w.record slots (.write socket io connect)) k) := by
  obtain ⟨hsocket, hre⟩ := hposs
  obtain ⟨hr, hwrite, heq⟩ := Option.map_eq_some_iff.mp h
  cases heq
  have hne : socket ≠ -1 := hsocket.elim (hw.clients _) (·.1)
  have hnone : -1 ∉ w.clients := fun hmem => hw.clients _ hmem rfl
  obtain ⟨hrecorded, htakes⟩ := @SlotOk.record_write w slots socket io connect i hok hget
  generalize w.record slots (.write socket io connect) = slots' at hrecorded htakes ⊢
  obtain ⟨i', -, hfd, hmoves⟩ | ⟨hget', -⟩ := eventWrite_cases hne hwrite
  swap
  · rw [hget] at hget'
    contradiction
  have hsame := (hmoves (fun _ => False) fun _ => False).conn_fd hw.fds
  -- no connection is opened before the close
  obtain ⟨hfds, hslots, hopens⟩ := @Moves.invariant (fun _ => False) (fun _ => False) (Takes w.ctx socket)
    (fun ctx es => FdsOk w.clients ctx ∧ (∀ k, SlotOk (ctx.conn k) (slots' k)) ∧ ∀ k, opens es k = false)
    (by
      rintro ctx before es ctx' ⟨hfds, hslots, hopens⟩ hm
      have hno := hm.opens fun _ => id
      refine ⟨hfds.moved (fun _ => False.elim) hm, fun k => ?_, fun k => ?_⟩
      · have hk := slotOk_moved hslots hfds hm htakes k
        rwa [reopened_of_not_opens (hno k)] at hk
      · rw [opens_append, hopens k, hno k]
        rfl)
    w.ctx hr.ctx [] hr.effects (hmoves _ _) ⟨hw.fds, hrecorded, fun _ => rfl⟩
  have hI : ∀ k, SlotOk (hr.ctx.conn k) (reopened hr.effects slots' k) := by
    intro k
    rw [reopened_of_not_opens (by simpa using hopens k)]
    exact hslots k
  refine (@KeepsMoves.closeAfter config w.clients (fun _ => False) (fun _ _ => False) _ _ socket
    (slotOk_keeps (fun _ _ => id) slots') hr connect hfds hI hnone hne
    (fun _ j hj => unused_of_reconnect hw hre hsame hj) (fun hret j hj => ?_) fun _ _ _ hn => ?_).2 k
  · exact hguard (hr.ctx, .close j) (by simp [World.moments, hookMoments, closeMoments, hwrite, hret, hj])
  · exact absurd ((hsame i').trans hfd) (conn_fd_ne_of_none hne hn i')

/-- **One input** that closes connections only with nothing unread. -/
theorem SlotOk.input {input : Input} (hw : WorldOk w) (hok : ∀ k, SlotOk (w.ctx.conn k) (slots k))
    (hposs : Possible w input) (hguard : World.Meets config CloseGuard w input)
    (h : w.input config input = some (w', effects)) (k : Nat) :
    SlotOk (w'.ctx.conn k) (reopened effects (w.record slots input) k) := by
  cases input with
  | read socket rs connect => exact SlotOk.input_read hw hok hposs hguard h k
  | write socket io connect =>
      cases hget : fcgiFdListGetByFd w.ctx.fds socket with
      | some i => exact SlotOk.input_write hw hok hposs hguard hget h k
      | none =>
          have hrecord : w.record slots (.write socket io connect) = slots := by simp only [World.record, hget]
          have hno : ∀ i r, ¬ w.takes (.write socket io connect) i r := by
            rintro i r ⟨hi, -⟩
            rw [hget] at hi
            contradiction
          rw [hrecord]
          exact (World.moves_rule (slotOk_keeps hno slots) hw hposs (by simp) h hguard hok).2 k
  | _ => exact (World.moves_rule (slotOk_keeps (fun _ _ => id) slots) hw hposs (by simp) h hguard hok).2 k

end input

/-! ## runs -/

/-- **Slots.**  In every state a worker reaches in which, so far, connections were closed
only when all their bytes had been read, what was handed over on the connection of a
slot is what a receiver that starts with nothing makes of what was read on it, up to a
package that is refused and then closes it; and the request a connection sends is the
one it took last. -/
theorem own_of_guarded {config : FcgiConfig} {w : World} {t : Tracked} {inputs : List Input}
    (hinit : w.Initial config)
    (hrun : Run (Guarded (Tracked.Guard config) (Tracked.Step config)) { world := w } inputs t) (i : Nat) :
    (t.slots i).log <+: (receive (t.slots i).results).pkgs ∧
    ((t.world.ctx.conn i).fd ≠ -1 → (t.slots i).log = (receive (t.slots i).results).pkgs) ∧
    ((t.world.ctx.conn i).state = .sending →
      (t.world.ctx.conn i).beginReq ≠ none ∧ (t.world.ctx.conn i).beginReq = (t.slots i).begun) := by
  obtain ⟨-, hok⟩ : WorldOk t.world ∧ ∀ k, SlotOk (t.world.ctx.conn k) (t.slots k) := by
    refine hrun.guarded_invariant (I := fun t => WorldOk t.world ∧ ∀ k, SlotOk (t.world.ctx.conn k) (t.slots k))
      ?_ ⟨.initial hinit, fun k => ?_⟩
    · rintro t input t' ⟨hw, hok⟩ hguard ⟨hposs, hstep⟩
      obtain ⟨⟨w', effects⟩, hinput, rfl⟩ := Option.map_eq_some_iff.mp hstep
      exact ⟨hw.input hposs hinput, SlotOk.input hw hok hposs hguard hinput⟩
    · obtain ⟨type, server, location, heq⟩ := hinit.conn k
      rw [heq]
      refine ⟨List.nil_prefix, fun hne => absurd rfl hne, fun _ => ⟨rfl, by simp [fcgiFdInit, ChunkOk], by simp⟩,
        fun hs => by simp [fcgiFdInit] at hs, by simp [fcgiFdInit]⟩
  exact ⟨(hok i).parsed, fun hopen => ((hok i).opened hopen).1, (hok i).begun⟩

/-- A run under a condition that ends as `p` says. -/
theorem Tracked.exists_guarded_run {config : FcgiConfig} {t : Tracked} {inputs : List Input}
    {P : Tracked → Input → Prop} [∀ t i, Decidable (P t i)] {p : Tracked → Bool}
    (h : (inputs.foldlM (fun t i => if P t i ∧ Possible t.world i then t.input config i else none) t).any p = true) :
    ∃ t', Run (Guarded P (Tracked.Step config)) t inputs t' ∧ p t' = true := by
  obtain ⟨t', ht', hp⟩ := (Option.any_eq_true ..).mp h
  exact ⟨t', Run.guarded_guarded_of_foldlM ht', hp⟩

/-- A connection that answered its request is closed, and the next one uses its slot. -/
theorem own_slot_used_again :
    ∃ t, Run (Guarded (Tracked.Guard oneBackend) (Tracked.Step oneBackend)) { world := oneWorker }
        (requestSent ++ [.read 11 [.data backendAnswer, .again] none, .hangup 11 none, .accept 6,
          .request 6 (some 0) {} {} (some 12), .write 12 { sent := .wrote 264 } none,
          .read 12 [.data [1, 6, 0, 1, 0, 1, 0, 0, 65], .again] none]) t ∧
      (t.slots 0).results = [[.data [1, 6, 0, 1, 0, 1, 0, 0, 65], .again]] ∧
      (t.slots 0).log <+: (receive (t.slots 0).results).pkgs := by
  obtain ⟨t, hrun, ht⟩ := @Tracked.exists_guarded_run oneBackend { world := oneWorker }
    (requestSent ++ [.read 11 [.data backendAnswer, .again] none, .hangup 11 none, .accept 6,
      .request 6 (some 0) {} {} (some 12), .write 12 { sent := .wrote 264 } none,
      .read 12 [.data [1, 6, 0, 1, 0, 1, 0, 0, 65], .again] none])
    (Tracked.Guard oneBackend) _
    (fun t => (t.slots 0).results = [[.data [1, 6, 0, 1, 0, 1, 0, 0, 65], .again]]) (by decide +kernel)
  exact ⟨t, hrun, of_decide_eq_true ht, (own_of_guarded oneWorker_initial hrun 0).1⟩

/-- A connection is closed in the middle of a record: its bytes are put before those of
the next connection on the slot, and a byte of that is handed over as output of the
old request. -/
theorem not_own_after_hangup :
    ∃ t, Run (Tracked.Step oneBackend) { world := oneWorker }
        (requestSent ++ [.read 11 [.data [1, 6, 0, 2, 0], .again] none, .hangup 11 none, .accept 6,
          .request 6 (some 0) {} {} (some 12), .write 12 { sent := .wrote 264 } none,
          .read 12 [.data [1, 6, 0, 1, 0, 1, 0, 0, 65, 1], .again] none]) t ∧
      (t.world.ctx.conn 0).fd = 12 ∧ (t.slots 0).log.map (·.1.reqId) = [2] ∧
      ¬ (t.slots 0).log <+: (receive (t.slots 0).results).pkgs := by
  obtain ⟨t, hrun, ht⟩ := @Tracked.exists_guarded_run oneBackend { world := oneWorker }
    (requestSent ++ [.read 11 [.data [1, 6, 0, 2, 0], .again] none, .hangup 11 none, .accept 6,
      .request 6 (some 0) {} {} (some 12), .write 12 { sent := .wrote 264 } none,
      .read 12 [.data [1, 6, 0, 1, 0, 1, 0, 0, 65, 1], .again] none])
    (fun _ _ => True) (fun _ _ => inferInstanceAs (Decidable True))
    (fun t => (t.world.ctx.conn 0).fd = 12 ∧ (t.slots 0).log.map (·.1.reqId) = [2] ∧ ¬ (t.slots 0).log <+: (receive (t.slots 0).results).pkgs)
    (by decide +kernel)
  obtain ⟨hfd, hids, hlog⟩ := of_decide_eq_true ht
  exact ⟨t, hrun.of_guarded, hfd, hids, hlog⟩

end Monkey.Fastcgi
