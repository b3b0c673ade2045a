import Monkey.Fastcgi.Inputs

/-!
# Monkey.Fastcgi.Answers

What is left of a request when its client was answered.

The run keeps the sockets whose last answer is finished.  No slot should have one of
them: the next request on it would be taken for an event of the old one.  The answer
to a failed request that its backend still works on leaves its slot as it is.
-/

namespace Monkey.Fastcgi

/-- The sockets an answer was finished on. -/
def answeredOn (es : List Effect) : List Int :=
  es.filterMap fun e => match e with | .requestEnd socket _ => some socket | _ => none

theorem answeredOn_append (es es' : List Effect) : answeredOn (es ++ es') = answeredOn es ++ answeredOn es' :=
  List.filterMap_append

/-- A worker with the sockets on which nothing was asked since their last answer. -/
structure Answering where
  world : World
  finished : List Int := []
deriving DecidableEq, Repr

/-- The sockets a new request was not sent on. -/
def Input.unasked : Input → List Int → List Int
  | .request socket _ _ _ _ => List.filter (· ≠ socket)
  | _ => id

/-- An input. -/
def Answering.input (config : FcgiConfig) (a : Answering) (i : Input) : Option Answering :=
  (a.world.input config i).map fun s => { world := s.1, finished := answeredOn s.2 ++ i.unasked a.finished }

def Answering.Step (config : FcgiConfig) (a : Answering) (i : Input) (a' : Answering) : Prop :=
  Possible a.world i ∧ a.input config i = some a'

/-- No slot has a socket whose answer is finished. -/
def Answering.Ok (a : Answering) : Prop := ∀ s ∈ a.finished, ∀ r, (a.world.ctx.req r).fd ≠ s

/-- A failed request that a backend still works on is answered only on a connection that
is closed then. -/
def Answering.Guard (a : Answering) : Input → Prop
  | .write socket io _ =>
      ∀ q ∈ a.world.ctx.rl.rs, q.fd = socket → q.state = .failed → q.fcgiFd ≠ -1 → io.keep = false
  | _ => True

instance Answering.decidableGuard (a : Answering) : (i : Input) → Decidable (a.Guard i)
  | .write _ _ _ => inferInstanceAs (Decidable (∀ q ∈ a.world.ctx.rl.rs, _))
  | .accept _ | .request _ _ _ _ _ | .read _ _ _ | .hangup _ _ | .timeout _ => inferInstanceAs (Decidable True)

/-! ## who finishes answers -/

theorem wakeRequest_answeredOn (q : Request) : answeredOn (wakeRequest q).2 = [] := by
  unfold wakeRequest
  split <;> rfl

theorem Moved.answeredOn {new free : Int → Prop} {takes : Nat → Nat → Prop} {ctx ctx' : FcgiContext} {es : List Effect}
    (h : Moved new free takes ctx es ctx') : answeredOn es = [] := by
  cases h with
  | @say e he =>
      cases e with
      | requestEnd => contradiction
      | _ => rfl
  | fail r => exact wakeRequest_answeredOn _
  | _ => rfl

theorem Moves.answeredOn {new free : Int → Prop} {takes : Nat → Nat → Prop} {ctx ctx' : FcgiContext} {es : List Effect}
    (h : Moves new free takes ctx es ctx') : answeredOn es = [] := by
  induction h with
  | nil ctx => rfl
  | cons hm _ ih => rw [answeredOn_append, hm.answeredOn, ih, List.append_nil]

theorem recvPkg_answeredOn (i : Nat) (ctx : FcgiContext) (before : List Effect) (pkg : FcgiHeader × Bytes) :
    answeredOn (recvPkg i (ctx, before) pkg).2.2 = answeredOn before := by
  obtain ⟨rl, -, heq | ⟨r, ok, f, q, es, -, -, hh, heq⟩⟩ := recvPkg_handled i ctx before pkg
  · rw [heq]
  · have hes : answeredOn es = [] := by
      cases hh with
      | failed => exact wakeRequest_answeredOn _
      | refused => exact wakeRequest_answeredOn _
      | ended => exact wakeRequest_answeredOn _
      | stray => exact wakeRequest_answeredOn _
      | _ => rfl
    rw [heq, answeredOn_append, hes, List.append_nil]

theorem hangup_answeredOn (config : FcgiConfig) (ctx : FcgiContext) (socket : Int) (connect : Option Int) :
    answeredOn (hangup config ctx socket connect).effects = [] := by
  unfold hangup fcgiNewConnection
  grind [answeredOn]

theorem closeAfter_answeredOn (config : FcgiConfig) (h : HookRet) (socket : Int) (connect : Option Int) :
    answeredOn (closeAfter config h socket connect).effects = answeredOn h.effects := by
  unfold closeAfter
  split
  · rw [answeredOn_append, hangup_answeredOn, List.append_nil]
  · rfl

/-- Only a write event finishes an answer. -/
theorem World.input_answeredOn {config : FcgiConfig} {w w' : World} {input : Input} {effects : List Effect}
    (hw : WorldOk w) (hposs : Possible w input) (h : w.input config input = some (w', effects))
    (hend : answeredOn effects ≠ []) : ∃ socket io connect, input = .write socket io connect := by
  cases input with
  | accept socket =>
      cases h
      exact absurd rfl hend
  | request socket location client junk connect =>
      obtain ⟨⟨ret, ctx', es⟩, hs, heq⟩ := Option.map_eq_some_iff.mp h
      cases heq
      exact absurd (hw.stage30_moves hposs hs fun _ _ => False).answeredOn hend
  | read socket results connect =>
      obtain ⟨hr, hread, heq⟩ := Option.map_eq_some_iff.mp h
      cases heq
      obtain ⟨i, hget, -⟩ := get_of_backend hposs.1
      refine absurd ((closeAfter_answeredOn ..).trans ?_) hend
      refine @eventRead_induction (fun _ es => answeredOn es = []) i (fun _ _ => True) (fun _ _ _ h _ _ => h)
        (fun _ _ _ h => h) (fun ctx before pkg h _ => ?_) w.ctx socket results hr hget hread (by simp) rfl
      exact (recvPkg_answeredOn i ctx before pkg).trans h
  | write socket io connect => exact ⟨socket, io, connect, rfl⟩
  | hangup socket connect =>
      cases h
      exact absurd (hangup_answeredOn ..) hend
  | timeout socket =>
      cases h
      exact absurd rfl hend

/-! ## the sockets of the slots -/

/-- The socket of slot `r` is `fd`, is gone, or is one of those in `new`. -/
def SlotFrom (new : Int → Prop) (fd : Int) (r : Nat) (ctx : FcgiContext) : Prop :=
  (ctx.req r).fd = fd ∨ (ctx.req r).fd = -1 ∨ new (ctx.req r).fd

namespace SlotFrom

variable {new : Int → Prop} {fd : Int} {r : Nat} {ctx : FcgiContext}

theorem setReq (h : SlotFrom new fd r ctx) {a : Nat} {q : Request}
    (hq : q.fd = (ctx.req a).fd ∨ q.fd = -1 ∨ new q.fd) : SlotFrom new fd r (ctx.setReq a q) := by
  unfold SlotFrom
  rw [FcgiContext.req_setReq]
  split
  · next hra =>
      obtain ⟨rfl, -⟩ := hra
      obtain hq | hq := hq
      · rwa [hq]
      · exact .inr hq
  · exact h

theorem withRl (h : SlotFrom new fd r ctx) {rl : RequestList} (hrs : rl.rs = ctx.rl.rs) :
    SlotFrom new fd r (ctx.withRl rl) := by
  unfold SlotFrom
  rwa [FcgiContext.req_withRl hrs]

theorem moved (h : SlotFrom new fd r ctx) {free : Int → Prop} {takes : Nat → Nat → Prop} {es : List Effect} {ctx' : FcgiContext}
    (hm : Moved new free takes ctx es ctx') : SlotFrom new fd r ctx' := by
  cases hm with
  | search hrs => exact h.withRl hrs
  | assign hr hav hnew hsocket hq =>
      obtain rfl := requestAssign_eq_some hq
      exact h.setReq (.inr (.inr hsocket))
  | output a iov headersSent => exact h.setReq (.inl rfl)
  | sleep hstate hsocket => exact h.setReq (.inl rfl)
  | fail a => exact h.setReq (.inl (by rw [failRequest_eq]))
  | recycle a => exact h.setReq (.inr (.inl rfl))
  | take htakes hi hr hf hq hclock => exact h.setReq (.inl rfl)
  | @progress i a remain begin? state iov hf hbegin hstate =>
      exact @setReq new fd r (ctx.setConn i _) h a { ctx.req a with iov := iov } (.inl rfl)
  | _ => exact h

theorem recvPkg (h : SlotFrom new fd r ctx) (i : Nat) (before : List Effect) (pkg : FcgiHeader × Bytes) :
    SlotFrom new fd r (recvPkg i (ctx, before) pkg).2.1 := by
  obtain ⟨rl, hrs, heq | ⟨a, ok, f, q, es, -, -, hh, heq⟩⟩ := recvPkg_handled i ctx before pkg
  · rw [heq]
    exact h.withRl hrs
  · rw [heq]
    have hsearch : SlotFrom new fd r ((ctx.withRl rl).setConn i f) := h.withRl hrs
    refine hsearch.setReq ?_
    rw [FcgiContext.req_setConn, FcgiContext.req_withRl hrs]
    cases hh <;> simp [failRequest_eq, wakeRequest_eq, requestRecycle, requestReset]

theorem keeps (clients : List Int) (new : Int → Prop) (takes : Nat → Nat → Prop) (fd : Int) (r : Nat) :
    Keeps clients new takes (fun _ _ => True) fun ctx _ => SlotFrom new fd r ctx where
  moved _ _ _ _ _ h hm := h.moved hm
  package i _ before pkg _ h _ _ := h.recvPkg i before pkg
  giveUp _ _ _ _ _ h _ _ := h
  close _ _ _ _ h _ _ := h
  drop a ctx _ _ h _ _ := by
    refine h.setReq (.inr (.inl ?_))
    unfold dropClient
    split <;> rfl
  finish _ _ _ _ _ h _ _ := h
  buffer _ _ _ _ _ h := h

end SlotFrom

/-- An input leaves the socket of a slot, takes it away, or assigns a request. -/
theorem World.input_slots {config : FcgiConfig} {w w' : World} {input : Input} {effects : List Effect}
    (hw : WorldOk w) (hposs : Possible w input) (h : w.input config input = some (w', effects)) (r : Nat) :
    SlotFrom input.assigns (w.ctx.req r).fd r w'.ctx :=
  (World.input_rule (SlotFrom.keeps w.clients input.assigns (w.takes input) (w.ctx.req r).fd r) hw hposs h
    (fun _ _ => trivial) (.inl rfl)).2

/-! ## the end of an answer -/

theorem httpRequestEnd_answeredOn (config : FcgiConfig) (ctx : FcgiContext) (socket : Int) (keep : Bool) :
    answeredOn (httpRequestEnd config ctx socket keep).2 = [socket] := by
  cases keep with
  | true => rfl
  | false =>
      have hnone := hangup_answeredOn config ctx socket none
      show answeredOn ([.requestEnd socket false] ++ (hangup config ctx socket none).effects) = [socket]
      rw [answeredOn_append, hnone]
      rfl

/-- The hang-up of a client leaves no slot with its socket. -/
theorem hangup_no_slot {config : FcgiConfig} {clients : List Int} {ctx : FcgiContext} {socket : Int}
    {connect : Option Int} (hfds : FdsOk clients ctx) (hclient : socket ∈ clients) (hne : socket ≠ -1) (r : Nat) :
    ((hangup config ctx socket connect).ctx.req r).fd ≠ socket := by
  have hconn : ∀ i, (ctx.conn i).fd ≠ socket := fun i hi => hfds.clients i (hi ▸ hclient)
  obtain ⟨i, es, -, hfd, -⟩ | ⟨-, -, rl, hrs, ⟨hnone, heq⟩ | ⟨a, -, ha, hfd, heq⟩⟩ :=
    @hangup_cases config (fun _ => False) (Free clients) (fun _ _ => False) ctx socket connect hne fun i hi => absurd hi (hconn i)
  · exact absurd hfd (hconn i)
  · rw [heq, FcgiContext.req_withRl hrs]
    intro hr
    exact requestListGetByFd_none hnone (req_lt_of_fd hne hr) hr
  · have ha' : a < (ctx.withRl rl).rl.rs.length := by
      show a < rl.rs.length
      rwa [hrs]
    rw [heq]
    intro hr
    by_cases hra : r = a
    · rw [hra, FcgiContext.req_setReq_self ha'] at hr
      refine hne (hr.symm.trans ?_)
      unfold dropClient
      split <;> rfl
    · rw [FcgiContext.req_setReq_of_ne hra, FcgiContext.req_withRl hrs] at hr
      exact hra (hfds.slots r a (hr.trans hfd.symm) (hr ▸ hne))

/-- The end of an answer leaves no slot with its socket, if the connection is closed or
none had it before. -/
theorem httpRequestEnd_no_slot {config : FcgiConfig} {clients : List Int} {ctx : FcgiContext} {socket : Int}
    {keep : Bool} (hfds : FdsOk clients ctx) (hclient : socket ∈ clients) (hne : socket ≠ -1)
    (hslot : keep = true → ∀ r, (ctx.req r).fd ≠ socket) (r : Nat) :
    ((httpRequestEnd config ctx socket keep).1.req r).fd ≠ socket := by
  cases keep with
  | true => exact hslot rfl r
  | false => exact hangup_no_slot hfds hclient hne r

theorem mem_answeredOn {es : List Effect} {socket : Int} {keep : Bool} (h : Effect.requestEnd socket keep ∈ es) :
    socket ∈ answeredOn es :=
  List.mem_filterMap.mpr ⟨_, h, rfl⟩

/-- **A write event** finishes no answer, or the one on its own socket.  Then the slot of
the request was free before the end, or the request failed and a backend had it. -/
theorem eventWrite_answered {config : FcgiConfig} {clients : List Int} {ctx : FcgiContext} {socket : Int}
    {io : WriteIo} {h : HookRet} (hfds : FdsOk clients ctx) (hne : socket ≠ -1)
    (hsocket : socket ∈ clients ∨ Backend ctx socket) (hret : eventWrite config ctx socket io = some h) :
    answeredOn h.effects = [] ∨
    (socket ∈ clients ∧ h.ret = .owned ∧ answeredOn h.effects = [socket] ∧
      (.requestEnd socket false ∈ h.effects → io.keep = false) ∧
      ∃ ctx', FdsOk clients ctx' ∧ h.ctx = (httpRequestEnd config ctx' socket io.keep).1 ∧
        ((∀ a, (ctx'.req a).fd ≠ socket) ∨
        ∃ q ∈ ctx.rl.rs, q.fd = socket ∧ q.state = .failed ∧ q.fcgiFd ≠ -1)) := by
  obtain ⟨i, -, -, hm⟩ | ⟨hget, rl, hrs, rfl | ⟨r, hlt, hfd, hclient⟩⟩ := eventWrite_cases hne hret
  · exact .inl (hm (fun _ => False) (Free clients)).answeredOn
  · exact .inl rfl
  have hsocket : socket ∈ clients :=
    hsocket.resolve_right fun hb => by
      obtain ⟨i, hi⟩ := exists_conn_of_backend hb
      exact conn_fd_ne_of_none hne hget i hi
  have hfds' : FdsOk clients (ctx.withRl rl) := hfds.of_same (fun _ => rfl) (FcgiContext.req_withRl hrs)
  have hreq : (ctx.withRl rl).req r = ctx.req r := FcgiContext.req_withRl hrs r
  have hlt' : r < (ctx.withRl rl).rl.rs.length := by
    show r < rl.rs.length
    rwa [hrs]
  obtain ⟨hm, -, -⟩ | ⟨ctx', es, hans, howned, hctx, heff⟩ :=
    @eventWriteClient_moves config (fun _ => False) (Free clients) (fun _ _ => False) _ r socket io h hlt' (by rw [hreq, hfd]) hclient
  · exact .inl hm.answeredOn
  have hes := hans.moves.answeredOn
  refine .inr ⟨hsocket, howned, ?_, fun hmem => ?_, ctx',
    (@KeepsMoves.moves _ _ _ _ _ _ [] Keeps.nothing.toKeepsMoves _ _ hfds' trivial hans.moves).1,
    hctx, ?_⟩
  · rw [heff, answeredOn_append, hes, httpRequestEnd_answeredOn]
    rfl
  · by_contra hkeep
    rw [heff, eq_true_of_ne_false hkeep] at hmem
    obtain hmem | hmem := List.mem_append.mp hmem
    · have := mem_answeredOn hmem
      rw [hes] at this
      contradiction
    · exact absurd hmem (by simp [httpRequestEnd])
  · obtain hslot | ⟨hstate, hfcgi, -⟩ := hans.slot
    · refine .inl fun a ha => ?_
      by_cases har : a = r
      · rw [har, hslot] at ha
        exact hne ha.symm
      · rw [hans.others a har, FcgiContext.req_withRl hrs] at ha
        exact har (hfds.slots a r (ha.trans hfd.symm) (ha ▸ hne))
    · rw [hreq] at hstate hfcgi
      exact .inr ⟨ctx.req r, by simp [FcgiContext.req, hlt], hfd, hstate, hfcgi⟩

/-- After a write event under the guard no slot has a socket whose answer it finished. -/
theorem World.write_finished {config : FcgiConfig} {w w' : World} {socket : Int} {io : WriteIo}
    {connect : Option Int} {finished : List Int} {effects : List Effect} (hw : WorldOk w)
    (hposs : Possible w (.write socket io connect))
    (hguard : Answering.Guard ⟨w, finished⟩ (.write socket io connect))
    (h : w.input config (.write socket io connect) = some (w', effects)) :
    ∀ s ∈ answeredOn effects, ∀ r, (w'.ctx.req r).fd ≠ s := by
  obtain ⟨hr, hwrite, heq⟩ := Option.map_eq_some_iff.mp h
  have hne : socket ≠ -1 := hposs.1.elim (hw.clients _) (·.1)
  cases heq
  show ∀ s ∈ answeredOn (closeAfter config hr socket connect).effects, ∀ r,
    ((closeAfter config hr socket connect).ctx.req r).fd ≠ s
  rw [closeAfter_answeredOn]
  intro s hs
  obtain hnothing | ⟨hclient, howned, hends, -, ctx', hfds, hctx, hslot⟩ :=
    eventWrite_answered hw.fds hne hposs.1 hwrite
  · rw [hnothing] at hs
    contradiction
  · rw [hends] at hs
    obtain rfl := List.mem_singleton.mp hs
    rw [closeAfter, howned, hctx]
    refine httpRequestEnd_no_slot hfds hclient hne fun hkeep => ?_
    obtain hfree | ⟨q, hq, hfd, hstate, hfcgi⟩ := hslot
    · exact hfree
    · rw [hguard q hq hfd hstate hfcgi] at hkeep
      contradiction

/-- A write event that closes the connection of its client leaves no slot with it. -/
theorem World.write_gone {config : FcgiConfig} {w w' : World} {socket : Int} {io : WriteIo}
    {connect : Option Int} {effects : List Effect} (hw : WorldOk w) (hclient : socket ∈ w.clients)
    (h : w.input config (.write socket io connect) = some (w', effects)) (hgone : socket ∉ w'.clients) (r : Nat) :
    (w'.ctx.req r).fd ≠ socket := by
  have hne : socket ≠ -1 := hw.clients _ hclient
  have hnone : -1 ∉ w.clients := fun hmem => hw.clients _ hmem rfl
  obtain ⟨hr, hwrite, heq⟩ := Option.map_eq_some_iff.mp h
  cases heq
  show ((closeAfter config hr socket connect).ctx.req r).fd ≠ socket
  by_cases hclose : hr.ret = .close
  · have hfds := (@KeepsMoves.eventWrite config _ (fun _ => False) _ _ _ _ Keeps.nothing.toKeepsMoves _ _ hw.fds trivial hnone (.inl hclient) hwrite).1
    rw [closeAfter, hclose]
    exact hangup_no_slot hfds hclient hne r
  · -- the answer ended on it
    have hsame : closeAfter config hr socket connect = hr := closeAfter_of_ne hclose
    have hend : Effect.requestEnd socket false ∈ hr.effects := by
      by_contra hmem
      rw [hsame, if_neg (not_or.mpr ⟨hclose, hmem⟩)] at hgone
      exact hgone hclient
    obtain hnothing | ⟨-, -, -, hkeep, ctx', hfds, hctx, -⟩ :=
      eventWrite_answered hw.fds hne (.inl hclient) hwrite
    · have hmem := mem_answeredOn hend
      rw [hnothing] at hmem
      contradiction
    · rw [hsame, hctx, hkeep hend]
      exact httpRequestEnd_no_slot hfds hclient hne (fun hkept => by contradiction) r

/-- **A client that is gone has no slot**, unless it timed out. -/
theorem World.input_gone {config : FcgiConfig} {w w' : World} {input : Input} {effects : List Effect}
    (hw : WorldOk w) (hposs : Possible w input) (h : w.input config input = some (w', effects)) {s : Int}
    (hs : s ∈ w.clients) (hgone : s ∉ w'.clients) : input = .timeout s ∨ ∀ r, (w'.ctx.req r).fd ≠ s := by
  have herase : ∀ {socket : Int}, s ∉ w.clients.erase socket → s = socket := by
    intro socket hmem
    by_contra hne
    exact hmem ((List.mem_erase_of_ne hne).mpr hs)
  cases input with
  | accept socket =>
      cases h
      exact absurd (List.mem_cons_of_mem _ hs) hgone
  | request socket location client junk connect =>
      obtain ⟨⟨ret, ctx', es⟩, -, heq⟩ := Option.map_eq_some_iff.mp h
      cases heq
      exact absurd hs hgone
  | read socket results connect =>
      obtain ⟨hr, -, heq⟩ := Option.map_eq_some_iff.mp h
      obtain ⟨i, hi⟩ := exists_conn_of_backend hposs.1
      cases heq
      obtain hsame | hless := w.after_clients socket (closeAfter config hr socket connect)
      · exact absurd hs (hsame ▸ hgone)
      · -- the socket of a backend is not that of a client
        have hsocket := herase (hless ▸ hgone)
        exact absurd (hsocket ▸ hs) (hi ▸ hw.fds.clients i)
  | write socket io connect =>
      obtain ⟨hr, -, heq⟩ := Option.map_eq_some_iff.mp h
      have hsocket : s = socket := by
        cases heq
        obtain hsame | hless := w.after_clients socket (closeAfter config hr socket connect)
        · exact absurd hs (hsame ▸ hgone)
        · exact herase (hless ▸ hgone)
      subst hsocket
      exact .inr (World.write_gone hw hs h hgone)
  | hangup socket connect =>
      cases h
      obtain hsame | hless := w.after_clients socket { hangup config w.ctx socket connect with ret := .close }
      · exact absurd hs (hsame ▸ hgone)
      · obtain rfl := herase (hless ▸ hgone)
        exact .inr (hangup_no_slot hw.fds hs (hw.clients _ hs))
  | timeout socket =>
      cases h
      exact .inl (by rw [herase hgone])

/-! ## runs -/

theorem Input.mem_unasked {i : Input} {finished : List Int} {s : Int} (h : s ∈ i.unasked finished) :
    s ∈ finished ∧ ¬ i.assigns s := by
  cases i with
  | request socket location client junk connect =>
      obtain ⟨hmem, hne⟩ := List.mem_filter.mp h
      exact ⟨hmem, by simpa [Input.assigns] using hne⟩
  | _ => exact ⟨h, id⟩

/-- A socket whose answer is finished is one. -/
theorem Answering.Ok.ne_none {a : Answering} (hok : a.Ok) {s : Int} (hs : s ∈ a.finished) : s ≠ -1 := by
  -- there is no slot behind the last
  have hlast := hok s hs a.world.ctx.rl.rs.length
  rw [FcgiContext.req, List.getD_eq_default _ _ le_rfl] at hlast
  exact hlast.symm

/-- **One input** under the guard. -/
theorem Answering.Ok.input {config : FcgiConfig} {a a' : Answering} {i : Input} (hw : WorldOk a.world) (hok : a.Ok)
    (hguard : a.Guard i) (hposs : Possible a.world i) (h : a.input config i = some a') : a'.Ok := by
  obtain ⟨⟨w', effects⟩, hinput, rfl⟩ := Option.map_eq_some_iff.mp h
  have hslots := World.input_slots hw hposs hinput
  intro s hs
  obtain hnow | hbefore := List.mem_append.mp hs
  · obtain ⟨socket, io, connect, rfl⟩ := World.input_answeredOn hw hposs hinput (List.ne_nil_of_mem hnow)
    exact World.write_finished hw hposs hguard hinput s hnow
  · obtain ⟨hmem, hasked⟩ := Input.mem_unasked hbefore
    intro r hr
    obtain hsame | hnone | hnew := hslots r
    · exact hok s hmem r (hsame.symm.trans hr)
    · exact hok.ne_none hmem (hr.symm.trans hnone)
    · rw [hr] at hnew
      exact hasked hnew

/-- **Answers.**  In every state a worker reaches in which, so far, a failed request that
a backend still worked on was answered only on a connection that was closed then, no
slot has a socket whose answer is finished, and stage 30 does not take the next request
on it for an event of the last. -/
theorem answers_of_guarded {config : FcgiConfig} {w : World} {a : Answering} {inputs : List Input}
    (hinit : w.Initial config) (hrun : Run (Guarded Answering.Guard (Answering.Step config)) ⟨w, []⟩ inputs a) :
    ∀ s ∈ a.finished, (∀ r, (a.world.ctx.req r).fd ≠ s) ∧ (requestListGetByFd a.world.ctx.rl s).2 = none := by
  obtain ⟨-, hok⟩ : WorldOk a.world ∧ a.Ok := by
    refine hrun.guarded_invariant (I := fun a => WorldOk a.world ∧ a.Ok) ?_ ⟨.initial hinit, by simp [Answering.Ok]⟩
    rintro a input a' ⟨hw, hok⟩ hguard ⟨hposs, hstep⟩
    refine ⟨?_, hok.input hw hguard hposs hstep⟩
    obtain ⟨⟨w', effects⟩, hinput, rfl⟩ := Option.map_eq_some_iff.mp hstep
    exact hw.input hposs hinput
  intro s hs
  refine ⟨hok s hs, ?_⟩
  by_contra hfound
  obtain ⟨r, hr⟩ := Option.ne_none_iff_exists'.mp hfound
  exact hok s hs r (requestListGetByFd_some hr)

/-- The inputs one by one, as long as they are possible and meet `P`. -/
theorem Answering.exists_guarded_run {config : FcgiConfig} {a : Answering} {inputs : List Input}
    {P : Answering → Input → Prop} [∀ a i, Decidable (P a i)] {p : Answering → Bool}
    (h : (inputs.foldlM (fun a i => if P a i ∧ Possible a.world i then a.input config i else none) a).any p = true) :
    ∃ a', Run (Guarded P (Answering.Step config)) a inputs a' ∧ p a' = true := by
  obtain ⟨a', ha', hp⟩ := (Option.any_eq_true ..).mp h
  exact ⟨a', Run.guarded_guarded_of_foldlM ha', hp⟩

/-- A request is sent, answered and ended. -/
theorem answers_request_answered :
    ∃ a, Run (Guarded Answering.Guard (Answering.Step oneBackend)) ⟨oneWorker, []⟩
        (requestSent ++ [.read 11 [.data backendAnswer, .again] none, .write 5 { sent := .wrote 1 } none]) a ∧
      5 ∈ a.finished ∧ (requestListGetByFd a.world.ctx.rl 5).2 = none := by
  obtain ⟨a, hrun, hfin⟩ := @Answering.exists_guarded_run oneBackend ⟨oneWorker, []⟩
    (requestSent ++ [.read 11 [.data backendAnswer, .again] none, .write 5 { sent := .wrote 1 } none])
    Answering.Guard _ (fun a => 5 ∈ a.finished) (by decide +kernel)
  have hmem := of_decide_eq_true hfin
  exact ⟨a, hrun, hmem, (answers_of_guarded oneWorker_initial hrun 5 hmem).2⟩

/-- The backend ends its output and then sends a byte more: the request fails, and the
error page is sent on a connection that is kept.  The next request on it is left without
an answer. -/
theorem not_answers_after_late_output :
    ∃ a, Run (Answering.Step oneBackend) ⟨oneWorker, []⟩
        (requestSent ++ [.read 11 [.data [1, 6, 0, 2, 0, 0, 0, 0, 1, 6, 0, 2, 0, 1, 0, 0, 0x41]] none,
          .write 5 { sent := .again } none]) a ∧
      5 ∈ a.finished ∧ (a.world.ctx.req 1).fd = 5 ∧
      ∀ location client junk connect,
        (stage30 oneBackend a.world.ctx 5 location client junk connect).map (fun s => (s.1, s.2.2)) =
          some (.continue, []) := by
  obtain ⟨a, hrun, ha⟩ := @Answering.exists_guarded_run oneBackend ⟨oneWorker, []⟩
    (requestSent ++ [.read 11 [.data [1, 6, 0, 2, 0, 0, 0, 0, 1, 6, 0, 2, 0, 1, 0, 0, 0x41]] none,
      .write 5 { sent := .again } none])
    (fun _ _ => True) (fun _ _ => inferInstanceAs (Decidable True))
    (fun a => 5 ∈ a.finished ∧ (a.world.ctx.req 1).fd = 5 ∧ (requestListGetByFd a.world.ctx.rl 5).2.isSome = true)
    (by decide +kernel)
  obtain ⟨hmem, hfd, hsome⟩ := of_decide_eq_true ha
  refine ⟨a, hrun.of_guarded, hmem, hfd, fun location client junk connect => ?_⟩
  cases hget : requestListGetByFd a.world.ctx.rl 5 with
  | mk rl found =>
      rw [hget] at hsome
      obtain ⟨r, rfl⟩ := Option.isSome_iff_exists.mp hsome
      simp only [stage30, hget]
      rfl

end Monkey.Fastcgi
