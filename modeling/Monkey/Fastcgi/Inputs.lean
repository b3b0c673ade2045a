import Monkey.Fastcgi.Frame

/-!
# Monkey.Fastcgi.Inputs

The descriptors of a worker thread stay in order (`WorldOk`), and the one rule every
result about runs of the thread goes through (`World.input_rule`).

The rule leaves open what its user has to know of the moments of an input at which
the moves stop: a package, the close of a connection, the hang-up of a client.
-/

namespace Monkey.Fastcgi

/-! ## descriptors -/

/-- A number the kernel may give out for a backend. -/
def Free (clients : List Int) (fd : Int) : Prop := fd ≠ -1 ∧ fd ∉ clients

/-- Open connections have numbers of their own, and no two requests the same client. -/
structure FdsOk (clients : List Int) (ctx : FcgiContext) : Prop where
  available : ∀ i, (ctx.conn i).state = .available ↔ (ctx.conn i).fd = -1
  distinct : ∀ i j, (ctx.conn i).fd = (ctx.conn j).fd → (ctx.conn i).fd ≠ -1 → i = j
  clients : ∀ i, (ctx.conn i).fd ∉ clients
  slots : ∀ r r', (ctx.req r).fd = (ctx.req r').fd → (ctx.req r).fd ≠ -1 → r = r'

/-- The descriptors of the thread are in order. -/
structure WorldOk (w : World) : Prop where
  clients : ∀ s ∈ w.clients, s ≠ -1
  nodup : w.clients.Nodup
  fds : FdsOk w.clients w.ctx

namespace FdsOk

variable {clients : List Int} {new free : Int → Prop} {takes : Nat → Nat → Prop} {ctx ctx' : FcgiContext}
  {es : List Effect}

/-- Only the requests and the connections matter. -/
theorem of_same (h : FdsOk clients ctx) (hconn : ∀ i, ctx'.conn i = ctx.conn i)
    (hreq : ∀ r, ctx'.req r = ctx.req r) : FdsOk clients ctx' := by
  refine ⟨fun i => ?_, fun i j => ?_, fun i => ?_, fun r r' => ?_⟩
  · rw [hconn]
    exact h.available i
  · rw [hconn, hconn]
    exact h.distinct i j
  · rw [hconn]
    exact h.clients i
  · rw [hreq, hreq]
    exact h.slots r r'

theorem setReq (h : FdsOk clients ctx) {r : Nat} {q : Request} (hq : q.fd = (ctx.req r).fd ∨ q.fd = -1) :
    FdsOk clients (ctx.setReq r q) := by
  refine ⟨h.available, h.distinct, h.clients, fun a b hab hne => ?_⟩
  have hfd : ∀ a, ((ctx.setReq r q).req a).fd = (ctx.req a).fd ∨ ((ctx.setReq r q).req a).fd = -1 := by
    intro a
    rw [FcgiContext.req_setReq]
    split
    · next ha =>
        rw [ha.1]
        exact hq
    · exact .inl rfl
  have ha := (hfd a).resolve_right hne
  have hb := (hfd b).resolve_right (hab ▸ hne)
  exact h.slots a b (by rw [← ha, ← hb, hab]) (ha ▸ hne)

theorem setConn (h : FdsOk clients ctx) {i : Nat} {f : FcgiFd} (hfd : f.fd = (ctx.conn i).fd)
    (hav : f.state = .available ↔ (ctx.conn i).state = .available) : FdsOk clients (ctx.setConn i f) := by
  have hsame : ∀ j, ((ctx.setConn i f).conn j).fd = (ctx.conn j).fd ∧
      (((ctx.setConn i f).conn j).state = .available ↔ (ctx.conn j).state = .available) := by
    intro j
    rw [FcgiContext.conn_setConn]
    split
    · next hj =>
        rw [hj.1]
        exact ⟨hfd, hav⟩
    · exact ⟨rfl, Iff.rfl⟩
  refine ⟨fun j => ?_, fun j k => ?_, fun j => ?_, h.slots⟩
  · rw [(hsame j).1, (hsame j).2]
    exact h.available j
  · rw [(hsame j).1, (hsame k).1]
    exact h.distinct j k
  · rw [(hsame j).1]
    exact h.clients j

/-- A number no one has, or none. -/
theorem setFd (h : FdsOk clients ctx) {i : Nat} {f : FcgiFd}
    (hav : f.state = .available ↔ f.fd = -1) (hclient : f.fd ∉ clients)
    (hfresh : f.fd ≠ -1 → ∀ j, (ctx.conn j).fd ≠ f.fd) : FdsOk clients (ctx.setConn i f) := by
  refine ⟨fun j => ?_, fun j k => ?_, fun j => ?_, h.slots⟩
  · rw [FcgiContext.conn_setConn]
    split
    · exact hav
    · exact h.available j
  · rw [FcgiContext.conn_setConn, FcgiContext.conn_setConn]
    split
    · next hj =>
        split
        · next hk => exact fun _ _ => hj.1.trans hk.1.symm
        · exact fun heq hne => absurd heq.symm (hfresh hne k)
    · split
      · exact fun heq hne => absurd heq (hfresh (heq ▸ hne) j)
      · exact h.distinct j k
  · rw [FcgiContext.conn_setConn]
    split
    · exact hclient
    · exact h.clients j

theorem closeConn (h : FdsOk clients ctx) (hnone : -1 ∉ clients) (i : Nat) : FdsOk clients (closeConn ctx i) :=
  h.setFd (by simp) hnone fun hne => absurd rfl hne

/-- A client no request has. -/
theorem assign (h : FdsOk clients ctx) {r : Nat} {q : Request} (hnew : ∀ r', (ctx.req r').fd ≠ q.fd) :
    FdsOk clients (ctx.setReq r q) := by
  refine ⟨h.available, h.distinct, h.clients, fun a b => ?_⟩
  rw [FcgiContext.req_setReq, FcgiContext.req_setReq]
  split
  · next ha =>
      split
      · next hb => exact fun _ _ => ha.1.trans hb.1.symm
      · exact fun heq _ => absurd heq.symm (hnew b)
  · split
    · exact fun heq _ => absurd heq (hnew a)
    · exact h.slots a b

/-- **Moves keep the descriptors in order.** -/
theorem moved (h : FdsOk clients ctx) (hfree : ∀ fd, free fd → Free clients fd)
    (hm : Moved new free takes ctx es ctx') : FdsOk clients ctx' := by
  cases hm with
  | say => exact h
  | search hrs => exact h.of_same (fun _ => rfl) (FcgiContext.req_withRl hrs)
  | assign hr hav hnew hsocket hq =>
      obtain rfl := requestAssign_eq_some hq
      exact h.assign hnew
  | output r iov headersSent => exact h.setReq (.inl rfl)
  | sleep => exact h.setReq (.inl rfl)
  | fail r => exact h.setReq (.inl (by rw [failRequest_eq]))
  | recycle r => exact h.setReq (.inr rfl)
  | connect hi hav hfd hfresh =>
      obtain ⟨hne, hclient⟩ := hfree _ hfd
      exact h.setFd (iff_of_false (by simp) hne) hclient fun _ => hfresh
  | unconnected hav => exact h.setConn ((h.available _).mp hav).symm Iff.rfl
  | wake hf => exact h.setConn rfl (by simp [hf])
  | doze hf => exact h.setConn rfl (by simp [hf])
  | @take i r remain htakes hi hr hf hq hclock =>
      have hreq := @setReq _ _ h r { ctx.req r with fcgiFd := (ctx.conn i).fd, state := .sent } (.inl rfl)
      exact hreq.setConn rfl (by simp [hf])
  | @progress i r remain begin? state iov hf hbegin hstate =>
      have hconn := @setConn _ _ h i
        { ctx.conn i with state := state, beginReqRemain := remain, beginReq := begin? } rfl
        (by obtain ⟨rfl, -⟩ | ⟨rfl, -⟩ := hstate <;> simp [hf])
      exact hconn.setReq (.inl rfl)

/-- A package leaves the connections in order. -/
theorem handled (h : FdsOk clients ctx) {i : Nat} (hi : (ctx.conn i).fd ≠ -1) {rl : RequestList}
    (hrs : rl.rs = ctx.rl.rs) {q q' : Request} {pkg : FcgiHeader × Bytes} {ok : Bool} {f : FcgiFd}
    (hh : Handled (ctx.conn i) q pkg ok f q' es) : FdsOk clients ((ctx.withRl rl).setConn i f) := by
  have hopen : (ctx.conn i).state ≠ .available := fun hav => hi ((h.available i).mp hav)
  have hsearch : FdsOk clients (ctx.withRl rl) := h.of_same (fun _ => rfl) (FcgiContext.req_withRl hrs)
  refine hsearch.setConn ?_ ?_
  · cases hh <;> rfl
  · cases hh <;> first | exact Iff.rfl | exact iff_of_false (by simp) hopen

/-- **Packages keep the descriptors in order.** -/
theorem recvPkg (h : FdsOk clients ctx) {i : Nat} (hi : (ctx.conn i).fd ≠ -1) (before : List Effect)
    (pkg : FcgiHeader × Bytes) : FdsOk clients (recvPkg i (ctx, before) pkg).2.1 := by
  obtain ⟨rl, hrs, heq | ⟨r, ok, f, q, es, -, -, hh, heq⟩⟩ := recvPkg_handled i ctx before pkg
  · rw [heq]
    exact h.of_same (fun _ => rfl) (FcgiContext.req_withRl hrs)
  · rw [heq]
    refine (h.handled hi hrs hh).setReq ?_
    rw [FcgiContext.req_setConn, FcgiContext.req_withRl hrs]
    cases hh <;> simp [failRequest_eq, wakeRequest_eq, requestRecycle, requestReset]

theorem setClosing (h : FdsOk clients ctx) {i : Nat} {f : FcgiFd}
    (hf : fcgiFdSetState (ctx.conn i) .closing = some f) : FdsOk clients (ctx.setConn i f) := by
  obtain ⟨hfollow, rfl⟩ := fcgiFdSetState_eq_some hf
  refine h.setConn rfl (iff_of_false (by simp) fun hav => ?_)
  rw [hav] at hfollow
  contradiction

/-- A client that is gone. -/
theorem dropClient (h : FdsOk clients ctx) (r : Nat) : FdsOk clients (ctx.setReq r (dropClient (ctx.req r))) := by
  refine h.setReq (.inr ?_)
  unfold Fastcgi.dropClient
  split <;> rfl

end FdsOk

/-- Moves that make no connection keep the numbers of all. -/
theorem Moves.conn_fd {new : Int → Prop} {takes : Nat → Nat → Prop} {clients : List Int} {ctx ctx' : FcgiContext} {es : List Effect}
    (h : Moves new (fun _ => False) takes ctx es ctx') (hok : FdsOk clients ctx) (j : Nat) :
    (ctx'.conn j).fd = (ctx.conn j).fd := by
  refine (@Moves.invariant new (fun _ => False) takes
    (fun ctx' _ => FdsOk clients ctx' ∧ (ctx'.conn j).fd = (ctx.conn j).fd) ?_ ctx ctx' [] es h ⟨hok, rfl⟩).2
  rintro ctx' - es ctx'' ⟨hok', hsame⟩ hm
  refine ⟨hok'.moved (fun _ => False.elim) hm, Eq.trans ?_ hsame⟩
  cases hm with
  | connect hi hav hfree => exact hfree.elim
  | unconnected hav => exact FcgiContext.conn_setConn_fd ((hok'.available _).mp hav).symm j
  | progress iov hf hbegin hstate =>
      exact FcgiContext.conn_setConn_fd (by rfl) j
  | _ => first | rfl | exact FcgiContext.conn_setConn_fd (by rfl) j

/-! ## moments -/

/-- What happens in an input besides moves: a package on connection `i`, which is given
up or closed, or the hang-up of the client of request `r`. -/
inductive Moment
  | package (i : Nat) (pkg : FcgiHeader × Bytes)
  | giveUp (i : Nat)
  | close (i : Nat)
  | drop (r : Nat)
deriving DecidableEq, Repr

/-- The connection on `socket` is closed. -/
def closeMoments (ctx : FcgiContext) (socket : Int) : List (FcgiContext × Moment) :=
  match fcgiFdListGetByFd ctx.fds socket with
  | some i => [(ctx, .close i)]
  | none => []

/-- A handler asks for its connection to be closed. -/
def hookMoments (h : Option HookRet) (socket : Int) : List (FcgiContext × Moment) :=
  match h with
  | some h => if h.ret = .close then closeMoments h.ctx socket else []
  | none => []

/-- The moments of an input, each with the context it finds. -/
def World.moments (config : FcgiConfig) (w : World) : Input → List (FcgiContext × Moment)
  | .read socket results _ =>
      match fcgiFdListGetByFd w.ctx.fds socket with
      | some i =>
          (readTrace i w.ctx results).map (fun e => (e.1, e.2.elim (.giveUp i) (.package i))) ++
            hookMoments (eventRead w.ctx socket results) socket
      | none => []
  | .write socket io _ => hookMoments (eventWrite config w.ctx socket io) socket
  | .hangup socket _ =>
      closeMoments w.ctx socket ++
        match (requestListGetByFd w.ctx.rl socket).2 with
        | some r => [(w.ctx, .drop r)]
        | none => []
  | _ => []

/-- The socket an input may assign a request to. -/
def Input.assigns : Input → Int → Prop
  | .request socket _ _ _ _ => fun s => s = socket
  | _ => fun _ => False

/-- The connection an input may have take a request. -/
def World.takes (w : World) : Input → Nat → Nat → Prop
  | .write socket _ _ => Takes w.ctx socket
  | _ => fun _ _ => False

/-! ## the rule -/

/-- A property of the context and the effects so far is kept by moves, by the close of a
connection and the hang-up of a client that meet `G`, and by the end of an answer. -/
structure KeepsMoves (clients : List Int) (new : Int → Prop) (takes : Nat → Nat → Prop)
    (G : FcgiContext → Moment → Prop) (I : FcgiContext → List Effect → Prop) : Prop where
  moved : ∀ ctx before es ctx', FdsOk clients ctx → I ctx before →
    Moved new (Free clients) takes ctx es ctx' → I ctx' (before ++ es)
  close : ∀ i ctx before, FdsOk clients ctx → I ctx before → (ctx.conn i).fd ≠ -1 →
    G ctx (.close i) → I (closeConn ctx i) (before ++ [.eventDel i (ctx.conn i).fd])
  drop : ∀ r ctx before, FdsOk clients ctx → I ctx before → (ctx.req r).fd ∈ clients →
    ((ctx.req r).state = .failed ∨ G ctx (.drop r)) → I (ctx.setReq r (dropClient (ctx.req r))) before
  finish : ∀ socket keep ctx before, FdsOk clients ctx → I ctx before → socket ∈ clients →
    (∀ r, (ctx.req r).fd = socket → (ctx.req r).state = .failed) →
    I ctx (before ++ [.requestEnd socket keep])

/-- A property is kept by what a read event does as well. -/
structure Keeps (clients : List Int) (new : Int → Prop) (takes : Nat → Nat → Prop)
    (G : FcgiContext → Moment → Prop) (I : FcgiContext → List Effect → Prop) : Prop
    extends KeepsMoves clients new takes G I where
  package : ∀ i ctx before pkg, FdsOk clients ctx → I ctx before → (ctx.conn i).fd ≠ -1 →
    G ctx (.package i pkg) → I (recvPkg i (ctx, before) pkg).2.1 (recvPkg i (ctx, before) pkg).2.2
  giveUp : ∀ i ctx before f, FdsOk clients ctx → I ctx before → G ctx (.giveUp i) →
    fcgiFdSetState (ctx.conn i) .closing = some f → I (ctx.setConn i f) before
  buffer : ∀ i ctx before chunk, FdsOk clients ctx → I ctx before →
    I (ctx.setConn i { ctx.conn i with chunk := chunk }) before

theorem exists_conn_of_backend {ctx : FcgiContext} {socket : Int} (h : Backend ctx socket) :
    ∃ i, (ctx.conn i).fd = socket := by
  obtain ⟨-, f, hf, hfd⟩ := h
  obtain ⟨i, hi, rfl⟩ := List.mem_iff_getElem.mp hf
  exact ⟨i, by simpa [FcgiContext.conn, hi] using hfd⟩

theorem conn_mem {ctx : FcgiContext} {socket : Int} {i : Nat} (hsocket : socket ≠ -1)
    (hi : (ctx.conn i).fd = socket) : ctx.conn i ∈ ctx.fds := by
  by_cases hlt : i < ctx.fds.length
  · simp [FcgiContext.conn, hlt]
  · rw [FcgiContext.conn, List.getD_eq_default _ _ (Nat.not_lt.mp hlt)] at hi
    exact absurd hi.symm hsocket

/-- A connection with a number has a slot. -/
theorem lt_of_conn_fd {ctx : FcgiContext} {i : Nat} (h : (ctx.conn i).fd ≠ -1) : i < ctx.fds.length := by
  by_contra hge
  rw [FcgiContext.conn, List.getD_eq_default _ _ (Nat.not_lt.mp hge)] at h
  exact h rfl

theorem conn_fd_ne_of_none {ctx : FcgiContext} {socket : Int} (hsocket : socket ≠ -1)
    (h : fcgiFdListGetByFd ctx.fds socket = none) (i : Nat) : (ctx.conn i).fd ≠ socket :=
  fun hi => fcgiFdListGetByFd_none h _ (conn_mem hsocket hi) hi

/-- Nothing to keep. -/
theorem Keeps.nothing {clients : List Int} {new : Int → Prop} {takes : Nat → Nat → Prop} :
    Keeps clients new takes (fun _ _ => True) fun _ _ => True :=
  ⟨⟨by simp, by simp, by simp, by simp⟩, by simp, by simp, by simp⟩

namespace KeepsMoves

variable {config : FcgiConfig} {clients : List Int} {new : Int → Prop} {takes : Nat → Nat → Prop}
  {G : FcgiContext → Moment → Prop} {I : FcgiContext → List Effect → Prop} {ctx : FcgiContext}
  {before : List Effect} {socket : Int}

theorem moves (hk : KeepsMoves clients new takes G I) {ctx' : FcgiContext} {es : List Effect} (hfds : FdsOk clients ctx)
    (hI : I ctx before) (h : Moves new (Free clients) takes ctx es ctx') :
    FdsOk clients ctx' ∧ I ctx' (before ++ es) := by
  refine @Moves.invariant new (Free clients) takes (fun ctx' es => FdsOk clients ctx' ∧ I ctx' es) ?_
    ctx ctx' before es h ⟨hfds, hI⟩
  rintro ctx before es ctx' ⟨hfds, hI⟩ hm
  exact ⟨hfds.moved (fun _ h => h) hm, hk.moved ctx before es ctx' hfds hI hm⟩

/-- The close of a connection, or the hang-up of a client. -/
theorem hangup (hk : KeepsMoves clients new takes G I) {connect : Option Int} (hfds : FdsOk clients ctx)
    (hI : I ctx before) (hnone : -1 ∉ clients) (hsocket : socket ≠ -1)
    (hfresh : ∀ i, (ctx.conn i).fd = socket → Unused (Free clients) (closeConn ctx i) connect)
    (hclose : ∀ i, fcgiFdListGetByFd ctx.fds socket = some i → G ctx (.close i))
    (hdrop : ∀ r, (requestListGetByFd ctx.rl socket).2 = some r → fcgiFdListGetByFd ctx.fds socket = none →
      socket ∈ clients ∧ ((ctx.req r).state = .failed ∨ G ctx (.drop r))) :
    FdsOk clients (hangup config ctx socket connect).ctx ∧
      I (hangup config ctx socket connect).ctx (before ++ (hangup config ctx socket connect).effects) := by
  obtain ⟨i, es, hget, hfd, hmoves, heff⟩ | ⟨hget, heff, rl, hrs, ⟨-, heq⟩ | ⟨r, hr, -, hfd, heq⟩⟩ :=
    @hangup_cases config new (Free clients) takes ctx socket connect hsocket hfresh
  · have hclosed := hk.close i ctx before hfds hI (hfd ▸ hsocket) (hclose i hget)
    rw [hfd] at hclosed
    rw [heff, List.append_cons]
    exact hk.moves (hfds.closeConn hnone i) hclosed hmoves
  · rw [heff, heq]
    exact hk.moves hfds hI (.single (.search hrs))
  · obtain ⟨hclient, hstate⟩ := hdrop r hr hget
    have hdropped := hk.drop r ctx before hfds hI (hfd ▸ hclient) hstate
    -- the search before the change is one after it
    have hsearch : Moved new (Free clients) takes (ctx.setReq r (dropClient (ctx.req r))) []
        ((ctx.withRl rl).setReq r (dropClient (ctx.req r))) := by
      have hm := @Moved.search new (Free clients) takes (ctx.setReq r (dropClient (ctx.req r)))
        { rl with rs := rl.rs.set r (dropClient (ctx.req r)) } (by rw [hrs]; rfl)
      exact hm
    rw [heff, heq]
    exact hk.moves (hfds.dropClient r) hdropped (.single hsearch)

/-- The end of an answer. -/
theorem requestEnd (hk : KeepsMoves clients new takes G I) (hfds : FdsOk clients ctx) (hI : I ctx before)
    (hnone : -1 ∉ clients) (hsocket : socket ∈ clients)
    (hfailed : ∀ r, (ctx.req r).fd = socket → (ctx.req r).state = .failed) (keep : Bool) :
    FdsOk clients (httpRequestEnd config ctx socket keep).1 ∧
      I (httpRequestEnd config ctx socket keep).1 (before ++ (httpRequestEnd config ctx socket keep).2) := by
  have hend := hk.finish socket keep ctx before hfds hI hsocket hfailed
  have hconn : ∀ i, (ctx.conn i).fd ≠ socket := fun i hi => hfds.clients i (hi ▸ hsocket)
  unfold httpRequestEnd
  cases keep with
  | true => exact ⟨hfds, hend⟩
  | false =>
      rw [if_neg (by decide)]
      dsimp only
      rw [List.append_cons]
      refine hk.hangup hfds hend hnone (fun h => hnone (h ▸ hsocket)) (fun i hi => absurd hi (hconn i))
        (fun i hi => ?_) fun r hr _ => ⟨hsocket, .inl (hfailed r (requestListGetByFd_some hr))⟩
      exact absurd (fcgiFdListGetByFd_some hi (fcgiFdInit .unix 0 0)).2 (hconn i)

/-- A handler that asks for its connection to be closed. -/
theorem closeAfter (hk : KeepsMoves clients new takes G I) {h : HookRet} {connect : Option Int} (hfds : FdsOk clients h.ctx)
    (hI : I h.ctx h.effects) (hnone : -1 ∉ clients) (hsocket : socket ≠ -1)
    (hfresh : h.ret = .close → ∀ i, (h.ctx.conn i).fd = socket →
      Unused (Free clients) (closeConn h.ctx i) connect)
    (hclose : h.ret = .close → ∀ i, fcgiFdListGetByFd h.ctx.fds socket = some i → G h.ctx (.close i))
    (hdrop : h.ret = .close → ∀ r, (requestListGetByFd h.ctx.rl socket).2 = some r →
      fcgiFdListGetByFd h.ctx.fds socket = none →
      socket ∈ clients ∧ ((h.ctx.req r).state = .failed ∨ G h.ctx (.drop r))) :
    FdsOk clients (closeAfter config h socket connect).ctx ∧
      I (closeAfter config h socket connect).ctx (closeAfter config h socket connect).effects := by
  unfold Fastcgi.closeAfter
  split
  · next hret => exact hk.hangup hfds hI hnone hsocket (hfresh hret) (hclose hret) (hdrop hret)
  · exact ⟨hfds, hI⟩

/-- A write event, up to the close of its connection. -/
theorem eventWrite (hk : KeepsMoves clients new (Takes ctx socket) G I) {io : WriteIo} {h : HookRet} (hfds : FdsOk clients ctx)
    (hI : I ctx []) (hnone : -1 ∉ clients) (hsocket : socket ∈ clients ∨ Backend ctx socket)
    (hret : eventWrite config ctx socket io = some h) :
    FdsOk clients h.ctx ∧ I h.ctx h.effects ∧
      (h.ret = .close → (∀ j, (h.ctx.conn j).fd = (ctx.conn j).fd) ∧
        ∀ r, (h.ctx.req r).fd = socket → fcgiFdListGetByFd h.ctx.fds socket = none →
          socket ∈ clients ∧ (h.ctx.req r).state = .failed) := by
  have hne : socket ≠ -1 := by
    obtain hclient | hbackend := hsocket
    · exact fun heq => hnone (heq ▸ hclient)
    · exact hbackend.1
  obtain ⟨i, -, hfd, hmoves⟩ | ⟨hget, rl, hrs, rfl | ⟨r, hr, hfd, hclient⟩⟩ := eventWrite_cases hne hret
  · obtain ⟨hfds', hI'⟩ := hk.moves hfds hI (hmoves _ _)
    have hsame := (hmoves new fun _ => False).conn_fd hfds
    refine ⟨hfds', hI', fun _ => ⟨hsame, fun r _ hget' => ?_⟩⟩
    exact absurd ((hsame i).trans hfd) (conn_fd_ne_of_none hne hget' i)
  · obtain ⟨hfds', hI'⟩ := hk.moves hfds hI (.single (.search hrs))
    exact ⟨hfds', hI', fun hclose => by contradiction⟩
  · obtain ⟨hfds', hI'⟩ := hk.moves hfds hI (.single (.search hrs))
    have hsocket : socket ∈ clients :=
      hsocket.resolve_right fun hb => by
        obtain ⟨i, hi⟩ := exists_conn_of_backend hb
        exact conn_fd_ne_of_none hne hget i hi
    have hr' : r < (ctx.withRl rl).rl.rs.length := by
      show r < rl.rs.length
      rwa [hrs]
    have hfd' : ((ctx.withRl rl).req r).fd = socket := by rwa [FcgiContext.req_withRl hrs]
    have honly : ∀ r', ((ctx.withRl rl).req r').fd = socket → r' = r := fun r' hr' =>
      hfds'.slots r' r (hr'.trans hfd'.symm) (hr' ▸ hne)
    have hconn : ∀ j, ((ctx.withRl rl).conn j).fd = (ctx.conn j).fd := fun _ => rfl
    generalize ctx.withRl rl = start at hclient hfds' hI' hr' hfd' honly hconn
    -- a request that still has the descriptor is the one of the event
    have hstill : ∀ ctx' : FcgiContext, (∀ r' ≠ r, ctx'.req r' = start.req r') → ∀ r', (ctx'.req r').fd = socket →
        r' = r := by
      intro ctx' hothers r' hr''
      by_contra hrr
      exact hrr (honly r' (hothers r' hrr ▸ hr''))
    obtain ⟨hmoves, hothers, hfailed⟩ | ⟨ctx', es, hans, hret', hctx, heff⟩ :=
      @eventWriteClient_moves config new (Free clients) (Takes ctx socket) start r socket io h hr' hfd' hclient
    · obtain ⟨hfds'', hI''⟩ := hk.moves hfds' hI' hmoves
      refine ⟨hfds'', hI'', fun hclose => ⟨fun j => ?_, fun r' hr'' _ => ⟨hsocket, ?_⟩⟩⟩
      · obtain ⟨hmoves', -, -⟩ | ⟨-, -, -, hret', -⟩ :=
          @eventWriteClient_moves config new (fun _ => False) (Takes ctx socket) start r socket io h hr' hfd' hclient
        · exact (hmoves'.conn_fd hfds' j).trans (hconn j)
        · exact absurd (hclose.symm.trans hret') (by decide)
      · rw [hstill h.ctx hothers r' hr'']
        exact hfailed hclose
    · obtain ⟨hfds'', hI''⟩ := hk.moves hfds' hI' hans.moves
      have hends : ∀ r', (ctx'.req r').fd = socket → (ctx'.req r').state = .failed := by
        intro r' hr''
        obtain rfl := hstill ctx' hans.others r' hr''
        obtain hslot | ⟨hstate, -, rfl⟩ := hans.slot
        · exact absurd (hr''.symm.trans hslot) hne
        · exact hstate
      rw [hctx, heff]
      obtain ⟨hfds3, hI3⟩ := @requestEnd config _ _ _ _ _ _ _ _ hk hfds'' hI'' hnone hsocket hends io.keep
      exact ⟨hfds3, hI3, fun hclose => absurd (hclose.symm.trans hret') (by decide)⟩

end KeepsMoves

theorem backend_of_conn {ctx : FcgiContext} {socket : Int} {i : Nat} (hsocket : socket ≠ -1)
    (hi : (ctx.conn i).fd = socket) : Backend ctx socket :=
  ⟨hsocket, ctx.conn i, conn_mem hsocket hi, hi⟩

theorem Fresh.free {w : World} {fd : Int} (h : Fresh w fd) : Free w.clients fd :=
  ⟨fun heq => absurd (heq ▸ h.1) (by decide), h.2.1⟩

theorem Fresh.conn_ne {w : World} {fd : Int} (h : Fresh w fd) (j : Nat) : (w.ctx.conn j).fd ≠ fd :=
  fun hj => h.2.2 (backend_of_conn h.free.1 hj)

/-- The answer to a new connection made in place of one that was closed. -/
theorem unused_of_reconnect {w : World} {ctx : FcgiContext} {socket : Int} {connect : Option Int} {i : Nat}
    (hw : WorldOk w) (hre : Reconnect w socket connect) (hsame : ∀ j, (ctx.conn j).fd = (w.ctx.conn j).fd)
    (hi : (ctx.conn i).fd = socket) : Unused (Free w.clients) (closeConn ctx i) connect := by
  intro fd hfd
  obtain ⟨rfl, hbackend⟩ | hfresh := hre fd hfd
  · refine ⟨⟨hbackend.1, hi ▸ hsame i ▸ hw.fds.clients i⟩, fun j hj => ?_⟩
    have hlt : i < ctx.fds.length := lt_of_conn_fd (hi ▸ hbackend.1)
    rw [closeConn, FcgiContext.conn_setConn] at hj
    split at hj
    · exact hbackend.1 hj.symm
    · next hne =>
        refine hne ⟨hw.fds.distinct j i ?_ ?_, hlt⟩
        · rw [← hsame, ← hsame, hj, hi]
        · rw [← hsame, hj]
          exact hbackend.1
  · refine ⟨hfresh.free, fun j hj => ?_⟩
    rw [closeConn, FcgiContext.conn_setConn] at hj
    split at hj
    · exact hfresh.free.1 hj.symm
    · exact hfresh.conn_ne j (hsame j ▸ hj)

/-- A request is made of moves. -/
theorem WorldOk.stage30_moves {config : FcgiConfig} {w : World} {socket : Int} {location : Option Nat}
    {client : ClientRequest} {junk : Junk} {connect : Option Int} {ret : Stage30Ret} {ctx' : FcgiContext}
    {es : List Effect} (hw : WorldOk w) (hposs : Possible w (.request socket location client junk connect))
    (h : stage30 config w.ctx socket location client junk connect = some (ret, ctx', es)) :
    ∀ takes, Moves (fun s => s = socket) (Free w.clients) takes w.ctx es ctx' := by
  obtain ⟨hsocket, hfresh⟩ := hposs
  intro takes
  refine Fastcgi.stage30_moves rfl (hw.clients _ hsocket) (fun fd hfd => ?_) h
  exact ⟨(hfresh fd hfd).free, (hfresh fd hfd).conn_ne⟩

/-- A read event is for one connection. -/
theorem get_of_backend {ctx : FcgiContext} {socket : Int} (h : Backend ctx socket) :
    ∃ i, fcgiFdListGetByFd ctx.fds socket = some i ∧ (ctx.conn i).fd = socket := by
  obtain ⟨j, hj⟩ := exists_conn_of_backend h
  obtain ⟨i, hget⟩ := Option.ne_none_iff_exists'.mp fun hn => conn_fd_ne_of_none h.1 hn j hj
  exact ⟨i, hget, (fcgiFdListGetByFd_some hget (fcgiFdInit .unix 0 0)).2⟩

/-- **Rule for inputs other than read events**: what moves keep, and the moments of the
input, the input keeps. -/
theorem World.moves_rule {config : FcgiConfig} {w w' : World} {input : Input} {effects : List Effect}
    {G : FcgiContext → Moment → Prop} {I : FcgiContext → List Effect → Prop}
    (hk : KeepsMoves w.clients input.assigns (w.takes input) G I) (hw : WorldOk w) (hposs : Possible w input)
    (hnoread : ∀ socket results connect, input ≠ .read socket results connect)
    (h : w.input config input = some (w', effects)) (hG : ∀ m ∈ w.moments config input, G m.1 m.2)
    (hI : I w.ctx []) : FdsOk w.clients w'.ctx ∧ I w'.ctx effects := by
  have hnone : -1 ∉ w.clients := fun hmem => hw.clients _ hmem rfl
  cases input with
  | accept socket =>
      cases h
      exact ⟨hw.fds, hI⟩
  | request socket location client junk connect =>
      obtain ⟨⟨ret, ctx', es⟩, hs, heq⟩ := Option.map_eq_some_iff.mp h
      cases heq
      exact hk.moves hw.fds hI (hw.stage30_moves hposs hs _)
  | read socket results connect => exact absurd rfl (hnoread socket results connect)
  | write socket io connect =>
      obtain ⟨hsocket, hre⟩ := hposs
      obtain ⟨hr, hwrite, heq⟩ := Option.map_eq_some_iff.mp h
      cases heq
      obtain ⟨hfds, hI', hclose⟩ := hk.eventWrite hw.fds hI hnone hsocket hwrite
      have hne : socket ≠ -1 := hsocket.elim (hw.clients _) (·.1)
      refine hk.closeAfter hfds hI' hnone hne (fun hret k hk' => unused_of_reconnect hw hre (hclose hret).1 hk')
        (fun hret k hk' => ?_) fun hret r hr' hn => ?_
      · refine hG (hr.ctx, .close k) ?_
        simp [World.moments, hookMoments, closeMoments, hwrite, hret, hk']
      · obtain ⟨hclient, hfailed⟩ := (hclose hret).2 r (requestListGetByFd_some hr') hn
        exact ⟨hclient, .inl hfailed⟩
  | hangup socket connect =>
      obtain ⟨hsocket, hre⟩ := hposs
      cases h
      have hne : socket ≠ -1 := hsocket.elim (hw.clients _) (·.1)
      refine hk.hangup hw.fds hI hnone hne (fun k hk' => unused_of_reconnect hw hre (fun _ => rfl) hk')
        (fun k hk' => ?_) fun r hr hn => ⟨?_, .inr ?_⟩
      · exact hG (w.ctx, .close k) (by simp [World.moments, closeMoments, hk'])
      · refine hsocket.resolve_right fun hb => ?_
        obtain ⟨j, hj⟩ := exists_conn_of_backend hb
        exact conn_fd_ne_of_none hne hn j hj
      · exact hG (w.ctx, .drop r) (by simp [World.moments, hr])
  | timeout socket =>
      cases h
      exact ⟨hw.fds, hI⟩

/-- **Rule for inputs**: what moves and read events keep, and the moments of the input,
the input keeps. -/
theorem World.input_rule {config : FcgiConfig} {w w' : World} {input : Input} {effects : List Effect}
    {G : FcgiContext → Moment → Prop} {I : FcgiContext → List Effect → Prop}
    (hk : Keeps w.clients input.assigns (w.takes input) G I)
    (hw : WorldOk w) (hposs : Possible w input) (h : w.input config input = some (w', effects))
    (hG : ∀ m ∈ w.moments config input, G m.1 m.2) (hI : I w.ctx []) :
    FdsOk w.clients w'.ctx ∧ I w'.ctx effects := by
  have hnone : -1 ∉ w.clients := fun hmem => hw.clients _ hmem rfl
  cases input with
  | read socket results connect =>
      obtain ⟨hbackend, hre⟩ := hposs
      obtain ⟨hr, hread, heq⟩ := Option.map_eq_some_iff.mp h
      cases heq
      obtain ⟨i, hget, hfd⟩ := get_of_backend hbackend
      simp only [World.moments, hget, List.mem_append, List.mem_map] at hG
      have hevent := @eventRead_induction
        (fun ctx es => (FdsOk w.clients ctx ∧ I ctx es) ∧ ∀ j, (ctx.conn j).fd = (w.ctx.conn j).fd) i
        (fun ctx o => G ctx (o.elim (.giveUp i) (.package i))) ?_ ?_ ?_ w.ctx socket results hr hget hread
        (fun e he => hG (e.1, e.2.elim (.giveUp i) (.package i)) (.inl ⟨e, he, rfl⟩)) ⟨⟨hw.fds, hI⟩, fun _ => rfl⟩
      · obtain ⟨⟨hfds, hI'⟩, hsame⟩ := hevent
        refine hk.toKeepsMoves.closeAfter hfds hI' hnone hbackend.1
          (fun _ k hk' => unused_of_reconnect hw hre hsame hk') (fun hret k hk' => ?_)
          fun _ r _ hn => absurd ((hsame i).trans hfd) (conn_fd_ne_of_none hbackend.1 hn i)
        refine hG (hr.ctx, .close k) (.inr ?_)
        simp [hookMoments, closeMoments, hread, hret, hk']
      · rintro ctx es f ⟨⟨hfds, hI'⟩, hsame⟩ hG' hf
        refine ⟨⟨hfds.setClosing hf, hk.giveUp i ctx es f hfds hI' hG' hf⟩, fun j => Eq.trans ?_ (hsame j)⟩
        rw [(fcgiFdSetState_eq_some hf).2]
        exact FcgiContext.conn_setConn_fd (by rfl) j
      · rintro ctx es chunk ⟨⟨hfds, hI'⟩, hsame⟩
        exact ⟨⟨hfds.setConn rfl Iff.rfl, hk.buffer i ctx es chunk hfds hI'⟩,
          fun j => (FcgiContext.conn_setConn_fd (by rfl) j).trans (hsame j)⟩
      · rintro ctx es pkg ⟨⟨hfds, hI'⟩, hsame⟩ hpkg
        have hopen : (ctx.conn i).fd ≠ -1 := by
          rw [hsame, hfd]
          exact hbackend.1
        exact ⟨⟨hfds.recvPkg hopen es pkg, hk.package i ctx es pkg hfds hI' hopen hpkg⟩,
          fun j => (recvPkg_conn_fd i ctx es pkg j).trans (hsame j)⟩
  | _ => exact World.moves_rule hk.toKeepsMoves hw hposs (by simp) h hG hI

/-! ## runs -/

theorem World.Initial.conn {config : FcgiConfig} {w : World} (h : w.Initial config) (i : Nat) :
    ∃ type server location, w.ctx.conn i = fcgiFdInit type server location := by
  by_cases hi : i < w.ctx.fds.length
  · exact (h.slots config).2 _ (by simp [FcgiContext.conn, hi])
  · rw [FcgiContext.conn, List.getD_eq_default _ _ (Nat.not_lt.mp hi)]
    exact ⟨_, _, _, rfl⟩

theorem World.Initial.req {config : FcgiConfig} {w : World} (h : w.Initial config) (r : Nat) :
    w.ctx.req r = {} := by
  by_cases hr : r < w.ctx.rl.rs.length
  · exact (h.slots config).1 _ (by simp [FcgiContext.req, hr])
  · rw [FcgiContext.req, List.getD_eq_default _ _ (Nat.not_lt.mp hr)]

theorem WorldOk.initial {config : FcgiConfig} {w : World} (h : w.Initial config) : WorldOk w := by
  have hfd : ∀ i, (w.ctx.conn i).state = .available ∧ (w.ctx.conn i).fd = -1 := by
    intro i
    obtain ⟨type, server, location, heq⟩ := h.conn i
    rw [heq]
    exact ⟨rfl, rfl⟩
  have hclients : w.clients = [] := h.1
  refine ⟨by simp [hclients], by simp [hclients], fun i => ?_, fun i j _ hne => ?_, fun i => by simp [hclients],
    fun r r' _ hne => ?_⟩
  · exact iff_of_true (hfd i).1 (hfd i).2
  · exact absurd (hfd i).2 hne
  · rw [h.req r] at hne
    exact absurd rfl hne

theorem FdsOk.of_subset {clients clients' : List Int} {ctx : FcgiContext} (h : FdsOk clients ctx)
    (hsub : ∀ s ∈ clients', s ∈ clients) : FdsOk clients' ctx :=
  ⟨h.available, h.distinct, fun i hi => h.clients i (hsub _ hi), h.slots⟩

theorem World.after_clients (w : World) (socket : Int) (h : HookRet) :
    (w.after socket h).1.clients = w.clients ∨ (w.after socket h).1.clients = w.clients.erase socket := by
  unfold World.after
  dsimp only
  split
  · exact .inr rfl
  · exact .inl rfl

/-- The clients after an input. -/
theorem World.input_clients {config : FcgiConfig} {w w' : World} {input : Input} {effects : List Effect}
    (h : w.input config input = some (w', effects)) :
    (∃ socket, input = .accept socket ∧ w'.clients = socket :: w.clients) ∨ w'.clients = w.clients ∨
      ∃ socket, w'.clients = w.clients.erase socket := by
  have hafter : ∀ socket hr, w.after socket hr = (w', effects) → w'.clients = w.clients ∨
      ∃ socket, w'.clients = w.clients.erase socket := by
    rintro socket hr heq
    obtain hsame | herase := w.after_clients socket hr
    · exact .inl (by rw [← hsame, heq])
    · exact .inr ⟨socket, by rw [← herase, heq]⟩
  cases input with
  | accept socket =>
      cases h
      exact .inl ⟨socket, rfl, rfl⟩
  | request socket location client junk connect =>
      obtain ⟨s, -, heq⟩ := Option.map_eq_some_iff.mp h
      cases heq
      exact .inr (.inl rfl)
  | read socket results connect =>
      obtain ⟨hr, -, heq⟩ := Option.map_eq_some_iff.mp h
      exact .inr (hafter socket _ heq)
  | write socket io connect =>
      obtain ⟨hr, -, heq⟩ := Option.map_eq_some_iff.mp h
      exact .inr (hafter socket _ heq)
  | hangup socket connect => exact .inr (hafter socket _ (Option.some.inj h))
  | timeout socket =>
      cases h
      exact .inr (.inr ⟨socket, rfl⟩)

/-- **Every input keeps the descriptors in order.** -/
theorem WorldOk.input {config : FcgiConfig} {w w' : World} {input : Input} {effects : List Effect}
    (hw : WorldOk w) (hposs : Possible w input) (h : w.input config input = some (w', effects)) : WorldOk w' := by
  obtain ⟨hfds, -⟩ := World.input_rule Keeps.nothing hw hposs h (fun _ _ => trivial) trivial
  obtain ⟨socket, rfl, hclients⟩ | hsame | ⟨socket, herase⟩ := World.input_clients h
  · have hfresh : Fresh w socket := hposs
    cases h
    refine ⟨?_, List.nodup_cons.mpr ⟨hfresh.2.1, hw.nodup⟩, ?_⟩
    · intro s hs
      obtain rfl | hs := List.mem_cons.mp hs
      · exact hfresh.free.1
      · exact hw.clients s hs
    · refine ⟨hfds.available, hfds.distinct, fun i hi => ?_, hfds.slots⟩
      obtain heq | hmem := List.mem_cons.mp hi
      · exact hfresh.conn_ne i heq
      · exact hfds.clients i hmem
  · exact ⟨hsame ▸ hw.clients, hsame ▸ hw.nodup, hsame ▸ hfds⟩
  · have hsub : ∀ s ∈ w'.clients, s ∈ w.clients := fun s hs => List.mem_of_mem_erase (herase ▸ hs)
    exact ⟨fun s hs => hw.clients s (hsub s hs), herase ▸ hw.nodup.erase socket, hfds.of_subset hsub⟩

/-- The moments of an input meet `G`. -/
def World.Meets (config : FcgiConfig) (G : FcgiContext → Moment → Prop) (w : World) (input : Input) : Prop :=
  ∀ m ∈ w.moments config input, G m.1 m.2

instance (config : FcgiConfig) (G : FcgiContext → Moment → Prop) [∀ ctx m, Decidable (G ctx m)] (w : World)
    (input : Input) : Decidable (World.Meets config G w input) :=
  inferInstanceAs (Decidable (∀ m ∈ w.moments config input, _))

/-- **Rule for runs**: a property of the context that the handlers keep, where the
moments meet `G`, holds in every state a run reaches whose moments do. -/
theorem World.run_rule {config : FcgiConfig} {G : FcgiContext → Moment → Prop} {I : FcgiContext → Prop}
    (hk : ∀ clients new takes, Keeps clients new takes G fun ctx _ => I ctx) {w w' : World} {inputs : List Input}
    (hinit : w.Initial config) (hI : I w.ctx)
    (hrun : Run (Guarded (World.Meets config G) (World.Step config)) w inputs w') : WorldOk w' ∧ I w'.ctx := by
  refine hrun.guarded_invariant (I := fun w => WorldOk w ∧ I w.ctx) ?_ ⟨.initial hinit, hI⟩
  rintro w input w' ⟨hw, hI⟩ hmeets ⟨hposs, hstep⟩
  obtain ⟨⟨w'', effects⟩, hinput, rfl⟩ := Option.map_eq_some_iff.mp hstep
  exact ⟨hw.input hposs hinput, (World.input_rule (hk _ _ _) hw hposs hinput hmeets hI).2⟩

end Monkey.Fastcgi
