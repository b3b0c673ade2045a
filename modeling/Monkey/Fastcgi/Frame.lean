import Monkey.Fastcgi.Moves

/-!
# Monkey.Fastcgi.Frame

What a package received on a backend connection may change.

A package names its request by an id the backend chose.  The request it names is
changed whether or not it is assigned to the connection; it is left alone only by
packages that do nothing to a request in its state (`Inert`).
-/

namespace Monkey.Fastcgi

/-- The packages received on connection `i` changed nothing but that connection and
the requests assigned to it. -/
structure FrameOk (i : Nat) (ctx ctx' : FcgiContext) : Prop where
  conns : ∀ j, j ≠ i → ctx'.conn j = ctx.conn j
  reqs : ∀ r, (ctx.req r).fcgiFd ≠ (ctx.conn i).fd → ctx'.req r = ctx.req r

/-- A request slot as `request_reset` leaves it. -/
def Idle (q : Request) : Prop :=
  q.state = .available ∧ q.sleeping = false ∧ q.headersSent = false ∧ q.fd = -1 ∧ q.fcgiFd = -1 ∧
    q.clockId = 0 ∧ q.iov.io = []

/-- The package does nothing to a request in the state of `q`: it is ignored, or what
it does was done before. -/
def Inert (f : FcgiFd) (q : Request) (pkg : FcgiHeader × Bytes) : Prop :=
  if pkg.1.type = fcgiStdout then q.state = .failed
  else if pkg.1.type = fcgiEndRequest then
    q.fcgiFd = -1 ∧
      if fdCanFollow .ready f.state then
        if q.fd = -1 then Idle q else q.state = .failed
      else q.state = .failed ∧ q.sleeping = false
  else if pkg.1.type = 0 then q.state = .failed ∧ q.sleeping = false
  else True

/-- The package names no request, one assigned to the connection, or does nothing to
the one it names. -/
def Confined (i : Nat) (ctx : FcgiContext) (pkg : FcgiHeader × Bytes) : Prop :=
  ∀ r, (requestListGet ctx.rl pkg.1.reqId).2 = some r →
    (ctx.req r).fcgiFd = (ctx.conn i).fd ∨ Inert (ctx.conn i) (ctx.req r) pkg

instance (q : Request) : Decidable (Idle q) := inferInstanceAs (Decidable (_ ∧ _))

instance (f : FcgiFd) (q : Request) (pkg : FcgiHeader × Bytes) : Decidable (Inert f q pkg) :=
  inferInstanceAs (Decidable (if pkg.1.type = fcgiStdout then _ else _))

instance (i : Nat) (ctx : FcgiContext) (pkg : FcgiHeader × Bytes) : Decidable (Confined i ctx pkg) :=
  inferInstanceAs (Decidable (∀ r ∈ (requestListGet ctx.rl pkg.1.reqId).2, _))

/-! ## one package -/

theorem requestReset_eq_self_iff {q : Request} : requestReset q = q ↔ Idle q := by
  constructor
  · intro h
    rw [← h]
    exact ⟨rfl, rfl, rfl, rfl, rfl, rfl, rfl⟩
  · rintro ⟨h1, h2, h3, h4, h5, h6, h7⟩
    obtain ⟨state, sleeping, headersSent, fd, fcgiFd, clockId, client, io, size⟩ := q
    simp only at h1 h2 h3 h4 h5 h6 h7
    subst h1 h2 h3 h4 h5 h6 h7
    rfl

theorem failRequest_eq_self_iff {q : Request} :
    (failRequest q).1 = q ↔ q.state = .failed ∧ q.sleeping = false := by
  rw [failRequest_eq]
  constructor
  · intro h
    rw [← h]
    exact ⟨rfl, rfl⟩
  · rintro ⟨h1, h2⟩
    rw [← h1, ← h2]

theorem requestSetState_ne_self {q q' : Request} {state : RequestState} (h : requestSetState q state = some q')
    (hav : state ≠ .available) (hfailed : state ≠ .failed) : q' ≠ q := by
  unfold requestSetState at h
  rw [if_neg hav] at h
  split at h
  · next hfollow =>
      obtain rfl := Option.some.inj h
      intro heq
      have hsame : q.state = state := (congrArg Request.state heq).symm
      rw [hsame] at hfollow
      cases state <;> simp_all [canFollow]
  · contradiction

theorem requestAddPkg_ne_self {q q' : Request} {body : Bytes} (h : requestAddPkg q body = some q') : q' ≠ q := by
  have hadd : ∀ {iov iov' : ChunkIov}, chunkIovAdd iov body = some iov' → iov'.io.length = iov.io.length + 1 := by
    intro iov iov' hadd
    rw [(chunkIovAdd_eq_some hadd).2.2]
    simp
  intro heq
  have hlen := congrArg (fun q : Request => q.iov.io.length) heq
  unfold requestAddPkg at h
  split at h
  · split at h
    · next iov hiov =>
        obtain rfl := Option.some.inj h
        have := hadd hiov
        simp only at hlen
        omega
    · obtain ⟨iov, hiov, rfl⟩ := Option.map_eq_some_iff.mp h
      obtain ⟨grown, hgrown, hiov⟩ := Option.bind_eq_some_iff.mp hiov
      have hsame : grown.io = q.iov.io := by
        unfold chunkIovResize at hgrown
        split at hgrown
        · rw [← Option.some.inj hgrown]
        · contradiction
      have := hadd hiov
      rw [hsame] at this
      simp only at hlen
      omega
  · contradiction

theorem handleStdout_eq_iff {q : Request} {pkg : FcgiHeader × Bytes} :
    handleStdout q pkg = some q ↔ q.state = .failed := by
  unfold handleStdout
  by_cases hstate : q.state = .failed
  · simp [hstate]
  · rw [if_neg hstate]
    refine iff_of_false (fun h => ?_) hstate
    split at h
    · exact requestSetState_ne_self h (by decide) (by decide) rfl
    · exact requestAddPkg_ne_self h rfl

/-- The end of a request that was taken off its connection leaves it as it is when it
ended before. -/
theorem handleEndRequest_eq_iff {f : FcgiFd} {q : Request} :
    (handleEndRequest f q).2.2.1 = q ↔
      if fdCanFollow .ready f.state then
        if q.fd = -1 then Idle q else q.state = .failed
      else q.state = .failed ∧ q.sleeping = false := by
  unfold handleEndRequest fcgiFdSetState
  by_cases hready : fdCanFollow .ready f.state = true
  · rw [if_pos hready, if_pos hready]
    dsimp only
    by_cases hfd : q.fd = -1
    · rw [if_pos hfd, if_pos hfd]
      exact requestReset_eq_self_iff
    · rw [if_neg hfd, if_neg hfd]
      by_cases hstate : q.state = .failed
      · rw [if_pos hstate]
        exact iff_of_true rfl hstate
      · rw [if_neg hstate]
        refine iff_of_false ?_ hstate
        split
        · next q' hq' =>
            have hended := requestSetState_ended hq'
            intro heq
            have hwoken : (wakeRequest q').1.state = q.state := congrArg Request.state heq
            rw [wakeRequest_eq, hended] at hwoken
            have hsame : RequestState.ended = q.state := hwoken
            refine requestSetState_ne_self hq' (by decide) (by decide) ?_
            rw [hended, hsame]
        · exact fun heq => hstate (failRequest_eq_self_iff.mp heq).1
  · rw [if_neg hready, if_neg hready]
    exact failRequest_eq_self_iff

/-- It stays off its connection. -/
theorem handleEndRequest_fcgiFd (f : FcgiFd) {q : Request} (hfcgi : q.fcgiFd = -1) :
    (handleEndRequest f q).2.2.1.fcgiFd = -1 := by
  have hfail : (failRequest q).1.fcgiFd = -1 := by rwa [failRequest_eq]
  unfold handleEndRequest
  split
  · exact hfail
  · split
    · rfl
    · split
      · exact hfcgi
      · split
        · next q' hq' =>
            show (wakeRequest q').1.fcgiFd = -1
            rw [wakeRequest_eq, requestSetState_ended hq', ← hfcgi]
        · exact hfail

/-- **A package leaves the request it names as it is exactly when it is inert.** -/
theorem fcgiHandlePkg_req_eq_iff (f : FcgiFd) (q : Request) (pkg : FcgiHeader × Bytes) :
    (fcgiHandlePkg f q pkg).2.2.1 = q ↔ Inert f q pkg := by
  unfold Inert fcgiHandlePkg
  by_cases herr : pkg.1.type = fcgiStderr
  · rw [if_pos herr, herr, if_neg (by decide), if_neg (by decide), if_neg (by decide)]
    simp
  rw [if_neg herr]
  by_cases hout : pkg.1.type = fcgiStdout
  · rw [if_pos hout, if_pos hout, ← @handleStdout_eq_iff q pkg]
    cases hq : handleStdout q pkg with
    | some q' => simp
    | none =>
        refine iff_of_false (fun heq => ?_) (by simp)
        have hfailed := (failRequest_eq_self_iff.mp heq).1
        rw [handleStdout_eq_iff.mpr hfailed] at hq
        contradiction
  rw [if_neg hout, if_neg hout]
  by_cases hend : pkg.1.type = fcgiEndRequest
  · rw [if_pos hend, if_pos hend]
    by_cases hfcgi : q.fcgiFd = -1
    · have hq : requestSetFcgiFd q (-1) = q := by rw [requestSetFcgiFd, ← hfcgi]
      rw [hq, handleEndRequest_eq_iff]
      simp [hfcgi]
    · refine iff_of_false (fun heq => hfcgi ?_) fun h => hfcgi h.1
      rw [← heq]
      exact handleEndRequest_fcgiFd f rfl
  rw [if_neg hend, if_neg hend]
  by_cases hzero : pkg.1.type = 0
  · rw [if_pos hzero, if_pos hzero]
    exact failRequest_eq_self_iff
  · rw [if_neg hzero, if_neg hzero]
    simp

/-- A package changes only the connection it came on and the request it names. -/
theorem recvPkg_frame_iff (i : Nat) (ctx : FcgiContext) (effects : List Effect) (pkg : FcgiHeader × Bytes) :
    FrameOk i ctx (recvPkg i (ctx, effects) pkg).2.1 ↔ Confined i ctx pkg := by
  obtain ⟨rl, hrs, ⟨hnone, heq⟩ | ⟨r, hsome, hr, heq⟩⟩ := recvPkg_cases i ctx effects pkg
  · rw [heq]
    refine iff_of_true ⟨fun j _ => rfl, fun r _ => FcgiContext.req_withRl hrs r⟩ fun r hr => ?_
    rw [hnone] at hr
    contradiction
  · have hself : (recvPkg i (ctx, effects) pkg).2.1.req r = (fcgiHandlePkg (ctx.conn i) (ctx.req r) pkg).2.2.1 := by
      rw [heq]
      refine FcgiContext.req_setReq_self ?_ _
      show r < rl.rs.length
      rwa [hrs]
    constructor
    · intro hframe r' hr'
      obtain rfl := Option.some.inj (hsome.symm.trans hr')
      rw [or_iff_not_imp_left]
      intro hne
      exact (fcgiHandlePkg_req_eq_iff _ _ _).mp (hself.symm.trans (hframe.reqs r hne))
    · intro hconf
      refine ⟨fun j hj => ?_, fun r' hne => ?_⟩
      · rw [heq]
        exact FcgiContext.conn_setConn_of_ne hj _
      · by_cases hrr : r' = r
        · subst hrr
          exact hself.trans ((fcgiHandlePkg_req_eq_iff _ _ _).mpr ((hconf r' hsome).resolve_left hne))
        · rw [heq]
          exact (FcgiContext.req_setReq_of_ne hrr _).trans (FcgiContext.req_withRl hrs r')

/-! ## one call of `fcgi_recv_response` -/

/-- The number of the connection stays. -/
theorem recvPkg_conn_fd (i : Nat) (ctx : FcgiContext) (before : List Effect) (pkg : FcgiHeader × Bytes) (j : Nat) :
    ((recvPkg i (ctx, before) pkg).2.1.conn j).fd = (ctx.conn j).fd := by
  obtain ⟨rl, -, heq | ⟨r, ok, f, q, es, -, -, hh, heq⟩⟩ := recvPkg_handled i ctx before pkg
  · rw [heq]
    rfl
  · have hfd : f.fd = (ctx.conn i).fd := by cases hh <;> rfl
    rw [heq]
    exact FcgiContext.conn_setConn_fd hfd j

/-- Frames compose as long as the number of the connection stays. -/
theorem FrameOk.trans {i : Nat} {ctx ctx' ctx'' : FcgiContext} (h : FrameOk i ctx ctx')
    (hfd : (ctx'.conn i).fd = (ctx.conn i).fd) (h' : FrameOk i ctx' ctx'') : FrameOk i ctx ctx'' := by
  refine ⟨fun j hj => (h'.conns j hj).trans (h.conns j hj), fun r hr => ?_⟩
  have hsame := h.reqs r hr
  rw [h'.reqs r (by rwa [hsame, hfd]), hsame]

/-- What happens to the connection itself is inside the frame. -/
theorem FrameOk.setConn {i : Nat} {ctx ctx' : FcgiContext} (h : FrameOk i ctx ctx') (f : FcgiFd) :
    FrameOk i ctx (ctx'.setConn i f) :=
  ⟨fun j hj => (FcgiContext.conn_setConn_of_ne hj f).trans (h.conns j hj), h.reqs⟩

/-- A read event whose packages are all confined keeps the frame. -/
theorem eventRead_frame {i : Nat} {ctx : FcgiContext} {socket : Int} {rs : List ReadResult} {h : HookRet}
    (hi : fcgiFdListGetByFd ctx.fds socket = some i) (hread : eventRead ctx socket rs = some h)
    (hconf : ∀ e ∈ handed i ctx rs, Confined i e.1 e.2) : FrameOk i ctx h.ctx := by
  refine (eventRead_induction (i := i) (P := fun ctx' o => ∀ pkg ∈ o, Confined i ctx' pkg)
    (I := fun ctx' _ => (ctx'.conn i).fd = (ctx.conn i).fd ∧ FrameOk i ctx ctx') ?_ ?_ ?_
    hi hread (fun e he pkg hpkg => ?_) ⟨rfl, fun _ _ => rfl, fun _ _ => rfl⟩).2
  · rintro ctx' - f ⟨hfd, hframe⟩ - hf
    rw [(fcgiFdSetState_eq_some hf).2]
    refine ⟨Eq.trans ?_ hfd, hframe.setConn _⟩
    exact FcgiContext.conn_setConn_fd (by rfl) i
  · rintro ctx' - chunk ⟨hfd, hframe⟩
    refine ⟨Eq.trans ?_ hfd, hframe.setConn _⟩
    exact FcgiContext.conn_setConn_fd (by rfl) i
  · rintro ctx' before pkg ⟨hfd, hframe⟩ hpkg
    exact ⟨(recvPkg_conn_fd i ctx' before pkg i).trans hfd,
      hframe.trans hfd ((recvPkg_frame_iff i ctx' before pkg).mpr (hpkg pkg rfl))⟩
  · exact hconf (e.1, pkg) (List.mem_filterMap.mpr ⟨e, he, by rw [Option.mem_def.mp hpkg]; rfl⟩)

/-- **Frame of the packages.**  A package received on connection `i` changes only that
connection and the requests assigned to it exactly when it is confined to them; and a
read event does when the packages it hands over are. -/
theorem recv_frame_iff_confined (i : Nat) (ctx : FcgiContext) :
    (∀ effects pkg, FrameOk i ctx (recvPkg i (ctx, effects) pkg).2.1 ↔ Confined i ctx pkg) ∧
    ∀ socket rs h, fcgiFdListGetByFd ctx.fds socket = some i → eventRead ctx socket rs = some h →
      (∀ e ∈ handed i ctx rs, Confined i e.1 e.2) → FrameOk i ctx h.ctx :=
  ⟨recvPkg_frame_iff i ctx, fun _ _ _ hi hread hconf => eventRead_frame hi hread hconf⟩

/-- A backend sends output for its own request. -/
theorem recv_frame_own_stdout : ∃ w h, Run (World.Step oneBackend) oneWorker
      [.accept 5, .request 5 (some 0) {} {} (some 11), .write 11 { sent := .again } none] w ∧
    eventRead w.ctx 11 [.data [1, 6, 0, 2, 0, 1, 0, 0, 65], .again] = some h ∧ FrameOk 0 w.ctx h.ctx := by
  obtain ⟨w, hrun, hw⟩ := @World.exists_run oneBackend oneWorker
    [.accept 5, .request 5 (some 0) {} {} (some 11), .write 11 { sent := .again } none]
    (fun w => fcgiFdListGetByFd w.ctx.fds 11 = some 0 ∧
      (eventRead w.ctx 11 [.data [1, 6, 0, 2, 0, 1, 0, 0, 65], .again]).isSome ∧
      ∀ e ∈ handed 0 w.ctx [.data [1, 6, 0, 2, 0, 1, 0, 0, 65], .again], Confined 0 e.1 e.2)
    (by decide +kernel)
  obtain ⟨hi, hsome, hconf⟩ := of_decide_eq_true hw
  obtain ⟨h, hread⟩ := Option.isSome_iff_exists.mp hsome
  exact ⟨w, h, hrun, hread, (recv_frame_iff_confined 0 w.ctx).2 11 _ h hi hread hconf⟩

/-- Two clients wait for two backends, and the second backend sends output for the
request of the first: it is queued there. -/
theorem recv_frame_fails_other_stdout : ∃ w h, Run (World.Step oneBackend) oneWorker
      [.accept 5, .request 5 (some 0) {} {} (some 11), .write 11 { sent := .again } none,
        .accept 6, .request 6 (some 0) {} {} (some 12), .write 12 { sent := .again } none] w ∧
    fcgiFdListGetByFd w.ctx.fds 12 = some 1 ∧
    eventRead w.ctx 12 [.data [1, 6, 0, 2, 0, 1, 0, 0, 65], .again] = some h ∧ ¬ FrameOk 1 w.ctx h.ctx := by
  obtain ⟨w, hrun, hw⟩ := @World.exists_run oneBackend oneWorker
    [.accept 5, .request 5 (some 0) {} {} (some 11), .write 11 { sent := .again } none,
      .accept 6, .request 6 (some 0) {} {} (some 12), .write 12 { sent := .again } none]
    (fun w => fcgiFdListGetByFd w.ctx.fds 12 = some 1 ∧ (w.ctx.req 1).fcgiFd ≠ (w.ctx.conn 1).fd ∧
      ∃ h ∈ eventRead w.ctx 12 [.data [1, 6, 0, 2, 0, 1, 0, 0, 65], .again], h.ctx.req 1 ≠ w.ctx.req 1)
    (by decide +kernel)
  obtain ⟨hi, hne, h, hread, hchanged⟩ := of_decide_eq_true hw
  exact ⟨w, h, hrun, hi, hread, fun hframe => hchanged (hframe.reqs 1 hne)⟩

end Monkey.Fastcgi
