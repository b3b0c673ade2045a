import Monkey.Worker.Queues

/-!
# Monkey.Worker.Outcome

The ways in which a handler can leave a worker.  `handler_outcome` is the only
place where the handlers are taken apart: every result about runs goes through
the cases of `Outcome`.
-/

namespace Monkey

/-- The buffer of the session of `fd` is full and may not grow: the read event
ends in `mk_request_premature_close`. -/
def GrowthRefused (cfg : Config) (io : EventIo) (fd : Int) (w : Worker) : Prop :=
  ∃ cs ∈ mkSessionGet w fd, cs.bodySize ≤ cs.bodyLength ∧
    ((cs.bodySize + mkRequestChunk : Int) ≥ cfg.maxRequestSize ∨
      (cs.bodyFixed = false ∧ io.reallocOk = false))

instance (cfg : Config) (io : EventIo) (fd : Int) (w : Worker) :
    Decidable (GrowthRefused cfg io fd w) :=
  inferInstanceAs (Decidable (∃ cs ∈ mkSessionGet w fd, _))

/-- The scheduler node of a handler that only touches the status of the slot. -/
def SameSlots (fd : Int) (w v : Worker) : Prop :=
  v.sched = w.sched ∨ v.sched = (mkSchedUpdateConnStatus w.sched fd .process).2

/-- The handler returns and the connection goes on; its session may be new. -/
structure Kept (fd : Int) (w v : Worker) : Prop where
  sched : SameSlots fd w v
  sessions : v.sessionFds = w.sessionFds ∨
    (fd ∉ w.sessionFds ∧ fd ∈ w.sched.busyFds ∧ v.sessionFds = w.sessionFds ++ [fd])
  log : v.log = w.log ∨ ∃ out, v.log = .wrote fd out :: w.log

/-- The handler has removed the session and returns a negative value; `refused`
is what a premature close needs. -/
structure Ended (refused : Prop) (fd : Int) (w v : Worker) : Prop where
  sched : SameSlots fd w v
  sessions : v.sessionFds = w.sessionFds.erase fd
  held : fd ∈ w.sessionFds ∨ fd ∈ w.sched.busyFds
  log : v.log = w.log ∨ (∃ out, v.log = .wrote fd out :: w.log) ∨
    (refused ∧ ∃ out, v.log = .stage50 fd :: .wrote fd out :: w.log)

/-! ## sessions keep their descriptor -/

/-- What receiving leaves alone: the socket, the requests of the round and the number
of the round. -/
def ClientSession.round (cs : ClientSession) : Int × List SessionRequest × Int :=
  (cs.socket, cs.requestList, cs.counterConnections)

theorem mkHandlerReadGrow_round {cfg : Config} {ok : Bool} {cs cs' : ClientSession}
    (h : mkHandlerReadGrow cfg ok cs = .ok cs') : cs'.round = cs.round := by
  unfold mkHandlerReadGrow at h
  unfold ClientSession.round
  grind

theorem mkHandlerRead_done {cfg : Config} {ok : Bool} {rd : SocketRead} {ret : Int}
    {cs cs' : ClientSession} (h : mkHandlerRead cfg ok rd cs = .done ret cs') :
    0 < ret ∧ cs'.round = cs.round := by
  unfold mkHandlerRead at h
  split at h
  · contradiction
  · next cs₁ hgrow =>
      rw [← mkHandlerReadGrow_round hgrow]
      split at h
      · simp only [HandlerRead.done.injEq] at h
        obtain ⟨rfl, rfl⟩ := h
        exact ⟨by decide, rfl⟩
      · contradiction
      · contradiction
      · split at h
        · contradiction
        · simp only [HandlerRead.done.injEq] at h
          obtain ⟨rfl, rfl⟩ := h
          exact ⟨by omega, rfl⟩

/-- A premature close comes from a buffer that may not grow. -/
theorem mkHandlerRead_premature {cfg : Config} {ok : Bool} {rd : SocketRead} {status : Int}
    {cs : ClientSession} (h : mkHandlerRead cfg ok rd cs = .premature status) :
    cs.bodySize ≤ cs.bodyLength ∧ ((cs.bodySize + mkRequestChunk : Int) ≥ cfg.maxRequestSize ∨
      (cs.bodyFixed = false ∧ ok = false)) := by
  have hgrow : mkHandlerReadGrow cfg ok cs = .error status := by
    unfold mkHandlerRead at h
    split at h
    · simp_all
    · split at h <;> try contradiction
      split at h <;> contradiction
  simp only [mkHandlerReadGrow, Nat.cast_add] at hgrow
  by_cases hfull : (cs.bodySize : Int) - cs.bodyLength ≤ 0
  · rw [if_pos hfull] at hgrow
    refine ⟨by omega, ?_⟩
    by_contra hno
    push Not at hno
    obtain ⟨hmax, hrealloc⟩ := hno
    rw [if_neg (by omega)] at hgrow
    cases hfixed : cs.bodyFixed <;> simp_all
  · rw [if_neg hfull] at hgrow
    contradiction

theorem mkHttpPendingRequest_round (cfg : Config) (cs : ClientSession) :
    (mkHttpPendingRequest cfg cs).2.round = cs.round := by
  unfold mkHttpPendingRequest pendingData ClientSession.round
  grind

@[simp] theorem mkHttpPendingRequest_socket (cfg : Config) (cs : ClientSession) :
    (mkHttpPendingRequest cfg cs).2.socket = cs.socket :=
  congrArg Prod.fst (mkHttpPendingRequest_round cfg cs)

@[simp] theorem mkRequestParse_socket (cs : ClientSession) :
    (mkRequestParse cs).2.socket = cs.socket := by
  unfold mkRequestParse
  grind

@[simp] theorem mkHandlerWrite_socket (cfg : Config) (sys : Sys) (cs : ClientSession) :
    (mkHandlerWrite cfg sys cs).2.1.socket = cs.socket := by
  unfold mkHandlerWrite
  have := mkRequestParse_socket cs
  grind

/-! ## the handlers -/

section Handlers

variable {cfg : Config} {io : EventIo} {fd : Int} {w : Worker}

/-- A handler's result before the loop looks at the return value. -/
inductive Handled (refused : Prop) (fd : Int) (w : Worker) : Int × Worker → Prop
  | kept {ret : Int} {v : Worker} (hret : 0 ≤ ret) (h : Kept fd w v) : Handled refused fd w (ret, v)
  | ended {v : Worker} (h : Ended refused fd w v) : Handled refused fd w (-1, v)

/-- `mk_conn_read` on a session that is already there. -/
theorem mkConnReadSession_handled {cs : ClientSession} (hcs : mkSessionGet w fd = some cs) :
    Handled (GrowthRefused cfg io fd w) fd w (mkConnReadSession cfg io cs w) := by
  obtain ⟨_, rfl⟩ := mkSessionGet_eq_some hcs
  have hheld := mem_sessionFds_of_get hcs
  unfold mkConnReadSession
  split
  · next status hread =>
      refine .ended ⟨.inl rfl, by simp [mkRequestPrematureClose, Worker.sessionFds, mkSessionRemove,
        map_eraseP_key], .inl hheld, .inr (.inr ⟨⟨cs, hcs, mkHandlerRead_premature hread⟩, _, rfl⟩)⟩
  · exact .ended ⟨.inl rfl, by simp, .inl hheld, .inl rfl⟩
  · next ret cs' hread =>
      obtain ⟨hpos, hround⟩ := mkHandlerRead_done hread
      have hsock : cs'.socket = cs.socket := congrArg Prod.fst hround
      have hsock' := mkHttpPendingRequest_socket cfg cs'
      rcases hp : mkHttpPendingRequest cfg cs' with ⟨pending, cs''⟩
      have hkept : Kept cs.socket w (w.setSession cs'') := ⟨.inl rfl, .inl (by simp), .inl rfl⟩
      simp only [hp] at hsock' ⊢
      split
      · exact .kept (le_of_lt hpos) hkept
      · split
        · exact .ended ⟨.inl rfl, by simp [hsock', hsock], .inl hheld, .inl rfl⟩
        · exact .kept (le_of_lt hpos) hkept

/-- `mk_conn_read` on a session it has just created: the buffer is empty, so no
premature close. -/
theorem mkConnReadSession_created {now : Int} (hs : fd ∉ w.sessionFds)
    (hb : fd ∈ w.sched.busyFds) :
    Handled (GrowthRefused cfg io fd w) fd w (mkConnReadSession cfg io (mkSessionCreate fd now)
      { w with sessions := w.sessions ++ [mkSessionCreate fd now] }) := by
  have hadd : Worker.sessionFds { w with sessions := w.sessions ++ [mkSessionCreate fd now] } =
      w.sessionFds ++ [fd] := by
    simp [Worker.sessionFds, mkSessionCreate]
  have hdrop : (w.sessionFds ++ [fd]).erase fd = w.sessionFds.erase fd := by
    rw [List.erase_append_right _ hs, List.erase_of_not_mem hs]
    simp
  unfold mkConnReadSession
  split
  · next status hread =>
      have := (mkHandlerRead_premature hread).1
      simp [mkSessionCreate, mkRequestChunk, ClientSession.bodyLength] at this
  · refine .ended ⟨.inl rfl, ?_, .inr hb, .inl rfl⟩
    rw [mkSessionRemove_sessionFds, hadd]
    exact hdrop
  · next ret cs' hread =>
      obtain ⟨hpos, hround⟩ := mkHandlerRead_done hread
      have hsock : cs'.socket = fd := congrArg Prod.fst hround
      have hsock' := mkHttpPendingRequest_socket cfg cs'
      have hkept : ∀ cs'', Kept fd w (Worker.setSession
          { w with sessions := w.sessions ++ [mkSessionCreate fd now] } cs'') := fun cs'' =>
        ⟨.inl rfl, .inr ⟨hs, hb, by rw [setSession_sessionFds, hadd]⟩, .inl rfl⟩
      rcases hp : mkHttpPendingRequest cfg cs' with ⟨pending, cs''⟩
      simp only [hp] at hsock' ⊢
      split
      · exact .kept (le_of_lt hpos) (hkept _)
      · split
        · refine .ended ⟨.inl rfl, ?_, .inr hb, .inl rfl⟩
          rw [mkSessionRemove_sessionFds, hadd, hsock', hsock]
          exact hdrop
        · exact .kept (le_of_lt hpos) (hkept _)

/-- `mk_conn_write` on a session. -/
theorem mkConnWriteSession_handled {refused : Prop} {v : Worker} {cs : ClientSession}
    (hslots : SameSlots cs.socket w v) (hsessions : v.sessions = w.sessions) (hlog : v.log = w.log)
    (hheld : cs.socket ∈ w.sessionFds) :
    Handled refused cs.socket w (mkConnWriteSession cfg io cs v) := by
  have hfds : v.sessionFds = w.sessionFds := by rw [Worker.sessionFds, hsessions]; rfl
  have hsock := mkHandlerWrite_socket cfg io.sys cs
  unfold mkConnWriteSession
  split
  next ret cs' out hwrite =>
  rw [hwrite] at hsock
  simp only at hsock
  -- a session is dropped with the output of the walk in the log, or kept
  have hended : Ended refused cs.socket w
      (mkSessionRemove { v with log := .wrote cs'.socket out :: v.log } cs'.socket) := by
    refine ⟨hslots, ?_, .inl hheld, .inr (.inl ⟨out, by simp [hlog, hsock]⟩)⟩
    rw [mkSessionRemove_sessionFds, hsock, ← hfds]
    rfl
  have hkept : ∀ cs'', Kept cs.socket w
      (Worker.setSession { v with log := .wrote cs'.socket out :: v.log } cs'') := by
    intro cs''
    refine ⟨hslots, .inl ?_, .inr ⟨out, by simp [hlog, hsock]⟩⟩
    rw [setSession_sessionFds, ← hfds]
    rfl
  simp only
  split
  · exact .ended hended
  · split
    · unfold mkHttpRequestEnd
      split
      · exact .ended hended
      · exact .kept le_rfl (hkept _)
    · exact .kept le_rfl (hkept _)

end Handlers

/-! ## what a handler does -/

/-- What the handler of an event on `fd` returns and leaves behind. -/
inductive Outcome (cfg : Config) (kind : EpollKind) (io : EventIo) (fd : Int) (w : Worker) :
    Int × Worker → Prop
  | owned : Outcome cfg kind io fd w (mkPluginRetContinue, w)
  | hookClosed (hook : io.hook = .close) : Outcome cfg kind io fd w (-1, w)
  | registered {sched : SchedListNode} (hkind : kind = .read) (hook : io.hook.passes = true)
      (hsession : fd ∉ w.sessionFds) (hslot : fd ∉ w.sched.busyFds)
      (hstage : io.stage10Close = false) (htake : schedTake w.sched fd io.now = some sched) :
      Outcome cfg kind io fd w (0, { w with sched := sched, log := .registered fd :: w.log })
  | rejected (hkind : kind = .read) (hook : io.hook.passes = true)
      (hsession : fd ∉ w.sessionFds) (hslot : fd ∉ w.sched.busyFds)
      (hstage : io.stage10Close = true) :
      Outcome cfg kind io fd w (-1, (mkConnClose io.rejectHook fd w).2)
  | handled {r : Int × Worker} (hkind : kind ≠ .error) (hook : io.hook.passes = true)
      (h : Handled (kind = .read ∧ GrowthRefused cfg io fd w) fd w r) :
      Outcome cfg kind io fd w r
  | errored (hkind : kind = .error) (hook : io.hook.passes = true) :
      Outcome cfg kind io fd w (0, dropClient w fd)

/-- A hook that keeps the event from its handler. -/
theorem outcome_of_hook {cfg : Config} {kind : EpollKind} {io : EventIo} {fd : Int}
    {w : Worker} {r : Int × Worker} {handler : Option (Int × Worker)} (hook : io.hook.passes = false)
    (h : behindHook io.hook w handler = some r) : Outcome cfg kind io fd w r := by
  cases hh : io.hook with
  | owned =>
      simp only [behindHook, hh, Option.some.injEq] at h
      exact h ▸ .owned
  | close =>
      simp only [behindHook, hh, Option.some.injEq] at h
      exact h ▸ .hookClosed hh
  | next => simp [hh, EventRet.passes] at hook
  | «continue» => simp [hh, EventRet.passes] at hook

theorem behindHook_passes {hook : EventRet} (h : hook.passes = true) (w : Worker)
    (handler : Option (Int × Worker)) : behindHook hook w handler = handler := by
  cases hook <;> simp [EventRet.passes] at h <;> rfl

/-- **Every handler ends in one of the outcomes.** -/
theorem handler_outcome {cfg : Config} {kind : EpollKind} {io : EventIo} {fd : Int}
    {w : Worker} {r : Int × Worker} (h : kind.handler cfg io fd w = some r) :
    Outcome cfg kind io fd w r := by
  cases hook : io.hook.passes with
  | false =>
      cases kind <;> exact outcome_of_hook hook h
  | true =>
      cases kind with
      | read =>
          rw [EpollKind.handler, mkConnRead, behindHook_passes hook, mkConnReadCore] at h
          split at h
          · next cs hcs =>
              obtain rfl := Option.some.inj h
              refine .handled (by decide) hook ?_
              simpa using mkConnReadSession_handled hcs
          · next hcs =>
              have hs := mkSessionGet_eq_none.mp hcs
              split at h
              · next hsc =>
                  have hb := mkSchedGetConnection_eq_none.mp hsc
                  unfold mkSchedRegisterClient at h
                  split at h
                  · contradiction
                  · next sched htake =>
                      split at h
                      · next hstage =>
                          obtain rfl := Option.some.inj h
                          exact .rejected rfl hook hs hb hstage
                      · next hstage =>
                          obtain rfl := Option.some.inj h
                          exact .registered rfl hook hs hb (by simpa using hstage) htake
              · next sc hsc =>
                  obtain rfl := Option.some.inj h
                  refine .handled (by decide) hook ?_
                  simpa using mkConnReadSession_created hs (mem_busyFds_of_get hsc)
      | write =>
          rw [EpollKind.handler, mkConnWrite, behindHook_passes hook] at h
          obtain rfl := Option.some.inj h
          refine .handled (by decide) hook ?_
          unfold mkConnWriteCore
          simp only
          split
          · next hcs => exact .kept le_rfl ⟨.inr rfl, .inl rfl, .inl rfl⟩
          · next cs hcs =>
              obtain ⟨_, rfl⟩ := mkSessionGet_eq_some hcs
              exact mkConnWriteSession_handled (.inr rfl) rfl rfl (mem_sessionFds_of_get hcs)
      | error =>
          rw [EpollKind.handler, mkConnError, behindHook_passes hook] at h
          obtain rfl := Option.some.inj h
          exact .errored rfl hook

/-- One turn of the loop: a handler, and a close when it returned a negative
value. -/
theorem mkEpollEvent_outcome {cfg : Config} {kind : EpollKind} {io : EventIo} {fd : Int}
    {w w' : Worker} (h : mkEpollEvent cfg kind io fd w = some w') :
    ∃ r, Outcome cfg kind io fd w r ∧
      w' = if r.1 < 0 then (mkConnClose io.closeHook fd r.2).2 else r.2 := by
  obtain ⟨r, hr, hw'⟩ := Option.map_eq_some_iff.mp h
  exact ⟨r, handler_outcome hr, hw'.symm⟩

/-! ## no descriptor twice -/

/-- No descriptor holds two busy slots and none has two sessions. -/
structure Distinct (w : Worker) : Prop where
  busy : w.sched.busyFds.Nodup
  sessions : w.sessionFds.Nodup

theorem SameSlots.busyFds {fd : Int} {w v : Worker} (h : SameSlots fd w v) :
    v.sched.busyFds = w.sched.busyFds := by
  rcases h with h | h <;> simp [h]

theorem Distinct.remove {w : Worker} {fd : Int} (h : Distinct w) :
    Distinct (mkSchedRemoveClient w fd).2 :=
  ⟨by simpa using h.busy.erase fd, by simpa using h.sessions⟩

theorem Distinct.close {w : Worker} {hook : EventRet} {fd : Int} (h : Distinct w) :
    Distinct (mkConnClose hook fd w).2 := by
  rw [mkConnClose_eq]
  split
  · exact h.remove
  · exact h

theorem Distinct.drop {w : Worker} {fd : Int} (h : Distinct w) : Distinct (dropClient w fd) :=
  ⟨by simpa using h.busy.erase fd, by simpa using h.sessions.erase fd⟩

theorem Distinct.kept {fd : Int} {w v : Worker} (h : Distinct w) (hk : Kept fd w v) :
    Distinct v := by
  refine ⟨hk.sched.busyFds ▸ h.busy, ?_⟩
  rcases hk.sessions with hs | ⟨hnew, _, hs⟩
  · exact hs ▸ h.sessions
  · rw [hs]
    exact h.sessions.append (by simp) (by simpa using hnew)

theorem Distinct.outcome {cfg : Config} {kind : EpollKind} {io : EventIo} {fd : Int}
    {w : Worker} {r : Int × Worker} (h : Distinct w) (ho : Outcome cfg kind io fd w r) :
    Distinct r.2 := by
  cases ho with
  | owned => exact h
  | hookClosed hook => exact h
  | registered hkind hook hsession hslot hstage htake =>
      refine ⟨?_, h.sessions⟩
      rw [schedTake_busyFds htake]
      exact h.busy.append (by simp) (by simpa using hslot)
  | rejected hkind hook hsession hslot hstage => exact h.close
  | handled hkind hook hh =>
      cases hh with
      | kept hret hk => exact h.kept hk
      | ended he => exact ⟨he.sched.busyFds ▸ h.busy, he.sessions ▸ h.sessions.erase fd⟩
  | errored hkind hook => exact h.drop

theorem Distinct.timeouts {cfg : Config} {now : Int} {w : Worker} (h : Distinct w) :
    Distinct (mkSchedCheckTimeouts cfg now w) := by
  refine ⟨?_, ?_⟩
  · rw [mkSchedCheckTimeouts_busyFds h.busy]
    exact h.busy.filter _
  · rw [mkSchedCheckTimeouts_sessionFds h.sessions]
    exact h.sessions.filter _

theorem Distinct.init (cfg : Config) : Distinct (Worker.init cfg) :=
  ⟨List.nodup_nil, List.nodup_nil⟩

theorem Worker.Step.deterministic {cfg : Config} (w : Worker) (e : Event) (w₁ w₂ : Worker)
    (h₁ : Worker.Step cfg w e w₁) (h₂ : Worker.Step cfg w e w₂) : w₁ = w₂ :=
  Option.some.inj (h₁.symm.trans h₂)

end Monkey
