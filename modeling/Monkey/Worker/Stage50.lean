import Monkey.Lib.Run
import Monkey.Worker.Outcome

/-!
# Monkey.Worker.Stage50

The STAGE_50 hook over whole runs of a worker.  The scheduler runs it when it
releases a slot; `mk_request_premature_close` runs it too, before the loop closes
the connection and the scheduler runs it again.  A connection therefore gets it
exactly once unless a read event finds the buffer of its session full and may not
grow it.
-/

namespace Monkey

/-- How often STAGE_50 has been run with `fd` since a connection was last
registered on it; `none` before the first registration. -/
def stage50Runs : List Call → Int → Option Nat
  | [], _ => none
  | .registered f :: l, fd => if f = fd then some 0 else stage50Runs l fd
  | .stage50 f :: l, fd => (stage50Runs l fd).map (· + if f = fd then 1 else 0)
  | _ :: l, fd => stage50Runs l fd

/-- For every registered connection, STAGE_50 has been run once if it has ended
and not at all while it holds its slot. -/
def Stage50Once (w : Worker) : Prop :=
  ∀ fd n, stage50Runs w.log fd = some n → n = if fd ∈ w.sched.busyFds then 0 else 1

/-- The event is not a read into a buffer that may not grow. -/
def NoPrematureClose (cfg : Config) (w : Worker) : Event → Prop
  | .epoll kind io fd => kind = .read → io.hook.passes = true → ¬ GrowthRefused cfg io fd w
  | _ => True

instance (cfg : Config) (w : Worker) : (e : Event) → Decidable (NoPrematureClose cfg w e)
  | .assign _ => inferInstanceAs (Decidable True)
  | .epoll kind io fd => inferInstanceAs (Decidable
      (kind = .read → io.hook.passes = true → ¬ GrowthRefused cfg io fd w))
  | .checkTimeouts _ => inferInstanceAs (Decidable True)

/-- The invariant: besides the count, everything that can end was registered. -/
structure Stage50 (w : Worker) : Prop extends Distinct w where
  once : Stage50Once w
  busy_registered : ∀ fd ∈ w.sched.busyFds, (stage50Runs w.log fd).isSome
  session_registered : ∀ fd ∈ w.sessionFds, (stage50Runs w.log fd).isSome

/-! ## the operations -/

/-- A removal runs STAGE_50 once, when a slot holds the descriptor. -/
theorem mkSchedRemoveClient_stage50Runs (w : Worker) (fd x : Int) :
    stage50Runs (mkSchedRemoveClient w fd).2.log x =
      (stage50Runs w.log x).map (· + if x = fd ∧ fd ∈ w.sched.busyFds then 1 else 0) := by
  rw [mkSchedRemoveClient_log]
  by_cases hb : fd ∈ w.sched.busyFds
  · simp [hb, stage50Runs, eq_comm]
  · simp [hb, stage50Runs]

theorem Stage50.remove {w : Worker} (h : Stage50 w) (fd : Int) :
    Stage50 (mkSchedRemoveClient w fd).2 := by
  refine ⟨h.toDistinct.remove, ?_, ?_, ?_⟩
  · intro x n hn
    rw [mkSchedRemoveClient_stage50Runs] at hn
    obtain ⟨m, hm, rfl⟩ := Option.map_eq_some_iff.mp hn
    have := h.once x m hm
    simp only [mkSchedRemoveClient_sched, schedRelease_busyFds, h.busy.mem_erase_iff]
    by_cases hx : x = fd
    · subst hx
      by_cases hb : x ∈ w.sched.busyFds <;> simp_all
    · simpa [hx] using this
  · intro x hx
    rw [mkSchedRemoveClient_stage50Runs, Option.isSome_map]
    simp only [mkSchedRemoveClient_sched, schedRelease_busyFds] at hx
    exact h.busy_registered x (List.mem_of_mem_erase hx)
  · intro x hx
    rw [mkSchedRemoveClient_stage50Runs, Option.isSome_map]
    exact h.session_registered x (by simpa using hx)

theorem Stage50.sessionRemove {w : Worker} (h : Stage50 w) (fd : Int) :
    Stage50 (mkSessionRemove w fd) := by
  refine ⟨⟨h.busy, by simpa using h.sessions.erase fd⟩, h.once, h.busy_registered, ?_⟩
  intro x hx
  exact h.session_registered x (List.mem_of_mem_erase (by simpa using hx))

theorem Stage50.drop {w : Worker} (h : Stage50 w) (fd : Int) : Stage50 (dropClient w fd) :=
  (h.remove fd).sessionRemove fd

theorem Stage50.close {w : Worker} (h : Stage50 w) (hook : EventRet) (fd : Int) :
    Stage50 (mkConnClose hook fd w).2 := by
  rw [mkConnClose_eq]
  split
  · exact h.remove fd
  · exact h

/-- The two loops of a timeout check. -/
theorem Stage50.timeouts {w : Worker} (h : Stage50 w) (cfg : Config) (now : Int) :
    Stage50 (mkSchedCheckTimeouts cfg now w) := by
  have hpending : Stage50 (checkPending cfg now w) :=
    List.foldlRecOn _ _ h fun v hv sc _ => hv.remove sc.socket
  exact List.foldlRecOn _ _ hpending fun v hv cs _ => hv.drop cs.socket

/-! ## one step -/

theorem Kept.stage50Runs_eq {fd : Int} {w v : Worker} (h : Kept fd w v) (x : Int) :
    stage50Runs v.log x = stage50Runs w.log x := by
  rcases h.log with hlog | ⟨out, hlog⟩ <;> simp [hlog, stage50Runs]

theorem Stage50.kept {fd : Int} {w v : Worker} (h : Stage50 w) (hk : Kept fd w v) : Stage50 v := by
  have hb := hk.sched.busyFds
  have hr := hk.stage50Runs_eq
  refine ⟨h.toDistinct.kept hk, ?_, ?_, ?_⟩
  · intro x n hn
    rw [hb]
    exact h.once x n (hr x ▸ hn)
  · intro x hx
    rw [hr]
    exact h.busy_registered x (hb ▸ hx)
  · intro x hx
    rw [hr]
    rcases hk.sessions with hs | ⟨_, hslot, hs⟩
    · exact h.session_registered x (hs ▸ hx)
    · rw [hs, List.mem_append, List.mem_singleton] at hx
      rcases hx with hx | rfl
      · exact h.session_registered x hx
      · exact h.busy_registered x hslot

/-- A session that ends without a premature close. -/
theorem Stage50.ended {refused : Prop} {fd : Int} {w v : Worker} (h : Stage50 w)
    (he : Ended refused fd w v) (hno : ¬ refused) : Stage50 v := by
  have hb := he.sched.busyFds
  have hr : ∀ x, stage50Runs v.log x = stage50Runs w.log x := by
    intro x
    rcases he.log with hlog | ⟨out, hlog⟩ | ⟨href, _⟩
    · rw [hlog]
    · simp [hlog, stage50Runs]
    · contradiction
  refine ⟨⟨hb ▸ h.busy, he.sessions ▸ h.sessions.erase fd⟩, ?_, ?_, ?_⟩
  · intro x n hn
    rw [hb]
    exact h.once x n (hr x ▸ hn)
  · intro x hx
    rw [hr]
    exact h.busy_registered x (hb ▸ hx)
  · intro x hx
    rw [hr]
    exact h.session_registered x (List.mem_of_mem_erase (he.sessions ▸ hx))

theorem Stage50.registered {w : Worker} {fd now : Int} {sched : SchedListNode} (h : Stage50 w)
    (hslot : fd ∉ w.sched.busyFds) (htake : schedTake w.sched fd now = some sched) :
    Stage50 { w with sched := sched, log := .registered fd :: w.log } := by
  have hb := schedTake_busyFds htake
  refine ⟨⟨?_, h.sessions⟩, ?_, ?_, ?_⟩
  · rw [hb]
    exact h.busy.append (by simp) (by simpa using hslot)
  · intro x n hn
    rw [hb]
    by_cases hx : fd = x
    · simp_all [stage50Runs]
    · have := h.once x n (by simpa [stage50Runs, hx] using hn)
      simpa [Ne.symm hx] using this
  · intro x hx
    rw [hb, List.mem_append, List.mem_singleton] at hx
    rcases hx with hx | rfl
    · simp only [stage50Runs]
      split
      · rfl
      · exact h.busy_registered x hx
    · simp [stage50Runs]
  · intro x hx
    simp only [stage50Runs]
    split
    · rfl
    · exact h.session_registered x hx

/-- **Step lemma.** -/
theorem Stage50.step {cfg : Config} {w w' : Worker} {e : Event} (h : Stage50 w)
    (hno : NoPrematureClose cfg w e) (hstep : Worker.Step cfg w e w') : Stage50 w' := by
  cases e with
  | assign fd =>
      cases hstep
      exact ⟨⟨h.busy, h.sessions⟩, h.once, h.busy_registered, h.session_registered⟩
  | epoll kind io fd =>
      obtain ⟨r, ho, rfl⟩ := mkEpollEvent_outcome hstep
      have hr : Stage50 r.2 := by
        cases ho with
        | owned => exact h
        | hookClosed hook => exact h
        | registered hkind hook hsession hslot hstage htake => exact h.registered hslot htake
        | rejected hkind hook hsession hslot hstage => exact h.close _ fd
        | handled hkind hook hh =>
            cases hh with
            | kept hret hk => exact h.kept hk
            | ended he => exact h.ended he fun hrefused => hno hrefused.1 hook hrefused.2
        | errored hkind hook => exact h.drop fd
      split
      · exact hr.close _ fd
      · exact hr
  | checkTimeouts now =>
      cases hstep
      exact h.timeouts cfg now

theorem Stage50.init (cfg : Config) : Stage50 (Worker.init cfg) :=
  ⟨.init cfg, fun _ _ h => by contradiction, fun _ h => absurd h List.not_mem_nil,
    fun _ h => absurd h List.not_mem_nil⟩

/-! ## the exact condition -/

/-- A refused growth ends in a premature close. -/
theorem mkHandlerRead_of_refused {cfg : Config} {ok : Bool} (rd : SocketRead) {cs : ClientSession}
    (hfull : cs.bodySize ≤ cs.bodyLength)
    (h : (cs.bodySize + mkRequestChunk : Int) ≥ cfg.maxRequestSize ∨
      (cs.bodyFixed = false ∧ ok = false)) :
    ∃ status, mkHandlerRead cfg ok rd cs = .premature status := by
  have hgrow : ∃ status, mkHandlerReadGrow cfg ok cs = .error status := by
    unfold mkHandlerReadGrow
    rw [if_pos (by omega)]
    simp only [Nat.cast_add]
    by_cases hmax : (cs.bodySize + mkRequestChunk : Int) ≥ cfg.maxRequestSize
    · exact ⟨_, by rw [if_pos hmax]⟩
    · obtain ⟨hfixed, hok⟩ := h.resolve_left hmax
      exact ⟨_, by rw [if_neg hmax, hfixed, hok]; rfl⟩
  obtain ⟨status, hgrow⟩ := hgrow
  exact ⟨status, by rw [mkHandlerRead, hgrow]⟩

/-- A step after which STAGE_50 has been run once for every ended connection. -/
theorem noPrematureClose_of_step {cfg : Config} {w w' : Worker} {e : Event} (h : Stage50 w)
    (hstep : Worker.Step cfg w e w') (honce : Stage50Once w') : NoPrematureClose cfg w e := by
  cases e with
  | assign fd => trivial
  | checkTimeouts now => trivial
  | epoll kind io fd =>
      rintro rfl hook ⟨cs, hcs, hfull, hrefused⟩
      obtain ⟨status, hread⟩ := mkHandlerRead_of_refused io.read hfull hrefused
      obtain ⟨_, rfl⟩ := mkSessionGet_eq_some hcs
      have hs : mkEpollEvent cfg .read io cs.socket w = some w' := hstep
      rw [mkEpollEvent, EpollKind.handler, mkConnRead, behindHook_passes hook, mkConnReadCore,
        hcs] at hs
      simp only [mkConnReadSession, hread, Option.map_some, Option.some.injEq] at hs
      rw [if_pos (by decide)] at hs
      subst hs
      -- the premature close has counted one more run than the slot allows
      obtain ⟨n, hn⟩ := Option.isSome_iff_exists.mp
        (h.session_registered _ (mem_sessionFds_of_get hcs))
      have hw := h.once _ n hn
      have hv : stage50Runs (mkRequestPrematureClose cfg io.sys status cs w).log cs.socket =
          some (n + 1) := by
        simp [mkRequestPrematureClose, stage50Runs, hn]
      have hsched : (mkRequestPrematureClose cfg io.sys status cs w).sched = w.sched := rfl
      rw [mkConnClose_eq] at honce
      by_cases hclose : io.closeHook.passes = true
      · rw [if_pos hclose] at honce
        have := honce cs.socket _ (by rw [mkSchedRemoveClient_stage50Runs, hv, Option.map_some])
        rw [mkSchedRemoveClient_sched, schedRelease_busyFds, hsched,
          if_neg h.busy.not_mem_erase] at this
        by_cases hb : cs.socket ∈ w.sched.busyFds <;> simp_all
      · rw [if_neg hclose] at honce
        have := honce cs.socket _ hv
        rw [hsched] at this
        by_cases hb : cs.socket ∈ w.sched.busyFds <;> simp_all

/-- **STAGE_50**: in a run of a worker the hook is run exactly once for every
registered connection that has ended, and not before its end, if and only if no
read event finds a full buffer that may not grow. -/
theorem stage50_once_iff {cfg : Config} {es : List Event} {w : Worker}
    (h : Run (Worker.Step cfg) (Worker.init cfg) es w) :
    (∀ es' w', es' <+: es → Run (Worker.Step cfg) (Worker.init cfg) es' w' → Stage50Once w') ↔
      Run (Guarded (NoPrematureClose cfg) (Worker.Step cfg)) (Worker.init cfg) es w :=
  Run.always_iff_guarded Worker.Step.deterministic (fun _ _ _ hi hp hs => hi.step hp hs)
    (fun _ hi => hi.once) (fun _ _ _ hi hs hq => noPrematureClose_of_step hi hs hq)
    (Stage50.init cfg) h

/- A client that is served and then times out between two requests. -/

/-- The events of that client. -/
def idleAfterRequest : List Event :=
  [.assign 5, .epoll .read { now := 0, sys := sampleSys } 5,
    .epoll .read { now := 1, read := .data sampleRequest, sys := sampleSys } 5,
    .epoll .write { now := 1, sys := sampleSys } 5, .checkTimeouts 15]

theorem stage50_once_idleAfterRequest :
    ∃ w, Run (Worker.Step sampleConfig) (Worker.init sampleConfig) idleAfterRequest w ∧
      ∀ es' w', es' <+: idleAfterRequest →
        Run (Worker.Step sampleConfig) (Worker.init sampleConfig) es' w' → Stage50Once w' := by
  have hrun : Run (Guarded (NoPrematureClose sampleConfig) (Worker.Step sampleConfig))
      (Worker.init sampleConfig) idleAfterRequest _ := Run.guarded_of_foldlM rfl
  exact ⟨_, hrun.of_guarded, (stage50_once_iff hrun.of_guarded).mpr hrun⟩

/- A client that sends more than the server takes, on a server that takes less
than two chunks. -/

/-- The events of that client. -/
def oversizeRequest : List Event :=
  [.assign 5, .epoll .read { now := 0, sys := sampleSys } 5,
    .epoll .read { now := 1, read := .data (List.replicate 4096 0x41), sys := sampleSys } 5,
    .epoll .read { now := 1, read := .data [0x41], sys := sampleSys } 5]

set_option maxRecDepth 100000 in
/-- Its connection ends with STAGE_50 run twice. -/
theorem oversizeRequest_stage50_twice :
    ¬ ∀ (cfg : Config) (es : List Event) (w : Worker),
      Run (Worker.Step cfg) (Worker.init cfg) es w → Stage50Once w := by
  intro hall
  let cfg : Config := { sampleConfig with maxRequestSize := 8000 }
  have hend : ((oversizeRequest.foldlM (Worker.step cfg) (Worker.init cfg)).map
      fun w => (w.sched.busyFds, stage50Runs w.log 5)) = some ([], some 2) := by decide +kernel
  obtain ⟨w, hw, hlog⟩ := Option.map_eq_some_iff.mp hend
  have honce := hall cfg oversizeRequest w (Run.of_foldlM hw) 5 2 (Prod.mk.inj hlog).2
  simp [(Prod.mk.inj hlog).1] at honce

end Monkey
