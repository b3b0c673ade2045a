import Monkey.System.Ops
import Monkey.System.Model

/-!
# Monkey.System.Slots

The connection slots of every worker under any interleaving of the threads.  The
listener compares a load it has read some time ago; since then workers can only
have made it smaller, so the descriptors handed to a worker never exceed its
slots, and a worker that registers a descriptor finds one to take.
-/

namespace Monkey

/-! ## worker steps as scheduler operations -/

/-- From `w` to `v` by scheduler operations; the closed descriptors are no longer
known. -/
def Moves (known : Finset Int) (w v : Worker) : Prop :=
  ∃ l, v.log = l ++ w.log ∧ SchedOps w.sched known v.sched (known.filter (· ∉ closesIn l))

theorem newCloses_of_append {w v : Worker} {l : List Call} (h : v.log = l ++ w.log) :
    newCloses w v = closesIn l := by
  simp [newCloses, h]

theorem Moves.ops {known : Finset Int} {w v : Worker} (h : Moves known w v) :
    SchedOps w.sched known v.sched (known.filter (· ∉ newCloses w v)) := by
  obtain ⟨l, hl, hops⟩ := h
  rwa [newCloses_of_append hl]

theorem Moves.refl (known : Finset Int) (w : Worker) : Moves known w w :=
  ⟨[], rfl, by simpa [closesIn] using .refl⟩

/-- The log and the scheduler node are all that counts. -/
theorem Moves.congr {known : Finset Int} {w v v' : Worker} (h : Moves known w v)
    (hs : v'.sched = v.sched) (hl : v'.log = v.log) : Moves known w v' := by
  obtain ⟨l, hlog, hops⟩ := h
  exact ⟨l, hl.trans hlog, hs ▸ hops⟩

/-- One more descriptor closed. -/
theorem filter_closesIn_cons (known : Finset Int) (fd : Int) (fds : List Int) :
    known.filter (· ∉ fd :: fds) = (known.filter (· ∉ fds)).erase fd := by
  ext x
  simp only [Finset.mem_filter, Finset.mem_erase, List.mem_cons]
  tauto

theorem Moves.remove {known : Finset Int} {w v : Worker} (h : Moves known w v) (fd : Int) :
    Moves known w (mkSchedRemoveClient v fd).2 := by
  obtain ⟨l, hlog, hops⟩ := h
  have hrel := hops.release fd
  rw [← filter_closesIn_cons] at hrel
  by_cases hb : fd ∈ v.sched.busyFds
  · refine ⟨.released fd :: .stage50 fd :: .close fd :: l, ?_, ?_⟩
    · rw [mkSchedRemoveClient_log, if_pos hb, hlog]
      rfl
    · rw [mkSchedRemoveClient_sched]
      exact hrel
  · refine ⟨.close fd :: l, ?_, ?_⟩
    · rw [mkSchedRemoveClient_log, if_neg hb, hlog]
      rfl
    · rw [mkSchedRemoveClient_sched]
      exact hrel

theorem Moves.drop {known : Finset Int} {w v : Worker} (h : Moves known w v) (fd : Int) :
    Moves known w (dropClient v fd) :=
  (h.remove fd).congr rfl rfl

theorem Moves.close {known : Finset Int} {w v : Worker} (h : Moves known w v) (hook : EventRet)
    (fd : Int) : Moves known w (mkConnClose hook fd v).2 := by
  rw [mkConnClose_eq]
  split
  · exact h.remove fd
  · exact h

theorem Moves.timeouts (known : Finset Int) (w : Worker) (cfg : Config) (now : Int) :
    Moves known w (mkSchedCheckTimeouts cfg now w) := by
  have hpending : Moves known w (checkPending cfg now w) :=
    List.foldlRecOn _ _ (.refl known w) fun v hv sc _ => hv.remove sc.socket
  exact List.foldlRecOn _ _ hpending fun v hv cs _ => hv.drop cs.socket

/-- A handler that touches no queue and closes nothing. -/
theorem SameSlots.moves {known : Finset Int} {fd : Int} {w v : Worker} (h : SameSlots fd w v)
    {l : List Call} (hl : v.log = l ++ w.log) (hc : closesIn l = []) : Moves known w v := by
  refine ⟨l, hl, ?_⟩
  rw [hc]
  simp only [List.not_mem_nil, not_false_eq_true, Finset.filter_true]
  rcases h with h | h
  · rw [h]
    exact .refl
  · rw [h]
    exact .status .refl fd .process

/-- A handler on a session writes and runs hooks, and closes nothing. -/
theorem Handled.calls {refused : Prop} {fd : Int} {w : Worker} {r : Int × Worker}
    (h : Handled refused fd w r) :
    SameSlots fd w r.2 ∧ ∃ l, r.2.log = l ++ w.log ∧ closesIn l = [] := by
  cases h with
  | kept hret hk =>
      refine ⟨hk.sched, ?_⟩
      rcases hk.log with hlog | ⟨out, hlog⟩
      · exact ⟨[], hlog, rfl⟩
      · exact ⟨[.wrote fd out], hlog, rfl⟩
  | ended he =>
      refine ⟨he.sched, ?_⟩
      rcases he.log with hlog | ⟨out, hlog⟩ | ⟨_, out, hlog⟩
      · exact ⟨[], hlog, rfl⟩
      · exact ⟨[.wrote fd out], hlog, rfl⟩
      · exact ⟨[.stage50 fd, .wrote fd out], hlog, rfl⟩

/-- **Every handler is a sequence of scheduler operations.** -/
theorem Outcome.moves {cfg : Config} {kind : EpollKind} {io : EventIo} {fd : Int}
    {w : Worker} {r : Int × Worker} {known : Finset Int} (h : Outcome cfg kind io fd w r)
    (hfd : fd ∈ known) : Moves known w r.2 := by
  cases h with
  | owned => exact .refl known w
  | hookClosed hook => exact .refl known w
  | registered hkind hook hsession hslot hstage htake =>
      refine ⟨[.registered fd], rfl, ?_⟩
      simp only [closesIn, List.filterMap_cons, List.filterMap_nil, List.not_mem_nil,
        not_false_eq_true, Finset.filter_true]
      exact .take .refl hfd hslot htake
  | rejected hkind hook hsession hslot hstage => exact (Moves.refl known w).close io.rejectHook fd
  | handled hkind hook h =>
      obtain ⟨hslots, l, hlog, hc⟩ := h.calls
      exact hslots.moves hlog hc
  | errored hkind hook => exact (Moves.refl known w).drop fd

/-- A removal closes its descriptor. -/
theorem mkSchedRemoveClient_newCloses (w : Worker) (fd : Int) :
    newCloses w (mkSchedRemoveClient w fd).2 = [fd] := by
  have hlog := mkSchedRemoveClient_log w fd
  by_cases hb : fd ∈ w.sched.busyFds
  · rw [if_pos hb] at hlog
    rw [newCloses_of_append (l := [.released fd, .stage50 fd, .close fd]) hlog]
    rfl
  · rw [if_neg hb] at hlog
    rw [newCloses_of_append (l := [.close fd]) hlog]
    rfl

theorem mkConnClose_newCloses {hook : EventRet} {fd x : Int} {w : Worker}
    (h : x ∈ newCloses w (mkConnClose hook fd w).2) : x = fd ∧ hook.passes = true := by
  rw [mkConnClose_eq] at h
  split at h
  · next hpass => exact ⟨by simpa [mkSchedRemoveClient_newCloses] using h, hpass⟩
  · simp [newCloses, closesIn] at h

/-- A handler closes no descriptor but its own. -/
theorem Outcome.newCloses_eq {cfg : Config} {kind : EpollKind} {io : EventIo} {fd x : Int}
    {w : Worker} {r : Int × Worker} (h : Outcome cfg kind io fd w r)
    (hx : x ∈ newCloses w r.2) : x = fd := by
  cases h with
  | owned => simp [newCloses, closesIn] at hx
  | hookClosed hook => simp [newCloses, closesIn] at hx
  | registered hkind hook hsession hslot hstage htake =>
      rw [newCloses_of_append (l := [.registered fd]) rfl] at hx
      simp [closesIn] at hx
  | rejected hkind hook hsession hslot hstage => exact (mkConnClose_newCloses hx).1
  | handled hkind hook h =>
      obtain ⟨_, l, hlog, hc⟩ := h.calls
      rw [newCloses_of_append hlog, hc] at hx
      contradiction
  | errored hkind hook => exact (@mkConnClose_newCloses .continue fd x w hx).1

/-! ## the listener's choice -/

/-- The loop of `_next_target` returns the worker whose load it kept. -/
theorem nextTargetLoop_spec {i target t : Nat} {cur c : UInt64} {loads : List UInt64}
    (h : nextTargetLoop i target cur loads = (t, c)) :
    (t = target ∧ c = cur) ∨ (i ≤ t ∧ loads[t - i]? = some c) := by
  induction loads generalizing i target cur with
  | nil =>
      simp only [nextTargetLoop, Prod.mk.injEq] at h
      exact .inl ⟨h.1.symm, h.2.symm⟩
  | cons tmp loads ih =>
      have hnext : ∀ {j}, i + 1 ≤ j → loads[j - (i + 1)]? = some c →
          i ≤ j ∧ (tmp :: loads)[j - i]? = some c := by
        intro j hj hc
        refine ⟨by omega, ?_⟩
        rw [show j - i = (j - (i + 1)) + 1 by omega, List.getElem?_cons_succ]
        exact hc
      rw [nextTargetLoop] at h
      split at h
      · split at h
        · simp only [Prod.mk.injEq] at h
          exact .inr ⟨by omega, by simp [← h.1, ← h.2]⟩
        · rcases ih h with ⟨rfl, rfl⟩ | ⟨ht, hc⟩
          · exact .inr ⟨le_rfl, by simp⟩
          · exact .inr (hnext ht hc)
      · rcases ih h with hsame | ⟨ht, hc⟩
        · exact .inl hsame
        · exact .inr (hnext ht hc)

/-- The chosen worker's load, as it was read, is below the capacity. -/
theorem nextTarget_spec {cfg : Config} {seen : List UInt64} {t : Nat}
    (hcap : 1 ≤ cfg.workerCapacity.toNat) (h : nextTarget cfg seen = some t) :
    ∃ load, seen[t]? = some load ∧ load.toNat < cfg.workerCapacity.toNat := by
  cases seen with
  | nil => contradiction
  | cons cur loads =>
      rw [nextTarget] at h
      split at h
      · next hzero =>
          obtain rfl := Option.some.inj h
          exact ⟨cur, rfl, by rw [hzero]; exact hcap⟩
      · split at h
        next target c hloop =>
        split at h
        · contradiction
        · next hlt =>
            obtain rfl := Option.some.inj h
            refine ⟨c, ?_, by simpa [UInt64.le_iff_toNat_le] using hlt⟩
            rcases nextTargetLoop_spec hloop with ⟨rfl, rfl⟩ | ⟨ht, hc⟩
            · rfl
            · rw [show target = (target - 1) + 1 by omega, List.getElem?_cons_succ]
              exact hc

/-! ## the invariant -/

/-- The connection the listener has handed to worker `i` and not yet counted. -/
def Listener.pend (l : Listener) (i : Nat) : UInt64 :=
  match l with
  | .added _ target => if target = i then 1 else 0
  | _ => 0

/-- The load of worker `i`. -/
def System.load (s : System) (i : Nat) : UInt64 := (s.procs i).worker.sched.load

/-- A worker whose queues and counters fit the descriptors it can get events
for. -/
structure ProcOk (cfg : Config) (pend : UInt64) (p : Proc) : Prop where
  slots : SlotsOk cfg.workerCapacity.toNat p.worker.sched
  bounded : Bounded cfg.workerCapacity.toNat pend p.worker.sched (p.interest ∪ p.ready.toFinset)
  ready : p.ready.Nodup
  closing : ∀ fd hook, p.closing = some (fd, hook) → fd ∉ p.ready

/-- What the listener has read is an upper bound of the loads. -/
def ListenerOk (cfg : Config) (load : Nat → UInt64) : Listener → Prop
  | .idle => True
  | .scan _ seen => seen.length ≤ cfg.workers ∧
      ∀ i l, seen[i]? = some l → (load i).toNat ≤ l.toNat
  | .chosen _ target => target < cfg.workers ∧
      (load target).toNat < cfg.workerCapacity.toNat
  | .added _ target => target < cfg.workers

structure SystemOk (cfg : Config) (s : System) : Prop where
  procs : ∀ i < cfg.workers, ProcOk cfg (s.listener.pend i) (s.procs i)
  listener : ListenerOk cfg s.load s.listener

/-- The loads may go down, except while a connection is not counted. -/
theorem ListenerOk.mono {cfg : Config} {load load' : Nat → UInt64} {l : Listener} {i : Nat}
    (h : ListenerOk cfg load l) (hother : ∀ j ≠ i, load' j = load j)
    (hle : l.pend i = 0 → (load' i).toNat ≤ (load i).toNat) : ListenerOk cfg load' l := by
  have hall : l.pend i = 0 → ∀ j, (load' j).toNat ≤ (load j).toNat := by
    intro hpend j
    by_cases hji : j = i
    · exact hji ▸ hle hpend
    · rw [hother j hji]
  cases l with
  | idle => trivial
  | scan fd seen => exact ⟨h.1, fun j l hj => (hall rfl j).trans (h.2 j l hj)⟩
  | chosen fd target => exact ⟨h.1, (hall rfl target).trans_lt h.2⟩
  | added fd target => exact h

theorem ProcOk.mono {cfg : Config} {pend : UInt64} {p p' : Proc} (h : ProcOk cfg pend p)
    (hw : p'.worker = p.worker) (hi : p'.interest ⊆ p.interest) (hr : p'.ready = p.ready)
    (hc : p'.closing = p.closing) : ProcOk cfg pend p' := by
  refine ⟨hw ▸ h.slots, ?_, hr ▸ h.ready, ?_⟩
  · rw [hw, hr]
    exact h.bounded.mono (Finset.union_subset_union_left hi)
  · rw [hc, hr]
    exact h.closing

/-- A kernel close keeps the invariant. -/
theorem SystemOk.closeFds {cfg : Config} {s : System} (h : SystemOk cfg s) (fds : List Int) :
    SystemOk cfg (s.closeFds fds) :=
  ⟨fun i hi => (h.procs i hi).mono rfl (Finset.filter_subset _ _) rfl rfl, h.listener⟩

/-- A step of worker `i` keeps the invariant: it works on what it knows, and does
not keep an event for a descriptor it has closed. -/
theorem SystemOk.proceed {cfg : Config} {s : System} {i : Nat} {p : Proc} (h : SystemOk cfg s)
    (hi : i < cfg.workers)
    (hmoves : Moves ((s.procs i).interest ∪ (s.procs i).ready.toFinset) (s.procs i).worker p.worker)
    (hinterest : p.interest = (s.procs i).interest) (hsub : p.ready ⊆ (s.procs i).ready)
    (hnodup : p.ready.Nodup)
    (hclosed : ∀ fd ∈ p.ready, fd ∉ newCloses (s.procs i).worker p.worker)
    (hclosing : ∀ fd hook, p.closing = some (fd, hook) → fd ∉ p.ready) :
    SystemOk cfg (s.proceed i p) := by
  have hproc := h.procs i hi
  obtain ⟨hbounded, hload⟩ := hmoves.ops.bounded hproc.slots hproc.bounded
  refine ⟨fun j hj => ?_, ?_⟩
  · by_cases hji : j = i
    · subst hji
      simp only [System.proceed, System.closeFds, System.setProc, Function.update_self]
      refine ⟨hmoves.ops.slotsOk hproc.slots, hbounded.mono ?_, hnodup, hclosing⟩
      intro x hx
      simp only [Finset.mem_union, Finset.mem_filter, List.mem_toFinset, hinterest] at hx ⊢
      rcases hx with ⟨hx, hnot⟩ | hx
      · exact ⟨.inl hx, hnot⟩
      · exact ⟨.inr (hsub hx), hclosed x hx⟩
    · have hother : ProcOk cfg (s.listener.pend j) ((s.proceed i p).procs j) := (h.procs j hj).mono
        (by simp [System.proceed, System.closeFds, System.setProc, hji])
        (by simp [System.proceed, System.closeFds, System.setProc, hji])
        (by simp [System.proceed, System.closeFds, System.setProc, hji])
        (by simp [System.proceed, System.closeFds, System.setProc, hji])
      exact hother
  -- the loads the listener has read are those of the workers, or larger
  · refine h.listener.mono (i := i) (fun j hji => ?_) fun hpend => ?_
    · simp [System.load, System.proceed, System.closeFds, System.setProc, hji]
    · have hpend' : s.listener.pend i = 0 := hpend
      rw [hpend', UInt64.add_zero, UInt64.add_zero] at hload
      simpa [System.load, System.proceed, System.closeFds, System.setProc] using hload

/-! ## one step -/

/-- Another load is read. -/
theorem ListenerOk.readLoad {cfg : Config} {load : Nat → UInt64} {fd : Int} {seen : List UInt64}
    (h : ListenerOk cfg load (.scan fd seen)) (hscan : scanDone cfg seen = false) :
    ListenerOk cfg load (.scan fd (seen ++ [load seen.length])) := by
  obtain ⟨hlen, hseen⟩ := h
  have hne : seen.length ≠ cfg.workers := by
    intro heq
    simp [scanDone, heq] at hscan
  refine ⟨by simp only [List.length_append, List.length_singleton]; omega, fun i l hi => ?_⟩
  by_cases hlast : i = seen.length
  · subst hlast
    simp only [List.getElem?_concat_length, Option.some.injEq] at hi
    rw [← hi]
  · refine hseen i l ?_
    rw [← hi, List.getElem?_append_left]
    have := (List.getElem?_eq_some_iff.mp hi).1
    rw [List.length_append, List.length_singleton] at this
    omega

/-- The listener closes the descriptor it could not hand over. -/
theorem SystemOk.giveUp {cfg : Config} {s : System} (h : SystemOk cfg s) (fd : Int)
    (hpend : ∀ i, s.listener.pend i = 0) :
    SystemOk cfg { s.closeFds [fd] with listener := .idle } := by
  refine ⟨fun i hi => ?_, trivial⟩
  have hproc : ProcOk cfg (s.listener.pend i) ((s.closeFds [fd]).procs i) :=
    (h.closeFds [fd]).procs i hi
  rw [hpend i] at hproc
  exact hproc

/-- The listener's own steps. -/
theorem SystemOk.listen {cfg : Config} {s s' : System} {a : Act}
    (hcap : 1 ≤ cfg.workerCapacity.toNat) (h : SystemOk cfg s) (hs : s.listen cfg a = some s') :
    SystemOk cfg s' := by
  have hprocs := h.procs
  have hlistener := h.listener
  cases System.listens_of_listen hs with
  | accept hl hnew =>
      rw [hl] at hprocs
      exact ⟨hprocs, Nat.zero_le _, fun i l hi => by simp at hi⟩
  | readLoad hl hscan =>
      rw [hl] at hprocs hlistener
      exact ⟨hprocs, hlistener.readLoad hscan⟩
  | choose hl htarget =>
      rw [hl] at hprocs hlistener
      obtain ⟨load, hload, hlt⟩ := nextTarget_spec hcap htarget
      have hin := (List.getElem?_eq_some_iff.mp hload).1
      exact ⟨hprocs, by have := hlistener.1; omega, (hlistener.2 _ load hload).trans_lt hlt⟩
  | full hl => exact h.giveUp _ (by simp [hl, Listener.pend])
  | @handOver fd target hl =>
      rw [hl] at hprocs hlistener
      obtain ⟨ht, hlt⟩ := hlistener
      refine ⟨fun i hi => ?_, ht⟩
      by_cases hit : i = target
      · subst hit
        simp only [System.setProc, Function.update_self, Listener.pend]
        have hproc := hprocs i hi
        exact ⟨hproc.slots, hproc.bounded.handOver hlt
          (cfg.workerCapacity.toNat_lt.trans (by decide)) fd, hproc.ready, hproc.closing⟩
      · simpa [System.setProc, hit, Listener.pend, Ne.symm hit] using hprocs i hi
  | refused hl => exact h.giveUp _ (by simp [hl, Listener.pend])
  | @count fd target hl =>
      rw [hl] at hprocs
      refine ⟨fun i hi => ?_, trivial⟩
      by_cases hit : i = target
      · subst hit
        have hproc := hprocs i hi
        simp only [Listener.pend, if_true] at hproc
        simp only [System.setProc, Function.update_self, Listener.pend]
        refine ⟨⟨hproc.slots.slots, hproc.slots.available, hproc.slots.busy⟩, ?_, hproc.ready,
          hproc.closing⟩
        exact hproc.bounded.count fd
      · simpa [System.setProc, hit, Listener.pend, Ne.symm hit] using hprocs i hi

/-- The workers' steps. -/
theorem SystemOk.work {cfg : Config} {s s' : System} {a : Act} (h : SystemOk cfg s)
    (hs : s.work cfg a = some s') : SystemOk cfg s' := by
  cases System.works_of_work hs with
  | @wait i batch hi hclosing hnodup hsub =>
      refine ⟨fun j hj => ?_, h.listener.mono (i := i) (fun j hji => ?_) fun _ => ?_⟩
      · by_cases hji : j = i
        · subst hji
          simp only [System.setProc, Function.update_self]
          have hproc := h.procs j hj
          refine ⟨hproc.slots, hproc.bounded.mono ?_, hnodup, ?_⟩
          · intro x hx
            simp only [Finset.mem_union, List.mem_toFinset] at hx ⊢
            exact .inl (hx.elim id (hsub x))
          · simp [hclosing]
        · simpa [System.setProc, hji] using h.procs j hj
      · simp [System.load, System.setProc, hji]
      · simp [System.load, System.setProc]
  | @event i kind io fd ready ret w hi hready hr =>
      have hout := handler_outcome hr
      have hnodup := (h.procs i hi).ready
      rw [hready, List.nodup_cons] at hnodup
      refine h.proceed hi (hout.moves ?_) rfl ?_ hnodup.2 ?_ ?_
      · simp [hready]
      · simp [hready]
      · intro x hx hclose
        exact hnodup.1 (hout.newCloses_eq hclose ▸ hx)
      · intro x hook hx
        split at hx
        · simp only [Option.some.injEq, Prod.mk.injEq] at hx
          exact hx.1 ▸ hnodup.1
        · contradiction
  | @closeEvent i fd hook hi hclosing =>
      have hproc := h.procs i hi
      refine h.proceed hi ((Moves.refl _ _).close hook fd) rfl (fun _ hx => hx) hproc.ready ?_ ?_
      · intro x hx hclose
        exact hproc.closing fd hook hclosing ((mkConnClose_newCloses hclose).1 ▸ hx)
      · intro x hook' hx
        contradiction
  | @timeouts i now hi hready hclosing =>
      refine h.proceed hi (.timeouts _ _ cfg now) rfl (fun _ hx => hx) (h.procs i hi).ready ?_ ?_
      · simp [hready]
      · simp [hclosing]

/-- **Step lemma.** -/
theorem SystemOk.step {cfg : Config} {s s' : System} {a : Act}
    (hcap : 1 ≤ cfg.workerCapacity.toNat) (h : SystemOk cfg s) (hs : System.Step cfg s a s') :
    SystemOk cfg s' := by
  unfold System.Step System.step at hs
  split at hs
  all_goals first
    | exact h.listen hcap hs
    | exact h.work hs

theorem SystemOk.init (cfg : Config) : SystemOk cfg (System.init cfg) := by
  refine ⟨fun i _ => ⟨.register cfg, ⟨?_, ?_⟩, List.nodup_nil, fun _ _ h => by contradiction⟩, trivial⟩
  · simp [System.init, Worker.init, mkSchedRegisterThread, SchedListNode.busyFds]
  · simp [System.init, Worker.init, mkSchedRegisterThread, SchedListNode.load, Listener.pend]

/-- Each slot of every worker is in exactly one queue, available slots are blank,
busy ones have distinct descriptors, and there is a slot to take for every
descriptor with an event and without a slot. -/
def SlotsInOrder (cfg : Config) (s : System) : Prop :=
  ∀ i < cfg.workers,
    SlotsOk cfg.workerCapacity.toNat (s.procs i).worker.sched ∧
    ∀ fd ∈ (s.procs i).ready, mkSchedGetConnection (s.procs i).worker.sched fd = none →
      (s.procs i).worker.sched.avQueue ≠ []

/-- **Slots**: in every state the threads can reach, by any interleaving, the
slots of every worker are in order. -/
theorem slots_in_order {cfg : Config} {as : List Act} {s : System}
    (hcap : 1 ≤ cfg.workerCapacity.toNat) (h : Run (System.Step cfg) (System.init cfg) as s) :
    SlotsInOrder cfg s := by
  have hok := h.invariant (fun _ _ _ hi hs => SystemOk.step hcap hi hs) (SystemOk.init cfg)
  intro i hi
  have hproc := hok.procs i hi
  refine ⟨hproc.slots, fun fd hfd hslot => ?_⟩
  exact hproc.bounded.av_ne_nil hproc.slots (by simp [hfd]) (mkSchedGetConnection_eq_none.mp hslot)

/-- Two connections on a worker of two slots, the second assigned while the first
is being registered. -/
theorem slots_in_order_two_connections :
    ∃ s, Run (System.Step sampleConfig) (System.init sampleConfig)
      [.accept 5, .readLoad, .choose, .epollAdd true, .count, .wait 0 [5], .accept 6, .readLoad,
        .event 0 .read { now := 0, sys := sampleSys }, .choose, .epollAdd true, .wait 0 [6, 5],
        .event 0 .read { now := 0, sys := sampleSys }, .count] s ∧ SlotsInOrder sampleConfig s := by
  have hrun : Run (System.Step sampleConfig) (System.init sampleConfig)
      [.accept 5, .readLoad, .choose, .epollAdd true, .count, .wait 0 [5], .accept 6, .readLoad,
        .event 0 .read { now := 0, sys := sampleSys }, .choose, .epollAdd true, .wait 0 [6, 5],
        .event 0 .read { now := 0, sys := sampleSys }, .count] _ := Run.of_foldlM rfl
  exact ⟨_, hrun, slots_in_order (by decide) hrun⟩

end Monkey
