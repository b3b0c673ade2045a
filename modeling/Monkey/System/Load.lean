import Monkey.Worker.Sessions
import Monkey.System.Slots

/-!
# Monkey.System.Load

The counters of the workers under any interleaving of the threads:
`accepted_connections - closed_connections` is the number of connections assigned
to the worker and still open, as long as no descriptor is closed that has no
slot.  A connection that is rejected by STAGE_10, or that a hook or an error event
closes before its first read, has none: it is closed and never counted.
-/

namespace Monkey

/-- The number of connections assigned to worker `i` and still open: the
descriptors in its interest list, registered or not. -/
def System.openConns (s : System) (i : Nat) : Nat := (s.procs i).interest.card

/-- An event on `fd` that closes no connection without a slot: no hook, no error
event and no rejection closes before the registration. -/
def CountsEvent (cfg : Config) (kind : EpollKind) (io : EventIo) (fd : Int) (w : Worker) : Prop :=
  KeepsSessions cfg w (.epoll kind io fd) ∧
    (mkSchedGetConnection w.sched fd = none →
      (io.hook = .close → io.closeHook.passes = false) ∧
      (kind = .error → io.hook.passes = false) ∧
      (kind = .read → io.hook.passes = true → io.stage10Close = true →
        io.rejectHook.passes = false ∧ io.closeHook.passes = false))

instance (cfg : Config) (kind : EpollKind) (io : EventIo) (fd : Int) (w : Worker) :
    Decidable (CountsEvent cfg kind io fd w) :=
  inferInstanceAs (Decidable (KeepsSessions cfg w (.epoll kind io fd) ∧ _))

/-- The step closes no connection that has no slot, and leaves no session behind
that could take the place of a registration. -/
def CountsCloses (cfg : Config) (s : System) : Act → Prop
  | .event i kind io =>
      ∀ fd ∈ (s.procs i).ready.head?, CountsEvent cfg kind io fd (s.procs i).worker
  | .timeouts i now => KeepsSessions cfg (s.procs i).worker (.checkTimeouts now)
  | _ => True

instance (cfg : Config) (s : System) : (a : Act) → Decidable (CountsCloses cfg s a)
  | .event i kind io => inferInstanceAs (Decidable
      (∀ fd ∈ (s.procs i).ready.head?, CountsEvent cfg kind io fd (s.procs i).worker))
  | .timeouts i now => inferInstanceAs (Decidable
      (KeepsSessions cfg (s.procs i).worker (.checkTimeouts now)))
  | .accept _ | .readLoad | .choose | .epollAdd _ | .count | .wait _ _ | .closeEvent _ =>
      inferInstanceAs (Decidable True)

/-! ## the balance of a worker -/

/-- The load is the number of open connections, and the busy descriptors are
among them. -/
structure Exact (pend : UInt64) (node : SchedListNode) (interest : Finset Int) : Prop where
  load : node.load + pend = UInt64.ofNat interest.card
  busy : ∀ fd ∈ node.busyFds, fd ∈ interest

/-- Releasing a slot balances the close of its descriptor; closing a descriptor
that is not open changes nothing. -/
theorem Exact.release {pend : UInt64} {node : SchedListNode} {interest : Finset Int} {fd : Int}
    (h : Exact pend node interest) (hb : node.busyFds.Nodup)
    (hfd : fd ∈ node.busyFds ∨ fd ∉ interest) :
    Exact pend (schedRelease node fd) (interest.erase fd) := by
  refine ⟨?_, fun x hx => ?_⟩
  · rw [schedRelease_load]
    rcases hfd with hfd | hfd
    · have hmem := h.busy fd hfd
      have hpos : 1 ≤ interest.card := Finset.card_pos.mpr ⟨fd, hmem⟩
      rw [if_pos hfd, Finset.card_erase_of_mem hmem, UInt64.ofNat_sub hpos, ← h.load]
      grind
    · rw [if_neg fun hbusy => hfd (h.busy fd hbusy), Finset.erase_eq_of_notMem hfd]
      exact h.load
  · rw [schedRelease_busyFds, hb.mem_erase_iff] at hx
    exact Finset.mem_erase.mpr ⟨hx.1, h.busy x hx.2⟩

/-- From `w` to `v` by removals of descriptors that were registered in `w`. -/
structure Balanced (pend : UInt64) (interest : Finset Int) (w v : Worker) : Prop where
  calls : ∃ l, v.log = l ++ w.log ∧ Exact pend v.sched (interest.filter (· ∉ closesIn l)) ∧
    (∀ fd ∈ w.sched.busyFds, fd ∈ v.sched.busyFds ∨ fd ∉ interest.filter (· ∉ closesIn l)) ∧
    ∀ fd ∈ closesIn l, fd ∈ w.sched.busyFds
  busy : v.sched.busyFds.Nodup

theorem Balanced.refl {pend : UInt64} {interest : Finset Int} {w : Worker}
    (h : Exact pend w.sched interest) (hb : w.sched.busyFds.Nodup) : Balanced pend interest w w := by
  refine ⟨⟨[], rfl, ?_, fun fd hfd => .inl hfd, fun fd hfd => absurd hfd List.not_mem_nil⟩, hb⟩
  simpa [closesIn] using h

theorem Balanced.congr {pend : UInt64} {interest : Finset Int} {w v v' : Worker}
    (h : Balanced pend interest w v) (hs : v'.sched = v.sched) (hl : v'.log = v.log) :
    Balanced pend interest w v' := by
  obtain ⟨⟨l, hlog, hexact, hold, hown⟩, hb⟩ := h
  exact ⟨⟨l, hl.trans hlog, hs ▸ hexact, hs ▸ hold, hown⟩, hs ▸ hb⟩

theorem Balanced.remove {pend : UInt64} {interest : Finset Int} {w v : Worker} {fd : Int}
    (h : Balanced pend interest w v) (hfd : fd ∈ w.sched.busyFds) :
    Balanced pend interest w (mkSchedRemoveClient v fd).2 := by
  obtain ⟨⟨l, hlog, hexact, hold, hown⟩, hb⟩ := h
  have hrel := hexact.release hb (hold fd hfd)
  rw [← filter_closesIn_cons] at hrel
  have hold' : ∀ x ∈ w.sched.busyFds, x ∈ (schedRelease v.sched fd).busyFds ∨
      x ∉ interest.filter (· ∉ fd :: closesIn l) := by
    intro x hx
    rw [schedRelease_busyFds, hb.mem_erase_iff, filter_closesIn_cons, Finset.mem_erase]
    have := hold x hx
    tauto
  obtain ⟨l', hl', hc⟩ : ∃ l', (mkSchedRemoveClient v fd).2.log = l' ++ w.log ∧
      closesIn l' = fd :: closesIn l := by
    rw [mkSchedRemoveClient_log, hlog]
    split
    · exact ⟨.released fd :: .stage50 fd :: .close fd :: l, rfl, rfl⟩
    · exact ⟨.close fd :: l, rfl, rfl⟩
  refine ⟨⟨l', hl', ?_, ?_, ?_⟩, ?_⟩
  · rw [mkSchedRemoveClient_sched, hc]
    exact hrel
  · rw [mkSchedRemoveClient_sched, hc]
    exact hold'
  · rw [hc]
    exact List.forall_mem_cons.mpr ⟨hfd, hown⟩
  · simpa using hb.erase fd

theorem Balanced.exact {pend : UInt64} {interest : Finset Int} {w v : Worker}
    (h : Balanced pend interest w v) :
    Exact pend v.sched (interest.filter (· ∉ newCloses w v)) ∧
      ∀ fd ∈ newCloses w v, fd ∈ w.sched.busyFds := by
  obtain ⟨⟨l, hlog, hexact, _, hown⟩, _⟩ := h
  rw [newCloses_of_append hlog]
  exact ⟨hexact, hown⟩

/-- The timeout check removes only registered descriptors. -/
theorem Balanced.timeouts {pend : UInt64} {interest : Finset Int} {w : Worker} (cfg : Config)
    (now : Int) (h : Exact pend w.sched interest) (hheld : SessionsHeld w) :
    Balanced pend interest w (mkSchedCheckTimeouts cfg now w) := by
  have hpending : Balanced pend interest w (checkPending cfg now w) := by
    refine List.foldlRecOn _ _ (Balanced.refl h hheld.busy) fun v hv sc hsc => hv.remove ?_
    exact List.mem_map_of_mem (List.mem_of_mem_filter hsc)
  refine List.foldlRecOn _ _ hpending fun v hv cs hcs => ?_
  have hmem : cs ∈ w.sessions := by
    simpa using List.mem_of_mem_filter hcs
  exact (hv.remove (hheld.held _ (List.mem_map_of_mem hmem))).congr rfl rfl

/-! ## the invariant -/

/-- A worker whose counters are right. -/
structure ProcExact (pend : UInt64) (p : Proc) : Prop where
  exact : Exact pend p.worker.sched p.interest
  held : SessionsHeld p.worker
  ready : ∀ fd ∈ p.ready, fd ∈ p.interest
  closing : ∀ fd hook, p.closing = some (fd, hook) → hook.passes = true →
    fd ∈ p.worker.sched.busyFds ∧ fd ∉ p.worker.sessionFds

/-- The descriptor the listener holds, before it has handed it over. -/
def Listener.holds : Listener → Option Int
  | .scan fd _ => some fd
  | .chosen fd _ => some fd
  | _ => none

/-- No descriptor belongs to two workers, or to a worker and the listener. -/
structure SystemExact (cfg : Config) (s : System) : Prop extends SystemOk cfg s where
  exact : ∀ i < cfg.workers, ProcExact (s.listener.pend i) (s.procs i)
  disjoint : ∀ i < cfg.workers, ∀ j < cfg.workers, i ≠ j →
    Disjoint (s.procs i).interest (s.procs j).interest
  openFds : ∀ i < cfg.workers, (s.procs i).interest ⊆ s.openFds
  holds : ∀ fd ∈ s.listener.holds, fd ∈ s.openFds ∧ ∀ i < cfg.workers, fd ∉ (s.procs i).interest

/-- A step of worker `i` that closes only descriptors of its own. -/
theorem SystemExact.proceed {cfg : Config} {s : System} {i : Nat} {p : Proc}
    (h : SystemExact cfg s) (hi : i < cfg.workers) (hok : SystemOk cfg (s.proceed i p))
    (hinterest : p.interest = (s.procs i).interest)
    (hown : ∀ fd ∈ newCloses (s.procs i).worker p.worker, fd ∈ (s.procs i).interest)
    (hexact : ProcExact (s.listener.pend i)
      { p with interest := p.interest.filter (· ∉ newCloses (s.procs i).worker p.worker) }) :
    SystemExact cfg (s.proceed i p) := by
  have hself : (s.proceed i p).procs i =
      { p with interest := p.interest.filter (· ∉ newCloses (s.procs i).worker p.worker) } := by
    simp [System.proceed, System.closeFds, System.setProc]
  -- the other workers and the listener have none of the closed descriptors
  have hother : ∀ j < cfg.workers, j ≠ i → (s.proceed i p).procs j = s.procs j := by
    intro j hj hji
    have hfilter : (s.procs j).interest.filter
        (· ∉ newCloses (s.procs i).worker p.worker) = (s.procs j).interest := by
      apply Finset.filter_true_of_mem
      intro x hx hclose
      exact Finset.disjoint_left.mp (h.disjoint i hi j hj (Ne.symm hji)) (hown x hclose) hx
    simp [System.proceed, System.closeFds, System.setProc, hji, hfilter]
  have hsub : ∀ j < cfg.workers, ((s.proceed i p).procs j).interest ⊆ (s.procs j).interest := by
    intro j hj
    by_cases hji : j = i
    · subst hji
      rw [hself, hinterest]
      exact Finset.filter_subset _ _
    · rw [hother j hj hji]
  refine ⟨hok, fun j hj => ?_, fun j hj k hk hjk => ?_, fun j hj x hx => ?_, fun fd hfd => ?_⟩
  · by_cases hji : j = i
    · subst hji
      rw [hself]
      exact hexact
    · rw [hother j hj hji]
      exact h.exact j hj
  · exact Finset.disjoint_of_subset_left (hsub j hj)
      (Finset.disjoint_of_subset_right (hsub k hk) (h.disjoint j hj k hk hjk))
  · simp only [System.proceed, System.closeFds, System.setProc, Finset.mem_filter]
    refine ⟨h.openFds j hj (hsub j hj hx), fun hclose => ?_⟩
    by_cases hji : j = i
    · subst hji
      rw [hself, Finset.mem_filter] at hx
      exact hx.2 hclose
    · rw [hother j hj hji] at hx
      exact Finset.disjoint_left.mp (h.disjoint i hi j hj (Ne.symm hji)) (hown x hclose) hx
  · obtain ⟨hopen, hnot⟩ := h.holds fd hfd
    refine ⟨?_, fun j hj hmem => hnot j hj (hsub j hj hmem)⟩
    simp only [System.proceed, System.closeFds, System.setProc, Finset.mem_filter]
    exact ⟨hopen, fun hclose => hnot i hi (hown fd hclose)⟩

/-! ## the workers' steps -/

theorem SameSlots.exact {pend : UInt64} {interest : Finset Int} {fd : Int} {w v : Worker}
    (hs : SameSlots fd w v) (h : Exact pend w.sched interest) : Exact pend v.sched interest := by
  refine ⟨?_, fun x hx => h.busy x (hs.busyFds ▸ hx)⟩
  rcases hs with hs | hs
  · rw [hs]
    exact h.load
  · rw [hs, mkSchedUpdateConnStatus_load]
    exact h.load

/-- A handler keeps the balance. -/
theorem Outcome.exact {cfg : Config} {kind : EpollKind} {io : EventIo} {fd : Int} {w : Worker}
    {r : Int × Worker} {pend : UInt64} {interest : Finset Int} (ho : Outcome cfg kind io fd w r)
    (hcount : CountsEvent cfg kind io fd w) (hheld : SessionsHeld w)
    (h : Exact pend w.sched interest) (hfd : fd ∈ interest) :
    Exact pend r.2.sched (interest.filter (· ∉ newCloses w r.2)) := by
  have hrefl := (Balanced.refl h hheld.busy).exact.1
  cases ho with
  | owned => exact hrefl
  | hookClosed hook => exact hrefl
  | registered hkind hook hsession hslot hstage htake =>
      rw [newCloses_of_append (l := [.registered fd]) rfl]
      simp only [closesIn, List.filterMap_cons, List.filterMap_nil, List.not_mem_nil,
        not_false_eq_true, Finset.filter_true]
      refine ⟨by rw [schedTake_load htake]; exact h.load, fun x hx => ?_⟩
      rw [schedTake_busyFds htake, List.mem_append, List.mem_singleton] at hx
      rcases hx with hx | rfl
      · exact h.busy x hx
      · exact hfd
  | rejected hkind hook hsession hslot hstage =>
      have hno := (hcount.2 (mkSchedGetConnection_eq_none.mpr hslot)).2.2 hkind hook hstage
      have hsame : (mkConnClose io.rejectHook fd w).2 = w := by
        rw [mkConnClose_eq, hno.1]
        rfl
      simpa only [hsame] using hrefl
  | handled hkind hook hh =>
      obtain ⟨hslots, l, hlog, hc⟩ := hh.calls
      rw [newCloses_of_append hlog, hc]
      simpa using hslots.exact h
  | errored hkind hook =>
      have hbusy : fd ∈ w.sched.busyFds := by
        by_contra hno
        have := (hcount.2 (mkSchedGetConnection_eq_none.mpr hno)).2.1 hkind
        simp [hook] at this
      exact (((Balanced.refl h hheld.busy).remove hbusy).congr rfl rfl).exact.1

/-- A handler that makes the loop close leaves the slot to it. -/
theorem Outcome.slot_left {cfg : Config} {kind : EpollKind} {io : EventIo} {fd : Int} {w : Worker}
    {r : Int × Worker} (ho : Outcome cfg kind io fd w r) (hcount : CountsEvent cfg kind io fd w)
    (hheld : SessionsHeld w) (hret : r.1 < 0) (hclose : io.closeHook.passes = true) :
    fd ∈ r.2.sched.busyFds ∧ fd ∉ r.2.sessionFds := by
  refine ⟨?_, ho.session_gone hheld.toDistinct hret fun hook =>
    mkSessionGet_eq_none.mp (hcount.1 hook hclose)⟩
  have hno := fun hslot : fd ∉ w.sched.busyFds =>
    hcount.2 (mkSchedGetConnection_eq_none.mpr hslot)
  cases ho with
  | owned => contradiction
  | hookClosed hook =>
      by_contra hslot
      simp [(hno hslot).1 hook] at hclose
  | registered hkind hook hsession hslot hstage htake => contradiction
  | rejected hkind hook hsession hslot hstage =>
      simp [((hno hslot).2.2 hkind hook hstage).2] at hclose
  | handled hkind hook hh =>
      cases hh with
      | kept hpos hk => omega
      | ended he =>
          rw [he.sched.busyFds]
          exact he.held.elim (hheld.held fd) id
  | errored hkind hook => contradiction

/-- A worker that goes on with the same interest list. -/
theorem System.interest_setProc {s : System} {i : Nat} {p : Proc}
    (h : p.interest = (s.procs i).interest) (j : Nat) :
    ((s.setProc i p).procs j).interest = (s.procs j).interest := by
  by_cases hji : j = i
  · subst hji
    simpa [System.setProc] using h
  · simp [System.setProc, hji]

/-- A new batch of events, of descriptors the worker has. -/
theorem SystemExact.wait {cfg : Config} {s : System} {i : Nat} {batch : List Int} (h : SystemExact cfg s)
    (hok : SystemOk cfg (s.setProc i { s.procs i with ready := batch }))
    (hsub : ∀ fd ∈ batch, fd ∈ (s.procs i).interest) :
    SystemExact cfg (s.setProc i { s.procs i with ready := batch }) := by
  have hinterest := @System.interest_setProc s i { s.procs i with ready := batch } rfl
  refine ⟨hok, fun j hj => ?_, fun j hj k hk hjk => ?_, fun j hj => ?_, fun fd hfd => ?_⟩
  · by_cases hji : j = i
    · subst hji
      have hproc := h.exact j hj
      simp only [System.setProc, Function.update_self]
      exact ⟨hproc.exact, hproc.held, hsub, hproc.closing⟩
    · simpa [System.setProc, hji] using h.exact j hj
  · rw [hinterest, hinterest]
    exact h.disjoint j hj k hk hjk
  · rw [hinterest]
    exact h.openFds j hj
  · refine ⟨(h.holds fd hfd).1, fun j hj => ?_⟩
    rw [hinterest]
    exact (h.holds fd hfd).2 j hj

/-- The close hook, when the core goes on. -/
theorem Balanced.close {pend : UInt64} {interest : Finset Int} {w : Worker} {fd : Int} {hook : EventRet}
    (h : Exact pend w.sched interest) (hb : w.sched.busyFds.Nodup) (hfd : hook.passes = true → fd ∈ w.sched.busyFds) :
    Balanced pend interest w (mkConnClose hook fd w).2 := by
  rw [mkConnClose_eq]
  split
  · next hpass => exact (Balanced.refl h hb).remove (hfd hpass)
  · exact Balanced.refl h hb

/-- The workers' steps. -/
theorem SystemExact.work {cfg : Config} {s s' : System} {a : Act} (h : SystemExact cfg s)
    (hcount : CountsCloses cfg s a) (hs : s.work cfg a = some s') : SystemExact cfg s' := by
  have hok := h.toSystemOk.work hs
  cases System.works_of_work hs with
  | @wait i batch hi hclosing hnodup hsub => exact h.wait hok hsub
  | @event i kind io fd ready ret w hi hready hr =>
      have hout := handler_outcome hr
      have hproc := h.exact i hi
      have hevent : CountsEvent cfg kind io fd (s.procs i).worker := hcount fd (by simp [hready])
      have hfd : fd ∈ (s.procs i).interest := hproc.ready fd (by simp [hready])
      have hnodup := (h.procs i hi).ready
      rw [hready, List.nodup_cons] at hnodup
      refine h.proceed hi hok rfl (fun x hx => hout.newCloses_eq hx ▸ hfd) ?_
      refine ⟨hout.exact hevent hproc.held hproc.exact hfd, hproc.held.outcome hout, ?_, ?_⟩
      · intro x hx
        rw [Finset.mem_filter]
        refine ⟨hproc.ready x (by simp [hready, show x ∈ ready from hx]), fun hclose => ?_⟩
        exact hnodup.1 (hout.newCloses_eq hclose ▸ hx)
      · intro x hook hx hpass
        simp only at hx
        split at hx
        · next hret =>
            simp only [Option.some.injEq, Prod.mk.injEq] at hx
            obtain ⟨rfl, rfl⟩ := hx
            exact hout.slot_left hevent hproc.held hret hpass
        · contradiction
  | @closeEvent i fd hook hi hclosing =>
      have hproc := h.exact i hi
      have hok' := h.procs i hi
      obtain ⟨hexact, hown⟩ := (Balanced.close hproc.exact hproc.held.busy
        fun hpass => (hproc.closing fd hook hclosing hpass).1).exact
      refine h.proceed hi hok rfl (fun x hx => hproc.exact.busy x (hown x hx)) ?_
      refine ⟨hexact, ?_, ?_, fun _ _ hnone => by contradiction⟩
      · exact hproc.held.close fun hpass => (hproc.closing fd hook hclosing hpass).2
      · intro x hx
        rw [Finset.mem_filter]
        refine ⟨hproc.ready x hx, fun hclose => ?_⟩
        exact hok'.closing fd hook hclosing ((mkConnClose_newCloses hclose).1 ▸ hx)
  | @timeouts i now hi hready hclosing =>
      have hproc := h.exact i hi
      obtain ⟨hexact, hown⟩ := (Balanced.timeouts cfg now hproc.exact hproc.held).exact
      refine h.proceed hi hok rfl (fun x hx => hproc.exact.busy x (hown x hx)) ?_
      exact ⟨hexact, hproc.held.timeouts hcount, by simp [hready], by simp [hclosing]⟩

/-! ## the listener's steps -/

/-- Dropping a descriptor that no worker has. -/
theorem SystemExact.giveUp {cfg : Config} {s : System} {fd : Int} (h : SystemExact cfg s)
    (hfd : fd ∈ s.listener.holds) (hok : SystemOk cfg { s.closeFds [fd] with listener := .idle })
    (hpend : ∀ i, s.listener.pend i = 0) :
    SystemExact cfg { s.closeFds [fd] with listener := .idle } := by
  have hnot := (h.holds fd hfd).2
  have hsame : ∀ i < cfg.workers, (s.closeFds [fd]).procs i = s.procs i := by
    intro i hi
    have hfilter : (s.procs i).interest.filter (· ∉ [fd]) = (s.procs i).interest := by
      apply Finset.filter_true_of_mem
      rintro x hx hclose
      exact hnot i hi (List.mem_singleton.mp hclose ▸ hx)
    simp only [System.closeFds, hfilter]
  refine ⟨hok, fun i hi => ?_, fun i hi j hj hij => ?_, fun i hi x hx => ?_, fun _ hnone => by contradiction⟩
  · simp only [hsame i hi]
    have := h.exact i hi
    rwa [hpend i] at this
  · simp only [hsame i hi, hsame j hj]
    exact h.disjoint i hi j hj hij
  · simp only [hsame i hi] at hx
    simp only [System.closeFds, Finset.mem_filter]
    refine ⟨h.openFds i hi hx, fun hclose => hnot i hi (List.mem_singleton.mp hclose ▸ hx)⟩

/-- The descriptor joins the interest list of its target, which is counted one behind. -/
theorem SystemExact.handOver {cfg : Config} {s : System} {fd : Int} {target : Nat}
    (h : SystemExact cfg s) (hl : s.listener = .chosen fd target)
    (hok : SystemOk cfg
      { s.setProc target { s.procs target with interest := insert fd (s.procs target).interest } with
        listener := .added fd target }) :
    SystemExact cfg
      { s.setProc target { s.procs target with interest := insert fd (s.procs target).interest } with
        listener := .added fd target } := by
  have hexact := h.exact
  have hholds := h.holds
  have hlistener := h.listener
  rw [hl] at hexact hholds hlistener
  obtain ⟨hopen, hnot⟩ := hholds fd rfl
  have ht : target < cfg.workers := hlistener.1
  have hne : ∀ k < cfg.workers, k ≠ target →
      Disjoint (insert fd (s.procs target).interest) (s.procs k).interest := by
    intro k hk hkt
    rw [Finset.disjoint_insert_left]
    exact ⟨hnot k hk, h.disjoint target ht k hk (Ne.symm hkt)⟩
  refine ⟨hok, fun i hi => ?_, fun i hi j hj hij => ?_, fun i hi => ?_, fun _ hnone => by contradiction⟩
  · by_cases hit : i = target
    · subst hit
      have hproc := hexact i hi
      simp only [System.setProc, Function.update_self, Listener.pend, if_true]
      refine ⟨⟨?_, fun x hx => Finset.mem_insert_of_mem (hproc.exact.busy x hx)⟩, hproc.held,
        fun x hx => Finset.mem_insert_of_mem (hproc.ready x hx), hproc.closing⟩
      have hload := hproc.exact.load
      rw [Finset.card_insert_of_notMem (hnot i hi), UInt64.ofNat_add, ← hload]
      simp [Listener.pend]
    · simpa [System.setProc, hit, Listener.pend, Ne.symm hit] using hexact i hi
  · by_cases hit : i = target
    · subst hit
      simpa [System.setProc, Ne.symm hij] using hne j hj (Ne.symm hij)
    · by_cases hjt : j = target
      · subst hjt
        simpa [System.setProc, hij, disjoint_comm] using hne i hi hij
      · simpa [System.setProc, hit, hjt] using h.disjoint i hi j hj hij
  · by_cases hit : i = target
    · subst hit
      simp only [System.setProc, Function.update_self]
      exact Finset.insert_subset hopen (h.openFds i hi)
    · simpa [System.setProc, hit] using h.openFds i hi

/-- The descriptor handed over is counted. -/
theorem SystemExact.count {cfg : Config} {s : System} {fd : Int} {target : Nat}
    (h : SystemExact cfg s) (hl : s.listener = .added fd target)
    (hok : SystemOk cfg
      { s.setProc target { s.procs target with worker := (s.procs target).worker.assign fd } with
        listener := .idle }) :
    SystemExact cfg
      { s.setProc target { s.procs target with worker := (s.procs target).worker.assign fd } with
        listener := .idle } := by
  have hexact := h.exact
  rw [hl] at hexact
  have hinterest := @System.interest_setProc s target
    { s.procs target with worker := (s.procs target).worker.assign fd } rfl
  refine ⟨hok, fun i hi => ?_, fun i hi j hj hij => ?_, fun i hi => ?_, fun _ hnone => by contradiction⟩
  · by_cases hit : i = target
    · subst hit
      have hproc := hexact i hi
      simp only [System.setProc, Function.update_self]
      refine ⟨⟨?_, hproc.exact.busy⟩, ⟨⟨hproc.held.busy, hproc.held.sessions⟩, hproc.held.held⟩,
        hproc.ready, hproc.closing⟩
      have hload := hproc.exact.load
      rw [← hload]
      simp only [Listener.pend, Worker.assign, SchedListNode.load, if_true]
      grind
    · simpa [System.setProc, hit, Listener.pend, Ne.symm hit] using hexact i hi
  · simp only [hinterest]
    exact h.disjoint i hi j hj hij
  · simp only [hinterest]
    exact h.openFds i hi

/-- The listener's own steps. -/
theorem SystemExact.listen {cfg : Config} {s s' : System} {a : Act}
    (hcap : 1 ≤ cfg.workerCapacity.toNat) (h : SystemExact cfg s)
    (hs : s.listen cfg a = some s') : SystemExact cfg s' := by
  have hok := h.toSystemOk.listen hcap hs
  have hexact := h.exact
  have hholds := h.holds
  cases System.listens_of_listen hs with
  | @accept fd hl hnew =>
      rw [hl] at hexact
      refine ⟨hok, hexact, h.disjoint, fun i hi => ?_, fun fd' hfd' => ?_⟩
      · exact (h.openFds i hi).trans (Finset.subset_insert _ _)
      · obtain rfl : fd = fd' := Option.some.inj hfd'
        exact ⟨Finset.mem_insert_self _ _, fun i hi hmem => hnew (h.openFds i hi hmem)⟩
  | readLoad hl hscan =>
      rw [hl] at hexact hholds
      exact ⟨hok, hexact, h.disjoint, h.openFds, hholds⟩
  | choose hl htarget =>
      rw [hl] at hexact hholds
      exact ⟨hok, hexact, h.disjoint, h.openFds, hholds⟩
  | full hl => exact h.giveUp (by simp [hl, Listener.holds]) hok (by simp [hl, Listener.pend])
  | handOver hl => exact h.handOver hl hok
  | refused hl => exact h.giveUp (by simp [hl, Listener.holds]) hok (by simp [hl, Listener.pend])
  | count hl => exact h.count hl hok

/-- **Step lemma.** -/
theorem SystemExact.step {cfg : Config} {s s' : System} {a : Act}
    (hcap : 1 ≤ cfg.workerCapacity.toNat) (h : SystemExact cfg s) (hcount : CountsCloses cfg s a)
    (hs : System.Step cfg s a s') : SystemExact cfg s' := by
  unfold System.Step System.step at hs
  split at hs
  all_goals first
    | exact h.listen hcap hs
    | exact h.work hcount hs

theorem SystemExact.init (cfg : Config) : SystemExact cfg (System.init cfg) := by
  refine ⟨.init cfg, fun i _ => ⟨⟨?_, fun _ hfd => absurd hfd List.not_mem_nil⟩, .init cfg,
    fun _ hfd => absurd hfd List.not_mem_nil, fun _ _ hnone => by contradiction⟩, fun i _ j _ _ => ?_,
    fun i _ => ?_, fun _ hnone => by contradiction⟩
  · simp [System.init, Worker.init, mkSchedRegisterThread, SchedListNode.load, Listener.pend]
  · exact Finset.disjoint_empty_left _
  · exact Finset.empty_subset _

/-! ## idle workers -/

/-- The loop of `_next_target` stops at the first worker without connections. -/
theorem nextTargetLoop_idle (i target : Nat) {k : Nat} {cur : UInt64} {loads : List UInt64}
    (hcur : cur ≠ 0) (hk : loads[k]? = some 0) :
    ∃ t ≤ i + k, nextTargetLoop i target cur loads = (t, 0) := by
  induction loads generalizing i target cur k with
  | nil => simp at hk
  | cons tmp loads ih =>
      rw [nextTargetLoop]
      by_cases htmp : tmp = 0
      · have hlt : tmp < cur := by
          rw [htmp]
          exact UInt64.pos_iff_ne_zero.mpr hcur
        exact ⟨i, by omega, by rw [if_pos hlt, if_pos htmp, htmp]⟩
      · cases k with
        | zero => simp [htmp] at hk
        | succ k =>
            rw [List.getElem?_cons_succ] at hk
            split
            · obtain ⟨t, ht, heq⟩ := ih (i + 1) i htmp hk
              exact ⟨t, by omega, heq⟩
            · obtain ⟨t, ht, heq⟩ := ih (i + 1) target hcur hk
              exact ⟨t, by omega, heq⟩

/-- A worker without connections is eligible: `_next_target` returns it or an
earlier one without connections. -/
theorem nextTarget_idle {cfg : Config} {loads : List UInt64} {k : Nat}
    (hcap : 1 ≤ cfg.workerCapacity.toNat) (hk : loads[k]? = some 0) :
    ∃ t ≤ k, nextTarget cfg loads = some t ∧ loads[t]? = some 0 := by
  cases loads with
  | nil => simp at hk
  | cons cur loads =>
      rw [nextTarget]
      by_cases hcur : cur = 0
      · exact ⟨0, by omega, by simp [hcur], by simp [hcur]⟩
      · cases k with
        | zero => simp [hcur] at hk
        | succ k =>
            rw [List.getElem?_cons_succ] at hk
            obtain ⟨t, ht, hloop⟩ := nextTargetLoop_idle 1 0 hcur hk
            have hlt : ¬ (0 : UInt64) ≥ cfg.workerCapacity.toUInt64 := by
              simpa [UInt64.le_iff_toNat_le] using by omega
            refine ⟨t, by omega, by rw [if_neg hcur, hloop]; simp only [if_neg hlt], ?_⟩
            rcases nextTargetLoop_spec hloop with ⟨_, hzero⟩ | ⟨hpos, hload⟩
            · exact absurd hzero.symm hcur
            · rw [show t = (t - 1) + 1 by omega, List.getElem?_cons_succ]
              exact hload

/-! ## the load of a worker -/

/-- The load of every worker is the number of its open connections (counting the
one the listener is about to count), and a worker without any is eligible. -/
def LoadCounts (cfg : Config) (s : System) : Prop :=
  ∀ i < cfg.workers,
    (s.load i + s.listener.pend i).toNat = s.openConns i ∧
    (s.listener.pend i = 0 → s.openConns i = 0 →
      s.load i = 0 ∧ ∃ t ≤ i, nextTarget cfg ((List.range cfg.workers).map s.load) = some t ∧
        s.load t = 0)

theorem SystemExact.loadCounts {cfg : Config} {s : System} (hcap : 1 ≤ cfg.workerCapacity.toNat)
    (h : SystemExact cfg s) : LoadCounts cfg s := by
  intro i hi
  have hproc := h.procs i hi
  have hexact := (h.exact i hi).exact.load
  have hsub : (s.procs i).interest ⊆ (s.procs i).worker.sched.busyFds.toFinset ∪
      ((s.procs i).interest ∪ (s.procs i).ready.toFinset) :=
    Finset.subset_union_left.trans Finset.subset_union_right
  have hcard : (s.procs i).interest.card < 2 ^ 64 := by
    have hle := (Finset.card_le_card hsub).trans (hproc.bounded.lower.trans hproc.bounded.upper)
    have := cfg.workerCapacity.toNat_lt
    omega
  have hload : (s.load i + s.listener.pend i).toNat = s.openConns i := by
    rw [System.load, hexact, UInt64.toNat_ofNat_of_lt' hcard]
    rfl
  refine ⟨hload, fun hpend hnone => ?_⟩
  rw [hpend, UInt64.add_zero, hnone] at hload
  have hzero : s.load i = 0 := UInt64.toNat_inj.mp hload
  have hloads : ((List.range cfg.workers).map s.load)[i]? = some 0 := by
    simp [hi, hzero]
  obtain ⟨t, ht, hnext, hidle⟩ := nextTarget_idle hcap hloads
  refine ⟨hzero, t, ht, hnext, ?_⟩
  simpa [show t < cfg.workers by omega] using hidle

/-- **Load**: in every run whose steps close no connection without a slot, the
load of every worker is the number of its open connections. -/
theorem load_counts {cfg : Config} {as : List Act} {s : System}
    (hcap : 1 ≤ cfg.workerCapacity.toNat)
    (h : Run (Guarded (CountsCloses cfg) (System.Step cfg)) (System.init cfg) as s) :
    LoadCounts cfg s :=
  (h.guarded_invariant (fun _ _ _ hi hp hs => SystemExact.step hcap hi hp hs)
    (SystemExact.init cfg)).loadCounts hcap

/-- A connection that is registered and then hangs up. -/
theorem load_counts_hang_up :
    ∃ s, Run (Guarded (CountsCloses sampleConfig) (System.Step sampleConfig))
      (System.init sampleConfig)
      [.accept 5, .readLoad, .choose, .epollAdd true, .count, .wait 0 [5],
        .event 0 .read { now := 0, sys := sampleSys }, .wait 0 [5],
        .event 0 .error { now := 1, sys := sampleSys }] s ∧ LoadCounts sampleConfig s := by
  have hrun : Run (Guarded (CountsCloses sampleConfig) (System.Step sampleConfig))
      (System.init sampleConfig)
      [.accept 5, .readLoad, .choose, .epollAdd true, .count, .wait 0 [5],
        .event 0 .read { now := 0, sys := sampleSys }, .wait 0 [5],
        .event 0 .error { now := 1, sys := sampleSys }] _ := Run.guarded_of_foldlM rfl
  exact ⟨_, hrun, load_counts (by decide) hrun⟩

/-- A connection that STAGE_10 rejects stays in the load for ever. -/
theorem rejected_stays_in_load :
    ¬ ∀ (cfg : Config) (as : List Act) (s : System), 1 ≤ cfg.workerCapacity.toNat →
      Run (System.Step cfg) (System.init cfg) as s → LoadCounts cfg s := by
  intro hall
  have hend : (([.accept 5, .readLoad, .choose, .epollAdd true, .count, .wait 0 [5],
      .event 0 .read { stage10Close := true, now := 0, sys := sampleSys },
      .closeEvent 0] : List Act).foldlM (System.step sampleConfig) (System.init sampleConfig)).map
        (fun s => ((s.load 0 + s.listener.pend 0).toNat, s.openConns 0)) = some (1, 0) := by
    decide +kernel
  obtain ⟨s, hs, hload⟩ := Option.map_eq_some_iff.mp hend
  have hcounts := (hall sampleConfig _ s (by decide) (Run.of_foldlM hs) 0 (by decide)).1
  simp only [Prod.mk.injEq] at hload
  omega

end Monkey
