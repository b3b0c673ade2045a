import Mathlib.Algebra.Order.BigOperators.Group.Finset
import Monkey.System.Load

/-!
# Monkey.System.Descriptors

The descriptors of the server, against the limit that its capacity has been computed from
(`mk_server_worker_capacity`).

Two descriptors are set aside for each connection, its socket and one more.  The limit is that of the
process, and is cut to an `unsigned int` on the way.
-/

namespace Monkey

/-! ## the capacity -/

/-- What the server needs for itself: the three standard streams, the server socket, an epoll instance
for each worker, and the file and the pipe of the logger. -/
def serverFds (nworkers : Nat) : Nat := 3 + 1 + nworkers + 1 + 2

/-- `mk_server_worker_capacity`: half of what is left of the limit, for each worker.  The limit of the
system is cut to an `unsigned int`, and the subtraction wraps below zero. -/
def mkServerWorkerCapacity (rlimCur : UInt64) (nworkers : UInt16) : UInt32 :=
  let max := rlimCur.toUInt32
  let avl := max - (3 + 1 + nworkers.toUInt32 + 1 + 2)
  avl / 2 / nworkers.toUInt32

/-- Without a borrow, the capacity is computed from the low half of what is left. -/
theorem mkServerWorkerCapacity_toNat {limit : UInt64} {n : UInt16} (h : serverFds n.toNat ≤ limit.toNat) :
    (mkServerWorkerCapacity limit n).toNat = (limit.toNat - serverFds n.toNat) % 2 ^ 32 / 2 / n.toNat := by
  have hn := n.toNat_lt
  have hfds : (3 + 1 + n.toUInt32 + 1 + 2 : UInt32).toNat = serverFds n.toNat := by
    simp only [serverFds, UInt32.toNat_add, UInt16.toNat_toUInt32, UInt32.reduceToNat]
    omega
  simp only [mkServerWorkerCapacity, UInt32.toNat_div, UInt32.toNat_sub, hfds, UInt64.toNat_toUInt32,
    UInt16.toNat_toUInt32, UInt32.reduceToNat]
  congr 2
  simp only [serverFds] at h ⊢
  omega

/-- The connections of all workers, with a descriptor more for each, and those of the server. -/
theorem serverFds_capacity_le {limit : UInt64} {n : UInt16} (h : serverFds n.toNat ≤ limit.toNat) :
    serverFds n.toNat + 2 * (n.toNat * (mkServerWorkerCapacity limit n).toNat) ≤ limit.toNat := by
  rw [mkServerWorkerCapacity_toNat h]
  have hdiv : n.toNat * ((limit.toNat - serverFds n.toNat) % 2 ^ 32 / 2 / n.toNat) ≤
      (limit.toNat - serverFds n.toNat) % 2 ^ 32 / 2 := Nat.mul_div_le _ _
  have hmod : (limit.toNat - serverFds n.toNat) % 2 ^ 32 ≤ limit.toNat - serverFds n.toNat := Nat.mod_le _ _
  omega

/-! ## where the open descriptors are -/

/-- A descriptor that is open is in the interest list of a worker, or in the hands of the listener. -/
def Accounted (cfg : Config) (s : System) : Prop :=
  ∀ fd ∈ s.openFds, (∃ i < cfg.workers, fd ∈ (s.procs i).interest) ∨ s.listener.holds = some fd

theorem Accounted.closeFds {cfg : Config} {s : System} (h : Accounted cfg s) (fds : List Int) :
    Accounted cfg (s.closeFds fds) := by
  intro fd hfd
  simp only [System.closeFds, Finset.mem_filter] at hfd ⊢
  refine (h fd hfd.1).imp_left fun hsome => ?_
  obtain ⟨i, hi, hmem⟩ := hsome
  exact ⟨i, hi, hmem, hfd.2⟩

/-- A worker with the same interest list. -/
theorem Accounted.setProc {cfg : Config} {s : System} (h : Accounted cfg s) {i : Nat} {p : Proc}
    (hinterest : (s.procs i).interest ⊆ p.interest) : Accounted cfg (s.setProc i p) := by
  intro fd hfd
  refine (h fd hfd).imp_left fun hsome => ?_
  obtain ⟨j, hj, hmem⟩ := hsome
  refine ⟨j, hj, ?_⟩
  simp only [System.setProc]
  by_cases hji : j = i
  · subst hji
    rw [Function.update_self]
    exact hinterest hmem
  · rwa [Function.update_of_ne hji]

/-- A worker goes on, and what it has closed is closed everywhere. -/
theorem Accounted.proceed {cfg : Config} {s : System} (h : Accounted cfg s) {i : Nat} {p : Proc}
    (hinterest : p.interest = (s.procs i).interest) : Accounted cfg (s.proceed i p) :=
  (h.setProc hinterest.ge).closeFds _

/-- The listener lets go of the descriptor that it has closed. -/
theorem Accounted.giveUp {cfg : Config} {s : System} (h : Accounted cfg s) {fd : Int}
    (hl : s.listener.holds = some fd) : Accounted cfg { s.closeFds [fd] with listener := .idle } := by
  intro x hx
  have hne : x ≠ fd := by
    rintro rfl
    simp [System.closeFds] at hx
  rcases h.closeFds [fd] x hx with hmem | hheld
  · exact .inl hmem
  · exact absurd (Option.some.inj (hheld.symm.trans hl)) hne

theorem Accounted.listen {cfg : Config} {s s' : System} {a : Act} (h : Accounted cfg s) (hok : SystemOk cfg s)
    (hs : s.listen cfg a = some s') : Accounted cfg s' := by
  cases System.listens_of_listen hs with
  | accept hl hnew =>
      intro x hx
      rcases Finset.mem_insert.mp hx with rfl | hx
      · exact .inr rfl
      · refine (h x hx).imp_right fun hheld => ?_
        rw [hl] at hheld
        cases hheld
  | readLoad hl hscan =>
      refine fun x hx => (h x hx).imp_right fun hheld => ?_
      rw [hl] at hheld
      exact hheld
  | choose hl htarget =>
      refine fun x hx => (h x hx).imp_right fun hheld => ?_
      rw [hl] at hheld
      exact hheld
  | full hl => exact h.giveUp (by rw [hl]; rfl)
  | refused hl => exact h.giveUp (by rw [hl]; rfl)
  | @handOver fd target hl =>
      have hlistener := hok.listener
      rw [hl] at hlistener
      intro x hx
      rcases h.setProc (p := { s.procs target with interest := insert fd (s.procs target).interest })
        (Finset.subset_insert _ _) x hx with hmem | hheld
      · exact .inl hmem
      · rw [show (s.setProc target _).listener = s.listener from rfl, hl] at hheld
        obtain rfl := Option.some.inj hheld
        exact .inl ⟨target, hlistener.1, by simp [System.setProc]⟩
  | @count fd target hl =>
      intro x hx
      rcases h.setProc (p := { s.procs target with worker := (s.procs target).worker.assign fd })
        (Finset.Subset.refl _) x hx with hmem | hheld
      · exact .inl hmem
      · rw [show (s.setProc target _).listener = s.listener from rfl, hl] at hheld
        cases hheld

theorem Accounted.work {cfg : Config} {s s' : System} {a : Act} (h : Accounted cfg s)
    (hs : s.work cfg a = some s') : Accounted cfg s' := by
  cases System.works_of_work hs with
  | @wait i batch _ _ _ _ => exact h.setProc (p := { s.procs i with ready := batch }) (Finset.Subset.refl _)
  | event _ _ _ => exact h.proceed rfl
  | closeEvent _ _ => exact h.proceed rfl
  | timeouts _ _ _ => exact h.proceed rfl

/-- **Step lemma.** -/
theorem Accounted.step {cfg : Config} {s s' : System} {a : Act} (h : Accounted cfg s) (hok : SystemOk cfg s)
    (hs : System.Step cfg s a s') : Accounted cfg s' := by
  unfold System.Step System.step at hs
  split at hs
  all_goals first
    | exact h.listen hok hs
    | exact h.work hs

/-! ## the budget -/

/-- The connections of all workers. -/
def System.allConns (cfg : Config) (s : System) : Nat := ∑ i ∈ Finset.range cfg.workers, s.openConns i

/-- The descriptors of the server, those of the connections and one more for each of them are within
the limit, and at most the connection that the listener has just accepted comes on top. -/
structure InBudget (cfg : Config) (limit : UInt64) (s : System) : Prop where
  fits : serverFds cfg.workers + 2 * s.allConns cfg ≤ limit.toNat
  accounted : s.openFds.card ≤ s.allConns cfg + s.listener.holds.toList.length

theorem Accounted.card_le {cfg : Config} {s : System} (h : Accounted cfg s) :
    s.openFds.card ≤ s.allConns cfg + s.listener.holds.toList.length := by
  have hsub : s.openFds ⊆ (Finset.range cfg.workers).biUnion (fun i => (s.procs i).interest) ∪
      s.listener.holds.toFinset := by
    intro fd hfd
    rw [Finset.mem_union, Finset.mem_biUnion]
    refine (h fd hfd).imp (fun hsome => ?_) fun hheld => ?_
    · obtain ⟨i, hi, hmem⟩ := hsome
      exact ⟨i, Finset.mem_range.mpr hi, hmem⟩
    · rw [hheld]
      exact Option.mem_toFinset.mpr rfl
  have hholds : s.listener.holds.toFinset.card = s.listener.holds.toList.length := by
    cases s.listener.holds <;> rfl
  calc s.openFds.card
      ≤ _ := Finset.card_le_card hsub
    _ ≤ _ := Finset.card_union_le _ _
    _ ≤ s.allConns cfg + s.listener.holds.toList.length :=
      Nat.add_le_add Finset.card_biUnion_le hholds.le

/-- The load bounds the connections of a worker. -/
theorem SystemOk.openConns_le {cfg : Config} {s : System} (h : SystemOk cfg s) {i : Nat} (hi : i < cfg.workers) :
    s.openConns i ≤ cfg.workerCapacity.toNat := by
  have hbounded := (h.procs i hi).bounded
  refine (Finset.card_le_card ?_).trans (hbounded.lower.trans hbounded.upper)
  exact Finset.subset_union_left.trans Finset.subset_union_right

theorem SystemOk.allConns_le {cfg : Config} {s : System} (h : SystemOk cfg s) :
    s.allConns cfg ≤ cfg.workers * cfg.workerCapacity.toNat := by
  refine (Finset.sum_le_card_nsmul _ _ _ fun i hi => h.openConns_le (Finset.mem_range.mp hi)).trans ?_
  rw [Finset.card_range, smul_eq_mul]

theorem SystemOk.slotsInOrder {cfg : Config} {s : System} (h : SystemOk cfg s) : SlotsInOrder cfg s := by
  intro i hi
  have hproc := h.procs i hi
  refine ⟨hproc.slots, fun fd hfd hslot => ?_⟩
  exact hproc.bounded.av_ne_nil hproc.slots (by simp [hfd]) (mkSchedGetConnection_eq_none.mp hslot)

/-- A worker without slots gets a connection, and has an event for it. -/
theorem slotsInOrder_no_capacity {cfg : Config} (hworkers : 1 ≤ cfg.workers) (hcap : cfg.workerCapacity.toNat = 0) :
    ∃ as s, Run (System.Step cfg) (System.init cfg) as s ∧ ¬ SlotsInOrder cfg s := by
  have hpos : 0 < cfg.workers := hworkers
  have hend : ∃ s, [.accept 0, .readLoad, .choose, .epollAdd true, .count, .wait 0 [0]].foldlM (System.step cfg)
      (System.init cfg) = some s ∧ (s.procs 0).ready = [0] ∧ (s.procs 0).worker.sched.busyQueue = [] ∧
        (s.procs 0).worker.sched.avQueue = [] := by
    simp [System.step, System.listen, System.work, System.init, scanDone, nextTarget, System.setProc, Worker.init,
      Worker.assign, mkSchedRegisterThread, SchedListNode.load, hcap, hpos, hpos.ne]
  obtain ⟨s, hs, hready, hbusy, hav⟩ := hend
  refine ⟨_, s, Run.of_foldlM hs, fun hslots => ?_⟩
  refine (hslots 0 hworkers).2 0 (by simp [hready]) ?_ hav
  rw [mkSchedGetConnection_eq_none, SchedListNode.busyFds, hbusy]
  exact List.not_mem_nil

/-- **Descriptors**: with the capacity that is computed from the limit of the system, no run of the
listener and the workers, in whatever order, takes the server out of its limit or meets a connection
without a slot, exactly if the limit leaves two descriptors for each worker besides those of the server
(where the limit is cut to an `unsigned int`, of what is left below `2 ^ 32`). -/
theorem descriptors_in_budget {cfg : Config} {limit : UInt64} (hworkers : 1 ≤ cfg.workers ∧ cfg.workers < 2 ^ 16)
    (hcap : cfg.workerCapacity = mkServerWorkerCapacity limit (UInt16.ofNat cfg.workers)) :
    (∀ as s, Run (System.Step cfg) (System.init cfg) as s → SlotsInOrder cfg s ∧ InBudget cfg limit s) ↔
      serverFds cfg.workers ≤ limit.toNat ∧ 2 * cfg.workers ≤ (limit.toNat - serverFds cfg.workers) % 2 ^ 32 := by
  have hn : (UInt16.ofNat cfg.workers).toNat = cfg.workers := by
    simpa using Nat.mod_eq_of_lt hworkers.2
  have hcapacity : serverFds cfg.workers ≤ limit.toNat →
      cfg.workerCapacity.toNat = (limit.toNat - serverFds cfg.workers) % 2 ^ 32 / 2 / cfg.workers := by
    intro hlimit
    have htoNat := mkServerWorkerCapacity_toNat (n := UInt16.ofNat cfg.workers) (hn.symm ▸ hlimit)
    rwa [← hcap, hn] at htoNat
  constructor
  · intro hall
    have hlimit : serverFds cfg.workers ≤ limit.toNat :=
      le_trans (Nat.le_add_right _ _) (hall [] _ (.nil _)).2.fits
    refine ⟨hlimit, ?_⟩
    by_contra hfew
    have hnone : cfg.workerCapacity.toNat = 0 := by
      rw [hcapacity hlimit, Nat.div_div_eq_div_mul]
      exact Nat.div_eq_of_lt (not_le.mp hfew)
    obtain ⟨as, s, hrun, hslots⟩ := slotsInOrder_no_capacity hworkers.1 hnone
    exact hslots (hall as s hrun).1
  · rintro ⟨hlimit, hroom⟩ as s hrun
    have hpos : 1 ≤ cfg.workerCapacity.toNat := by
      rw [hcapacity hlimit, Nat.div_div_eq_div_mul]
      exact (Nat.one_le_div_iff (by omega)).mpr hroom
    obtain ⟨hok, haccounted⟩ : SystemOk cfg s ∧ Accounted cfg s :=
      hrun.invariant (I := fun s => SystemOk cfg s ∧ Accounted cfg s)
        (fun _ _ _ hi hs => ⟨hi.1.step hpos hs, hi.2.step hi.1 hs⟩)
        ⟨.init cfg, fun _ hfd => absurd hfd (Finset.notMem_empty _)⟩
    refine ⟨hok.slotsInOrder, ?_, haccounted.card_le⟩
    have hbudget := @serverFds_capacity_le limit (UInt16.ofNat cfg.workers) (hn.symm ▸ hlimit)
    rw [hn, ← hcap] at hbudget
    have hconns := hok.allConns_le
    omega

/-- Four workers under the usual limit of a process. -/
def limitedConfig : Config :=
  { sampleConfig with workers := 4, workerCapacity := mkServerWorkerCapacity 1024 4 }

theorem descriptors_in_budget_two_connections :
    ∃ s, Run (System.Step limitedConfig) (System.init limitedConfig)
      [.accept 5, .readLoad, .choose, .epollAdd true, .count, .wait 0 [5], .accept 6,
        .event 0 .read { now := 0, sys := sampleSys }, .readLoad, .readLoad, .choose] s ∧
      SlotsInOrder limitedConfig s ∧ InBudget limitedConfig 1024 s := by
  have hrun : Run (System.Step limitedConfig) (System.init limitedConfig)
      [.accept 5, .readLoad, .choose, .epollAdd true, .count, .wait 0 [5], .accept 6,
        .event 0 .read { now := 0, sys := sampleSys }, .readLoad, .readLoad, .choose] _ := Run.of_foldlM rfl
  exact ⟨_, hrun, (descriptors_in_budget (by decide) rfl).mpr (by decide) _ _ hrun⟩

end Monkey
