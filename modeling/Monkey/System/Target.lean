import Monkey.System.Load

/-!
# Monkey.System.Target

The worker `_next_target` chooses: one with the smallest load, as long as that load
is below the capacity.  The scan stops early on a worker without connections, whose
load no other can undercut.
-/

namespace Monkey

/-- `_next_target` on `sched_list`. -/
def nextTargetOf (cfg : Config) (schedList : Nat → SchedListNode) : Option Nat :=
  nextTarget cfg ((List.range cfg.workers).map fun i => (schedList i).load)

/-- The connections a worker has accepted and not closed yet. -/
def SchedListNode.active (node : SchedListNode) : Nat :=
  node.acceptedConnections.toNat - node.closedConnections.toNat

theorem SchedListNode.load_toNat {node : SchedListNode}
    (h : node.closedConnections ≤ node.acceptedConnections) : node.load.toNat = node.active :=
  UInt64.toNat_sub_of_le _ _ h

/-! ## the scan -/

/-- No load the loop passes, and none it leaves unread, is below the one it keeps. -/
theorem nextTargetLoop_le {i target t : Nat} {cur c : UInt64} {loads : List UInt64}
    (h : nextTargetLoop i target cur loads = (t, c)) :
    c.toNat ≤ cur.toNat ∧ ∀ l ∈ loads, c.toNat ≤ l.toNat := by
  induction loads generalizing i target cur with
  | nil =>
      simp only [nextTargetLoop, Prod.mk.injEq] at h
      simp [h.2]
  | cons tmp loads ih =>
      rw [nextTargetLoop] at h
      split at h
      · next hlt =>
          rw [UInt64.lt_iff_toNat_lt] at hlt
          split at h
          · next hzero =>
              -- an idle worker ends the scan
              simp only [Prod.mk.injEq] at h
              simp [← h.2, hzero]
          · obtain ⟨hcur, hloads⟩ := ih h
            exact ⟨hcur.trans hlt.le, List.forall_mem_cons.mpr ⟨hcur, hloads⟩⟩
      · next hlt =>
          rw [UInt64.lt_iff_toNat_lt, not_lt] at hlt
          obtain ⟨hcur, hloads⟩ := ih h
          exact ⟨hcur, List.forall_mem_cons.mpr ⟨hcur.trans hlt, hloads⟩⟩

/-- What a scan ends with: a worker with the smallest load, and the comparison of
that load with the capacity. -/
theorem nextTarget_scan {cfg : Config} {loads : List UInt64} (hne : loads ≠ [])
    (hcap : 1 ≤ cfg.workerCapacity.toNat) :
    ∃ t c, loads[t]? = some c ∧ (∀ l ∈ loads, c.toNat ≤ l.toNat) ∧
      nextTarget cfg loads = if c.toNat < cfg.workerCapacity.toNat then some t else none := by
  cases loads with
  | nil => contradiction
  | cons cur loads =>
      rw [nextTarget]
      by_cases hzero : cur = 0
      · refine ⟨0, 0, by simp [hzero], fun l _ => Nat.zero_le _, ?_⟩
        rw [if_pos hzero, UInt64.toNat_zero, if_pos (Nat.lt_of_succ_le hcap)]
      · obtain ⟨⟨t, c⟩, hloop⟩ : ∃ p, nextTargetLoop 1 0 cur loads = p := ⟨_, rfl⟩
        obtain ⟨hcur, hloads⟩ := nextTargetLoop_le hloop
        refine ⟨t, c, ?_, List.forall_mem_cons.mpr ⟨hcur, hloads⟩, ?_⟩
        · rcases nextTargetLoop_spec hloop with ⟨rfl, rfl⟩ | ⟨ht, hc⟩
          · rfl
          · rw [show t = (t - 1) + 1 by omega, List.getElem?_cons_succ]
            exact hc
        · rw [if_neg hzero, hloop]
          simp only [ge_iff_le, UInt64.le_iff_toNat_le, UInt32.toNat_toUInt64]
          split <;> split <;> first | rfl | omega

/-! ## the choice -/

/-- **Target**: with `closed_connections ≤ accepted_connections` everywhere, `_next_target`
fails exactly when every worker is full, and otherwise returns a worker below the capacity
whose load is minimal. -/
theorem nextTargetOf_minimal {cfg : Config} {schedList : Nat → SchedListNode}
    (hworkers : 1 ≤ cfg.workers) (hcap : 1 ≤ cfg.workerCapacity.toNat)
    (hcounts : ∀ i < cfg.workers,
      (schedList i).closedConnections ≤ (schedList i).acceptedConnections) :
    (nextTargetOf cfg schedList = none ↔
      ∀ i < cfg.workers, cfg.workerCapacity.toNat ≤ (schedList i).active) ∧
    ∀ t, nextTargetOf cfg schedList = some t →
      t < cfg.workers ∧ (schedList t).active < cfg.workerCapacity.toNat ∧
      ∀ i < cfg.workers, (schedList t).active ≤ (schedList i).active := by
  have hload : ∀ i < cfg.workers, (schedList i).load.toNat = (schedList i).active :=
    fun i hi => SchedListNode.load_toNat (hcounts i hi)
  obtain ⟨t, c, ht, hmin, hnext⟩ := @nextTarget_scan cfg
    ((List.range cfg.workers).map fun i => (schedList i).load) (by simp; omega) hcap
  obtain ⟨hlt, rfl⟩ : t < cfg.workers ∧ (schedList t).load = c := by
    obtain ⟨j, hj, hload⟩ := Option.map_eq_some_iff.mp ((List.getElem?_map).symm.trans ht)
    obtain ⟨hlt, hget⟩ := List.getElem?_eq_some_iff.mp hj
    simp only [List.length_range, List.getElem_range] at hlt hget
    exact ⟨hlt, hget ▸ hload⟩
  have hle : ∀ i < cfg.workers, (schedList t).active ≤ (schedList i).active := by
    intro i hi
    have := hmin _ (List.mem_map_of_mem (List.mem_range.mpr hi))
    rwa [hload t hlt, hload i hi] at this
  rw [nextTargetOf, hnext, hload t hlt]
  by_cases hfull : (schedList t).active < cfg.workerCapacity.toNat
  · rw [if_pos hfull]
    refine ⟨⟨fun hnone => by contradiction, fun hall => ?_⟩, fun t' ht' => ?_⟩
    · exact absurd (hall t hlt) (by omega)
    · obtain rfl := Option.some.inj ht'
      exact ⟨hlt, hfull, hle⟩
  · rw [if_neg hfull]
    refine ⟨⟨fun _ i hi => ?_, fun _ => rfl⟩, fun t' ht' => by contradiction⟩
    exact (not_lt.mp hfull).trans (hle i hi)

/-- Two workers with one connection each, of three they may have. -/
theorem nextTargetOf_minimal_two :
    (nextTargetOf { sampleConfig with workers := 2, workerCapacity := 3 }
      (fun i => { acceptedConnections := 4 - .ofNat i, closedConnections := 2 }) = some 1) ∧
    (∀ i < 2, ((fun i => { acceptedConnections := 4 - .ofNat i, closedConnections := 2 } :
        Nat → SchedListNode) 1).active ≤
      ((fun i => { acceptedConnections := 4 - .ofNat i, closedConnections := 2 } :
        Nat → SchedListNode) i).active) := by
  have hnext : nextTargetOf { sampleConfig with workers := 2, workerCapacity := 3 }
      (fun i => { acceptedConnections := 4 - .ofNat i, closedConnections := 2 }) = some 1 := by
    decide
  exact ⟨hnext, ((nextTargetOf_minimal (by decide) (by decide) (by decide)).2 1 hnext).2.2⟩

end Monkey
