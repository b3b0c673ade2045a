import Monkey.Worker.Outcome

/-!
# Monkey.System.Ops

Everything a worker does to its scheduler node is a sequence of three operations:
take a slot for a descriptor it knows of, change a status, release the slot of a
descriptor.  `SchedOps` follows such a sequence together with the set of
descriptors the worker can still get events for; a released descriptor has been
closed and leaves the set.

The operations keep the slots in their two queues (`SlotsOk`) and the number of
descriptors below the load (`Bounded`).
-/

namespace Monkey

/-- A sequence of scheduler operations from `node`, for a worker that knows the
descriptors `known`. -/
inductive SchedOps (node : SchedListNode) (known : Finset Int) :
    SchedListNode → Finset Int → Prop
  | refl : SchedOps node known node known
  | status {n : SchedListNode} {k : Finset Int} (h : SchedOps node known n k) (fd : Int)
      (status : ConnStatus) : SchedOps node known (mkSchedUpdateConnStatus n fd status).2 k
  | take {n n' : SchedListNode} {k : Finset Int} {fd now : Int} (h : SchedOps node known n k)
      (hknown : fd ∈ k) (hslot : fd ∉ n.busyFds) (htake : schedTake n fd now = some n') :
      SchedOps node known n' k
  | release {n : SchedListNode} {k : Finset Int} (h : SchedOps node known n k) (fd : Int) :
      SchedOps node known (schedRelease n fd) (k.erase fd)

/-! ## slots -/

/-- Each of the `cap` slots is in exactly one queue, once, and the available ones
are blank. -/
structure SlotsOk (cap : Nat) (node : SchedListNode) : Prop where
  slots : ((node.avQueue ++ node.busyQueue).map (·.slot)).Perm (List.range cap)
  available : ∀ sc ∈ node.avQueue, sc.socket = -1 ∧ sc.status = .available
  busy : node.busyFds.Nodup

theorem SlotsOk.register (cfg : Config) :
    SlotsOk cfg.workerCapacity.toNat (mkSchedRegisterThread cfg) := by
  refine ⟨?_, ?_, List.nodup_nil⟩
  · simp [mkSchedRegisterThread, Function.comp_def]
  · intro sc hsc
    obtain ⟨i, _, rfl⟩ := List.mem_map.mp hsc
    exact ⟨rfl, rfl⟩

theorem SlotsOk.status {cap : Nat} {node : SchedListNode} (h : SlotsOk cap node) (fd : Int)
    (status : ConnStatus) : SlotsOk cap (mkSchedUpdateConnStatus node fd status).2 := by
  have hav : (mkSchedUpdateConnStatus node fd status).2.avQueue = node.avQueue := by
    unfold mkSchedUpdateConnStatus
    split <;> rfl
  refine ⟨?_, by simpa [hav] using h.available, by simpa using h.busy⟩
  rw [List.map_append, hav, mkSchedUpdateConnStatus_map (fun _ _ => rfl), ← List.map_append]
  exact h.slots

theorem SlotsOk.take {cap : Nat} {node node' : SchedListNode} {fd now : Int} (h : SlotsOk cap node)
    (hslot : fd ∉ node.busyFds) (htake : schedTake node fd now = some node') :
    SlotsOk cap node' := by
  have hbusy : node'.busyFds.Nodup := by
    rw [schedTake_busyFds htake]
    exact h.busy.append (by simp) (by simpa using hslot)
  unfold schedTake at htake
  split at htake
  · contradiction
  · next sc av hav =>
      obtain rfl := Option.some.inj htake
      refine ⟨?_, fun sc' hsc' => h.available sc' ?_, hbusy⟩
      · refine List.Perm.trans ?_ h.slots
        simp only [hav, List.map_append, List.map_cons, List.map_nil, List.cons_append,
          ← List.append_assoc]
        exact List.perm_append_singleton _ _
      · rw [hav]
        exact List.mem_cons_of_mem _ hsc'

theorem SlotsOk.release {cap : Nat} {node : SchedListNode} (h : SlotsOk cap node) (fd : Int) :
    SlotsOk cap (schedRelease node fd) := by
  have hbusy : (schedRelease node fd).busyFds.Nodup := by
    simpa using h.busy.erase fd
  unfold schedRelease at hbusy ⊢
  split
  · exact h
  · next sc hsc =>
      rw [hsc] at hbusy
      refine ⟨?_, ?_, hbusy⟩
      · refine List.Perm.trans ?_ h.slots
        have hperm := (perm_cons_eraseP_of_find? hsc).map (·.slot)
        simp only [List.map_append, List.map_cons, List.append_assoc,
          List.singleton_append]
        exact (hperm.append_left _).symm
      · intro sc' hsc'
        rcases List.mem_append.mp hsc' with hsc' | hsc'
        · exact h.available sc' hsc'
        · rw [List.mem_singleton.mp hsc']
          exact ⟨rfl, rfl⟩

/-- **The operations keep the slots in order.** -/
theorem SchedOps.slotsOk {cap : Nat} {node node' : SchedListNode} {known known' : Finset Int}
    (h : SchedOps node known node' known') (hok : SlotsOk cap node) : SlotsOk cap node' := by
  induction h with
  | refl => exact hok
  | status _ fd status ih => exact ih.status fd status
  | take _ _ hslot htake ih => exact ih.take hslot htake
  | release _ fd ih => exact ih.release fd

/-- A node with fewer busy slots than slots has one to take. -/
theorem SlotsOk.av_ne_nil {cap : Nat} {node : SchedListNode} (h : SlotsOk cap node)
    (hlt : node.busyFds.length < cap) : node.avQueue ≠ [] := by
  intro hav
  have hlen := h.slots.length_eq
  simp only [hav, List.nil_append, List.length_map, List.length_range] at hlen
  simp only [SchedListNode.busyFds, List.length_map] at hlt
  omega

/-! ## the load -/

theorem mkSchedUpdateConnStatus_load (node : SchedListNode) (fd : Int) (status : ConnStatus) :
    (mkSchedUpdateConnStatus node fd status).2.load = node.load := by
  unfold mkSchedUpdateConnStatus
  split <;> rfl

theorem schedTake_load {node node' : SchedListNode} {fd now : Int}
    (h : schedTake node fd now = some node') : node'.load = node.load := by
  unfold schedTake at h
  split at h
  · contradiction
  · obtain rfl := Option.some.inj h
    rfl

/-- A release counts down when a slot held the descriptor. -/
theorem schedRelease_load (node : SchedListNode) (fd : Int) :
    (schedRelease node fd).load = if fd ∈ node.busyFds then node.load - 1 else node.load := by
  unfold schedRelease
  split
  · next h => rw [if_neg (mkSchedGetConnection_eq_none.mp h)]
  · next h =>
      rw [if_pos (mem_busyFds_of_get h)]
      simp only [SchedListNode.load]
      grind

/-- The descriptors of a worker, registered or only known, are no more than its
load, which is within its capacity.  `pend` is the connection the listener has
handed over and not yet counted. -/
structure Bounded (cap : Nat) (pend : UInt64) (node : SchedListNode) (known : Finset Int) :
    Prop where
  lower : (node.busyFds.toFinset ∪ known).card ≤ (node.load + pend).toNat
  upper : (node.load + pend).toNat ≤ cap

theorem Bounded.mono {cap : Nat} {pend : UInt64} {node : SchedListNode} {known known' : Finset Int}
    (h : Bounded cap pend node known) (hsub : known' ⊆ known) : Bounded cap pend node known' :=
  ⟨(Finset.card_le_card (Finset.union_subset_union_right hsub)).trans h.lower, h.upper⟩

/-- Counting down from a load that is not zero. -/
theorem toNat_load_pred {load pend : UInt64} (h : 1 ≤ (load + pend).toNat) :
    (load - 1 + pend).toNat = (load + pend).toNat - 1 := by
  have hcomm : load - 1 + pend = load + pend - 1 := by grind
  rw [hcomm, UInt64.toNat_sub_of_le _ _ (by simpa [UInt64.le_iff_toNat_le] using h)]
  rfl

theorem Bounded.release {cap : Nat} {pend : UInt64} {node : SchedListNode} {known : Finset Int}
    (h : Bounded cap pend node known) (hb : node.busyFds.Nodup) (fd : Int) :
    Bounded cap pend (schedRelease node fd) (known.erase fd) := by
  have hset : ((schedRelease node fd).busyFds.toFinset ∪ known.erase fd) =
      (node.busyFds.toFinset ∪ known).erase fd := by
    ext x
    simp only [schedRelease_busyFds, Finset.mem_union, List.mem_toFinset, hb.mem_erase_iff,
      Finset.mem_erase]
    tauto
  by_cases hfd : fd ∈ node.busyFds
  · have hmem : fd ∈ node.busyFds.toFinset ∪ known := by simp [hfd]
    have hpos : 1 ≤ (node.load + pend).toNat :=
      le_trans (Finset.card_pos.mpr ⟨fd, hmem⟩) h.lower
    refine ⟨?_, ?_⟩
    all_goals rw [schedRelease_load, if_pos hfd, toNat_load_pred hpos]
    · rw [hset, Finset.card_erase_of_mem hmem]
      exact Nat.sub_le_sub_right h.lower 1
    · exact (Nat.sub_le _ _).trans h.upper
  · refine ⟨?_, ?_⟩
    all_goals rw [schedRelease_load, if_neg hfd]
    · rw [hset]
      exact (Finset.card_le_card (Finset.erase_subset _ _)).trans h.lower
    · exact h.upper

theorem Bounded.take {cap : Nat} {pend : UInt64} {node node' : SchedListNode} {known : Finset Int}
    {fd now : Int} (h : Bounded cap pend node known) (hknown : fd ∈ known)
    (htake : schedTake node fd now = some node') : Bounded cap pend node' known := by
  have hset : node'.busyFds.toFinset ∪ known = node.busyFds.toFinset ∪ known := by
    ext x
    simp only [schedTake_busyFds htake, List.toFinset_append, Finset.mem_union, List.mem_toFinset,
      List.mem_singleton]
    constructor
    · rintro ((hx | rfl) | hx)
      · exact .inl hx
      · exact .inr hknown
      · exact .inr hx
    · rintro (hx | hx)
      · exact .inl (.inl hx)
      · exact .inr hx
  exact ⟨by rw [hset, schedTake_load htake]; exact h.lower, by
    rw [schedTake_load htake]
    exact h.upper⟩

/-- The listener hands over a descriptor to a worker below its capacity. -/
theorem Bounded.handOver {cap : Nat} {node : SchedListNode} {interest ready : Finset Int}
    (h : Bounded cap 0 node (interest ∪ ready)) (hlt : node.load.toNat < cap)
    (hcap : cap < 2 ^ 64) (fd : Int) : Bounded cap 1 node (insert fd interest ∪ ready) := by
  have hload : (node.load + 1).toNat = node.load.toNat + 1 := by
    rw [UInt64.toNat_add]
    exact Nat.mod_eq_of_lt (by simpa using by omega)
  have hlower := h.lower
  rw [UInt64.add_zero] at hlower
  refine ⟨?_, by omega⟩
  rw [hload, Finset.insert_union, Finset.union_insert]
  exact (Finset.card_insert_le _ _).trans (Nat.succ_le_succ hlower)

/-- The listener counts what it has handed over. -/
theorem Bounded.count {cap : Nat} {w : Worker} {known : Finset Int}
    (h : Bounded cap 1 w.sched known) (fd : Int) : Bounded cap 0 (w.assign fd).sched known := by
  have hload : (w.assign fd).sched.load + 0 = w.sched.load + 1 := by
    simp only [Worker.assign, SchedListNode.load]
    grind
  exact ⟨hload ▸ h.lower, hload ▸ h.upper⟩

/-- **The operations keep the descriptors below the load**, and the load goes
down only. -/
theorem SchedOps.bounded {cap : Nat} {pend : UInt64} {node node' : SchedListNode}
    {known known' : Finset Int} (h : SchedOps node known node' known') (hok : SlotsOk cap node)
    (hb : Bounded cap pend node known) :
    Bounded cap pend node' known' ∧ (node'.load + pend).toNat ≤ (node.load + pend).toNat := by
  induction h with
  | refl => exact ⟨hb, le_rfl⟩
  | status _ fd status ih =>
      rw [mkSchedUpdateConnStatus_load]
      refine ⟨⟨?_, ?_⟩, ih.2⟩
      · rw [mkSchedUpdateConnStatus_busyFds, mkSchedUpdateConnStatus_load]
        exact ih.1.lower
      · rw [mkSchedUpdateConnStatus_load]
        exact ih.1.upper
  | take _ hknown _ htake ih =>
      rw [schedTake_load htake]
      exact ⟨ih.1.take hknown htake, ih.2⟩
  | @release n k hops fd ih =>
      have hn := hops.slotsOk hok
      refine ⟨ih.1.release hn.busy fd, le_trans ?_ ih.2⟩
      rw [schedRelease_load]
      split
      · next hfd =>
          have hpos : 1 ≤ (n.load + pend).toNat :=
            le_trans (Finset.card_pos.mpr ⟨fd, by simp [hfd]⟩) ih.1.lower
          rw [toNat_load_pred hpos]
          exact Nat.sub_le _ _
      · exact le_rfl

/-- A worker that knows of a descriptor without a slot has a slot to take. -/
theorem Bounded.av_ne_nil {cap : Nat} {pend : UInt64} {node : SchedListNode} {known : Finset Int}
    {fd : Int} (h : Bounded cap pend node known) (hok : SlotsOk cap node) (hknown : fd ∈ known)
    (hslot : fd ∉ node.busyFds) : node.avQueue ≠ [] := by
  apply hok.av_ne_nil
  have hsub : insert fd node.busyFds.toFinset ⊆ node.busyFds.toFinset ∪ known := by
    intro x hx
    rcases Finset.mem_insert.mp hx with rfl | hx
    · exact Finset.mem_union_right _ hknown
    · exact Finset.mem_union_left _ hx
  have hcard := Finset.card_le_card hsub
  rw [Finset.card_insert_of_notMem (by simpa using hslot), List.toFinset_card_of_nodup hok.busy]
    at hcard
  have := h.lower
  have := h.upper
  omega

end Monkey
