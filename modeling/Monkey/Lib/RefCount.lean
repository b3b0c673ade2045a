import Mathlib.Tactic

/-!
# Monkey.Lib.RefCount

A pool of cells that count the references to them.  A cell is freed when its count is
not positive after a release; its place in the pool is not given out again.

`Counts pool owners` says that the counts are right: `owners` are the cells that are
referred to, one entry for each reference.  `Exact pool owners` says it of all cells: those
that are not referred to have been freed.
-/

namespace Monkey

/-- A value with the number of its references, and whether it has not been freed. -/
structure Counted (α : Type*) where
  val : α
  refs : Int := 0
  live : Bool := true
deriving DecidableEq, Repr

/-- The cells in the order of their allocation. -/
abbrev Pool (α : Type*) := List (Counted α)

namespace Counted

variable {α : Type*}

/-- A reference more. -/
def retain (c : Counted α) : Counted α := { c with refs := c.refs + 1 }

/-- A reference less; without one left the cell is freed. -/
def release (c : Counted α) : Counted α :=
  { c with refs := c.refs - 1, live := c.live && decide (0 < c.refs - 1) }

/-- A change of the value. -/
def map (f : α → α) (c : Counted α) : Counted α := { c with val := f c.val }

@[simp]
theorem retain_val (c : Counted α) : c.retain.val = c.val := rfl

@[simp]
theorem map_val (f : α → α) (c : Counted α) : (c.map f).val = f c.val := rfl

theorem release_iterate (c : Counted α) (n : Nat) :
    release^[n] c =
      { val := c.val, refs := c.refs - n, live := c.live && (decide (n = 0) || decide (0 < c.refs - n)) } := by
  induction n generalizing c with
  | zero => simp
  | succ n ih =>
      rw [Function.iterate_succ_apply, ih, release]
      congr 1
      · push_cast
        omega
      · -- the counts only fall, so the last one decides
        rw [Bool.and_assoc]
        congr 1
        rw [Bool.eq_iff_iff]
        simp only [Bool.and_eq_true, Bool.or_eq_true, decide_eq_true_eq, Nat.succ_ne_zero, false_or]
        push_cast
        omega

end Counted

namespace Pool

variable {α : Type*}

/-- A new cell with one reference, and its place. -/
def add (pool : Pool α) (val : α) : Pool α := pool ++ [{ val := val, refs := 1 }]

/-- The references in `ps` are given back. -/
def releaseAll (pool : Pool α) (ps : List Nat) : Pool α :=
  ps.foldl (fun pool p => pool.modify p Counted.release) pool

/-- The counts are right: a cell that is referred to is live, and counts its references. -/
def Counts (pool : Pool α) (owners : List Nat) : Prop :=
  ∀ p ∈ owners, ∃ c, pool[p]? = some c ∧ c.live = true ∧ c.refs = owners.count p

variable {pool : Pool α} {owners owners' ps : List Nat} {p : Nat} {c : Counted α}

theorem getElem?_releaseAll (pool : Pool α) (ps : List Nat) (p : Nat) :
    (releaseAll pool ps)[p]? = (pool[p]?).map Counted.release^[ps.count p] := by
  induction ps generalizing pool with
  | nil => simp [releaseAll]
  | cons q ps ih =>
      have hcons : releaseAll pool (q :: ps) = releaseAll (pool.modify q Counted.release) ps := rfl
      rw [hcons, ih, List.getElem?_modify, List.count_cons]
      by_cases hq : q = p
      · simp [hq, Function.comp_def]
      · simp [hq]

theorem length_releaseAll (pool : Pool α) (ps : List Nat) : (releaseAll pool ps).length = pool.length := by
  induction ps generalizing pool with
  | nil => rfl
  | cons q ps ih => exact (ih _).trans (List.length_modify ..)

/-- A release keeps what is known of all values. -/
theorem forall_val_releaseAll {P : α → Prop} (h : ∀ c ∈ pool, P c.val) :
    ∀ c ∈ releaseAll pool ps, P c.val := by
  intro c hc
  obtain ⟨p, hp⟩ := List.mem_iff_getElem?.mp hc
  rw [getElem?_releaseAll] at hp
  obtain ⟨d, hd, rfl⟩ := Option.map_eq_some_iff.mp hp
  rw [Counted.release_iterate]
  exact h d (List.mem_of_getElem? hd)

theorem forall_val_modify {P : α → Prop} {f : Counted α → Counted α} (h : ∀ c ∈ pool, P c.val)
    (hf : ∀ c, pool[p]? = some c → P (f c).val) : ∀ c ∈ pool.modify p f, P c.val := by
  intro c hc
  obtain ⟨q, hq⟩ := List.mem_iff_getElem?.mp hc
  rw [List.getElem?_modify] at hq
  obtain ⟨d, hd, rfl⟩ := Option.map_eq_some_iff.mp hq
  split
  · next heq => exact hf d (heq ▸ hd)
  · exact h d (List.mem_of_getElem? hd)

namespace Counts

theorem nil (pool : Pool α) : Counts pool [] := by simp [Counts]

/-- A change of a value leaves the counts. -/
theorem modify (h : Counts pool owners) (p : Nat) (f : α → α) : Counts (pool.modify p (Counted.map f)) owners := by
  intro q hq
  obtain ⟨c, hc, hlive, hrefs⟩ := h q hq
  rw [List.getElem?_modify, hc]
  split
  · exact ⟨_, rfl, hlive, hrefs⟩
  · exact ⟨_, rfl, hlive, hrefs⟩

/-- The owner of a new cell. -/
theorem add (h : Counts pool owners) (val : α) : Counts (pool.add val) (pool.length :: owners) := by
  have hlt : ∀ q ∈ owners, q < pool.length := fun q hq => by
    obtain ⟨c, hc, -⟩ := h q hq
    exact (List.getElem?_eq_some_iff.mp hc).1
  intro q hq
  obtain rfl | hq := List.mem_cons.mp hq
  · refine ⟨_, List.getElem?_concat_length, rfl, ?_⟩
    rw [List.count_cons_self, List.count_eq_zero.mpr fun hmem => lt_irrefl _ (hlt _ hmem)]
    rfl
  · obtain ⟨c, hc, hlive, hrefs⟩ := h q hq
    refine ⟨c, ?_, hlive, ?_⟩
    · rw [Pool.add, List.getElem?_append_left (hlt q hq), hc]
    · rw [List.count_cons_of_ne (hlt q hq).ne', hrefs]

/-- A reference more to a cell that has one. -/
theorem retain (h : Counts pool owners) (hp : p ∈ owners) :
    Counts (pool.modify p Counted.retain) (p :: owners) := by
  intro q hq
  have hmem : q ∈ owners := by
    obtain rfl | hq := List.mem_cons.mp hq
    · exact hp
    · exact hq
  obtain ⟨c, hc, hlive, hrefs⟩ := h q hmem
  rw [List.getElem?_modify, hc]
  by_cases hqp : p = q
  · subst hqp
    refine ⟨c.retain, by simp, hlive, ?_⟩
    rw [List.count_cons_self, Counted.retain, hrefs]
    rfl
  · refine ⟨c, by simp [hqp], hlive, ?_⟩
    rw [List.count_cons_of_ne hqp]
    exact hrefs

/-- The owners that are left after a release. -/
theorem releaseAll (h : Counts pool owners) (hcount : ∀ q, owners.count q = owners'.count q + ps.count q) :
    Counts (pool.releaseAll ps) owners' := by
  intro q hq
  have hpos := List.count_pos_iff.mpr hq
  obtain ⟨c, hc, hlive, hrefs⟩ := h q (List.count_pos_iff.mp (by rw [hcount]; omega))
  refine ⟨_, by rw [getElem?_releaseAll, hc]; rfl, ?_, ?_⟩
  · simp only [Counted.release_iterate, hlive, hrefs, hcount, Bool.true_and, Bool.or_eq_true,
      decide_eq_true_eq]
    push_cast
    omega
  · simp only [Counted.release_iterate, hrefs, hcount]
    push_cast
    omega

/-- The order of the owners does not matter. -/
theorem of_count (h : Counts pool owners) (hcount : ∀ q, owners.count q = owners'.count q) : Counts pool owners' :=
  @releaseAll _ _ _ _ [] h hcount

/-- **A cell whose last reference is given back is freed.** -/
theorem freed (h : Counts pool owners) (hcount : ∀ q, owners.count q = owners'.count q + ps.count q)
    (hp : p ∈ owners) (hnot : p ∉ owners') :
    ∃ c, (pool.releaseAll ps)[p]? = some c ∧ c.live = false := by
  obtain ⟨c, hc, hlive, hrefs⟩ := h p hp
  refine ⟨_, by rw [getElem?_releaseAll, hc]; rfl, ?_⟩
  have hpos := List.count_pos_iff.mpr hp
  have hzero := List.count_eq_zero.mpr hnot
  have hall := hcount p
  rw [Counted.release_iterate, hlive, hrefs]
  simp only [Bool.true_and, Bool.or_eq_false_iff, decide_eq_false_iff_not]
  omega

end Counts

/-- Every cell counts its references, and is live as long as it has one. -/
structure Exact (pool : Pool α) (owners : List Nat) : Prop where
  refs : ∀ p c, pool[p]? = some c → c.refs = (owners.count p : Int)
  live : ∀ p c, pool[p]? = some c → (c.live = true ↔ p ∈ owners)
  inside : ∀ p ∈ owners, p < pool.length

namespace Exact

theorem nil : Exact ([] : Pool α) [] := ⟨by simp, by simp, by simp⟩

theorem counts (h : Exact pool owners) : Counts pool owners := by
  intro p hp
  have hc := List.getElem?_eq_getElem (h.inside p hp)
  exact ⟨_, hc, (h.live p _ hc).mpr hp, h.refs p _ hc⟩

/-- The order of the owners does not matter. -/
theorem of_count (h : Exact pool owners) (hcount : ∀ q, owners.count q = owners'.count q) : Exact pool owners' := by
  have hmem : ∀ q, q ∈ owners ↔ q ∈ owners' := fun q => by
    rw [← List.count_pos_iff, ← List.count_pos_iff, hcount]
  refine ⟨fun p c hc => ?_, fun p c hc => ?_, fun p hp => h.inside p ((hmem p).mpr hp)⟩
  · rw [← hcount]
    exact h.refs p c hc
  · rw [← hmem]
    exact h.live p c hc

/-- A change of a value leaves the counts. -/
theorem modify (h : Exact pool owners) (p : Nat) (f : α → α) : Exact (pool.modify p (Counted.map f)) owners := by
  have hold : ∀ (q : Nat) (c : Counted α), (pool.modify p (Counted.map f))[q]? = some c →
      ∃ d, pool[q]? = some d ∧ c.refs = d.refs ∧ c.live = d.live := by
    intro q c hc
    rw [List.getElem?_modify] at hc
    obtain ⟨d, hd, rfl⟩ := Option.map_eq_some_iff.mp hc
    split
    · exact ⟨d, hd, rfl, rfl⟩
    · exact ⟨d, hd, rfl, rfl⟩
  refine ⟨fun q c hc => ?_, fun q c hc => ?_, fun q hq => by rw [List.length_modify]; exact h.inside q hq⟩
  · obtain ⟨d, hd, hrefs, -⟩ := hold q c hc
    rw [hrefs, h.refs q d hd]
  · obtain ⟨d, hd, -, hlive⟩ := hold q c hc
    rw [hlive, h.live q d hd]

/-- The owner of a new cell. -/
theorem add (h : Exact pool owners) (val : α) : Exact (pool.add val) (pool.length :: owners) := by
  have hnew : pool.length ∉ owners := fun hmem => lt_irrefl _ (h.inside _ hmem)
  have hcell : ∀ p c, (pool.add val)[p]? = some c →
      pool[p]? = some c ∧ p < pool.length ∨ p = pool.length ∧ c = { val := val, refs := 1 } := by
    intro p c hc
    obtain hlt | heq | hgt := Nat.lt_trichotomy p pool.length
    · rw [Pool.add, List.getElem?_append_left hlt] at hc
      exact .inl ⟨hc, hlt⟩
    · rw [heq, Pool.add, List.getElem?_concat_length] at hc
      exact .inr ⟨heq, (Option.some.inj hc).symm⟩
    · rw [Pool.add, List.getElem?_eq_none (by rw [List.length_append, List.length_singleton]; exact hgt)] at hc
      contradiction
  refine ⟨fun p c hc => ?_, fun p c hc => ?_, fun p hp => ?_⟩
  · obtain ⟨hold, hlt⟩ | ⟨rfl, rfl⟩ := hcell p c hc
    · rw [List.count_cons_of_ne hlt.ne', h.refs p c hold]
    · rw [List.count_cons_self, List.count_eq_zero.mpr hnew]
      rfl
  · obtain ⟨hold, hlt⟩ | ⟨rfl, rfl⟩ := hcell p c hc
    · rw [h.live p c hold, List.mem_cons, or_iff_right hlt.ne]
    · simp
  · rw [Pool.add, List.length_append, List.length_singleton]
    obtain rfl | hp := List.mem_cons.mp hp
    · exact Nat.lt_succ_self _
    · exact Nat.lt_succ_of_lt (h.inside p hp)

/-- A reference more to a cell that has one. -/
theorem retain (h : Exact pool owners) (hp : p ∈ owners) : Exact (pool.modify p Counted.retain) (p :: owners) := by
  refine ⟨fun q c hc => ?_, fun q c hc => ?_, fun q hq => ?_⟩
  · rw [List.getElem?_modify] at hc
    obtain ⟨d, hd, rfl⟩ := Option.map_eq_some_iff.mp hc
    have hrefs := h.refs q d hd
    by_cases hqp : p = q
    · rw [if_pos hqp, Counted.retain, hqp, List.count_cons_self, hrefs]
      rfl
    · rw [if_neg hqp, List.count_cons_of_ne hqp, ← hrefs]
  · rw [List.getElem?_modify] at hc
    obtain ⟨d, hd, rfl⟩ := Option.map_eq_some_iff.mp hc
    have hlive := h.live q d hd
    by_cases hqp : p = q
    · rw [if_pos hqp]
      refine Iff.trans hlive (iff_of_true (hqp ▸ hp) ?_)
      rw [hqp]
      exact List.mem_cons_self
    · rw [if_neg hqp, List.mem_cons, or_iff_right (Ne.symm hqp), ← hlive]
  · rw [List.length_modify]
    obtain rfl | hq := List.mem_cons.mp hq
    · exact h.inside q hp
    · exact h.inside q hq

/-- The owners that are left after a release. -/
theorem releaseAll (h : Exact pool owners) (hcount : ∀ q, owners.count q = owners'.count q + ps.count q) :
    Exact (pool.releaseAll ps) owners' := by
  refine ⟨fun q c hc => ?_, fun q c hc => ?_, fun q hq => ?_⟩
  · rw [getElem?_releaseAll] at hc
    obtain ⟨d, hd, rfl⟩ := Option.map_eq_some_iff.mp hc
    rw [Counted.release_iterate, h.refs q d hd, hcount]
    push_cast
    omega
  · rw [getElem?_releaseAll] at hc
    obtain ⟨d, hd, rfl⟩ := Option.map_eq_some_iff.mp hc
    have hlive := h.live q d hd
    have hrefs := h.refs q d hd
    have hsum := hcount q
    rw [← List.count_pos_iff] at hlive ⊢
    rw [Counted.release_iterate]
    simp only [Bool.and_eq_true, Bool.or_eq_true, decide_eq_true_eq, hlive, hrefs]
    omega
  · rw [length_releaseAll]
    refine h.inside q (List.count_pos_iff.mp ?_)
    have hpos := List.count_pos_iff.mpr hq
    rw [hcount]
    omega

end Exact

end Pool

end Monkey
