import Monkey.Fastcgi.Request
import Monkey.Lib.Clock

/-!
# Monkey.Fastcgi.Fairness

How long a request of a location waits for a connection to take it.  Each location has
a clock hand over the list that all locations share; the hand moves to the request that
is returned, and whatever else is done to the list leaves it where it is.

A run is any sequence of the operations on the list, in which everything else the plugin does
to a slot is one operation with any effect.  That a connection asks again at all is not
promised here: the bound is in the selections made for the location.
-/

namespace Monkey.Fastcgi

/-! ## the loops over the list -/

/-- The `do … while (i != clock)` loops of `request.c`, which wrap around by the mask.  The
fuel is for the slots still to be looked at. -/
def maskedScan (rs : List Request) (mask clock : UInt16) (p : Request → Bool) : Nat → UInt16 → Option UInt16
  | 0, _ => none
  | fuel + 1, i =>
      let i := (i + 1) &&& mask
      if p (rs.getD i.toNat {}) then some i
      else if i ≠ clock then maskedScan rs mask clock p fuel i
      else none

theorem clockwise_eq_ringScan (clock size : Nat) : clockwise clock size = ringScan size clock := rfl

/-- A list has a power of two of slots. -/
theorem isPowerOfTwo_of_isPowerOf2 {size : UInt16} (h : isPowerOf2 size = true) : size.toNat.isPowerOfTwo := by
  simp only [isPowerOf2, Bool.and_eq_true, bne_iff_ne, ne_eq, beq_iff_eq] at h
  obtain ⟨hne, hand⟩ := h
  have hpos : size.toNat ≠ 0 := fun h0 => hne (UInt16.toNat_inj.mp h0)
  have hle : (1 : UInt16) ≤ size := UInt16.le_iff_toNat_le.mpr (Nat.one_le_iff_ne_zero.mpr hpos)
  have hand' := congrArg UInt16.toNat hand
  rw [UInt16.toNat_and, UInt16.toNat_sub_of_le _ _ hle] at hand'
  exact (Nat.and_sub_one_eq_zero_iff_isPowerOfTwo hpos).mp hand'

/-- One step under the mask. -/
theorem toNat_masked_step {size i : UInt16} (hsize : isPowerOf2 size = true) (hi : i < size) :
    ((i + 1) &&& (size - 1)).toNat = (i.toNat + 1) % size.toNat := by
  obtain ⟨k, hk⟩ := isPowerOfTwo_of_isPowerOf2 hsize
  have hlt := UInt16.lt_iff_toNat_lt.mp hi
  have hmax := size.toNat_lt
  have hle : (1 : UInt16) ≤ size := UInt16.le_iff_toNat_le.mpr (Nat.one_le_of_lt hlt)
  have hstep : (i + 1).toNat = i.toNat + 1 := by
    rw [UInt16.toNat_add, UInt16.toNat_one, Nat.mod_eq_of_lt (by omega)]
  rw [UInt16.toNat_and, UInt16.toNat_sub_of_le _ _ hle, UInt16.toNat_one, hstep, hk,
    Nat.and_two_pow_sub_one_eq_mod]

section loop

variable {rs : List Request} {size clock : UInt16} {p : Request → Bool}

/-- After `k` slots the loop looks at the rest of the ring, and stops at the hand. -/
theorem maskedScan_eq (hsize : isPowerOf2 size = true) (hclock : clock < size) (n : Nat) :
    ∀ (k : Nat) (i : UInt16), k + (n + 1) = size.toNat → i.toNat = (clock.toNat + k) % size.toNat →
      ∀ fuel, n < fuel → (maskedScan rs (size - 1) clock p fuel i).map UInt16.toNat =
        ((List.range' k (n + 1)).map (ringSlot size.toNat clock.toNat)).find? fun i => p (rs.getD i {}) := by
  have hhand := UInt16.lt_iff_toNat_lt.mp hclock
  have hpos : 0 < size.toNat := Nat.zero_lt_of_lt hhand
  have hstep : ∀ (k : Nat) (i : UInt16), i.toNat = (clock.toNat + k) % size.toNat →
      ((i + 1) &&& (size - 1)).toNat = ringSlot size.toNat clock.toNat k := by
    intro k i hi
    rw [toNat_masked_step hsize (UInt16.lt_iff_toNat_lt.mpr (hi ▸ Nat.mod_lt _ hpos)), hi, Nat.mod_add_mod,
      ringSlot, Nat.add_right_comm]
  induction n with
  | zero =>
      intro k i hk hi fuel hfuel
      obtain ⟨fuel, rfl⟩ := Nat.exists_eq_succ_of_ne_zero (Nat.ne_of_gt hfuel)
      have hnext := hstep k i hi
      have hround : (i + 1) &&& (size - 1) = clock := by
        rw [← UInt16.toNat_inj, hnext, ringSlot, show clock.toNat + 1 + k = clock.toNat + size.toNat by omega,
          Nat.add_mod_right, Nat.mod_eq_of_lt hhand]
      simp only [maskedScan, List.range'_succ, List.range'_zero, List.map_cons, List.map_nil, List.find?_cons,
        List.find?_nil, ← hnext]
      cases p (rs.getD ((i + 1) &&& (size - 1)).toNat {}) with
      | true => rfl
      | false => simp [hround]
  | succ n ih =>
      intro k i hk hi fuel hfuel
      obtain ⟨fuel, rfl⟩ := Nat.exists_eq_succ_of_ne_zero (Nat.ne_of_gt (Nat.zero_lt_of_lt hfuel))
      have hnext := hstep k i hi
      have hon : (i + 1) &&& (size - 1) ≠ clock := by
        rw [← UInt16.toNat_inj.ne, hnext, ringSlot]
        by_cases hwrap : clock.toNat + 1 + k < size.toNat
        · rw [Nat.mod_eq_of_lt hwrap]
          omega
        · rw [Nat.mod_eq_sub_mod (by omega), Nat.mod_eq_of_lt (by omega)]
          omega
      have hrest := ih (k + 1) ((i + 1) &&& (size - 1)) (by omega)
        (by rw [hnext, ringSlot, Nat.add_right_comm, Nat.add_assoc]) fuel (by omega)
      rw [maskedScan, List.range'_succ, List.map_cons, List.find?_cons, ← hnext]
      cases hp : p (rs.getD ((i + 1) &&& (size - 1)).toNat {}) with
      | true => simp
      | false => simpa [hp, hon] using hrest

end loop

/-- **The loops of the list are the scans of the model**, with a hand that is in the list. -/
theorem maskedScan_eq_scanFrom {rl : RequestList} {clockId size clock : UInt16} {p : Request → Bool}
    (hsize : isPowerOf2 size = true) (hlen : rl.rs.length = size.toNat) (hclock : clock < size)
    (hhand : getClockHand rl clockId = clock.toNat) {fuel : Nat} (hfuel : size.toNat ≤ fuel) :
    (maskedScan rl.rs (size - 1) clock p fuel clock).map UInt16.toNat = scanFrom rl clockId p := by
  have hlt := UInt16.lt_iff_toNat_lt.mp hclock
  have hall := @maskedScan_eq rl.rs size clock p hsize hclock (size.toNat - 1) 0 clock (by omega)
    (Nat.mod_eq_of_lt hlt).symm fuel (by omega)
  rw [Nat.sub_add_cancel (Nat.one_le_of_lt hlt), ← List.range_eq_range'] at hall
  rw [hall, scanFrom, hlen, hhand, clockwise_eq_ringScan, ringScan]

/-! ## what is done to the list -/

/-- What the plugin does to the list: a request is assigned to a free slot, a connection
selects an assigned one, a slot is looked up by its descriptor or its id, and `update` is
any other change to one slot, as the end of its request is. -/
inductive ListOp
  | assign (clockId : UInt16) (fd : Int) (client : ClientRequest)
  | select (clockId : UInt16)
  | getByFd (fd : Int)
  | get (reqId : UInt16)
  | update (r : Nat) (q : Request)
deriving DecidableEq, Repr

/-- The list afterwards, and the slot returned. -/
def ListOp.exec (rl : RequestList) : ListOp → RequestList × Option Nat
  | .assign clockId fd client =>
      match requestListNextAvailable rl clockId with
      | none => (rl, none)
      | some r =>
          match requestAssign (rl.rs.getD r {}) fd clockId client with
          | none => (rl, none)
          | some q => ({ rl with rs := rl.rs.set r q }, some r)
  | .select clockId => requestListNextAssigned rl clockId
  | .getByFd fd => requestListGetByFd rl fd
  | .get reqId => requestListGet rl reqId
  | .update r q => ({ rl with rs := rl.rs.set r q }, none)

/-- The list after a run. -/
def RequestList.run (rl : RequestList) (ops : List ListOp) : RequestList :=
  ops.foldl (fun rl op => (op.exec rl).1) rl

/-- The slot one operation returns to a connection of a location. -/
def ListOp.taken (loc : UInt16) (rl : RequestList) (op : ListOp) : List Nat :=
  if op = .select loc then (op.exec rl).2.toList else []

/-- The slots a run returns to the connections of a location, in order. -/
def takenFor (loc : UInt16) (rl : RequestList) : List ListOp → List Nat
  | [] => []
  | op :: ops => op.taken loc rl ++ takenFor loc (op.exec rl).1 ops

/-- The selections of a run for a location. -/
def selections (loc : UInt16) (ops : List ListOp) : Nat := ops.count (.select loc)

/-- Slot `r` waits for a connection of a location. -/
def Waits (rl : RequestList) (loc : UInt16) (r : Nat) : Prop :=
  r < rl.rs.length ∧ (rl.rs.getD r {}).state = .assigned ∧ (rl.rs.getD r {}).clockId = loc

instance (rl : RequestList) (loc : UInt16) (r : Nat) : Decidable (Waits rl loc r) :=
  inferInstanceAs (Decidable (_ ∧ _))

/-- What the loop of `request_list_next_assigned` accepts. -/
theorem Waits.accepted {rl : RequestList} {loc : UInt16} {r : Nat} (h : Waits rl loc r) :
    ((rl.rs.getD r {}).state == .assigned && (rl.rs.getD r {}).clockId == loc) = true := by
  rw [Bool.and_eq_true, beq_iff_eq, beq_iff_eq]
  exact h.2

/-- Slot `r` waits for a location whenever something is done to the list. -/
def StaysWaiting (rl : RequestList) (loc : UInt16) (r : Nat) (ops : List ListOp) : Prop :=
  ∀ done op rest, ops = done ++ op :: rest → Waits (rl.run done) loc r

/-! ## what it leaves alone -/

/-- The sizes of the list, and the hands on slots of it. -/
structure Sized (size clockCount : UInt16) (rl : RequestList) : Prop where
  slots : rl.rs.length = size.toNat
  hands : rl.clockHands.length = clockCount.toNat
  inside : ∀ hand ∈ rl.clockHands, hand < size.toNat

/-- A selection returns the request the scan comes to, and moves the hand there. -/
theorem requestListNextAssigned_cases (rl : RequestList) (loc : UInt16) :
    (requestListNextAssigned rl loc = (rl, none) ∧ ∀ r, ¬ Waits rl loc r) ∨
    ∃ i, (requestListNextAssigned rl loc).2 = some i ∧ Waits rl loc i ∧
      (requestListNextAssigned rl loc).1.rs = rl.rs ∧
      (requestListNextAssigned rl loc).1.clockHands = rl.clockHands.set loc.toNat i ∧
      ∀ r, Waits rl loc r →
        ringWait rl.rs.length (getClockHand rl loc) i ≤ ringWait rl.rs.length (getClockHand rl loc) r := by
  unfold requestListNextAssigned
  cases hscan : scanFrom rl loc fun r => r.state == .assigned && r.clockId == loc with
  | none =>
      refine Or.inl ⟨rfl, fun r hr => ?_⟩
      exact Bool.noConfusion ((scanFrom_eq_none hscan hr.1).symm.trans hr.accepted)
  | some i =>
      obtain ⟨hi, hp, hfirst⟩ := find?_ringScan hscan
      simp only [Bool.and_eq_true, beq_iff_eq] at hp
      exact Or.inr ⟨i, rfl, ⟨hi, hp⟩, rfl, rfl, fun r hr => hfirst r hr.1 hr.accepted⟩

theorem length_rs_exec (rl : RequestList) (op : ListOp) : (op.exec rl).1.rs.length = rl.rs.length := by
  cases op with
  | assign clockId fd client =>
      simp only [ListOp.exec]
      split
      · rfl
      · split
        · rfl
        · exact List.length_set
  | select clockId => rw [ListOp.exec, requestListNextAssigned_rs]
  | getByFd fd => rw [ListOp.exec, requestListGetByFd_rs]
  | get reqId => rw [ListOp.exec, requestListGet_rs]
  | update r q => exact List.length_set

/-- Only a selection moves a hand. -/
theorem clockHands_exec (rl : RequestList) (op : ListOp) :
    (op.exec rl).1.clockHands = rl.clockHands ∨
    ∃ clockId i, op = .select clockId ∧ Waits rl clockId i ∧
      (op.exec rl).1.clockHands = rl.clockHands.set clockId.toNat i := by
  cases op with
  | assign clockId fd client =>
      refine Or.inl ?_
      simp only [ListOp.exec]
      split
      · rfl
      · split <;> rfl
  | select clockId =>
      obtain ⟨hnone, -⟩ | ⟨i, -, hi, -, hhands, -⟩ := requestListNextAssigned_cases rl clockId
      · exact Or.inl (by rw [ListOp.exec, hnone])
      · exact Or.inr ⟨clockId, i, rfl, hi, hhands⟩
  | getByFd fd =>
      refine Or.inl ?_
      simp only [ListOp.exec, requestListGetByFd]
      split
      · rfl
      · split <;> rfl
  | get reqId =>
      refine Or.inl ?_
      simp only [ListOp.exec, requestListGet]
      split <;> rfl
  | update r q => exact Or.inl rfl

section run

variable {size clockCount loc : UInt16} {rl : RequestList}

theorem sized_requestListInit {idOffset : UInt16} (h : requestListInit clockCount idOffset size = some rl) :
    Sized size clockCount rl := by
  unfold requestListInit at h
  split at h
  · next hsize =>
      obtain rfl := Option.some.inj h
      refine ⟨List.length_replicate, List.length_replicate, fun hand hmem => ?_⟩
      rw [(List.mem_replicate.mp hmem).2]
      exact Nat.pos_of_isPowerOfTwo (isPowerOfTwo_of_isPowerOf2 hsize)
  · contradiction

theorem Sized.exec (h : Sized size clockCount rl) (op : ListOp) : Sized size clockCount (op.exec rl).1 := by
  refine ⟨(length_rs_exec rl op).trans h.slots, ?_, ?_⟩
  · obtain heq | ⟨_, _, _, _, heq⟩ := clockHands_exec rl op
    · rw [heq, h.hands]
    · rw [heq, List.length_set, h.hands]
  · obtain heq | ⟨_, i, _, hi, heq⟩ := clockHands_exec rl op
    · exact heq ▸ h.inside
    · rw [heq]
      intro hand hmem
      obtain hold | rfl := List.mem_or_eq_of_mem_set hmem
      · exact h.inside hand hold
      · exact h.slots ▸ hi.1

theorem Sized.run (h : Sized size clockCount rl) (ops : List ListOp) : Sized size clockCount (rl.run ops) := by
  induction ops generalizing rl with
  | nil => exact h
  | cons op ops ih => exact ih (h.exec op)

theorem Sized.getClockHand_lt (h : Sized size clockCount rl) (hloc : loc < clockCount) :
    getClockHand rl loc < size.toNat := by
  have hlt : loc.toNat < rl.clockHands.length := h.hands ▸ UInt16.lt_iff_toNat_lt.mp hloc
  rw [getClockHand, List.getD_eq_getElem?_getD, List.getElem?_eq_getElem hlt]
  exact h.inside _ (List.getElem_mem hlt)

/-- On every list the loops of the code find what the scans of the model do. -/
theorem Sized.scanFrom_eq (h : Sized size clockCount rl) (hsize : isPowerOf2 size = true) (hloc : loc < clockCount)
    (p : Request → Bool) :
    scanFrom rl loc p = (maskedScan rl.rs (size - 1) (UInt16.ofNat (getClockHand rl loc)) p size.toNat
      (UInt16.ofNat (getClockHand rl loc))).map UInt16.toNat := by
  have hlt := h.getClockHand_lt hloc
  have hhand : (UInt16.ofNat (getClockHand rl loc)).toNat = getClockHand rl loc :=
    UInt16.toNat_ofNat_of_lt' (hlt.trans size.toNat_lt)
  have hin : UInt16.ofNat (getClockHand rl loc) < size := by
    rw [UInt16.lt_iff_toNat_lt, hhand]
    exact hlt
  exact (maskedScan_eq_scanFrom hsize h.slots hin hhand.symm le_rfl).symm

/-- The hand of a location after a selection for it. -/
theorem getClockHand_select (h : Sized size clockCount rl) (hloc : loc < clockCount) {rl' : RequestList} {i : Nat}
    (hhands : rl'.clockHands = rl.clockHands.set loc.toNat i) : getClockHand rl' loc = i := by
  have hlt : loc.toNat < rl.clockHands.length := h.hands ▸ UInt16.lt_iff_toNat_lt.mp hloc
  rw [getClockHand, hhands, List.getD_eq_getElem?_getD, List.getElem?_set_self hlt, Option.getD_some]

/-- **One operation** while `r` waits and is not returned: it leaves the hand of the location,
or it is a selection that returns a slot the hand meets before `r`. -/
theorem ListOp.step (h : Sized size clockCount rl) (hloc : loc < clockCount) {r : Nat} (hr : Waits rl loc r)
    {op : ListOp} (hnot : r ∉ op.taken loc rl) :
    (op ≠ .select loc ∧ op.taken loc rl = [] ∧ getClockHand (op.exec rl).1 loc = getClockHand rl loc) ∨
    ∃ i, op = .select loc ∧ op.taken loc rl = [i] ∧ i < size.toNat ∧ getClockHand (op.exec rl).1 loc = i ∧
      ringWait size.toNat (getClockHand rl loc) i < ringWait size.toNat (getClockHand rl loc) r := by
  by_cases hop : op = .select loc
  · subst hop
    rw [ListOp.taken, if_pos rfl] at hnot ⊢
    obtain ⟨-, hnone⟩ | ⟨i, hret, hi, -, hhands, hfirst⟩ := requestListNextAssigned_cases rl loc
    · exact absurd hr (hnone r)
    · rw [ListOp.exec, hret] at hnot ⊢
      rw [h.slots] at hfirst
      refine Or.inr ⟨i, rfl, rfl, h.slots ▸ hi.1, getClockHand_select h hloc hhands,
        lt_of_le_of_ne (hfirst r hr) fun hsame => hnot ?_⟩
      have hi' : i = r := by
        rw [← @ringSlot_ringWait size.toNat (getClockHand rl loc) i (h.slots ▸ hi.1), hsame,
          ringSlot_ringWait (h.slots ▸ hr.1)]
      exact List.mem_singleton.mpr hi'.symm
  · refine Or.inl ⟨hop, if_neg hop, ?_⟩
    obtain heq | ⟨clockId, i, rfl, -, heq⟩ := clockHands_exec rl op
    · rw [getClockHand, getClockHand, heq]
    · have hne : clockId.toNat ≠ loc.toNat := fun hsame => hop (by rw [UInt16.toNat_inj.mp hsame])
      rw [getClockHand, getClockHand, heq, List.getD_eq_getElem?_getD, List.getD_eq_getElem?_getD,
        List.getElem?_set_ne hne]

theorem StaysWaiting.head {r : Nat} {op : ListOp} {ops : List ListOp} (h : StaysWaiting rl loc r (op :: ops)) :
    Waits rl loc r := h [] op ops rfl

theorem StaysWaiting.nil (r : Nat) : StaysWaiting rl loc r [] :=
  fun _ _ _ hsplit => absurd hsplit.symm (List.append_ne_nil_of_right_ne_nil _ (List.cons_ne_nil _ _))

theorem StaysWaiting.cons {r : Nat} {op : ListOp} {ops : List ListOp} (hr : Waits rl loc r)
    (h : StaysWaiting (op.exec rl).1 loc r ops) : StaysWaiting rl loc r (op :: ops) := by
  intro done op' rest hsplit
  cases done with
  | nil => exact hr
  | cons first done =>
      obtain ⟨rfl, htail⟩ := List.cons.inj hsplit
      exact h done op' rest htail

theorem StaysWaiting.tail {r : Nat} {op : ListOp} {ops : List ListOp} (h : StaysWaiting rl loc r (op :: ops)) :
    StaysWaiting (op.exec rl).1 loc r ops :=
  fun done op' rest hsplit => h (op :: done) op' rest (by rw [hsplit, List.cons_append])

/-- **A run** while `r` waits and is not returned: every selection returns another slot, all
of them met before `r` from where the hand was. -/
theorem StaysWaiting.taken {r : Nat} {ops : List ListOp} (h : Sized size clockCount rl) (hloc : loc < clockCount)
    (hr : r < size.toNat) (hstay : StaysWaiting rl loc r ops) (hnot : r ∉ takenFor loc rl ops) :
    (takenFor loc rl ops).Nodup ∧ (takenFor loc rl ops).length = selections loc ops ∧
    selections loc ops ≤ ringWait size.toNat (getClockHand rl loc) r ∧
    ∀ s ∈ takenFor loc rl ops, s < size.toNat ∧
      ringWait size.toNat (getClockHand rl loc) s < ringWait size.toNat (getClockHand rl loc) r := by
  induction ops generalizing rl with
  | nil => exact ⟨List.nodup_nil, rfl, Nat.zero_le _, fun s hs => absurd hs List.not_mem_nil⟩
  | cons op ops ih =>
      rw [takenFor, List.mem_append, not_or] at hnot
      obtain ⟨hnodup, hlen, hfew, hbefore⟩ := ih (h.exec op) hstay.tail hnot.2
      obtain ⟨hop, htaken, hhand⟩ | ⟨i, rfl, htaken, hi, hhand, hlt⟩ := ListOp.step h hloc hstay.head hnot.1
      · rw [hhand] at hfew hbefore
        rw [takenFor, htaken, List.nil_append, selections, List.count_cons_of_ne hop]
        exact ⟨hnodup, hlen, hfew, hbefore⟩
      · have hslot : i = ringSlot size.toNat (getClockHand rl loc) (ringWait size.toNat (getClockHand rl loc) i) :=
          (ringSlot_ringWait hi).symm
        have hmoved := ringWait_moved hr hlt
        have hlater := fun s hs => ringWait_lt_of_moved (s := s) hr hs hlt
        rw [← hslot] at hmoved hlater
        rw [hhand] at hfew hbefore
        have hself := ringWait_self hi
        have hwait : ringWait size.toNat i r < size.toNat := ringWait_lt (Nat.zero_lt_of_lt hr)
        rw [takenFor, htaken, List.singleton_append, selections, List.count_cons_self]
        refine ⟨List.nodup_cons.mpr ⟨fun hmem => ?_, hnodup⟩, ?_, ?_, ?_⟩
        · -- the slot just returned is now the last one the hand meets
          have hearly := (hbefore i hmem).2
          omega
        · rw [List.length_cons, hlen, selections]
        · rw [selections] at hfew
          omega
        · intro s hs
          obtain rfl | hs := List.mem_cons.mp hs
          · exact ⟨hi, hlt⟩
          · exact ⟨(hbefore s hs).1, hlater s (hbefore s hs).1 (hbefore s hs).2⟩

end run

/-- A selection returns nothing exactly when nothing waits. -/
theorem requestListNextAssigned_eq_none {rl : RequestList} {loc : UInt16} :
    (requestListNextAssigned rl loc).2 = none ↔ ∀ r, ¬ Waits rl loc r := by
  obtain ⟨hnone, hall⟩ | ⟨i, hret, hi, -⟩ := requestListNextAssigned_cases rl loc
  · exact iff_of_true (by rw [hnone]) hall
  · exact iff_of_false (by rw [hret]; exact Option.some_ne_none i) fun hall => hall i hi

/-- **No request starves**: on a list after any run, a selection for a location returns nothing
exactly when no slot waits for it, and while slot `r` waits and is not returned, the selections
for its location return pairwise different slots; from `size` selections on `r` is among them. -/
theorem next_assigned_fair {clockCount idOffset size : UInt16} {rl₀ : RequestList}
    (hinit : requestListInit clockCount idOffset size = some rl₀) {loc : UInt16} (hloc : loc < clockCount)
    (before : List ListOp) :
    ((requestListNextAssigned (rl₀.run before) loc).2 = none ↔ ∀ r, ¬ Waits (rl₀.run before) loc r) ∧
    ∀ r ops, StaysWaiting (rl₀.run before) loc r ops →
      (r ∉ takenFor loc (rl₀.run before) ops →
        (takenFor loc (rl₀.run before) ops).Nodup ∧
        (takenFor loc (rl₀.run before) ops).length = selections loc ops ∧ selections loc ops ≤ size.toNat - 1) ∧
      (size.toNat ≤ selections loc ops → r ∈ takenFor loc (rl₀.run before) ops) := by
  have hsized := (sized_requestListInit hinit).run before
  have hpos : 0 < size.toNat := Nat.zero_lt_of_lt (hsized.getClockHand_lt hloc)
  refine ⟨requestListNextAssigned_eq_none, fun r ops hstay => ?_⟩
  have hfew : r ∉ takenFor loc (rl₀.run before) ops →
      (takenFor loc (rl₀.run before) ops).Nodup ∧
      (takenFor loc (rl₀.run before) ops).length = selections loc ops ∧ selections loc ops < size.toNat := by
    intro hnot
    cases ops with
    | nil => exact ⟨List.nodup_nil, rfl, hpos⟩
    | cons op ops =>
        have hr : r < size.toNat := hsized.slots ▸ hstay.head.1
        obtain ⟨hnodup, hlen, hle, -⟩ := hstay.taken hsized hloc hr hnot
        exact ⟨hnodup, hlen, hle.trans_lt (ringWait_lt (Nat.zero_lt_of_lt hr))⟩
  refine ⟨fun hnot => ?_, fun hmany => ?_⟩
  · obtain ⟨hnodup, hlen, hlt⟩ := hfew hnot
    exact ⟨hnodup, hlen, Nat.le_sub_one_of_lt hlt⟩
  · by_contra hnot
    exact absurd hmany (not_le.mpr (hfew hnot).2.2)

/-- Two requests of one location that never leave their slots are selected in turn. -/
theorem next_assigned_fair_two :
    1 ∈ takenFor 0
      (RequestList.run { idOffset := 1, clockHands := [0], rs := [{}, {}] }
        [.assign 0 5 {}, .assign 0 6 {}, .select 0])
      [.select 0, .select 0] :=
  ((@next_assigned_fair 1 1 2 _ rfl 0 (by decide) [.assign 0 5 {}, .assign 0 6 {}, .select 0]).2 1
    [.select 0, .select 0] (.cons (by decide +kernel) (.cons (by decide +kernel) (.nil 1)))).2 (by decide +kernel)

end Monkey.Fastcgi
