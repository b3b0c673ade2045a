import Mathlib.Tactic
import Mathlib.Data.List.TakeWhile

/-!
# Monkey.Lib.Clock

A ring of slots scanned from the one behind a hand on, once around.  How long the scan
takes to come to a slot is a distance on the ring, and it only shrinks when the hand is
moved to a slot that the scan meets earlier.
-/

namespace Monkey

/-- The slot a scan of a ring of `size` looks at in its `k`-th step. -/
def ringSlot (size hand k : Nat) : Nat := (hand + 1 + k) % size

/-- How many slots a scan looks at before it comes to `r`. -/
def ringWait (size hand r : Nat) : Nat := (r + size - (hand + 1) % size) % size

section ring

variable {size hand r k : Nat}

theorem ringSlot_lt (hsize : 0 < size) : ringSlot size hand k < size := Nat.mod_lt _ hsize

theorem ringWait_lt (hsize : 0 < size) : ringWait size hand r < size := Nat.mod_lt _ hsize

/-- The scan comes to every slot. -/
theorem ringSlot_ringWait (hr : r < size) : ringSlot size hand (ringWait size hand r) = r := by
  have hhand := Nat.mod_lt (hand + 1) (Nat.zero_lt_of_lt hr)
  rw [ringSlot, ringWait, Nat.add_mod_mod, ← Nat.mod_add_mod,
    show (hand + 1) % size + (r + size - (hand + 1) % size) = r + size by omega, Nat.add_mod_right,
    Nat.mod_eq_of_lt hr]

/-- It comes to a slot in one step only. -/
theorem ringWait_ringSlot (hk : k < size) : ringWait size hand (ringSlot size hand k) = k := by
  have hsize : 0 < size := Nat.zero_lt_of_lt hk
  have hhand := Nat.mod_lt (hand + 1) hsize
  rw [ringSlot, ringWait, ← Nat.mod_add_mod]
  by_cases hwrap : (hand + 1) % size + k < size
  · rw [Nat.mod_eq_of_lt hwrap, show (hand + 1) % size + k + size - (hand + 1) % size = k + size by omega,
      Nat.add_mod_right, Nat.mod_eq_of_lt hk]
  · have hround : ((hand + 1) % size + k) % size = (hand + 1) % size + k - size := by
      rw [Nat.mod_eq_sub_mod (by omega), Nat.mod_eq_of_lt (by omega)]
    rw [hround, show (hand + 1) % size + k - size + size - (hand + 1) % size = k by omega, Nat.mod_eq_of_lt hk]

/-- The hand itself is looked at last. -/
theorem ringWait_self (hhand : hand < size) : ringWait size hand hand = size - 1 := by
  have hlast : ringSlot size hand (size - 1) = hand := by
    rw [ringSlot, show hand + 1 + (size - 1) = hand + size by omega, Nat.add_mod_right, Nat.mod_eq_of_lt hhand]
  rw [← @ringWait_ringSlot size hand (size - 1) (by omega), hlast]

/-- A scan from a slot goes on where the one that came to it stopped. -/
theorem ringSlot_ringSlot (m : Nat) : ringSlot size (ringSlot size hand k) m = ringSlot size hand (k + 1 + m) := by
  rw [ringSlot, ringSlot, ringSlot, Nat.add_assoc _ 1 m, Nat.mod_add_mod]
  congr 1
  omega

/-- **A hand moved to a slot met earlier** is nearer by the slots passed. -/
theorem ringWait_moved (hr : r < size) (hk : k < ringWait size hand r) :
    ringWait size (ringSlot size hand k) r + (k + 1) = ringWait size hand r := by
  have hwait : ringWait size hand r < size := ringWait_lt (Nat.zero_lt_of_lt hr)
  have hmeet : ringSlot size (ringSlot size hand k) (ringWait size hand r - (k + 1)) = r := by
    rw [ringSlot_ringSlot, show k + 1 + (ringWait size hand r - (k + 1)) = ringWait size hand r by omega,
      ringSlot_ringWait hr]
  have hback := @ringWait_ringSlot size (ringSlot size hand k) (ringWait size hand r - (k + 1)) (by omega)
  rw [hmeet] at hback
  omega

/-- What such a hand meets before a slot, it met before. -/
theorem ringWait_lt_of_moved {s : Nat} (hr : r < size) (hs : s < size) (hk : k < ringWait size hand r)
    (hlt : ringWait size (ringSlot size hand k) s < ringWait size (ringSlot size hand k) r) :
    ringWait size hand s < ringWait size hand r := by
  have hmoved := ringWait_moved hr hk
  have hwait : ringWait size hand r < size := ringWait_lt (Nat.zero_lt_of_lt hr)
  have hmeet : ringSlot size hand (k + 1 + ringWait size (ringSlot size hand k) s) = s := by
    rw [← ringSlot_ringSlot, ringSlot_ringWait hs]
  have hback := @ringWait_ringSlot size hand (k + 1 + ringWait size (ringSlot size hand k) s) (by omega)
  rw [hmeet] at hback
  omega

end ring

/-- The slots in the order a scan looks at them. -/
def ringScan (size hand : Nat) : List Nat := (List.range size).map (ringSlot size hand)

/-- **What a scan finds** is the slot with the property it comes to first. -/
theorem find?_ringScan {size hand i : Nat} {p : Nat → Bool} (h : (ringScan size hand).find? p = some i) :
    i < size ∧ p i = true ∧ ∀ r < size, p r = true → ringWait size hand i ≤ ringWait size hand r := by
  obtain ⟨hp, k, hk, hget, hbefore⟩ := List.find?_eq_some_iff_getElem.mp h
  rw [ringScan, List.length_map, List.length_range] at hk
  have hi : ringSlot size hand k = i := by simpa [ringScan] using hget
  subst hi
  refine ⟨ringSlot_lt (Nat.zero_lt_of_lt hk), hp, fun r hr hpr => ?_⟩
  rw [ringWait_ringSlot hk]
  by_contra hearly
  have hnot := hbefore (ringWait size hand r) (not_le.mp hearly)
  simp only [ringScan, List.getElem_map, List.getElem_range, ringSlot_ringWait hr] at hnot
  simp [hpr] at hnot

end Monkey
