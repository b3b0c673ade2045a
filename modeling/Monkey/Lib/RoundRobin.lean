import Mathlib.Tactic
import Mathlib.Data.Int.CardIntervalMod

/-!
# Monkey.Lib.RoundRobin

Items dealt out in turn to a number of takers, from any one of them on: how many
each gets.  A deal may go on where another has stopped.
-/

namespace Monkey

/-- Of `c` items dealt to `w` takers from taker `j` on, those that taker `t` gets. -/
def turns (w j t c : Nat) : Nat := Nat.count (fun g => (j + g) % w = t) c

section turns

variable {w j t c : Nat}

@[simp]
theorem turns_zero (w j t : Nat) : turns w j t 0 = 0 := Nat.count_zero _

/-- The first item goes to `j`, the others from the next one on. -/
theorem turns_succ (w j t c : Nat) : turns w j t (c + 1) = (if j % w = t then 1 else 0) + turns w (j + 1) t c := by
  rw [turns, Nat.count_succ', Nat.add_comm, turns]
  simp only [Nat.add_zero, Nat.add_assoc, Nat.add_comm 1]

theorem turns_mod (w j t c : Nat) : turns w (j % w) t c = turns w j t c := by
  simp only [turns, Nat.mod_add_mod]

/-- A deal that goes on where the first has stopped. -/
theorem turns_add (w j t a b : Nat) : turns w j t (a + b) = turns w j t a + turns w (j + a) t b := by
  simp only [turns, Nat.count_add, Nat.add_assoc]

/-- **Nothing is lost**: the takers together get all the items. -/
theorem sum_turns (hw : 0 < w) (j c : Nat) : ∑ t ∈ Finset.range w, turns w j t c = c := by
  induction c generalizing j with
  | zero => simp
  | succ c ih =>
      have hone : ∑ t ∈ Finset.range w, (if j % w = t then 1 else 0) = 1 := by
        rw [Finset.sum_ite_eq, if_pos (Finset.mem_range.mpr (Nat.mod_lt j hw))]
      simp only [turns_succ, Finset.sum_add_distrib]
      rw [hone, ih, Nat.add_comm]

/-- The share of a taker. -/
theorem turns_eq (ht : t < w) (c : Nat) : turns w 0 t c = c / w + if t < c % w then 1 else 0 := by
  have hcount := Nat.count_modEq_card c (Nat.zero_lt_of_lt ht) t
  simp only [Nat.ModEq, Nat.mod_eq_of_lt ht] at hcount
  simp only [turns, Nat.zero_add, hcount]

/-- A taker gets something if there are more items than takers before it. -/
theorem turns_pos_iff (ht : t < w) : 0 < turns w 0 t c ↔ t < c := by
  rw [turns_eq ht]
  have hsplit := Nat.div_add_mod c w
  rcases lt_or_ge c w with hlt | hge
  · rw [Nat.div_eq_of_lt hlt, Nat.mod_eq_of_lt hlt]
    split <;> omega
  · have hpos := Nat.div_pos hge (Nat.zero_lt_of_lt ht)
    omega

/-- **Balance**: no taker gets more than one item more than another. -/
theorem turns_balanced {t' : Nat} (ht : t < w) (ht' : t' < w) (c : Nat) : turns w 0 t c ≤ turns w 0 t' c + 1 := by
  rw [turns_eq ht, turns_eq ht']
  split <;> split <;> omega

/-- The first gets its share rounded up. -/
theorem turns_first (hw : 0 < w) (c : Nat) : turns w 0 0 c = (c + (w - 1)) / w := by
  have hsplit := Nat.div_add_mod c w
  have hlt := Nat.mod_lt c hw
  rw [turns_eq hw]
  symm
  rw [Nat.div_eq_iff hw]
  split <;> constructor <;> rw [Nat.add_mul, Nat.mul_comm] <;> omega

/-- No taker gets more than the first. -/
theorem turns_le_first (ht : t < w) (c : Nat) : turns w 0 t c ≤ turns w 0 0 c := by
  rw [turns_eq ht, turns_eq (Nat.zero_lt_of_lt ht)]
  split <;> split <;> omega

end turns

end Monkey
