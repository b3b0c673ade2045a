import Monkey.Lib.Records

/-!
# Monkey.Lib.BlockStream

A message taken block by block by a function of the state and one block.

The message may come in any pieces: what has to be kept between two of them is the state
and the unfinished block (`absorb`), and two pieces leave what they leave together
(`absorb_absorb`).
-/

namespace Monkey

/-- Records of one length, without a header of their own. -/
def blockFormat (α : Type*) (n : Nat) (hn : 0 < n) : RecordFormat α where
  head := n
  size := fun _ => n
  head_pos := hn
  head_le := fun _ => le_rfl
  size_append := fun _ _ _ => rfl

section absorb

variable {α σ : Type*} {n : Nat} (hn : 0 < n) (f : σ → List α → σ)

/-- A piece of the message behind the unfinished block of those before. -/
def absorb (s : σ × List α) (xs : List α) : σ × List α :=
  (((blockFormat α n hn).split (s.2 ++ xs)).1.foldl f s.1, ((blockFormat α n hn).split (s.2 ++ xs)).2)

variable {hn f}

theorem complete_blockFormat {xs : List α} : (blockFormat α n hn).Complete xs ↔ n ≤ xs.length := and_self_iff

/-- A piece that does not finish the block. -/
theorem absorb_short {s : σ × List α} {xs : List α} (h : s.2.length + xs.length < n) :
    absorb hn f s xs = (s.1, s.2 ++ xs) := by
  have hpart : ¬ (blockFormat α n hn).Complete (s.2 ++ xs) := by
    rw [complete_blockFormat, List.length_append]
    omega
  rw [absorb, RecordFormat.split_of_not_complete hpart]
  rfl

/-- A piece that finishes the block. -/
theorem absorb_block {s : σ × List α} {xs : List α} (h : n ≤ s.2.length + xs.length) :
    absorb hn f s xs = absorb hn f (f s.1 ((s.2 ++ xs).take n), []) ((s.2 ++ xs).drop n) := by
  have hfull : (blockFormat α n hn).Complete (s.2 ++ xs) := by
    rw [complete_blockFormat, List.length_append]
    exact h
  rw [absorb, RecordFormat.split_of_complete hfull]
  rfl

/-- One piece after another. -/
theorem absorb_absorb (s : σ × List α) (xs ys : List α) :
    absorb hn f (absorb hn f s xs) ys = absorb hn f s (xs ++ ys) := by
  have hsplit := RecordFormat.split_append (F := blockFormat α n hn) (s.2 ++ xs) ys
  rw [List.append_assoc] at hsplit
  simp only [absorb, hsplit, List.foldl_append]

/-- Only the last block is unfinished. -/
theorem length_absorb (s : σ × List α) (xs : List α) :
    (absorb hn f s xs).2.length = (s.2.length + xs.length) % n := by
  have hrest : ∀ ys : List α, ((blockFormat α n hn).split ys).2.length = ys.length % n := by
    intro ys
    induction ys using RecordFormat.split_induction (F := blockFormat α n hn) with
    | done ys hpart =>
        rw [complete_blockFormat] at hpart
        rw [RecordFormat.split_of_not_complete (by rwa [complete_blockFormat]), Nat.mod_eq_of_lt (by omega)]
    | record ys hfull ih =>
        rw [RecordFormat.split_of_complete hfull]
        rw [complete_blockFormat] at hfull
        show (((blockFormat α n hn).split (ys.drop n)).2).length = _
        rw [show (blockFormat α n hn).size ys = n from rfl] at ih
        rw [ih, List.length_drop, ← Nat.mod_eq_sub_mod hfull]
  rw [absorb, hrest, List.length_append]

end absorb

end Monkey
