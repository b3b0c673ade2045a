import Mathlib.Tactic

/-!
# Monkey.Lib.Records

Streams of records whose length stands in a header at their front.

`split` cuts a stream into its complete records and the unfinished rest.  The rest
is all a receiver has to keep: cutting a stream that arrives in pieces is cutting
each piece behind the rest of those before (`split_append`).
-/

namespace Monkey

/-- A format: the length of a header, and the length of the record it starts, header
included. -/
structure RecordFormat (α : Type*) where
  head : Nat
  size : List α → Nat
  head_pos : 0 < head
  head_le : ∀ xs, head ≤ size xs
  size_append : ∀ xs ys, head ≤ xs.length → size (xs ++ ys) = size xs

namespace RecordFormat

variable {α : Type*} (F : RecordFormat α)

/-- The stream starts with a complete record. -/
def Complete (xs : List α) : Prop := F.head ≤ xs.length ∧ F.size xs ≤ xs.length

instance (xs : List α) : Decidable (F.Complete xs) := inferInstanceAs (Decidable (_ ∧ _))

/-- At most `n` records from the front. -/
def splitUpTo : Nat → List α → List (List α) × List α
  | 0, xs => ([], xs)
  | n + 1, xs =>
      if F.Complete xs then
        let r := splitUpTo n (xs.drop (F.size xs))
        (xs.take (F.size xs) :: r.1, r.2)
      else ([], xs)

/-- The complete records of a stream, and what is left of it. -/
def split (xs : List α) : List (List α) × List α := F.splitUpTo xs.length xs

variable {F}

theorem Complete.size_pos {xs : List α} (_ : F.Complete xs) : 0 < F.size xs :=
  F.head_pos.trans_le (F.head_le xs)

theorem not_complete_nil : ¬ F.Complete ([] : List α) :=
  fun h => absurd h.1 (Nat.not_le.mpr F.head_pos)

theorem Complete.length_drop {xs : List α} (h : F.Complete xs) :
    (xs.drop (F.size xs)).length < xs.length := by
  have := h.size_pos
  have := h.2
  rw [List.length_drop]
  omega

/-- A complete record stays complete when more arrives. -/
theorem Complete.append {xs : List α} (h : F.Complete xs) (ys : List α) : F.Complete (xs ++ ys) := by
  have hsize := F.size_append xs ys h.1
  have := h.1
  have := h.2
  constructor
  · rw [List.length_append]
    omega
  · rw [hsize, List.length_append]
    omega

/-- More steps than elements change nothing. -/
theorem splitUpTo_eq {n : Nat} {xs : List α} (h : xs.length ≤ n) : F.splitUpTo n xs = F.split xs := by
  suffices hgen : ∀ n m (xs : List α), xs.length ≤ n → xs.length ≤ m → F.splitUpTo n xs = F.splitUpTo m xs from
    hgen _ _ xs h le_rfl
  intro n
  induction n with
  | zero =>
      intro m xs hn hm
      obtain rfl := List.eq_nil_of_length_eq_zero (by omega : xs.length = 0)
      cases m with
      | zero => rfl
      | succ m => rw [splitUpTo, splitUpTo, if_neg not_complete_nil]
  | succ n ih =>
      intro m xs hn hm
      cases m with
      | zero =>
          obtain rfl := List.eq_nil_of_length_eq_zero (by omega : xs.length = 0)
          rw [splitUpTo, splitUpTo, if_neg not_complete_nil]
      | succ m =>
          rw [splitUpTo, splitUpTo]
          by_cases hc : F.Complete xs
          · have := hc.length_drop
            rw [if_pos hc, if_pos hc, ih m _ (by omega) (by omega)]
          · rw [if_neg hc, if_neg hc]

theorem split_of_not_complete {xs : List α} (h : ¬ F.Complete xs) : F.split xs = ([], xs) := by
  unfold split
  cases hlen : xs.length with
  | zero => rfl
  | succ n => rw [splitUpTo, if_neg h]

theorem split_of_complete {xs : List α} (h : F.Complete xs) :
    F.split xs = (xs.take (F.size xs) :: (F.split (xs.drop (F.size xs))).1,
      (F.split (xs.drop (F.size xs))).2) := by
  have hdrop := h.length_drop
  unfold split
  cases hlen : xs.length with
  | zero => omega
  | succ n => rw [splitUpTo, if_pos h, splitUpTo_eq (by omega), splitUpTo_eq le_rfl]

/-- **Induction along the records of a stream.** -/
theorem split_induction {P : List α → Prop} (done : ∀ xs, ¬ F.Complete xs → P xs)
    (record : ∀ xs, F.Complete xs → P (xs.drop (F.size xs)) → P xs) (xs : List α) : P xs := by
  induction hn : xs.length using Nat.strong_induction_on generalizing xs with
  | _ n ih =>
      by_cases hc : F.Complete xs
      · exact record xs hc (ih _ (hn ▸ hc.length_drop) _ rfl)
      · exact done xs hc

/-- Nothing is skipped and nothing taken twice. -/
theorem split_flatten (xs : List α) : (F.split xs).1.flatten ++ (F.split xs).2 = xs := by
  induction xs using split_induction (F := F) with
  | done xs hc => rw [split_of_not_complete hc]; rfl
  | record xs hc ih =>
      rw [split_of_complete hc, List.flatten_cons, List.append_assoc, ih, List.take_append_drop]

/-- What is left is not a complete record. -/
theorem split_rest (xs : List α) : ¬ F.Complete (F.split xs).2 := by
  induction xs using split_induction (F := F) with
  | done xs hc => rwa [split_of_not_complete hc]
  | record xs hc ih => rwa [split_of_complete hc]

/-- **Cutting in pieces**: the rest of the first piece is all that matters. -/
theorem split_append (xs ys : List α) :
    F.split (xs ++ ys) =
      ((F.split xs).1 ++ (F.split ((F.split xs).2 ++ ys)).1, (F.split ((F.split xs).2 ++ ys)).2) := by
  induction xs using split_induction (F := F) with
  | done xs hc => rw [split_of_not_complete hc]; rfl
  | record xs hc ih =>
      have hsize := F.size_append xs ys hc.1
      rw [split_of_complete (hc.append ys), hsize, List.take_append_of_le_length hc.2,
        List.drop_append_of_le_length hc.2, ih, split_of_complete hc, List.cons_append]

end RecordFormat

end Monkey
