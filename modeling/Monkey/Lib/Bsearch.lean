import Mathlib.Data.List.Sort
import Mathlib.Tactic

/-!
# Monkey.Lib.Bsearch

What is promised of `qsort` and `bsearch`, for any comparison: the order of elements that
compare equal is not specified, and neither is which of them a search returns.  Two
functions that keep the promise stand for the many that do.
-/

namespace Monkey

variable {α : Type*} {cmp : α → α → Ordering}

/-- In the order of the comparison. -/
def InOrder (cmp : α → α → Ordering) (l : List α) : Prop := l.Pairwise fun a b => cmp a b ≠ .gt

/-- `qsort`. -/
structure IsQsort (cmp : α → α → Ordering) (sort : List α → List α) : Prop where
  perm : ∀ l, (sort l).Perm l
  inOrder : ∀ l, InOrder cmp (sort l)

/-- `bsearch`, on an array in order. -/
structure IsBsearch (cmp : α → α → Ordering) (search : α → List α → Option α) : Prop where
  found : ∀ k l a, InOrder cmp l → search k l = some a → a ∈ l ∧ cmp k a = .eq
  missed : ∀ k l, InOrder cmp l → search k l = none → ∀ a ∈ l, cmp k a ≠ .eq

theorem InOrder.of_length_le_one {l : List α} (h : l.length ≤ 1) : InOrder cmp l := by
  match l, h with
  | [], _ => exact List.Pairwise.nil
  | [a], _ => exact List.pairwise_singleton _ a

/-- A sort that keeps the promise. -/
theorem isQsort_mergeSort [Std.TransCmp cmp] : IsQsort cmp fun l => l.mergeSort fun a b => (cmp a b).isLE := by
  refine ⟨fun l => List.mergeSort_perm l _, fun l => ?_⟩
  have hsorted := @List.pairwise_mergeSort _ (fun a b => (cmp a b).isLE)
    (fun a b c hab hbc => Std.TransCmp.isLE_trans hab hbc)
    (fun a b => by
      rw [@Std.OrientedCmp.eq_swap _ cmp _ b a]
      cases cmp a b <;> rfl) l
  refine hsorted.imp fun {a b} hab => ?_
  rw [Ordering.isLE_iff_ne_gt] at hab
  exact hab

/-- A search that returns an element with `p` where it can. -/
def preferring (cmp : α → α → Ordering) (p : α → Bool) (k : α) (l : List α) : Option α :=
  (l.find? fun a => cmp k a == .eq && p a).or (l.find? fun a => cmp k a == .eq)

theorem isBsearch_preferring (p : α → Bool) : IsBsearch cmp (preferring cmp p) := by
  refine ⟨fun k l a _ h => ?_, fun k l _ h a ha => ?_⟩
  · obtain h | ⟨-, h⟩ := Option.or_eq_some_iff.mp h
    · have hcmp := List.find?_some h
      simp only [Bool.and_eq_true, beq_iff_eq] at hcmp
      exact ⟨List.mem_of_find?_eq_some h, hcmp.1⟩
    · exact ⟨List.mem_of_find?_eq_some h, by simpa using List.find?_some h⟩
  · have hnone := List.find?_eq_none.mp (Option.or_eq_none_iff.mp h).2 a ha
    simpa using hnone

/-- What it prefers is what it returns. -/
theorem preferring_eq_some {p : α → Bool} {k b : α} {l : List α} (hb : b ∈ l) (heq : cmp k b = .eq)
    (hp : p b = true) : ∃ a, preferring cmp p k l = some a ∧ p a = true := by
  obtain ⟨a, ha⟩ : ∃ a, l.find? (fun a => cmp k a == .eq && p a) = some a := by
    rw [← Option.isSome_iff_exists, List.find?_isSome]
    exact ⟨b, hb, by rw [heq, hp]; rfl⟩
  refine ⟨a, by rw [preferring, ha, Option.some_or], ?_⟩
  have hboth := List.find?_some ha
  simp only [Bool.and_eq_true] at hboth
  exact hboth.2

end Monkey
