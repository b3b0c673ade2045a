import Mathlib.Data.List.Basic
import Mathlib.Tactic.Common

/-!
# Monkey.Lib.Cells

Cells of memory that are allocated one after the other and freed one by one, and arrays of pointers to
them that end with a null pointer.  An array that owns its cells can be freed up to its null pointer;
freeing it by a count reads beyond its end if the count has grown by two or more (`freeFirst_owned`).
-/

namespace Monkey

/-- The cells in the order of their allocation; `none` is one that has been freed. -/
abbrev Cells (α : Type) := List (Option α)

/-- A pointer to a cell, or null. -/
abbrev CellPtr := Option Nat

namespace Cells

variable {α : Type}

/-- `free` of a cell, which has to be live. -/
def free (cells : Cells α) (k : Nat) : Option (Cells α) := (cells[k]?.join).map fun _ => cells.set k none

/-- The first `n` pointers of an array are freed; a null pointer is passed over. -/
def freeFirst (cells : Cells α) : List CellPtr → Nat → Option (Cells α)
  | _, 0 => some cells
  | none :: array, n + 1 => freeFirst cells array n
  | some k :: array, n + 1 => (free cells k).bind fun cells => freeFirst cells array n
  | [], _ + 1 => none

/-- The pointers of an array are freed up to the first null pointer. -/
def freeToNull (cells : Cells α) : List CellPtr → Option (Cells α)
  | none :: _ => some cells
  | some k :: array => (free cells k).bind fun cells => freeToNull cells array
  | [] => none

/-- A cell for each item, and the array of pointers to them. -/
def allocAll (cells : Cells α) : List α → Cells α × List CellPtr
  | [] => (cells, [none])
  | a :: items =>
      let (cells', array) := allocAll (cells ++ [some a]) items
      (cells', some cells.length :: array)

/-- Pointers to consecutive cells, and the null pointer. -/
def ptrsFrom (k n : Nat) : List CellPtr := (List.range' k n).map some ++ [none]

/-- The array points to the items in turn, and all other cells have been freed. -/
def Owns (cells : Cells α) (array : List CellPtr) (items : List α) : Prop :=
  ∃ k, cells = List.replicate k none ++ items.map some ∧ array = ptrsFrom k items.length

theorem ptrsFrom_succ (k n : Nat) : ptrsFrom k (n + 1) = some k :: ptrsFrom (k + 1) n := rfl

/-- The first of the live cells. -/
theorem free_next (k : Nat) (a : α) (items : List α) :
    free (List.replicate k none ++ (a :: items).map some) k = some (List.replicate (k + 1) none ++ items.map some) := by
  have hget : (List.replicate k none ++ (a :: items).map some)[k]? = some (some a) := by
    rw [List.getElem?_append_right (by simp), List.length_replicate, Nat.sub_self]
    rfl
  rw [free, hget, Option.join_some, Option.map_some, List.set_append_right _ _ (by simp), List.length_replicate,
    Nat.sub_self, List.map_cons, List.set_cons_zero, List.replicate_succ', List.append_assoc]
  rfl

/-- **Freeing by a count** that is not less than the number of cells. -/
theorem freeFirst_owned (k : Nat) {items : List α} {n : Nat} (h : items.length ≤ n) :
    freeFirst (List.replicate k none ++ items.map some) (ptrsFrom k items.length) n =
      if n ≤ items.length + 1 then some (List.replicate (k + items.length) none) else none := by
  induction items generalizing k n with
  | nil =>
      rw [List.map_nil, List.append_nil, List.length_nil, show ptrsFrom k 0 = [none] from rfl]
      match n with
      | 0 => rfl
      | 1 => rfl
      | n + 2 => exact (if_neg (by omega)).symm
  | cons a items ih =>
      rw [List.length_cons] at h
      obtain ⟨n, rfl⟩ := Nat.exists_eq_add_of_le' (Nat.one_le_of_lt h)
      rw [List.length_cons, ptrsFrom_succ, freeFirst, free_next, Option.bind_some, ih (k + 1) (by omega)]
      congr 1
      · simp
      · rw [Nat.add_assoc, Nat.add_comm 1]

/-- **Freeing up to the null pointer.** -/
theorem freeToNull_owned (k : Nat) (items : List α) :
    freeToNull (List.replicate k none ++ items.map some) (ptrsFrom k items.length) =
      some (List.replicate (k + items.length) none) := by
  induction items generalizing k with
  | nil =>
      rw [List.map_nil, List.append_nil]
      rfl
  | cons a items ih =>
      rw [List.length_cons, ptrsFrom_succ, freeToNull, free_next, Option.bind_some, ih, Nat.add_assoc, Nat.add_comm 1]

theorem allocAll_eq (cells : Cells α) (items : List α) :
    allocAll cells items = (cells ++ items.map some, ptrsFrom cells.length items.length) := by
  induction items generalizing cells with
  | nil => simp [allocAll, ptrsFrom]
  | cons a items ih =>
      rw [allocAll, ih]
      simp [ptrsFrom_succ]

/-- New cells, where all others have been freed. -/
theorem owns_allocAll (k : Nat) (items : List α) :
    Owns (allocAll (List.replicate k none) items).1 (allocAll (List.replicate k none) items).2 items := by
  rw [allocAll_eq]
  exact ⟨k, rfl, by rw [List.length_replicate]⟩

end Cells

end Monkey
