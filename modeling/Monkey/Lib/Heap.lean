import Monkey.Lib.Block

/-!
# Monkey.Lib.Heap

A heap of blocks that are allocated one after the other and freed one by one.  Freeing
a block that is not live, or writing outside a live one, has no result: a chain of
operations that has one frees nothing twice.
-/

namespace Monkey

/-- The blocks in the order of their allocation; `none` is one that has been freed. -/
abbrev Heap := List (Option Bytes)

namespace Heap

/-- A new block, and its number. -/
def malloc (heap : Heap) (block : Bytes) : Heap × Nat := (heap ++ [some block], heap.length)

/-- The bytes of a live block. -/
def block (heap : Heap) (n : Nat) : Option Bytes := heap[n]?.join

def write (heap : Heap) (n i : Nat) (bs : Bytes) : Option Heap := do
  let block ← heap.block n
  let block ← writeAt block i bs
  return heap.set n (some block)

def free (heap : Heap) (n : Nat) : Option Heap := (heap.block n).map fun _ => heap.set n none

/-- Every block has been freed. -/
def Freed (heap : Heap) : Prop := ∀ b ∈ heap, b = none

variable {heap heap' : Heap} {bs block block' : Bytes} {n i : Nat}

/-- A block is freed once. -/
theorem free_free (h : heap.free n = some heap') : heap'.free n = none := by
  obtain ⟨block, hblock, rfl⟩ := Option.map_eq_some_iff.mp h
  have hlt : n < heap.length := by
    by_contra hle
    rw [Heap.block, List.getElem?_eq_none (Nat.not_lt.mp hle)] at hblock
    contradiction
  rw [free, Heap.block, List.getElem?_set_self hlt]
  rfl

/-! ## the newest block -/

theorem block_last : Heap.block (heap ++ [some block]) heap.length = some block := by
  rw [Heap.block, List.getElem?_concat_length]
  rfl

theorem write_last (h : writeAt block i bs = some block') :
    Heap.write (heap ++ [some block]) heap.length i bs = some (heap ++ [some block']) := by
  simp only [Heap.write, block_last, Option.bind_eq_bind, Option.bind_some, h, Option.pure_def]
  rw [List.set_append_right _ _ le_rfl, Nat.sub_self, List.set_cons_zero]

theorem free_last : Heap.free (heap ++ [some block]) heap.length = some (heap ++ [none]) := by
  rw [Heap.free, block_last, Option.map_some, List.set_append_right _ _ le_rfl, Nat.sub_self, List.set_cons_zero]

theorem Freed.concat (h : Freed heap) : Freed (heap ++ [none]) := by
  intro b hb
  rcases List.mem_append.mp hb with hb | hb
  · exact h b hb
  · exact List.mem_singleton.mp hb

end Heap

end Monkey
