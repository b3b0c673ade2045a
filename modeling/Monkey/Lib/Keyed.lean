import Mathlib.Tactic

/-!
# Monkey.Lib.Keyed

Lists whose elements are looked up, removed and replaced by a key, always at the
first element that has it.  The results say what the operations do to the list
of keys, so that a proof about keys never looks at the elements.
-/

namespace Monkey

section Keyed

variable {α κ : Type*} [BEq κ] [LawfulBEq κ] {key : α → κ} {k : κ} {l : List α}

/-- A lookup fails exactly on the keys that are missing. -/
theorem find?_key_eq_none : l.find? (key · == k) = none ↔ k ∉ l.map key := by
  simp

/-- What a lookup returns is an element with the key. -/
theorem find?_key_eq_some {x : α} (h : l.find? (key · == k) = some x) : x ∈ l ∧ key x = k :=
  ⟨List.mem_of_find?_eq_some h, by simpa using List.find?_some h⟩

/-- An element whose key comes once is the one that is found. -/
theorem find?_key_of_mem {x : α} (hnodup : (l.map key).Nodup) (hx : x ∈ l) : l.find? (key · == key x) = some x := by
  induction l with
  | nil => cases hx
  | cons y l ih =>
      obtain ⟨hnot, hnodup⟩ := List.nodup_cons.mp hnodup
      obtain rfl | hx := List.mem_cons.mp hx
      · exact List.find?_cons_of_pos (beq_self_eq_true _)
      · have hne : key y ≠ key x := fun heq => hnot (heq ▸ List.mem_map_of_mem hx)
        rw [List.find?_cons_of_neg (by simpa using hne), ih hnodup hx]

omit [LawfulBEq κ] in
/-- Removing by key removes the key. -/
theorem map_eraseP_key : (l.eraseP (key · == k)).map key = (l.map key).erase k := by
  rw [List.erase_eq_eraseP', List.eraseP_map]
  rfl

omit [BEq κ] [LawfulBEq κ] in
/-- What a search finds, put back in front of what its removal leaves. -/
theorem perm_cons_eraseP_of_find? {p : α → Bool} {x : α} (h : l.find? p = some x) :
    l.Perm (x :: l.eraseP p) := by
  induction l with
  | nil => contradiction
  | cons y l ih =>
      rw [List.find?_cons] at h
      cases hy : p y with
      | true =>
          simp only [hy, Option.some.injEq] at h
          rw [List.eraseP_cons_of_pos hy, h]
      | false =>
          simp only [hy] at h
          rw [List.eraseP_cons_of_neg (by simp [hy])]
          exact ((ih h).cons y).trans (List.Perm.swap x y _)

omit [BEq κ] [LawfulBEq κ] in
/-- Replacing an element by one with the same key keeps the keys. -/
theorem map_replaceF_key {f : α → Option α} (hf : ∀ x y, f x = some y → key y = key x) :
    (l.replaceF f).map key = l.map key := by
  induction l with
  | nil => rfl
  | cons x l ih =>
      rw [List.replaceF_cons]
      cases hx : f x with
      | none => simp [ih]
      | some y => simp [hf x y hx]

/-- The element replaced by key is found changed. -/
theorem find?_replaceF_key {f : α → α} (hf : ∀ x, key (f x) = key x) :
    (l.replaceF fun x => if key x == k then some (f x) else none).find? (key · == k) =
      (l.find? (key · == k)).map f := by
  induction l with
  | nil => rfl
  | cons x l ih =>
      by_cases hx : key x = k
      · simp [hx, hf]
      · rw [List.replaceF_cons_of_none _ (by simp [hx]), List.find?_cons_of_neg (by simpa using hx), ih,
          List.find?_cons_of_neg (by simpa using hx)]

/-- The elements with other keys are found as before. -/
theorem find?_replaceF_key_of_ne {f : α → α} {k' : κ} (hf : ∀ x, key (f x) = key x) (hk : k' ≠ k) :
    (l.replaceF fun x => if key x == k then some (f x) else none).find? (key · == k') =
      l.find? (key · == k') := by
  induction l with
  | nil => rfl
  | cons x l ih =>
      by_cases hx : key x = k
      · simp [hx, hf, hk.symm]
      · rw [List.replaceF_cons_of_none _ (by simp [hx]), List.find?_cons, List.find?_cons, ih]

/-- A removed key is not found any more. -/
theorem find?_eraseP_key (hl : (l.map key).Nodup) :
    (l.eraseP (key · == k)).find? (key · == k) = none := by
  rw [find?_key_eq_none, map_eraseP_key]
  exact hl.not_mem_erase

/-- The other keys are found as before. -/
theorem find?_eraseP_key_of_ne {k' : κ} (hk : k' ≠ k) :
    (l.eraseP (key · == k)).find? (key · == k') = l.find? (key · == k') := by
  induction l with
  | nil => rfl
  | cons x l ih =>
      by_cases hx : key x = k
      · simp [hx, hk.symm]
      · rw [List.eraseP_cons_of_neg (by simpa using hx), List.find?_cons, List.find?_cons, ih]

/-- What remains of a list after some keys are removed one by one. -/
theorem foldl_erase_eq_filter {ks : List κ} {l : List κ} (hl : l.Nodup) :
    ks.foldl List.erase l = l.filter (· ∉ ks) := by
  induction ks generalizing l with
  | nil => simp
  | cons k ks ih =>
      rw [List.foldl_cons, ih (hl.erase k), hl.erase_eq_filter, List.filter_filter]
      apply List.filter_congr
      intro x _
      by_cases hk : x = k <;> simp [hk]

/-- What disappears from a list was removed by its key. -/
theorem mem_of_not_mem_foldl_erase {ks : List κ} {l : List κ} (hk : k ∈ l)
    (h : k ∉ ks.foldl List.erase l) : k ∈ ks := by
  induction ks generalizing l with
  | nil => exact absurd hk h
  | cons k' ks ih =>
      by_cases heq : k = k'
      · exact heq ▸ List.mem_cons_self
      · exact List.mem_cons_of_mem _ (ih ((List.mem_erase_of_ne heq).mpr hk) h)

end Keyed

end Monkey
