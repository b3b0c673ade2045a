import Mathlib.Tactic
import Mathlib.Data.List.Chain

/-!
# Monkey.Lib.Ring

Circular lists that are linked both ways.  A ring is a head and its nodes in order; the last
one is followed by the head, which is a node like the others, so an operation at either end
is one in the middle.

Only the next pointers of all nodes but the last of a stretch, and the previous pointers of
all but the first, hold the stretch together (`isChain_congr`): whatever is written elsewhere
leaves it as it is.
-/

namespace Monkey

/-- The pointers of all nodes; `none` is a null pointer. -/
structure Links (α : Type*) where
  next : α → Option α
  prev : α → Option α

namespace Links

variable {α : Type*}

/-- The pointers the other way round. -/
def flip (m : Links α) : Links α := ⟨m.prev, m.next⟩

/-- The node `b` is behind `a`. -/
def Joined (m : Links α) (a b : α) : Prop := m.next a = some b ∧ m.prev b = some a

/-- The head and its nodes are linked in this order, all the way round. -/
def IsRing (m : Links α) (head : α) (l : List α) : Prop := (head :: l ++ [head]).IsChain m.Joined

/-- The pointers of these nodes are as they were. -/
def Same (m m' : Links α) (l : List α) : Prop := ∀ x ∈ l, m'.next x = m.next x ∧ m'.prev x = m.prev x

variable {m m' : Links α} {head a b : α} {l : List α}

/-! ## stretches -/

theorem getLast?_cons_eq (head : α) (l : List α) : (head :: l).getLast? = some (l.getLastD head) := by
  rw [List.getLast?_cons, List.getLastD_eq_getLast?]

/-- What holds a stretch together. -/
theorem isChain_congr {l : List α} (h : l.IsChain m.Joined) (hnext : ∀ x ∈ l.dropLast, m'.next x = m.next x)
    (hprev : ∀ x ∈ l.tail, m'.prev x = m.prev x) : l.IsChain m'.Joined := by
  induction l with
  | nil => exact List.isChain_nil
  | cons a l ih =>
      cases l with
      | nil => exact List.isChain_singleton a
      | cons b l =>
          obtain ⟨⟨hab, hba⟩, hrest⟩ := List.isChain_cons_cons.mp h
          rw [List.dropLast_cons_cons] at hnext
          rw [List.tail_cons] at hprev
          refine List.isChain_cons_cons.mpr ⟨⟨?_, ?_⟩, ih hrest ?_ ?_⟩
          · rw [hnext a List.mem_cons_self, hab]
          · rw [hprev b List.mem_cons_self, hba]
          · exact fun x hx => hnext x (List.mem_cons_of_mem a hx)
          · exact fun x hx => hprev x (List.mem_cons_of_mem b hx)

theorem isChain_flip {l : List α} : l.reverse.IsChain m.flip.Joined ↔ l.IsChain m.Joined := by
  rw [List.isChain_reverse]
  exact List.IsChain.iff fun a b => and_comm

namespace IsRing

/-- A ring is the same one backwards. -/
theorem flip (h : m.IsRing head l) : m.flip.IsRing head l.reverse := by
  have hreverse : (head :: l ++ [head]).reverse = head :: l.reverse ++ [head] := by
    simp
  have hflip := isChain_flip.mpr h
  rwa [hreverse] at hflip

/-- A ring none of whose pointers changed. -/
theorem congr (h : m.IsRing head l) (hsame : m.Same m' (head :: l)) : m'.IsRing head l := by
  refine isChain_congr h (fun x hx => (hsame x ?_).1) fun x hx => (hsame x ?_).2
  · rwa [List.dropLast_concat] at hx
  · rw [List.cons_append, List.tail_cons, List.mem_append, List.mem_singleton] at hx
    exact List.mem_cons.mpr hx.symm

theorem next_head (h : m.IsRing head l) : m.next head = some (l.headD head) := by
  cases l with
  | nil => exact (List.isChain_cons_cons.mp h).1.1
  | cons a l => exact (List.isChain_cons_cons.mp h).1.1

/-- The node before the head is the last one. -/
theorem prev_head (h : m.IsRing head l) : m.prev head = some (l.getLastD head) := by
  have hflip := h.flip.next_head
  rwa [List.headD_eq_head?_getD, List.head?_reverse, ← List.getLastD_eq_getLast?] at hflip

/-- A ring without nodes. -/
theorem nil_iff : m.IsRing head [] ↔ m.next head = some head ∧ m.prev head = some head := List.isChain_pair

/-- A ring in two stretches, with the seam between them. -/
theorem append_iff {l₁ l₂ : List α} :
    m.IsRing head (l₁ ++ l₂) ↔ (head :: l₁).IsChain m.Joined ∧ (l₂ ++ [head]).IsChain m.Joined ∧
      m.Joined (l₁.getLastD head) (l₂.headD head) := by
  have hwhole : head :: (l₁ ++ l₂) ++ [head] = (head :: l₁) ++ (l₂ ++ [head]) := by
    simp
  have hfirst : (l₂ ++ [head]).head? = some (l₂.headD head) := by
    cases l₂ with
    | nil => rfl
    | cons a l₂ => rfl
  rw [IsRing, hwhole, List.isChain_append, getLast?_cons_eq, hfirst]
  simp

/-- The neighbours of a node. -/
theorem split {l₁ l₂ : List α} (h : m.IsRing head (l₁ ++ a :: l₂)) :
    m.Joined (l₁.getLastD head) a ∧ m.Joined a (l₂.headD head) := by
  obtain ⟨-, hright, hleft⟩ := append_iff.mp h
  refine ⟨hleft, ?_⟩
  cases l₂ with
  | nil => exact (List.isChain_cons_cons.mp hright).1
  | cons b l₂ => exact (List.isChain_cons_cons.mp hright).1

end IsRing

/-! ## what an operation writes -/

/-- A node was put between two others. -/
structure Inserted (m : Links α) (new prev next : α) (m' : Links α) : Prop where
  before : m'.Joined prev new
  behind : m'.Joined new next
  nexts : ∀ x, x ≠ prev → x ≠ new → m'.next x = m.next x
  prevs : ∀ x, x ≠ next → x ≠ new → m'.prev x = m.prev x

/-- A node was taken out from between two others. -/
structure Removed (m : Links α) (old prev next : α) (m' : Links α) : Prop where
  joined : m'.Joined prev next
  nexts : ∀ x, x ≠ prev → x ≠ old → m'.next x = m.next x
  prevs : ∀ x, x ≠ next → x ≠ old → m'.prev x = m.prev x

theorem Inserted.same {new prev next : α} (h : m.Inserted new prev next m')
    (hl : ∀ x ∈ l, x ≠ prev ∧ x ≠ next ∧ x ≠ new) :
    m.Same m' l := by
  intro x hx
  obtain ⟨hprev, hnext, hnew⟩ := hl x hx
  exact ⟨h.nexts x hprev hnew, h.prevs x hnext hnew⟩

theorem Removed.same {old prev next : α} (h : m.Removed old prev next m')
    (hl : ∀ x ∈ l, x ≠ prev ∧ x ≠ next ∧ x ≠ old) :
    m.Same m' l := by
  intro x hx
  obtain ⟨hprev, hnext, hold⟩ := hl x hx
  exact ⟨h.nexts x hprev hold, h.prevs x hnext hold⟩

theorem headD_mem_cons (l : List α) (head : α) : l.headD head ∈ head :: l := by
  cases l with
  | nil => exact List.mem_cons_self
  | cons a l => exact List.mem_cons_of_mem head List.mem_cons_self

/-- The last node comes once. -/
theorem ne_getLastD {x : α} (hnodup : (head :: l).Nodup) (hx : x ∈ (head :: l).dropLast) : x ≠ l.getLastD head := by
  have hsplit := List.dropLast_append_getLast? _ (getLast?_cons_eq head l)
  rw [← hsplit, List.nodup_append] at hnodup
  exact hnodup.2.2 x hx _ (List.mem_singleton_self _)

/-- So does the first one. -/
theorem ne_headD {x : α} (hnodup : (l ++ [head]).Nodup) (hx : x ∈ (l ++ [head]).tail) : x ≠ l.headD head := by
  cases l with
  | nil => cases hx
  | cons a l =>
      rintro rfl
      exact (List.nodup_cons.mp hnodup).1 hx

namespace IsRing

/-- **A node at the end.** -/
theorem insert {new : α} (h : m.IsRing head l) (hnodup : (head :: l).Nodup) (hnew : new ∉ head :: l)
    (hins : m.Inserted new (l.getLastD head) head m') : m'.IsRing head (l ++ [new]) := by
  have hne : ∀ x ∈ head :: l, x ≠ new := fun x hx => ne_of_mem_of_not_mem hx hnew
  refine append_iff.mpr ⟨?_, List.isChain_pair.mpr hins.behind, hins.before⟩
  refine isChain_congr (List.IsChain.left_of_append h) (fun x hx => ?_) fun x hx => ?_
  · exact hins.nexts x (ne_getLastD hnodup hx) (hne x (List.mem_of_mem_dropLast hx))
  · have hhead : x ≠ head := ne_of_mem_of_not_mem hx (List.nodup_cons.mp hnodup).1
    exact hins.prevs x hhead (hne x (List.mem_cons_of_mem head hx))

/-- **A node taken out**, wherever it is. -/
theorem remove {l₁ l₂ : List α} (h : m.IsRing head (l₁ ++ a :: l₂)) (hnodup : (head :: (l₁ ++ a :: l₂)).Nodup)
    (hrem : m.Removed a (l₁.getLastD head) (l₂.headD head) m') : m'.IsRing head (l₁ ++ l₂) := by
  have hsplit : (head :: l₁ ++ a :: l₂).Nodup := hnodup
  obtain ⟨hleft, hright, hdisj⟩ := List.nodup_append.mp hsplit
  obtain ⟨ha, hnodup₂⟩ := List.nodup_cons.mp hright
  have hclosed : (l₂ ++ [head]).Nodup := by
    refine List.nodup_append.mpr ⟨hnodup₂, List.nodup_singleton head, fun x hx y hy => ?_⟩
    rw [List.mem_singleton.mp hy]
    exact (hdisj head List.mem_cons_self x (List.mem_cons_of_mem a hx)).symm
  have hne₁ : ∀ x ∈ head :: l₁, x ≠ a := fun x hx => hdisj x hx a List.mem_cons_self
  have hne₂ : ∀ x ∈ l₂ ++ [head], x ≠ a := by
    intro x hx
    obtain hx | hx := List.mem_append.mp hx
    · exact ne_of_mem_of_not_mem hx ha
    · rw [List.mem_singleton.mp hx]
      exact hne₁ head List.mem_cons_self
  -- both stretches keep what holds them together; only the seam is new
  obtain ⟨hchain₁, hchain₂, -⟩ := append_iff.mp h
  refine append_iff.mpr ⟨isChain_congr hchain₁ (fun x hx => ?_) fun x hx => ?_,
    isChain_congr hchain₂.tail (fun x hx => ?_) fun x hx => ?_, hrem.joined⟩
  · exact hrem.nexts x (ne_getLastD hleft hx) (hne₁ x (List.mem_of_mem_dropLast hx))
  · refine hrem.prevs x ?_ (hne₁ x (List.mem_cons_of_mem head hx))
    obtain hnext | hnext := List.mem_cons.mp (headD_mem_cons l₂ head)
    · rw [hnext]
      exact ne_of_mem_of_not_mem hx (List.nodup_cons.mp hleft).1
    · exact hdisj x (List.mem_cons_of_mem head hx) _ (List.mem_cons_of_mem a hnext)
  · refine hrem.nexts x ?_ (hne₂ x (List.mem_of_mem_dropLast hx))
    rw [List.dropLast_concat] at hx
    exact (hdisj _ List.getLastD_mem_cons x (List.mem_cons_of_mem a hx)).symm
  · exact hrem.prevs x (ne_headD hclosed hx) (hne₂ x (List.mem_of_mem_tail hx))

end IsRing

end Links

end Monkey
