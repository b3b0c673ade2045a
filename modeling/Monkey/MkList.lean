import Monkey.Lib.Ring
import Monkey.Lib.Run

/-!
# Monkey.MkList

`mk_list.h`, pointer by pointer.  The lists in the other modules are the abstract ones: what
is proved here is that the rings in memory behave like them, through every sequence of
operations and through a walk that removes the node it is at.

A store or a load through a null pointer has no result.
-/

namespace Monkey

variable {α : Type*} [DecidableEq α]

/-! ## the code -/

/-- `a->next = p`. -/
def Links.setNext (m : Links α) (a : α) (p : Option α) : Links α := { m with next := Function.update m.next a p }

/-- `a->prev = p`. -/
def Links.setPrev (m : Links α) (a : α) (p : Option α) : Links α := { m with prev := Function.update m.prev a p }

/-- `mk_list_init`. -/
def mkListInit (m : Links α) (list : α) : Links α := (m.setNext list (some list)).setPrev list (some list)

/-- `__mk_list_add`. -/
def mkListAddBetween (m : Links α) (new : α) (prev next : Option α) : Option (Links α) :=
  match prev, next with
  | some a, some b => some ((((m.setPrev b (some new)).setNext new next).setPrev new prev).setNext a (some new))
  | _, _ => none

/-- `mk_list_add`. -/
def mkListAdd (m : Links α) (new head : α) : Option (Links α) := mkListAddBetween m new (m.prev head) (some head)

/-- `__mk_list_del`. -/
def mkListDelBetween (m : Links α) (prev next : Option α) : Option (Links α) :=
  match prev, next with
  | some a, some b => some ((m.setNext a next).setPrev b prev)
  | _, _ => none

/-- `mk_list_del`. -/
def mkListDel (m : Links α) (entry : α) : Option (Links α) :=
  (mkListDelBetween m (m.prev entry) (m.next entry)).map fun m => (m.setPrev entry none).setNext entry none

/-- `mk_list_is_empty`. -/
def mkListIsEmpty (m : Links α) (head : α) : Int := if m.next head = some head then 0 else -1

/-- The loop of `mk_list_foreach`, for at most so many tests: the nodes it comes to. -/
def foreachLoop (m : Links α) (head : α) : Nat → Option α → Option (List α)
  | fuel + 1, some curr =>
      if curr = head then some [] else (foreachLoop m head fuel (m.next curr)).map (curr :: ·)
  | _, _ => none

/-- `mk_list_foreach`. -/
def mkListForeach (m : Links α) (head : α) (fuel : Nat) : Option (List α) := foreachLoop m head fuel (m.next head)

/-- The loop of `mk_list_foreach_safe`: `n` is loaded before the body, and becomes `curr`. -/
def foreachSafeLoop (body : Links α → α → Option (Links α)) (head : α) :
    Nat → Links α → α → Option α → Option (Links α × List α)
  | 0, _, _, _ => none
  | fuel + 1, m, curr, n =>
      if curr = head then some (m, [])
      else
        (body m curr).bind fun m =>
          n.bind fun n => (foreachSafeLoop body head fuel m n (m.next n)).map fun (m, visited) => (m, curr :: visited)

/-- `mk_list_foreach_safe`. -/
def mkListForeachSafe (body : Links α → α → Option (Links α)) (m : Links α) (head : α) (fuel : Nat) :
    Option (Links α × List α) :=
  (m.next head).bind fun curr => foreachSafeLoop body head fuel m curr (m.next curr)

/-- An operation on the lists. -/
inductive ListOp (α : Type*)
  | init (list : α)
  | add (new head : α)
  | del (entry : α)
deriving DecidableEq, Repr

/-- What the body of a walk does with the node it is at. -/
inductive NodeMove (α : Type*)
  | keep
  | del
  | move (head : α)
deriving DecidableEq, Repr

def NodeMove.ops (curr : α) : NodeMove α → List (ListOp α)
  | .keep => []
  | .del => [.del curr]
  | .move head => [.del curr, .add curr head]

def ListOp.exec (m : Links α) : ListOp α → Option (Links α)
  | .init list => some (mkListInit m list)
  | .add new head => mkListAdd m new head
  | .del entry => mkListDel m entry

/-- The body of a walk, by what it chooses for each node. -/
def walkBody (choice : Links α → α → NodeMove α) (m : Links α) (curr : α) : Option (Links α) :=
  ((choice m curr).ops curr).foldlM ListOp.exec m

/-! ## the abstract lists -/

/-- Lists by their heads.  No node is in two of them, or twice in one. -/
structure Rings (α : Type*) where
  list : α → Option (List α)
  nodup : ∀ {h l}, list h = some l → (h :: l).Nodup
  disjoint : ∀ {h h' l l'}, list h = some l → list h' = some l' → h ≠ h' → ∀ x ∈ h :: l, x ∉ h' :: l'

namespace ListOp

/-- A list starts at a node of none, a node that is added is in none, and one that is
deleted is in one. -/
def Allowed (r : Rings α) : ListOp α → Prop
  | .init list => ∀ h l, r.list h = some l → list ∉ l
  | .add new head => (r.list head).isSome = true ∧ ∀ h l, r.list h = some l → new ∉ h :: l
  | .del entry => ∃ h l, r.list h = some l ∧ entry ∈ l

/-- The list of each head afterwards. -/
def lists (lists : α → Option (List α)) : ListOp α → α → Option (List α)
  | .init list, h => if h = list then some [] else lists h
  | .add new head, h => if h = head then (lists h).map (· ++ [new]) else lists h
  | .del entry, h => (lists h).map (·.erase entry)

variable {r : Rings α} {op : ListOp α} {h x : α} {l : List α}

/-- What a list has: nodes that it had, its head, or the node added. -/
theorem mem_lists (hl : op.lists r.list h = some l) (hx : x ∈ h :: l) :
    (∃ l₀, r.list h = some l₀ ∧ x ∈ h :: l₀) ∨ op = .init h ∧ x = h ∨ op = .add x h := by
  cases op with
  | init list =>
      simp only [lists] at hl
      split at hl
      · next heq =>
          obtain rfl := Option.some.inj hl
          exact .inr (.inl ⟨by rw [heq], List.mem_singleton.mp hx⟩)
      · exact .inl ⟨l, hl, hx⟩
  | add new head =>
      simp only [lists] at hl
      split at hl
      · next heq =>
          obtain ⟨l₀, hl₀, rfl⟩ := Option.map_eq_some_iff.mp hl
          rw [← List.cons_append] at hx
          obtain hx | hx := List.mem_append.mp hx
          · exact .inl ⟨l₀, hl₀, hx⟩
          · exact .inr (.inr (by rw [List.mem_singleton.mp hx, heq]))
      · exact .inl ⟨l, hl, hx⟩
  | del entry =>
      obtain ⟨l₀, hl₀, rfl⟩ := Option.map_eq_some_iff.mp hl
      exact .inl ⟨l₀, hl₀, List.cons_subset_cons h List.erase_subset hx⟩

theorem nodup_lists (hallowed : op.Allowed r) (hl : op.lists r.list h = some l) : (h :: l).Nodup := by
  cases op with
  | init list =>
      simp only [lists] at hl
      split at hl
      · obtain rfl := Option.some.inj hl
        exact List.nodup_singleton h
      · exact r.nodup hl
  | add new head =>
      simp only [lists] at hl
      split at hl
      · obtain ⟨l₀, hl₀, rfl⟩ := Option.map_eq_some_iff.mp hl
        have hnew := hallowed.2 h l₀ hl₀
        exact List.nodup_append.mpr ⟨r.nodup hl₀, List.nodup_singleton new,
          fun y hy z hz => List.mem_singleton.mp hz ▸ ne_of_mem_of_not_mem hy hnew⟩
      · exact r.nodup hl
  | del entry =>
      obtain ⟨l₀, hl₀, rfl⟩ := Option.map_eq_some_iff.mp hl
      exact (r.nodup hl₀).sublist (List.erase_sublist.cons_cons h)

/-- A node of a list that starts anew, or is added, was in no other. -/
theorem disjoint_lists {h' : α} {l' : List α} (hallowed : op.Allowed r) (hl : op.lists r.list h = some l)
    (hl' : op.lists r.list h' = some l') (hne : h ≠ h') (hx : x ∈ h :: l) : x ∉ h' :: l' := by
  intro hx'
  obtain ⟨l₀, hl₀, hx₀⟩ | ⟨rfl, rfl⟩ | rfl := mem_lists hl hx
  · obtain ⟨l₁, hl₁, hx₁⟩ | ⟨rfl, rfl⟩ | rfl := mem_lists hl' hx'
    · exact r.disjoint hl₀ hl₁ hne x hx₀ hx₁
    · exact hallowed h l₀ hl₀ (List.mem_of_ne_of_mem hne.symm hx₀)
    · exact hallowed.2 h l₀ hl₀ hx₀
  · obtain ⟨l₁, hl₁, hx₁⟩ | ⟨heq, -⟩ | heq := mem_lists hl' hx'
    · exact hallowed h' l₁ hl₁ (List.mem_of_ne_of_mem hne hx₁)
    · exact hne (ListOp.init.inj heq)
    · cases heq
  · obtain ⟨l₁, hl₁, hx₁⟩ | ⟨heq, -⟩ | heq := mem_lists hl' hx'
    · exact hallowed.2 h' l₁ hl₁ hx₁
    · cases heq
    · exact hne (ListOp.add.inj heq).2

/-- The operation is one on this list. -/
def Touches (h : α) (l : List α) : ListOp α → Prop
  | .init list => list = h
  | .add _ head => head = h
  | .del entry => entry ∈ l

theorem lists_of_not_touches (hl : r.list h = some l) (hnot : ¬ op.Touches h l) : op.lists r.list h = some l := by
  cases op with
  | init list => rw [lists, if_neg (Ne.symm hnot), hl]
  | add new head => rw [lists, if_neg (Ne.symm hnot), hl]
  | del entry => rw [lists, hl, Option.map_some, List.erase_of_not_mem hnot]

/-- The lists afterwards. -/
def apply (op : ListOp α) (r : Rings α) (hallowed : op.Allowed r) : Rings α where
  list := op.lists r.list
  nodup := nodup_lists hallowed
  disjoint hl hl' hne _ hx := disjoint_lists hallowed hl hl' hne hx

end ListOp

namespace Rings

variable {r : Rings α} {h h' x y : α} {l l' : List α}

omit [DecidableEq α] in
/-- Nodes of two lists. -/
theorem ne (hl : r.list h = some l) (hl' : r.list h' = some l') (hne : h ≠ h') (hx : x ∈ h :: l) (hy : y ∈ h' :: l') :
    x ≠ y := by
  rintro rfl
  exact r.disjoint hl hl' hne x hx hy

end Rings

omit [DecidableEq α] in
/-- The lists are all there is to know. -/
@[ext]
theorem Rings.ext {r r' : Rings α} (h : ∀ head, r.list head = r'.list head) : r = r' := by
  obtain ⟨list, _, _⟩ := r
  obtain ⟨list', _, _⟩ := r'
  obtain rfl : list = list' := funext h
  rfl

/-- No lists. -/
def Rings.empty : Rings α where
  list _ := none
  nodup h := nomatch h
  disjoint h := nomatch h

/-- An operation that is allowed. -/
def Rings.Step (r : Rings α) (op : ListOp α) (r' : Rings α) : Prop := ∃ hallowed : op.Allowed r, r' = op.apply r hallowed

/-- The lists after a run. -/
theorem Rings.list_of_run {r r' : Rings α} {ops : List (ListOp α)} (h : Run Rings.Step r ops r') :
    r'.list = ops.foldl (fun lists op => op.lists lists) r.list := by
  induction h with
  | nil r => rfl
  | cons hstep _ ih =>
      obtain ⟨hallowed, rfl⟩ := hstep
      exact ih

/-! ## the pointers -/

namespace Links

variable {m m' : Links α} {r : Rings α} {op : ListOp α} {head new entry : α} {l : List α}

@[simp]
theorem next_setNext (m : Links α) (a x : α) (p : Option α) :
    (m.setNext a p).next x = if x = a then p else m.next x := Function.update_apply ..

@[simp]
theorem prev_setNext (m : Links α) (a x : α) (p : Option α) : (m.setNext a p).prev x = m.prev x := rfl

@[simp]
theorem prev_setPrev (m : Links α) (a x : α) (p : Option α) :
    (m.setPrev a p).prev x = if x = a then p else m.prev x := Function.update_apply ..

@[simp]
theorem next_setPrev (m : Links α) (a x : α) (p : Option α) : (m.setPrev a p).next x = m.next x := rfl

/-- Every list is a ring in memory. -/
def Represents (m : Links α) (r : Rings α) : Prop := ∀ h l, r.list h = some l → m.IsRing h l

theorem mkListInit_spec (m : Links α) (head : α) :
    (mkListInit m head).IsRing head [] ∧ ∀ l, head ∉ l → m.Same (mkListInit m head) l := by
  refine ⟨IsRing.nil_iff.mpr ⟨by simp [mkListInit], by simp [mkListInit]⟩, fun l hl x hx => ?_⟩
  have hne : x ≠ head := ne_of_mem_of_not_mem hx hl
  exact ⟨by simp [mkListInit, hne], by simp [mkListInit, hne]⟩

/-- The four stores of `__mk_list_add`. -/
theorem mkListAddBetween_spec {new a b : α} (m : Links α) (ha : a ≠ new) (hb : b ≠ new) :
    ∃ m', mkListAddBetween m new (some a) (some b) = some m' ∧ m.Inserted new a b m' := by
  refine ⟨_, rfl, ⟨?_, ?_⟩, ⟨?_, ?_⟩, fun x hx hx' => ?_, fun x hx hx' => ?_⟩
  · simp
  · simp
  · simp [ha.symm]
  · simp [hb]
  · simp [hx, hx']
  · simp [hx, hx']

/-- The node comes after the one that was the last. -/
theorem mkListAdd_spec (h : m.IsRing head l) (hnew : new ∉ head :: l) :
    ∃ m', mkListAdd m new head = some m' ∧ m.Inserted new (l.getLastD head) head m' := by
  rw [mkListAdd, h.prev_head]
  exact mkListAddBetween_spec m (ne_of_mem_of_not_mem List.getLastD_mem_cons hnew)
    (ne_of_mem_of_not_mem List.mem_cons_self hnew)

/-- The four stores of `mk_list_del`. -/
theorem mkListDel_between {a b : α} (hprev : m.prev entry = some a) (hnext : m.next entry = some b) (ha : a ≠ entry)
    (hb : b ≠ entry) : ∃ m', mkListDel m entry = some m' ∧ m.Removed entry a b m' := by
  refine ⟨_, by rw [mkListDel, hprev, hnext]; rfl, ⟨?_, ?_⟩, fun x hx hx' => ?_, fun x hx hx' => ?_⟩
  · simp [ha]
  · simp [hb]
  · simp [hx, hx']
  · simp [hx, hx']

/-- Its neighbours are the ones in the list. -/
theorem mkListDel_spec {l₁ l₂ : List α} (h : m.IsRing head (l₁ ++ entry :: l₂))
    (hnodup : (head :: (l₁ ++ entry :: l₂)).Nodup) :
    ∃ m', mkListDel m entry = some m' ∧ m.Removed entry (l₁.getLastD head) (l₂.headD head) m' := by
  obtain ⟨⟨-, hprev⟩, hnext, -⟩ := h.split
  have hsplit : (head :: l₁ ++ entry :: l₂).Nodup := hnodup
  obtain ⟨-, hright, hdisj⟩ := List.nodup_append.mp hsplit
  refine mkListDel_between hprev hnext (hdisj _ List.getLastD_mem_cons entry List.mem_cons_self) ?_
  obtain hmem | hmem := List.mem_cons.mp (headD_mem_cons l₂ head)
  · rw [hmem]
    exact hdisj head List.mem_cons_self entry List.mem_cons_self
  · exact ne_of_mem_of_not_mem hmem (List.nodup_cons.mp hright).1

end Links

/-- The rings that the operation is not on keep their pointers. -/
def ListOp.Keeps (op : ListOp α) (r : Rings α) (m m' : Links α) : Prop :=
  ∀ h l, r.list h = some l → ¬ op.Touches h l → m.Same m' (h :: l)

namespace Links.Represents

variable {m : Links α} {r r' : Rings α}

theorem init {list : α} (hm : m.Represents r) (hallowed : (ListOp.init list).Allowed r) :
    ∃ m', (ListOp.init list).exec m = some m' ∧ m'.Represents ((ListOp.init list).apply r hallowed) ∧
      (ListOp.init list).Keeps r m m' := by
  obtain ⟨hring, hsame⟩ := mkListInit_spec m list
  have hkeeps : (ListOp.init list).Keeps r m (mkListInit m list) :=
    fun h l hl hnot => hsame _ (List.not_mem_cons_of_ne_of_not_mem hnot (hallowed h l hl))
  refine ⟨_, rfl, fun h l hl => ?_, hkeeps⟩
  by_cases heq : h = list
  · have hempty : ListOp.lists r.list (.init list) h = some [] := if_pos heq
    obtain rfl : [] = l := Option.some.inj (hempty.symm.trans hl)
    rw [heq]
    exact hring
  · have hother : ListOp.lists r.list (.init list) h = r.list h := if_neg heq
    have hl₀ : r.list h = some l := hother.symm.trans hl
    exact (hm h l hl₀).congr (hkeeps h l hl₀ (Ne.symm heq))

theorem add {new head : α} (hm : m.Represents r) (hallowed : (ListOp.add new head).Allowed r) :
    ∃ m', (ListOp.add new head).exec m = some m' ∧ m'.Represents ((ListOp.add new head).apply r hallowed) ∧
      (ListOp.add new head).Keeps r m m' := by
  obtain ⟨l₀, hl₀⟩ := Option.isSome_iff_exists.mp hallowed.1
  have hnew : new ∉ head :: l₀ := hallowed.2 head l₀ hl₀
  obtain ⟨m', hexec, hins⟩ := mkListAdd_spec (hm head l₀ hl₀) hnew
  have hkeeps : (ListOp.add new head).Keeps r m m' := by
    refine fun h l hl hnot => hins.same fun x hx => ⟨?_, ?_, ?_⟩
    · exact r.ne hl hl₀ (Ne.symm hnot) hx List.getLastD_mem_cons
    · exact r.ne hl hl₀ (Ne.symm hnot) hx List.mem_cons_self
    · exact ne_of_mem_of_not_mem hx (hallowed.2 h l hl)
  refine ⟨m', hexec, fun h l hl => ?_, hkeeps⟩
  by_cases heq : h = head
  · have happend : ListOp.lists r.list (.add new head) h = some (l₀ ++ [new]) := by
      rw [ListOp.lists, if_pos heq, heq, hl₀, Option.map_some]
    obtain rfl : l₀ ++ [new] = l := Option.some.inj (happend.symm.trans hl)
    rw [heq]
    exact (hm head l₀ hl₀).insert (r.nodup hl₀) hnew hins
  · have hother : ListOp.lists r.list (.add new head) h = r.list h := if_neg heq
    have hl₁ : r.list h = some l := hother.symm.trans hl
    exact (hm h l hl₁).congr (hkeeps h l hl₁ (Ne.symm heq))

theorem del {entry : α} (hm : m.Represents r) (hallowed : (ListOp.del entry).Allowed r) :
    ∃ m', (ListOp.del entry).exec m = some m' ∧ m'.Represents ((ListOp.del entry).apply r hallowed) ∧
      (ListOp.del entry).Keeps r m m' := by
  obtain ⟨head, l₀, hl₀, hentry⟩ := hallowed
  obtain ⟨l₁, l₂, -, rfl, herase⟩ := List.exists_erase_eq hentry
  obtain ⟨m', hexec, hrem⟩ := mkListDel_spec (hm head _ hl₀) (r.nodup hl₀)
  have hleft : head :: l₁ ⊆ head :: (l₁ ++ entry :: l₂) := List.cons_subset_cons head (List.subset_append_left l₁ _)
  have hright : head :: l₂ ⊆ head :: (l₁ ++ entry :: l₂) :=
    List.cons_subset_cons head fun x hx => List.mem_append_right l₁ (List.mem_cons_of_mem entry hx)
  have hother : ∀ h l, r.list h = some l → h ≠ head → entry ∉ l ∧ m.Same m' (h :: l) := by
    refine fun h l hl hne => ⟨fun hmem => ?_, hrem.same fun x hx => ⟨?_, ?_, ?_⟩⟩
    · exact r.ne hl hl₀ hne (List.mem_cons_of_mem h hmem) (List.mem_cons_of_mem head hentry) rfl
    · exact r.ne hl hl₀ hne hx (hleft List.getLastD_mem_cons)
    · exact r.ne hl hl₀ hne hx (hright (headD_mem_cons l₂ head))
    · exact r.ne hl hl₀ hne hx (List.mem_cons_of_mem head hentry)
  refine ⟨m', hexec, fun h l hl => ?_, fun h l hl hnot => (hother h l hl ?_).2⟩
  · by_cases heq : h = head
    · have herased : ListOp.lists r.list (.del entry) h = some (l₁ ++ l₂) := by
        rw [ListOp.lists, heq, hl₀, Option.map_some, herase]
      obtain rfl : l₁ ++ l₂ = l := Option.some.inj (herased.symm.trans hl)
      rw [heq]
      exact (hm head _ hl₀).remove (r.nodup hl₀) hrem
    · obtain ⟨l', hl', rfl⟩ := Option.map_eq_some_iff.mp hl
      obtain ⟨hnot, hsame⟩ := hother h l' hl' heq
      rw [List.erase_of_not_mem hnot]
      exact (hm h l' hl').congr hsame
  · rintro rfl
    obtain rfl := Option.some.inj (hl.symm.trans hl₀)
    exact hnot hentry

/-- **One operation** in memory is the one on the lists. -/
theorem exec {op : ListOp α} (hm : m.Represents r) (hallowed : op.Allowed r) :
    ∃ m', op.exec m = some m' ∧ m'.Represents (op.apply r hallowed) ∧ op.Keeps r m m' := by
  cases op with
  | init list => exact hm.init hallowed
  | add new head => exact hm.add hallowed
  | del entry => exact hm.del hallowed

/-- **Any number of them.**  A ring that none of them is on keeps its pointers. -/
theorem run {ops : List (ListOp α)} (hm : m.Represents r) (hrun : Run Rings.Step r ops r') :
    ∃ m', ops.foldlM ListOp.exec m = some m' ∧ m'.Represents r' ∧
      ∀ h l, r.list h = some l → (∀ op ∈ ops, ¬ op.Touches h l) → r'.list h = some l ∧ m.Same m' (h :: l) := by
  induction hrun generalizing m with
  | nil r => exact ⟨m, rfl, hm, fun h l hl _ => ⟨hl, fun x _ => ⟨rfl, rfl⟩⟩⟩
  | @cons r _ r' op ops hstep _ ih =>
      obtain ⟨hallowed, rfl⟩ := hstep
      obtain ⟨m₁, hexec, hm₁, hkeeps⟩ := hm.exec hallowed
      obtain ⟨m', hexec', hm', hkeeps'⟩ := ih hm₁
      refine ⟨m', by rw [List.foldlM_cons, hexec]; exact hexec', hm', fun h l hl hnot => ?_⟩
      have hfirst : ¬ op.Touches h l := hnot op List.mem_cons_self
      obtain ⟨hl', hsame'⟩ := hkeeps' h l (ListOp.lists_of_not_touches hl hfirst)
        fun op' hop' => hnot op' (List.mem_cons_of_mem op hop')
      have hsame := hkeeps h l hl hfirst
      exact ⟨hl', fun x hx => ⟨(hsame' x hx).1.trans (hsame x hx).1, (hsame' x hx).2.trans (hsame x hx).2⟩⟩

/-- What the operations leave in memory are the lists they leave. -/
theorem of_exec {m' : Links α} {ops : List (ListOp α)} (hm : m.Represents r) (hrun : Run Rings.Step r ops r')
    (hexec : ops.foldlM ListOp.exec m = some m') : m'.Represents r' := by
  obtain ⟨m₁, hexec₁, hm₁, -⟩ := hm.run hrun
  obtain rfl := Option.some.inj (hexec.symm.trans hexec₁)
  exact hm₁

end Links.Represents

/-! ## traversals -/

namespace Links.IsRing

variable {m : Links α} {head : α} {l : List α}

/-- From a node to the head. -/
theorem foreachLoop_eq {a : α} (h : (a :: l ++ [head]).IsChain m.Joined) (hhead : head ∉ l) :
    foreachLoop m head (l.length + 1) (m.next a) = some l := by
  induction l generalizing a with
  | nil =>
      rw [(List.isChain_pair.mp h).1]
      exact if_pos rfl
  | cons b l ih =>
      obtain ⟨⟨hnext, -⟩, hrest⟩ := List.isChain_cons_cons.mp h
      rw [List.mem_cons, not_or] at hhead
      obtain ⟨hne, hnot⟩ := hhead
      rw [hnext, List.length_cons, foreachLoop, if_neg (Ne.symm hne), ih hrest hnot, Option.map_some]

/-- `mk_list_foreach` comes to the nodes in order. -/
theorem mkListForeach_eq (h : m.IsRing head l) (hnodup : (head :: l).Nodup) :
    mkListForeach m head (l.length + 1) = some l := foreachLoop_eq h (List.nodup_cons.mp hnodup).1

/-- Along the previous pointers they come in the reverse order. -/
theorem mkListForeach_flip (h : m.IsRing head l) (hnodup : (head :: l).Nodup) :
    mkListForeach m.flip head (l.length + 1) = some l.reverse := by
  have hreverse : (head :: l.reverse).Nodup := by
    rw [List.nodup_cons, List.mem_reverse, List.nodup_reverse]
    exact List.nodup_cons.mp hnodup
  have hback := h.flip.mkListForeach_eq hreverse
  rwa [List.length_reverse] at hback

theorem mkListIsEmpty_iff (h : m.IsRing head l) (hnodup : (head :: l).Nodup) : mkListIsEmpty m head = 0 ↔ l = [] := by
  rw [mkListIsEmpty, h.next_head]
  cases l with
  | nil => simp
  | cons a l =>
      have hne : a ≠ head := (List.ne_of_not_mem_cons (List.nodup_cons.mp hnodup).1).symm
      simp [hne]

end Links.IsRing

/-! ## the walk -/

namespace Rings

variable {r : Rings α} {head x : α} {kept rest : List α}

/-- A node that was deleted is in no list. -/
theorem not_mem_of_del (hallowed : (ListOp.del x).Allowed r) {h : α} {l : List α}
    (hl : ((ListOp.del x).apply r hallowed).list h = some l) : x ∉ h :: l := by
  obtain ⟨head, l₀, hl₀, hx⟩ := id hallowed
  obtain ⟨l', hl', rfl⟩ := Option.map_eq_some_iff.mp hl
  intro hmem
  by_cases heq : h = head
  · rw [heq] at hl' hmem
    obtain rfl := Option.some.inj (hl'.symm.trans hl₀)
    obtain ⟨hhead, hnodup⟩ := List.nodup_cons.mp (r.nodup hl')
    obtain rfl | hmem := List.mem_cons.mp hmem
    · exact hhead hx
    · exact hnodup.not_mem_erase hmem
  · refine r.ne hl' hl₀ heq ?_ (List.mem_cons_of_mem head hx) rfl
    exact List.cons_subset_cons h List.erase_subset hmem

/-- The heads of lists are the same ones after one step of a walk, and the nodes it has not
come to are still there. -/
theorem exists_move (hr : r.list head = some (kept ++ x :: rest)) (move : NodeMove α)
    (hmove : ∀ h, move = .move h → h ≠ head ∧ (r.list h).isSome = true) :
    ∃ r' kept', Run Step r (move.ops x) r' ∧ r'.list head = some (kept' ++ rest) ∧
      ∀ h, (r'.list h).isSome = (r.list h).isSome := by
  have hx : x ∈ kept ++ x :: rest := List.mem_append_right kept List.mem_cons_self
  have hdel : (ListOp.del x).Allowed r := ⟨head, _, hr, hx⟩
  have hkept : x ∉ kept := by
    obtain ⟨-, hnodup⟩ := List.nodup_cons.mp (r.nodup hr)
    exact fun hmem => (List.nodup_append.mp hnodup).2.2 x hmem x List.mem_cons_self rfl
  have hlist : ((ListOp.del x).apply r hdel).list head = some (kept ++ rest) := by
    change (r.list head).map (·.erase x) = _
    rw [hr, Option.map_some, List.erase_append_right _ hkept, List.erase_cons_head]
  have hheads : ∀ h, (((ListOp.del x).apply r hdel).list h).isSome = (r.list h).isSome := fun h => Option.isSome_map
  cases move with
  | keep => exact ⟨r, kept ++ [x], .nil r, by rw [hr, List.append_assoc, List.singleton_append], fun _ => rfl⟩
  | del => exact ⟨_, kept, .cons ⟨hdel, rfl⟩ (.nil _), hlist, hheads⟩
  | move h' =>
      obtain ⟨hne, hsome⟩ := hmove h' rfl
      have hadd : (ListOp.add x h').Allowed ((ListOp.del x).apply r hdel) :=
        ⟨(hheads h').trans hsome, fun h l hl => not_mem_of_del hdel hl⟩
      refine ⟨_, kept, .cons ⟨hdel, rfl⟩ (.cons ⟨hadd, rfl⟩ (.nil _)), ?_, fun h => ?_⟩
      · exact (if_neg (Ne.symm hne)).trans hlist
      · rw [← hheads h]
        by_cases heq : h = h'
        · exact (congrArg Option.isSome (if_pos heq)).trans Option.isSome_map
        · exact congrArg Option.isSome (if_neg heq)

end Rings

namespace Links.Represents

variable {m : Links α} {r r' : Rings α} {head : α} {l : List α}

/-- The loop, when `kept` is what it has left in the list and `rest` what it has to come to. -/
theorem foreachSafeLoop_eq (choice : Links α → α → NodeMove α) {kept rest : List α} (hm : m.Represents r)
    (hr : r.list head = some (kept ++ rest))
    (hchoice : ∀ m x h, choice m x = .move h → h ≠ head ∧ (r.list h).isSome = true) :
    ∃ (m' : Links α) (r' : Rings α) (moves : List (α × NodeMove α)),
      foreachSafeLoop (walkBody choice) head (rest.length + 1) m (rest.headD head) (m.next (rest.headD head)) =
        some (m', rest) ∧
      rest.foldlM (walkBody choice) m = some m' ∧ moves.map Prod.fst = rest ∧
      Run Rings.Step r (moves.flatMap fun (x, move) => move.ops x) r' ∧ m'.Represents r' := by
  induction rest generalizing m r kept with
  | nil => exact ⟨m, r, [], if_pos rfl, rfl, rfl, .nil r, hm⟩
  | cons x rest ih =>
      obtain ⟨r₁, kept₁, hrun, hr₁, hheads⟩ := Rings.exists_move hr (choice m x) (hchoice m x)
      obtain ⟨m₁, hbody, hm₁, -⟩ := hm.run hrun
      obtain ⟨m', r', moves, hloop, hfold, hmoves, hrun', hm'⟩ := ih hm₁ hr₁
        fun m y h hy => by rw [hheads h]; exact hchoice m y h hy
      have hne : x ≠ head := by
        have hnot := (List.nodup_cons.mp (r.nodup hr)).1
        exact (ne_of_mem_of_not_mem (List.mem_append_right kept List.mem_cons_self) hnot)
      have hnext : m.next x = some (rest.headD head) := (hm head _ hr).split.2.1
      -- the next node was loaded before the body, which moves `x` only
      refine ⟨m', r', (x, choice m x) :: moves, ?_, ?_, ?_, ?_, hm'⟩
      · rw [List.length_cons, List.headD_cons, hnext, foreachSafeLoop, if_neg hne, walkBody, hbody, Option.bind_some,
          Option.bind_some, hloop, Option.map_some]
      · rw [List.foldlM_cons, walkBody, hbody]
        exact hfold
      · rw [List.map_cons, hmoves]
      · exact hrun.append hrun'

/-- **A walk** comes to every node of the list, in its order, and leaves the rings of the moves
it made. -/
theorem mkListForeachSafe_eq (choice : Links α → α → NodeMove α) (hm : m.Represents r) (hl : r.list head = some l)
    (hchoice : ∀ m x h, choice m x = .move h → h ≠ head ∧ (r.list h).isSome = true) :
    ∃ (m' : Links α) (r' : Rings α) (moves : List (α × NodeMove α)),
      mkListForeachSafe (walkBody choice) m head (l.length + 1) = some (m', l) ∧
      l.foldlM (walkBody choice) m = some m' ∧ moves.map Prod.fst = l ∧
      Run Rings.Step r (moves.flatMap fun (x, move) => move.ops x) r' ∧ m'.Represents r' := by
  have hstart : r.list head = some ([] ++ l) := hl
  obtain ⟨m', r', moves, hloop, hwalk⟩ := hm.foreachSafeLoop_eq choice hstart hchoice
  refine ⟨m', r', moves, ?_, hwalk⟩
  rw [mkListForeachSafe, (hm head l hl).next_head, Option.bind_some, hloop]

end Links.Represents

/-- **The rings in memory are the lists**, after any operations: forwards and backwards,
empty when they are, and each as it was when no operation was on it.  A walk over one that
deletes the nodes it likes, or moves them to others, comes to every node once. -/
theorem mkList_run {m : Links α} {r r' : Rings α} {ops : List (ListOp α)} (hm : m.Represents r)
    (hrun : Run Rings.Step r ops r') :
    ∃ m', ops.foldlM ListOp.exec m = some m' ∧
      (∀ h l, r.list h = some l → (∀ op ∈ ops, ¬ op.Touches h l) → r'.list h = some l ∧ m.Same m' (h :: l)) ∧
      ∀ h l, r'.list h = some l →
        mkListForeach m' h (l.length + 1) = some l ∧
        mkListForeach m'.flip h (l.length + 1) = some l.reverse ∧
        (mkListIsEmpty m' h = 0 ↔ l = []) ∧
        ∀ choice : Links α → α → NodeMove α,
          (∀ m x h', choice m x = .move h' → h' ≠ h ∧ (r'.list h').isSome = true) →
          ∃ (m'' : Links α) (r'' : Rings α) (moves : List (α × NodeMove α)),
            mkListForeachSafe (walkBody choice) m' h (l.length + 1) = some (m'', l) ∧
            l.foldlM (walkBody choice) m' = some m'' ∧ moves.map Prod.fst = l ∧
            Run Rings.Step r' (moves.flatMap fun (x, move) => move.ops x) r'' ∧ m''.Represents r'' := by
  obtain ⟨m', hexec, hm', hkeeps⟩ := hm.run hrun
  refine ⟨m', hexec, hkeeps, fun h l hl => ?_⟩
  have hring : m'.IsRing h l := hm' h l hl
  have hnodup : (h :: l).Nodup := r'.nodup hl
  exact ⟨hring.mkListForeach_eq hnodup, hring.mkListForeach_flip hnodup, hring.mkListIsEmpty_iff hnodup,
    fun choice hchoice => hm'.mkListForeachSafe_eq choice hl hchoice⟩

/-- Two lists, and the only node of the first moved to the second. -/
theorem mkList_run_move : ∃ m' m'' : Links ℕ,
    [ListOp.init 0, ListOp.init 1, ListOp.add 2 0].foldlM ListOp.exec ⟨fun _ => none, fun _ => none⟩ = some m' ∧
    mkListForeachSafe (walkBody fun _ _ => .move 1) m' 0 2 = some (m'', [2]) := by
  have hempty : Links.Represents (⟨fun _ => none, fun _ => none⟩ : Links ℕ) Rings.empty := fun h l hl => nomatch hl
  have hinit : (ListOp.init 0).Allowed (Rings.empty : Rings ℕ) := fun h l hl => nomatch hl
  have hinit' : (ListOp.init 1).Allowed ((ListOp.init 0).apply Rings.empty hinit) := by
    intro h l hl
    change (if h = 0 then some [] else none) = some l at hl
    grind
  have hadd : (ListOp.add 2 0).Allowed ((ListOp.init 1).apply _ hinit') := by
    refine ⟨rfl, fun h l hl => ?_⟩
    change (if h = 1 then some [] else if h = 0 then some [] else none) = some l at hl
    grind
  obtain ⟨m', hexec, -, hlists⟩ := mkList_run hempty
    (.cons ⟨hinit, rfl⟩ (.cons ⟨hinit', rfl⟩ (.cons ⟨hadd, rfl⟩ (.nil _))))
  obtain ⟨-, -, -, hwalk⟩ := hlists 0 [2] rfl
  obtain ⟨m'', -, -, hloop, -⟩ := hwalk (fun _ _ => .move 1) fun m x h' heq => by
    obtain rfl := NodeMove.move.inj heq
    exact ⟨one_ne_zero, rfl⟩
  exact ⟨m', m'', hexec, hloop⟩

end Monkey
