import Monkey.Lib.Run

/-!
# Monkey.Lib.Fifo

What the labels of a run say about its states.

A queue that every step takes from at one end and adds to at the other holds what has been
added and not yet taken (`Run.fifo`).  A property of the state and of the labels so far that
every step keeps holds along the run (`Run.history`).
-/

namespace Monkey

variable {σ α β : Type*} {step : σ → α → σ → Prop} {s s' : σ} {as : List α}

/-- What the labels of a run add up to. -/
def along (f : α → List β) (as : List α) : List β := (as.map f).flatten

theorem along_nil (f : α → List β) : along f [] = [] := rfl

theorem along_cons (f : α → List β) (a : α) (as : List α) : along f (a :: as) = f a ++ along f as := rfl

theorem along_append (f : α → List β) (as bs : List α) : along f (as ++ bs) = along f as ++ along f bs := by
  simp [along]

theorem along_eq_nil {f : α → List β} : along f as = [] ↔ ∀ a ∈ as, f a = [] := by
  simp [along, List.flatten_eq_nil_iff]

theorem along_congr {f g : α → List β} (h : ∀ a ∈ as, f a = g a) : along f as = along g as := by
  rw [along, along, List.map_congr_left h]

namespace Run

/-- A run of two parts goes through the state between them. -/
theorem of_append {bs : List α} (h : Run step s (as ++ bs) s') : ∃ t, Run step s as t ∧ Run step t bs s' := by
  induction as generalizing s with
  | nil => exact ⟨s, .nil s, h⟩
  | cons a as ih =>
      cases h with
      | cons hab hrest =>
          obtain ⟨t, has, hbs⟩ := ih hrest
          exact ⟨t, .cons hab has, hbs⟩

/-- **History rule**: what every step keeps, of the state and of the labels before it. -/
theorem history {J : List α → σ → Prop}
    (hstep : ∀ bs s a s', J bs s → step s a s' → J (bs ++ [a]) s')
    (h : Run step s as s') (hs : J [] s) : J as s' := by
  suffices hgen : ∀ bs, J bs s → J (bs ++ as) s' from hgen [] hs
  clear hs
  induction h with
  | nil s =>
      intro bs hbs
      rwa [List.append_nil]
  | @cons s t s' a as hab _ ih =>
      intro bs hbs
      rw [List.append_cons]
      exact ih (bs ++ [a]) (hstep bs s a t hbs hab)

/-- **Queue rule**: nothing is lost, doubled or reordered in a queue. -/
theorem fifo (content : σ → List β) (added taken : α → List β)
    (hstep : ∀ s a s', step s a s' → content s ++ added a = taken a ++ content s') (h : Run step s as s') :
    content s ++ along added as = along taken as ++ content s' := by
  induction h with
  | nil s => simp [along_nil]
  | @cons s t s' a as hab _ ih =>
      rw [along_cons, along_cons, ← List.append_assoc, hstep s a t hab, List.append_assoc, ih,
        List.append_assoc]

/-- A store that is only added to. -/
theorem grows (content : σ → List β) (added : α → List β)
    (hstep : ∀ s a s', step s a s' → content s' = content s ++ added a) (h : Run step s as s') :
    content s' = content s ++ along added as := by
  induction h with
  | nil s => simp [along_nil]
  | @cons s t s' a as hab _ ih => rw [ih, hstep s a t hab, along_cons, List.append_assoc]

end Run

end Monkey
