import Mathlib.Tactic

/-!
# Monkey.Lib.Lines

A stream cut behind every terminator.

When no record has a terminator but at its end, the stream of the records is cut back
into them exactly when each but the last one is terminated (`cutAfter_flatten_iff`).
-/

namespace Monkey

variable {α : Type*} {sep : α}

/-- A record: it has no terminator but at its end. -/
def IsPiece (sep : α) (r : List α) : Prop := r ≠ [] ∧ sep ∉ r.dropLast

/-- A record with a terminator is ended by it. -/
theorem IsPiece.eq_line {r : List α} (h : IsPiece sep r) (hsep : sep ∈ r) : r = r.dropLast ++ [sep] := by
  have hlast := List.dropLast_append_getLast h.1
  rw [← hlast] at hsep
  rcases List.mem_append.mp hsep with hsep | hsep
  · exact absurd hsep h.2
  · rw [List.mem_singleton.mp hsep, hlast]

theorem isPiece_line {body : List α} (h : sep ∉ body) : IsPiece sep (body ++ [sep]) :=
  ⟨by simp, by simpa using h⟩

theorem isPiece_unended {r : List α} (hne : r ≠ []) (h : sep ∉ r) : IsPiece sep r :=
  ⟨hne, fun hmem => h (List.mem_of_mem_dropLast hmem)⟩

variable [DecidableEq α]

/-- The stream cut behind every `sep`; the last piece may lack one. -/
def cutAfter (sep : α) : List α → List (List α)
  | [] => []
  | c :: s =>
      if c = sep then [c] :: cutAfter sep s
      else
        match cutAfter sep s with
        | [] => [[c]]
        | l :: ls => (c :: l) :: ls

/-- Nothing is lost between the pieces. -/
theorem flatten_cutAfter (s : List α) : (cutAfter sep s).flatten = s := by
  induction s with
  | nil => rfl
  | cons c s ih =>
      rw [cutAfter]
      split
      · rw [List.flatten_cons, ih]
        rfl
      · cases hrest : cutAfter sep s with
        | nil =>
            rw [hrest] at ih
            rw [← ih]
            rfl
        | cons l ls =>
            rw [hrest] at ih
            rw [← ih]
            rfl

/-- A terminated record comes off in one piece. -/
theorem cutAfter_line {body : List α} (hbody : sep ∉ body) (s : List α) :
    cutAfter sep (body ++ sep :: s) = (body ++ [sep]) :: cutAfter sep s := by
  induction body with
  | nil => rw [List.nil_append, cutAfter, if_pos rfl, List.nil_append]
  | cons c body ih =>
      obtain ⟨hc, hbody⟩ := not_or.mp fun h => hbody (List.mem_cons.mpr h)
      rw [List.cons_append, cutAfter, if_neg (Ne.symm hc), ih hbody]
      rfl

/-- Without a terminator there is one piece. -/
theorem cutAfter_unended {s : List α} (hne : s ≠ []) (hs : sep ∉ s) : cutAfter sep s = [s] := by
  induction s with
  | nil => contradiction
  | cons c s ih =>
      obtain ⟨hc, hs⟩ := not_or.mp fun h => hs (List.mem_cons.mpr h)
      rw [cutAfter, if_neg (Ne.symm hc)]
      cases s with
      | nil => rfl
      | cons d s => rw [ih (by simp) hs]

/-- Every piece but the last one is terminated. -/
theorem mem_of_mem_dropLast_cutAfter {s l : List α} (h : l ∈ (cutAfter sep s).dropLast) : sep ∈ l := by
  induction s generalizing l with
  | nil => contradiction
  | cons c s ih =>
      rw [cutAfter] at h
      split at h
      · next hc =>
          cases hrest : cutAfter sep s with
          | nil => simp [hrest] at h
          | cons m ms =>
              rw [hrest, List.dropLast_cons_of_ne_nil (by simp), ← hrest] at h
              rcases List.mem_cons.mp h with rfl | h
              · simp [hc]
              · exact ih h
      · cases hrest : cutAfter sep s with
        | nil => simp [hrest] at h
        | cons m ms =>
            rw [hrest] at h ih
            cases ms with
            | nil => simp at h
            | cons m' ms =>
                rw [List.dropLast_cons_of_ne_nil (by simp)] at h ih
                rcases List.mem_cons.mp h with rfl | h
                · exact List.mem_cons_of_mem _ (ih (List.mem_cons_self ..))
                · exact ih (List.mem_cons_of_mem _ h)

/-- Terminated records come off one by one, whatever follows. -/
theorem cutAfter_lines {rs : List (List α)} (hrs : ∀ r ∈ rs, IsPiece sep r ∧ sep ∈ r) (s : List α) :
    cutAfter sep (rs.flatten ++ s) = rs ++ cutAfter sep s := by
  induction rs with
  | nil => rfl
  | cons r rs ih =>
      have hrest := ih fun r hr => hrs r (List.mem_cons_of_mem _ hr)
      obtain ⟨hr, hsep⟩ := hrs r (List.mem_cons_self ..)
      have hline := hr.eq_line hsep
      rw [List.flatten_cons, List.append_assoc, hline, List.append_assoc, List.singleton_append,
        cutAfter_line hr.2, hrest, List.cons_append]

/-- **Cutting the records apart** succeeds exactly when all but the last are terminated. -/
theorem cutAfter_flatten_iff {rs : List (List α)} (hrs : ∀ r ∈ rs, IsPiece sep r) :
    cutAfter sep rs.flatten = rs ↔ ∀ r ∈ rs.dropLast, sep ∈ r := by
  constructor
  · intro h r hr
    rw [← h] at hr
    exact mem_of_mem_dropLast_cutAfter hr
  · intro h
    rcases List.eq_nil_or_concat rs with rfl | ⟨init, r, rfl⟩
    · rfl
    · rw [List.concat_eq_append] at hrs h ⊢
      rw [List.dropLast_concat] at h
      have hlast := hrs r (by simp)
      have hone : cutAfter sep r = [r] := by
        by_cases hsep : sep ∈ r
        · have hline := hlast.eq_line hsep
          rw [hline]
          exact cutAfter_line hlast.2 []
        · exact cutAfter_unended hlast.1 hsep
      rw [List.flatten_append, cutAfter_lines fun r hr => ⟨hrs r (by simp [hr]), h r hr⟩]
      simp [hone]

end Monkey
