import Mathlib.Tactic

/-!
# Monkey.Lib.Chain

Handlers that are asked one after another, until one does not pass the question on.

A handler that passes may change the state.  As long as it keeps what the others look at,
the first one that answers decides, however many have passed before it.
-/

namespace Monkey

variable {ι σ α : Type*}

/-- What comes of a question: it is passed on, or answered. -/
inductive Asked (σ α : Type*)
  | passed (s : σ)
  | answered (a : α)

/-- Asks the handlers in order. -/
def askAll (ask : ι → σ → Asked σ α) : List ι → σ → Asked σ (ι × α)
  | [], s => .passed s
  | i :: is, s =>
      match ask i s with
      | .passed s => askAll ask is s
      | .answered a => .answered (i, a)

/-- `answers` tells the handlers that answer from those that pass, in the states of `I`,
which are kept by passing. -/
structure Answering (ask : ι → σ → Asked σ α) (I : σ → Prop) (answers : ι → Bool) : Prop where
  passed : ∀ i s, I s → answers i = false → ∃ s', I s' ∧ ask i s = .passed s'
  answered : ∀ i s, I s → answers i = true → ∃ a, ask i s = .answered a

namespace Answering

variable {ask : ι → σ → Asked σ α} {I : σ → Prop} {answers : ι → Bool} {is : List ι} {i : ι} {s : σ}

/-- Without a handler that answers, the question is passed on. -/
theorem askAll_none (h : Answering ask I answers) (hfind : is.find? answers = none) (hs : I s) :
    ∃ s', I s' ∧ askAll ask is s = .passed s' := by
  induction is generalizing s with
  | nil => exact ⟨s, hs, rfl⟩
  | cons j is ih =>
      cases hj : answers j with
      | true => simp [hj] at hfind
      | false =>
          obtain ⟨s', hs', hask⟩ := h.passed j s hs hj
          obtain ⟨t, ht, hrest⟩ := ih (by simpa [List.find?_cons, hj] using hfind) hs'
          exact ⟨t, ht, by rw [askAll, hask]; exact hrest⟩

/-- The first handler that answers decides. -/
theorem askAll_some (h : Answering ask I answers) (hfind : is.find? answers = some i) (hs : I s) :
    ∃ s' a, I s' ∧ ask i s' = .answered a ∧ askAll ask is s = .answered (i, a) := by
  induction is generalizing s with
  | nil => contradiction
  | cons j is ih =>
      cases hj : answers j with
      | true =>
          obtain rfl : j = i := by simpa [List.find?_cons, hj] using hfind
          obtain ⟨a, hask⟩ := h.answered j s hs hj
          exact ⟨s, a, hs, hask, by rw [askAll, hask]⟩
      | false =>
          obtain ⟨s', hs', hask⟩ := h.passed j s hs hj
          obtain ⟨t, a, ht, hfirst, hrest⟩ := ih (by simpa [List.find?_cons, hj] using hfind) hs'
          exact ⟨t, a, ht, hfirst, by rw [askAll, hask]; exact hrest⟩

end Answering

end Monkey
