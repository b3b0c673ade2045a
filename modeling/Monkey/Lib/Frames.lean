import Monkey.Lib.CString

/-!
# Monkey.Lib.Frames

A byte stream made of frames, each closed by the same terminator: a terminator
found anywhere in the stream closes a frame, so the frames can be told apart from
the bytes alone.
-/

namespace Monkey

/-- A frame closed by `term`: its only terminator is at its end, and it starts
with a byte the terminator does not have. -/
structure IsFrame (term r : Bytes) : Prop where
  ends : term <:+ r
  only : ∀ q, term <+: r.drop q → q + term.length = r.length
  starts : ∃ c s, r = c :: s ∧ c ∉ term

/-- The content of a frame. -/
def frameHead (term r : Bytes) : Bytes := r.take (r.length - term.length)

/-- No terminator lies before the only one of a text. -/
theorem le_of_only {term r rest : Bytes} (honly : ∀ q, term <+: r.drop q → q + term.length = r.length)
    {q : Nat} (hq : term <+: (r ++ rest).drop q) : r.length ≤ q + term.length := by
  by_contra hlt
  have hpre : term <+: r.drop q := by
    rw [List.drop_append_of_le_length (by omega)] at hq
    exact List.prefix_of_prefix_length_le hq (List.prefix_append _ _)
      (by rw [List.length_drop]; omega)
  have := honly q hpre
  omega

/-- A text closed by its only terminator ends at the first terminator. -/
theorem findSub_append_of_only {term r : Bytes} (hends : term <:+ r)
    (honly : ∀ q, term <+: r.drop q → q + term.length = r.length) (rest : Bytes) :
    findSub term (r ++ rest) = some (r.length - term.length) := by
  have hle := hends.length_le
  apply findSub_eq_some
  · rw [List.drop_append_of_le_length (by omega), ← List.suffix_iff_eq_drop.mp hends]
    exact List.prefix_append _ _
  · rw [List.length_append]
    omega
  · intro q hq hpre
    have := le_of_only honly hpre
    omega

namespace IsFrame

variable {term r p rest : Bytes} {rs : List Bytes}

theorem term_length_le (h : IsFrame term r) : term.length ≤ r.length := h.ends.length_le

theorem length_frameHead (h : IsFrame term r) :
    (frameHead term r).length + term.length = r.length := by
  have := h.term_length_le
  simp [frameHead]
  omega

theorem frameHead_append (h : IsFrame term r) : frameHead term r ++ term = r := by
  unfold frameHead
  nth_rewrite 2 [List.suffix_iff_eq_drop.mp h.ends]
  rw [List.take_append_drop]

/-- The content holds no terminator. -/
theorem not_infix_frameHead (h : IsFrame term r) (hterm : term ≠ []) :
    ¬ term <:+: frameHead term r := by
  rintro ⟨s, t, hst⟩
  have hlen := congrArg List.length hst
  simp only [List.length_append] at hlen
  have hpos := List.length_pos_iff.mpr hterm
  have hpre : term <+: r.drop s.length := by
    rw [← h.frameHead_append, ← hst]
    simp
  have := h.only _ hpre
  have := h.length_frameHead
  omega

/-- No terminator lies before the end of the first frame. -/
theorem le_of_term (h : IsFrame term r) {q : Nat} (hq : term <+: (r ++ rest).drop q) :
    r.length ≤ q + term.length := le_of_only h.only hq

/-- The first terminator of a stream closes its first frame. -/
theorem findSub_append (h : IsFrame term r) (rest : Bytes) :
    findSub term (r ++ rest) = some (r.length - term.length) :=
  findSub_append_of_only h.ends h.only rest

/-- A part of the stream with a terminator in it holds the whole first frame. -/
theorem whole_of_term (h : IsFrame term r) (hp : p <+: r ++ rest) (ht : term <:+: p) :
    r <+: p := by
  obtain ⟨s, t, rfl⟩ := ht
  have hpre : term <+: (r ++ rest).drop s.length := by
    obtain ⟨u, hu⟩ := hp
    rw [← hu]
    simp
  have := h.le_of_term hpre
  exact List.prefix_of_prefix_length_le (List.prefix_append _ _) hp
    (by simp only [List.length_append]; omega)

/-- A terminator that ends a part of the stream past its first frame does not
reach into that frame. -/
theorem suffix_of_append (hterm : term <:+ r ++ p) (hp : p ≠ [])
    (hstart : ∀ c s, p = c :: s → c ∉ term) : term <:+ p := by
  rcases List.suffix_or_suffix_of_suffix hterm (List.suffix_append r p) with hle | hle
  · exact hle
  · cases p with
    | nil => contradiction
    | cons c s => exact absurd (hle.subset (by simp)) (hstart c s rfl)

/-- A part of the stream that ends with a terminator is made of whole frames. -/
theorem eq_flatten_of_ends (hrs : ∀ r ∈ rs, IsFrame term r) (hp : p <+: rs.flatten)
    (hne : p ≠ []) (ht : term <:+ p) : ∃ k, 0 < k ∧ p = (rs.take k).flatten := by
  induction rs generalizing p with
  | nil => exact absurd (List.prefix_nil.mp hp) hne
  | cons r rs ih =>
      have hr := hrs r (by simp)
      rw [List.flatten_cons] at hp
      obtain ⟨p', rfl⟩ := hr.whole_of_term hp ht.isInfix
      by_cases hp' : p' = []
      · exact ⟨1, one_pos, by simp [hp']⟩
      · have hpre : p' <+: rs.flatten := (List.prefix_append_right_inj r).mp hp
        have hstart : ∀ c s, p' = c :: s → c ∉ term := by
          rintro c s rfl
          cases rs with
          | nil => simp at hpre
          | cons r₂ rs =>
              obtain ⟨d, u, rfl, hd⟩ := (hrs r₂ (by simp)).starts
              obtain ⟨rfl, _⟩ := List.cons_prefix_cons.mp hpre
              exact hd
        obtain ⟨k, _, hk⟩ := ih (fun r hr => hrs r (by simp [hr])) hpre hp'
          (suffix_of_append ht hp' hstart)
        exact ⟨k + 1, by omega, by simp [hk]⟩

theorem length_mul_le (hrs : ∀ r ∈ rs, IsFrame term r) :
    rs.length * term.length ≤ rs.flatten.length := by
  induction rs with
  | nil => simp
  | cons r rs ih =>
      have hr := (hrs r (by simp)).term_length_le
      have := ih fun r hr => hrs r (by simp [hr])
      rw [List.length_cons, List.flatten_cons, List.length_append, Nat.succ_mul]
      omega

/-- A stream of frames ends with a terminator. -/
theorem flatten_ends (hrs : ∀ r ∈ rs, IsFrame term r) (hne : rs ≠ []) : term <:+ rs.flatten := by
  rw [← List.dropLast_append_getLast hne, List.flatten_append]
  exact List.IsSuffix.trans (hrs _ (List.getLast_mem hne)).ends (by simp)

end IsFrame

/-- The length of a stream of frames, from the contents. -/
def framedLength (term : Bytes) (heads : List Bytes) : Nat :=
  (heads.map fun b => b.length + term.length).sum

theorem framedLength_append (term : Bytes) (xs ys : List Bytes) :
    framedLength term (xs ++ ys) = framedLength term xs + framedLength term ys := by
  simp [framedLength]

theorem framedLength_frameHead {term : Bytes} {rs : List Bytes}
    (hrs : ∀ r ∈ rs, IsFrame term r) :
    framedLength term (rs.map (frameHead term)) = rs.flatten.length := by
  induction rs with
  | nil => rfl
  | cons r rs ih =>
      have hr := (hrs r (by simp)).length_frameHead
      have := ih fun r hr => hrs r (by simp [hr])
      simp only [framedLength, List.map_cons, List.sum_cons, List.flatten_cons,
        List.length_append] at this ⊢
      omega

end Monkey
