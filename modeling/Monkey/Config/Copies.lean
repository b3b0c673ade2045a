import Monkey.Config.Lines

/-!
# Monkey.Config.Copies

How far `mk_config_create` reads in its line buffer.  The copy of a value starts behind
the key, but is as long as the rest of the line behind the indentation: it goes past the
end of the line by the length of the key.
-/

namespace Monkey.Config

/-- The bytes read are inside the line and its NUL, if there are any. -/
def Copy.InLine (c : Copy) : Prop := c.start < c.stop → 0 ≤ c.start ∧ c.stop ≤ c.len + 1

instance (c : Copy) : Decidable c.InLine := inferInstanceAs (Decidable (_ → _))

/-- The line has no key of two bytes or more: where it is read behind an indentation, its first
space is not that far. -/
def KeyFits (s : ConfigState) (buf : Bytes) : Prop :=
  NeedsIndent buf → ∀ before after, buf = s.indent.getD (learntIndent buf) ++ (before ++ 0x20 :: after) →
    IsBody (before ++ 0x20 :: after) → 0x20 ∉ before → before.length ≤ 1

variable {s : ConfigState} {off : Nat} {indent buf body before after : Bytes}

/-! ## one line -/

theorem learnCopies_inLine (h : buf ≠ []) : ∀ c ∈ learnCopies s buf, c.InLine := by
  intro c hc
  unfold learnCopies at hc
  split at hc
  · obtain rfl := List.mem_singleton.mp hc
    have := indentEnd_le h
    intro _
    simp only [substrReads]
    omega
  · contradiction

theorem configLine_header_inLine (rest : Bytes) : ∀ c ∈ (configLine s off (0x5b :: rest)).copies, c.InLine := by
  intro c hc
  by_cases hend : 0x5d ∈ rest
  · obtain ⟨name, after, rfl, hname⟩ := List.eq_append_cons_of_mem hend
    rw [configLine_header hname] at hc
    split at hc
    · contradiction
    · obtain rfl := List.mem_singleton.mp hc
      intro _
      simp only [substrReads, List.length_cons, List.length_append]
      omega
  · rw [configLine_header_open hend] at hc
    contradiction

theorem registerEntry_copies (copies : List Copy) (key val : Bytes) :
    (registerEntry s off copies key val).copies = copies := by
  unfold registerEntry
  split <;> rfl

/-- The value is copied past the line exactly when the key is longer than one byte. -/
theorem configKeyVal_inLine (h : IsBody body) :
    (∀ c ∈ (configKeyVal s off indent.length (indent ++ body)).copies, c.InLine) ↔
      ∀ before after, body = before ++ 0x20 :: after → 0x20 ∉ before → before.length ≤ 1 := by
  by_cases hspace : 0x20 ∈ body
  · obtain ⟨before, after, rfl, hbefore⟩ := List.eq_append_cons_of_mem hspace
    have hpos : 1 ≤ before.length := by
      refine List.length_pos_iff.mpr fun hnil => ?_
      subst hnil
      exact absurd (h.visible 0x20 rfl).1 (by decide)
    rw [configKeyVal_entry hbefore, registerEntry_copies]
    simp only [List.forall_mem_cons, List.not_mem_nil, false_implies, implies_true, and_true, Copy.InLine,
      substrReads, List.length_append, List.length_cons]
    constructor
    · intro ⟨_, hval⟩ before' after' heq hbefore'
      obtain rfl := before_eq heq hbefore hbefore'
      omega
    · intro hshort
      have := hshort before after rfl hbefore
      omega
  · rw [configKeyVal_noSpace hspace]
    constructor
    · intro _ before after heq
      exact absurd (heq ▸ List.mem_append_right before List.mem_cons_self) hspace
    · intro _
      have hpos := List.length_pos_iff.mpr h.ne_nil
      simp only [List.forall_mem_cons, List.not_mem_nil, false_implies, implies_true, and_true, Copy.InLine,
        substrReads, List.length_append]
      omega

theorem configEntry_inLine (h0 : 0 ∉ indent) :
    (∀ c ∈ (configEntry s off indent buf).copies, c.InLine) ↔
      ∀ before after, buf = indent ++ (before ++ 0x20 :: after) → IsBody (before ++ 0x20 :: after) →
        0x20 ∉ before → before.length ≤ 1 := by
  by_cases hindent : indent <+: buf
  · obtain ⟨body, rfl⟩ := hindent
    rcases body_cases body with hblank | hskip | hbody
    · rw [configEntry_blank h0 hblank]
      refine iff_of_true (fun c hc => absurd hc List.not_mem_nil) fun before after heq hbody => ?_
      obtain rfl := List.append_cancel_left heq
      obtain ⟨c, rest, hc⟩ := List.exists_cons_of_ne_nil hbody.ne_nil
      rw [hc, List.headD_cons, (hbody.visible c (by rw [hc]; rfl)).1] at hblank
      contradiction
    · rw [configEntry_skip h0 hskip]
      refine iff_of_true (fun c hc => absurd hc List.not_mem_nil) fun before after heq hbody => ?_
      obtain rfl := List.append_cancel_left heq
      rcases hskip with hnil | hcomment
      · exact absurd hnil hbody.ne_nil
      · exact absurd rfl (hbody.visible _ hcomment).2
    · rw [configEntry_body h0 hbody, configKeyVal_inLine hbody]
      constructor
      · exact fun h before after heq _ => h before after (List.append_cancel_left heq)
      · exact fun h before after heq => h before after (by rw [heq]) (heq ▸ hbody)
  · rw [configEntry_mismatch h0 hindent]
    exact iff_of_true (fun c hc => absurd hc List.not_mem_nil)
      fun before after heq => absurd (heq ▸ List.prefix_append indent _) hindent

/-- **One line**: what is copied out of it is inside exactly when its key fits. -/
theorem configLine_inLine (h0 : 0 ∉ buf) (hs : ∀ indent ∈ s.indent, 0 ∉ indent) :
    (∀ c ∈ (configLine s off buf).copies, c.InLine) ↔ KeyFits s buf := by
  by_cases hneeds : NeedsIndent buf
  · have h0' := zero_notMem_indent h0 hs
    rw [configLine_indented hneeds h0]
    simp only [List.forall_mem_append]
    rw [configEntry_inLine h0']
    exact ⟨fun h _ => h.2, fun h => ⟨learnCopies_inLine hneeds.ne_nil, h hneeds⟩⟩
  · refine iff_of_true ?_ fun hneeds' => absurd hneeds' hneeds
    by_cases hnil : buf = []
    · exact hnil ▸ fun c hc => absurd hc List.not_mem_nil
    · by_cases hcomment : buf.head? = some 0x23
      · rw [configLine_comment hcomment]
        exact fun c hc => absurd hc List.not_mem_nil
      · obtain ⟨c, rest, rfl⟩ := List.exists_cons_of_ne_nil hnil
        by_cases hheader : c = 0x5b
        · exact hheader ▸ configLine_header_inLine rest
        · exact absurd ⟨hnil, hcomment, by simpa using hheader⟩ hneeds

/-! ## the file -/

/-- What a run copies is inside its lines exactly when every key it comes to fits. -/
theorem configLines_inLine {pieces : List Bytes} (hs : ∀ indent ∈ s.indent, 0 ∉ indent) :
    (∀ c ∈ (configLines s off pieces).copies, c.InLine) ↔
      ∀ pre piece post s', pieces = pre ++ piece :: post → Reads s off pre s' → KeyFits s' (lineBuf piece) := by
  induction pieces generalizing s off with
  | nil =>
      refine iff_of_true (fun c hc => absurd hc List.not_mem_nil) fun pre piece post s' h => ?_
      simp at h
  | cons piece pieces ih =>
      have h0 := zero_notMem_lineBuf piece
      have hline := @configLine_inLine s off _ h0 hs
      -- the first line, and the lines after it if there is no error
      have hsteps : (∀ pre p post s', piece :: pieces = pre ++ p :: post → Reads s off pre s' →
          KeyFits s' (lineBuf p)) ↔ KeyFits s (lineBuf piece) ∧
          ∀ s₁, (configLine s off (lineBuf piece)).next = .ok s₁ → ∀ pre p post s', pieces = pre ++ p :: post →
            Reads s₁ (off + piece.length) pre s' → KeyFits s' (lineBuf p) := by
        constructor
        · intro h
          refine ⟨h [] piece pieces s rfl rfl, fun s₁ hs₁ pre p post s' heq hreads => ?_⟩
          exact h (piece :: pre) p post s' (by rw [heq, List.cons_append]) (.cons hs₁ hreads)
        · intro ⟨hfirst, hrest⟩ pre p post s' heq hreads
          cases pre with
          | nil =>
              obtain ⟨rfl, rfl⟩ := List.cons.inj heq
              obtain rfl := Except.ok.inj hreads
              exact hfirst
          | cons q pre =>
              obtain ⟨rfl, rfl⟩ := List.cons.inj heq
              obtain ⟨s₁, hs₁, hreads⟩ := hreads.uncons
              exact hrest s₁ hs₁ pre p post s' rfl hreads
      rw [hsteps, ← hline]
      cases hnext : (configLine s off (lineBuf piece)).next with
      | error e =>
          rw [configLines, hnext]
          exact ⟨fun h => ⟨h, fun s₁ hs₁ => by contradiction⟩, fun h => h.1⟩
      | ok s₁ =>
          have hs₁ := (configLine_does h0 hs hnext).keeps_indent h0 hs
          rw [configLines_cons hnext]
          simp only [List.forall_mem_append, Except.ok.injEq, forall_eq']
          rw [ih hs₁]

/-- The keys of a file that are read fit. -/
def KeysFit (file : Bytes) : Prop :=
  ∀ pre piece post s, fgetsAll configBufSize file = pre ++ piece :: post → Reads {} 0 pre s →
    KeyFits s (lineBuf piece)

/-- **Copies**: whatever the reader copies out of its line buffer is inside the line exactly when
no line it comes to has a key of two bytes or more. -/
theorem configRun_inLine (file : Bytes) :
    (∀ c ∈ (configRun file).copies, c.InLine) ↔ KeysFit file :=
  configLines_inLine fun indent h => by contradiction

/-- The value of a key of two bytes is copied with one byte behind the NUL. -/
theorem configRun_key_two : ¬ ∀ file, ∀ c ∈ (configRun file).copies, c.InLine := by
  intro hall
  have hin := hall (ascii "[S]\n ab c\n".toList)
  revert hin
  decide +kernel

end Monkey.Config
