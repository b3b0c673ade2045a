import Monkey.Config.Lines

/-!
# Monkey.Config.Accepted

What is in a configuration that `mk_config_create` accepts.  `fgets` cuts a line that is
longer than the buffer and a NUL hides the rest of one, so an entry need not be what its
line says; and the indentation is learnt from any line.
-/

namespace Monkey.Config

/-! ## lines and pieces -/

/-- The pieces of a file with their places. -/
def placed (off : Nat) : List Bytes → List (Nat × Bytes)
  | [] => []
  | piece :: pieces => (off, piece) :: placed (off + piece.length) pieces

theorem placed_split {off o : Nat} {piece : Bytes} {pieces : List Bytes} (h : (o, piece) ∈ placed off pieces) :
    ∃ pre post, pieces = pre ++ piece :: post ∧ o = off + pre.flatten.length := by
  induction pieces generalizing off with
  | nil => contradiction
  | cons p pieces ih =>
      rcases List.mem_cons.mp h with heq | h
      · obtain ⟨rfl, rfl⟩ := Prod.mk.inj heq
        exact ⟨[], pieces, rfl, rfl⟩
      · obtain ⟨pre, post, rfl, rfl⟩ := ih h
        refine ⟨p :: pre, post, rfl, ?_⟩
        rw [List.flatten_cons, List.length_append, Nat.add_assoc]

/-- The text of a piece is its beginning, without the newline. -/
theorem lineBuf_prefix {piece : Bytes} (hnl : 0x0a ∉ piece.dropLast) :
    lineBuf piece <+: piece ∧ 0x0a ∉ lineBuf piece := by
  have hcstr : cstr piece <+: piece := List.takeWhile_prefix _
  have hsub : ∀ {l : Bytes}, l.dropLast <+: l := List.dropLast_prefix _
  unfold lineBuf
  simp only
  split
  · have hdrop : 0x0a ∉ (cstr piece).dropLast := by
      intro hmem
      obtain ⟨t, ht⟩ := hcstr
      rcases List.eq_nil_or_concat' t with rfl | ⟨t', c, rfl⟩
      · rw [List.append_nil] at ht
        exact hnl (ht ▸ hmem)
      · rw [← ht, ← List.append_assoc, List.dropLast_concat] at hnl
        exact hnl (List.mem_append_left _ (List.mem_of_mem_dropLast hmem))
    split
    · exact ⟨hsub.trans (hsub.trans hcstr), fun hmem => hdrop (List.mem_of_mem_dropLast hmem)⟩
    · exact ⟨hsub.trans hcstr, hdrop⟩
  · next hlast =>
      refine ⟨hcstr, fun hmem => ?_⟩
      obtain ⟨t, ht⟩ := hcstr
      rcases List.eq_nil_or_concat' t with rfl | ⟨t', c, rfl⟩
      · rw [List.append_nil] at ht
        obtain ⟨l, c, hl⟩ : ∃ l c, piece = l ++ [c] :=
          ⟨_, _, (List.dropLast_append_getLast (List.ne_nil_of_mem (ht ▸ hmem))).symm⟩
        rw [hl, List.dropLast_concat] at hnl
        rw [ht, hl] at hmem hlast
        rw [List.getLast?_concat, Option.some.injEq] at hlast
        rcases List.mem_append.mp hmem with hmem | hmem
        · exact hnl hmem
        · exact hlast (List.mem_singleton.mp hmem).symm
      · rw [← ht, ← List.append_assoc, List.dropLast_concat] at hnl
        exact hnl (List.mem_append_left _ hmem)

/-- What is read of a piece is a part of the line that goes on there. -/
theorem lineBuf_prefix_lineText {file piece : Bytes} {off : Nat}
    (h : (off, piece) ∈ placed 0 (fgetsAll configBufSize file)) :
    lineBuf piece <+: lineText file off := by
  obtain ⟨pre, post, hpieces, rfl⟩ := placed_split h
  have hnl : 0x0a ∉ piece.dropLast := by
    have hmem : piece ∈ fgetsAll configBufSize file := by
      rw [hpieces]
      exact List.mem_append_right _ List.mem_cons_self
    exact (mem_fgetsFrom List.not_mem_nil hmem).2
  have hfile := @flatten_fgetsAll configBufSize file
  rw [hpieces, List.flatten_append, List.flatten_cons] at hfile
  have hdrop : file.drop (0 + pre.flatten.length) = piece ++ post.flatten := by
    rw [← hfile, Nat.zero_add, List.drop_left]
  rw [lineText, hdrop]
  obtain ⟨hread, hno⟩ := lineBuf_prefix hnl
  generalize lineBuf piece = text at hread hno ⊢
  obtain ⟨t, rfl⟩ := hread
  have htext : ∀ c ∈ text, decide (c ≠ 0x0a) = true := by
    intro c hc
    exact decide_eq_true fun heq => hno (heq ▸ hc)
  rw [List.append_assoc, List.takeWhile_append_of_pos htext]
  exact List.prefix_append _ _

/-! ## what the lines say -/

/-- An entry of a file: a line of the indentation, a key and a value, split at the first space
behind the indentation. -/
def EntryText (indent text key val : Bytes) : Prop :=
  ∃ before after, text = indent ++ (before ++ 0x20 :: after) ∧ 0x20 ∉ before ∧
    isblank ((before ++ 0x20 :: after).headD 0) = false ∧
    key = mkStringTrim before ∧ val = mkStringTrim after

/-- The header of a section. -/
def HeaderText (text name : Bytes) : Prop := ∃ after, text = 0x5b :: (name ++ 0x5d :: after) ∧ 0x5d ∉ name

/-- The section that a call opens. -/
def headerOf : Nat × ConfigCall → Option (Nat × Bytes)
  | (off, .sectionAdd name) => some (off, name)
  | (_, .entryAdd _ _) => none

/-- Every entry comes from a line of its own that starts with the indentation, one run of blanks for
all of them; it is what the whole line says, and the last section before it comes from a header line. -/
def EntriesWhole (file : Bytes) : Prop :=
  (configRun file).calls.Pairwise (·.1 < ·.1) ∧
  ∃ indent, indent ≠ [] ∧ (∀ c ∈ indent, isblank c = true) ∧
    ∀ l off key val r, (configRun file).calls = l ++ (off, .entryAdd key val) :: r →
      LineStart file off ∧ EntryText indent (lineText file off) key val ∧
      ∃ off' name, (l.filterMap headerOf).getLast? = some (off', name) ∧
        LineStart file off' ∧ HeaderText (lineText file off') name

/-- The line that teaches the indentation. -/
def indentLine (pieces : List Bytes) : Option Bytes := (pieces.map lineBuf).find? fun buf => NeedsIndent buf

/-- What is read as an entry or as a header begins a line, an entry is its whole line up to white
space at the end, and the line that teaches the indentation starts with a blank. -/
structure ReadsWhole (file : Bytes) : Prop where
  indent : ∀ buf ∈ indentLine (fgetsAll configBufSize file), isblank (byteAt buf 0) = true
  header : ∀ p ∈ placed 0 (fgetsAll configBufSize file), (lineBuf p.2).head? = some 0x5b →
    LineStart file p.1
  entry : ∀ p ∈ placed 0 (fgetsAll configBufSize file), NeedsIndent (lineBuf p.2) →
    ∀ buf ∈ indentLine (fgetsAll configBufSize file), IsBody ((lineBuf p.2).drop (learntIndent buf).length) →
      LineStart file p.1 ∧ ∀ c ∈ (lineText file p.1).drop (lineBuf p.2).length, isspace c = true

/-! ## runs -/

/-- A run without an error, line by line. -/
inductive RunDoes : ConfigState → Nat → List Bytes → List (Nat × ConfigCall) → ConfigState → Prop
  | nil {s : ConfigState} {off : Nat} : RunDoes s off [] [] s
  | cons {s s₁ s' : ConfigState} {off : Nat} {piece : Bytes} {pieces : List Bytes}
      {calls calls' : List (Nat × ConfigCall)} : LineDoes s off (lineBuf piece) calls s₁ →
      RunDoes s₁ (off + piece.length) pieces calls' s' →
      RunDoes s off (piece :: pieces) (calls ++ calls') s'

variable {s s' : ConfigState} {off : Nat} {pieces : List Bytes} {calls : List (Nat × ConfigCall)}

theorem Reads.does (h : Reads s off pieces s') (hs : ∀ indent ∈ s.indent, 0 ∉ indent) :
    RunDoes s off pieces (configLines s off pieces).calls s' := by
  induction pieces generalizing s off with
  | nil =>
      obtain rfl := Except.ok.inj h
      exact .nil
  | cons piece pieces ih =>
      obtain ⟨s₁, hline, hrest⟩ := h.uncons
      have hdoes := configLine_does (zero_notMem_lineBuf piece) hs hline
      rw [configLines_cons hline]
      exact .cons hdoes (ih hrest (hdoes.keeps_indent (zero_notMem_lineBuf piece) hs))

/-- An indentation that is known stays; else it is that of the first line that teaches one. -/
theorem RunDoes.indent_eq (h : RunDoes s off pieces calls s') :
    s'.indent = s.indent.or ((indentLine pieces).map learntIndent) := by
  induction h with
  | nil => simp [indentLine]
  | @cons s s₁ s' off piece pieces calls calls' hline _ ih =>
      rw [ih]
      cases hline with
      | skip hskip =>
          have hnot : ¬ NeedsIndent (lineBuf piece) := fun hneeds =>
            hskip.elim hneeds.ne_nil hneeds.comment
          simp [indentLine, hnot]
      | header hbuf =>
          have hnot : ¬ NeedsIndent (lineBuf piece) := fun hneeds => hneeds.header (by rw [hbuf]; rfl)
          simp [indentLine, hnot]
      | behind hneeds hindent =>
          rw [← hindent]
          cases hs : s.indent <;> simp [indentLine, hneeds]
      | entry hneeds hindent =>
          rw [← hindent]
          cases hs : s.indent <;> simp [indentLine, hneeds]

/-- What a call is made for. -/
def CallOf (indent buf : Bytes) : ConfigCall → Prop
  | .sectionAdd name => HeaderText buf name
  | .entryAdd key val => NeedsIndent buf ∧ ∃ before after, buf = indent ++ (before ++ 0x20 :: after) ∧
      IsBody (before ++ 0x20 :: after) ∧ 0x20 ∉ before ∧ key = mkStringTrim before ∧ val = mkStringTrim after

/-- Every call is made for a piece at its place. -/
theorem RunDoes.call (h : RunDoes s off pieces calls s') {indent : Bytes} (hindent : s'.indent = some indent)
    {o : Nat} {c : ConfigCall} (hc : (o, c) ∈ calls) :
    ∃ piece, (o, piece) ∈ placed off pieces ∧ CallOf indent (lineBuf piece) c := by
  induction h with
  | nil => contradiction
  | @cons s s₁ s' off piece pieces calls calls' hline hrun ih =>
      rcases List.mem_append.mp hc with hc | hc
      · refine ⟨piece, ?_⟩
        have hs₁ := hrun.indent_eq
        rw [hindent] at hs₁
        cases hline with
        | skip => contradiction
        | header hbuf hname =>
            obtain ⟨rfl, rfl⟩ := Prod.mk.inj (List.mem_singleton.mp hc)
            exact ⟨List.mem_cons_self, _, hbuf, hname⟩
        | behind => contradiction
        | entry hneeds _ hbuf hbody hbefore =>
            obtain ⟨rfl, rfl⟩ := Prod.mk.inj (List.mem_singleton.mp hc)
            obtain rfl : indent = _ := by simpa using hs₁
            exact ⟨List.mem_cons_self, hneeds, _, _, hbuf, hbody, hbefore, rfl, rfl⟩
      · obtain ⟨piece', hmem, hcall⟩ := ih hindent hc
        exact ⟨piece', List.mem_cons_of_mem _ hmem, hcall⟩

/-- Every header that is read opens a section. -/
theorem RunDoes.header_call (h : RunDoes s off pieces calls s') {o : Nat} {piece : Bytes}
    (hp : (o, piece) ∈ placed off pieces) (hhead : (lineBuf piece).head? = some 0x5b) :
    ∃ name, (o, .sectionAdd name) ∈ calls := by
  induction h with
  | nil => contradiction
  | cons hline _ ih =>
      rcases List.mem_cons.mp hp with heq | hp
      · obtain ⟨rfl, rfl⟩ := Prod.mk.inj heq
        cases hline with
        | skip hskip =>
            rcases hskip with hnil | hcomment
            · rw [hnil] at hhead
              contradiction
            · rw [hcomment] at hhead
              contradiction
        | header => exact ⟨_, List.mem_append_left _ List.mem_cons_self⟩
        | behind hneeds => exact absurd hhead hneeds.header
        | entry hneeds => exact absurd hhead hneeds.header
      · obtain ⟨name, hmem⟩ := ih hp
        exact ⟨name, List.mem_append_right _ hmem⟩

/-- Every text that is read behind the indentation becomes an entry. -/
theorem RunDoes.entry_call (h : RunDoes s off pieces calls s') {indent : Bytes}
    (hindent : s'.indent = some indent) {o : Nat} {piece : Bytes} (hp : (o, piece) ∈ placed off pieces)
    (hneeds : NeedsIndent (lineBuf piece)) (hbody : IsBody ((lineBuf piece).drop indent.length)) :
    ∃ before after, lineBuf piece = indent ++ (before ++ 0x20 :: after) ∧ 0x20 ∉ before ∧
      (o, .entryAdd (mkStringTrim before) (mkStringTrim after)) ∈ calls := by
  induction h with
  | nil => contradiction
  | cons hline hrun ih =>
      rcases List.mem_cons.mp hp with heq | hp
      · obtain ⟨rfl, rfl⟩ := Prod.mk.inj heq
        have hs₁ := hrun.indent_eq
        rw [hindent] at hs₁
        cases hline with
        | skip hskip => exact (hskip.elim hneeds.ne_nil hneeds.comment).elim
        | header hbuf => exact absurd (by rw [hbuf]; rfl) hneeds.header
        | behind _ _ hbuf hskip =>
            obtain rfl : indent = _ := by simpa using hs₁
            rw [hbuf, List.drop_left] at hbody
            rcases hskip with hnil | hcomment
            · exact absurd hnil hbody.ne_nil
            · exact absurd rfl (hbody.visible _ hcomment).2
        | entry _ _ hbuf _ hbefore =>
            obtain rfl : indent = _ := by simpa using hs₁
            exact ⟨_, _, hbuf, hbefore, List.mem_append_left _ List.mem_cons_self⟩
      · obtain ⟨before, after, hbuf, hbefore, hmem⟩ := ih hindent hp
        exact ⟨before, after, hbuf, hbefore, List.mem_append_right _ hmem⟩

/-- The places of a line's calls. -/
theorem LineDoes.place {buf : Bytes} (h : LineDoes s off buf calls s') :
    calls = [] ∨ ∃ c, calls = [(off, c)] := by
  cases h with
  | skip => exact .inl rfl
  | header => exact .inr ⟨_, rfl⟩
  | behind => exact .inl rfl
  | entry => exact .inr ⟨_, rfl⟩

theorem RunDoes.places (h : RunDoes s off pieces calls s') (hne : [] ∉ pieces) :
    (∀ c ∈ calls, off ≤ c.1) ∧ calls.Pairwise (·.1 < ·.1) := by
  induction h with
  | nil => exact ⟨by simp, .nil⟩
  | @cons s s₁ s' off piece pieces calls calls' hline _ ih =>
      obtain ⟨hpiece, hne⟩ := not_or.mp fun h => hne (List.mem_cons.mpr h)
      obtain ⟨hle, hsorted⟩ := ih hne
      have hpos := List.length_pos_iff.mpr (Ne.symm hpiece)
      rcases hline.place with rfl | ⟨c, rfl⟩
      · exact ⟨fun c hc => by have := hle c hc; omega, hsorted⟩
      · refine ⟨List.forall_mem_cons.mpr ⟨le_rfl, fun c hc => by have := hle c hc; omega⟩,
          List.pairwise_cons.mpr ⟨fun c hc => ?_, hsorted⟩⟩
        have := hle c hc
        change off < c.1
        omega

/-- An entry is registered in a section. -/
theorem RunDoes.section_before (h : RunDoes s off pieces calls s') (hs : s.sections = [])
    {l r : List (Nat × ConfigCall)} {o : Nat} {key val : Bytes} (hcalls : calls = l ++ (o, .entryAdd key val) :: r) :
    l.filterMap headerOf ≠ [] := by
  induction h generalizing l with
  | nil => simp at hcalls
  | cons hline _ ih =>
      cases hline with
      | skip => exact ih hs hcalls
      | header =>
          rcases List.cons_eq_append_iff.mp hcalls with ⟨_, heq⟩ | ⟨l', rfl, -⟩
          · cases heq
          · simp [headerOf]
      | behind => exact ih hs hcalls
      | entry _ _ _ _ _ hadd =>
          rw [mkConfigEntryAdd, hs] at hadd
          contradiction

/-- Behind a header an entry comes next. -/
theorem RunDoes.first_entry (h : RunDoes s off pieces calls s') (hcurrent : s.current = true)
    (hkeys : s.nKeys = 0) (hkeys' : s'.nKeys ≠ 0) : ∃ o key val r, calls = (o, .entryAdd key val) :: r := by
  induction h with
  | nil => contradiction
  | cons hline _ ih =>
      cases hline with
      | skip => exact ih hcurrent hkeys hkeys'
      | header _ _ hearly => exact absurd ⟨hcurrent, hkeys⟩ hearly
      | behind => exact ih hcurrent hkeys hkeys'
      | entry => exact ⟨_, _, _, _, rfl⟩

theorem RunDoes.entry_after (h : RunDoes s off pieces calls s') (hkeys' : s'.nKeys ≠ 0)
    {l r : List (Nat × ConfigCall)} {o : Nat} {name : Bytes} (hcalls : calls = l ++ (o, .sectionAdd name) :: r) :
    ∃ o' key val r', r = (o', .entryAdd key val) :: r' := by
  induction h generalizing l with
  | nil => simp at hcalls
  | cons hline hrun ih =>
      cases hline with
      | skip => exact ih hkeys' hcalls
      | header =>
          rcases List.cons_eq_append_iff.mp hcalls with ⟨_, heq⟩ | ⟨l', _, hrest⟩
          · obtain ⟨-, rfl⟩ := List.cons.inj heq
            exact hrun.first_entry rfl rfl hkeys'
          · exact ih hkeys' hrest
      | behind => exact ih hkeys' hcalls
      | entry =>
          rcases List.cons_eq_append_iff.mp hcalls with ⟨_, heq⟩ | ⟨l', _, hrest⟩
          · cases heq
          · exact ih hkeys' hrest

/-- Keys are counted for entries only. -/
theorem RunDoes.some_entry (h : RunDoes s off pieces calls s') (hkeys : s.nKeys = 0) (hkeys' : s'.nKeys ≠ 0) :
    ∃ o key val indent, (o, .entryAdd key val) ∈ calls ∧ s'.indent = some indent := by
  induction h with
  | nil => contradiction
  | cons hline hrun ih =>
      cases hline with
      | skip => exact ih hkeys hkeys'
      | header =>
          obtain ⟨o, key, val, indent, hmem, hindent⟩ := ih rfl hkeys'
          exact ⟨o, key, val, indent, List.mem_cons_of_mem _ hmem, hindent⟩
      | behind => exact ih hkeys hkeys'
      | entry => exact ⟨_, _, _, _, List.mem_cons_self, hrun.indent_eq⟩

/-! ## the configuration -/

/-- A call on the list of sections. -/
def registerCall (sections : List ConfigSection) : Nat × ConfigCall → List ConfigSection
  | (_, .sectionAdd name) => mkConfigSectionAdd sections name
  | (_, .entryAdd key val) => (mkConfigEntryAdd sections key val).getD sections

theorem RunDoes.sections_eq (h : RunDoes s off pieces calls s') :
    s'.sections = calls.foldl registerCall s.sections := by
  induction h with
  | nil => rfl
  | cons hline _ ih =>
      rw [ih, List.foldl_append]
      cases hline with
      | skip => rfl
      | header => rfl
      | behind => rfl
      | entry _ _ _ _ _ hadd => simp [registerCall, hadd]

/-- An accepted file is read without an error, up to an entry of the last section. -/
theorem mkConfigCreate_does {file : Bytes} {secs : List ConfigSection} (h : mkConfigCreate file = .ok secs) :
    ∃ s', RunDoes {} 0 (fgetsAll configBufSize file) (configRun file).calls s' ∧ s'.sections = secs ∧
      s'.nKeys ≠ 0 := by
  unfold mkConfigCreate at h
  cases hnext : (configRun file).next with
  | error e =>
      rw [hnext] at h
      contradiction
  | ok s' =>
      rw [hnext] at h
      simp only at h
      split at h
      · contradiction
      · next hkeys => exact ⟨s', Reads.does hnext (fun indent hnone => by contradiction), Except.ok.inj h, hkeys⟩

/-- What is accepted is what was registered. -/
theorem mkConfigCreate_calls {file : Bytes} {secs : List ConfigSection} (h : mkConfigCreate file = .ok secs) :
    secs = (configRun file).calls.foldl registerCall [] := by
  obtain ⟨s', hrun, rfl, -⟩ := mkConfigCreate_does h
  exact hrun.sections_eq

/-! ## white space at the end -/

theorem filter_mkStringTrim (l : Bytes) :
    (mkStringTrim l).filter (!isspace ·) = l.filter (!isspace ·) := by
  have hleft : l.filter (!isspace ·) = (l.dropWhile isspace).filter (!isspace ·) := by
    conv_lhs => rw [← List.takeWhile_append_dropWhile (p := isspace) (l := l), List.filter_append]
    rw [List.filter_eq_nil_iff.mpr fun c hc => by simp [List.mem_takeWhile_imp hc], List.nil_append]
  rw [hleft, mkStringTrim]
  conv_rhs => rw [← List.rdropWhile_append_rtakeWhile (p := isspace) (l := l.dropWhile isspace), List.filter_append]
  rw [List.filter_eq_nil_iff (l := List.rtakeWhile _ _) |>.mpr fun c hc => by simp [List.mem_rtakeWhile_imp hc],
    List.append_nil]

/-- Only white space may follow without changing what is left of a text. -/
theorem mkStringTrim_append {l tail : Bytes} :
    mkStringTrim (l ++ tail) = mkStringTrim l ↔ ∀ c ∈ tail, isspace c = true := by
  constructor
  · intro h
    have hfilter := congrArg (·.filter (!isspace ·)) h
    simp only [filter_mkStringTrim, List.filter_append] at hfilter
    simpa [List.filter_eq_nil_iff] using hfilter
  · intro htail
    have hright : ∀ u : Bytes, (u ++ tail).rdropWhile isspace = u.rdropWhile isspace := by
      intro u
      rw [List.rdropWhile, List.reverse_append,
        List.dropWhile_append_of_pos fun c hc => htail c (List.mem_reverse.mp hc), List.rdropWhile]
    simp only [mkStringTrim]
    rw [List.dropWhile_append]
    split
    · next hnil =>
        rw [List.isEmpty_iff.mp hnil, List.dropWhile_eq_nil_iff.mpr htail]
    · exact hright _

/-! ## what is accepted -/

variable {indent before after tail buf : Bytes}

/-- An entry that is what its line says: the indentation is one of blanks, and what is not read of
the line is white space. -/
theorem EntryText.whole (hbuf : buf ≠ []) (hbefore : 0x20 ∉ before) (hbody : IsBody (before ++ 0x20 :: after))
    (hne : indent ≠ []) (hblank : ∀ c ∈ indent, isblank c = true)
    (h : EntryText indent (learntIndent buf ++ (before ++ 0x20 :: after) ++ tail) (mkStringTrim before)
      (mkStringTrim after)) :
    isblank (byteAt buf 0) = true ∧ ∀ c ∈ tail, isspace c = true := by
  obtain ⟨before', after', heq, hbefore', hhead', -, hval⟩ := h
  obtain ⟨c, rest, rfl⟩ := List.exists_cons_of_ne_nil hbuf
  obtain ⟨b, bs, rfl⟩ := List.exists_cons_of_ne_nil hne
  have hhead : isblank ((before ++ 0x20 :: (after ++ tail)).headD 0) = false := by
    cases before with
    | nil => exact absurd (hbody.visible 0x20 rfl).1 (by decide)
    | cons d before => exact (hbody.visible d rfl).1
  have heq' : (c :: rest.takeWhile isblank) ++ (before ++ 0x20 :: (after ++ tail)) =
      (b :: bs) ++ (before' ++ 0x20 :: after') := by
    rw [← heq, learntIndent_cons]
    simp
  -- both begin with the first byte of the line
  have hc : isblank c = true := by
    rw [List.cons_append, List.cons_append] at heq'
    rw [(List.cons.inj heq').1]
    exact hblank b List.mem_cons_self
  have hlearnt : ∀ d ∈ c :: rest.takeWhile isblank, isblank d = true :=
    List.forall_mem_cons.mpr ⟨hc, fun d hd => List.mem_takeWhile_imp hd⟩
  have hindent : c :: rest.takeWhile isblank = b :: bs := by
    rw [← takeWhile_isblank hlearnt hhead, heq', takeWhile_isblank hblank hhead']
  rw [hindent] at heq'
  have htext := List.append_cancel_left heq'
  obtain rfl : before = before' := before_eq htext hbefore hbefore'
  obtain rfl := (List.cons.inj (List.append_cancel_left htext)).2
  exact ⟨hc, mkStringTrim_append.mp hval.symm⟩

/-- The other way round. -/
theorem EntryText.of_whole (hbefore : 0x20 ∉ before) (hbody : IsBody (before ++ 0x20 :: after))
    (htail : ∀ c ∈ tail, isspace c = true) :
    EntryText indent (indent ++ (before ++ 0x20 :: after) ++ tail) (mkStringTrim before)
      (mkStringTrim after) := by
  refine ⟨before, after ++ tail, by simp, hbefore, ?_, rfl, (mkStringTrim_append.mpr htail).symm⟩
  cases before with
  | nil => exact absurd (hbody.visible 0x20 rfl).1 (by decide)
  | cons d before => exact (hbody.visible d rfl).1

/-- A header is that of its line, whatever follows. -/
theorem HeaderText.append {text name : Bytes} (h : HeaderText text name) (tail : Bytes) :
    HeaderText (text ++ tail) name := by
  obtain ⟨after, rfl, hname⟩ := h
  exact ⟨after ++ tail, by simp, hname⟩

/-- A run over a file that is accepted, and the line that teaches it the indentation. -/
structure AcceptedRun (file teach : Bytes) (s' : ConfigState) : Prop where
  run : RunDoes {} 0 (fgetsAll configBufSize file) (configRun file).calls s'
  keys : s'.nKeys ≠ 0
  teaches : indentLine (fgetsAll configBufSize file) = some teach
  indent : s'.indent = some (learntIndent teach)

theorem mkConfigCreate_acceptedRun {file : Bytes} {secs : List ConfigSection} (h : mkConfigCreate file = .ok secs) :
    ∃ teach s', AcceptedRun file teach s' := by
  obtain ⟨s', hrun, -, hkeys⟩ := mkConfigCreate_does h
  obtain ⟨o, key, val, learnt, -, hindent⟩ := hrun.some_entry rfl hkeys
  have hmap := hrun.indent_eq
  rw [hindent] at hmap
  obtain ⟨teach, hteach, rfl⟩ : ∃ teach, indentLine (fgetsAll configBufSize file) = some teach ∧
      learntIndent teach = learnt := by simpa [eq_comm] using hmap
  exact ⟨teach, s', hrun, hkeys, hteach, hindent⟩

section accepted
variable {file teach : Bytes} {s' : ConfigState}

theorem AcceptedRun.teach_ne_nil (h : AcceptedRun file teach s') : teach ≠ [] := by
  have hneeds := List.find?_some h.teaches
  exact (of_decide_eq_true hneeds).ne_nil

/-- An entry on its line. -/
theorem AcceptedRun.entry_whole (h : AcceptedRun file teach s') (hwhole : EntriesWhole file) {o : Nat}
    {piece before after : Bytes} (hp : (o, piece) ∈ placed 0 (fgetsAll configBufSize file))
    (hbuf : lineBuf piece = learntIndent teach ++ (before ++ 0x20 :: after)) (hbefore : 0x20 ∉ before)
    (hbody : IsBody (before ++ 0x20 :: after))
    (hmem : (o, .entryAdd (mkStringTrim before) (mkStringTrim after)) ∈ (configRun file).calls) :
    LineStart file o ∧ isblank (byteAt teach 0) = true ∧
      ∀ c ∈ (lineText file o).drop (lineBuf piece).length, isspace c = true := by
  obtain ⟨_, indent, hne, hblank, hall⟩ := hwhole
  obtain ⟨l, r, hcalls⟩ := List.append_of_mem hmem
  obtain ⟨hstart, htext, -⟩ := hall l o _ _ r hcalls
  obtain ⟨tail, htail⟩ := lineBuf_prefix_lineText hp
  rw [← htail, hbuf] at htext
  obtain ⟨hfirst, hspace⟩ := htext.whole h.teach_ne_nil hbefore hbody hne hblank
  rw [← htail, List.drop_left]
  exact ⟨hstart, hfirst, hspace⟩

theorem AcceptedRun.readsWhole (h : AcceptedRun file teach s') (hwhole : EntriesWhole file) : ReadsWhole file := by
  refine ⟨fun buf hbuf => ?_, fun p hp hhead => ?_, fun p hp hneeds buf hbuf hbody => ?_⟩
  · obtain rfl := Option.some.inj (h.teaches.symm.trans hbuf)
    obtain ⟨o, key, val, _, hmem, _⟩ := h.run.some_entry rfl h.keys
    obtain ⟨piece, hp, -, before, after, htext, hbody, hbefore, rfl, rfl⟩ := h.run.call h.indent hmem
    exact (h.entry_whole hwhole hp htext hbefore hbody hmem).2.1
  · obtain ⟨name, hmem⟩ := h.run.header_call hp hhead
    obtain ⟨l, r, hcalls⟩ := List.append_of_mem hmem
    obtain ⟨o, key, val, r', rfl⟩ := h.run.entry_after h.keys hcalls
    obtain ⟨_, _, _, _, hall⟩ := hwhole
    obtain ⟨-, -, off', name', hlast, hstart, -⟩ := hall (l ++ [(p.1, .sectionAdd name)]) o key val r'
      (by rw [hcalls]; simp)
    rw [List.filterMap_append, List.getLast?_append] at hlast
    obtain ⟨rfl, -⟩ : p.1 = off' ∧ name = name' := by simpa [headerOf] using hlast
    exact hstart
  · obtain rfl := Option.some.inj (h.teaches.symm.trans hbuf)
    obtain ⟨before, after, htext, hbefore, hmem⟩ := h.run.entry_call h.indent hp hneeds hbody
    rw [htext, List.drop_left] at hbody
    obtain ⟨hstart, -, hspace⟩ := h.entry_whole hwhole hp htext hbefore hbody hmem
    exact ⟨hstart, hspace⟩

/-- The section of an entry is the last header before it. -/
theorem AcceptedRun.last_header (h : AcceptedRun file teach s') (hwhole : ReadsWhole file)
    {l r : List (Nat × ConfigCall)} {off : Nat} {key val : Bytes}
    (hcalls : (configRun file).calls = l ++ (off, .entryAdd key val) :: r) :
    ∃ off' name, (l.filterMap headerOf).getLast? = some (off', name) ∧
      LineStart file off' ∧ HeaderText (lineText file off') name := by
  have hne := h.run.section_before rfl hcalls
  obtain ⟨⟨off', name⟩, hlast⟩ : ∃ p, (l.filterMap headerOf).getLast? = some p :=
    ⟨_, List.getLast?_eq_some_getLast hne⟩
  obtain ⟨⟨o, c⟩, hc, hheader⟩ := List.mem_filterMap.mp (List.mem_of_mem_getLast? hlast)
  have hmem : (o, c) ∈ (configRun file).calls := by
    rw [hcalls]
    exact List.mem_append_left _ hc
  obtain ⟨piece, hp, hcall⟩ := h.run.call h.indent hmem
  cases c with
  | entryAdd => contradiction
  | sectionAdd name' =>
      obtain ⟨rfl, rfl⟩ := Prod.mk.inj (Option.some.inj hheader)
      obtain ⟨tail, htail⟩ := lineBuf_prefix_lineText hp
      have hhead : (lineBuf piece).head? = some 0x5b := by
        obtain ⟨after, heq, -⟩ := hcall
        rw [heq]
        rfl
      exact ⟨o, name', hlast, hwhole.header _ hp hhead, htail ▸ hcall.append tail⟩

theorem AcceptedRun.entriesWhole (h : AcceptedRun file teach s') (hwhole : ReadsWhole file) : EntriesWhole file := by
  have hpieces : [] ∉ fgetsAll configBufSize file := fun hmem => (mem_fgetsFrom List.not_mem_nil hmem).1 rfl
  refine ⟨(h.run.places hpieces).2, learntIndent teach, ?_, ?_, ?_⟩
  · obtain ⟨c, rest, rfl⟩ := List.exists_cons_of_ne_nil h.teach_ne_nil
    simp [learntIndent_cons]
  · have hfirst := hwhole.indent teach h.teaches
    obtain ⟨c, rest, rfl⟩ := List.exists_cons_of_ne_nil h.teach_ne_nil
    rw [learntIndent_cons]
    exact List.forall_mem_cons.mpr ⟨hfirst, fun d hd => List.mem_takeWhile_imp hd⟩
  · intro l off key val r hcalls
    have hmem : (off, .entryAdd key val) ∈ (configRun file).calls := by
      rw [hcalls]
      exact List.mem_append_right _ List.mem_cons_self
    obtain ⟨piece, hp, hneeds, before, after, htext, hbody, hbefore, rfl, rfl⟩ := h.run.call h.indent hmem
    obtain ⟨hstart, hspace⟩ := hwhole.entry _ hp hneeds teach h.teaches (by rwa [htext, List.drop_left])
    obtain ⟨tail, htail⟩ := lineBuf_prefix_lineText hp
    simp only [← htail, List.drop_left] at hspace
    refine ⟨hstart, ?_, h.last_header hwhole hcalls⟩
    rw [← htail, htext]
    exact .of_whole hbefore hbody hspace

end accepted

/-- **Accepted files**: in a file that is accepted every entry is what its line says, exactly when
what is read as an entry or a header is a whole line and the indentation is one of blanks. -/
theorem entriesWhole_iff {file : Bytes} {secs : List ConfigSection} (h : mkConfigCreate file = .ok secs) :
    EntriesWhole file ↔ ReadsWhole file := by
  obtain ⟨teach, s', hrun⟩ := mkConfigCreate_acceptedRun h
  exact ⟨hrun.readsWhole, hrun.entriesWhole⟩

/-- A section with one entry. -/
theorem entriesWhole_iff_one :
    mkConfigCreate (ascii "[S]\n k v\n".toList) = .ok [⟨[0x53], [⟨[0x6b], [0x76]⟩]⟩] ∧
      EntriesWhole (ascii "[S]\n k v\n".toList) := by
  have haccepted : mkConfigCreate (ascii "[S]\n k v\n".toList) = .ok [⟨[0x53], [⟨[0x6b], [0x76]⟩]⟩] := by
    decide +kernel
  exact ⟨haccepted, (entriesWhole_iff haccepted).mpr
    ⟨by decide +kernel, by decide +kernel, by decide +kernel⟩⟩

/-- An entry in the first column is accepted, without the first letter of its key. -/
theorem entriesWhole_first_column : ¬ ∀ file secs, mkConfigCreate file = .ok secs → EntriesWhole file := by
  intro hall
  have haccepted : mkConfigCreate (ascii "[S]\nkey v\n".toList) =
      .ok [⟨[0x53], [⟨ascii "ey".toList, [0x76]⟩]⟩] := by decide +kernel
  obtain ⟨-, indent, hne, hblank, hentries⟩ := hall _ _ haccepted
  have hcalls : (configRun (ascii "[S]\nkey v\n".toList)).calls =
      [(0, .sectionAdd [0x53])] ++ (4, .entryAdd (ascii "ey".toList) [0x76]) :: [] := by decide +kernel
  obtain ⟨-, ⟨before, after, htext, -⟩, -⟩ := hentries _ _ _ _ _ hcalls
  obtain ⟨b, bs, rfl⟩ := List.exists_cons_of_ne_nil hne
  have hline : lineText (ascii "[S]\nkey v\n".toList) 4 = 0x6b :: ascii "ey v".toList := by decide +kernel
  rw [hline, List.cons_append] at htext
  have hb := hblank b List.mem_cons_self
  rw [← (List.cons.inj htext).1] at hb
  contradiction

end Monkey.Config
