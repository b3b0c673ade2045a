import Monkey.Config.Lines

/-!
# Monkey.Config.RoundTrip

Reading back a printed configuration: sections with their entries, empty lines and
comments anywhere between them.
-/

namespace Monkey.Config

/-! ## printing -/

/-- An entry that can be written down: a key of one word, and a value of one line. -/
structure EntryOk (e : ConfigEntry) : Prop where
  key_ne : e.key ≠ []
  key_word : ∀ c ∈ e.key, isspace c = false
  key_head : e.key.head? ≠ some 0x23
  val_ne : e.val ≠ []
  val_line : 0x0a ∉ e.val
  val_head : ∀ c ∈ e.val.head?, isspace c = false
  val_last : ∀ c ∈ e.val.getLast?, isspace c = false

/-- The name of a section. -/
def NameOk (name : Bytes) : Prop := 0x5d ∉ name ∧ 0x0a ∉ name

instance (name : Bytes) : Decidable (NameOk name) := inferInstanceAs (Decidable (_ ∧ _))

def headerLine (name : Bytes) : Bytes := 0x5b :: (name ++ [0x5d])

def entryLine (indent : Bytes) (e : ConfigEntry) : Bytes := indent ++ (e.key ++ 0x20 :: e.val)

/-- A line that says nothing: empty, or a comment in the first column or behind the indentation. -/
inductive IsNoise (indent : Bytes) : Bytes → Prop
  | empty : IsNoise indent []
  | comment {text : Bytes} (h : 0x0a ∉ text) : IsNoise indent (0x23 :: text)
  | indented {text : Bytes} (h : 0x0a ∉ text) : IsNoise indent (indent ++ 0x23 :: text)

/-- The lines of some entries. -/
inductive EntryLines (indent : Bytes) : List ConfigEntry → List Bytes → Prop
  | done : EntryLines indent [] []
  | noise {l ls es} : IsNoise indent l → EntryLines indent es ls → EntryLines indent es (l :: ls)
  | entry {e es ls} : EntryOk e → EntryLines indent es ls →
      EntryLines indent (e :: es) (entryLine indent e :: ls)

/-- The lines of some sections, each with at least one entry. -/
inductive FileLines (indent : Bytes) : List ConfigSection → List Bytes → Prop
  | done : FileLines indent [] []
  | noise {l ls secs} : IsNoise indent l → FileLines indent secs ls → FileLines indent secs (l :: ls)
  | header {sec ls secs ls'} : NameOk sec.name → sec.entries ≠ [] → EntryLines indent sec.entries ls →
      FileLines indent secs ls' → FileLines indent (sec :: secs) (headerLine sec.name :: (ls ++ ls'))

/-- A file of lines. -/
def unlines (ls : List Bytes) : Bytes := ls.flatMap (· ++ [0x0a])

/-! ## trimming -/

theorem rdropWhile_eq_self {l : Bytes} (h : ∀ c ∈ l.getLast?, isspace c = false) : l.rdropWhile isspace = l := by
  rw [List.rdropWhile_eq_self_iff]
  intro hne
  rw [h _ (List.getLast?_eq_some_getLast hne)]
  decide

/-- A text without white space around it is not changed. -/
theorem mkStringTrim_eq_self {l : Bytes} (hhead : ∀ c ∈ l.head?, isspace c = false)
    (hlast : ∀ c ∈ l.getLast?, isspace c = false) : mkStringTrim l = l := by
  have hdrop : l.dropWhile isspace = l := by
    cases l with
    | nil => rfl
    | cons c l => exact List.dropWhile_cons_of_neg (by simp [hhead c rfl])
  rw [mkStringTrim, hdrop, rdropWhile_eq_self hlast]

theorem EntryOk.trim_key {e : ConfigEntry} (h : EntryOk e) : mkStringTrim e.key = e.key :=
  mkStringTrim_eq_self (fun c hc => h.key_word c (List.mem_of_mem_head? hc))
    fun c hc => h.key_word c (List.mem_of_mem_getLast? hc)

theorem EntryOk.trim_val {e : ConfigEntry} (h : EntryOk e) : mkStringTrim e.val = e.val :=
  mkStringTrim_eq_self h.val_head h.val_last

theorem isblank_of_not_isspace {c : UInt8} (h : isspace c = false) : isblank c = false := by
  by_contra hblank
  rw [Bool.not_eq_false, isblank, Bool.or_eq_true, beq_iff_eq, beq_iff_eq] at hblank
  rcases hblank with rfl | rfl <;> contradiction

theorem EntryOk.no_space {e : ConfigEntry} (h : EntryOk e) : 0x20 ∉ e.key :=
  fun hmem => absurd (h.key_word _ hmem) (by decide)

theorem EntryOk.isBody {e : ConfigEntry} (h : EntryOk e) : IsBody (e.key ++ 0x20 :: e.val) := by
  obtain ⟨c, rest, hkey⟩ := List.exists_cons_of_ne_nil h.key_ne
  have hc := h.key_word c (hkey ▸ List.mem_cons_self)
  have hhead := h.key_head
  rw [hkey] at hhead ⊢
  exact .cons (isblank_of_not_isspace hc) (fun heq => hhead (by rw [heq]; rfl)) _

/-! ## the state between two lines -/

/-- The sections read so far; an indentation, once learnt, is the one that is printed. -/
structure Reached (indent : Bytes) (secs : List ConfigSection) (s : ConfigState) : Prop where
  indent : s.indent = none ∨ s.indent = some indent
  sections : s.sections = secs
  current : s.current = true → secs ≠ []
  nKeys : ∀ sec ∈ secs.getLast?, s.nKeys = sec.entries.length

section
variable {indent : Bytes} {secs : List ConfigSection} {s : ConfigState} {off : Nat}

/-- The line behind an indentation of blanks. -/
theorem configLine_behind (hne : indent ≠ []) (hblank : ∀ c ∈ indent, isblank c = true)
    (h : Reached indent secs s) {body : Bytes} (hbody : isblank (body.headD 0) = false)
    (h0 : 0 ∉ indent ++ body) :
    (configLine s off (indent ++ body)).next =
      (configEntry { s with line := s.line + 1, indent := some indent } off indent (indent ++ body)).next := by
  obtain ⟨b, bs, rfl⟩ := List.exists_cons_of_ne_nil hne
  have hb := hblank b List.mem_cons_self
  have hneeds : NeedsIndent (b :: bs ++ body) := by
    refine ⟨by simp, ?_, ?_⟩
    all_goals
      simp only [List.cons_append, List.head?_cons, ne_eq, Option.some.injEq]
      rintro rfl
      contradiction
  have hindent : s.indent.getD (learntIndent (b :: bs ++ body)) = b :: bs := by
    rcases h.indent with hnone | hsome
    · rw [hnone, Option.getD_none, learntIndent_append hne hblank hbody]
    · rw [hsome, Option.getD_some]
  rw [configLine_indented hneeds h0, hindent]

theorem Reached.noise (hne : indent ≠ []) (hblank : ∀ c ∈ indent, isblank c = true)
    (h : Reached indent secs s) {l : Bytes} (hl : IsNoise indent l) (h0 : 0 ∉ l) :
    ∃ s', (configLine s off l).next = .ok s' ∧ Reached indent secs s' := by
  cases hl with
  | empty => exact ⟨{ s with line := s.line + 1 }, rfl, h.indent, h.sections, h.current, h.nKeys⟩
  | comment => exact ⟨{ s with line := s.line + 1 }, rfl, h.indent, h.sections, h.current, h.nKeys⟩
  | indented =>
      have h0' : 0 ∉ indent := fun hmem => h0 (List.mem_append_left _ hmem)
      refine ⟨{ s with line := s.line + 1, indent := some indent }, ?_, .inr rfl, h.sections, h.current, h.nKeys⟩
      rw [configLine_behind hne hblank h (by rfl) h0, configEntry_skip h0' (.inr (by rfl))]

theorem Reached.header (h : Reached indent secs s) (hkeys : ∀ sec ∈ secs.getLast?, sec.entries ≠ [])
    {name : Bytes} (hname : NameOk name) :
    ∃ s', (configLine s off (headerLine name)).next = .ok s' ∧
      Reached indent (secs ++ [{ name := name }]) s' := by
  have hcurrent : ¬ (s.current = true ∧ s.nKeys = 0) := by
    rintro ⟨hcurrent, hzero⟩
    have hlast := List.getLast?_eq_some_getLast (h.current hcurrent)
    exact hkeys _ hlast (List.length_eq_zero_iff.mp ((h.nKeys _ hlast).symm.trans hzero))
  refine ⟨{ s with
    line := s.line + 1, sections := mkConfigSectionAdd s.sections name, current := true, nKeys := 0 },
    by rw [headerLine, configLine_header hname.1, if_neg hcurrent], h.indent, ?_, ?_, ?_⟩
  · simp [mkConfigSectionAdd, h.sections]
  · intro _
    simp
  · simp

theorem Reached.entry (hne : indent ≠ []) (hblank : ∀ c ∈ indent, isblank c = true) {sec : ConfigSection}
    (h : Reached indent (secs ++ [sec]) s) {e : ConfigEntry} (he : EntryOk e) (h0 : 0 ∉ entryLine indent e) :
    ∃ s', (configLine s off (entryLine indent e)).next = .ok s' ∧
      Reached indent (secs ++ [{ sec with entries := sec.entries ++ [e] }]) s' := by
  have h0' : 0 ∉ indent := fun hmem => h0 (List.mem_append_left _ hmem)
  have hbody := he.isBody
  obtain ⟨c, rest, hc⟩ := List.exists_cons_of_ne_nil hbody.ne_nil
  have hhead : isblank ((e.key ++ 0x20 :: e.val).headD 0) = false := by
    rw [hc, List.headD_cons]
    exact (hbody.visible c (by rw [hc]; rfl)).1
  have hadd : mkConfigEntryAdd s.sections e.key e.val =
      some (secs ++ [{ sec with entries := sec.entries ++ [e] }]) := by
    rw [mkConfigEntryAdd, h.sections]
    simp
  have hnext := @configLine_behind indent _ s off hne hblank h _ hhead h0
  rw [configEntry_body h0' hbody, configKeyVal_entry he.no_space, he.trim_key, he.trim_val, registerEntry] at hnext
  simp only [hadd] at hnext
  refine ⟨_, hnext, .inr rfl, rfl, fun _ => by simp, fun sec' hsec' => ?_⟩
  have hkeys := h.nKeys sec (by simp)
  simp only [List.getLast?_append, List.getLast?_singleton, Option.some_or, Option.mem_def,
    Option.some.injEq] at hsec'
  rw [← hsec', hkeys, List.length_append, List.length_singleton]

end

/-! ## the file -/

/-- The text that is read of a printed line. -/
theorem lineBuf_cases {l : Bytes} (h0 : 0 ∉ l) :
    lineBuf (l ++ [0x0a]) = l ∨ ∃ l', l = l' ++ [0x0d] ∧ lineBuf (l ++ [0x0a]) = l' := by
  rcases List.eq_nil_or_concat' l with rfl | ⟨l', c, rfl⟩
  · exact .inl (lineBuf_line h0 (by simp))
  · by_cases hc : c = 0x0d
    · subst hc
      have hcstr : cstr (l' ++ [0x0d] ++ [0x0a]) = l' ++ [0x0d] ++ [0x0a] := cstr_eq_self (by simpa using h0)
      refine .inr ⟨l', rfl, ?_⟩
      rw [lineBuf, hcstr]
      simp
    · exact .inl (lineBuf_line h0 (by simpa using hc))

/-- A carriage return at the end of a comment is not read. -/
theorem IsNoise.read {indent l : Bytes} (h : IsNoise indent l) (h0 : 0 ∉ l) :
    IsNoise indent (lineBuf (l ++ [0x0a])) ∧ 0 ∉ lineBuf (l ++ [0x0a]) := by
  refine ⟨?_, zero_notMem_lineBuf _⟩
  rcases lineBuf_cases h0 with heq | ⟨l', hl, heq⟩
  · rw [heq]
    exact h
  · rw [heq]
    -- the comment character is not the carriage return
    have hcut : ∀ {pre text : Bytes}, pre ++ 0x23 :: text = l' ++ [0x0d] → ∃ text', text = text' ++ [0x0d] ∧
        l' = pre ++ 0x23 :: text' := by
      intro pre text heq
      rcases List.eq_nil_or_concat' text with rfl | ⟨text', c, rfl⟩
      · have := (List.append_inj_right' heq rfl)
        contradiction
      · have heq' : (pre ++ 0x23 :: text') ++ [c] = l' ++ [0x0d] := by simpa using heq
        obtain ⟨hl', hc⟩ := List.append_inj' heq' rfl
        exact ⟨text', by rw [(List.cons.inj hc).1], hl'.symm⟩
    cases h with
    | empty => simp at hl
    | comment htext =>
        obtain ⟨text', rfl, rfl⟩ := @hcut [] _ hl
        exact .comment fun hmem => htext (List.mem_append_left _ hmem)
    | indented htext =>
        obtain ⟨text', rfl, rfl⟩ := hcut hl
        exact .indented fun hmem => htext (List.mem_append_left _ hmem)

theorem lineBuf_headerLine {name : Bytes} (h0 : 0 ∉ headerLine name) :
    lineBuf (headerLine name ++ [0x0a]) = headerLine name :=
  lineBuf_line h0 (by rw [headerLine, ← List.cons_append, List.getLast?_append]; simp)

theorem lineBuf_entryLine {indent : Bytes} {e : ConfigEntry} (he : EntryOk e) (h0 : 0 ∉ entryLine indent e) :
    lineBuf (entryLine indent e ++ [0x0a]) = entryLine indent e := by
  refine lineBuf_line h0 fun hlast => ?_
  have hval : e.val.getLast? = some 0x0d := by
    obtain ⟨c, rest, hc⟩ := List.exists_cons_of_ne_nil he.val_ne
    rw [entryLine, hc, List.getLast?_append, List.getLast?_append] at hlast
    rw [hc]
    simpa using hlast
  exact absurd (he.val_last _ hval) (by decide)

section
variable {indent : Bytes} (hne : indent ≠ []) (hblank : ∀ c ∈ indent, isblank c = true)
include hne hblank

/-- The entries of a section are read into it. -/
theorem EntryLines.reads {es : List ConfigEntry} {ls : List Bytes} (h : EntryLines indent es ls)
    (h0 : ∀ l ∈ ls, 0 ∉ l) {secs : List ConfigSection} {sec : ConfigSection} {s : ConfigState} {off : Nat}
    (hs : Reached indent (secs ++ [sec]) s) :
    ∃ s', Reads s off (ls.map (· ++ [0x0a])) s' ∧
      Reached indent (secs ++ [{ sec with entries := sec.entries ++ es }]) s' := by
  induction h generalizing sec s off with
  | done => exact ⟨s, rfl, by simpa using hs⟩
  | noise hl _ ih =>
      obtain ⟨hl0, h0⟩ := List.forall_mem_cons.mp h0
      obtain ⟨s₁, hline, hs₁⟩ := hs.noise hne hblank (hl.read hl0).1 (hl.read hl0).2
      obtain ⟨s', hreads, hs'⟩ := ih h0 hs₁
      exact ⟨s', .cons hline hreads, hs'⟩
  | entry he _ ih =>
      obtain ⟨hl0, h0⟩ := List.forall_mem_cons.mp h0
      obtain ⟨s₁, hline, hs₁⟩ := @Reached.entry indent secs s off hne hblank _ hs _ he hl0
      obtain ⟨s', hreads, hs'⟩ := ih h0 hs₁
      rw [← lineBuf_entryLine he hl0] at hline
      exact ⟨s', .cons hline hreads, by simpa using hs'⟩

/-- The sections of a file are read one after the other. -/
theorem FileLines.reads {secs' : List ConfigSection} {ls : List Bytes} (h : FileLines indent secs' ls)
    (h0 : ∀ l ∈ ls, 0 ∉ l) {secs : List ConfigSection} {s : ConfigState} {off : Nat}
    (hkeys : ∀ sec ∈ secs.getLast?, sec.entries ≠ []) (hs : Reached indent secs s) :
    ∃ s', Reads s off (ls.map (· ++ [0x0a])) s' ∧ Reached indent (secs ++ secs') s' ∧
      ∀ sec ∈ (secs ++ secs').getLast?, sec.entries ≠ [] := by
  induction h generalizing secs s off with
  | done => exact ⟨s, rfl, by simpa using hs, by simpa using hkeys⟩
  | noise hl _ ih =>
      obtain ⟨hl0, h0⟩ := List.forall_mem_cons.mp h0
      obtain ⟨s₁, hline, hs₁⟩ := hs.noise hne hblank (hl.read hl0).1 (hl.read hl0).2
      obtain ⟨s', hreads, hs'⟩ := ih h0 hkeys hs₁
      exact ⟨s', .cons hline hreads, hs'⟩
  | @header sec ls₁ secs' ls₂ hname hentries hls₁ _ ih =>
      obtain ⟨hl0, h0⟩ := List.forall_mem_cons.mp h0
      obtain ⟨h0₁, h0₂⟩ := List.forall_mem_append.mp h0
      obtain ⟨s₁, hline, hs₁⟩ := @Reached.header indent secs s off hs hkeys _ hname
      obtain ⟨s₂, hreads₁, hs₂⟩ := hls₁.reads hne hblank h0₁ hs₁
      rw [List.nil_append] at hs₂
      obtain ⟨s', hreads₂, hs', hlast⟩ := ih h0₂ (by simpa using hentries) hs₂
      rw [← lineBuf_headerLine hl0] at hline
      rw [List.append_assoc, List.singleton_append] at hs' hlast
      refine ⟨s', .cons hline ?_, hs', hlast⟩
      rw [List.map_append]
      exact hreads₁.append hreads₂

omit hne in
theorem newline_notMem_indent : 0x0a ∉ indent := fun hmem => absurd (hblank _ hmem) (by decide)

omit hne in
theorem IsNoise.no_newline {l : Bytes} (h : IsNoise indent l) : 0x0a ∉ l := by
  have hindent := newline_notMem_indent hblank
  cases h with
  | empty => exact List.not_mem_nil
  | comment htext => simpa using htext
  | indented htext => simp [hindent, htext]

omit hne in
theorem EntryLines.no_newline {es : List ConfigEntry} {ls : List Bytes} (h : EntryLines indent es ls) :
    ∀ l ∈ ls, 0x0a ∉ l := by
  induction h with
  | done => simp
  | noise hl _ ih => exact List.forall_mem_cons.mpr ⟨hl.no_newline hblank, ih⟩
  | @entry e _ _ he _ ih =>
      have hkey : 0x0a ∉ e.key := fun hmem => absurd (he.key_word 0x0a hmem) (by decide)
      have hindent := newline_notMem_indent hblank
      refine List.forall_mem_cons.mpr ⟨?_, ih⟩
      simp [entryLine, hindent, hkey, he.val_line]

omit hne in
/-- No line of a printed file holds another one. -/
theorem FileLines.no_newline {secs : List ConfigSection} {ls : List Bytes} (h : FileLines indent secs ls) :
    ∀ l ∈ ls, 0x0a ∉ l := by
  induction h with
  | done => simp
  | noise hl _ ih => exact List.forall_mem_cons.mpr ⟨hl.no_newline hblank, ih⟩
  | header hname _ hls _ ih =>
      refine List.forall_mem_cons.mpr ⟨?_, List.forall_mem_append.mpr ⟨hls.no_newline hblank, ih⟩⟩
      simp [headerLine, hname.2]

/-- **Round trip**: a printed configuration with at least one section is read back. -/
theorem mkConfigCreate_unlines {secs : List ConfigSection} {ls : List Bytes} (h : FileLines indent secs ls)
    (hsecs : secs ≠ []) (hshort : ∀ l ∈ ls, l.length < 128) (h0 : ∀ l ∈ ls, 0 ∉ l) :
    mkConfigCreate (unlines ls) = .ok secs := by
  have hpieces : fgetsAll configBufSize (unlines ls) = ls.map (· ++ [0x0a]) :=
    fgetsAll_lines fun l hl => ⟨h.no_newline hblank l hl, by have := hshort l hl; unfold configBufSize; omega⟩
  have hinit : Reached indent [] {} := ⟨.inl rfl, rfl, by simp, by simp⟩
  obtain ⟨s', hreads, hs', hlast⟩ := @FileLines.reads indent hne hblank _ _ h h0 [] {} 0 (by simp) hinit
  rw [List.nil_append] at hs' hlast
  rw [Reads] at hreads
  -- the last section has a key
  have hkeys : s'.nKeys ≠ 0 := by
    have hsec := List.getLast?_eq_some_getLast hsecs
    rw [hs'.nKeys _ hsec]
    exact fun hzero => hlast _ hsec (List.length_eq_zero_iff.mp hzero)
  rw [mkConfigCreate, configRun, hpieces, hreads]
  simp only [if_neg hkeys, hs'.sections]

end

/-- A section with two entries and a comment between them. -/
theorem mkConfigCreate_unlines_two :
    mkConfigCreate (unlines [headerLine [0x53], entryLine [0x09] ⟨[0x61], [0x62]⟩, [0x23],
      entryLine [0x09] ⟨[0x63], [0x64]⟩]) = .ok [⟨[0x53], [⟨[0x61], [0x62]⟩, ⟨[0x63], [0x64]⟩]⟩] := by
  have hok : ∀ k v : UInt8, isspace k = false → k ≠ 0x23 → isspace v = false → EntryOk ⟨[k], [v]⟩ := by
    intro k v hk hcomment hv
    constructor
    all_goals simp_all
    rintro rfl
    contradiction
  have hab := hok 0x61 0x62 (by decide) (by decide) (by decide)
  have hcd := hok 0x63 0x64 (by decide) (by decide) (by decide)
  have hfile := @FileLines.header [0x09] ⟨[0x53], [⟨[0x61], [0x62]⟩, ⟨[0x63], [0x64]⟩]⟩ _ [] [] (by decide)
    (by decide) (.entry hab (.noise (.comment List.not_mem_nil) (.entry hcd .done))) .done
  exact mkConfigCreate_unlines (by decide) (List.forall_mem_singleton.mpr rfl) hfile (by decide) (by decide) (by decide)

/-- A file without any section is refused. -/
theorem mkConfigCreate_no_section :
    ¬ ∀ (indent : Bytes) (secs : List ConfigSection) (ls : List Bytes), indent ≠ [] →
      (∀ c ∈ indent, isblank c = true) → FileLines indent secs ls → (∀ l ∈ ls, l.length < 128) →
      (∀ l ∈ ls, 0 ∉ l) → mkConfigCreate (unlines ls) = .ok secs := by
  intro hall
  have hempty := hall [0x20] [] [] (by decide) (List.forall_mem_singleton.mpr rfl) .done (by decide) (by decide)
  have herror : mkConfigCreate (unlines []) = .error (.schema 0 "Section do not have keys") := rfl
  rw [herror] at hempty
  contradiction

end Monkey.Config
