import Monkey.Lib.Fifo

/-!
# Monkey.Lib.DoubleBuffer

A text that one thread replaces while others read it, in two buffers and without a lock: the
next text is written to the buffer that is not the current one, which is then made current.

A reader takes the current buffer and copies it element by element.  What it copies is one
text, provided that no more than one update overlaps with its copying (`whole_of_run`).
-/

namespace Monkey

variable {β : Type*}

/-- A copy being made: the buffer it was told to read, what it has so far, the text that was
current when it began, and the number of updates that were on or began since. -/
structure Reader (β : Type*) where
  buf : Bool
  got : List β
  text : List β
  overlap : Nat

/-- The two buffers, which of them is current and the text it was made current with; the text
of an update that is being made; and a reader. -/
structure DoubleBuffer (β : Type*) where
  mem : Bool → Nat → β
  cur : Bool
  text : List β
  writing : Option (List β) := none
  reader : Option (Reader β) := none

/-- A step of the writer, or of the reader. -/
inductive BufferAct (β : Type*)
  | start (text : List β)
  | scribble (content : Nat → β)
  | publish
  | load
  | get

/-- A buffer begins with a text. -/
def Holds (content : Nat → β) (text : List β) : Prop := ∀ i, (h : i < text.length) → content i = text[i]

/-- A step: until an update is published, its buffer can hold anything. -/
inductive BufferStep (s : DoubleBuffer β) : BufferAct β → DoubleBuffer β → Prop
  | start (text : List β) (idle : s.writing = none) :
      BufferStep s (.start text)
        { s with
          writing := some text
          reader := s.reader.map fun r => { r with overlap := r.overlap + 1 } }
  | scribble (content : Nat → β) (busy : s.writing ≠ none) :
      BufferStep s (.scribble content) { s with mem := Function.update s.mem (!s.cur) content }
  | publish {text : List β} (busy : s.writing = some text) (done : Holds (s.mem (!s.cur)) text) :
      BufferStep s .publish { s with cur := !s.cur, text := text, writing := none }
  | load :
      BufferStep s .load
        { s with reader := some ⟨s.cur, [], s.text, if s.writing.isSome then 1 else 0⟩ }
  | get {r : Reader β} (reading : s.reader = some r) :
      BufferStep s .get { s with reader := some { r with got := r.got ++ [s.mem r.buf r.got.length] } }

/-- What is copied so far is of the text. -/
def Copied (got text : List β) : Prop := ∀ i, (h : i < got.length) → (h' : i < text.length) → got[i] = text[i]

/-- A reader with at most one overlap: its buffer still holds its text.  With none there is no
update on; with one, it is on in the other buffer, or has made that one current. -/
structure Reader.Safe (s : DoubleBuffer β) (r : Reader β) : Prop where
  holds : Holds (s.mem r.buf) r.text
  copied : Copied r.got r.text
  alone : r.overlap = 0 → r.buf = s.cur ∧ s.writing = none
  shared : r.overlap = 1 → (r.buf = s.cur ∧ s.writing ≠ none) ∨ (r.buf ≠ s.cur ∧ s.writing = none)

/-- The current buffer holds its text, and each reader is safe that may be. -/
structure DoubleBuffer.Safe (P : List β → Prop) (s : DoubleBuffer β) : Prop where
  holds : Holds (s.mem s.cur) s.text
  text : P s.text
  writing : ∀ text ∈ s.writing, P text
  reader : ∀ r ∈ s.reader, P r.text ∧ (r.overlap ≤ 1 → r.Safe s)

variable {P : List β → Prop} {s s' : DoubleBuffer β} {a : BufferAct β} {as : List (BufferAct β)}

/-- One more element of a buffer. -/
theorem Copied.get {got text : List β} {content : Nat → β} (h : Copied got text) (hholds : Holds content text) :
    Copied (got ++ [content got.length]) text := by
  intro i hi ht
  rcases lt_or_ge i got.length with hlt | hge
  · rw [List.getElem_append_left hlt]
    exact h i hlt ht
  · rw [List.length_append, List.length_singleton] at hi
    obtain rfl : i = got.length := by omega
    rw [List.getElem_append_right le_rfl]
    simpa using hholds _ ht

theorem BufferStep.safe (hs : s.Safe P) (hP : ∀ text, a = .start text → P text)
    (h : BufferStep s a s') : s'.Safe P := by
  cases h with
  | start text idle =>
      refine ⟨hs.holds, hs.text, fun t ht => ?_, fun r hr => ?_⟩
      · obtain rfl := Option.some.inj ht
        exact hP _ rfl
      · obtain ⟨r₀, hr₀, rfl⟩ := Option.map_eq_some_iff.mp hr
        obtain ⟨htext, hsafe⟩ := hs.reader r₀ hr₀
        refine ⟨htext, fun hone => ?_⟩
        have hsafe := hsafe (by dsimp only at hone; omega)
        refine ⟨hsafe.holds, hsafe.copied, fun h0 => absurd h0 (Nat.succ_ne_zero _), fun h1 => .inl ⟨?_, by simp⟩⟩
        exact (hsafe.alone (Nat.succ.inj h1)).1
  | scribble content busy =>
      have hother : ∀ b, b = s.cur → Function.update s.mem (!s.cur) content b = s.mem b := by
        rintro b rfl
        exact Function.update_of_ne (by cases s.cur <;> decide) ..
      refine ⟨?_, hs.text, hs.writing, fun r hr => ?_⟩
      · show Holds (Function.update s.mem (!s.cur) content s.cur) s.text
        rw [hother s.cur rfl]
        exact hs.holds
      · obtain ⟨htext, hsafe⟩ := hs.reader r hr
        refine ⟨htext, fun hone => ?_⟩
        have hsafe := hsafe hone
        -- an update is on, so that the buffer of the reader is the current one
        have hbuf : r.buf = s.cur := by
          rcases Nat.le_one_iff_eq_zero_or_eq_one.mp hone with h0 | h1
          · exact (hsafe.alone h0).1
          · rcases hsafe.shared h1 with ⟨hbuf, -⟩ | ⟨-, hidle⟩
            · exact hbuf
            · exact absurd hidle busy
        refine ⟨?_, hsafe.copied, hsafe.alone, hsafe.shared⟩
        show Holds (Function.update s.mem (!s.cur) content r.buf) r.text
        rw [hother r.buf hbuf]
        exact hsafe.holds
  | @publish text busy done =>
      refine ⟨done, hs.writing text busy, by simp, fun r hr => ?_⟩
      obtain ⟨htext, hsafe⟩ := hs.reader r hr
      refine ⟨htext, fun hone => ?_⟩
      have hsafe := hsafe hone
      refine ⟨hsafe.holds, hsafe.copied, fun h0 => ?_, fun h1 => .inr ⟨?_, rfl⟩⟩
      · have hidle := (hsafe.alone h0).2
        rw [busy] at hidle
        contradiction
      · rcases hsafe.shared h1 with ⟨hbuf, -⟩ | ⟨-, hidle⟩
        · show r.buf ≠ !s.cur
          rw [hbuf]
          cases s.cur <;> decide
        · rw [busy] at hidle
          contradiction
  | load =>
      refine ⟨hs.holds, hs.text, hs.writing, fun r hr => ?_⟩
      obtain rfl := Option.some.inj hr
      refine ⟨hs.text, fun _ => ⟨hs.holds, fun i hi => absurd hi (Nat.not_lt_zero i), fun h0 => ⟨rfl, ?_⟩,
        fun h1 => .inl ⟨rfl, ?_⟩⟩⟩
      · cases hw : s.writing with
        | none => rfl
        | some _ => simp [hw] at h0
      · intro hw
        dsimp only at hw h1
        simp [hw] at h1
  | @get r₀ reading =>
      refine ⟨hs.holds, hs.text, hs.writing, fun r hr => ?_⟩
      obtain rfl := Option.some.inj hr
      obtain ⟨htext, hsafe⟩ := hs.reader r₀ reading
      refine ⟨htext, fun hone => ?_⟩
      have hsafe := hsafe hone
      exact ⟨hsafe.holds, hsafe.copied.get hsafe.holds, hsafe.alone, hsafe.shared⟩

/-- What is copied of a text is its beginning. -/
theorem Copied.take_eq {got text : List β} (h : Copied got text) : got.take text.length = text.take got.length := by
  apply List.ext_getElem
  · simp [min_comm]
  · intro i hi hi'
    rw [List.length_take] at hi hi'
    rw [List.getElem_take, List.getElem_take]
    exact h i (by omega) (by omega)

/-- **A reader with at most one overlap** has copied one of the texts. -/
theorem whole_of_run (h : Run BufferStep s as s') (hholds : Holds (s.mem s.cur) s.text) (hidle : s.writing = none)
    (hreader : s.reader = none) (hP : P s.text) (hstart : ∀ text, .start text ∈ as → P text) {r : Reader β}
    (hr : s'.reader = some r) (hone : r.overlap ≤ 1) :
    P r.text ∧ r.got.take r.text.length = r.text.take r.got.length := by
  have hguarded := h.guarded_of_forall (P := fun a => ∀ text, a = .start text → P text)
    fun a ha text heq => hstart text (heq ▸ ha)
  have hsafe : s.Safe P := by
    refine ⟨hholds, hP, ?_, ?_⟩
    · simp [hidle]
    · simp [hreader]
  have hend := Run.guarded_invariant (fun _ _ _ => BufferStep.safe) hguarded hsafe
  obtain ⟨htext, hr⟩ := hend.reader r hr
  exact ⟨htext, (hr hone).copied.take_eq⟩

/-- The writer never waits for a reader: an update is made while it copies. -/
theorem update_on {r : Reader β} (hr : s.reader = some r) (hidle : s.writing = none) {text : List β}
    {content : Nat → β} (hholds : Holds content text) :
    ∃ s' r', Run BufferStep s [.start text, .scribble content, .publish] s' ∧ s'.reader = some r' ∧
      r'.got = r.got ∧ r'.overlap = r.overlap + 1 := by
  refine ⟨_, { r with overlap := r.overlap + 1 },
    .cons (.start text hidle) (.cons (.scribble content (Option.some_ne_none text)) (.cons (.publish rfl ?_) (.nil _))),
    ?_, rfl, rfl⟩
  · show Holds (Function.update s.mem (!s.cur) content (!s.cur)) text
    rw [Function.update_self]
    exact hholds
  · show s.reader.map _ = _
    rw [hr, Option.map_some]

/-- A reader never waits: it can go on to any length. -/
theorem read_on {r : Reader β} (hr : s.reader = some r) (n : Nat) :
    ∃ r', Run BufferStep s (List.replicate n .get) { s with reader := some r' } ∧
      r'.got.length = r.got.length + n ∧ r'.overlap = r.overlap := by
  induction n generalizing s r with
  | zero =>
      refine ⟨r, ?_, rfl, rfl⟩
      rw [← hr]
      exact .nil s
  | succ n ih =>
      obtain ⟨r', hrun, hlen, hoverlap⟩ :=
        @ih { s with reader := some { r with got := r.got ++ [s.mem r.buf r.got.length] } } _ rfl
      refine ⟨r', .cons (.get hr) hrun, ?_, hoverlap⟩
      rw [hlen, List.length_append, List.length_singleton]
      omega

end Monkey
