import Monkey.Lib.CString

/-!
# Monkey.Lib.Tokens

A text known by its pieces: where the searches of the C library find a byte that
closes one of them, and what a comparison over the length of a token decides.
-/

namespace Monkey

/-! ## a byte behind a piece without it -/

section find

variable {s t w : Bytes} {c : UInt8}

theorem findIdx?_eq_none (hc : c ∉ s) : s.findIdx? (· == c) = none := by
  rw [List.findIdx?_eq_none_iff]
  intro d hd
  rw [beq_eq_false_iff_ne]
  rintro rfl
  exact hc hd

/-- The byte behind a piece without it is the first. -/
theorem findIdx?_append_cons (hc : c ∉ s) (t : Bytes) :
    (s ++ c :: t).findIdx? (· == c) = some s.length := by
  rw [List.findIdx?_append, findIdx?_eq_none hc, List.findIdx?_cons, beq_self_eq_true]
  simp

theorem strchr_append_cons (h0 : 0 ∉ s) (hc : c ∉ s) (hne : c ≠ 0) (t : Bytes) :
    strchr (s ++ c :: t) c = some s.length := by
  have hcstr : cstr (s ++ c :: t) = s ++ c :: cstr t := by
    rw [cstr_append h0, cstr, List.takeWhile_cons_of_pos (by simpa using hne)]
    rfl
  rw [strchr, hcstr, findIdx?_append_cons hc]

theorem memchr_append_cons (hc : c ∉ s) (t : Bytes) {n : Nat} (hn : s.length < n) :
    memchr (s ++ c :: t) c n = some s.length := by
  obtain ⟨m, rfl⟩ := Nat.exists_eq_add_of_lt hn
  rw [memchr, add_assoc, List.take_length_add_append, List.take_succ_cons, findIdx?_append_cons hc]

/-- A byte that is not in the piece is not found in it. -/
theorem memchr_eq_none {n : Nat} (hc : c ∉ s.take n) : memchr s c n = none := findIdx?_eq_none hc

theorem memchr_getElem? {k n : Nat} (h : memchr s c n = some k) : s[k]? = some c := by
  obtain ⟨hlt, hc, -⟩ := List.findIdx?_eq_some_iff_getElem.mp h
  rw [List.length_take] at hlt
  rw [List.getElem_take, beq_iff_eq] at hc
  rw [List.getElem?_eq_getElem (by omega), hc]

/-- A byte found is found again behind more bytes. -/
theorem memchr_append {k n : Nat} (h : memchr s c n = some k) (t : Bytes) :
    memchr (s ++ t) c n = some k := by
  unfold memchr at h ⊢
  rw [List.take_append, List.findIdx?_append, h]
  rfl

/-- The byte in front of a piece without it is the last. -/
theorem memrchr_append_cons (hc : c ∉ t) (s w : Bytes) :
    memrchr (s ++ c :: (t ++ w)) c (s.length + (t.length + 1)) = some s.length := by
  have htake : (s ++ c :: (t ++ w)).take (s.length + (t.length + 1)) = s ++ c :: t := by
    rw [List.take_length_add_append, List.take_succ_cons, List.take_left]
  rw [memrchr, htake, List.reverse_append, List.reverse_cons, List.append_assoc,
    List.singleton_append, findIdx?_append_cons (by simpa using hc)]
  simp

theorem takeWhile_append_cons (hc : c ∉ s) (t : Bytes) : (s ++ c :: t).takeWhile (· ≠ c) = s := by
  have hall : ∀ d ∈ s, decide (d ≠ c) = true := by
    intro d hd
    rw [decide_eq_true_eq]
    rintro rfl
    exact hc hd
  rw [List.takeWhile_append_of_pos hall, List.takeWhile_cons_of_neg (by simp), List.append_nil]

theorem dropWhile_append_cons (hc : c ∉ s) (t : Bytes) :
    (s ++ c :: t).dropWhile (· ≠ c) = c :: t := by
  have happend := List.takeWhile_append_dropWhile (p := fun d => decide (d ≠ c)) (l := s ++ c :: t)
  rw [takeWhile_append_cons hc] at happend
  exact List.append_cancel_left happend

theorem takeWhile_of_notMem (hc : c ∉ s) : s.takeWhile (· ≠ c) = s := by
  rw [List.takeWhile_eq_self_iff]
  intro d hd
  rw [decide_eq_true_eq]
  rintro rfl
  exact hc hd

theorem dropWhile_of_notMem (hc : c ∉ s) : s.dropWhile (· ≠ c) = [] := by
  have happend := List.takeWhile_append_dropWhile (p := fun d => decide (d ≠ c)) (l := s)
  rw [takeWhile_of_notMem hc] at happend
  exact List.append_right_eq_self.mp happend

end find

/-! ## a needle behind more bytes -/

/-- A match is still the first when bytes are added. -/
theorem findSub_append_of_some {needle s : Bytes} {p : Nat} (h : findSub needle s = some p)
    (hne : needle ≠ []) (t : Bytes) : findSub needle (s ++ t) = some p := by
  have hsound := findSub_sound h
  have hend := hsound.length_le
  have hpos := List.length_pos_iff.mpr hne
  rw [List.length_drop] at hend
  refine findSub_eq_some ?_ (by rw [List.length_append]; omega) ?_
  · rw [List.drop_append_of_le_length (by omega)]
    exact hsound.trans (List.prefix_append _ _)
  · intro q hq hmatch
    rw [List.drop_append_of_le_length (by omega)] at hmatch
    exact findSub_least h hq (List.prefix_of_prefix_length_le hmatch (List.prefix_append _ _)
      (by rw [List.length_drop]; omega))

/-- A string search finds the first match of the bytes. -/
theorem findSub_of_strstr {needle s : Bytes} {p : Nat} (h : strstr s needle = some p)
    (hne : needle ≠ []) : findSub needle s = some p := by
  have hsplit : cstr s ++ s.drop (cstr s).length = s :=
    List.prefix_iff_eq_append.mp (List.takeWhile_prefix _)
  have happ := findSub_append_of_some h hne (s.drop (cstr s).length)
  rwa [hsplit] at happ

/-! ## comparisons over a length -/

/-- A comparison does not look behind its length. -/
theorem strncmpWith_append (f : UInt8 → UInt8) {s : Bytes} (u t : Bytes) {n : Nat}
    (h : n ≤ s.length) : strncmpWith f (s ++ u) t n = strncmpWith f s t n := by
  induction s generalizing t n with
  | nil =>
      obtain rfl := Nat.le_zero.mp h
      simp [strncmpWith]
  | cons c s ih =>
      cases n with
      | zero => simp [strncmpWith]
      | succ n =>
          cases t with
          | nil => rfl
          | cons d t => simp only [List.cons_append, strncmpWith, ih t (Nat.le_of_succ_le_succ h)]

/-- Nor does it look behind the second text. -/
theorem strncmpWith_append_right (f : UInt8 → UInt8) (s t r : Bytes) :
    strncmpWith f s (t ++ r) t.length = strncmpWith f s t t.length := by
  induction t generalizing s with
  | nil => simp [strncmpWith]
  | cons d t ih =>
      cases s with
      | nil => rfl
      | cons c s => simp [strncmpWith, ih]

theorem strncmp_append {s : Bytes} (u t : Bytes) {n : Nat} (h : n ≤ s.length) :
    strncmp (s ++ u) t n = strncmp s t n := strncmpWith_append id u t h

/-- Comparing over the length of a token is a test for a prefix of the name. -/
theorem strncmpWith_token (f : UInt8 → UInt8) {s : Bytes} (h0 : 0 ∉ s) (u t : Bytes) :
    strncmpWith f (s ++ u) t s.length = (s.map f).isPrefixOf (t.map f) := by
  rw [strncmpWith_append f u t le_rfl]
  induction s generalizing t with
  | nil => simp [strncmpWith]
  | cons c s ih =>
      obtain ⟨hc, hs⟩ := not_or.mp fun h => h0 (List.mem_cons.mpr h)
      have hne : (c == 0) = false := beq_eq_false_iff_ne.mpr (Ne.symm hc)
      cases t with
      | nil => exact hne
      | cons d t =>
          simp only [List.length_cons, strncmpWith, hne, Bool.false_or, ih hs t, List.map_cons,
            List.isPrefixOf]

theorem strncmp_token {s : Bytes} (h0 : 0 ∉ s) (u t : Bytes) :
    strncmp (s ++ u) t s.length = s.isPrefixOf t := by
  have htoken := strncmpWith_token id h0 u t
  rwa [List.map_id, List.map_id] at htoken

theorem strncasecmp_token {s : Bytes} (h0 : 0 ∉ s) (u t : Bytes) :
    strncasecmp (s ++ u) t s.length = (s.map toupper).isPrefixOf (t.map toupper) :=
  strncmpWith_token toupper h0 u t

/-! ## tables of names -/

section table

variable {β : Type*} (table : List (Bytes × β)) (unknown : β) (s : Bytes)

/-- The value of the name. -/
def lookupName : β := ((table.find? fun e => s == e.1).map (·.2)).getD unknown

/-- The value of the first name that starts with the token. -/
def lookupPrefix : β := ((table.find? fun e => s.isPrefixOf e.1).map (·.2)).getD unknown

/-- The token is a name cut short. -/
def CutShort : Prop := ∃ e ∈ table, s <+: e.1 ∧ s ≠ e.1

instance : Decidable (CutShort table s) :=
  inferInstanceAs (Decidable (∃ e ∈ table, _ ∧ _))

variable {table unknown s}

@[simp]
theorem lookupPrefix_nil : lookupPrefix [] unknown s = unknown := rfl

@[simp]
theorem lookupPrefix_cons (e : Bytes × β) : lookupPrefix (e :: table) unknown s =
    if s.isPrefixOf e.1 then e.2 else lookupPrefix table unknown s := by
  unfold lookupPrefix
  rw [List.find?_cons]
  cases s.isPrefixOf e.1 <;> rfl

/-- Looking a token up as a prefix is looking it up as a name, but for names cut short. -/
theorem lookupPrefix_eq_iff (hunknown : ∀ e ∈ table, e.2 ≠ unknown)
    (hfree : ∀ e ∈ table, ¬ CutShort table e.1) :
    lookupPrefix table unknown s = lookupName table unknown s ↔ ¬ CutShort table s := by
  constructor
  · rintro heq ⟨e, he, hpre, hne⟩
    -- the token is no name, but starts one
    have hnone : table.find? (fun e => s == e.1) = none := by
      rw [List.find?_eq_none]
      intro e' he' hs
      exact hfree e' he' ⟨e, he, beq_iff_eq.mp hs ▸ hpre, beq_iff_eq.mp hs ▸ hne⟩
    have hsome : (table.find? fun e => s.isPrefixOf e.1).isSome := by
      rw [List.find?_isSome]
      exact ⟨e, he, List.isPrefixOf_iff_prefix.mpr hpre⟩
    obtain ⟨e', he'⟩ := Option.isSome_iff_exists.mp hsome
    rw [lookupPrefix, lookupName, hnone, he'] at heq
    exact hunknown e' (List.mem_of_find?_eq_some he') heq
  · intro hcut
    have hsame : ∀ e ∈ table, s.isPrefixOf e.1 = (s == e.1) := by
      intro e he
      rw [Bool.eq_iff_iff, List.isPrefixOf_iff_prefix, beq_iff_eq]
      constructor
      · intro hpre
        by_contra hne
        exact hcut ⟨e, he, hpre, hne⟩
      · rintro rfl
        exact List.prefix_rfl
    rw [lookupPrefix, lookupName, List.find?_congr hsame]

end table

/-! ## `strtok` -/

section strtok

variable (delim : UInt8 → Bool)

/-- One call of `strtok`: the token, and what is behind the delimiter that ends it. -/
def strtok (s : Bytes) : Option (Bytes × Bytes) :=
  let rest := s.dropWhile delim
  if rest = [] then none
  else some (rest.takeWhile (!delim ·), (rest.dropWhile (!delim ·)).drop 1)

/-- All the tokens, by so many calls. -/
def strtokLoop : Nat → Bytes → List Bytes
  | 0, _ => []
  | fuel + 1, s =>
      match strtok delim s with
      | none => []
      | some (tok, rest) => tok :: strtokLoop fuel rest

/-- All the tokens of a text. -/
def strtokAll (s : Bytes) : List Bytes := strtokLoop delim s.length s

/-- The pieces between the delimiters that are not empty. -/
def words (s : Bytes) : List Bytes := (s.splitOnP delim).filter (· ≠ [])

variable {delim} {s : Bytes}

theorem words_append_cons {d : UInt8} (hd : delim d = true) (s t : Bytes) :
    words delim (s ++ d :: t) = words delim s ++ words delim t := by
  rw [words, List.splitOnP_append_cons s t hd, List.filter_append, words, words]

theorem words_of_no_delim (hne : s ≠ []) (h : ∀ c ∈ s, delim c = false) : words delim s = [s] := by
  rw [words, List.splitOnP_eq_singleton h, List.filter_cons_of_pos (by simpa using hne), List.filter_nil]

/-- Delimiters in front of anything belong to none. -/
theorem words_delims_append (h : ∀ c ∈ s, delim c = true) (t : Bytes) : words delim (s ++ t) = words delim t := by
  induction s with
  | nil => rfl
  | cons d s ih =>
      have hfront : words delim (d :: (s ++ t)) = words delim (s ++ t) := words_append_cons (h d List.mem_cons_self) [] _
      rw [List.cons_append, hfront, ih fun c hc => h c (List.mem_cons_of_mem d hc)]

/-- Delimiters alone are no word. -/
theorem words_of_delims (h : ∀ c ∈ s, delim c = true) : words delim s = [] := by
  have hwhole := words_delims_append h []
  rwa [List.append_nil] at hwhole

/-- Delimiters at the end belong to none. -/
theorem words_append_delims (s : Bytes) {t : Bytes} (h : ∀ c ∈ t, delim c = true) :
    words delim (s ++ t) = words delim s := by
  cases t with
  | nil => rw [List.append_nil]
  | cons d t =>
      rw [words_append_cons (h d List.mem_cons_self), words_of_delims fun c hc => h c (List.mem_cons_of_mem d hc),
        List.append_nil]

/-- The words are all there is but the delimiters. -/
theorem flatten_words (s : Bytes) : (words delim s).flatten = s.filter (!delim ·) := by
  rw [words, List.flatten_filter_ne_nil]
  induction s with
  | nil => rfl
  | cons c s ih =>
      rw [List.splitOnP_cons_eq_if_modifyHead]
      by_cases hc : delim c = true
      · rw [if_pos hc, List.flatten_cons, ih, List.filter_cons_of_neg (by simp [hc]), List.nil_append]
      · obtain ⟨first, rest, hsplit⟩ := List.exists_cons_of_ne_nil (List.splitOnP_ne_nil delim s)
        rw [if_neg hc, List.filter_cons_of_pos (by simp [hc]), ← ih, hsplit, List.modifyHead_cons, List.flatten_cons,
          List.flatten_cons, List.cons_append]

/-- Delimiters in front belong to no word. -/
theorem words_dropWhile (s : Bytes) : words delim (s.dropWhile delim) = words delim s := by
  induction s with
  | nil => rfl
  | cons c s ih =>
      by_cases hc : delim c = true
      · have hfront : words delim (c :: s) = words delim s := words_append_cons hc [] s
        rw [List.dropWhile_cons_of_pos hc, ih, hfront]
      · rw [List.dropWhile_cons_of_neg hc]

theorem mem_of_mem_splitOnP {p : UInt8 → Bool} {w : Bytes} (h : w ∈ s.splitOnP p) : ∀ c ∈ w, c ∈ s := by
  induction s generalizing w with
  | nil =>
      rw [List.splitOnP_nil, List.mem_singleton] at h
      exact h ▸ fun c hc => hc
  | cons x s ih =>
      rw [List.splitOnP_cons_eq_if_modifyHead] at h
      split at h
      · rcases List.mem_cons.mp h with rfl | h
        · exact fun c hc => absurd hc List.not_mem_nil
        · exact fun c hc => List.mem_cons_of_mem x (ih h c hc)
      · obtain ⟨first, rest, hsplit⟩ := List.exists_cons_of_ne_nil (List.splitOnP_ne_nil p s)
        rw [hsplit, List.modifyHead_cons] at h
        rcases List.mem_cons.mp h with rfl | h
        · intro c hc
          rcases List.mem_cons.mp hc with rfl | hc
          · exact List.mem_cons_self
          · exact List.mem_cons_of_mem x (ih (hsplit ▸ List.mem_cons_self) c hc)
        · exact fun c hc => List.mem_cons_of_mem x (ih (hsplit ▸ List.mem_cons_of_mem first h) c hc)

/-- A word consists of bytes of the text. -/
theorem mem_of_mem_words {w : Bytes} (h : w ∈ words delim s) : ∀ c ∈ w, c ∈ s :=
  mem_of_mem_splitOnP (List.mem_filter.mp h).1

theorem strtok_eq_none (h : strtok delim s = none) : words delim s = [] := by
  simp only [strtok] at h
  split at h
  · next hnil => rw [← words_dropWhile, hnil]; rfl
  · contradiction

/-- One call finds the first word, and leaves the others. -/
theorem strtok_eq_some {tok rest : Bytes} (h : strtok delim s = some (tok, rest)) :
    words delim s = tok :: words delim rest ∧ rest.length < s.length := by
  simp only [strtok] at h
  split at h
  · contradiction
  · next hne =>
      cases h
      have hhead := List.head_dropWhile_not delim hne
      have hlen : (s.dropWhile delim).length ≤ s.length := (List.dropWhile_suffix delim).length_le
      rw [← words_dropWhile s]
      generalize s.dropWhile delim = front at hne hhead hlen ⊢
      have hsplit : front.takeWhile (!delim ·) ++ front.dropWhile (!delim ·) = front := List.takeWhile_append_dropWhile
      have hfree : ∀ c ∈ front.takeWhile (!delim ·), delim c = false := fun c hc => by
        simpa using List.mem_takeWhile_imp hc
      have hfirst : front.takeWhile (!delim ·) ≠ [] := by
        obtain ⟨c, more, hc⟩ := List.exists_cons_of_ne_nil hne
        simp only [hc, List.head_cons] at hhead
        rw [hc, List.takeWhile_cons_of_pos (by simpa using hhead)]
        exact List.cons_ne_nil _ _
      have hpos := List.length_pos_iff.mpr hfirst
      have hsum := congrArg List.length hsplit
      rw [List.length_append] at hsum
      refine ⟨?_, by rw [List.length_drop]; omega⟩
      cases hrest : front.dropWhile (!delim ·) with
      | nil =>
          rw [hrest, List.append_nil] at hsplit
          rw [List.drop_nil, hsplit]
          exact words_of_no_delim hne (by rw [← hsplit]; exact hfree)
      | cons d more =>
          have hd : delim d = true := by
            have hstop := List.head_dropWhile_not (!delim ·) (hrest ▸ List.cons_ne_nil d more)
            simpa [hrest] using hstop
          have hfront : words delim front = words delim (front.takeWhile (!delim ·) ++ d :: more) := by
            rw [← hrest, hsplit]
          rw [hfront, words_append_cons hd, words_of_no_delim hfirst hfree]
          rfl

theorem strtokLoop_eq {fuel : Nat} : ∀ {s : Bytes}, s.length ≤ fuel → strtokLoop delim fuel s = words delim s := by
  induction fuel with
  | zero =>
      intro s hs
      obtain rfl := List.eq_nil_of_length_eq_zero (Nat.le_zero.mp hs)
      rfl
  | succ fuel ih =>
      intro s hs
      cases hcall : strtok delim s with
      | none => simp only [strtokLoop, hcall]; rw [strtok_eq_none hcall]
      | some found =>
          obtain ⟨hwords, hlt⟩ := strtok_eq_some hcall
          simp only [strtokLoop, hcall]
          rw [hwords, ih (by omega)]

/-- **The tokens are the words**, however the delimiters are mixed between them. -/
theorem strtokAll_eq (s : Bytes) : strtokAll delim s = words delim s := strtokLoop_eq (Nat.le_refl _)

end strtok

end Monkey
