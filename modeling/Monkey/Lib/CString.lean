import Mathlib.Tactic
import Mathlib.Data.List.TakeWhile

/-!
# Monkey.Lib.CString

The string and memory searches of the C library over byte lists.  A `char *`
is the list of the bytes from the pointer on; the terminating NUL is the end
of the list, and a NUL byte inside the list ends the string for the `str*`
functions (`cstr`) but not for the `mem*` functions, which take a length.

Comparisons return whether the C function returns `0`.
-/

namespace Monkey

abbrev Bytes := List UInt8

/-- ASCII bytes of a literal. -/
def ascii (cs : List Char) : Bytes := cs.map fun c => UInt8.ofNat c.toNat

/-! ## strings -/

/-- The string a pointer denotes: the bytes before the first NUL. -/
def cstr (s : Bytes) : Bytes := s.takeWhile (· ≠ 0)

def strlen (s : Bytes) : Nat := (cstr s).length

/-- Position of the first occurrence of `needle`. -/
def findSub (needle : Bytes) : Bytes → Option Nat
  | [] => if needle = [] then some 0 else none
  | c :: s => if needle.isPrefixOf (c :: s) then some 0 else (findSub needle s).map (· + 1)

def strstr (hay needle : Bytes) : Option Nat := findSub needle (cstr hay)

/-- `memmem`: the bytes searched are given by a length. -/
def memmem (hay : Bytes) (len : Nat) (needle : Bytes) : Option Nat := findSub needle (hay.take len)

/-- `strchr`/`index`. -/
def strchr (s : Bytes) (c : UInt8) : Option Nat := (cstr s).findIdx? (· == c)

def memchr (s : Bytes) (c : UInt8) (len : Nat) : Option Nat := (s.take len).findIdx? (· == c)

/-- Position of the last `c` in the first `len` bytes. -/
def memrchr (s : Bytes) (c : UInt8) (len : Nat) : Option Nat :=
  ((s.take len).reverse.findIdx? (· == c)).map ((s.take len).length - 1 - ·)

/-! ## comparisons -/

def toupper (c : UInt8) : UInt8 := if 0x61 ≤ c ∧ c ≤ 0x7a then c - 0x20 else c

/-- `strncmp` after the translation `f` of each byte: at most `n` bytes are
compared and a common NUL ends the comparison. -/
def strncmpWith (f : UInt8 → UInt8) : Bytes → Bytes → Nat → Bool
  | _, _, 0 => true
  | [], [], _ + 1 => true
  | [], c :: _, _ + 1 => c == 0
  | c :: _, [], _ + 1 => c == 0
  | c :: s, d :: t, n + 1 => f c == f d && (c == 0 || strncmpWith f s t n)

def strncmp (s t : Bytes) (n : Nat) : Bool := strncmpWith id s t n

def strncasecmp (s t : Bytes) (n : Nat) : Bool := strncmpWith toupper s t n

def strcasecmp (s t : Bytes) : Bool := (cstr s).map toupper == (cstr t).map toupper

/-- Comparing a whole string without NUL bytes is a test for its presence. -/
theorem strncmpWith_iff_isPrefix {f : UInt8 → UInt8} (hf : ∀ c, f c = f 0 → c = 0) {s t : Bytes}
    (h0 : 0 ∉ t) : strncmpWith f s t t.length = true ↔ t.map f <+: s.map f := by
  induction t generalizing s with
  | nil => simp [strncmpWith]
  | cons d t ih =>
      obtain ⟨hd, ht⟩ := not_or.mp fun h => h0 (List.mem_cons.mpr h)
      cases s with
      | nil => simp [strncmpWith, Ne.symm hd]
      | cons c s =>
          have := @ih s ht
          simp only [List.length_cons, strncmpWith, Bool.and_eq_true, beq_iff_eq, Bool.or_eq_true,
            List.map_cons, List.cons_prefix_cons, this]
          constructor
          · rintro ⟨hcd, hc | hs⟩
            · subst hc
              exact absurd (hf d hcd.symm).symm hd
            · exact ⟨hcd.symm, hs⟩
          · rintro ⟨hcd, hs⟩
            exact ⟨hcd.symm, .inr hs⟩

theorem strncmp_iff_isPrefix {s t : Bytes} (h0 : 0 ∉ t) :
    strncmp s t t.length = true ↔ t <+: s := by
  unfold strncmp
  rw [strncmpWith_iff_isPrefix (f := id) (fun _ hc => hc) h0, List.map_id, List.map_id]

/-- Only letters are changed. -/
theorem eq_of_toupper_eq {c d : UInt8} (h : toupper c = d) (hd : ¬ (0x41 ≤ d ∧ d ≤ 0x5a)) : c = d := by
  unfold toupper at h
  split at h
  · next hletter =>
      subst h
      have hle := UInt8.le_iff_toNat_le.mp hletter.1
      have hge := UInt8.le_iff_toNat_le.mp hletter.2
      have hsub := UInt8.toNat_sub_of_le c 0x20 (UInt8.le_iff_toNat_le.mpr (hle.trans' (by decide)))
      simp only [UInt8.reduceToNat] at hle hge hsub
      refine absurd ⟨UInt8.le_iff_toNat_le.mpr ?_, UInt8.le_iff_toNat_le.mpr ?_⟩ hd
      all_goals
        simp only [UInt8.reduceToNat]
        omega
  · exact h

theorem toupper_eq_zero (c : UInt8) (h : toupper c = toupper 0) : c = 0 := eq_of_toupper_eq h (by decide)

theorem strncasecmp_iff_isPrefix {s t : Bytes} (h0 : 0 ∉ t) :
    strncasecmp s t t.length = true ↔ t.map toupper <+: s.map toupper :=
  strncmpWith_iff_isPrefix toupper_eq_zero h0

/-! ## numbers -/

def isdigit (c : UInt8) : Bool := 0x30 ≤ c && c ≤ 0x39

def isspace (c : UInt8) : Bool := c == 0x20 || (0x09 ≤ c && c ≤ 0x0d)

/-- The value of the longest run of digits, after the accumulator `acc`. -/
def digits (acc : Nat) : Bytes → Nat
  | [] => acc
  | c :: s => if isdigit c then digits (acc * 10 + (c.toNat - 0x30)) s else acc

/-- `strtol` in base 10 (and `atol`): leading white space, an optional sign
and the digits, clamped to the range of `long`. -/
def strtol (s : Bytes) : Int :=
  match s.dropWhile isspace with
  | [] => 0
  | c :: t =>
      if c = 0x2d then max (-2 ^ 63) (-(digits 0 t : Int))
      else if c = 0x2b then min (2 ^ 63 - 1) (digits 0 t : Int)
      else min (2 ^ 63 - 1) (digits 0 (c :: t) : Int)

/-- The digits of a number end at the first byte that is none. -/
theorem digits_append {ds t : Bytes} (hds : ∀ c ∈ ds, isdigit c = true)
    (ht : ∀ c ∈ t.head?, isdigit c = false) (acc : Nat) :
    digits acc (ds ++ t) = digits acc ds := by
  induction ds generalizing acc with
  | nil =>
      cases t with
      | nil => rfl
      | cons c t => simp [digits, ht c rfl]
  | cons d ds ih =>
      have hd := hds d List.mem_cons_self
      simp only [List.cons_append, digits, hd, if_true]
      exact ih (fun c hc => hds c (List.mem_cons_of_mem d hc)) _

theorem isspace_eq_false_of_isdigit {c : UInt8} (h : isdigit c = true) : isspace c = false := by
  unfold isdigit at h
  unfold isspace
  simp only [Bool.and_eq_true, decide_eq_true_eq, UInt8.le_iff_toNat_le] at h
  simp only [Bool.or_eq_false_iff, Bool.and_eq_false_iff, beq_eq_false_iff_ne, ne_eq,
    decide_eq_false_iff_not, UInt8.le_iff_toNat_le, ← UInt8.toNat_inj]
  simp only [UInt8.reduceToNat] at h ⊢
  omega

/-- What stands at the start of a text that `strtol` takes for `n`: white space, a sign or none,
and digits up to a byte that is none.  Without a digit the number is zero. -/
def SpellsInt (text : Bytes) (n : Int) : Prop :=
  ∃ blanks sign number rest, text = blanks ++ (sign ++ (number ++ rest)) ∧
    (∀ c ∈ blanks, isspace c = true) ∧ (∀ c ∈ number, isdigit c = true) ∧ (∀ c ∈ rest.head?, isdigit c = false) ∧
    (sign = [] → number = [] → ∀ c ∈ rest.head?, isspace c = false ∧ c ≠ 0x2d ∧ c ≠ 0x2b) ∧
    ((sign = [0x2d] ∧ n = max (-2 ^ 63) (-(digits 0 number : Int))) ∨
      ((sign = [] ∨ sign = [0x2b]) ∧ n = min (2 ^ 63 - 1) (digits 0 number : Int)))

theorem head?_dropWhile_eq_false {p : UInt8 → Bool} {s : Bytes} : ∀ c ∈ (s.dropWhile p).head?, p c = false := by
  intro c hc
  have hnot := @List.head?_dropWhile_not _ p s
  rw [Option.mem_def.mp hc] at hnot
  exact hnot

/-- A text spells what `strtol` makes of it. -/
theorem spellsInt_strtol (text : Bytes) : SpellsInt text (strtol text) := by
  have hblanks : ∀ c ∈ text.takeWhile isspace, isspace c = true := fun c hc => List.mem_takeWhile_imp hc
  have htext := @List.takeWhile_append_dropWhile _ isspace text
  have hstart := @head?_dropWhile_eq_false isspace text
  have hdigits : ∀ t : Bytes, digits 0 t = digits 0 (t.takeWhile isdigit) := by
    intro t
    have happend := @digits_append (t.takeWhile isdigit) (t.dropWhile isdigit)
      (fun c hc => List.mem_takeWhile_imp hc) head?_dropWhile_eq_false 0
    rwa [List.takeWhile_append_dropWhile] at happend
  -- the number of a text from its digits on
  have hnumber : ∀ (sign t : Bytes) (n : Int), text.dropWhile isspace = sign ++ t →
      (sign = [] → t.takeWhile isdigit = [] →
        ∀ c ∈ (t.dropWhile isdigit).head?, isspace c = false ∧ c ≠ 0x2d ∧ c ≠ 0x2b) →
      ((sign = [0x2d] ∧ n = max (-2 ^ 63) (-(digits 0 t : Int))) ∨
        ((sign = [] ∨ sign = [0x2b]) ∧ n = min (2 ^ 63 - 1) (digits 0 t : Int))) → SpellsInt text n := by
    intro sign t n hdrop hends hvalue
    refine ⟨_, sign, t.takeWhile isdigit, t.dropWhile isdigit, ?_, hblanks, fun c hc => List.mem_takeWhile_imp hc,
      head?_dropWhile_eq_false, hends, by rwa [← hdigits]⟩
    rw [List.takeWhile_append_dropWhile, ← hdrop, htext]
  unfold strtol
  cases hdrop : text.dropWhile isspace with
  | nil =>
      refine hnumber [] [] 0 hdrop ?_ (.inr ⟨.inl rfl, rfl⟩)
      simp
  | cons c t =>
      rw [hdrop] at hstart
      simp only
      by_cases hminus : c = 0x2d
      · subst hminus
        exact hnumber [0x2d] t _ hdrop (by simp) (.inl ⟨rfl, if_pos rfl⟩)
      · rw [if_neg hminus]
        by_cases hplus : c = 0x2b
        · subst hplus
          exact hnumber [0x2b] t _ hdrop (by simp) (.inr ⟨.inr rfl, if_pos rfl⟩)
        · rw [if_neg hplus]
          refine hnumber [] (c :: t) _ hdrop (fun _ hnone d hd => ?_) (.inr ⟨.inl rfl, rfl⟩)
          have hc : isdigit c = false := by
            by_contra hdigit
            rw [List.takeWhile_cons_of_pos (by simpa using hdigit)] at hnone
            contradiction
          rw [List.dropWhile_cons_of_neg (by simp [hc])] at hd
          obtain rfl := Option.some.inj hd
          exact ⟨hstart c rfl, hminus, hplus⟩

/-- And nothing else. -/
theorem SpellsInt.strtol_eq {text : Bytes} {n : Int} (h : SpellsInt text n) : strtol text = n := by
  obtain ⟨blanks, sign, number, rest, rfl, hblanks, hdigits, hends, hstart, hvalue⟩ := h
  have hnumber : digits 0 (number ++ rest) = digits 0 number := digits_append hdigits hends 0
  unfold strtol
  rw [List.dropWhile_append_of_pos hblanks]
  obtain ⟨rfl, rfl⟩ | ⟨rfl | rfl, rfl⟩ := hvalue
  · rw [List.cons_append, List.nil_append, List.dropWhile_cons_of_neg (by decide)]
    simp [hnumber]
  · -- the first byte, if there is one, is neither a space nor a sign
    rw [List.nil_append]
    have hfirst : ∀ c ∈ (number ++ rest).head?, isspace c = false ∧ c ≠ 0x2d ∧ c ≠ 0x2b := by
      cases number with
      | nil => exact hstart rfl rfl
      | cons d number =>
          intro c hc
          obtain rfl := Option.some.inj hc
          have hd := hdigits d List.mem_cons_self
          refine ⟨isspace_eq_false_of_isdigit hd, ?_, ?_⟩
          all_goals
            rintro rfl
            contradiction
    rw [← hnumber]
    cases htext : number ++ rest with
    | nil => rfl
    | cons c t =>
        rw [htext] at hfirst
        obtain ⟨hspace, hminus, hplus⟩ := hfirst c rfl
        rw [List.dropWhile_cons_of_neg (by simp [hspace])]
        simp only [if_neg hminus, if_neg hplus]
  · rw [List.cons_append, List.nil_append, List.dropWhile_cons_of_neg (by decide)]
    simp [hnumber]

/-- **What `strtol` reads** is what the text spells. -/
theorem strtol_eq_iff {text : Bytes} {n : Int} : strtol text = n ↔ SpellsInt text n :=
  ⟨fun h => h ▸ spellsInt_strtol text, SpellsInt.strtol_eq⟩

/-- White space, then a number. -/
theorem strtol_number {blanks ds t : Bytes} (hblanks : ∀ c ∈ blanks, isspace c = true)
    (hds : ∀ c ∈ ds, isdigit c = true) (hne : ds ≠ []) (ht : ∀ c ∈ t.head?, isdigit c = false)
    (hsmall : digits 0 ds < 2 ^ 63) : strtol (blanks ++ (ds ++ t)) = digits 0 ds := by
  obtain ⟨d, ds', rfl⟩ := List.exists_cons_of_ne_nil hne
  have hd := hds d List.mem_cons_self
  have hnospace := isspace_eq_false_of_isdigit hd
  have hsign : d ≠ 0x2d ∧ d ≠ 0x2b := by
    constructor
    all_goals
      rintro rfl
      contradiction
  unfold strtol
  rw [List.dropWhile_append_of_pos (fun c hc => hblanks c hc), List.cons_append,
    List.dropWhile_cons_of_neg (by rw [hnospace]; exact Bool.false_ne_true)]
  simp only [if_neg hsign.1, if_neg hsign.2]
  rw [← List.cons_append, digits_append hds ht]
  omega

/-- Digits are a number below the power of ten. -/
theorem digits_lt {ds : Bytes} (hds : ∀ c ∈ ds, isdigit c = true) (acc : Nat) :
    digits acc ds < (acc + 1) * 10 ^ ds.length := by
  induction ds generalizing acc with
  | nil => simp [digits]
  | cons d ds ih =>
      have hd := hds d List.mem_cons_self
      have hvalue : d.toNat - 0x30 ≤ 9 := by
        unfold isdigit at hd
        simp only [Bool.and_eq_true, decide_eq_true_eq, UInt8.le_iff_toNat_le, UInt8.reduceToNat] at hd
        omega
      have hrest := ih (fun c hc => hds c (List.mem_cons_of_mem d hc)) (acc * 10 + (d.toNat - 0x30))
      simp only [digits, hd, if_true, List.length_cons]
      calc digits (acc * 10 + (d.toNat - 0x30)) ds
          < (acc * 10 + (d.toNat - 0x30) + 1) * 10 ^ ds.length := hrest
        _ ≤ (acc + 1) * 10 * 10 ^ ds.length := Nat.mul_le_mul_right _ (by omega)
        _ = (acc + 1) * 10 ^ (ds.length + 1) := by ring

/-- A few digits are read as they are. -/
theorem strtol_digits {ds : Bytes} (hds : ∀ c ∈ ds, isdigit c = true) (hlen : ds.length ≤ 5) :
    strtol ds = digits 0 ds := by
  cases ds with
  | nil => rfl
  | cons d ds =>
      have hsmall : digits 0 (d :: ds) < 2 ^ 63 := by
        have hlt := digits_lt hds 0
        have hpow : 10 ^ (d :: ds).length ≤ 10 ^ 5 := Nat.pow_le_pow_right (by omega) hlen
        omega
      have hnumber := @strtol_number [] (d :: ds) [] (by simp) hds (List.cons_ne_nil d ds) (by simp) hsmall
      rwa [List.append_nil, List.nil_append] at hnumber

/-! ## where a needle is found -/

/-- A string without NUL bytes denotes itself. -/
theorem cstr_eq_self {s : Bytes} (h : 0 ∉ s) : cstr s = s := by
  unfold cstr
  rw [List.takeWhile_eq_self_iff]
  intro c hc
  simp only [ne_eq, decide_eq_true_eq]
  rintro rfl
  exact h hc

/-- A string without NUL bytes is a part of what it starts. -/
theorem cstr_append {s t : Bytes} (h : 0 ∉ s) : cstr (s ++ t) = s ++ cstr t := by
  unfold cstr
  rw [List.takeWhile_append_of_pos]
  intro c hc
  simp only [ne_eq, decide_eq_true_eq]
  rintro rfl
  exact h hc

theorem zero_notMem_cstr (s : Bytes) : 0 ∉ cstr s := by
  intro h
  have := List.mem_takeWhile_imp h
  simp at this

theorem cstr_cstr (s : Bytes) : cstr (cstr s) = cstr s := cstr_eq_self (zero_notMem_cstr s)

theorem strcasecmp_comm (s t : Bytes) : strcasecmp s t = strcasecmp t s := Bool.beq_comm

theorem strcasecmp_of_cstr {s t : Bytes} (h : cstr s = cstr t) : strcasecmp s t = true := by
  rw [strcasecmp, h]
  exact beq_self_eq_true _

/-- Strings that are equal to one, ignoring case, are equal to each other. -/
theorem strcasecmp_trans {s t u : Bytes} (h : strcasecmp s t = true) (h' : strcasecmp s u = true) :
    strcasecmp t u = true := by
  rw [strcasecmp, beq_iff_eq] at h h' ⊢
  exact h.symm.trans h'

theorem cstr_length_le (s : Bytes) : (cstr s).length ≤ s.length :=
  (List.takeWhile_prefix _).length_le

/-- A found needle lies at the position reported. -/
theorem findSub_sound {needle s : Bytes} {p : Nat} (h : findSub needle s = some p) :
    needle <+: s.drop p := by
  induction s generalizing p with
  | nil =>
      unfold findSub at h
      split at h
      · next hn => subst hn; exact List.nil_prefix
      · contradiction
  | cons c s ih =>
      unfold findSub at h
      split at h
      · next hp =>
          have : p = 0 := (Option.some.inj h).symm
          subst this
          exact List.isPrefixOf_iff_prefix.mp hp
      · obtain ⟨q, hq, rfl⟩ := Option.map_eq_some_iff.mp h
        exact ih hq

/-- The reported position is the first: no earlier one matches. -/
theorem findSub_least {needle s : Bytes} {p q : Nat} (h : findSub needle s = some p)
    (hq : q < p) : ¬ needle <+: s.drop q := by
  induction s generalizing p q with
  | nil =>
      unfold findSub at h
      split at h
      · have : p = 0 := (Option.some.inj h).symm
        omega
      · contradiction
  | cons c s ih =>
      unfold findSub at h
      split at h
      · have : p = 0 := (Option.some.inj h).symm
        omega
      · next hnp =>
          obtain ⟨p', hp', rfl⟩ := Option.map_eq_some_iff.mp h
          cases q with
          | zero => exact fun hpre => hnp (List.isPrefixOf_iff_prefix.mpr hpre)
          | succ q => exact ih hp' (by omega)

/-- A needle that occurs is found. -/
theorem findSub_of_prefix_drop {needle s : Bytes} {q : Nat} (h : needle <+: s.drop q)
    (hq : q ≤ s.length) : ∃ p, findSub needle s = some p ∧ p ≤ q := by
  induction s generalizing q with
  | nil =>
      have hnil : needle = [] := by simpa using h
      exact ⟨0, by simp [findSub, hnil], by omega⟩
  | cons c s ih =>
      unfold findSub
      split
      · exact ⟨0, rfl, by omega⟩
      · next hnp =>
          cases q with
          | zero => exact absurd (List.isPrefixOf_iff_prefix.mpr h) hnp
          | succ q =>
              obtain ⟨p, hp, hpq⟩ := ih h (by simpa using hq)
              exact ⟨p + 1, by simp [hp], by omega⟩

/-- A match at `p` with none before it is what `findSub` reports. -/
theorem findSub_eq_some {needle s : Bytes} {p : Nat} (h : needle <+: s.drop p)
    (hp : p ≤ s.length) (hmin : ∀ q < p, ¬ needle <+: s.drop q) : findSub needle s = some p := by
  obtain ⟨p', hp', hle⟩ := findSub_of_prefix_drop h hp
  rcases Nat.lt_or_eq_of_le hle with hlt | rfl
  · exact absurd (findSub_sound hp') (hmin p' hlt)
  · exact hp'

theorem isPrefix_drop_of_strstr {s needle : Bytes} {p : Nat} (h : strstr s needle = some p) :
    needle <+: s.drop p := by
  have hpre := findSub_sound h
  exact hpre.trans ((List.takeWhile_prefix _).drop p)

/-- A needle at `q` is found there or before, if at all. -/
theorem strstr_le {s needle : Bytes} {p q : Nat} (h : strstr s needle = some p)
    (hq : needle <+: s.drop q) : p ≤ q := by
  by_contra hlt
  have hend := (findSub_sound h).length_le
  rw [List.length_drop] at hend
  apply findSub_least h (not_le.mp hlt)
  exact List.prefix_of_prefix_length_le hq ((List.takeWhile_prefix _).drop q)
    (by rw [List.length_drop]; omega)

/-- No NUL lies before the end of a match. -/
theorem strstr_no_nul {s needle : Bytes} {p : Nat} (h : strstr s needle = some p)
    (hne : needle ≠ []) : 0 ∉ s.take (p + needle.length) := by
  have hend := (findSub_sound h).length_le
  have hpos := List.length_pos_iff.mpr hne
  rw [List.length_drop] at hend
  have hpre : s.take (p + needle.length) <+: cstr s :=
    List.prefix_of_prefix_length_le (List.take_prefix _ _) (List.takeWhile_prefix _)
      (by rw [List.length_take]; omega)
  exact fun h0 => zero_notMem_cstr s (hpre.subset h0)

/-! ## where a character is found -/

/-- The string is the bytes up to its length. -/
theorem take_strlen (s : Bytes) : s.take (strlen s) = cstr s :=
  List.prefix_iff_eq_take.mp (List.takeWhile_prefix _) |>.symm

theorem strchr_lt {s : Bytes} {c : UInt8} {k : Nat} (h : strchr s c = some k) : k < strlen s :=
  (List.findIdx?_eq_some_iff_getElem.mp h).1

theorem getElem?_cstr {s : Bytes} {k : Nat} (hk : k < strlen s) : (cstr s)[k]? = s[k]? := by
  rw [← take_strlen, List.getElem?_take_of_lt hk]

theorem strchr_getElem? {s : Bytes} {c : UInt8} {k : Nat} (h : strchr s c = some k) :
    s[k]? = some c := by
  obtain ⟨hlt, hc, -⟩ := List.findIdx?_eq_some_iff_getElem.mp h
  rw [← getElem?_cstr hlt, List.getElem?_eq_getElem hlt, beq_iff_eq.mp hc]

/-- A character at `q` is found there or before, if at all. -/
theorem strchr_le {s : Bytes} {c : UInt8} {k q : Nat} (h : strchr s c = some k)
    (hq : s[q]? = some c) : k ≤ q := by
  obtain ⟨hlt, -, hfirst⟩ := List.findIdx?_eq_some_iff_getElem.mp h
  by_contra hnot
  have hqk : q < k := by omega
  have hqlen : q < strlen s := hqk.trans hlt
  rw [← getElem?_cstr hqlen, List.getElem?_eq_getElem hqlen] at hq
  exact hfirst q hqk (beq_iff_eq.mpr (Option.some.inj hq))

theorem memchr_lt {s : Bytes} {c : UInt8} {n k : Nat} (h : memchr s c n = some k) :
    k < s.length := by
  have hlt := (List.findIdx?_eq_some_iff_getElem.mp h).1
  rw [List.length_take] at hlt
  omega

/-- The last occurrence lies in the range searched, and there is one. -/
theorem memrchr_spec {s : Bytes} {c : UInt8} {n k : Nat} (h : memrchr s c n = some k) :
    k < n ∧ c ∈ s.take n := by
  unfold memrchr at h
  obtain ⟨i, hi, rfl⟩ := Option.map_eq_some_iff.mp h
  obtain ⟨hlt, hc, _⟩ := List.findIdx?_eq_some_iff_getElem.mp hi
  have hlen := List.length_take_le n s
  rw [List.length_reverse] at hlt
  refine ⟨by omega, ?_⟩
  have hmem := List.getElem_mem (l := (s.take n).reverse) (by rwa [List.length_reverse])
  rwa [beq_iff_eq.mp hc, List.mem_reverse] at hmem

end Monkey
