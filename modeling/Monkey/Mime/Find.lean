import Monkey.Lib.Extent
import Monkey.Mime.Served
import Mathlib.Data.List.GetD

/-!
# Monkey.Mime.Find

The type of a file (`mk_mimetype_find`): the scan for the last `.` of its name, and the
search for what is behind it in tables that list the same types in another order.

The test for the start of the name comes after the read, so a name without a `.` is read one
byte before it starts, and looked up as a whole.  The common entries are compared ignoring
case and the others are not.

The positions read are returned beside the result, so that a read in front of the name can be
seen.  The result is about two files that list the same types in another order: the type of a
file should not depend on it.
-/

namespace Monkey.Mime

open Monkey.Config

/-! ## the code -/

/-- The loop of `mk_mimetype_find` from `j = k - 1` on: where it ends, and the positions
read. -/
def dotLoop (data : Bytes) : Nat → Int × List Int
  | 0 => (-1, [-1])
  | k + 1 =>
      if data.getD k 0 ≠ 0x2e then ((dotLoop data k).1, (k : Int) :: (dotLoop data k).2)
      else (k, [(k : Int)])

section code

variable (bsearch : Mimetype → List Mimetype → Option Mimetype)

/-- `mk_mimetype_find`, of a name with a NUL behind it: the entry, and the positions read in
the loop. -/
def mkMimetypeFind (t : Mimetypes) (filename : Bytes) : Option (Option Mimetype) × List Int :=
  let data := filename ++ [0]
  let (j, reads) := dotLoop data (filename.length + 1)
  (if j = 0 then some none else mkMimetypeLookup bsearch t (data.drop (j + 1).toNat), reads)

/-! ## what is promised -/

/-- What is behind the last `.`. -/
def extension (filename : Bytes) : Bytes := filename.rtakeWhile (· ≠ 0x2e)

/-- Both tables give the name the same type; without a `.` it has none, and is not read before
its first byte. -/
structure SameType (t₁ t₂ : Mimetypes) (filename : Bytes) : Prop where
  same : ∃ r₁ r₂, (mkMimetypeFind bsearch t₁ filename).1 = some r₁ ∧ (mkMimetypeFind bsearch t₂ filename).1 = some r₂ ∧
    r₁.map (·.type) = r₂.map (·.type)
  bare : 0x2e ∉ filename → ∀ t, t = t₁ ∨ t = t₂ →
    (mkMimetypeFind bsearch t filename).1 = some none ∧ ∀ i ∈ (mkMimetypeFind bsearch t filename).2, 0 ≤ i

/-- The orders of two files make no difference to an extension: the entry that is equal to it
but for case is spelt like it, or is a common entry of both files or of none. -/
def Indifferent (mimes₁ mimes₂ : List Mimetype) (ext : Bytes) : Prop :=
  ∀ m ∈ mimes₁, strcasecmp ext m.name = true →
    cstr ext = cstr m.name ∨ (m ∈ mimes₁.take mimeCommon ↔ m ∈ mimes₂.take mimeCommon)

end code

/-! ## the scan -/

/-- Without a `.` the byte before the first is read. -/
theorem dotLoop_bare {data : Bytes} {k : Nat} (h : 0x2e ∉ data.take k) :
    (dotLoop data k).1 = -1 ∧ -1 ∈ (dotLoop data k).2 := by
  induction k with
  | zero => exact ⟨rfl, List.mem_singleton_self _⟩
  | succ k ih =>
      obtain ⟨hj, hreads⟩ := ih fun hmem => h ((List.take_subset_take_left data (Nat.le_succ k)) hmem)
      have hne : data.getD k 0 ≠ 0x2e := by
        intro heq
        by_cases hk : k < data.length
        · rw [List.getD_eq_getElem _ _ hk] at heq
          exact h (heq ▸ List.mem_take_iff_getElem.mpr ⟨k, by omega, rfl⟩)
        · rw [List.getD_eq_default _ _ (Nat.not_lt.mp hk)] at heq
          contradiction
      rw [dotLoop, if_pos hne]
      exact ⟨hj, List.mem_cons_of_mem _ hreads⟩

/-- The scan ends at the last `.`. -/
theorem dotLoop_dot (before after rest : Bytes) (h : 0x2e ∉ after) :
    (dotLoop (before ++ 0x2e :: (after ++ rest)) (before.length + 1 + after.length)).1 = before.length := by
  induction after using List.reverseRecOn generalizing rest with
  | nil =>
      rw [List.length_nil, Nat.add_zero, dotLoop, if_neg (by simp [List.getD])]
  | append_singleton after c ih =>
      have hc : c ≠ 0x2e := fun heq => h (heq ▸ List.mem_append_right _ (List.mem_singleton_self c))
      have hget : (before ++ 0x2e :: (after ++ [c] ++ rest)).getD (before.length + 1 + after.length) 0 = c := by
        have : before ++ 0x2e :: (after ++ [c] ++ rest) = (before ++ 0x2e :: after) ++ c :: rest := by simp
        rw [this, List.getD_append_right _ _ _ _ (by simp; omega)]
        simp [Nat.add_comm, Nat.add_left_comm]
      rw [List.length_append, List.length_singleton, ← Nat.add_assoc, dotLoop, if_pos (by rw [hget]; exact hc)]
      dsimp only
      have hnext := ih (c :: rest) fun hmem => h (List.mem_append_left _ hmem)
      rw [List.append_assoc, List.singleton_append]
      exact hnext

/-- A name with a `.`, taken apart at the last one. -/
theorem split_extension {filename : Bytes} (h : 0x2e ∈ filename) :
    ∃ before, filename = before ++ 0x2e :: extension filename ∧ 0x2e ∉ extension filename := by
  have hne : filename.rdropWhile (· ≠ 0x2e) ≠ [] := by
    intro hnil
    have hall := List.rdropWhile_eq_nil_iff.mp hnil 0x2e h
    simp at hall
  have hlast : (filename.rdropWhile (· ≠ 0x2e)).getLast hne = 0x2e := by
    have hnot := List.rdropWhile_last_not (fun c : UInt8 => decide (c ≠ 0x2e)) filename hne
    simpa using hnot
  refine ⟨(filename.rdropWhile (· ≠ 0x2e)).dropLast, ?_, fun hmem => ?_⟩
  · conv_lhs => rw [← List.rdropWhile_append_rtakeWhile (p := fun c => decide (c ≠ 0x2e)) (l := filename),
      ← List.dropLast_append_getLast hne, hlast, List.append_assoc, List.singleton_append]
    rfl
  · have hnot := List.mem_rtakeWhile_imp hmem
    simp at hnot

section find

variable {qsort : List Mimetype → List Mimetype} {bsearch : Mimetype → List Mimetype → Option Mimetype}
  {t t₁ t₂ : Mimetypes} {common rest : List Mimetype} {filename : Bytes}

/-- Without a `.` the promise is broken by the first read out of the name. -/
theorem not_sameType_bare (h : 0x2e ∉ filename) : ¬ SameType bsearch t₁ t₂ filename := by
  intro hsame
  obtain ⟨-, hreads⟩ := hsame.bare h t₁ (.inl rfl)
  have hbare : 0x2e ∉ (filename ++ [0]).take (filename.length + 1) := by
    intro hmem
    obtain hmem | hmem := List.mem_append.mp (List.mem_of_mem_take hmem)
    · exact h hmem
    · exact absurd (List.mem_singleton.mp hmem) (by decide)
  exact absurd (hreads (-1) (dotLoop_bare hbare).2) (by decide)

/-- A name with a `.` is looked up by what is behind the last one, but for a `.` in front. -/
theorem mkMimetypeFind_dot {before : Bytes} (hname : filename = before ++ 0x2e :: extension filename)
    (hext : 0x2e ∉ extension filename) :
    (mkMimetypeFind bsearch t filename).1 =
      if before = [] then some none else mkMimetypeLookup bsearch t (extension filename ++ [0]) := by
  have hdata : filename ++ [0] = before ++ 0x2e :: (extension filename ++ [0] ++ []) := by
    conv_lhs => rw [hname]
    simp
  have hj := dotLoop_dot before (extension filename ++ [0]) [] (by
    rw [List.mem_append, List.mem_singleton]
    exact fun hmem => hmem.elim hext (by decide))
  have hlen : before.length + 1 + (extension filename ++ [0]).length = filename.length + 1 := by
    conv_rhs => rw [hname]
    simp only [List.length_append, List.length_cons, List.length_nil]
    omega
  rw [← hdata, hlen] at hj
  unfold mkMimetypeFind
  dsimp only
  rw [hj]
  by_cases hnil : before = []
  · rw [if_pos (by rw [hnil]; rfl), if_pos hnil]
  · have hpos := List.length_pos_iff.mpr hnil
    rw [if_neg (by omega), if_neg hnil]
    have hdrop : (filename ++ [0]).drop ((before.length : Int) + 1).toNat = extension filename ++ [0] := by
      have hnat : ((before.length : Int) + 1).toNat = (before ++ [0x2e]).length := by
        rw [List.length_append]
        simp
      have hback : filename ++ [0] = (before ++ [0x2e]) ++ (extension filename ++ [0]) := by
        rw [hdata]
        simp
      rw [hnat, hback, List.drop_left]
    rw [hdrop]

/-! ## what is found -/

/-- What a search for a name finds: a common entry, ignoring case, or another. -/
def Hit (common rest : List Mimetype) (name : Bytes) (m : Mimetype) : Prop :=
  m ∈ common ∧ strcasecmp name m.name = true ∨ m ∈ rest ∧ cstr name = cstr m.name

theorem Hit.strcasecmp {name : Bytes} {m : Mimetype} (h : Hit common rest name m) : strcasecmp name m.name = true :=
  h.elim And.right fun h => strcasecmp_of_cstr h.2

theorem Hit.mem {name : Bytes} {m : Mimetype} (h : Hit common rest name m) : m ∈ common ++ rest :=
  List.mem_append.mpr (h.imp And.left And.left)

/-- **A search** in full tables of distinct names. -/
theorem Filled.lookup_iff (hs : IsBsearch mimeCmp bsearch) (h : Filled t common rest) (hd : Distinct (common ++ rest))
    (name : Bytes) :
    ∃ r, mkMimetypeLookup bsearch t name = some r ∧ ∀ m, r = some m ↔ Hit common rest name m := by
  obtain ⟨items, hperm, hsorted, hlookup⟩ := h.lookup bsearch name
  have heq : ∀ {a b : Mimetype}, Hit common rest name a → Hit common rest name b → a = b := fun ha hb =>
    hd.eq ha.mem hb.mem (strcasecmp_trans ha.strcasecmp hb.strcasecmp)
  have hof : ∀ {r : Option Mimetype}, (∀ a, r = some a → Hit common rest name a) →
      (r = none → ∀ a, ¬ Hit common rest name a) → ∀ m, r = some m ↔ Hit common rest name m := by
    intro r hfound hmissed m
    refine ⟨hfound m, fun hm => ?_⟩
    cases r with
    | none => exact absurd hm (hmissed rfl m)
    | some a => rw [heq (hfound a rfl) hm]
  rw [hlookup]
  cases hcommon : common.find? fun c => Monkey.strcasecmp name c.name with
  | some c =>
      refine ⟨_, rfl, hof (fun a ha => ?_) fun hnone => by contradiction⟩
      obtain rfl := Option.some.inj ha
      have hmatch := List.find?_some hcommon
      exact .inl ⟨List.mem_of_find?_eq_some hcommon, hmatch⟩
  | none =>
      refine ⟨_, rfl, hof (fun a ha => ?_) fun hnone a ha => ?_⟩
      · obtain ⟨hmem, hcmp⟩ := hs.found _ _ _ hsorted ha
        exact .inr ⟨hperm.mem_iff.mp hmem, strcmp_eq.mp hcmp⟩
      · obtain ⟨hmem, hcase⟩ | ⟨hmem, hcstr⟩ := ha
        · exact List.find?_eq_none.mp hcommon a hmem hcase
        · exact hs.missed _ _ hsorted hnone a (hperm.mem_iff.mpr hmem) (strcmp_eq.mpr hcstr)

/-! ## two orders -/

variable {mimes₁ mimes₂ : List Mimetype}

/-- The tables of two files that list the same types. -/
structure Reordered (t₁ t₂ : Mimetypes) (mimes₁ mimes₂ : List Mimetype) : Prop where
  first : Filled t₁ (mimes₁.take mimeCommon) (mimes₁.drop mimeCommon)
  second : Filled t₂ (mimes₂.take mimeCommon) (mimes₂.drop mimeCommon)
  perm : mimes₁.Perm mimes₂
  distinct : Distinct mimes₁

theorem Reordered.symm (h : Reordered t₁ t₂ mimes₁ mimes₂) : Reordered t₂ t₁ mimes₂ mimes₁ :=
  ⟨h.second, h.first, h.perm.symm, h.perm.pairwise h.distinct fun h => (strcasecmp_comm _ _).trans h⟩

/-- What one order finds and the other does not find is spelt otherwise, and common in the
first only. -/
theorem Reordered.hit {name : Bytes} {m : Mimetype} (h : Reordered t₁ t₂ mimes₁ mimes₂)
    (hhit : Hit (mimes₁.take mimeCommon) (mimes₁.drop mimeCommon) name m) :
    Hit (mimes₂.take mimeCommon) (mimes₂.drop mimeCommon) name m ∨
      cstr name ≠ cstr m.name ∧ m ∈ mimes₁.take mimeCommon ∧ m ∉ mimes₂.take mimeCommon := by
  have hmem : m ∈ mimes₂.take mimeCommon ∨ m ∈ mimes₂.drop mimeCommon := by
    rw [← List.mem_append, List.take_append_drop]
    refine h.perm.mem_iff.mp ?_
    rw [← List.take_append_drop mimeCommon mimes₁]
    exact hhit.mem
  by_cases hspelt : cstr name = cstr m.name
  · exact .inl (hmem.imp (fun hcommon => ⟨hcommon, hhit.strcasecmp⟩) fun hrest => ⟨hrest, hspelt⟩)
  · by_cases hcommon : m ∈ mimes₂.take mimeCommon
    · exact .inl (.inl ⟨hcommon, hhit.strcasecmp⟩)
    · exact .inr ⟨hspelt, hhit.elim And.left fun hrest => absurd hrest.2 hspelt, hcommon⟩

/-- Such an entry is found in the one order, and nothing in the other. -/
theorem Reordered.not_hit {name : Bytes} {m : Mimetype} (h : Reordered t₁ t₂ mimes₁ mimes₂)
    (hcase : strcasecmp name m.name = true) (hspelt : cstr name ≠ cstr m.name)
    (hcommon : m ∈ mimes₁.take mimeCommon) (hnot : m ∉ mimes₂.take mimeCommon) :
    Hit (mimes₁.take mimeCommon) (mimes₁.drop mimeCommon) name m ∧
      ∀ m', ¬ Hit (mimes₂.take mimeCommon) (mimes₂.drop mimeCommon) name m' := by
  refine ⟨.inl ⟨hcommon, hcase⟩, fun m' hm' => ?_⟩
  have hmem := hm'.mem
  rw [List.take_append_drop] at hmem
  obtain rfl := h.distinct.eq (List.mem_of_mem_take hcommon) (h.perm.mem_iff.mpr hmem)
    (strcasecmp_trans hcase hm'.strcasecmp)
  exact hm'.elim (fun hcommon' => hnot hcommon'.1) fun hrest => hspelt hrest.2

/-- **One search in two orders** gives one type exactly when the orders make no difference. -/
theorem Reordered.same_iff (hs : IsBsearch mimeCmp bsearch) (h : Reordered t₁ t₂ mimes₁ mimes₂) (name : Bytes) :
    (∃ r₁ r₂, mkMimetypeLookup bsearch t₁ name = some r₁ ∧ mkMimetypeLookup bsearch t₂ name = some r₂ ∧
      r₁.map (·.type) = r₂.map (·.type)) ↔ Indifferent mimes₁ mimes₂ name := by
  obtain ⟨r₁, hlookup₁, hr₁⟩ := h.first.lookup_iff hs (by rw [List.take_append_drop]; exact h.distinct) name
  obtain ⟨r₂, hlookup₂, hr₂⟩ := h.second.lookup_iff hs (by rw [List.take_append_drop]; exact h.symm.distinct) name
  rw [hlookup₁, hlookup₂]
  constructor
  · rintro ⟨_, _, ⟨⟩, ⟨⟩, htype⟩ m hm hcase
    by_contra hnot
    obtain ⟨hspelt, hsides⟩ := not_or.mp hnot
    by_cases hcommon : m ∈ mimes₁.take mimeCommon
    · obtain ⟨hhit, hnone⟩ := h.not_hit hcase hspelt hcommon fun h' => hsides ⟨fun _ => h', fun _ => hcommon⟩
      rw [(hr₁ m).mpr hhit, Option.eq_none_iff_forall_ne_some.mpr fun m' hm' => hnone m' ((hr₂ m').mp hm')] at htype
      contradiction
    · have hcommon' : m ∈ mimes₂.take mimeCommon := by
        by_contra hneither
        exact hsides ⟨fun h' => absurd h' hcommon, fun h' => absurd h' hneither⟩
      obtain ⟨hhit, hnone⟩ := h.symm.not_hit hcase hspelt hcommon' hcommon
      rw [(hr₂ m).mpr hhit, Option.eq_none_iff_forall_ne_some.mpr fun m' hm' => hnone m' ((hr₁ m').mp hm')] at htype
      contradiction
  · intro hind
    refine ⟨r₁, r₂, rfl, rfl, congrArg _ (Option.ext fun m => ?_)⟩
    rw [hr₁, hr₂]
    constructor
    · intro hhit
      obtain hhit' | ⟨hspelt, hcommon, hnot⟩ := h.hit hhit
      · exact hhit'
      · have hsides := (hind m (List.mem_of_mem_take hcommon) hhit.strcasecmp).resolve_left hspelt
        exact absurd (hsides.mp hcommon) hnot
    · intro hhit
      obtain hhit' | ⟨hspelt, hcommon, hnot⟩ := h.symm.hit hhit
      · exact hhit'
      · have hmem := h.perm.mem_iff.mpr (List.mem_of_mem_take hcommon)
        have hsides := (hind m hmem hhit.strcasecmp).resolve_left hspelt
        exact absurd (hsides.mpr hcommon) hnot

/-- **When the order of a file makes no difference** to a file name: the name has a `.`, and
what is behind the last one is spelt like its entry, or the entry is common in both orders or
in none; nothing is looked up when that `.` is the first byte. -/
theorem sameType_iff {cnf₁ cnf₂ : List ConfigSection} {sec₁ sec₂ : ConfigSection}
    (hq : IsQsort mimeCmp qsort) (hs : IsBsearch mimeCmp bsearch)
    (hsec₁ : mkConfigSectionGet cnf₁ (ascii "MIMETYPES".toList) = some sec₁)
    (hsec₂ : mkConfigSectionGet cnf₂ (ascii "MIMETYPES".toList) = some sec₂)
    (hlong : mimeCommon < (sectionMimes sec₁).length) (hperm : (sectionMimes sec₁).Perm (sectionMimes sec₂))
    (hd : Distinct (sectionMimes sec₁)) (filename : Bytes) :
    (∃ t₁ t₂, mkMimetypeReadConfig qsort cnf₁ = some t₁ ∧ mkMimetypeReadConfig qsort cnf₂ = some t₂ ∧
      SameType bsearch t₁ t₂ filename) ↔
    0x2e ∈ filename ∧ (filename = 0x2e :: extension filename ∨
      Indifferent (sectionMimes sec₁) (sectionMimes sec₂) (extension filename)) := by
  obtain ⟨t₁, hload₁, hfilled₁⟩ := Filled.load hq hsec₁ hlong
  obtain ⟨t₂, hload₂, hfilled₂⟩ := Filled.load hq hsec₂ (by rwa [← hperm.length_eq])
  have hreordered : Reordered t₁ t₂ (sectionMimes sec₁) (sectionMimes sec₂) := ⟨hfilled₁, hfilled₂, hperm, hd⟩
  have htables : (∃ t₁ t₂, mkMimetypeReadConfig qsort cnf₁ = some t₁ ∧ mkMimetypeReadConfig qsort cnf₂ = some t₂ ∧
      SameType bsearch t₁ t₂ filename) ↔ SameType bsearch t₁ t₂ filename := by
    rw [hload₁, hload₂]
    exact ⟨by rintro ⟨_, _, ⟨⟩, ⟨⟩, h⟩; exact h, fun h => ⟨t₁, t₂, rfl, rfl, h⟩⟩
  rw [htables]
  by_cases hdot : 0x2e ∈ filename
  case neg => exact ⟨fun h => absurd h (not_sameType_bare hdot), fun h => absurd h.1 hdot⟩
  case pos =>
    obtain ⟨before, hname, hext⟩ := split_extension hdot
    have hsame : SameType bsearch t₁ t₂ filename ↔
        ∃ r₁ r₂, (mkMimetypeFind bsearch t₁ filename).1 = some r₁ ∧ (mkMimetypeFind bsearch t₂ filename).1 = some r₂ ∧
          r₁.map (·.type) = r₂.map (·.type) :=
      ⟨fun h => h.same, fun h => ⟨h, fun hbare => absurd hdot hbare⟩⟩
    have hfirst : filename = 0x2e :: extension filename ↔ before = [] := by
      constructor
      · intro h
        have hlen := congrArg List.length (hname.symm.trans h)
        rw [List.length_append] at hlen
        exact List.length_eq_zero_iff.mp (by omega)
      · intro hnil
        rwa [hnil] at hname
    rw [hsame, mkMimetypeFind_dot hname hext, mkMimetypeFind_dot hname hext, hfirst]
    by_cases hnil : before = []
    · simp [hnil, hdot]
    · simp only [hnil, hdot, if_false, true_and, false_or]
      have hind : Indifferent (sectionMimes sec₁) (sectionMimes sec₂) (extension filename ++ [0]) ↔
          Indifferent (sectionMimes sec₁) (sectionMimes sec₂) (extension filename) := by
        simp only [Indifferent, strcasecmp, cstr_append_nul]
      rw [← hind]
      exact hreordered.same_iff hs _

/-- `x.a` under eleven entries and under the same in reverse. -/
theorem sameType_reversed : ∃ t₁ t₂,
    mkMimetypeReadConfig (fun l => l.mergeSort fun a b => (mimeCmp a b).isLE)
      [{ name := ascii "MIMETYPES".toList, entries := letterEntries 11 }] = some t₁ ∧
    mkMimetypeReadConfig (fun l => l.mergeSort fun a b => (mimeCmp a b).isLE)
      [{ name := ascii "MIMETYPES".toList, entries := (letterEntries 11).reverse }] = some t₂ ∧
    SameType (preferring mimeCmp fun _ => true) t₁ t₂ (ascii "x.a".toList) :=
  (@sameType_iff _ _ _ _ { name := ascii "MIMETYPES".toList, entries := letterEntries 11 }
    { name := ascii "MIMETYPES".toList, entries := (letterEntries 11).reverse }
    isQsort_mergeSort (isBsearch_preferring _) (by decide +kernel) (by decide +kernel) (by decide +kernel)
    (by decide +kernel) (by decide +kernel) (ascii "x.a".toList)).mpr
    ⟨by decide +kernel, .inr (by unfold Indifferent; decide +kernel)⟩

/-- A path without a `.` is read one byte before it starts. -/
theorem not_sameType_bare_name : ¬ ∃ t₁ t₂,
    mkMimetypeReadConfig (fun l => l.mergeSort fun a b => (mimeCmp a b).isLE)
      [{ name := ascii "MIMETYPES".toList, entries := letterEntries 11 }] = some t₁ ∧
    mkMimetypeReadConfig (fun l => l.mergeSort fun a b => (mimeCmp a b).isLE)
      [{ name := ascii "MIMETYPES".toList, entries := (letterEntries 11).reverse }] = some t₂ ∧
    SameType (preferring mimeCmp fun _ => true) t₁ t₂ (ascii "/srv/README".toList) := by
  rintro ⟨t₁, t₂, -, -, hsame⟩
  exact not_sameType_bare (by decide) hsame

end find

end Monkey.Mime
