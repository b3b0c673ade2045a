import Monkey.Mime.Table

/-!
# Monkey.Mime.Served

When the tables serve the types registered: every search reads entries that exist, and every
name is found with the first type registered for it.

A file of ten entries or less leaves the counter at the number of the common entries, and a
name can have entries of different types, of which any may be found.  What is added later is
only added when it is not found.
-/

namespace Monkey.Mime

open Monkey.Config

/-! ## what is promised -/

/-- `m` is the first type registered for its name. -/
def FirstOf (registered : List Mimetype) (m : Mimetype) : Prop :=
  registered.find? (fun a => a.name == m.name) = some m

/-- The tables serve the types registered: every search reads entries that exist, every name
registered is found with its first type, and `mime_nitem` is the number of entries. -/
structure Serves (bsearch : Mimetype → List Mimetype → Option Mimetype) (t : Mimetypes) (registered : List Mimetype) : Prop where
  reads : ∀ name, ∃ r, mkMimetypeLookup bsearch t name = some r
  types : ∀ m, FirstOf registered m → ∃ item, mkMimetypeLookup bsearch t m.name = some (some item) ∧ item.type = m.type
  count : t.nitem = t.arr.length

/-- The entries for one name agree: the first type of a name is that of the first of the
common entries that are equal to it but for case; where there is none, it is the type of all
the other entries of the name. -/
structure Agree (common rest : List Mimetype) : Prop where
  shadowing : ∀ m, FirstOf (common ++ rest) m → ∀ c,
    common.find? (fun c => strcasecmp m.name c.name) = some c → c.type = m.type
  repeated : ∀ m, FirstOf (common ++ rest) m → common.find? (fun c => strcasecmp m.name c.name) = none →
    ∀ b ∈ rest, b.name = m.name → b.type = m.type

section served

variable {qsort : List Mimetype → List Mimetype} {bsearch : Mimetype → List Mimetype → Option Mimetype}
  {t : Mimetypes} {common rest registered : List Mimetype} {name type : Bytes}

/-! ## entries that agree -/

/-- What is registered has names without a NUL. -/
def Named (registered : List Mimetype) : Prop := ∀ m ∈ registered, cstr m.name = m.name

theorem FirstOf.mem {m : Mimetype} (h : FirstOf registered m) : m ∈ registered := List.mem_of_find?_eq_some h

/-- Without a common entry of the name, in any case, it is one of the others. -/
theorem FirstOf.mem_rest {m : Mimetype} (h : FirstOf (common ++ rest) m)
    (hnone : common.find? (fun c => strcasecmp m.name c.name) = none) : m ∈ rest := by
  obtain hmem | hmem := List.mem_append.mp h.mem
  · have hne := List.find?_eq_none.mp hnone m hmem
    exact absurd (beq_self_eq_true _) hne
  · exact hmem

theorem FirstOf.append {m : Mimetype} (h : FirstOf registered m) (new : List Mimetype) : FirstOf (registered ++ new) m := by
  rw [FirstOf, List.find?_append, h, Option.some_or]

/-- The names are pairwise distinct, ignoring case. -/
def Distinct (registered : List Mimetype) : Prop := registered.Pairwise fun a b => strcasecmp a.name b.name = false

instance (registered : List Mimetype) : Decidable (Distinct registered) :=
  inferInstanceAs (Decidable (List.Pairwise _ _))

theorem Distinct.eq {a b : Mimetype} (h : Distinct registered) (ha : a ∈ registered) (hb : b ∈ registered)
    (hab : strcasecmp a.name b.name = true) : a = b := by
  by_contra hne
  have : Std.Symm fun a b : Mimetype => strcasecmp a.name b.name = false :=
    ⟨fun _ _ h => (strcasecmp_comm _ _).trans h⟩
  have hnot := List.Pairwise.forall h ha hb hne
  rw [hab] at hnot
  contradiction

theorem Agree.of_distinct (h : Distinct (common ++ rest)) : Agree common rest := by
  refine ⟨fun m hm c hc => ?_, fun m hm _ b hb heq => ?_⟩
  · have hmatch := List.find?_some hc
    rw [h.eq hm.mem (List.mem_append_left _ (List.mem_of_find?_eq_some hc)) hmatch]
  · rw [h.eq (List.mem_append_right _ hb) hm.mem (by rw [heq]; exact beq_self_eq_true _)]

/-- A name that is new agrees with all entries. -/
theorem Agree.add (h : Agree common rest)
    (hcommon : common.find? (fun c => strcasecmp name c.name) = none) (hrest : ∀ b ∈ rest, cstr name ≠ cstr b.name) :
    Agree common (rest ++ [newMime name type]) := by
  have hname : common.find? (fun c => strcasecmp (newMime name type).name c.name) = none := by
    simpa only [newMime, strcasecmp, cstr_cstr] using hcommon
  have hother : ∀ b ∈ rest, b.name ≠ (newMime name type).name := by
    intro b hb heq
    exact hrest b hb (by rw [heq, newMime, cstr_cstr])
  have hcases : ∀ m, FirstOf (common ++ (rest ++ [newMime name type])) m →
      FirstOf (common ++ rest) m ∨ m = newMime name type := by
    intro m hm
    rw [FirstOf, ← List.append_assoc, List.find?_append] at hm
    obtain hm | ⟨-, hm⟩ := Option.or_eq_some_iff.mp hm
    · exact .inl hm
    · exact .inr (List.mem_singleton.mp (List.mem_of_find?_eq_some hm))
  refine ⟨fun m hm c hc => ?_, fun m hm hnone b hb heq => ?_⟩
  · obtain hm | rfl := hcases m hm
    · exact h.shadowing m hm c hc
    · rw [hname] at hc
      contradiction
  · obtain hm | rfl := hcases m hm
    · obtain hb | hb := List.mem_append.mp hb
      · exact h.repeated m hm hnone b hb heq
      · obtain rfl := List.mem_singleton.mp hb
        exact absurd heq.symm (hother m (hm.mem_rest hnone))
    · obtain hb | hb := List.mem_append.mp hb
      · exact absurd heq (hother b hb)
      · rw [List.mem_singleton.mp hb]

/-- **A sequence of additions** keeps the tables full and the entries in agreement. -/
theorem Filled.addAll (hq : IsQsort mimeCmp qsort) (hs : IsBsearch mimeCmp bsearch) (h : Filled t common rest)
    (adds : List (Bytes × Bytes)) :
    ∃ t' new, Mime.addAll qsort bsearch t (common ++ rest) adds = some (t', common ++ (rest ++ new)) ∧
      Filled t' common (rest ++ new) ∧ Named new ∧ (Agree common rest → Agree common (rest ++ new)) := by
  induction adds generalizing t rest with
  | nil => exact ⟨t, [], by rw [List.append_nil]; rfl, by rwa [List.append_nil], by simp [Named], by simp⟩
  | cons add adds ih =>
      obtain ⟨name, type⟩ := add
      obtain ⟨added, t', hadd, hfilled, hnone⟩ := h.add bsearch hq name type
      rw [Mime.addAll, hadd]
      cases added with
      | false => exact ih hfilled
      | true =>
          obtain ⟨t'', new, hall, hfilled', hnamed, hagree⟩ := ih hfilled
          refine ⟨t'', newMime name type :: new, ?_, ?_, ?_, fun h' => ?_⟩
          · simpa using hall
          · simpa using hfilled'
          · intro m hm
            obtain rfl | hm := List.mem_cons.mp hm
            · exact cstr_cstr name
            · exact hnamed m hm
          · obtain ⟨hcommon, hrest⟩ := h.lookup_none hs (hnone rfl)
            simpa using hagree (h'.add hcommon hrest)

/-- **Full tables whose entries agree** serve them. -/
theorem Filled.serves (hs : IsBsearch mimeCmp bsearch) (h : Filled t common rest) (hagree : Agree common rest)
    (hnamed : Named (common ++ rest)) : Serves bsearch t (common ++ rest) := by
  refine ⟨fun name => ?_, fun m hm => ?_, h.count⟩
  · obtain ⟨items, -, -, hlookup⟩ := h.lookup bsearch name
    rw [hlookup]
    split
    · exact ⟨_, rfl⟩
    · exact ⟨_, rfl⟩
  · obtain ⟨items, hperm, hsorted, hlookup⟩ := h.lookup bsearch m.name
    rw [hlookup]
    cases hcommon : common.find? fun c => strcasecmp m.name c.name with
    | some c => exact ⟨c, rfl, hagree.shadowing m hm c hcommon⟩
    | none =>
        dsimp only
        cases hfound : bsearch { name := m.name, type := [] } items with
        | none =>
            refine absurd (strcmp_eq.mpr rfl) (hs.missed _ _ hsorted hfound m (hperm.mem_iff.mpr ?_))
            exact hm.mem_rest hcommon
        | some b =>
            obtain ⟨hmem, heq⟩ := hs.found _ _ _ hsorted hfound
            have hb := hperm.mem_iff.mp hmem
            have hname := strcmp_eq.mp heq
            dsimp only at hname
            rw [hnamed m hm.mem, hnamed b (List.mem_append_right _ hb)] at hname
            exact ⟨b, rfl, hagree.repeated m hm hcommon b hb hname.symm⟩

/-! ## every file -/

instance : Std.TransCmp mimeCmp := inferInstanceAs (Std.TransCmp (compareOn fun m : Mimetype => cstr m.name))

variable {cnf : List ConfigSection} {sec : ConfigSection}

/-- A file of more than ten entries is loaded, and added to. -/
theorem Filled.loadAndAdd (hq : IsQsort mimeCmp qsort) (hs : IsBsearch mimeCmp bsearch)
    (hsec : mkConfigSectionGet cnf (ascii "MIMETYPES".toList) = some sec) (hlong : mimeCommon < (sectionMimes sec).length)
    (adds : List (Bytes × Bytes)) :
    ∃ t new, Mime.loadAndAdd qsort bsearch cnf adds =
        some (t, (sectionMimes sec).take mimeCommon ++ ((sectionMimes sec).drop mimeCommon ++ new)) ∧
      Filled t ((sectionMimes sec).take mimeCommon) ((sectionMimes sec).drop mimeCommon ++ new) ∧ Named new ∧
      (Agree ((sectionMimes sec).take mimeCommon) ((sectionMimes sec).drop mimeCommon) →
        Agree ((sectionMimes sec).take mimeCommon) ((sectionMimes sec).drop mimeCommon ++ new)) := by
  obtain ⟨t, hload, hfilled⟩ := Filled.load hq hsec hlong
  obtain ⟨t', new, hall, hrest⟩ := hfilled.addAll hq hs adds
  refine ⟨t', new, ?_, hrest⟩
  rw [Mime.loadAndAdd, hload, Option.bind_some, hsec, Option.map_some, Option.getD_some, ← hall,
    List.take_append_drop]

/-- Tables that serve whatever `qsort` and `bsearch` do where they may are of entries that
agree. -/
theorem agree_of_serves (hsec : mkConfigSectionGet cnf (ascii "MIMETYPES".toList) = some sec)
    (hlong : mimeCommon < (sectionMimes sec).length) {adds : List (Bytes × Bytes)}
    (hall : ∀ qsort bsearch, IsQsort mimeCmp qsort → IsBsearch mimeCmp bsearch →
      ∃ t registered, Mime.loadAndAdd qsort bsearch cnf adds = some (t, registered) ∧ Serves bsearch t registered) :
    Agree ((sectionMimes sec).take mimeCommon) ((sectionMimes sec).drop mimeCommon) := by
  -- what a search finds, when it prefers the elements with `p`
  have hfind : ∀ (p : Mimetype → Bool) m, FirstOf ((sectionMimes sec).take mimeCommon ++ (sectionMimes sec).drop mimeCommon) m →
      ∃ items, (∀ b ∈ (sectionMimes sec).drop mimeCommon, b ∈ items) ∧ ∃ item, item.type = m.type ∧
        (∀ c, ((sectionMimes sec).take mimeCommon).find? (fun c => strcasecmp m.name c.name) = some c → item = c) ∧
        (((sectionMimes sec).take mimeCommon).find? (fun c => strcasecmp m.name c.name) = none →
          preferring mimeCmp p { name := m.name, type := [] } items = some item) := by
    intro p m hm
    obtain ⟨t, registered, heq, hserves⟩ := hall _ _ isQsort_mergeSort (isBsearch_preferring p)
    obtain ⟨t', new, heq', hfilled, -⟩ := Filled.loadAndAdd isQsort_mergeSort (isBsearch_preferring p) hsec hlong adds
    rw [heq'] at heq
    obtain ⟨rfl, rfl⟩ := Prod.mk.inj (Option.some.inj heq)
    obtain ⟨item, hlookup, htype⟩ := hserves.types m (by
      rw [← List.append_assoc]
      exact hm.append new)
    obtain ⟨items, hperm, -, hlookup'⟩ := hfilled.lookup (preferring mimeCmp p) m.name
    rw [hlookup] at hlookup'
    refine ⟨items, fun b hb => hperm.mem_iff.mpr (List.mem_append_left _ hb), item, htype, fun c hcommon => ?_,
      fun hcommon => ?_⟩
    · rw [hcommon] at hlookup'
      exact Option.some.inj (Option.some.inj hlookup')
    · rw [hcommon] at hlookup'
      exact (Option.some.inj hlookup').symm
  refine ⟨fun m hm c hc => ?_, fun m hm hnone b hb heq => ?_⟩
  · obtain ⟨items, -, item, htype, hitem, -⟩ := hfind (fun _ => true) m hm
    rw [← hitem c hc, htype]
  · by_contra hne
    obtain ⟨items, hsub, item, htype, -, hitem⟩ := hfind (fun a => decide (a.type ≠ m.type)) m hm
    obtain ⟨a, ha, hother⟩ := @preferring_eq_some _ mimeCmp (fun a => decide (a.type ≠ m.type))
      { name := m.name, type := [] } b items (hsub b hb) (strcmp_eq.mpr (by rw [heq])) (decide_eq_true hne)
    rw [hitem hnone] at ha
    obtain rfl := Option.some.inj ha
    exact of_decide_eq_true hother htype

/-- With entries missing nothing is added. -/
theorem addAll_missing {l registered registered' : List Mimetype} {t' : Mimetypes} {adds : List (Bytes × Bytes)}
    (hcommon : t.common = l.map some) (hl : l.length < mimeCommon)
    (h : Mime.addAll qsort bsearch t registered adds = some (t', registered')) : t' = t := by
  induction adds with
  | nil => exact (Prod.mk.inj (Option.some.inj h)).1.symm
  | cons add adds ih =>
      obtain ⟨name, type⟩ := add
      rw [Mime.addAll, mklibMimetypeAdd, mkMimetypeLookup, hcommon, lookupCommon_missing hl] at h
      cases hfind : l.find? fun c => strcasecmp name c.name with
      | none =>
          rw [hfind] at h
          contradiction
      | some c =>
          rw [hfind] at h
          exact ih h

/-- A file of at most ten entries is not served: the counter still counts the common
entries, and the search runs past them. -/
theorem not_serves_short (hsec : mkConfigSectionGet cnf (ascii "MIMETYPES".toList) = some sec)
    (hshort : (sectionMimes sec).length ≤ mimeCommon) {adds : List (Bytes × Bytes)} {registered : List Mimetype}
    (h : Mime.loadAndAdd qsort bsearch cnf adds = some (t, registered)) : ¬ Serves bsearch t registered := by
  have hlen : sec.entries.length ≤ mimeCommon := by rwa [sectionMimes, List.length_map] at hshort
  rw [Mime.loadAndAdd, mkMimetypeReadConfig, hsec, Option.bind_some, readEntries_short hlen, mkMimearrSort] at h
  split at h
  case isFalse htwo =>
    -- the array is a null pointer, and entries of it are compared
    dsimp only at htwo
    obtain ⟨n, hn⟩ := Nat.exists_eq_succ_of_ne_zero (Nat.ne_zero_of_lt (Nat.not_lt.mp htwo))
    simp only [hn, readItems, Option.map_none, Option.bind_none] at h
    contradiction
  case isTrue hone =>
    dsimp only at hone
    obtain rfl := @addAll_missing qsort bsearch _ _ _ _ _ _ rfl (by
      rw [List.length_map]
      exact hone.trans (by decide)) h
    intro hserves
    have hcount : sec.entries.length = 0 := hserves.count
    obtain ⟨r, hr⟩ := hserves.reads []
    rw [mkMimetypeLookup, lookupCommon_missing (by
      rw [List.length_map, hcount]
      decide), List.length_eq_zero_iff.mp hcount] at hr
    contradiction

/-- **When the tables serve the types of a file**: it has more than ten entries, and they
agree.  What is added later keeps that. -/
theorem mimetypes_served_iff (hsec : mkConfigSectionGet cnf (ascii "MIMETYPES".toList) = some sec)
    (adds : List (Bytes × Bytes)) :
    (∀ qsort bsearch, IsQsort mimeCmp qsort → IsBsearch mimeCmp bsearch →
      ∃ t registered, Mime.loadAndAdd qsort bsearch cnf adds = some (t, registered) ∧ Serves bsearch t registered) ↔
    mimeCommon < (sectionMimes sec).length ∧
      Agree ((sectionMimes sec).take mimeCommon) ((sectionMimes sec).drop mimeCommon) := by
  constructor
  · intro hall
    have hlong : mimeCommon < (sectionMimes sec).length := by
      by_contra hshort
      obtain ⟨t, registered, heq, hserves⟩ := hall _ _ isQsort_mergeSort (isBsearch_preferring fun _ => true)
      exact not_serves_short hsec (Nat.not_lt.mp hshort) heq hserves
    exact ⟨hlong, agree_of_serves hsec hlong hall⟩
  · rintro ⟨hlong, hagree⟩ qsort bsearch hq hs
    obtain ⟨t, new, heq, hfilled, hnamed, hkeeps⟩ := Filled.loadAndAdd hq hs hsec hlong adds
    refine ⟨t, _, heq, hfilled.serves hs (hkeeps hagree) fun m hm => ?_⟩
    rw [← List.append_assoc, List.take_append_drop] at hm
    obtain hm | hm := List.mem_append.mp hm
    · obtain ⟨e, -, rfl⟩ := List.mem_map.mp hm
      exact cstr_cstr e.key
    · exact hnamed m hm

/-- The entries `a`, `b` and so on, each with its own type. -/
def letterEntries (n : Nat) : List ConfigEntry :=
  (List.range n).map fun i => { key := [UInt8.ofNat (97 + i)], val := [UInt8.ofNat (65 + i)] }

/-- Eleven entries, and two additions, the second of a name that is there. -/
theorem mimetypes_served_eleven : ∃ t registered,
    Mime.loadAndAdd (fun l => l.mergeSort fun a b => (mimeCmp a b).isLE) (preferring mimeCmp fun _ => true)
      [{ name := ascii "MimeTypes".toList, entries := letterEntries 11 }] [([0x7a], [0x5a]), ([0x41], [0x5a])] =
        some (t, registered) ∧ Serves (preferring mimeCmp fun _ => true) t registered :=
  (@mimetypes_served_iff _ { name := ascii "MimeTypes".toList, entries := letterEntries 11 }
    (by decide +kernel) [([0x7a], [0x5a]), ([0x41], [0x5a])]).mpr
    ⟨by decide +kernel, Agree.of_distinct (by decide +kernel)⟩ _ _ isQsort_mergeSort (isBsearch_preferring _)

/-- Two entries: both are common ones, and the other array is sorted as if it had two. -/
theorem not_mimetypes_served_two : ¬ ∃ t registered,
    Mime.loadAndAdd (fun l => l.mergeSort fun a b => (mimeCmp a b).isLE) (preferring mimeCmp fun _ => true)
      [{ name := ascii "MIMETYPES".toList, entries := letterEntries 2 }] [] = some (t, registered) ∧
    Serves (preferring mimeCmp fun _ => true) t registered := by
  rintro ⟨t, registered, h, hserves⟩
  exact @not_serves_short _ _ _ _ { name := ascii "MIMETYPES".toList, entries := letterEntries 2 }
    (by decide +kernel) (by decide +kernel) _ _ h hserves

end served

end Monkey.Mime
