import Monkey.Config.Hosts
import Monkey.Lib.Bsearch

/-!
# Monkey.Mime.Table

The tables of MIME types (`mk_mimetype.c`): the first ten entries of the file are searched
one by one, the rest is sorted and searched by `bsearch`.  One counter serves both arrays
while they are loaded.

A function has no result where it reads an entry that does not exist.  The order that
`qsort` gives to equal names and the one of them that `bsearch` returns are not specified,
so both are parameters.

A name is a string, and so is the type, which is kept with the CRLF that ends the header field.
The array is one entry longer after each addition, and its old entries are kept by `realloc`.
-/

namespace Monkey.Mime

open Monkey.Config

/-! ## the code -/

/-- `struct mimetype`. -/
structure Mimetype where
  name : Bytes
  type : Bytes
deriving DecidableEq, Repr

/-- `MIME_COMMON`. -/
def mimeCommon : Nat := 10

/-- An array on the heap; `none` is an entry that was allocated and not written. -/
abbrev MimeArray := List (Option Mimetype)

/-- The globals: `mimecommon`, `mimearr` and `mime_nitem`.  A null pointer is an array
without entries. -/
structure Mimetypes where
  common : MimeArray := []
  arr : MimeArray := []
  nitem : Nat := 0
deriving DecidableEq, Repr

/-- `strcmp`: by bytes, and the end of a string comes first. -/
def strcmp (s t : Bytes) : Ordering := compare (cstr s) (cstr t)

/-- `mime_cmp`. -/
def mimeCmp (m1 m2 : Mimetype) : Ordering := strcmp m1.name m2.name

/-- `add_mime`: the array gets `nitem + 1` entries, and the last is written. -/
def addMime (nitem : Nat) (item : Mimetype) (m : MimeArray) : MimeArray :=
  if nitem = 0 then [some item]
  else (m.take (nitem + 1) ++ List.replicate (nitem + 1 - m.length) none).set nitem (some item)

/-- The item of a name and a type, as `mk_mimetype_add` makes it. -/
def newMime (name type : Bytes) : Mimetype := { name := cstr name, type := cstr type ++ mkCrlf }

/-- `mk_mimetype_add`. -/
def mkMimetypeAdd (t : Mimetypes) (name type : Bytes) (common : Bool) : Mimetypes :=
  if common then { t with common := addMime t.nitem (newMime name type) t.common, nitem := t.nitem + 1 }
  else { t with arr := addMime t.nitem (newMime name type) t.arr, nitem := t.nitem + 1 }

/-- The loop over the entries of the section, from entry `i` on. -/
def readEntries (t : Mimetypes) (i : Nat) : List ConfigEntry → Mimetypes
  | [] => t
  | entry :: entries =>
      if i < mimeCommon then readEntries (mkMimetypeAdd t entry.key entry.val true) (i + 1) entries
      else
        let t := if i = mimeCommon then { t with nitem := 0 } else t
        readEntries (mkMimetypeAdd t entry.key entry.val false) (i + 1) entries

/-- The first `n` entries of an array, all of which are read. -/
def readItems : MimeArray → Nat → Option (List Mimetype)
  | _, 0 => some []
  | some item :: m, n + 1 => (readItems m n).map (item :: ·)
  | _, _ + 1 => none

section code

variable (qsort : List Mimetype → List Mimetype) (bsearch : Mimetype → List Mimetype → Option Mimetype)

/-- `mk_mimearr_sort`: nothing is read of less than two entries. -/
def mkMimearrSort (t : Mimetypes) : Option Mimetypes :=
  if t.nitem < 2 then some t
  else (readItems t.arr t.nitem).map fun items => { t with arr := (qsort items).map some ++ t.arr.drop t.nitem }

/-- `mk_mimetype_read_config`: there is no result without the section, where it exits. -/
def mkMimetypeReadConfig (cnf : List ConfigSection) : Option Mimetypes :=
  (mkConfigSectionGet cnf (ascii "MIMETYPES".toList)).bind fun sec =>
    mkMimearrSort qsort (readEntries {} 0 sec.entries)

/-- The search for one of the `n` common entries that are left. -/
def lookupCommon (name : Bytes) : MimeArray → Nat → Option (Option Mimetype)
  | _, 0 => some none
  | some item :: m, n + 1 => if strcasecmp name item.name then some (some item) else lookupCommon name m n
  | _, _ + 1 => none

/-- `mk_mimetype_lookup`. -/
def mkMimetypeLookup (t : Mimetypes) (name : Bytes) : Option (Option Mimetype) :=
  match lookupCommon name t.common mimeCommon with
  | some none => (readItems t.arr t.nitem).map (bsearch { name := name, type := [] })
  | r => r

/-- `mklib_mimetype_add`, and whether it returned `MKLIB_TRUE`. -/
def mklibMimetypeAdd (t : Mimetypes) (name type : Bytes) : Option (Bool × Mimetypes) :=
  match mkMimetypeLookup bsearch t name with
  | none => none
  | some (some _) => some (false, t)
  | some none => (mkMimearrSort qsort (mkMimetypeAdd t name type false)).map (true, ·)

/-- A sequence of `mklib_mimetype_add` calls, and the types registered. -/
def addAll (t : Mimetypes) (registered : List Mimetype) : List (Bytes × Bytes) → Option (Mimetypes × List Mimetype)
  | [] => some (t, registered)
  | (name, type) :: adds =>
      match mklibMimetypeAdd qsort bsearch t name type with
      | none => none
      | some (added, t) => addAll t (if added then registered ++ [newMime name type] else registered) adds

/-- The types of a section, in the order of the file. -/
def sectionMimes (sec : ConfigSection) : List Mimetype := sec.entries.map fun e => newMime e.key e.val

/-- The tables loaded from a file and extended, and the types registered. -/
def loadAndAdd (cnf : List ConfigSection) (adds : List (Bytes × Bytes)) : Option (Mimetypes × List Mimetype) :=
  (mkMimetypeReadConfig qsort cnf).bind fun t =>
    addAll qsort bsearch t (((mkConfigSectionGet cnf (ascii "MIMETYPES".toList)).map sectionMimes).getD []) adds

/-! ## arrays -/

theorem addMime_filled (l : List Mimetype) (item : Mimetype) :
    addMime l.length item (l.map some) = (l ++ [item]).map some := by
  unfold addMime
  split
  · next h => simp [List.length_eq_zero_iff.mp h]
  · rw [List.take_of_length_le (by simp), List.length_map, Nat.add_sub_cancel_left]
    simp

theorem readItems_filled (l : List Mimetype) : readItems (l.map some) l.length = some l := by
  induction l with
  | nil => rfl
  | cons item l ih => simp [readItems, ih]

theorem lookupCommon_filled (name : Bytes) (l : List Mimetype) :
    lookupCommon name (l.map some) l.length = some (l.find? fun c => strcasecmp name c.name) := by
  induction l with
  | nil => rfl
  | cons item l ih =>
      rw [List.map_cons, List.length_cons, lookupCommon, List.find?_cons, ih]
      split
      · next h => rw [h]
      · next h => rw [Bool.not_eq_true _ |>.mp h]

/-- With entries missing the search ends at a match, or reads one of them. -/
theorem lookupCommon_missing {name : Bytes} {l : List Mimetype} {n : Nat} (h : l.length < n) :
    lookupCommon name (l.map some) n = (l.find? fun c => strcasecmp name c.name).map some := by
  induction l generalizing n with
  | nil =>
      obtain ⟨n, rfl⟩ := Nat.exists_eq_succ_of_ne_zero (Nat.ne_zero_of_lt h)
      rfl
  | cons item l ih =>
      obtain ⟨n, rfl⟩ := Nat.exists_eq_succ_of_ne_zero (Nat.ne_zero_of_lt h)
      rw [List.map_cons, lookupCommon, List.find?_cons, ih (Nat.lt_of_succ_lt_succ h)]
      split
      · next h => rw [h, Option.map_some]
      · next h => rw [Bool.not_eq_true _ |>.mp h]

/-! ## loading -/

theorem readEntries_append (t : Mimetypes) (i : Nat) (es es' : List ConfigEntry) :
    readEntries t i (es ++ es') = readEntries (readEntries t i es) (i + es.length) es' := by
  induction es generalizing t i with
  | nil => rfl
  | cons e es ih =>
      rw [List.cons_append, readEntries, readEntries, List.length_cons, ← Nat.add_assoc, Nat.add_right_comm]
      split
      · exact ih _ _
      · exact ih _ _

theorem mkMimetypeAdd_rest (common : MimeArray) (l : List Mimetype) (name type : Bytes) :
    mkMimetypeAdd { common := common, arr := l.map some, nitem := l.length } name type false =
      { common := common, arr := (l ++ [newMime name type]).map some, nitem := (l ++ [newMime name type]).length } := by
  rw [mkMimetypeAdd, if_neg (by decide), addMime_filled, List.length_append]
  rfl

/-- The first entries are counted where they are. -/
theorem readEntries_common (l : List Mimetype) (es : List ConfigEntry) (h : l.length + es.length ≤ mimeCommon) :
    readEntries { common := l.map some, nitem := l.length } l.length es =
      { common := (l ++ es.map fun e => newMime e.key e.val).map some, nitem := l.length + es.length } := by
  induction es generalizing l with
  | nil => simp [readEntries]
  | cons e es ih =>
      rw [List.length_cons] at h
      have hnext := ih (l ++ [newMime e.key e.val]) (by
        rw [List.length_append, List.length_singleton]
        omega)
      rw [List.length_append, List.length_singleton] at hnext
      rw [readEntries, if_pos (by omega), mkMimetypeAdd, if_pos rfl, addMime_filled, hnext]
      simp [Nat.add_comm, Nat.add_left_comm]

/-- The entries behind them go to the other array. -/
theorem readEntries_rest {i : Nat} (hi : mimeCommon < i) (common : MimeArray) (l : List Mimetype) (es : List ConfigEntry) :
    readEntries { common := common, arr := l.map some, nitem := l.length } i es =
      { common := common, arr := (l ++ es.map fun e => newMime e.key e.val).map some, nitem := l.length + es.length } := by
  induction es generalizing i l with
  | nil => simp [readEntries]
  | cons e es ih =>
      rw [readEntries, if_neg (by omega), if_neg (by omega)]
      dsimp only
      rw [mkMimetypeAdd_rest, ih (by omega)]
      simp [Nat.add_comm, Nat.add_left_comm]

/-- A file of at most ten entries. -/
theorem readEntries_short {es : List ConfigEntry} (h : es.length ≤ mimeCommon) :
    readEntries {} 0 es = { common := (es.map fun e => newMime e.key e.val).map some, nitem := es.length } := by
  have hall := readEntries_common [] es (by simpa using h)
  simpa using hall

/-- **A file of more than ten entries**: the counter starts again with the eleventh. -/
theorem readEntries_long {es : List ConfigEntry} (h : mimeCommon < es.length) :
    readEntries {} 0 es =
      { common := ((es.map fun e => newMime e.key e.val).take mimeCommon).map some
        arr := ((es.map fun e => newMime e.key e.val).drop mimeCommon).map some
        nitem := es.length - mimeCommon } := by
  have htake : (es.take mimeCommon).length = mimeCommon := List.length_take_of_le h.le
  obtain ⟨e, rest, hdrop⟩ := List.exists_cons_of_ne_nil (l := es.drop mimeCommon) (by
    intro hnil
    have := List.drop_eq_nil_iff.mp hnil
    omega)
  have hlen : es.length - mimeCommon = rest.length + 1 := by
    rw [← List.length_drop, hdrop, List.length_cons]
  have hfirst := readEntries_short htake.le
  have hnext := readEntries_rest (Nat.lt_succ_self mimeCommon)
    (((es.take mimeCommon).map fun e => newMime e.key e.val).map some) [newMime e.key e.val] rest
  rw [← List.map_take, ← List.map_drop, hdrop, hlen]
  conv_lhs => rw [← List.take_append_drop mimeCommon es, hdrop]
  rw [readEntries_append, hfirst, htake, Nat.zero_add, readEntries, if_neg (lt_irrefl _), if_pos rfl]
  refine Eq.trans ?_ (hnext.trans ?_)
  · rfl
  · simp [Nat.add_comm]

/-! ## full tables -/

/-- Both arrays are full: the ten common entries, and the rest in order. -/
structure Filled (t : Mimetypes) (common rest : List Mimetype) : Prop where
  first : t.common = common.map some
  arr : ∃ items, t.arr = items.map some ∧ items.Perm rest ∧ InOrder mimeCmp items
  nitem : t.nitem = rest.length
  ten : common.length = mimeCommon

theorem strcmp_eq {s t : Bytes} : strcmp s t = .eq ↔ cstr s = cstr t := Std.compare_eq_iff_eq

variable {qsort bsearch} {t : Mimetypes} {common rest registered : List Mimetype} {name type : Bytes}

theorem Filled.count (h : Filled t common rest) : t.nitem = t.arr.length := by
  obtain ⟨items, harr, hperm, -⟩ := h.arr
  rw [h.nitem, harr, List.length_map, hperm.length_eq]

theorem Filled.sort {items : List Mimetype} (hq : IsQsort mimeCmp qsort) (hcommon : t.common = common.map some)
    (harr : t.arr = items.map some) (hnitem : t.nitem = items.length) (hperm : items.Perm rest)
    (hten : common.length = mimeCommon) :
    ∃ t', mkMimearrSort qsort t = some t' ∧ Filled t' common rest := by
  unfold mkMimearrSort
  split
  · exact ⟨t, rfl, hcommon, ⟨items, harr, hperm, InOrder.of_length_le_one (by omega)⟩, by rw [hnitem, hperm.length_eq],
      hten⟩
  · rw [hnitem, harr, readItems_filled, List.drop_eq_nil_of_le (by simp), Option.map_some, List.append_nil]
    exact ⟨_, rfl, hcommon, ⟨qsort items, rfl, (hq.perm items).trans hperm, hq.inOrder items⟩, hperm.length_eq, hten⟩

/-- **Loading** a file of more than ten entries fills the tables. -/
theorem Filled.load {cnf : List ConfigSection} {sec : ConfigSection} (hq : IsQsort mimeCmp qsort)
    (hsec : mkConfigSectionGet cnf (ascii "MIMETYPES".toList) = some sec) (hlong : mimeCommon < (sectionMimes sec).length) :
    ∃ t, mkMimetypeReadConfig qsort cnf = some t ∧
      Filled t ((sectionMimes sec).take mimeCommon) ((sectionMimes sec).drop mimeCommon) := by
  have hlen : mimeCommon < sec.entries.length := by rwa [sectionMimes, List.length_map] at hlong
  rw [mkMimetypeReadConfig, hsec, Option.bind_some, readEntries_long hlen]
  refine Filled.sort hq rfl rfl ?_ (List.Perm.refl _) (List.length_take_of_le hlong.le)
  rw [List.length_drop, List.length_map]

/-- **A search**: the common entries first, then the others. -/
theorem Filled.lookup (bsearch : Mimetype → List Mimetype → Option Mimetype) (h : Filled t common rest) (name : Bytes) :
    ∃ items, items.Perm rest ∧ InOrder mimeCmp items ∧
      mkMimetypeLookup bsearch t name =
        match common.find? fun c => strcasecmp name c.name with
        | some c => some (some c)
        | none => some (bsearch { name := name, type := [] } items) := by
  obtain ⟨items, harr, hperm, hsorted⟩ := h.arr
  refine ⟨items, hperm, hsorted, ?_⟩
  rw [mkMimetypeLookup, h.first, ← h.ten, lookupCommon_filled]
  cases common.find? fun c => strcasecmp name c.name with
  | some c => rfl
  | none =>
      dsimp only
      rw [h.nitem, harr, ← hperm.length_eq, readItems_filled]
      rfl

/-- A name that is not found is neither of a common entry, in any case, nor of another. -/
theorem Filled.lookup_none (hs : IsBsearch mimeCmp bsearch) (h : Filled t common rest)
    (hnone : mkMimetypeLookup bsearch t name = some none) :
    common.find? (fun c => strcasecmp name c.name) = none ∧ ∀ b ∈ rest, cstr name ≠ cstr b.name := by
  obtain ⟨items, hperm, hsorted, hlookup⟩ := h.lookup bsearch name
  rw [hnone] at hlookup
  split at hlookup
  · simp at hlookup
  · next hcommon =>
      refine ⟨hcommon, fun b hb heq => ?_⟩
      exact hs.missed _ _ hsorted (Option.some.inj hlookup).symm b (hperm.mem_iff.mpr hb) (strcmp_eq.mpr heq)

/-- **An addition** goes to the other entries, and is not made of a name that is found. -/
theorem Filled.add (bsearch : Mimetype → List Mimetype → Option Mimetype) (hq : IsQsort mimeCmp qsort)
    (h : Filled t common rest) (name type : Bytes) :
    ∃ added t', mklibMimetypeAdd qsort bsearch t name type = some (added, t') ∧
      Filled t' common (if added then rest ++ [newMime name type] else rest) ∧
      (added = true → mkMimetypeLookup bsearch t name = some none) := by
  obtain ⟨items, harr, hperm, -⟩ := h.arr
  have hsome : ∃ r, mkMimetypeLookup bsearch t name = some r := by
    obtain ⟨items, -, -, hlookup⟩ := h.lookup bsearch name
    rw [hlookup]
    split
    · exact ⟨_, rfl⟩
    · exact ⟨_, rfl⟩
  obtain ⟨r, hr⟩ := hsome
  rw [mklibMimetypeAdd, hr]
  cases r with
  | some item => exact ⟨false, t, rfl, h, fun hf => by contradiction⟩
  | none =>
      have hadd : mkMimetypeAdd t name type false =
          { common := t.common, arr := (items ++ [newMime name type]).map some
            nitem := (items ++ [newMime name type]).length } := by
        have ht : t = { common := t.common, arr := items.map some, nitem := items.length } := by
          rw [← harr, hperm.length_eq, ← h.nitem]
        rw [ht]
        exact mkMimetypeAdd_rest ..
      obtain ⟨t', hsort, hfilled⟩ := @Filled.sort qsort (mkMimetypeAdd t name type false) common
        (rest ++ [newMime name type]) (items ++ [newMime name type]) hq (by rw [hadd]; exact h.first)
        (by rw [hadd]) (by rw [hadd]) (hperm.append_right _) h.ten
      exact ⟨true, t', by dsimp only; rw [hsort]; rfl, hfilled, fun _ => rfl⟩

end code

end Monkey.Mime
