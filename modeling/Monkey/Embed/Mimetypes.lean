import Monkey.Lib.Cells
import Monkey.Mime.Served

/-!
# Monkey.Embed.Mimetypes

The list of MIME types that an embedding program gets (`mklib_mimetype_list`).  It is kept in a static
array, which the next call frees by the number of types there are by then.

Freeing a cell that was never allocated has no result, so what the next call frees must be the cells that
the last one has allocated.
-/

namespace Monkey.Mime

open Monkey.Config

/-! ## the code -/

/-- The tables of types, and `lst` with the cells it points to. -/
structure MimeLib where
  tables : Mimetypes
  lst : Option (List CellPtr) := none
  cells : Cells Mimetype := []

/-- `mklib_mimetype_list`, and the types in the list that it returns. -/
def mklibMimetypeList (s : MimeLib) : Option (MimeLib × List Mimetype) := do
  let total := s.tables.nitem + mimeCommon
  let cells ← match s.lst with
    | some lst => Cells.freeFirst s.cells lst total
    | none => some s.cells
  let common ← readItems s.tables.common mimeCommon
  let arr ← readItems s.tables.arr s.tables.nitem
  let (cells, lst) := Cells.allocAll cells (common ++ arr)
  some ({ s with lst := some lst, cells := cells }, common ++ arr)

/-- What a program calls. -/
inductive MimeCall
  | add (name type : Bytes)
  | list

section code

variable (qsort : List Mimetype → List Mimetype) (bsearch : Mimetype → List Mimetype → Option Mimetype)

/-- A sequence of calls, and the lists that are returned. -/
def mimeCalls (s : MimeLib) : List MimeCall → Option (MimeLib × List (List Mimetype))
  | [] => some (s, [])
  | .add name type :: calls =>
      (mklibMimetypeAdd qsort bsearch s.tables name type).bind fun r => mimeCalls { s with tables := r.2 } calls
  | .list :: calls =>
      (mklibMimetypeList s).bind fun r => (mimeCalls r.1 calls).map fun r' => (r'.1, r.2 :: r'.2)

/-- The tables of a file, and then the calls. -/
def loadAndCall (cnf : List ConfigSection) (calls : List MimeCall) : Option (MimeLib × List (List Mimetype)) :=
  (mkMimetypeReadConfig qsort cnf).bind fun t => mimeCalls qsort bsearch { tables := t } calls

end code

/-! ## what is promised -/

/-- Whether a name is taken: by a common entry in any case, or by another as it is. -/
def taken (common rest : List Mimetype) (name : Bytes) : Bool :=
  common.any (fun c => strcasecmp name c.name) || rest.any fun b => cstr name == cstr b.name

/-- Between two lists no more than one type is added; `fresh` counts those added since the last list, if
there is one. -/
def Paced (common : List Mimetype) : List Mimetype → Option Nat → List MimeCall → Prop
  | _, _, [] => True
  | rest, fresh, .add name type :: calls =>
      if taken common rest name then Paced common rest fresh calls
      else Paced common (rest ++ [newMime name type]) (fresh.map (· + 1)) calls
  | rest, fresh, .list :: calls => (∀ n ∈ fresh, n ≤ 1) ∧ Paced common rest (some 0) calls

/-- The types behind the common ones that are registered at each list. -/
def listed (common : List Mimetype) : List Mimetype → List MimeCall → List (List Mimetype)
  | _, [] => []
  | rest, .add name type :: calls =>
      listed common (if taken common rest name then rest else rest ++ [newMime name type]) calls
  | rest, .list :: calls => rest :: listed common rest calls

/-- A list of the common types and, in order of their names, the others. -/
def Lists (common : List Mimetype) (l rest : List Mimetype) : Prop :=
  ∃ items, l = common ++ items ∧ items.Perm rest ∧ InOrder mimeCmp items

/-- The cells of the last list are the only ones that have not been freed. -/
def MimeLib.Kept (s : MimeLib) (items : List Mimetype) : Prop :=
  match s.lst with
  | some lst => Cells.Owns s.cells lst items
  | none => s.cells = [] ∧ items = []

section lists

variable {qsort : List Mimetype → List Mimetype} {bsearch : Mimetype → List Mimetype → Option Mimetype}
  {s : MimeLib} {t : Mimetypes} {common rest items : List Mimetype} {name type : Bytes} {fresh : Option Nat}

/-- A type is added exactly if its name is not taken. -/
theorem Filled.add_taken (hq : IsQsort mimeCmp qsort) (hs : IsBsearch mimeCmp bsearch) (h : Filled t common rest)
    (name type : Bytes) : ∃ added t', mklibMimetypeAdd qsort bsearch t name type = some (added, t') ∧
      Filled t' common (if taken common rest name then rest else rest ++ [newMime name type]) := by
  obtain ⟨added, t', hadd, hfilled, hnone⟩ := h.add bsearch hq name type
  refine ⟨added, t', hadd, ?_⟩
  cases added with
  | true =>
      obtain ⟨hcommon, hrest⟩ := h.lookup_none hs (hnone rfl)
      have hfree : taken common rest name = false := by
        rw [taken, Bool.or_eq_false_iff, List.any_eq_false, List.any_eq_false]
        exact ⟨List.find?_eq_none.mp hcommon, fun b hb => by simpa using hrest b hb⟩
      rw [hfree]
      exact hfilled
  | false =>
      have htaken : taken common rest name = true := by
        obtain ⟨items, hperm, hsorted, hlookup⟩ := h.lookup bsearch name
        rw [taken, Bool.or_eq_true, List.any_eq_true, List.any_eq_true]
        cases hfind : common.find? fun c => strcasecmp name c.name with
        | some c => exact .inl ⟨c, List.mem_of_find?_eq_some hfind, by simpa using List.find?_some hfind⟩
        | none =>
            rw [hfind] at hlookup
            simp only at hlookup
            cases hsearch : bsearch { name := name, type := [] } items with
            | none =>
                -- a name that is not found is added
                rw [hsearch] at hlookup
                rw [mklibMimetypeAdd, hlookup] at hadd
                simp at hadd
            | some b =>
                obtain ⟨hmem, heq⟩ := hs.found _ _ _ hsorted hsearch
                exact .inr ⟨b, hperm.mem_iff.mp hmem, beq_iff_eq.mpr (strcmp_eq.mp heq)⟩
      rw [htaken]
      exact hfilled

/-- What is read for a list. -/
theorem Filled.reads (h : Filled t common rest) : ∃ items, readItems t.common mimeCommon = some common ∧
    readItems t.arr t.nitem = some items ∧ items.Perm rest ∧ InOrder mimeCmp items := by
  obtain ⟨items, harr, hperm, hsorted⟩ := h.arr
  refine ⟨items, ?_, ?_, hperm, hsorted⟩
  · rw [h.first, ← h.ten, readItems_filled]
  · rw [h.nitem, harr, ← hperm.length_eq, readItems_filled]

/-- How many types have been added since the last list. -/
def MimeLib.Fresh (s : MimeLib) (items : List Mimetype) (fresh : Option Nat) : Prop :=
  s.lst.isSome = fresh.isSome ∧ ∀ n ∈ fresh, items.length + n = mimeCommon + s.tables.nitem

/-- **One list**: it reads the old array inside its bounds exactly if no more than one type has been added. -/
theorem mklibMimetypeList_iff (h : Filled s.tables common rest) (hkept : s.Kept items) (hfresh : s.Fresh items fresh) :
    ((∀ n ∈ fresh, n ≤ 1) → ∃ s' l, mklibMimetypeList s = some (s', l) ∧ s'.tables = s.tables ∧
      Lists common l rest ∧ s'.Kept l ∧ s'.Fresh l (some 0)) ∧
    (¬ (∀ n ∈ fresh, n ≤ 1) → mklibMimetypeList s = none) := by
  obtain ⟨sorted, hcommon, harr, hperm, hsorted⟩ := h.reads
  have htotal : (common ++ sorted).length + 0 = mimeCommon + s.tables.nitem := by
    rw [List.length_append, h.ten, hperm.length_eq, h.nitem, Nat.add_zero]
  have hnew : ∀ k, Cells.Owns (Cells.allocAll (List.replicate k none) (common ++ sorted)).1
      (Cells.allocAll (List.replicate k none) (common ++ sorted)).2 (common ++ sorted) :=
    fun k => Cells.owns_allocAll k _
  obtain ⟨hsome, hcount⟩ := hfresh
  rw [MimeLib.Kept] at hkept
  cases hlst : s.lst with
  | none =>
      rw [hlst] at hkept hsome
      obtain rfl : fresh = none := Option.not_isSome_iff_eq_none.mp (by rw [← hsome]; simp)
      refine ⟨fun _ => ⟨{ s with
          lst := some (Cells.allocAll s.cells (common ++ sorted)).2
          cells := (Cells.allocAll s.cells (common ++ sorted)).1 },
        common ++ sorted, ?_, rfl, ⟨sorted, rfl, hperm, hsorted⟩, ?_, rfl, fun n hn => ?_⟩, fun hmany => ?_⟩
      · simp [mklibMimetypeList, hlst, hcommon, harr]
      · rw [hkept.1]
        exact hnew 0
      · obtain rfl := Option.some.inj hn
        exact htotal
      · exact absurd (by simp) hmany
  | some lst =>
      rw [hlst] at hkept hsome
      obtain ⟨n, rfl⟩ := Option.isSome_iff_exists.mp hsome.symm
      have hn := hcount n rfl
      obtain ⟨k, hcells, rfl⟩ := hkept
      have hfree := @Cells.freeFirst_owned _ k items (s.tables.nitem + mimeCommon) (by omega)
      rw [← hcells] at hfree
      simp only [Option.mem_def, Option.some.injEq, forall_eq']
      constructor
      · intro hone
        rw [if_pos (by omega)] at hfree
        refine ⟨{ s with
            lst := some (Cells.allocAll (List.replicate (k + items.length) none) (common ++ sorted)).2
            cells := (Cells.allocAll (List.replicate (k + items.length) none) (common ++ sorted)).1 },
          common ++ sorted, ?_, rfl, ⟨sorted, rfl, hperm, hsorted⟩, hnew _, rfl, fun n hn => ?_⟩
        · simp [mklibMimetypeList, hlst, hfree, hcommon, harr]
        · obtain rfl := Option.some.inj hn
          exact htotal
      · intro hmany
        rw [if_neg (by omega)] at hfree
        simp [mklibMimetypeList, hlst, hfree]

/-- **A run of calls.** -/
theorem mimeCalls_paced (hq : IsQsort mimeCmp qsort) (hs : IsBsearch mimeCmp bsearch) (h : Filled s.tables common rest)
    (hkept : s.Kept items) (hfresh : s.Fresh items fresh) (calls : List MimeCall) :
    (Paced common rest fresh calls → ∃ s' lists, mimeCalls qsort bsearch s calls = some (s', lists) ∧
      List.Forall₂ (Lists common) lists (listed common rest calls) ∧ s'.Kept (lists.getLast?.getD items)) ∧
    (¬ Paced common rest fresh calls → mimeCalls qsort bsearch s calls = none) := by
  induction calls generalizing s rest items fresh with
  | nil => exact ⟨fun _ => ⟨s, [], rfl, .nil, hkept⟩, fun hp => absurd trivial hp⟩
  | cons call calls ih =>
      cases call with
      | add name type =>
          obtain ⟨added, t', hadd, hfilled⟩ := h.add_taken hq hs name type
          rw [mimeCalls, hadd, Option.bind_some, Paced, listed]
          have hnitem := hfilled.nitem
          by_cases htaken : taken common rest name = true
          · rw [if_pos htaken] at hfilled hnitem ⊢
            rw [if_pos htaken]
            refine ih (s := { s with tables := t' }) hfilled hkept ⟨hfresh.1, fun n hn => ?_⟩
            rw [hfresh.2 n hn, h.nitem, ← hnitem]
          · rw [if_neg htaken] at hfilled hnitem ⊢
            rw [if_neg htaken]
            refine ih (s := { s with tables := t' }) hfilled hkept ⟨?_, fun n hn => ?_⟩
            · rw [Option.isSome_map]
              exact hfresh.1
            · obtain ⟨m, hm, rfl⟩ := Option.map_eq_some_iff.mp hn
              have hcount := hfresh.2 m hm
              rw [h.nitem] at hcount
              rw [List.length_append, List.length_singleton] at hnitem
              simp only [hnitem]
              omega
      | list =>
          obtain ⟨hone, hmany⟩ := mklibMimetypeList_iff h hkept hfresh
          rw [mimeCalls, Paced, listed]
          by_cases hpaced : ∀ n ∈ fresh, n ≤ 1
          · obtain ⟨s', l, hlist, htables, hlists, hkept', hfresh'⟩ := hone hpaced
            obtain ⟨hruns, hfails⟩ := ih (htables ▸ h) hkept' hfresh'
            rw [hlist, Option.bind_some]
            constructor
            · rintro ⟨-, hrest⟩
              obtain ⟨s'', lists, hcalls, hall, hlast⟩ := hruns hrest
              refine ⟨s'', l :: lists, by rw [hcalls]; rfl, .cons hlists hall, ?_⟩
              rw [List.getLast?_cons]
              exact hlast
            · intro hnot
              rw [hfails fun hrest => hnot ⟨hpaced, hrest⟩]
              rfl
          · rw [hmany hpaced]
            exact ⟨fun hp => absurd hp.1 hpaced, fun _ => rfl⟩

/-- **Lists of types**: from a file of more than ten types, no call reads outside an array or frees a cell
twice exactly if no more than one type is added between two lists.  Each list then has the types that are
registered by that time, and only the cells of the last one are left. -/
theorem mimetype_lists_iff (hq : IsQsort mimeCmp qsort) (hs : IsBsearch mimeCmp bsearch) {cnf : List ConfigSection}
    {sec : ConfigSection} (hsec : mkConfigSectionGet cnf (ascii "MIMETYPES".toList) = some sec)
    (hlong : mimeCommon < (sectionMimes sec).length) (calls : List MimeCall) :
    ((loadAndCall qsort bsearch cnf calls).isSome ↔
      Paced ((sectionMimes sec).take mimeCommon) ((sectionMimes sec).drop mimeCommon) none calls) ∧
    ∀ s lists, loadAndCall qsort bsearch cnf calls = some (s, lists) →
      List.Forall₂ (Lists ((sectionMimes sec).take mimeCommon)) lists
        (listed ((sectionMimes sec).take mimeCommon) ((sectionMimes sec).drop mimeCommon) calls) ∧
      s.Kept (lists.getLast?.getD []) := by
  obtain ⟨t, hload, hfilled⟩ := Filled.load hq hsec hlong
  have hempty : MimeLib.Kept { tables := t } [] := ⟨rfl, rfl⟩
  have hfirst : MimeLib.Fresh { tables := t } [] none := ⟨rfl, fun n hn => by cases hn⟩
  obtain ⟨hruns, hfails⟩ := mimeCalls_paced hq hs hfilled hempty hfirst calls
  rw [loadAndCall, hload, Option.bind_some]
  by_cases hpaced : Paced ((sectionMimes sec).take mimeCommon) ((sectionMimes sec).drop mimeCommon) none calls
  · obtain ⟨s', lists', hcalls, hall, hlast⟩ := hruns hpaced
    refine ⟨iff_of_true (by rw [hcalls]; rfl) hpaced, fun s lists hsome => ?_⟩
    obtain ⟨rfl, rfl⟩ := Prod.mk.inj (Option.some.inj (hcalls.symm.trans hsome))
    exact ⟨hall, hlast⟩
  · rw [hfails hpaced]
    exact ⟨iff_of_false (by simp) hpaced, fun s lists hsome => by cases hsome⟩

instance Paced.decidable (common : List Mimetype) : (rest : List Mimetype) → (fresh : Option Nat) →
    (calls : List MimeCall) → Decidable (Paced common rest fresh calls)
  | _, _, [] => .isTrue trivial
  | rest, fresh, .add name type :: calls =>
      haveI := Paced.decidable common rest fresh calls
      haveI := Paced.decidable common (rest ++ [newMime name type]) (fresh.map (· + 1)) calls
      inferInstanceAs (Decidable (if taken common rest name = true then Paced common rest fresh calls
        else Paced common (rest ++ [newMime name type]) (fresh.map (· + 1)) calls))
  | rest, fresh, .list :: calls =>
      haveI := Paced.decidable common rest (some 0) calls
      inferInstanceAs (Decidable ((∀ n ∈ fresh, n ≤ 1) ∧ Paced common rest (some 0) calls))

/-- A type between two lists, and one of a name that is taken. -/
theorem mimetype_lists_eleven : ∃ s lists,
    loadAndCall (fun l => l.mergeSort fun a b => (mimeCmp a b).isLE) (preferring mimeCmp fun _ => true)
      [{ name := ascii "MimeTypes".toList, entries := letterEntries 11 }]
      [.list, .add [0x7a] [0x5a], .add [0x41] [0x5a], .list] = some (s, lists) ∧
    s.Kept (lists.getLast?.getD []) := by
  have h := @mimetype_lists_iff _ _ isQsort_mergeSort (isBsearch_preferring fun _ => true)
    [{ name := ascii "MimeTypes".toList, entries := letterEntries 11 }]
    { name := ascii "MimeTypes".toList, entries := letterEntries 11 } (by decide +kernel) (by decide +kernel)
    [.list, .add [0x7a] [0x5a], .add [0x41] [0x5a], .list]
  obtain ⟨⟨s, lists⟩, hsome⟩ := Option.isSome_iff_exists.mp (h.1.mpr (by decide +kernel))
  exact ⟨s, lists, hsome, (h.2 s lists hsome).2⟩

end lists

end Monkey.Mime
