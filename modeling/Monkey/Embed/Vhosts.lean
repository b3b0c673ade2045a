import Monkey.Config.Hosts
import Monkey.Lib.Block
import Monkey.Lib.Cells

/-!
# Monkey.Embed.Vhosts

The virtual hosts that an embedding program configures (`mklib_vhost_config`), and the list of them that
it gets (`mklib_vhost_list`): a text of the names of each host, which are first gathered in an array of
fifty on the stack.

The names of a host are words, which the server compares with the `Host` header; the program gets them as
one text, each with a blank behind it.  The list is right when it says for every request which host
serves it.
-/

namespace Monkey.Config

/-! ## the code -/

/-- A `struct host` and its name, which is kept in the field for its file. -/
structure VHost where
  file : Bytes
  host : Host
deriving DecidableEq, Repr

/-- The pairs of `mklib_vhost_config`; an item that is not known is warned about. -/
inductive VhostItem
  | serverName (s : Bytes)
  | documentRoot (s : Bytes)
  | unknown

/-- `struct mklib_vhost`, with the block of its names. -/
structure VhostEntry where
  name : Bytes
  documentRoot : Bytes
  serverNames : Bytes
deriving DecidableEq, Repr

/-- The hosts, and `lst` with the cells it points to; an entry and the block of its names are one cell. -/
structure VhostLib where
  hosts : List VHost
  lst : Option (List CellPtr) := none
  cells : Cells VhostEntry := []

def defaultName : Bytes := ascii "default".toList
def devNull : Bytes := ascii "/dev/null".toList

/-- The host that `mklib_init` configures. -/
def mklibInitHost (listenAddr : Bytes) (documentroot : Option Bytes) : VHost where
  file := defaultName
  host := {
    serverNames := [cstr listenAddr]
    documentroot := documentroot.elim devNull cstr
    hostSignature := ascii "libmonkey".toList }

/-- `mklib_host_find`. -/
def mklibHostFind (hosts : List VHost) (name : Bytes) : Option VHost := hosts.find? fun h => cstr name == cstr h.file

/-- One item of `mklib_vhost_config`. -/
def applyItem (h : Host) : VhostItem → Host
  | .serverName s => { h with serverNames := h.serverNames ++ loadNames (mkStringSplitLine s) }
  | .documentRoot s => { h with documentroot := cstr s }
  | .unknown => h

/-- `mklib_vhost_config`, and whether it returned `MKLIB_TRUE`. -/
def mklibVhostConfig (hosts : List VHost) (name : Bytes) (items : List VhostItem) : Bool × List VHost :=
  match mklibHostFind hosts name, mklibHostFind hosts defaultName with
  | none, some defaulth =>
      let h := items.foldl applyItem { documentroot := devNull }
      (true, hosts ++ [⟨cstr name, { h with hostSignature := defaulth.host.hostSignature }⟩])
  | _, _ => (false, hosts)

/-- `names[50]`. -/
def maxNames : Nat := 50

/-- `strcat`. -/
def strcat (block s : Bytes) : Option Bytes := writeAt block (strlen block) (cstr s ++ [0])

/-- The names of a host in one block, each with a blank behind it. -/
def serverNamesBlock (aliases : List Bytes) : Option Bytes :=
  if aliases.length > maxNames then none
  else
    let totalLen := 1 + (aliases.map fun a => a.length + 1).sum
    aliases.foldlM (fun block a => (strcat block a).bind fun block => strcat block [0x20]) (List.replicate totalLen 0)

/-- An entry of the list. -/
def vhostEntry (h : VHost) : Option VhostEntry :=
  (serverNamesBlock h.host.serverNames).map fun block => ⟨h.file, h.host.documentroot, block⟩

/-- `mklib_vhost_list`, and the entries of the list that it returns. -/
def mklibVhostList (s : VhostLib) : Option (VhostLib × List VhostEntry) := do
  let cells ← match s.lst with
    | some lst => Cells.freeToNull s.cells lst
    | none => some s.cells
  let entries ← s.hosts.mapM vhostEntry
  let (cells, lst) := Cells.allocAll cells entries
  some ({ s with lst := some lst, cells := cells }, entries)

/-- What a program calls. -/
inductive VhostCall
  | config (name : Bytes) (items : List VhostItem)
  | list

/-- A sequence of calls, and the lists that are returned. -/
def vhostCalls (s : VhostLib) : List VhostCall → Option (VhostLib × List (List VhostEntry))
  | [] => some (s, [])
  | .config name items :: calls => vhostCalls { s with hosts := (mklibVhostConfig s.hosts name items).2 } calls
  | .list :: calls =>
      (mklibVhostList s).bind fun r => (vhostCalls r.1 calls).map fun r' => (r'.1, r.2 :: r'.2)

/-! ## the block of names -/

/-- A name of a host: a word. -/
def IsHostName (name : Bytes) : Prop := name ≠ [] ∧ 0x20 ∉ name ∧ 0 ∉ name

instance (name : Bytes) : Decidable (IsHostName name) := inferInstanceAs (Decidable (_ ∧ _))

/-- The names, each with a blank behind it. -/
def nameText (aliases : List Bytes) : Bytes := aliases.flatMap (· ++ [0x20])

/-- A string at the end of the text in a block of NULs. -/
theorem strcat_zeros {text s : Bytes} (htext : 0 ∉ text) (hs : 0 ∉ s) {n : Nat} (hn : s.length < n) :
    strcat (text ++ List.replicate n 0) s = some (text ++ s ++ List.replicate (n - s.length) 0) := by
  obtain ⟨n, rfl⟩ := Nat.exists_eq_add_of_lt hn
  have hlen : strlen (text ++ List.replicate (s.length + n + 1) 0) = text.length := by
    rw [strlen, List.replicate_succ, cstr_append_nul, cstr_eq_self htext]
  have hzeros : List.replicate (s.length + n + 1) (0 : UInt8) =
      List.replicate (s ++ [0]).length 0 ++ List.replicate n 0 := by
    rw [List.replicate_append_replicate, List.length_append, List.length_singleton]
    congr 1
    omega
  rw [strcat, hlen, cstr_eq_self hs, hzeros, ← List.append_assoc, writeAt_middle _ _ _ (by simp)]
  have hrest : s.length + n + 1 - s.length = n + 1 := by omega
  rw [hrest, List.replicate_succ, List.append_assoc, List.append_assoc, List.append_assoc]
  rfl

theorem zero_notMem_nameText {aliases : List Bytes} (h : ∀ a ∈ aliases, IsHostName a) : 0 ∉ nameText aliases := by
  intro hmem
  obtain ⟨a, ha, hmem⟩ := List.mem_flatMap.mp hmem
  rcases List.mem_append.mp hmem with hmem | hmem
  · exact (h a ha).2.2 hmem
  · exact absurd (List.mem_singleton.mp hmem) (by decide)

/-- The loop over the names. -/
theorem foldlM_strcat {aliases : List Bytes} (h : ∀ a ∈ aliases, IsHostName a) {text : Bytes} (htext : 0 ∉ text)
    {n : Nat} (hn : (aliases.map fun a => a.length + 1).sum < n) :
    aliases.foldlM (fun block a => (strcat block a).bind fun block => strcat block [0x20])
        (text ++ List.replicate n 0) =
      some (text ++ nameText aliases ++ List.replicate (n - (aliases.map fun a => a.length + 1).sum) 0) := by
  induction aliases generalizing text n with
  | nil => simp [nameText]
  | cons a aliases ih =>
      have ha := h a List.mem_cons_self
      rw [List.map_cons, List.sum_cons] at hn
      have hblank : 0 ∉ text ++ a := by
        rw [List.mem_append]
        exact not_or.mpr ⟨htext, ha.2.2⟩
      have hfull : 0 ∉ text ++ a ++ [0x20] := by
        rw [List.mem_append]
        exact not_or.mpr ⟨hblank, by decide⟩
      rw [List.foldlM_cons, strcat_zeros htext ha.2.2 (by omega), Option.bind_some,
        strcat_zeros hblank (by decide) (by simp; omega)]
      have hih := ih (fun a ha => h a (List.mem_cons_of_mem _ ha)) hfull (n := n - a.length - 1) (by omega)
      rw [show n - a.length - [(0x20 : UInt8)].length = n - a.length - 1 from rfl]
      rw [Option.bind_eq_bind, Option.bind_some, hih, List.map_cons, List.sum_cons]
      congr 1
      simp only [nameText, List.flatMap_cons, List.append_assoc, List.cons_append, List.nil_append]
      congr 5
      omega

/-- **The block of names** is filled up to its last byte, for no more than fifty names. -/
theorem serverNamesBlock_eq {aliases : List Bytes} (h : ∀ a ∈ aliases, IsHostName a) :
    serverNamesBlock aliases = if aliases.length ≤ maxNames then some (nameText aliases ++ [0]) else none := by
  rw [serverNamesBlock]
  by_cases hmany : aliases.length > maxNames
  · rw [if_pos hmany, if_neg (by omega)]
  · rw [if_neg hmany, if_pos (by omega)]
    have hloop := @foldlM_strcat aliases h [] List.not_mem_nil
      (1 + (aliases.map fun a => a.length + 1).sum) (by omega)
    rw [List.nil_append, List.nil_append, Nat.add_sub_cancel] at hloop
    exact hloop

/-- The names are the words of their text. -/
theorem mkStringSplitLine_nameText {aliases : List Bytes} (h : ∀ a ∈ aliases, IsHostName a) :
    mkStringSplitLine (nameText aliases ++ [0]) = aliases := by
  rw [mkStringSplitLine_eq, cstr_append_nul, cstr_eq_self (zero_notMem_nameText h)]
  induction aliases with
  | nil => rfl
  | cons a aliases ih =>
      obtain ⟨hne, hblank, -⟩ := h a List.mem_cons_self
      rw [nameText, List.flatMap_cons, List.append_assoc, List.singleton_append,
        List.splitOn_append_cons_self_of_not_mem hblank, List.filter_cons_of_pos (by simpa using hne)]
      exact congrArg (a :: ·) (ih fun a ha => h a (List.mem_cons_of_mem _ ha))

/-! ## the hosts -/

/-- Between two separators there is none. -/
theorem notMem_of_mem_splitOn {s w : Bytes} {c : UInt8} (hw : w ∈ s.splitOn c) : c ∉ w := by
  induction s generalizing w with
  | nil =>
      rw [List.splitOn_nil, List.mem_singleton] at hw
      rw [hw]
      exact List.not_mem_nil
  | cons d s ih =>
      rw [List.splitOn_cons_eq_if_modifyHead] at hw
      split at hw
      · rcases List.mem_cons.mp hw with rfl | hw
        · exact List.not_mem_nil
        · exact ih hw
      · next hne =>
          obtain ⟨v, vs, hsplit⟩ := List.exists_cons_of_ne_nil (List.splitOn_ne_nil c s)
          rw [hsplit, List.modifyHead_cons] at hw
          rw [hsplit] at ih
          rcases List.mem_cons.mp hw with rfl | hw
          · rw [List.mem_cons, not_or]
            exact ⟨fun h => hne (by simp [h]), ih List.mem_cons_self⟩
          · exact ih (List.mem_cons_of_mem _ hw)

theorem eq_blank_of_tolower {c : UInt8} (h : tolower c = 0x20) : c = 0x20 := by
  have hall : ∀ n < 256, tolower (UInt8.ofNat n) = 0x20 → UInt8.ofNat n = 0x20 := by decide +kernel
  have hc := hall c.toNat c.toNat_lt
  rw [UInt8.ofNat_toNat] at hc
  exact hc h

/-- What is loaded from a line is words. -/
theorem isHostName_of_mem_loadNames {line name : Bytes} (h : name ∈ loadNames (mkStringSplitLine line)) :
    IsHostName name := by
  obtain ⟨val, hval, rfl⟩ := List.mem_map.mp h
  have hword := List.mem_of_mem_filter hval
  rw [mkStringSplitLine_eq, List.mem_filter] at hword
  obtain ⟨hsplit, hne⟩ := hword
  have hblank := notMem_of_mem_splitOn hsplit
  have h0 : 0 ∉ val := fun h0 => zero_notMem_cstr line (mem_of_mem_splitOn hsplit h0)
  rw [mkStringTolower, cstr_eq_self h0, List.take_of_length_le (by simp)]
  refine ⟨by simpa using hne, fun hmem => ?_, fun hmem => ?_⟩
  · obtain ⟨c, hc, hlow⟩ := List.mem_map.mp hmem
    exact hblank (eq_blank_of_tolower hlow ▸ hc)
  · obtain ⟨c, hc, hlow⟩ := List.mem_map.mp hmem
    exact h0 (eq_zero_of_tolower hlow ▸ hc)

/-- The names of a host are words. -/
def NamedByWords (h : Host) : Prop := ∀ name ∈ h.serverNames, IsHostName name

theorem NamedByWords.applyItem {h : Host} (hh : NamedByWords h) (item : VhostItem) :
    NamedByWords (applyItem h item) := by
  intro name hname
  cases item with
  | serverName s =>
      rcases List.mem_append.mp hname with hname | hname
      · exact hh name hname
      · exact isHostName_of_mem_loadNames hname
  | documentRoot s => exact hh name hname
  | unknown => exact hh name hname

theorem NamedByWords.foldl {h : Host} (hh : NamedByWords h) (items : List VhostItem) :
    NamedByWords (items.foldl Config.applyItem h) := by
  induction items generalizing h with
  | nil => exact hh
  | cons item items ih => exact ih (hh.applyItem item)

/-- What holds of the hosts at any time: the first is the one of `mklib_init`, and no name is that of two
hosts. -/
structure VhostsOk (hosts : List VHost) : Prop where
  words : ∀ h ∈ hosts, NamedByWords h.host
  first : (hosts.map (·.file)).head? = some defaultName
  files : (hosts.map (·.file)).Nodup

theorem VhostsOk.init {listenAddr : Bytes} (h : IsHostName (cstr listenAddr)) (documentroot : Option Bytes) :
    VhostsOk [mklibInitHost listenAddr documentroot] := by
  refine ⟨fun h' hmem name hname => ?_, rfl, List.nodup_singleton _⟩
  rw [List.mem_singleton.mp hmem] at hname
  rw [List.mem_singleton.mp hname]
  exact h

theorem VhostsOk.config {hosts : List VHost} (h : VhostsOk hosts) (name : Bytes) (items : List VhostItem) :
    VhostsOk (mklibVhostConfig hosts name items).2 := by
  rw [mklibVhostConfig]
  split
  · next defaulth hnew hdefault =>
      refine ⟨fun h' hmem => ?_, ?_, ?_⟩
      · rcases List.mem_append.mp hmem with hmem | hmem
        · exact h.words h' hmem
        · rw [List.mem_singleton.mp hmem]
          exact NamedByWords.foldl (fun name hname => absurd hname List.not_mem_nil) items
      · rw [List.map_append, List.head?_append, h.first]
        rfl
      · rw [List.map_append, List.map_singleton]
        refine h.files.append (List.nodup_singleton _) (List.disjoint_singleton.mpr fun hmem => ?_)
        obtain ⟨h', hmem, hfile⟩ := List.mem_map.mp hmem
        have hother := List.find?_eq_none.mp hnew h' hmem
        rw [hfile, cstr_cstr] at hother
        exact hother (beq_self_eq_true _)
  · exact h

/-! ## the lists -/

/-- The hosts that there are at each list. -/
def hostsListed : List VHost → List VhostCall → List (List VHost)
  | _, [] => []
  | hosts, .config name items :: calls => hostsListed (mklibVhostConfig hosts name items).2 calls
  | hosts, .list :: calls => hosts :: hostsListed hosts calls

/-- No host has more than fifty names. -/
def FewNames (hosts : List VHost) : Prop := ∀ h ∈ hosts, h.host.serverNames.length ≤ maxNames

instance (hosts : List VHost) : Decidable (FewNames hosts) := inferInstanceAs (Decidable (∀ h ∈ hosts, _))

/-- What an entry says of a host. -/
def Describes (e : VhostEntry) (h : VHost) : Prop :=
  e.name = h.file ∧ e.documentRoot = h.host.documentroot ∧ e.serverNames = nameText h.host.serverNames ++ [0]

/-- A list is right: it has an entry for each host under a name of its own, the first for the default one,
and a request is given to the first host that has its `Host` among the words of its names. -/
structure Publishes (l : List VhostEntry) (hosts : List VHost) : Prop where
  entries : List.Forall₂ Describes l hosts
  first : (l.map (·.name)).head? = some defaultName
  names : (l.map (·.name)).Nodup
  serves : ∀ name tail, (hostFindLoop (hostPointer name tail) (hosts.map (·.host)) 0).map Prod.fst =
    l.findIdx? fun e => decide (name ∈ mkStringSplitLine e.serverNames)

/-- The cells of the last list are the only ones that have not been freed. -/
def VhostLib.Kept (s : VhostLib) (l : List VhostEntry) : Prop :=
  match s.lst with
  | some lst => Cells.Owns s.cells lst l
  | none => s.cells = [] ∧ l = []

section lists

variable {s : VhostLib} {hosts : List VHost} {l : List VhostEntry}

theorem vhostEntry_eq {h : VHost} (hwords : NamedByWords h.host) :
    vhostEntry h = if h.host.serverNames.length ≤ maxNames then
      some ⟨h.file, h.host.documentroot, nameText h.host.serverNames ++ [0]⟩ else none := by
  rw [vhostEntry, serverNamesBlock_eq hwords]
  split
  · rfl
  · rfl

/-- The entries of all hosts. -/
theorem mapM_vhostEntry (hwords : ∀ h ∈ hosts, NamedByWords h.host) :
    (FewNames hosts → ∃ l, hosts.mapM vhostEntry = some l ∧ List.Forall₂ Describes l hosts) ∧
    (¬ FewNames hosts → hosts.mapM vhostEntry = none) := by
  induction hosts with
  | nil => exact ⟨fun _ => ⟨[], rfl, .nil⟩, fun h => absurd (fun h hmem => by cases hmem) h⟩
  | cons h hosts ih =>
      obtain ⟨hfew, hmany⟩ := ih fun h hmem => hwords h (List.mem_cons_of_mem _ hmem)
      rw [List.mapM_cons, vhostEntry_eq (hwords h List.mem_cons_self)]
      by_cases hlen : h.host.serverNames.length ≤ maxNames
      · rw [if_pos hlen]
        constructor
        · intro hall
          obtain ⟨l, hl, hdesc⟩ := hfew fun h hmem => hall h (List.mem_cons_of_mem _ hmem)
          exact ⟨_ :: l, by rw [hl]; rfl, .cons ⟨rfl, rfl, rfl⟩ hdesc⟩
        · intro hnot
          rw [hmany fun hall => hnot (List.forall_mem_cons.mpr ⟨hlen, hall⟩)]
          rfl
      · rw [if_neg hlen]
        exact ⟨fun hall => absurd (hall h List.mem_cons_self) hlen, fun _ => rfl⟩

/-- Entries that describe the hosts are a right list. -/
theorem publishes_of_describes (hok : VhostsOk hosts) (h : List.Forall₂ Describes l hosts) : Publishes l hosts := by
  have hnames : l.map (·.name) = hosts.map (·.file) := by
    rw [← List.forall₂_eq_eq_eq, List.forall₂_map_left_iff, List.forall₂_map_right_iff]
    exact h.imp fun _ _ hd => hd.1
  refine ⟨h, hnames ▸ hok.first, hnames ▸ hok.files, fun name tail => ?_⟩
  rw [hostFindLoop_eq, Option.map_map]
  have hsame : (hosts.map (·.host)).findIdx? (fun h => h.serverNames.any (aliasIs (hostPointer name tail))) =
      l.findIdx? fun e => decide (name ∈ mkStringSplitLine e.serverNames) := by
    rw [List.findIdx?_map]
    refine (findIdx?_congr ?_).symm
    have hwords := hok.words
    clear hok hnames
    induction h with
    | nil => exact .nil
    | cons hd _ ih =>
        refine .cons ?_ (ih fun h hmem => hwords h (List.mem_cons_of_mem _ hmem))
        have hw := hwords _ List.mem_cons_self
        rw [hd.2.2, mkStringSplitLine_nameText hw, Function.comp_apply, Bool.eq_iff_iff, decide_eq_true_eq,
          List.any_eq_true]
        constructor
        · intro hmem
          exact ⟨name, hmem, (aliasIs_iff (hw name hmem).2.2 name tail).mpr rfl⟩
        · rintro ⟨entry, hmem, his⟩
          rwa [← (aliasIs_iff (hw entry hmem).2.2 name tail).mp his]
  rw [hsame]
  cases l.findIdx? fun e => decide (name ∈ mkStringSplitLine e.serverNames) with
  | none => rfl
  | some k => simp

/-- The cells of the last list are freed before those of the new one are taken. -/
theorem mklibVhostList_eq (hkept : s.Kept l) : ∃ k, mklibVhostList s = (s.hosts.mapM vhostEntry).map fun entries =>
    ({ s with
        lst := some (Cells.allocAll (List.replicate k none) entries).2
        cells := (Cells.allocAll (List.replicate k none) entries).1 }, entries) := by
  rw [VhostLib.Kept] at hkept
  cases hlst : s.lst with
  | none =>
      rw [hlst] at hkept
      refine ⟨0, ?_⟩
      simp only [mklibVhostList, hlst, hkept.1, List.replicate_zero]
      cases s.hosts.mapM vhostEntry with
      | none => rfl
      | some entries => rfl
  | some lst =>
      rw [hlst] at hkept
      obtain ⟨k, hcells, rfl⟩ := hkept
      refine ⟨k + l.length, ?_⟩
      simp only [mklibVhostList, hlst, hcells, Cells.freeToNull_owned]
      cases s.hosts.mapM vhostEntry with
      | none => rfl
      | some entries => rfl

/-- **One list** writes inside its array of names exactly if there are few. -/
theorem mklibVhostList_iff (hok : VhostsOk s.hosts) (hkept : s.Kept l) :
    (FewNames s.hosts → ∃ s' l', mklibVhostList s = some (s', l') ∧ s'.hosts = s.hosts ∧
      Publishes l' s.hosts ∧ s'.Kept l') ∧
    (¬ FewNames s.hosts → mklibVhostList s = none) := by
  obtain ⟨hfew, hmany⟩ := mapM_vhostEntry hok.words
  obtain ⟨k, hlist⟩ := mklibVhostList_eq hkept
  rw [hlist]
  constructor
  · intro hall
    obtain ⟨l', hl', hdesc⟩ := hfew hall
    rw [hl']
    exact ⟨_, l', rfl, rfl, publishes_of_describes hok hdesc, Cells.owns_allocAll k l'⟩
  · intro hnot
    rw [hmany hnot]
    rfl

/-- **A run of calls.** -/
theorem vhostCalls_listed (hok : VhostsOk s.hosts) (hkept : s.Kept l) (calls : List VhostCall) :
    ((∀ hosts ∈ hostsListed s.hosts calls, FewNames hosts) → ∃ s' lists,
      vhostCalls s calls = some (s', lists) ∧ List.Forall₂ Publishes lists (hostsListed s.hosts calls) ∧
      s'.Kept (lists.getLast?.getD l)) ∧
    (¬ (∀ hosts ∈ hostsListed s.hosts calls, FewNames hosts) → vhostCalls s calls = none) := by
  induction calls generalizing s l with
  | nil => exact ⟨fun _ => ⟨s, [], rfl, .nil, hkept⟩, fun h => absurd (fun hosts hmem => by cases hmem) h⟩
  | cons call calls ih =>
      cases call with
      | config name items =>
          exact @ih { s with hosts := (mklibVhostConfig s.hosts name items).2 } l (hok.config name items) hkept
      | list =>
          obtain ⟨hfew, hmany⟩ := mklibVhostList_iff hok hkept
          rw [vhostCalls, hostsListed]
          by_cases hnow : FewNames s.hosts
          · obtain ⟨s', l', hlist, hhosts, hpub, hkept'⟩ := hfew hnow
            obtain ⟨hruns, hfails⟩ := ih (hhosts ▸ hok) hkept'
            rw [hhosts] at hruns hfails
            rw [hlist, Option.bind_some]
            constructor
            · intro hall
              obtain ⟨s'', lists, hcalls, hlists, hlast⟩ := hruns (List.forall_mem_cons.mp hall).2
              refine ⟨s'', l' :: lists, by rw [hcalls]; rfl, .cons hpub hlists, ?_⟩
              rw [List.getLast?_cons]
              exact hlast
            · intro hnot
              rw [hfails fun hrest => hnot (List.forall_mem_cons.mpr ⟨hnow, hrest⟩)]
              rfl
          · rw [hmany hnow]
            exact ⟨fun hall => absurd (hall _ List.mem_cons_self) hnow, fun _ => rfl⟩

end lists

/-- **Lists of hosts**: after `mklib_init`, no call writes outside an array or frees a cell twice exactly if
no host has more than fifty names at the time of a list.  Each list is then right about the hosts of its
time, and only the cells of the last one are left. -/
theorem vhost_lists_iff {listenAddr : Bytes} (haddr : IsHostName (cstr listenAddr)) (documentroot : Option Bytes)
    (calls : List VhostCall) :
    ((vhostCalls { hosts := [mklibInitHost listenAddr documentroot] } calls).isSome ↔
      ∀ hosts ∈ hostsListed [mklibInitHost listenAddr documentroot] calls, FewNames hosts) ∧
    ∀ s lists, vhostCalls { hosts := [mklibInitHost listenAddr documentroot] } calls = some (s, lists) →
      List.Forall₂ Publishes lists (hostsListed [mklibInitHost listenAddr documentroot] calls) ∧
      s.Kept (lists.getLast?.getD []) := by
  have hok := VhostsOk.init haddr documentroot
  have hempty : VhostLib.Kept { hosts := [mklibInitHost listenAddr documentroot] } [] := ⟨rfl, rfl⟩
  obtain ⟨hruns, hfails⟩ := @vhostCalls_listed { hosts := [mklibInitHost listenAddr documentroot] } [] hok hempty
    calls
  by_cases hall : ∀ hosts ∈ hostsListed [mklibInitHost listenAddr documentroot] calls, FewNames hosts
  · obtain ⟨s', lists', hcalls, hlists, hlast⟩ := hruns hall
    refine ⟨iff_of_true (by rw [hcalls]; rfl) hall, fun s lists hsome => ?_⟩
    obtain ⟨rfl, rfl⟩ := Prod.mk.inj (Option.some.inj (hcalls.symm.trans hsome))
    exact ⟨hlists, hlast⟩
  · rw [hfails hall]
    exact ⟨iff_of_false (by simp) hall, fun s lists hsome => by cases hsome⟩

/-- Two lists, and a second host between them; one of its three words is too long for a name. -/
def twoLists : List VhostCall :=
  [.list, .config (ascii "www".toList) [.serverName (ascii "A.org  b.org ".toList ++ List.replicate 64 0x63),
    .documentRoot (ascii "/srv".toList)], .list]

theorem vhost_lists_two : ∃ s lists,
    vhostCalls { hosts := [mklibInitHost (ascii "127.0.0.1".toList) none] } twoLists = some (s, lists) ∧
      (lists.map (List.map (·.serverNames))).getLast? =
        some [ascii "127.0.0.1 ".toList ++ [0], ascii "a.org b.org ".toList ++ [0]] ∧
      s.Kept (lists.getLast?.getD []) := by
  obtain ⟨hiff, hright⟩ := @vhost_lists_iff (ascii "127.0.0.1".toList) (by decide +kernel) none twoLists
  obtain ⟨⟨s, lists⟩, hsome⟩ := Option.isSome_iff_exists.mp (hiff.mpr (by decide +kernel))
  obtain ⟨-, hkept⟩ := hright s lists hsome
  have hlast : (vhostCalls { hosts := [mklibInitHost (ascii "127.0.0.1".toList) none] } twoLists).map
      (fun r => (r.2.map (List.map (·.serverNames))).getLast?) =
        some (some [ascii "127.0.0.1 ".toList ++ [0], ascii "a.org b.org ".toList ++ [0]]) := by decide +kernel
  rw [hsome] at hlast
  exact ⟨s, lists, hsome, Option.some.inj hlast, hkept⟩

end Monkey.Config
