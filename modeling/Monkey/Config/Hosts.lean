import Monkey.Config.Create
import Monkey.Lib.Tokens
import Monkey.Request.Headers

/-!
# Monkey.Config.Hosts

The virtual hosts: `mk_config_get_host` loads one from its configuration, and
`mk_config_host_find` chooses one by the `Host` header.  The names are brought to lower
case when they are loaded, but the header is compared as it was sent.

The hosts come from files that have been read; what a directory lists is an argument, in its order.
What ends the server while it loads them is a result of its own (`LoadError`).
-/

namespace Monkey.Config

/-! ## loading a host -/

/-- `mk_config_section_get`. -/
def mkConfigSectionGet (conf : List ConfigSection) (sectionName : Bytes) : Option ConfigSection :=
  conf.find? fun sec => strcasecmp sec.name sectionName

/-- The value that `mk_config_section_getval` finds for a key. -/
def mkConfigSectionGetval (sec : ConfigSection) (key : Bytes) : Option Bytes :=
  (sec.entries.find? fun entry => strcasecmp entry.key key).map (·.val)

/-- The loop of `mk_string_split_line` on the rest of the line. -/
def splitLineLoop : Nat → Bytes → List Bytes
  | 0, _ => []
  | fuel + 1, rest =>
      if rest = [] then []
      else
        let stop := mkStringCharSearch rest 0x20 rest.length
        if 0 ≤ stop ∧ stop < rest.length then
          if stop = 0 then splitLineLoop fuel (rest.drop 1)
          else rest.take stop.toNat :: splitLineLoop fuel (rest.drop (stop.toNat + 1))
        else [rest]

/-- `mk_string_split_line`. -/
def mkStringSplitLine (line : Bytes) : List Bytes := splitLineLoop (strlen line) (cstr line)

def tolower (c : UInt8) : UInt8 := if 0x41 ≤ c ∧ c ≤ 0x5a then c + 0x20 else c

/-- `mk_string_tolower`. -/
def mkStringTolower (s : Bytes) : Bytes := (cstr s).map tolower

/-- `MK_HOSTNAME_LEN`. -/
def mkHostnameLen : Nat := 64

/-- The names of a host from the words of its `Servername`; one that is too long is skipped. -/
def loadNames (list : List Bytes) : List Bytes :=
  (list.filter fun val => !decide (val.length > mkHostnameLen - 1)).map fun val =>
    (mkStringTolower val).take val.length

/-- The error pages of a host. -/
def loadErrorPages (documentroot : Bytes) (sec : ConfigSection) : List ErrorPage :=
  sec.entries.filterMap fun entry =>
    let epStatus := toInt (strtol entry.key)
    if epStatus < mkClientBadRequest ∨ epStatus > mkServerHttpVersionUnsup then none
    else some { status := epStatus, realPath := documentroot ++ [0x2f] ++ cstr entry.val }

def hostSection : Bytes := ascii "HOST".toList
def servernameKey : Bytes := ascii "Servername".toList
def documentRootKey : Bytes := ascii "DocumentRoot".toList
def errorPagesSection : Bytes := ascii "ERROR_PAGES".toList

/-- What ends the server while it loads the hosts: a `Servername` that is missing, `strlen` of a
`DocumentRoot` that is missing, or a default host that is not there to be linked. -/
inductive LoadError
  | noServername | noDocumentRoot | noDefaultHost
deriving DecidableEq, Repr

section
variable (hideversion : Bool) (version : Bytes)

/-- `mk_config_get_host` on the sections of its file; `none` is `NULL`. -/
def mkConfigGetHost (cnf : List ConfigSection) : Except LoadError (Option Host) :=
  match mkConfigSectionGet cnf hostSection with
  | none => .ok none
  | some sectionHost =>
      match mkConfigSectionGetval sectionHost servernameKey with
      | none => .error .noServername
      | some list =>
          match mkConfigSectionGetval sectionHost documentRootKey with
          | none => .error .noDocumentRoot
          | some root =>
              let names := loadNames (mkStringSplitLine list)
              if names = [] then .ok none
              else
                .ok (some {
                  serverNames := names
                  documentroot := cstr root
                  hostSignature :=
                    if hideversion then ascii "Monkey".toList else ascii "Monkey/".toList ++ version
                  errorPages :=
                    (mkConfigSectionGet cnf errorPagesSection).elim [] (loadErrorPages (cstr root)) })

/-- The loop of `mk_config_read_hosts` over the entries of the directory. -/
def readSites : List (Bytes × List ConfigSection) → Except LoadError (List Host)
  | [] => .ok []
  | (dName, cnf) :: sites =>
      if dName = ascii ".".toList ∨ dName = ascii "..".toList ∨ strcasecmp dName (ascii "default".toList) then
        readSites sites
      else do
        let pHost ← mkConfigGetHost hideversion version cnf
        let hosts ← readSites sites
        return pHost.toList ++ hosts

/-- `mk_config_read_hosts`: the default host, then the others in the order of the directory. -/
def mkConfigReadHosts (dflt : List ConfigSection) (sites : List (Bytes × List ConfigSection)) :
    Except LoadError (List Host) := do
  let some pHost ← mkConfigGetHost hideversion version dflt | throw .noDefaultHost
  let hosts ← readSites hideversion version sites
  return pHost :: hosts

end

/-! ## choosing a host -/

/-- Whether a name is the text of the `Host` header. -/
def aliasIs (host : MkPointer) (name : Bytes) : Bool :=
  name.length == host.len && strncmp name (host.data.getD []) host.len

/-- The loops of `mk_config_host_find`: the places of the host and of its name. -/
def hostFindLoop (host : MkPointer) : List Host → Nat → Option (Nat × Nat)
  | [], _ => none
  | entryHost :: hosts, i =>
      match entryHost.serverNames.findIdx? (aliasIs host) with
      | some j => some (i, j)
      | none => hostFindLoop host hosts (i + 1)

/-- `mk_config_host_find`: the result, `*vhost` and `*alias`, both as places in their lists. -/
def hostFind (hosts : List Host) (host : MkPointer) (vhost aliasAt : Nat) : Int × Nat × Nat :=
  match hostFindLoop host hosts 0 with
  | some (i, j) => (0, i, j)
  | none => (-1, vhost, aliasAt)

/-! ## the names of a host -/

theorem mkStringCharSearch_blank {s : Bytes} (h : 0x20 ∉ s) (t : Bytes) :
    mkStringCharSearch (s ++ 0x20 :: t) 0x20 (s ++ 0x20 :: t).length = s.length := by
  rw [mkStringCharSearch, if_neg (by omega), Int.toNat_natCast, memchr_append_cons h t (by simp)]
  rfl

theorem mkStringCharSearch_no_blank {s : Bytes} (h : 0x20 ∉ s) : mkStringCharSearch s 0x20 s.length = -1 := by
  rw [mkStringCharSearch, if_neg (by omega), Int.toNat_natCast, memchr_eq_none (by rwa [List.take_length])]
  rfl

theorem splitLineLoop_eq {fuel : Nat} {rest : Bytes} (h : rest.length ≤ fuel) :
    splitLineLoop fuel rest = (rest.splitOn 0x20).filter (· ≠ []) := by
  induction fuel generalizing rest with
  | zero =>
      obtain rfl := List.eq_nil_of_length_eq_zero (Nat.le_zero.mp h)
      rfl
  | succ fuel ih =>
      rw [splitLineLoop]
      split
      · next hnil =>
          rw [hnil]
          rfl
      · next hne =>
          by_cases hblank : 0x20 ∈ rest
          · obtain ⟨s, t, rfl, hs⟩ := List.eq_append_cons_of_mem hblank
            rw [List.length_append, List.length_cons] at h
            simp only [mkStringCharSearch_blank hs, List.splitOn_append_cons_self_of_not_mem hs]
            rw [if_pos (by simp), List.filter_cons]
            cases s with
            | nil => simp [ih (show t.length ≤ fuel by simpa using h)]
            | cons c s =>
                have ht : t.length ≤ fuel := by
                  rw [List.length_cons] at h
                  omega
                have hdrop : ((c :: s) ++ 0x20 :: t).drop ((c :: s).length + 1) = t := by
                  rw [List.drop_append, List.drop_of_length_le (by omega), List.nil_append,
                    Nat.add_sub_cancel_left, List.drop_succ_cons, List.drop_zero]
                rw [if_neg (by simp; omega), if_pos (by simp), Int.toNat_natCast, List.take_left, hdrop, ih ht]
          · simp only [mkStringCharSearch_no_blank hblank, List.splitOn_eq_singleton hblank]
            rw [if_neg (by omega)]
            simp [hne]

/-- The words of a line. -/
theorem mkStringSplitLine_eq (line : Bytes) :
    mkStringSplitLine line = ((cstr line).splitOn 0x20).filter (· ≠ []) := splitLineLoop_eq le_rfl

/-- The `Servername` entries of a file. -/
def servernames (cnf : List ConfigSection) : List Bytes :=
  ((mkConfigSectionGet cnf hostSection).bind fun sec =>
    mkConfigSectionGetval sec servernameKey).elim [] mkStringSplitLine

theorem mem_of_mem_splitOn {s w : Bytes} {c x : UInt8} (hw : w ∈ s.splitOn c) (hx : x ∈ w) : x ∈ s := by
  induction s generalizing w with
  | nil =>
      rw [List.splitOn_nil, List.mem_singleton] at hw
      rwa [hw] at hx
  | cons d s ih =>
      rw [List.splitOn_cons_eq_if_modifyHead] at hw
      split at hw
      · rcases List.mem_cons.mp hw with rfl | hw
        · contradiction
        · exact List.mem_cons_of_mem _ (ih hw hx)
      · cases hsplit : s.splitOn c with
        | nil => exact absurd hsplit (List.splitOn_ne_nil c s)
        | cons v vs =>
            rw [hsplit, List.modifyHead_cons] at hw
            rw [hsplit] at ih
            rcases List.mem_cons.mp hw with rfl | hw
            · rcases List.mem_cons.mp hx with rfl | hx
              · exact List.mem_cons_self
              · exact List.mem_cons_of_mem _ (ih List.mem_cons_self hx)
            · exact List.mem_cons_of_mem _ (ih (List.mem_cons_of_mem _ hw) hx)

/-- An entry is a C string. -/
theorem zero_notMem_of_mem_servernames {cnf : List ConfigSection} {w : Bytes} (hw : w ∈ servernames cnf) :
    0 ∉ w := by
  intro h0
  unfold servernames at hw
  cases hval : (mkConfigSectionGet cnf hostSection).bind fun sec => mkConfigSectionGetval sec servernameKey with
  | none =>
      rw [hval] at hw
      contradiction
  | some line =>
      rw [hval, Option.elim_some, mkStringSplitLine_eq] at hw
      exact zero_notMem_cstr line (mem_of_mem_splitOn (List.mem_of_mem_filter hw) h0)

theorem serverNames_of_mkConfigGetHost {hideversion : Bool} {version : Bytes} {cnf : List ConfigSection} {h : Host}
    (hload : mkConfigGetHost hideversion version cnf = .ok (some h)) :
    h.serverNames = loadNames (servernames cnf) := by
  unfold mkConfigGetHost at hload
  unfold servernames
  cases hsec : mkConfigSectionGet cnf hostSection with
  | none => simp [hsec] at hload
  | some sec =>
      cases hnames : mkConfigSectionGetval sec servernameKey with
      | none => simp [hsec, hnames] at hload
      | some list =>
          cases hroot : mkConfigSectionGetval sec documentRootKey with
          | none => simp [hsec, hnames, hroot] at hload
          | some root =>
              simp only [hsec, hnames, hroot] at hload
              split at hload
              · exact absurd (Except.ok.inj hload) nofun
              · obtain rfl := Option.some.inj (Except.ok.inj hload)
                simp only [Option.bind_some, hnames, Option.elim_some]

theorem tolower_tolower (c : UInt8) : tolower (tolower c) = tolower c := by
  have hall : ∀ n < 256, tolower (tolower (UInt8.ofNat n)) = tolower (UInt8.ofNat n) := by decide +kernel
  have hc := hall c.toNat c.toNat_lt
  rwa [UInt8.ofNat_toNat] at hc

theorem eq_zero_of_tolower {c : UInt8} (h : tolower c = 0) : c = 0 := by
  have hall : ∀ n < 256, tolower (UInt8.ofNat n) = 0 → UInt8.ofNat n = 0 := by decide +kernel
  have hc := hall c.toNat c.toNat_lt
  rw [UInt8.ofNat_toNat] at hc
  exact hc h

/-- What is loaded: the entries in lower case, those of them that are short enough. -/
theorem loadNames_servernames (cnf : List ConfigSection) :
    loadNames (servernames cnf) =
      ((servernames cnf).map (·.map tolower)).filter fun name => decide (name.length < mkHostnameLen) := by
  rw [loadNames, List.filter_map]
  have hshort : (fun val : Bytes => !decide (val.length > mkHostnameLen - 1)) =
      (fun name : Bytes => decide (name.length < mkHostnameLen)) ∘ (·.map tolower) := by
    funext val
    rw [Function.comp_apply, List.length_map, ← decide_not, decide_eq_decide]
    unfold mkHostnameLen
    omega
  rw [hshort]
  refine List.map_congr_left fun w hw => ?_
  rw [mkStringTolower, cstr_eq_self (zero_notMem_of_mem_servernames (List.mem_of_mem_filter hw)),
    List.take_of_length_le (by simp)]

theorem mem_loadNames {cnf : List ConfigSection} {name : Bytes} :
    name ∈ loadNames (servernames cnf) ↔
      ∃ w ∈ servernames cnf, w.length < mkHostnameLen ∧ w.map tolower = name := by
  rw [loadNames_servernames, List.mem_filter, List.mem_map, decide_eq_true_eq]
  constructor
  · rintro ⟨⟨w, hw, rfl⟩, hlen⟩
    exact ⟨w, hw, by rwa [List.length_map] at hlen, rfl⟩
  · rintro ⟨w, hw, hlen, rfl⟩
    exact ⟨⟨w, hw, rfl⟩, by rwa [List.length_map]⟩

/-! ## the choice -/

/-- A `Host` value in front of the rest of the request. -/
def hostPointer (name tail : Bytes) : MkPointer := { data := some (name ++ tail), len := name.length }

theorem aliasIs_iff {entry : Bytes} (h0 : 0 ∉ entry) (name tail : Bytes) :
    aliasIs (hostPointer name tail) entry = true ↔ entry = name := by
  have hcmp := strncmp_token h0 [] (name ++ tail)
  rw [List.append_nil] at hcmp
  unfold aliasIs hostPointer
  rw [Bool.and_eq_true, beq_iff_eq, Option.getD_some]
  constructor
  · rintro ⟨hlen, hprefix⟩
    dsimp only at hlen hprefix
    rw [← hlen, hcmp, List.isPrefixOf_iff_prefix] at hprefix
    exact (List.prefix_of_prefix_length_le hprefix (List.prefix_append name tail) hlen.le).eq_of_length hlen
  · rintro rfl
    refine ⟨rfl, ?_⟩
    dsimp only
    rw [hcmp, List.isPrefixOf_iff_prefix]
    exact List.prefix_append entry tail

theorem aliasIs_tail (name tail tail' : Bytes) :
    aliasIs (hostPointer name tail) = aliasIs (hostPointer name tail') := by
  funext entry
  simp only [aliasIs, hostPointer, Option.getD_some, strncmp, strncmpWith_append_right]

/-- The loops find the first host with the name, and the first of its names that is it. -/
theorem hostFindLoop_eq (host : MkPointer) (hosts : List Host) (i : Nat) :
    hostFindLoop host hosts i = (hosts.findIdx? fun h => h.serverNames.any (aliasIs host)).map fun k =>
      (i + k, (hosts.getD k {}).serverNames.findIdx (aliasIs host)) := by
  induction hosts generalizing i with
  | nil => rfl
  | cons h hosts ih =>
      rw [hostFindLoop, List.findIdx?_cons]
      cases hfind : h.serverNames.findIdx? (aliasIs host) with
      | some j =>
          obtain ⟨hlt, hj⟩ := List.findIdx?_eq_some_iff_findIdx_eq.mp hfind
          have hany : h.serverNames.any (aliasIs host) = true := by
            obtain ⟨x, hx, hp⟩ := List.findIdx_lt_length.mp (hj ▸ hlt)
            exact List.any_eq_true.mpr ⟨x, hx, hp⟩
          simp [hany, hj]
      | none =>
          have hany : h.serverNames.any (aliasIs host) = false :=
            List.any_eq_false.mpr fun x hx => by simp [List.findIdx?_eq_none_iff.mp hfind x hx]
          rw [hany]
          simp only [Bool.false_eq_true, if_false, ih, Option.map_map]
          congr 1
          funext k
          simp only [Function.comp_apply, List.getD_cons_succ, Prod.mk.injEq, and_true]
          omega

/-- The host of `mk_request_process`. -/
theorem mkConfigHostFind_eq (cfg : Config) (host : MkPointer) :
    mkConfigHostFind cfg host =
      (hostFindLoop host (cfg.defaultHost :: cfg.hosts) 0).bind fun p => (cfg.defaultHost :: cfg.hosts)[p.1]? := by
  rw [hostFindLoop_eq, mkConfigHostFind, List.find?_eq_bind_findIdx?_getElem?, Option.bind_map]
  congr 1
  funext k
  simp

/-! ## letter case -/

/-- Two texts that differ in letter case only. -/
def SameText (s t : Bytes) : Prop := s.map tolower = t.map tolower

instance (s t : Bytes) : Decidable (SameText s t) := inferInstanceAs (Decidable (_ = _))

/-- Whether a file names a host, ignoring case. -/
def names (cnf : List ConfigSection) (name : Bytes) : Bool := (servernames cnf).any fun w => decide (SameText w name)

/-- A name in lower case that is short enough to be loaded. -/
def Plain (name : Bytes) : Prop := name.map tolower = name ∧ name.length < mkHostnameLen
deriving Decidable

/-- The choice as the names of the files have it: the first host that is named, and a name of it;
without one nothing is assigned. -/
def Selects (files : List (List ConfigSection)) (hosts : List Host) (name : Bytes) (vhost aliasAt : Nat)
    (r : Int × Nat × Nat) : Prop :=
  match files.findIdx? (names · name) with
  | some i => r.1 = 0 ∧ r.2.1 = i ∧ ∃ entry, (hosts.getD i {}).serverNames[r.2.2]? = some entry ∧ SameText entry name
  | none => r = (-1, vhost, aliasAt)

theorem findIdx?_congr {α β : Type} {p : α → Bool} {q : β → Bool} {as : List α} {bs : List β}
    (h : List.Forall₂ (fun a b => p a = q b) as bs) : as.findIdx? p = bs.findIdx? q := by
  induction h with
  | nil => rfl
  | cons hab _ ih => rw [List.findIdx?_cons, List.findIdx?_cons, hab, ih]

/-- Hosts and the files they are loaded from. -/
def Loaded (hideversion : Bool) (version : Bytes) (files : List (List ConfigSection)) (hosts : List Host) : Prop :=
  List.Forall₂ (fun cnf h => mkConfigGetHost hideversion version cnf = .ok (some h)) files hosts

section
variable {hideversion : Bool} {version : Bytes} {files : List (List ConfigSection)} {hosts : List Host} {name : Bytes}

theorem zero_notMem_serverNames {cnf : List ConfigSection} {h : Host}
    (hload : mkConfigGetHost hideversion version cnf = .ok (some h)) {entry : Bytes}
    (hentry : entry ∈ h.serverNames) : 0 ∉ entry := by
  intro hzero
  rw [serverNames_of_mkConfigGetHost hload] at hentry
  obtain ⟨w, hw, -, rfl⟩ := mem_loadNames.mp hentry
  obtain ⟨c, hc, hc0⟩ := List.mem_map.mp hzero
  exact zero_notMem_of_mem_servernames hw (eq_zero_of_tolower hc0 ▸ hc)

/-- The names of a loaded host that are the text of the header. -/
theorem any_aliasIs_iff {cnf : List ConfigSection} {h : Host}
    (hload : mkConfigGetHost hideversion version cnf = .ok (some h)) (name tail : Bytes) :
    h.serverNames.any (aliasIs (hostPointer name tail)) = true ↔
      ∃ w ∈ servernames cnf, w.length < mkHostnameLen ∧ w.map tolower = name := by
  rw [List.any_eq_true, ← mem_loadNames, ← serverNames_of_mkConfigGetHost hload]
  constructor
  · rintro ⟨entry, hentry, his⟩
    rwa [← (aliasIs_iff (zero_notMem_serverNames hload hentry) name tail).mp his]
  · intro hname
    exact ⟨name, hname, (aliasIs_iff (zero_notMem_serverNames hload hname) name tail).mpr rfl⟩

/-- A plain name is looked up as the files have it. -/
theorem findIdx?_plain (hload : Loaded hideversion version files hosts) (hplain : Plain name) (tail : Bytes) :
    hosts.findIdx? (fun h => h.serverNames.any (aliasIs (hostPointer name tail))) =
      files.findIdx? (names · name) := by
  refine (findIdx?_congr (hload.imp fun cnf h hcnf => ?_)).symm
  rw [Bool.eq_iff_iff, any_aliasIs_iff hcnf, names, List.any_eq_true]
  simp only [decide_eq_true_eq, SameText, hplain.1]
  refine exists_congr fun w => and_congr_right fun _ => ⟨fun heq => ⟨?_, heq⟩, fun h => h.2⟩
  have hlen := congrArg List.length heq
  rw [List.length_map] at hlen
  exact hlen ▸ hplain.2

/-- Any other name is not found. -/
theorem hostFind_not_plain (hload : Loaded hideversion version files hosts) (hplain : ¬ Plain name)
    (tail : Bytes) (vhost aliasAt : Nat) :
    hostFind hosts (hostPointer name tail) vhost aliasAt = (-1, vhost, aliasAt) := by
  have hnone : hosts.findIdx? (fun h => h.serverNames.any (aliasIs (hostPointer name tail))) = none := by
    refine List.findIdx?_eq_none_iff.mpr fun h hh => ?_
    obtain ⟨i, hi, rfl⟩ := List.getElem_of_mem hh
    have hcnf := hload.get (hload.length_eq ▸ hi) hi
    by_contra hany
    rw [Bool.not_eq_false] at hany
    obtain ⟨w, -, hlen, rfl⟩ := (any_aliasIs_iff hcnf name tail).mp hany
    refine hplain ⟨?_, by rwa [List.length_map]⟩
    rw [List.map_map]
    exact List.map_congr_left fun c _ => tolower_tolower c
  rw [hostFind, hostFindLoop_eq, hnone]
  rfl

theorem hostFind_plain (hload : Loaded hideversion version files hosts) (hplain : Plain name)
    (tail : Bytes) (vhost aliasAt : Nat) :
    Selects files hosts name vhost aliasAt (hostFind hosts (hostPointer name tail) vhost aliasAt) := by
  have hfind := findIdx?_plain hload hplain tail
  rw [hostFind, hostFindLoop_eq, hfind, Selects]
  cases hfiles : files.findIdx? (names · name) with
  | none => rfl
  | some i =>
      obtain ⟨hi, hnamed, -⟩ := List.findIdx?_eq_some_iff_getElem.mp (hfind.trans hfiles)
      have hcnf := hload.get (hload.length_eq ▸ hi) hi
      have hlt := List.findIdx_lt_length.mpr (List.any_eq_true.mp hnamed)
      have his := List.findIdx_getElem (w := hlt)
      rw [aliasIs_iff (zero_notMem_serverNames hcnf (List.getElem_mem hlt))] at his
      refine ⟨rfl, Nat.zero_add i, name, ?_, rfl⟩
      have hget : hosts.getD i {} = hosts[i] := by rw [List.getD_eq_getElem?_getD, List.getElem?_eq_getElem hi]; rfl
      simp only [Option.map_some, hget]
      rw [List.getElem?_eq_getElem hlt, his]

theorem hostFind_plain_eq_iff (hload : Loaded hideversion version files hosts) (hplain : Plain name)
    (tail : Bytes) (vhost aliasAt : Nat) :
    hostFind hosts (hostPointer name tail) vhost aliasAt = (-1, vhost, aliasAt) ↔
      ∀ cnf ∈ files, names cnf name = false := by
  rw [hostFind, hostFindLoop_eq, findIdx?_plain hload hplain tail, ← List.findIdx?_eq_none_iff]
  cases files.findIdx? (names · name) with
  | none => simp
  | some i => simp

theorem selects_none_iff (vhost aliasAt : Nat) :
    Selects files hosts name vhost aliasAt (-1, vhost, aliasAt) ↔ ∀ cnf ∈ files, names cnf name = false := by
  rw [Selects, ← List.findIdx?_eq_none_iff]
  cases files.findIdx? (names · name) with
  | none => simp
  | some i => simp

theorem names_congr {name' : Bytes} (h : SameText name' name) (cnf : List ConfigSection) :
    names cnf name' = names cnf name := by
  unfold names
  congr 1
  funext w
  rw [decide_eq_decide, SameText, SameText, show name'.map tolower = name.map tolower from h]

/-- The loops look at the names only. -/
theorem hostFindLoop_congr {hosts' : List Host} (h : hosts'.map (·.serverNames) = hosts.map (·.serverNames))
    (host : MkPointer) (i : Nat) : hostFindLoop host hosts' i = hostFindLoop host hosts i := by
  induction hosts' generalizing hosts i with
  | nil =>
      obtain rfl := List.map_eq_nil_iff.mp h.symm
      rfl
  | cons h' hosts' ih =>
      cases hosts with
      | nil => contradiction
      | cons h₀ hosts =>
          rw [List.map_cons, List.map_cons] at h
          obtain ⟨hnames, hrest⟩ := List.cons.inj h
          rw [hostFindLoop, hostFindLoop, hnames, ih hrest]

theorem Loaded.serverNames (hload : Loaded hideversion version files hosts) :
    hosts.map (·.serverNames) = files.map fun cnf => loadNames (servernames cnf) := by
  induction hload with
  | nil => rfl
  | cons h _ ih => rw [List.map_cons, List.map_cons, ih, serverNames_of_mkConfigGetHost h]

theorem loadNames_congr {cnf cnf' : List ConfigSection}
    (h : List.Forall₂ SameText (servernames cnf) (servernames cnf')) :
    loadNames (servernames cnf') = loadNames (servernames cnf) := by
  have hmap : (servernames cnf).map (·.map tolower) = (servernames cnf').map (·.map tolower) := by
    rw [← List.forall₂_eq_eq_eq, List.forall₂_map_left_iff, List.forall₂_map_right_iff]
    exact h
  rw [loadNames_servernames, loadNames_servernames, hmap]

end

theorem readSites_loaded {hideversion : Bool} {version : Bytes} {sites : List (Bytes × List ConfigSection)}
    {hosts : List Host} (h : readSites hideversion version sites = .ok hosts) :
    ∃ files, files.Sublist (sites.map Prod.snd) ∧ Loaded hideversion version files hosts := by
  induction sites generalizing hosts with
  | nil =>
      obtain rfl := Except.ok.inj h
      exact ⟨[], List.Sublist.refl _, .nil⟩
  | cons site sites ih =>
      obtain ⟨dName, cnf⟩ := site
      rw [readSites] at h
      split at h
      · obtain ⟨files, hsub, hload⟩ := ih h
        exact ⟨files, hsub.trans (List.sublist_cons_self ..), hload⟩
      · cases hget : mkConfigGetHost hideversion version cnf with
        | error e =>
            rw [hget] at h
            contradiction
        | ok pHost =>
            cases hrest : readSites hideversion version sites with
            | error e =>
                rw [hget, hrest] at h
                contradiction
            | ok rest =>
                rw [hget, hrest] at h
                obtain rfl := Except.ok.inj h
                obtain ⟨files, hsub, hload⟩ := ih hrest
                cases pHost with
                | none => exact ⟨files, hsub.trans (List.sublist_cons_self ..), hload⟩
                | some pHost => exact ⟨cnf :: files, hsub.cons_cons cnf, .cons hget hload⟩

/-- The hosts of the server are those of the default file and of some of the other files, in the
order of the directory. -/
theorem mkConfigReadHosts_loaded {hideversion : Bool} {version : Bytes} {dflt : List ConfigSection}
    {sites : List (Bytes × List ConfigSection)} {hosts : List Host}
    (h : mkConfigReadHosts hideversion version dflt sites = .ok hosts) :
    ∃ files, files.Sublist (sites.map Prod.snd) ∧ Loaded hideversion version (dflt :: files) hosts := by
  unfold mkConfigReadHosts at h
  cases hget : mkConfigGetHost hideversion version dflt with
  | error e =>
      rw [hget] at h
      contradiction
  | ok pHost =>
      cases pHost with
      | none =>
          rw [hget] at h
          contradiction
      | some pHost =>
          cases hrest : readSites hideversion version sites with
          | error e =>
              rw [hget, hrest] at h
              contradiction
          | ok rest =>
              rw [hget, hrest] at h
              obtain rfl := Except.ok.inj h
              obtain ⟨files, hsub, hload⟩ := readSites_loaded hrest
              exact ⟨files, hsub, .cons hget hload⟩

/-- **The choice of a host**: it is the first one that is named, ignoring case, exactly when the
header has a plain name or none is named.  The case of the files is not seen; two headers that
differ in case are told apart unless both are plain or neither is. -/
theorem hostFind_iff {hideversion : Bool} {version : Bytes} {files files' : List (List ConfigSection)}
    {hosts hosts' : List Host} (hload : Loaded hideversion version files hosts)
    (hload' : Loaded hideversion version files' hosts')
    (hfiles : List.Forall₂ (fun cnf cnf' => List.Forall₂ SameText (servernames cnf) (servernames cnf')) files files')
    {name name' : Bytes} (hname : SameText name' name) (tail tail' : Bytes) (vhost aliasAt : Nat) :
    (Selects files hosts name vhost aliasAt (hostFind hosts (hostPointer name tail) vhost aliasAt) ↔
        (∀ cnf ∈ files, names cnf name = false) ∨ Plain name) ∧
      hostFind hosts' (hostPointer name tail) vhost aliasAt = hostFind hosts (hostPointer name tail) vhost aliasAt ∧
      (hostFind hosts (hostPointer name' tail') vhost aliasAt = hostFind hosts (hostPointer name tail) vhost aliasAt ↔
        (∀ cnf ∈ files, names cnf name = false) ∨ (Plain name ↔ Plain name')) := by
  refine ⟨?_, ?_, ?_⟩
  · by_cases hplain : Plain name
    · exact iff_of_true (hostFind_plain hload hplain tail vhost aliasAt) (.inr hplain)
    · rw [hostFind_not_plain hload hplain, selects_none_iff, or_iff_left hplain]
  · have hsame : hosts'.map (·.serverNames) = hosts.map (·.serverNames) := by
      rw [hload'.serverNames, hload.serverNames, ← List.forall₂_eq_eq_eq, List.forall₂_map_left_iff,
        List.forall₂_map_right_iff]
      exact hfiles.flip.imp fun _ _ h => loadNames_congr h
    rw [hostFind, hostFind, hostFindLoop_congr hsame]
  · have hnames : (∀ cnf ∈ files, names cnf name' = false) ↔ ∀ cnf ∈ files, names cnf name = false := by
      simp only [names_congr hname]
    by_cases hplain : Plain name
    · by_cases hplain' : Plain name'
      · -- both are the same text
        obtain rfl : name' = name := by rw [← hplain'.1, hname, hplain.1]
        refine iff_of_true ?_ (.inr Iff.rfl)
        rw [hostFind, hostFind, hostFindLoop_eq, hostFindLoop_eq, aliasIs_tail name' tail']
      · rw [hostFind_not_plain hload hplain', eq_comm, hostFind_plain_eq_iff hload hplain]
        simp [hplain, hplain']
    · by_cases hplain' : Plain name'
      · rw [hostFind_not_plain hload hplain, hostFind_plain_eq_iff hload hplain', hnames]
        simp [hplain, hplain']
      · rw [hostFind_not_plain hload hplain, hostFind_not_plain hload hplain']
        simp [hplain, hplain']

/-- Two sites. -/
def defaultSite : List ConfigSection :=
  [{ name := hostSection, entries := [
    { key := servernameKey, val := ascii "127.0.0.1".toList },
    { key := documentRootKey, val := ascii "/srv".toList }] }]

def exampleSite : List ConfigSection :=
  [{ name := hostSection, entries := [
    { key := servernameKey, val := ascii "example.com WWW.example.com".toList },
    { key := documentRootKey, val := ascii "/srv/www".toList }] }]

def siteHosts : List Host :=
  [{ serverNames := [ascii "127.0.0.1".toList], documentroot := ascii "/srv".toList,
     hostSignature := ascii "Monkey".toList },
   { serverNames := [ascii "example.com".toList, ascii "www.example.com".toList],
     documentroot := ascii "/srv/www".toList, hostSignature := ascii "Monkey".toList }]

theorem loaded_siteHosts : Loaded true [] [defaultSite, exampleSite] siteHosts :=
  .cons (by decide +kernel) (.cons (by decide +kernel) .nil)

theorem hostFind_iff_two :
    Selects [defaultSite, exampleSite] siteHosts (ascii "www.example.com".toList) 0 0
      (hostFind siteHosts (hostPointer (ascii "www.example.com".toList) [0x0d, 0x0a]) 0 0) :=
  (hostFind_iff loaded_siteHosts loaded_siteHosts (List.forall₂_same.mpr fun _ _ => List.forall₂_same.mpr fun _ _ => rfl)
    rfl _ [] 0 0).1.mpr (.inr (by decide +kernel))

/-- With `Host: WWW.example.com`, which is how the file of the second site spells it, no host is
found. -/
theorem hostFind_upper_case :
    names exampleSite (ascii "WWW.example.com".toList) = true ∧
      hostFind siteHosts (hostPointer (ascii "WWW.example.com".toList) [0x0d, 0x0a]) 0 0 = (-1, 0, 0) ∧
      ¬ Selects [defaultSite, exampleSite] siteHosts (ascii "WWW.example.com".toList) 0 0 (-1, 0, 0) := by
  have hnamed : names exampleSite (ascii "WWW.example.com".toList) = true := by decide +kernel
  refine ⟨hnamed, by decide +kernel, fun hsel => ?_⟩
  have hnone := (selects_none_iff 0 0).mp hsel exampleSite (by simp)
  rw [hnamed] at hnone
  contradiction

end Monkey.Config
