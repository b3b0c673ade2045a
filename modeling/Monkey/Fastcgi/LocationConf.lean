import Monkey.Config.Hosts
import Monkey.Fastcgi.FcgiFd
import Monkey.Lib.Tokens

/-!
# Monkey.Fastcgi.LocationConf

A location read from its section of `fastcgi.conf` (`fcgi_config_read_location`).

The array of server ids is allocated for one name more than `ServerNames` has blanks.
It gets an id for every server that has one of the names, and a comma ends a name as
well as a blank does.
-/

namespace Monkey.Fastcgi

open Config

/-! ## the reader -/

def locationNameKey : Bytes := ascii "LocationName".toList
def matchKey : Bytes := ascii "Match".toList
def keepAliveKey : Bytes := ascii "KeepAlive".toList
def serverNamesKey : Bytes := ascii "ServerNames".toList

/-- `VALUE_ON`. -/
def valueOn : Bytes := ascii "on".toList

/-- The checks that fail. -/
inductive LocationError
  /-- "No name for this location!" -/
  | noName
  /-- "No match regex defined for this location." -/
  | noMatch
  /-- "Regex failure on location." -/
  | regexFailure
  /-- "No servers for this location." -/
  | noServers
  /-- "Out of memory." -/
  | outOfMemory
  /-- "[LOC %s] Non of servers in ServerNames declared." -/
  | noneDeclared (name : Bytes)
deriving DecidableEq, Repr

/-- `struct fcgi_location`, with its name and its compiled expression. -/
structure LocationConf (ρ : Type) where
  name : Bytes
  matchRegex : ρ
  location : FcgiLocation

/-- A call of `fcgi_config_read_location`: how many server ids were allocated, the ids
stored from the first position on, and what it returns. -/
structure LocationRead (ρ : Type) where
  allocated : Nat := 0
  stores : List Nat := []
  result : Except LocationError (LocationConf ρ)

/-- `strcmp` returns 0. -/
def strcmp (s t : Bytes) : Bool := cstr s == cstr t

/-- The delimiters of `strtok`. -/
def nameDelim (c : UInt8) : Bool := c == 0x2c || c == 0x20

/-- The blanks that are counted, as far as the length of the text is an `int`. -/
def blanks (serverNames : Bytes) : Nat :=
  ((cstr serverNames).take (toInt (strlen serverNames)).toNat).count 0x20

/-- The loop over the servers: every one with that name. -/
def idsOf (servers : List Bytes) (tok : Bytes) : List Nat :=
  (List.range servers.length).filter fun i => strcmp (servers.getD i []) tok

/-- `fcgi_config_read_location`, with the names of the servers; `regcomp` compiles the
expression, and `granted` is the answer to the memory request. -/
def fcgiConfigReadLocation {ρ : Type} (regcomp : Bytes → Option ρ) (granted : Bool) (servers : List Bytes)
    (sec : ConfigSection) : LocationRead ρ :=
  match mkConfigSectionGetval sec locationNameKey with
  | none => { result := .error .noName }
  | some name =>
      match mkConfigSectionGetval sec matchKey with
      | none => { result := .error .noMatch }
      | some regex =>
          match regcomp ((cstr regex).map fun c => if c == 0x20 then 0x7c else c) with
          | none => { result := .error .regexFailure }
          | some matchRegex =>
              let keepAlive :=
                match mkConfigSectionGetval sec keepAliveKey with
                | some value => strcasecmp value valueOn
                | none => false
              match mkConfigSectionGetval sec serverNamesKey with
              | none => { result := .error .noServers }
              | some serverNames =>
                  if granted then
                    let ids := (strtokAll nameDelim (cstr serverNames)).flatMap (idsOf servers)
                    { allocated := blanks serverNames + 1
                      stores := ids
                      result :=
                        if ids = [] then .error (.noneDeclared name)
                        else .ok ⟨name, matchRegex, { keepAlive := keepAlive, serverIds := ids }⟩ }
                  else { result := .error .outOfMemory }

/-! ## what is asked of it -/

/-- The server with index `id` is declared with that name. -/
def DeclaredAt (servers : List Bytes) (name : Bytes) (id : Nat) : Prop := (servers[id]?).map cstr = some name

/-- How often a name is declared. -/
def declarations (servers : List Bytes) (name : Bytes) : Nat := (servers.map cstr).count name

/-- The names of a text that are declared. -/
def declaredNames (servers : List Bytes) (serverNames : Bytes) : List Bytes :=
  (words nameDelim (cstr serverNames)).filter fun name => 0 < declarations servers name

/-- No more ids are stored than were allocated, and what is read has the id of each name
that is declared, in order. -/
structure IdsRead {ρ : Type} (servers : List Bytes) (serverNames : Bytes) (r : LocationRead ρ) : Prop where
  inside : r.stores.length ≤ r.allocated
  inOrder : ∀ conf, r.result = .ok conf →
    List.Forall₂ (DeclaredAt servers) (declaredNames servers serverNames) conf.location.serverIds

/-- No name of the text is declared twice, and there are not more names that are declared
than there are blanks, and one. -/
structure NamesFit (servers : List Bytes) (serverNames : Bytes) : Prop where
  once : ∀ name ∈ declaredNames servers serverNames, declarations servers name = 1
  room : (declaredNames servers serverNames).length ≤ blanks serverNames + 1

/-- There are no more servers with names of the text than there are blanks, and one. -/
def ServersFit (servers : List Bytes) (serverNames : Bytes) : Prop :=
  ((declaredNames servers serverNames).map (declarations servers)).sum ≤ blanks serverNames + 1

/-- The names are read: all that comes before them is there. -/
def ReachesNames {ρ : Type} (regcomp : Bytes → Option ρ) (granted : Bool) (sec : ConfigSection) : Prop :=
  (mkConfigSectionGetval sec locationNameKey).isSome ∧
    (∃ regex, mkConfigSectionGetval sec matchKey = some regex ∧
      (regcomp ((cstr regex).map fun c => if c == 0x20 then 0x7c else c)).isSome) ∧
    granted = true

/-! ## the ids of a name -/

variable {servers : List Bytes} {tok : Bytes}

theorem map_getD_range (servers : List Bytes) :
    (List.range servers.length).map (fun i => servers.getD i []) = servers := by
  apply List.ext_getElem (by simp)
  intro i hi hi'
  simp [hi']

/-- Every server that has the name gives an id. -/
theorem length_idsOf (h0 : 0 ∉ tok) : (idsOf servers tok).length = declarations servers tok := by
  have hcount : declarations servers tok = servers.countP fun name => strcmp name tok := by
    rw [declarations, List.count, List.countP_map]
    refine List.countP_congr fun name _ => ?_
    rw [Function.comp_apply, strcmp, cstr_eq_self h0]
  rw [idsOf, ← List.countP_eq_length_filter, hcount]
  conv_rhs => rw [← map_getD_range servers, List.countP_map]
  rfl

theorem declaredAt_of_mem_idsOf (h0 : 0 ∉ tok) {id : Nat} (h : id ∈ idsOf servers tok) :
    DeclaredAt servers tok id := by
  obtain ⟨hlt, hname⟩ := List.mem_filter.mp h
  have hlt := List.mem_range.mp hlt
  simp only [strcmp, beq_iff_eq, cstr_eq_self h0] at hname
  rw [DeclaredAt, List.getElem?_eq_getElem hlt, Option.map_some, ← hname,
    List.getD_eq_getElem?_getD, List.getElem?_eq_getElem hlt, Option.getD_some]

/-! ## the ids of a text -/

/-- One id for each name leaves no name with two. -/
theorem flatMap_singletons {names : List Bytes} (hpos : ∀ name ∈ names, 0 < declarations servers name)
    (h0 : ∀ name ∈ names, 0 ∉ name) (h : (names.flatMap (idsOf servers)).length ≤ names.length) :
    ∀ name ∈ names, declarations servers name = 1 := by
  have hgrow : ∀ names : List Bytes, (∀ name ∈ names, 0 < declarations servers name) → (∀ name ∈ names, 0 ∉ name) →
      names.length ≤ (names.flatMap (idsOf servers)).length := by
    intro names hpos h0
    induction names with
    | nil => exact Nat.zero_le _
    | cons name names ih =>
        have hrest := ih (fun n hn => hpos n (List.mem_cons_of_mem _ hn)) fun n hn => h0 n (List.mem_cons_of_mem _ hn)
        have hfirst := hpos name List.mem_cons_self
        rw [List.flatMap_cons, List.length_append, length_idsOf (h0 name List.mem_cons_self), List.length_cons]
        omega
  induction names with
  | nil => exact fun _ h => absurd h List.not_mem_nil
  | cons name names ih =>
      have hpos' : ∀ n ∈ names, 0 < declarations servers n := fun n hn => hpos n (List.mem_cons_of_mem _ hn)
      have h0' : ∀ n ∈ names, 0 ∉ n := fun n hn => h0 n (List.mem_cons_of_mem _ hn)
      have hrest := hgrow names hpos' h0'
      have hfirst := hpos name List.mem_cons_self
      rw [List.flatMap_cons, List.length_append, length_idsOf (h0 name List.mem_cons_self), List.length_cons] at h
      rw [List.forall_mem_cons]
      exact ⟨by omega, ih hpos' h0' (by omega)⟩

/-- Names that are declared once have their ids in order. -/
theorem forall₂_flatMap {names : List Bytes} (h0 : ∀ name ∈ names, 0 ∉ name)
    (honce : ∀ name ∈ names, declarations servers name = 1) :
    List.Forall₂ (DeclaredAt servers) names (names.flatMap (idsOf servers)) := by
  induction names with
  | nil => exact .nil
  | cons name names ih =>
      have hname := h0 name List.mem_cons_self
      have hlen : (idsOf servers name).length = 1 := (length_idsOf hname).trans (honce name List.mem_cons_self)
      obtain ⟨id, hid⟩ := List.length_eq_one_iff.mp hlen
      rw [List.flatMap_cons, hid, List.singleton_append]
      exact .cons (declaredAt_of_mem_idsOf hname (hid ▸ List.mem_singleton_self id))
        (ih (fun n hn => h0 n (List.mem_cons_of_mem _ hn)) fun n hn => honce n (List.mem_cons_of_mem _ hn))

/-- Names that are not declared give no id. -/
theorem flatMap_declaredNames {names : List Bytes} (h0 : ∀ name ∈ names, 0 ∉ name) :
    (names.filter fun name => 0 < declarations servers name).flatMap (idsOf servers) = names.flatMap (idsOf servers) := by
  induction names with
  | nil => rfl
  | cons name names ih =>
      have hrest := ih fun n hn => h0 n (List.mem_cons_of_mem _ hn)
      by_cases hname : 0 < declarations servers name
      · rw [List.filter_cons_of_pos (by simpa using hname), List.flatMap_cons, List.flatMap_cons, hrest]
      · have hnone : idsOf servers name = [] := by
          rw [← List.length_eq_zero_iff, length_idsOf (h0 name List.mem_cons_self)]
          omega
        rw [List.filter_cons_of_neg (by simpa using hname), List.flatMap_cons, hnone, List.nil_append, hrest]

theorem zero_notMem_declaredNames (servers : List Bytes) (serverNames : Bytes) :
    ∀ name ∈ declaredNames servers serverNames, 0 ∉ name := by
  intro name hname h0
  exact zero_notMem_cstr serverNames (mem_of_mem_words (List.mem_filter.mp hname).1 0 h0)

/-- All the ids that are stored. -/
theorem stored_eq (servers : List Bytes) (serverNames : Bytes) :
    (strtokAll nameDelim (cstr serverNames)).flatMap (idsOf servers) =
      (declaredNames servers serverNames).flatMap (idsOf servers) := by
  rw [strtokAll_eq, declaredNames, flatMap_declaredNames]
  exact fun name hname h0 => zero_notMem_cstr serverNames (mem_of_mem_words hname 0 h0)

/-! ## the calls -/

section read

variable {ρ : Type} {regcomp : Bytes → Option ρ} {granted : Bool} {sec : ConfigSection} {serverNames : Bytes}

variable (servers) in
/-- What a call stores and returns once it reads the names. -/
theorem read_of_reaches (htext : mkConfigSectionGetval sec serverNamesKey = some serverNames)
    (h : ReachesNames regcomp granted sec) :
    let ids := (declaredNames servers serverNames).flatMap (idsOf servers)
    let r := fcgiConfigReadLocation regcomp granted servers sec
    r.allocated = blanks serverNames + 1 ∧ r.stores = ids ∧
      if ids = [] then ∀ conf, r.result ≠ .ok conf else ∃ conf, r.result = .ok conf ∧ conf.location.serverIds = ids := by
  obtain ⟨hname, ⟨regex, hregex, hcomp⟩, rfl⟩ := h
  obtain ⟨name, hname⟩ := Option.isSome_iff_exists.mp hname
  obtain ⟨matchRegex, hcomp⟩ := Option.isSome_iff_exists.mp hcomp
  intro ids r
  have hr : r = fcgiConfigReadLocation regcomp true servers sec := rfl
  simp only [fcgiConfigReadLocation, hname, hregex, hcomp, htext, if_true, stored_eq] at hr
  rw [hr]
  refine ⟨rfl, rfl, ?_⟩
  split
  · exact fun conf hok => nomatch hok
  · exact ⟨_, rfl, rfl⟩

variable (servers) in
/-- Otherwise it stores nothing and fails. -/
theorem read_of_not_reaches (htext : mkConfigSectionGetval sec serverNamesKey = some serverNames)
    (h : ¬ ReachesNames regcomp granted sec) :
    (fcgiConfigReadLocation regcomp granted servers sec).stores = [] ∧
      ∀ conf, (fcgiConfigReadLocation regcomp granted servers sec).result ≠ .ok conf := by
  unfold fcgiConfigReadLocation
  split
  · exact ⟨rfl, nofun⟩
  · next name hname =>
      split
      · exact ⟨rfl, nofun⟩
      · next regex hregex =>
          split
          · exact ⟨rfl, nofun⟩
          · next matchRegex hcomp =>
              have hgranted : granted = false := by
                rw [← Bool.not_eq_true]
                intro hgranted
                exact h ⟨Option.isSome_of_eq_some hname, ⟨regex, hregex, Option.isSome_of_eq_some hcomp⟩, hgranted⟩
              simp [htext, hgranted]

/-- The ids fit the array just when the servers do. -/
theorem stores_inside_iff (htext : mkConfigSectionGetval sec serverNamesKey = some serverNames) :
    (fcgiConfigReadLocation regcomp granted servers sec).stores.length ≤
        (fcgiConfigReadLocation regcomp granted servers sec).allocated ↔
      (ReachesNames regcomp granted sec → ServersFit servers serverNames) := by
  have h0 := zero_notMem_declaredNames servers serverNames
  by_cases hreach : ReachesNames regcomp granted sec
  · obtain ⟨hallocated, hstores, -⟩ := read_of_reaches servers htext hreach
    have hsum : (declaredNames servers serverNames).map (fun name => (idsOf servers name).length) =
        (declaredNames servers serverNames).map (declarations servers) :=
      List.map_congr_left fun name hname => length_idsOf (h0 name hname)
    rw [hstores, hallocated, List.length_flatMap, hsum]
    exact ⟨fun h _ => h, fun h => h hreach⟩
  · obtain ⟨hstores, -⟩ := read_of_not_reaches servers htext hreach
    rw [hstores]
    exact ⟨fun _ h => absurd h hreach, fun _ => Nat.zero_le _⟩

theorem idsRead_of_fit (htext : mkConfigSectionGetval sec serverNamesKey = some serverNames)
    (hreach : ReachesNames regcomp granted sec) (hfit : NamesFit servers serverNames) :
    IdsRead servers serverNames (fcgiConfigReadLocation regcomp granted servers sec) := by
  obtain ⟨hallocated, hstores, hresult⟩ := read_of_reaches servers htext hreach
  have hids := forall₂_flatMap (zero_notMem_declaredNames servers serverNames) hfit.once
  refine ⟨?_, fun conf hok => ?_⟩
  · rw [hstores, hallocated, ← hids.length_eq]
    exact hfit.room
  · split at hresult
    · exact absurd hok (hresult conf)
    · obtain ⟨conf', hok', hids'⟩ := hresult
      obtain rfl : conf' = conf := Except.ok.inj (hok'.symm.trans hok)
      rwa [hids']

theorem fit_of_idsRead (htext : mkConfigSectionGetval sec serverNamesKey = some serverNames)
    (hreach : ReachesNames regcomp granted sec)
    (h : IdsRead servers serverNames (fcgiConfigReadLocation regcomp granted servers sec)) :
    NamesFit servers serverNames := by
  have h0 := zero_notMem_declaredNames servers serverNames
  obtain ⟨hallocated, hstores, hresult⟩ := read_of_reaches servers htext hreach
  have honce : ∀ name ∈ declaredNames servers serverNames, declarations servers name = 1 := by
    refine flatMap_singletons (fun name hname => by simpa using (List.mem_filter.mp hname).2) h0 ?_
    split at hresult
    · next hnil => rw [hnil]; exact Nat.zero_le _
    · obtain ⟨conf, hok, hids⟩ := hresult
      rw [← hids, ← (h.inOrder conf hok).length_eq]
  refine ⟨honce, ?_⟩
  rw [(forall₂_flatMap h0 honce).length_eq, ← hstores, ← hallocated]
  exact h.inside

/-- **Exactly when the ids are the names'**: the call stores no more ids than it allocated,
and on success has the id of each declared name in order, just when no declared name of the
text is declared twice and they are at most one more than the blanks.  The ids are inside
the array just when there are at most one more servers with these names than blanks. -/
theorem serverIds_read_iff (htext : mkConfigSectionGetval sec serverNamesKey = some serverNames) :
    (IdsRead servers serverNames (fcgiConfigReadLocation regcomp granted servers sec) ↔
        (ReachesNames regcomp granted sec → NamesFit servers serverNames)) ∧
      ((fcgiConfigReadLocation regcomp granted servers sec).stores.length ≤
          (fcgiConfigReadLocation regcomp granted servers sec).allocated ↔
        (ReachesNames regcomp granted sec → ServersFit servers serverNames)) := by
  refine ⟨⟨fun h hreach => fit_of_idsRead htext hreach h, fun h => ?_⟩, stores_inside_iff htext⟩
  by_cases hreach : ReachesNames regcomp granted sec
  · exact idsRead_of_fit htext hreach (h hreach)
  · obtain ⟨hstores, hfail⟩ := read_of_not_reaches servers htext hreach
    refine ⟨?_, fun conf hok => absurd hok (hfail conf)⟩
    rw [hstores]
    exact Nat.zero_le _

end read

/-! ## a section -/

/-- A section with these `ServerNames`. -/
def locationSection (serverNames : Bytes) : ConfigSection :=
  { name := ascii "FASTCGI_LOCATION".toList
    entries := [⟨locationNameKey, ascii "php".toList⟩, ⟨matchKey, ascii "/php".toList⟩, ⟨serverNamesKey, serverNames⟩] }

/-- Two servers after a comma and a blank have their ids. -/
theorem serverIds_read_of_blank :
    IdsRead [[0x61], [0x62]] (ascii "a, b".toList)
      (fcgiConfigReadLocation some true [[0x61], [0x62]] (locationSection (ascii "a, b".toList))) :=
  (serverIds_read_iff rfl).1.mpr fun _ => ⟨by decide +kernel, by decide +kernel⟩

/-- With a comma alone the second id is stored behind the array. -/
theorem serverIds_outside_of_comma :
    ¬ IdsRead [[0x61], [0x62]] (ascii "a,b".toList)
      (fcgiConfigReadLocation some true [[0x61], [0x62]] (locationSection (ascii "a,b".toList))) :=
  fun h => absurd h.inside (by decide +kernel)

end Monkey.Fastcgi
