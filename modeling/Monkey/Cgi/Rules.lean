import Monkey.Config.Hosts

/-!
# Monkey.Cgi.Rules

Which requests the cgi plugin runs: the `Match` lines of its configuration, and the
stage 30 hook.

A virtual host keeps the rule of its last line only, linked twice, and without any
virtual host in the table the hook runs what no expression matched.

The expressions are known by two functions, one that compiles a text or fails and one that
matches with what was compiled.  Of the configuration there are the sections, as
`mk_config_create` has read them; the worker's list of requests is only asked whether the socket
is busy.
-/

namespace Monkey.Cgi

open Config (ConfigEntry ConfigSection mkConfigSectionGetval mkStringSplitLine)

/-! ## mk_list.h -/

/-- A pointer of a list: to the head, or to one of the nodes allocated. -/
inductive Link
  | null
  | head
  | node (k : Nat)
deriving DecidableEq, Repr

/-- The pointers of a list and of its nodes. -/
structure MkList where
  next : Link → Link
  prev : Link → Link

/-- A list in zeroed memory. -/
def MkList.zero : MkList := ⟨fun _ => .null, fun _ => .null⟩

/-- `mk_list_init`. -/
def mkListInit (list : MkList) : MkList :=
  ⟨Function.update list.next .head .head, Function.update list.prev .head .head⟩

/-- `mk_list_add`: `new` goes between the last node and the head. -/
def mkListAdd (list : MkList) (new : Link) : MkList :=
  let prev := list.prev .head
  ⟨Function.update (Function.update list.next new .head) prev new,
    Function.update (Function.update list.prev .head new) new prev⟩

/-- **A node linked twice** follows itself; the head still leads to it. -/
theorem mkListAdd_twice (list : MkList) (k : Nat) :
    (mkListAdd (mkListAdd (mkListInit list) (.node k)) (.node k)).next .head = .node k ∧
      (mkListAdd (mkListAdd (mkListInit list) (.node k)) (.node k)).next (.node k) = .node k := by
  simp [mkListAdd, mkListInit, Function.update]

/-! ## the configuration -/

/-- `struct cgi_vhost_match_t`.  An expression that did not compile is no object to match
with; the fields of words that are missing are never set. -/
structure CgiVhostMatch (Regex : Type) where
  regex : Option Regex
  bin : Option Bytes
  contentType : Option Bytes
deriving DecidableEq, Repr

/-- `struct cgi_vhost_t`: the place of the host in `config->hosts`, and the list with the
nodes allocated for it. -/
structure CgiVhost (Regex : Type) where
  host : Nat
  nodes : List (CgiVhostMatch Regex) := []
  list : MkList := MkList.zero

/-- `match_regex`, if it was compiled, and `cgi_vhosts`. -/
structure CgiConfig (Regex : Type) where
  matchRegex : Option Regex
  cgiVhosts : Option (List (CgiVhost Regex))

section regex

variable {Regex : Type} (regcomp : Bytes → Option Regex)

/-- `str_to_regex`. -/
def strToRegex (str : Bytes) : Option Regex :=
  regcomp ((cstr str).map fun c => if c = 0x20 then 0x7c else c)

/-- The rule of the words of a line. -/
def matchLine (expression : Bytes) (words : List Bytes) : CgiVhostMatch Regex where
  regex := strToRegex regcomp expression
  bin := words[0]?
  contentType := words[1]?

/-- One `Match` line: the list starts anew, and the node is added with the first word and
again behind the last.  Without words the second time is for `NULL`. -/
def cgiMatchLine (vhost : CgiVhost Regex) : List Bytes → Option (CgiVhost Regex)
  | [] => none
  | expression :: words =>
      let vmatchLine := Link.node vhost.nodes.length
      some { vhost with
        nodes := vhost.nodes ++ [matchLine regcomp expression words]
        list := mkListAdd (mkListAdd (mkListInit vhost.list) vmatchLine) vmatchLine }

/-- The test for the key; it is compared as far as it goes. -/
def isMatchKey (key : Bytes) : Bool := strncasecmp key (ascii "Match".toList) (strlen key)

/-- The loop over the entries of a section. -/
def cgiSection : CgiVhost Regex → List ConfigEntry → Option (CgiVhost Regex)
  | vhost, [] => some vhost
  | vhost, entry :: entries =>
      if isMatchKey entry.key then
        (cgiMatchLine regcomp vhost (mkStringSplitLine entry.val)).bind fun vhost => cgiSection vhost entries
      else cgiSection vhost entries

/-- The loop over the hosts, from one of this place on. -/
def cgiHosts : Nat → List (Option ConfigSection) → Option (List (CgiVhost Regex))
  | _, [] => some []
  | i, none :: hosts => cgiHosts (i + 1) hosts
  | i, some sec :: hosts =>
      (cgiSection regcomp { host := i } sec.entries).bind fun vhost =>
        (cgiHosts (i + 1) hosts).map fun vhosts => vhost :: vhosts

/-- `cgi_read_config`: the section `CGI` of `cgi.conf`, if there is one, and those of the
hosts. -/
def cgiReadConfig (conf : Option ConfigSection) (hosts : List (Option ConfigSection)) : Option (CgiConfig Regex) :=
  let matchRegex := (conf.bind (mkConfigSectionGetval · (ascii "Match".toList))).bind (strToRegex regcomp)
  if hosts.all Option.isNone then some ⟨matchRegex, none⟩
  else (cgiHosts regcomp 0 hosts).map fun vhosts => ⟨matchRegex, some vhosts⟩

end regex

/-! ## the hook -/

/-- The argument `match` of `do_cgi`. -/
inductive MatchArg (Regex : Type)
  | unset
  | null
  | rule (vmatch : CgiVhostMatch Regex)
deriving DecidableEq

/-- What the hook comes to. -/
inductive Outcome (Regex : Type)
  | notMe
  | retry
  | doCgi (file url : Bytes) (vmatch : MatchArg Regex)
deriving DecidableEq

/-- `PATHLEN`. -/
def pathLen : Nat := 1024

section regex

variable {Regex : Type} (regexec : Regex → Bytes → Bool)

/-- The end of `_mkp_stage_30`, `busy` telling whether `requests_by_socket` has a request for
the socket. -/
def startCgi (busy : Bool) (sr : SessionRequest) (vmatch : MatchArg Regex) : Outcome Regex :=
  if busy then .retry else .doCgi sr.realPath sr.uri.text vmatch

/-- `_mkp_stage_30` for a request of the host at a place of `config->hosts`.  `regexec` matches
with a compiled object.  There is no result where it would be given one that is not (without
a global `Match`, or for an expression with an error), nor where the list of the host was
never initialised: both end the server.  What the hook leaves in the request behind `do_cgi`
is for the logger only, and not modelled. -/
def mkpStage30 (config : CgiConfig Regex) (host : Nat) (busy : Bool) (sr : SessionRequest) :
    Option (Outcome Regex) :=
  if sr.uri.len + 1 > pathLen then some .notMe
  else if sr.fileInfo.isFile = false then some .notMe
  else
    config.matchRegex.bind fun object =>
      if regexec object (cstr sr.uri.text) then some (startCgi busy sr .unset)
      else
        match config.cgiVhosts with
        | none => some (startCgi busy sr .unset)
        | some vhosts =>
            match vhosts.find? fun vhost => vhost.host == host with
            | none => some .notMe
            | some vhost =>
                match vhost.list.next .head with
                | .null => none
                | .head => some (startCgi busy sr .unset)
                | .node k =>
                    (vhost.nodes[k]?).bind fun vmatch =>
                      vmatch.regex.map fun object =>
                        if regexec object (cstr sr.uri.text) then startCgi busy sr (.rule vmatch) else .notMe

end regex

/-! ## what is to be run -/

section regex

variable {Regex : Type} (regcomp : Bytes → Option Regex) (regexec : Regex → Bytes → Bool)

/-- The rule of a value, if it has words. -/
def lineRule (val : Bytes) : Option (CgiVhostMatch Regex) :=
  match mkStringSplitLine val with
  | [] => none
  | expression :: words => some (matchLine regcomp expression words)

/-- The rules of the `Match` lines of a section. -/
def sectionRules (entries : List ConfigEntry) : List (CgiVhostMatch Regex) :=
  entries.filterMap fun entry =>
    if strcasecmp entry.key (ascii "Match".toList) then lineRule regcomp entry.val else none

/-- The rule of the last line taken for a `Match` line. -/
def lastRule (entries : List ConfigEntry) : Option (CgiVhostMatch Regex) :=
  (entries.filterMap fun entry => if isMatchKey entry.key then lineRule regcomp entry.val else none).getLast?

/-- The section `CGI` of the host at a place. -/
def hostSection (hosts : List (Option ConfigSection)) (host : Nat) : Option ConfigSection := hosts[host]?.join

def hostRules (hosts : List (Option ConfigSection)) (host : Nat) : List (CgiVhostMatch Regex) :=
  (hostSection hosts host).elim [] fun sec => sectionRules regcomp sec.entries

/-- An expression that was compiled matches. -/
def ExprMatches (regex : Option Regex) (url : Bytes) : Prop := ∃ object, regex = some object ∧ regexec object url = true

def NoInterpreter : MatchArg Regex → Prop
  | .unset => False
  | .null => True
  | .rule vmatch => vmatch.bin = none

/-- What the hook is to come to: the script is run for the global expression without an
interpreter, else for a rule of the host that matches, else not. -/
def Expected (config : CgiConfig Regex) (rules : List (CgiVhostMatch Regex)) (sr : SessionRequest)
    (outcome : Outcome Regex) : Prop :=
  (ExprMatches regexec config.matchRegex (cstr sr.uri.text) →
    ∃ arg, outcome = .doCgi sr.realPath sr.uri.text arg ∧ NoInterpreter arg) ∧
  (¬ ExprMatches regexec config.matchRegex (cstr sr.uri.text) →
    (∃ rule ∈ rules, ExprMatches regexec rule.regex (cstr sr.uri.text)) →
      ∃ rule ∈ rules, ExprMatches regexec rule.regex (cstr sr.uri.text) ∧
        outcome = .doCgi sr.realPath sr.uri.text (.rule rule)) ∧
  (¬ ExprMatches regexec config.matchRegex (cstr sr.uri.text) →
    (¬ ∃ rule ∈ rules, ExprMatches regexec rule.regex (cstr sr.uri.text)) →
      ∀ file url arg, outcome ≠ .doCgi file url arg)

/-- The hook comes to that. -/
def Right (config : CgiConfig Regex) (hosts : List (Option ConfigSection)) (host : Nat) (busy : Bool)
    (sr : SessionRequest) : Prop :=
  ∃ outcome, mkpStage30 regexec config host busy sr = some outcome ∧
    Expected regexec config (hostRules regcomp hosts host) sr outcome

/-! ## where it is -/

/-- Some expression matches the URI. -/
def Matched (config : CgiConfig Regex) (rules : List (CgiVhostMatch Regex)) (url : Bytes) : Prop :=
  ExprMatches regexec config.matchRegex url ∨ ∃ rule ∈ rules, ExprMatches regexec rule.regex url

/-- The URI fits, and the global expression was compiled and does not match. -/
def PastGlobal (config : CgiConfig Regex) (sr : SessionRequest) : Prop :=
  sr.uri.len + 1 ≤ pathLen ∧ ∃ object, config.matchRegex = some object ∧ regexec object (cstr sr.uri.text) = false

/-- What there is for a host behind the global expression: a request open on the socket, or
no section where another host has one, or a last rule that was compiled and does not match. -/
def LeftByHost (hosts : List (Option ConfigSection)) (host : Nat) (busy : Bool) (url : Bytes) : Prop :=
  match hostSection hosts host with
  | none => busy = true ∨ ∃ h, (hostSection hosts h).isSome
  | some sec => ∃ rule object, lastRule regcomp sec.entries = some rule ∧ rule.regex = some object ∧
      (busy = true ∨ regexec object url = false)

/-- The hook leaves the request alone. -/
def Left (config : CgiConfig Regex) (hosts : List (Option ConfigSection)) (host : Nat) (busy : Bool)
    (sr : SessionRequest) : Prop :=
  pathLen < sr.uri.len + 1 ∨
    (PastGlobal regexec config sr ∧ LeftByHost regcomp regexec hosts host busy (cstr sr.uri.text))

/-- The hook runs the request for the last rule of its host. -/
def Run (config : CgiConfig Regex) (hosts : List (Option ConfigSection)) (host : Nat) (busy : Bool)
    (sr : SessionRequest) : Prop :=
  PastGlobal regexec config sr ∧ busy = false ∧
    ∃ sec, hostSection hosts host = some sec ∧ ∃ rule, lastRule regcomp sec.entries = some rule ∧
      rule ∈ hostRules regcomp hosts host ∧ ExprMatches regexec rule.regex (cstr sr.uri.text)

end regex

/-! ## the loader -/

section regex

variable {Regex : Type} {regcomp : Bytes → Option Regex}

/-- The head of a list leads to the node of a rule. -/
def LeadsTo (vhost : CgiVhost Regex) (rule : CgiVhostMatch Regex) : Prop :=
  ∃ k, vhost.list.next .head = .node k ∧ vhost.nodes[k]? = some rule

theorem cgiMatchLine_spec {vhost vhost' : CgiVhost Regex} {val : Bytes}
    (h : cgiMatchLine regcomp vhost (mkStringSplitLine val) = some vhost') :
    ∃ rule, lineRule regcomp val = some rule ∧ LeadsTo vhost' rule ∧ vhost'.host = vhost.host := by
  unfold lineRule
  cases hwords : mkStringSplitLine val with
  | nil =>
      rw [hwords] at h
      contradiction
  | cons expression words =>
      rw [hwords] at h
      obtain rfl := Option.some.inj h
      refine ⟨_, rfl, ⟨vhost.nodes.length, (mkListAdd_twice vhost.list vhost.nodes.length).1, ?_⟩, rfl⟩
      rw [List.getElem?_append_right le_rfl, Nat.sub_self]
      rfl

/-- **A section**: its last line is what the head leads to. -/
theorem cgiSection_spec {entries : List ConfigEntry} {vhost vhost' : CgiVhost Regex}
    (h : cgiSection regcomp vhost entries = some vhost') :
    vhost'.host = vhost.host ∧
      match lastRule regcomp entries with
      | none => vhost' = vhost
      | some rule => LeadsTo vhost' rule := by
  induction entries generalizing vhost with
  | nil =>
      obtain rfl := Option.some.inj h
      exact ⟨rfl, rfl⟩
  | cons entry entries ih =>
      obtain ⟨key, val⟩ := entry
      unfold cgiSection at h
      unfold lastRule
      by_cases hkey : isMatchKey key = true
      · rw [if_pos hkey] at h
        obtain ⟨vhost₁, hline, hrest⟩ := Option.bind_eq_some_iff.mp h
        obtain ⟨rule, hrule, hleads, hhost⟩ := cgiMatchLine_spec hline
        obtain ⟨hhost', hlast⟩ := ih hrest
        rw [List.filterMap_cons_some (by rw [if_pos hkey, hrule]), List.getLast?_cons]
        refine ⟨hhost'.trans hhost, ?_⟩
        unfold lastRule at hlast
        cases hrules : (entries.filterMap fun entry =>
            if isMatchKey entry.key then lineRule regcomp entry.val else none).getLast? with
        | none =>
            rw [hrules] at hlast
            obtain rfl := hlast
            exact hleads
        | some rule' =>
            rw [hrules] at hlast
            exact hlast
      · rw [if_neg hkey] at h
        rw [List.filterMap_cons_none (by rw [if_neg hkey])]
        exact ih h

theorem cgiHosts_le {i : Nat} {hosts : List (Option ConfigSection)} {vhosts : List (CgiVhost Regex)}
    (h : cgiHosts regcomp i hosts = some vhosts) : ∀ vhost ∈ vhosts, i ≤ vhost.host := by
  induction hosts generalizing i vhosts with
  | nil =>
      obtain rfl := Option.some.inj h
      exact fun _ hv => absurd hv List.not_mem_nil
  | cons host hosts ih =>
      cases host with
      | none => exact fun vhost hv => (Nat.le_succ i).trans (ih h vhost hv)
      | some sec =>
          obtain ⟨vhost, hsection, hrest⟩ := Option.bind_eq_some_iff.mp h
          obtain ⟨vhosts', hvhosts, rfl⟩ := Option.map_eq_some_iff.mp hrest
          intro v hv
          rcases List.mem_cons.mp hv with rfl | hv
          · exact (cgiSection_spec hsection).1.ge
          · exact (Nat.le_succ i).trans (ih hvhosts v hv)

/-- **The table** has the hosts with a section, each with what its entries leave. -/
theorem cgiHosts_spec {i : Nat} {hosts : List (Option ConfigSection)} {vhosts : List (CgiVhost Regex)}
    (h : cgiHosts regcomp i hosts = some vhosts) (host : Nat) :
    match hostSection hosts host with
    | none => (vhosts.find? fun vhost => vhost.host == i + host) = none
    | some sec => ∃ vhost, (vhosts.find? fun vhost => vhost.host == i + host) = some vhost ∧
        cgiSection regcomp { host := i + host } sec.entries = some vhost := by
  induction hosts generalizing i vhosts host with
  | nil =>
      obtain rfl := Option.some.inj h
      rfl
  | cons first hosts ih =>
      cases first with
      | none =>
          cases host with
          | zero =>
              refine List.find?_eq_none.mpr fun vhost hv => ?_
              have := @cgiHosts_le _ regcomp (i + 1) hosts vhosts h vhost hv
              simp only [beq_iff_eq]
              omega
          | succ host =>
              have hspec := ih h host
              rwa [show i + 1 + host = i + (host + 1) by omega] at hspec
      | some sec =>
          obtain ⟨vhost, hsection, hrest⟩ := Option.bind_eq_some_iff.mp h
          obtain ⟨vhosts', hvhosts, rfl⟩ := Option.map_eq_some_iff.mp hrest
          have hhost : vhost.host = i := (cgiSection_spec hsection).1
          cases host with
          | zero => exact ⟨vhost, List.find?_cons_of_pos (by rw [hhost]; exact beq_self_eq_true i), hsection⟩
          | succ host =>
              have hspec := ih hvhosts host
              rw [show i + 1 + host = i + (host + 1) by omega] at hspec
              have hother : (vhost :: vhosts').find? (fun vhost => vhost.host == i + (host + 1)) =
                  vhosts'.find? fun vhost => vhost.host == i + (host + 1) := by
                refine List.find?_cons_of_neg ?_
                rw [hhost, beq_iff_eq]
                omega
              rw [hother]
              exact hspec

end regex

/-- No host has a section. -/
theorem all_isNone_iff {hosts : List (Option ConfigSection)} :
    hosts.all Option.isNone = true ↔ ∀ host, hostSection hosts host = none := by
  rw [List.all_eq_true]
  constructor
  · intro h host
    unfold hostSection
    cases hget : hosts[host]? with
    | none => rfl
    | some first => exact Option.isNone_iff_eq_none.mp (h first (List.mem_of_getElem? hget))
  · intro h first hfirst
    obtain ⟨host, hget⟩ := List.mem_iff_getElem?.mp hfirst
    have hnone := h host
    rw [hostSection, hget] at hnone
    exact Option.isNone_iff_eq_none.mpr hnone

/-! ## who is run -/

section regex

variable {Regex : Type} {regcomp : Bytes → Option Regex} {regexec : Regex → Bytes → Bool}
  {config : CgiConfig Regex} {hosts : List (Option ConfigSection)} {host : Nat} {busy : Bool} {sr : SessionRequest}

/-- Without a match the hook is right in not running the request. -/
theorem expected_of_not_matched {outcome : Outcome Regex}
    (hmatched : ¬ Matched regexec config (hostRules regcomp hosts host) (cstr sr.uri.text)) :
    Expected regexec config (hostRules regcomp hosts host) sr outcome ↔
      ∀ file url arg, outcome ≠ .doCgi file url arg := by
  obtain ⟨hglobal, hrules⟩ := not_or.mp hmatched
  constructor
  · exact fun h => h.2.2 hglobal hrules
  · exact fun h => ⟨fun hg => absurd hg hglobal, fun _ hr => absurd hr hrules, fun _ _ => h⟩

/-- With a match it is to run it. -/
theorem doCgi_of_expected {outcome : Outcome Regex}
    (h : Expected regexec config (hostRules regcomp hosts host) sr outcome)
    (hmatched : Matched regexec config (hostRules regcomp hosts host) (cstr sr.uri.text)) :
    ∃ arg, outcome = .doCgi sr.realPath sr.uri.text arg ∧ arg ≠ .unset := by
  by_cases hglobal : ExprMatches regexec config.matchRegex (cstr sr.uri.text)
  · obtain ⟨arg, houtcome, hno⟩ := h.1 hglobal
    refine ⟨arg, houtcome, ?_⟩
    rintro rfl
    exact hno
  · obtain ⟨rule, -, -, houtcome⟩ := h.2.1 hglobal (hmatched.resolve_left hglobal)
    exact ⟨_, houtcome, nofun⟩

/-- A hook that leaves the request is right if nothing matches. -/
theorem right_of_left {outcome : Outcome Regex} (hhook : mkpStage30 regexec config host busy sr = some outcome)
    (hleft : ∀ file url arg, outcome ≠ .doCgi file url arg) :
    Right regcomp regexec config hosts host busy sr ↔
      ¬ Matched regexec config (hostRules regcomp hosts host) (cstr sr.uri.text) := by
  constructor
  · rintro ⟨outcome', hhook', hexpected⟩ hmatched
    obtain rfl := Option.some.inj (hhook.symm.trans hhook')
    obtain ⟨arg, houtcome, -⟩ := doCgi_of_expected hexpected hmatched
    exact hleft _ _ _ houtcome
  · exact fun hmatched => ⟨outcome, hhook, (expected_of_not_matched hmatched).mpr hleft⟩

/-- A hook that runs the request without a rule is never right. -/
theorem not_right_of_unset (hhook : mkpStage30 regexec config host false sr = some (startCgi false sr .unset)) :
    ¬ Right regcomp regexec config hosts host false sr := by
  rintro ⟨outcome, hhook', hexpected⟩
  obtain rfl := Option.some.inj (hhook.symm.trans hhook')
  by_cases hmatched : Matched regexec config (hostRules regcomp hosts host) (cstr sr.uri.text)
  · obtain ⟨arg, houtcome, hset⟩ := doCgi_of_expected hexpected hmatched
    have harg : (Outcome.doCgi sr.realPath sr.uri.text (MatchArg.unset : MatchArg Regex)) =
      .doCgi sr.realPath sr.uri.text arg := houtcome
    injection harg with _ _ harg
    exact hset harg.symm
  · exact (expected_of_not_matched hmatched).mp hexpected _ _ _ rfl

/-- **The hook** by the configuration: of a host the last line decides. -/
theorem mkpStage30_eq {conf : Option ConfigSection} (hload : cgiReadConfig regcomp conf hosts = some config)
    (hfile : sr.fileInfo.isFile = true) :
    mkpStage30 regexec config host busy sr =
      if sr.uri.len + 1 > pathLen then some .notMe
      else config.matchRegex.bind fun object =>
        if regexec object (cstr sr.uri.text) then some (startCgi busy sr .unset)
        else
          match hostSection hosts host with
          | none => if hosts.all Option.isNone then some (startCgi busy sr .unset) else some .notMe
          | some sec => (lastRule regcomp sec.entries).bind fun rule => rule.regex.map fun object =>
              if regexec object (cstr sr.uri.text) then startCgi busy sr (.rule rule) else .notMe := by
  unfold mkpStage30
  rw [if_neg (show ¬ sr.fileInfo.isFile = false by rw [hfile]; exact Bool.noConfusion)]
  refine if_congr Iff.rfl rfl (Option.bind_congr fun object _ => if_congr Iff.rfl rfl ?_)
  unfold cgiReadConfig at hload
  by_cases hnone : hosts.all Option.isNone = true
  · rw [if_pos hnone] at hload
    obtain rfl := Option.some.inj hload
    rw [all_isNone_iff.mp hnone host, if_pos hnone]
  · rw [if_neg hnone] at hload
    obtain ⟨vhosts, hvhosts, rfl⟩ := Option.map_eq_some_iff.mp hload
    have htable := cgiHosts_spec hvhosts host
    rw [Nat.zero_add] at htable
    cases hsection : hostSection hosts host with
    | none =>
        rw [hsection] at htable
        dsimp only at htable ⊢
        rw [htable, if_neg hnone]
    | some sec =>
        rw [hsection] at htable
        obtain ⟨vhost, hfind, hentries⟩ := htable
        have hlast := (cgiSection_spec hentries).2
        dsimp only
        rw [hfind]
        dsimp only
        cases hrule : lastRule regcomp sec.entries with
        | none =>
            rw [hrule] at hlast
            rw [show vhost.list.next .head = .null by rw [hlast]; rfl]
            rfl
        | some rule =>
            rw [hrule] at hlast
            obtain ⟨k, hnext, hnode⟩ := hlast
            rw [hnext]
            dsimp only
            rw [hnode]

/-- A hook that runs the request for a rule is right if the rule is one of the host and its
expression was compiled. -/
theorem right_of_rule {rule : CgiVhostMatch Regex}
    (hhook : mkpStage30 regexec config host false sr = some (startCgi false sr (.rule rule)))
    (hno : ¬ ExprMatches regexec config.matchRegex (cstr sr.uri.text)) :
    Right regcomp regexec config hosts host false sr ↔
      rule ∈ hostRules regcomp hosts host ∧ ExprMatches regexec rule.regex (cstr sr.uri.text) := by
  constructor
  · rintro ⟨outcome, hhook', hexpected⟩
    obtain rfl := Option.some.inj (hhook.symm.trans hhook')
    by_cases hrules : ∃ rule ∈ hostRules regcomp hosts host, ExprMatches regexec rule.regex (cstr sr.uri.text)
    · obtain ⟨rule', hmem, hmatch, houtcome⟩ := hexpected.2.1 hno hrules
      have harg : (Outcome.doCgi sr.realPath sr.uri.text (.rule rule)) =
        .doCgi sr.realPath sr.uri.text (.rule rule') := houtcome
      injection harg with _ _ harg
      injection harg with harg
      subst harg
      exact ⟨hmem, hmatch⟩
    · exact absurd rfl (hexpected.2.2 hno hrules _ _ _)
  · rintro ⟨hmem, hmatch⟩
    exact ⟨_, hhook, fun hg => absurd hg hno, fun _ _ => ⟨rule, hmem, hmatch, rfl⟩,
      fun _ hnone => absurd ⟨rule, hmem, hmatch⟩ hnone⟩

/-- A hook that does not return is never right. -/
theorem not_right_of_none (hhook : mkpStage30 regexec config host busy sr = none) :
    ¬ Right regcomp regexec config hosts host busy sr := by
  rintro ⟨outcome, hout, -⟩
  rw [hhook] at hout
  contradiction

/-- The hook is right as it should be if it leaves the request. -/
theorem right_iff_of_leaves {outcome : Outcome Regex}
    (hhook : mkpStage30 regexec config host busy sr = some outcome)
    (hno : ∀ file url arg, outcome ≠ .doCgi file url arg) (hleft : Left regcomp regexec config hosts host busy sr)
    (hrun : ¬ Run regcomp regexec config hosts host busy sr) :
    Right regcomp regexec config hosts host busy sr ↔
      (¬ Matched regexec config (hostRules regcomp hosts host) (cstr sr.uri.text) ∧
        Left regcomp regexec config hosts host busy sr) ∨
      Run regcomp regexec config hosts host busy sr := by
  rw [right_of_left hhook hno, or_iff_left hrun, and_iff_left hleft]

/-- And if it does neither. -/
theorem right_iff_of_wrong (hright : ¬ Right regcomp regexec config hosts host busy sr)
    (hleft : ¬ Left regcomp regexec config hosts host busy sr)
    (hrun : ¬ Run regcomp regexec config hosts host busy sr) :
    Right regcomp regexec config hosts host busy sr ↔
      (¬ Matched regexec config (hostRules regcomp hosts host) (cstr sr.uri.text) ∧
        Left regcomp regexec config hosts host busy sr) ∨
      Run regcomp regexec config hosts host busy sr :=
  iff_of_false hright fun h => h.elim (fun h => hleft h.2) hrun

/-- What is left of the conditions behind the global expression. -/
theorem left_iff_of_past (hpast : PastGlobal regexec config sr) :
    Left regcomp regexec config hosts host busy sr ↔
      LeftByHost regcomp regexec hosts host busy (cstr sr.uri.text) := by
  have hshort := hpast.1
  rw [Left, or_iff_right (by omega), and_iff_right hpast]

/-- Behind a global expression that does not match, it is the host that counts. -/
theorem PastGlobal.not_exprMatches (hpast : PastGlobal regexec config sr) :
    ¬ ExprMatches regexec config.matchRegex (cstr sr.uri.text) := by
  obtain ⟨-, object, hobject, hfalse⟩ := hpast
  rintro ⟨object', hobject', htrue⟩
  obtain rfl := Option.some.inj (hobject.symm.trans hobject')
  exact absurd (htrue.symm.trans hfalse) Bool.noConfusion

/-- A host without a section. -/
theorem right_iff_of_no_section (hpast : PastGlobal regexec config sr) (hsection : hostSection hosts host = none)
    (hhook : mkpStage30 regexec config host busy sr =
      if hosts.all Option.isNone then some (startCgi busy sr .unset) else some .notMe) :
    Right regcomp regexec config hosts host busy sr ↔
      (¬ Matched regexec config (hostRules regcomp hosts host) (cstr sr.uri.text) ∧
        Left regcomp regexec config hosts host busy sr) ∨
      Run regcomp regexec config hosts host busy sr := by
  have hleft := @left_iff_of_past Regex regcomp regexec config hosts host busy sr hpast
  rw [LeftByHost, hsection] at hleft
  dsimp only at hleft
  have hrun : ¬ Run regcomp regexec config hosts host busy sr := by
    rintro ⟨-, -, sec, hsec, -⟩
    rw [hsection] at hsec
    contradiction
  by_cases hnone : hosts.all Option.isNone = true
  · rw [if_pos hnone] at hhook
    cases busy with
    | true => exact right_iff_of_leaves hhook nofun (hleft.mpr (.inl rfl)) hrun
    | false =>
        refine right_iff_of_wrong (not_right_of_unset hhook) ?_ hrun
        rw [hleft]
        rintro (h | ⟨h, hsome⟩)
        · contradiction
        · rw [all_isNone_iff.mp hnone h] at hsome
          contradiction
  · rw [if_neg hnone] at hhook
    refine right_iff_of_leaves hhook nofun (hleft.mpr (.inr ?_)) hrun
    rw [all_isNone_iff] at hnone
    push Not at hnone
    obtain ⟨h, hsome⟩ := hnone
    exact ⟨h, Option.isSome_iff_ne_none.mpr hsome⟩

/-- A host with a section whose last line is no rule, or one that was not compiled. -/
theorem right_iff_of_no_rule {sec : ConfigSection} (hpast : PastGlobal regexec config sr)
    (hsection : hostSection hosts host = some sec)
    (hrule : (lastRule regcomp sec.entries).bind CgiVhostMatch.regex = none)
    (hhook : mkpStage30 regexec config host busy sr = none) :
    Right regcomp regexec config hosts host busy sr ↔
      (¬ Matched regexec config (hostRules regcomp hosts host) (cstr sr.uri.text) ∧
        Left regcomp regexec config hosts host busy sr) ∨
      Run regcomp regexec config hosts host busy sr := by
  refine right_iff_of_wrong (not_right_of_none hhook) ?_ ?_
  · rw [left_iff_of_past hpast, LeftByHost, hsection]
    rintro ⟨rule, object, hsome, hobject, -⟩
    rw [hsome, Option.bind_some, hobject] at hrule
    contradiction
  · rintro ⟨-, -, sec', hsec, rule, hsome, -, object, hobject, -⟩
    obtain rfl := Option.some.inj (hsection.symm.trans hsec)
    rw [hsome, Option.bind_some, hobject] at hrule
    contradiction

/-- A host with a section, and a rule in its last line that was compiled. -/
theorem right_iff_of_last_rule {sec : ConfigSection} {rule : CgiVhostMatch Regex} {object : Regex}
    (hpast : PastGlobal regexec config sr) (hsection : hostSection hosts host = some sec)
    (hrule : lastRule regcomp sec.entries = some rule) (hobject : rule.regex = some object)
    (hhook : mkpStage30 regexec config host busy sr =
      some (if regexec object (cstr sr.uri.text) then startCgi busy sr (.rule rule) else .notMe)) :
    Right regcomp regexec config hosts host busy sr ↔
      (¬ Matched regexec config (hostRules regcomp hosts host) (cstr sr.uri.text) ∧
        Left regcomp regexec config hosts host busy sr) ∨
      Run regcomp regexec config hosts host busy sr := by
  have hleft : Left regcomp regexec config hosts host busy sr ↔
      busy = true ∨ regexec object (cstr sr.uri.text) = false := by
    rw [left_iff_of_past hpast, LeftByHost, hsection]
    constructor
    · rintro ⟨rule', object', hsome, hobject', hor⟩
      obtain rfl := Option.some.inj (hrule.symm.trans hsome)
      obtain rfl := Option.some.inj (hobject.symm.trans hobject')
      exact hor
    · exact fun hor => ⟨rule, object, hrule, hobject, hor⟩
  have hexpr : ExprMatches regexec rule.regex (cstr sr.uri.text) ↔ regexec object (cstr sr.uri.text) = true := by
    simp only [ExprMatches, hobject, Option.some.injEq, exists_eq_left']
  have hrun : Run regcomp regexec config hosts host busy sr ↔ busy = false ∧
      rule ∈ hostRules regcomp hosts host ∧ ExprMatches regexec rule.regex (cstr sr.uri.text) := by
    constructor
    · rintro ⟨-, hbusy, sec', hsec, rule', hsome, hmem⟩
      obtain rfl := Option.some.inj (hsection.symm.trans hsec)
      obtain rfl := Option.some.inj (hrule.symm.trans hsome)
      exact ⟨hbusy, hmem⟩
    · rintro ⟨hbusy, hmem⟩
      exact ⟨hpast, hbusy, sec, hsection, rule, hrule, hmem⟩
  by_cases hmatch : regexec object (cstr sr.uri.text) = true
  · rw [if_pos hmatch] at hhook
    cases busy with
    | true =>
        refine right_iff_of_leaves hhook nofun (hleft.mpr (.inl rfl)) ?_
        rw [hrun]
        rintro ⟨h, -⟩
        contradiction
    | false =>
        have hstays : ¬ Left regcomp regexec config hosts host false sr := by
          rw [hleft, hmatch]
          rintro (h | h) <;> contradiction
        rw [right_of_rule hhook hpast.not_exprMatches, hrun, or_iff_right fun h => hstays h.2, and_iff_right rfl]
  · rw [if_neg hmatch] at hhook
    refine right_iff_of_leaves hhook nofun (hleft.mpr (.inr (Bool.eq_false_iff.mpr hmatch))) ?_
    rw [hrun, hexpr]
    exact fun h => hmatch h.2.2

/-- A request whose URI matches the global expression. -/
theorem right_iff_of_global {object : Regex} (hobject : config.matchRegex = some object)
    (hmatch : regexec object (cstr sr.uri.text) = true)
    (hhook : mkpStage30 regexec config host busy sr = some (startCgi busy sr .unset))
    (hshort : ¬ sr.uri.len + 1 > pathLen) :
    Right regcomp regexec config hosts host busy sr ↔
      (¬ Matched regexec config (hostRules regcomp hosts host) (cstr sr.uri.text) ∧
        Left regcomp regexec config hosts host busy sr) ∨
      Run regcomp regexec config hosts host busy sr := by
  have hexpr : ExprMatches regexec config.matchRegex (cstr sr.uri.text) := ⟨object, hobject, hmatch⟩
  have hpast : ¬ PastGlobal regexec config sr := fun h => h.not_exprMatches hexpr
  refine right_iff_of_wrong ?_ (fun h => h.elim hshort fun h => hpast h.1) fun h => hpast h.1
  cases busy with
  | true => exact fun h => (right_of_left hhook nofun).mp h (.inl hexpr)
  | false => exact not_right_of_unset hhook

end regex

/-! ## two configurations -/

/-- Matching with expressions that are letters only. -/
def literalRegexec (letters url : Bytes) : Bool := (findSub (letters.map toupper) (url.map toupper)).isSome

def fileRequest (uri : Bytes) : SessionRequest where
  uri := ⟨some uri, uri.length⟩
  realPath := ascii "/srv".toList ++ uri
  fileInfo := { fileExists := true, isFile := true }

/-- A section with a `Match` line for each expression. -/
def matchSection (expressions : List String) : ConfigSection where
  name := ascii "CGI".toList
  entries := expressions.map fun expression => ⟨ascii "Match".toList, ascii expression.toList⟩

end Monkey.Cgi
