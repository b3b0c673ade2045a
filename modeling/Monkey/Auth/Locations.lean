import Monkey.Auth.Users
import Monkey.Http.Percent

/-!
# Monkey.Auth.Locations

The stage 30 hook of the auth plugin: the locations of a virtual host against the
processed URI.

A location is a start of the URI, byte for byte, where the file is found by a path that
may repeat its slashes.

A location has its list of users, also where the source shares one between locations.  The two
spellings of a request are compared without credentials, so that the decision is about the place
alone.
-/

namespace Monkey.Auth

/-! ## the hook -/

/-- `struct location`; the path is a string of the configuration. -/
structure Location where
  path : Bytes
  authHttpHeader : Bytes
  users : List User
deriving DecidableEq, Repr

/-- `struct vhost`. -/
structure Vhost where
  host : Host
  locations : List Location
deriving DecidableEq, Repr

/-- `MK_AUTH_HEADER_REQUEST`. -/
def authHeaderRequest : Bytes := ascii "Authorization:".toList

/-- `MK_CLIENT_UNAUTH`. -/
def mkClientUnauth : Int := 401

/-- The loop over the virtual hosts stays at the last one where none is the request's. -/
def vhostLoop (host : Host) : Option Vhost → List Vhost → Option Vhost
  | vhEntry, [] => vhEntry
  | _, vh :: vhosts => if vh.host = host then some vh else vhostLoop host (some vh) vhosts

/-- The test of the loop over the locations. -/
def locationMatch (uri : MkPointer) (loc : Location) : Bool :=
  decide (strlen loc.path ≤ uri.len) && strncmp (uri.data.getD []) loc.path (strlen loc.path)

/-- The location that restricts a URI. -/
def restrictedBy (locations : List Location) (uri : MkPointer) : Option Location :=
  locations.find? (locationMatch uri)

/-- The answer that asks for credentials, sent by the hook itself. -/
def challenge (loc : Location) : Stage30Answer where
  ret := .finish
  status := some mkClientUnauth
  extraRows := [loc.authHttpHeader]

section sha1

variable (sha1 : Bytes → Bytes)

/-- `_mkp_stage_30`, with the header table it leaves.  There is no result without virtual
hosts, or where the credentials cannot be decoded. -/
def mkpStage30 (vhosts : List Vhost) (sr : SessionRequest) : Option (Stage30Answer × List HeaderTocRow) :=
  (vhostLoop sr.hostConf none vhosts).bind fun vhEntry =>
    match restrictedBy vhEntry.locations sr.uriProcessed with
    | none => some ({ ret := .notMe }, sr.headersToc)
    | some loc =>
        let (res, toc) := mkRequestHeaderGet sr.headersToc authHeaderRequest
        if res.data.isSome ∧ res.len > 0 then
          (mkAuthValidateUser sha1 loc.users res.text).map fun val =>
            if val = 0 then ({ ret := .notMe }, toc) else (challenge loc, toc)
        else some (challenge loc, toc)

/-- The hook asks for credentials. -/
def Challenged (vhosts : List Vhost) (sr : SessionRequest) : Prop :=
  ∃ a toc, mkpStage30 sha1 vhosts sr = some (a, toc) ∧ a.ret = .finish

end sha1

/-! ## the requests that lead to a file -/

/-- A request below the document root: `mk_http_init` refuses one with two dots, and does
not get one of a user's home here. -/
structure DocrootRequest (cfg : Config) (sr : SessionRequest) : Prop where
  uri : RequestUri sr.uri
  processed : sr.uriProcessed = processedUri sr.uri
  root : (uriText sr.uri).head? = some 0x2f
  inside : ¬ httpDirectoryBackward <:+: uriText sr.uri
  docroot : isUserHome cfg sr = false

/-- No credentials are sent. -/
def NoCredentials (sr : SessionRequest) : Prop :=
  (mkRequestHeaderGet sr.headersToc authHeaderRequest).1.data = none

/-- A path as the file system resolves it: of slashes in a row one is left, and of `/./`
too. -/
def collapse : Bytes → Bytes
  | [] => []
  | c :: s =>
      if c = 0x2f then
        match collapse s with
        | 0x2f :: t => 0x2f :: t
        | 0x2e :: 0x2f :: t => 0x2f :: t
        | t => 0x2f :: t
      else c :: collapse s

/-- Two requests for the same file of a host get the same decision. -/
def SameDecision (sha1 : Bytes → Bytes) (vhosts : List Vhost) (cfg : Config) (host : Host) : Prop :=
  ∀ sr₁ sr₂, DocrootRequest cfg sr₁ → DocrootRequest cfg sr₂ → sr₁.hostConf = host → sr₂.hostConf = host →
    NoCredentials sr₁ → NoCredentials sr₂ → collapse (uriText sr₁.uri) = collapse (uriText sr₂.uri) →
      (Challenged sha1 vhosts sr₁ ↔ Challenged sha1 vhosts sr₂)

/-! ## the decision -/

/-- Some request starts with this path: it is below the root, has no two dots and is in
nobody's home. -/
def Effective (cfg : Config) (path : Bytes) : Prop :=
  path.head? = some 0x2f ∧ ¬ httpDirectoryBackward <:+: path ∧
    ¬ (cfg.userDir.isSome ∧ 2 < path.length ∧ path[1]? = some 0x7e)

/-- The locations of a host are whole: one of them is the root, or no request starts with
any of them. -/
def Whole (cfg : Config) (locations : List Location) : Prop :=
  (∃ loc ∈ locations, cstr loc.path = [] ∨ cstr loc.path = [0x2f]) ∨
    ∀ loc ∈ locations, ¬ Effective cfg (cstr loc.path)

/-- The locations the hook looks at. -/
def locationsOf (vhosts : List Vhost) (host : Host) : List Location :=
  (vhostLoop host none vhosts).elim [] Vhost.locations

/-- A location starts the path. -/
def Covers (locations : List Location) (text : Bytes) : Prop := ∃ loc ∈ locations, cstr loc.path <+: text

section

variable {sha1 : Bytes → Bytes} {cfg : Config} {sr : SessionRequest}

theorem processedUri_len {uri : MkPointer} (h : RequestUri uri) :
    (processedUri uri).len = (uriText uri).length := by
  unfold processedUri uriText
  cases mkUtilsUrlDecode uri with
  | none => exact h.length_text.symm
  | some temp => rfl

/-- A home is asked for by the processed text. -/
theorem isUserHome_iff (huri : RequestUri sr.uri) (hprocessed : sr.uriProcessed = processedUri sr.uri) :
    isUserHome cfg sr = true ↔
      cfg.userDir.isSome ∧ 2 < (uriText sr.uri).length ∧ (uriText sr.uri)[1]? = some 0x7e := by
  have hlen : sr.uriProcessed.len = (uriText sr.uri).length := by rw [hprocessed, processedUri_len huri]
  have htext : sr.uriProcessed.text = uriText sr.uri := by rw [hprocessed, processedUri_text]
  have hget : 2 < sr.uriProcessed.len → (sr.uriProcessed.data.getD [])[1]? = (uriText sr.uri)[1]? := by
    intro hlong
    rw [← htext, MkPointer.text, List.getElem?_take_of_lt (by omega)]
  rw [isUserHome, Bool.and_eq_true, Bool.and_eq_true, decide_eq_true_eq, beq_iff_eq, and_assoc, ← hlen]
  constructor
  · rintro ⟨hdir, hlong, htilde⟩
    exact ⟨hdir, hlong, hget hlong ▸ htilde⟩
  · rintro ⟨hdir, hlong, htilde⟩
    exact ⟨hdir, hlong, (hget hlong).trans htilde⟩

theorem DocrootRequest.locationMatch_iff (h : DocrootRequest cfg sr) (loc : Location) :
    locationMatch sr.uriProcessed loc = true ↔ cstr loc.path <+: uriText sr.uri := by
  have htext : sr.uriProcessed.text = uriText sr.uri := by rw [h.processed, processedUri_text]
  have hcmp : strncmp (sr.uriProcessed.data.getD []) loc.path (strlen loc.path) = true ↔
      cstr loc.path <+: sr.uriProcessed.data.getD [] := by
    obtain ⟨rest, hrest⟩ := List.takeWhile_prefix (l := loc.path) (· ≠ (0 : UInt8))
    have hwhole := strncmpWith_append_right id (sr.uriProcessed.data.getD []) (cstr loc.path) rest
    rw [show cstr loc.path ++ rest = loc.path from hrest] at hwhole
    rw [strncmp, strlen, hwhole, ← strncmp, strncmp_iff_isPrefix (zero_notMem_cstr loc.path)]
  rw [locationMatch, Bool.and_eq_true, decide_eq_true_eq, hcmp, ← htext, MkPointer.text, List.prefix_take_iff,
    strlen]
  exact and_comm

/-- **The decision** for a request without credentials: it is asked for them where a
location starts its path. -/
theorem DocrootRequest.challenged_iff {vhosts : List Vhost} (h : DocrootRequest cfg sr)
    (hcred : NoCredentials sr) :
    Challenged sha1 vhosts sr ↔ Covers (locationsOf vhosts sr.hostConf) (uriText sr.uri) := by
  unfold Challenged mkpStage30 locationsOf
  cases vhostLoop sr.hostConf none vhosts with
  | none => simp [Covers]
  | some vhEntry =>
      rw [Option.bind_some, Option.elim_some]
      cases hfind : restrictedBy vhEntry.locations sr.uriProcessed with
      | none =>
          have hnone := List.find?_eq_none.mp hfind
          refine iff_of_false ?_ ?_
          · rintro ⟨a, toc, ha, hret⟩
            obtain ⟨rfl, -⟩ := Prod.mk.inj (Option.some.inj ha)
            contradiction
          · rintro ⟨loc, hloc, hpre⟩
            exact hnone loc hloc ((h.locationMatch_iff loc).mpr hpre)
      | some loc =>
          have hmatch := (h.locationMatch_iff loc).mp (List.find?_some hfind)
          refine iff_of_true ?_ ⟨loc, List.mem_of_find?_eq_some hfind, hmatch⟩
          dsimp only
          rw [hcred]
          exact ⟨_, _, rfl, rfl⟩

/-- What `mk_request_process` hands over is such a request, where `mk_http_init` does not
refuse it for its dots. -/
theorem httpInitRequest_docroot {ctx : Ctx} {request : SessionRequest}
    (h : httpInitRequest ctx request = some sr) (hline : (strchr (request.body.data.getD []) 0x0a).isSome)
    (hsmall : (request.body.data.getD []).length < 2 ^ 64) (hhome : isUserHome ctx.cfg sr = false)
    (hback : memmem (sr.uriProcessed.data.getD []) sr.uriProcessed.len httpDirectoryBackward = none) :
    DocrootRequest ctx.cfg sr := by
  obtain ⟨huri, hprocessed⟩ := httpInitRequest_requestUri h hline hsmall
  obtain ⟨-, htext, hhead, -⟩ := httpInitRequest_spec h
  refine ⟨huri, hprocessed, hhead, ?_, hhome⟩
  rintro ⟨s, t, hst⟩
  have hpre : httpDirectoryBackward <+: (uriText sr.uri).drop s.length := by
    rw [← hst, List.append_assoc, List.drop_left]
    exact List.prefix_append ..
  have hle : s.length ≤ (uriText sr.uri).length := by
    rw [← hst, List.append_assoc, List.length_append]
    omega
  obtain ⟨p, hp, -⟩ := findSub_of_prefix_drop hpre hle
  rw [← htext] at hp
  exact absurd (hback.symm.trans hp) (Option.some_ne_none p).symm

/-- Below whole locations every path is covered, or none. -/
theorem Whole.covers_iff {locations : List Location} (h : Whole cfg locations) (hsr : DocrootRequest cfg sr) :
    Covers locations (uriText sr.uri) ↔ ∃ loc ∈ locations, cstr loc.path = [] ∨ cstr loc.path = [0x2f] := by
  obtain ⟨t, ht⟩ := List.head?_eq_some_iff.mp hsr.root
  constructor
  · rintro ⟨loc, hloc, hpre⟩
    rcases h with hroot | hnone
    · exact hroot
    by_cases hempty : cstr loc.path = []
    · exact ⟨loc, hloc, .inl hempty⟩
    refine absurd ⟨?_, fun hback => hsr.inside (hback.trans hpre.isInfix), ?_⟩ (hnone loc hloc)
    · obtain ⟨c, s, hcs⟩ := List.exists_cons_of_ne_nil hempty
      rw [hcs, ht] at hpre
      rw [hcs, (List.cons_prefix_cons.mp hpre).1]
      rfl
    · rintro ⟨hdir, hlong, htilde⟩
      have hhome : isUserHome cfg sr = true := by
        refine (isUserHome_iff hsr.uri hsr.processed).mpr ⟨hdir, hlong.trans_le hpre.length_le, ?_⟩
        obtain ⟨rest, hrest⟩ := hpre
        rw [← htilde, ← hrest, List.getElem?_append_left (by omega)]
      exact absurd (hsr.docroot.symm.trans hhome) Bool.false_ne_true
  · rintro ⟨loc, hloc, hpath⟩
    refine ⟨loc, hloc, ?_⟩
    rcases hpath with hpath | hpath
    · rw [hpath]
      exact List.nil_prefix
    · rw [hpath, ht, List.cons_prefix_cons]
      exact ⟨rfl, List.nil_prefix⟩

end

/-! ## other spellings -/

theorem collapse_head {s : Bytes} (h : s.head? = some 0x2f) : (collapse s).head? = some 0x2f := by
  obtain ⟨t, rfl⟩ := List.head?_eq_some_iff.mp h
  unfold collapse
  rw [if_pos rfl]
  split
  · rfl
  · rfl
  · rfl

/-- Slashes in front of a slash are nothing to the file system. -/
theorem collapse_slashes {s : Bytes} (h : s.head? = some 0x2f) (k : Nat) :
    collapse (List.replicate k 0x2f ++ s) = collapse s := by
  induction k with
  | zero => rfl
  | succ k ih =>
      obtain ⟨t, ht⟩ := List.head?_eq_some_iff.mp (collapse_head h)
      rw [List.replicate_succ, List.cons_append, collapse, if_pos rfl, ih, ht]
      rfl

/-- A request without headers for a path. -/
def spellingRequest (host : Host) (s : Bytes) : SessionRequest where
  uri := percentUri s [0x20]
  uriProcessed := processedUri (percentUri s [0x20])
  hostConf := host

section

variable {cfg : Config} {host : Host} {s : Bytes}

theorem spellingRequest_docroot (hnul : 0 ∉ s) (hlen : ¬ 2 ^ 32 ∣ s.length)
    (heff : Effective cfg s) : DocrootRequest cfg (spellingRequest host s) := by
  have htext : uriText (spellingRequest host s).uri = s := uriText_percentUri hnul hlen
  have huri : RequestUri (spellingRequest host s).uri := percentUri_request s [] (.inl rfl)
  have hprocessed : (spellingRequest host s).uriProcessed = processedUri (spellingRequest host s).uri := by
    simp only [spellingRequest]
  refine ⟨huri, hprocessed, ?_, ?_, ?_⟩
  · rw [htext]
    exact heff.1
  · rw [htext]
    exact heff.2.1
  · rw [Bool.eq_false_iff, ne_eq, isUserHome_iff huri hprocessed, htext]
    exact heff.2.2

theorem spellingRequest_challenged {sha1 : Bytes → Bytes} {vhosts : List Vhost} (hnul : 0 ∉ s)
    (hlen : ¬ 2 ^ 32 ∣ s.length) (heff : Effective cfg s) :
    Challenged sha1 vhosts (spellingRequest host s) ↔ Covers (locationsOf vhosts host) s := by
  have h := @DocrootRequest.challenged_iff sha1 cfg (spellingRequest host s) vhosts
    (spellingRequest_docroot hnul hlen heff) rfl
  rwa [show uriText (spellingRequest host s).uri = s from uriText_percentUri hnul hlen] at h

/-- A text with more slashes in front. -/
theorem Effective.slashes (h : Effective cfg s) (k : Nat) : Effective cfg (List.replicate k 0x2f ++ s) := by
  induction k with
  | zero => exact h
  | succ k ih =>
      rw [List.replicate_succ, List.cons_append]
      obtain ⟨hhead, hback, -⟩ := ih
      obtain ⟨t, ht⟩ := List.head?_eq_some_iff.mp hhead
      rw [ht] at hback ⊢
      refine ⟨rfl, ?_, ?_⟩
      · rw [List.infix_cons_iff, not_or]
        refine ⟨fun hpre => ?_, hback⟩
        have hdot := (List.cons_prefix_cons.mp hpre).1
        exact absurd hdot (by decide)
      · rintro ⟨-, -, htilde⟩
        exact absurd htilde (by simp)

/-- A longer text, of a length that is no multiple of `2 ^ 32`. -/
theorem Effective.longer (h : Effective cfg s) : ∃ t, 0 ∉ t ∧ Effective cfg (s ++ t) ∧ ¬ 2 ^ 32 ∣ (s ++ t).length := by
  by_cases hlen : 2 ^ 32 ∣ s.length
  · obtain ⟨hhead, hback, hhome⟩ := h
    have hlong : 2 < s.length := by
      obtain ⟨t, rfl⟩ := List.head?_eq_some_iff.mp hhead
      rw [List.length_cons] at hlen ⊢
      omega
    refine ⟨[0x78], by decide, ⟨?_, ?_, ?_⟩, ?_⟩
    · rw [List.head?_append_of_ne_nil _ (List.length_pos_iff.mp (by omega))]
      exact hhead
    · rw [List.infix_concat_iff, not_or]
      refine ⟨?_, hback⟩
      rintro ⟨r, hr⟩
      have hlast := congrArg List.getLast? hr
      rw [List.getLast?_append, List.getLast?_append] at hlast
      change some (0x2e : UInt8) = some 0x78 at hlast
      exact absurd hlast (by decide)
    · rintro ⟨hdir, -, htilde⟩
      rw [List.getElem?_append_left (by omega)] at htilde
      exact hhome ⟨hdir, hlong, htilde⟩
    · rw [List.length_append, List.length_singleton]
      omega
  · refine ⟨[], by decide, ?_, ?_⟩
    · rwa [List.append_nil]
    · rwa [List.append_nil]

/-- Slashes enough, and the length is no multiple of `2 ^ 32`. -/
theorem exists_slashes (n m : Nat) : ∃ k ≥ n, ¬ 2 ^ 32 ∣ k + m := by
  by_cases h : 2 ^ 32 ∣ n + m
  · exact ⟨n + 1, by omega, by omega⟩
  · exact ⟨n, le_rfl, h⟩

/-- A path of slashes. -/
theorem effective_slashes {k : Nat} (hk : 0 < k) : Effective cfg (List.replicate k 0x2f) := by
  have hroot : Effective cfg [0x2f] :=
    ⟨rfl, by decide, fun h => absurd h.2.1 (by decide)⟩
  have h := hroot.slashes (k - 1)
  rwa [← List.replicate_one, List.replicate_append_replicate, Nat.sub_add_cancel hk] at h

end

/-! ## spellings of one file -/

section

variable {sha1 : Bytes → Bytes} {vhosts : List Vhost} {cfg : Config} {host : Host}

/-- Two texts for one file that are both asked for get the same decision. -/
theorem SameDecision.covers (h : SameDecision sha1 vhosts cfg host) {s t : Bytes} (hs : Effective cfg s)
    (ht : Effective cfg t) (hnuls : 0 ∉ s) (hnult : 0 ∉ t) (hlens : ¬ 2 ^ 32 ∣ s.length)
    (hlent : ¬ 2 ^ 32 ∣ t.length) (hsame : collapse s = collapse t) :
    Covers (locationsOf vhosts host) s ↔ Covers (locationsOf vhosts host) t := by
  have hchallenged : ∀ {u : Bytes}, 0 ∉ u → ¬ 2 ^ 32 ∣ u.length → Effective cfg u →
      (Challenged sha1 vhosts (spellingRequest host u) ↔ Covers (locationsOf vhosts host) u) :=
    spellingRequest_challenged
  rw [← hchallenged hnuls hlens hs, ← hchallenged hnult hlent ht]
  refine h _ _ (spellingRequest_docroot hnuls hlens hs) (spellingRequest_docroot hnult hlent ht) rfl rfl rfl rfl ?_
  rw [show uriText (spellingRequest host s).uri = s from uriText_percentUri hnuls hlens,
    show uriText (spellingRequest host t).uri = t from uriText_percentUri hnult hlent, hsame]

/-- Where a host decides alike, and no location is the root, none covers slashes only. -/
theorem SameDecision.not_covers_slashes (h : SameDecision sha1 vhosts cfg host)
    (hroot : ¬ ∃ loc ∈ locationsOf vhosts host, cstr loc.path = [] ∨ cstr loc.path = [0x2f]) (k : Nat) :
    ¬ Covers (locationsOf vhosts host) (List.replicate k 0x2f) := by
  rintro ⟨loc, hloc, hpre⟩
  obtain ⟨m, hm, hlen⟩ := exists_slashes (k + 1) 0
  have hslashes : collapse (List.replicate m 0x2f) = collapse [0x2f] := by
    have h := @collapse_slashes [0x2f] rfl (m - 1)
    rwa [← List.replicate_one, List.replicate_append_replicate, Nat.sub_add_cancel (by omega)] at h
  have hone : Covers (locationsOf vhosts host) [0x2f] := by
    refine (h.covers (effective_slashes (by omega)) (effective_slashes Nat.one_pos) ?_ ?_ ?_ ?_ hslashes).mp
      ⟨loc, hloc, hpre.trans ?_⟩
    · exact fun h0 => absurd (List.eq_of_mem_replicate h0) (by decide)
    · decide
    · rwa [List.length_replicate]
    · decide
    · rw [show m = k + (m - k) by omega, ← List.replicate_append_replicate]
      exact List.prefix_append ..
  obtain ⟨loc', hloc', hpre'⟩ := hone
  refine hroot ⟨loc', hloc', ?_⟩
  rcases List.prefix_cons_iff.mp hpre' with hnil | ⟨t, ht, hnil⟩
  · exact .inl hnil
  · rw [List.prefix_nil.mp hnil] at ht
    exact .inr ht

/-- **Spellings.**  The requests of a host for one file get the same decision exactly where
the locations are whole. -/
theorem sameDecision_iff : SameDecision sha1 vhosts cfg host ↔ Whole cfg (locationsOf vhosts host) := by
  constructor
  · intro h
    by_contra hnot
    obtain ⟨hroot, heffective⟩ := not_or.mp hnot
    push Not at heffective
    obtain ⟨loc, hloc, heff⟩ := heffective
    obtain ⟨t, hnul, hlonger, hlen⟩ := heff.longer
    obtain ⟨k, hk, hmore⟩ := exists_slashes
      (((locationsOf vhosts host).map fun l => strlen l.path).sum) (cstr loc.path ++ t).length
    have hnuls : 0 ∉ cstr loc.path ++ t := by
      rw [List.mem_append, not_or]
      exact ⟨zero_notMem_cstr loc.path, hnul⟩
    have hcovered := (h.covers hlonger (hlonger.slashes k) hnuls ?_ hlen ?_
      (collapse_slashes hlonger.1 k).symm).mp ⟨loc, hloc, List.prefix_append ..⟩
    · obtain ⟨loc', hloc', hpre⟩ := hcovered
      -- a location that covers the longer text is slashes only
      have hshort : (cstr loc'.path).length ≤ k :=
        (List.single_le_sum (by simp) _ (List.mem_map_of_mem hloc')).trans hk
      have hslashes := List.prefix_of_prefix_length_le hpre (List.prefix_append ..)
        (by rwa [List.length_replicate])
      exact h.not_covers_slashes hroot k ⟨loc', hloc', hslashes⟩
    · rw [List.mem_append, not_or]
      exact ⟨fun h0 => absurd (List.eq_of_mem_replicate h0) (by decide), hnuls⟩
    · rwa [List.length_append, List.length_replicate]
  · rintro h sr₁ sr₂ hsr₁ hsr₂ hhost₁ hhost₂ hcred₁ hcred₂ -
    rw [hsr₁.challenged_iff hcred₁, hsr₂.challenged_iff hcred₂, hhost₁, hhost₂, h.covers_iff hsr₁,
      h.covers_iff hsr₂]

end

/-! ## one location -/

def secureVhost : Vhost where
  host := sampleConfig.defaultHost
  locations := [{ path := ascii "/secure".toList, authHttpHeader := [], users := [] }]

def secureRequest : SessionRequest :=
  let text := ascii "GET /secure/x HTTP/1.1\r\nHost: a\r\n\r\n".toList
  { body := ⟨some text, text.length⟩, method := .get }

def slashesRequest : SessionRequest :=
  let text := ascii "GET //secure/x HTTP/1.1\r\nHost: a\r\n\r\n".toList
  { body := ⟨some text, text.length⟩, method := .get }

/-- What `mk_http_init` and the hook see of a request. -/
def seen (sr : SessionRequest) : Host × Bool × Option Nat × Option Bytes × Bytes × Option Stage30Ret :=
  (sr.hostConf, isUserHome sampleCtx.cfg sr,
    memmem (sr.uriProcessed.data.getD []) sr.uriProcessed.len httpDirectoryBackward,
    (mkRequestHeaderGet sr.headersToc authHeaderRequest).1.data, collapse (uriText sr.uri),
    (mkpStage30 id [secureVhost] sr).map (·.1.ret))

theorem seen_spec {request : SessionRequest} {host : Host} {path : Bytes} {ret : Stage30Ret}
    (h : (httpInitRequest sampleCtx request).map seen = some (host, false, none, none, path, some ret))
    (hline : (strchr (request.body.data.getD []) 0x0a).isSome)
    (hsmall : (request.body.data.getD []).length < 2 ^ 64) :
    ∃ sr, httpInitRequest sampleCtx request = some sr ∧ DocrootRequest sampleCtx.cfg sr ∧ NoCredentials sr ∧
      sr.hostConf = host ∧ collapse (uriText sr.uri) = path ∧
      (Challenged id [secureVhost] sr ↔ ret = .finish) := by
  obtain ⟨sr, hsr, hseen⟩ := Option.map_eq_some_iff.mp h
  simp only [seen, Prod.mk.injEq] at hseen
  obtain ⟨hhost, hhome, hback, hcred, hpath, hret⟩ := hseen
  obtain ⟨⟨a, toc⟩, ha, haret⟩ := Option.map_eq_some_iff.mp hret
  refine ⟨sr, hsr, httpInitRequest_docroot hsr hline hsmall hhome hback, hcred, hhost, hpath, ?_⟩
  unfold Challenged
  rw [ha]
  constructor
  · rintro ⟨a', toc', ha', hfinish⟩
    obtain ⟨rfl, -⟩ := Prod.mk.inj (Option.some.inj ha')
    exact haret.symm.trans hfinish
  · rintro rfl
    exact ⟨a, toc, rfl, haret⟩

/-- With a second slash no credentials are asked for. -/
theorem not_sameDecision_secure : ∃ sr₁ sr₂, httpInitRequest sampleCtx secureRequest = some sr₁ ∧
    httpInitRequest sampleCtx slashesRequest = some sr₂ ∧ sr₁.hostConf = sr₂.hostConf ∧
    collapse (uriText sr₁.uri) = collapse (uriText sr₂.uri) ∧
    Challenged id [secureVhost] sr₁ ∧ ¬ Challenged id [secureVhost] sr₂ ∧
    ¬ SameDecision id [secureVhost] sampleCtx.cfg sr₁.hostConf := by
  obtain ⟨sr₁, hsr₁, hdoc₁, hcred₁, hhost₁, hpath₁, hret₁⟩ := @seen_spec secureRequest
    sampleConfig.defaultHost (ascii "/secure/x".toList) .finish rfl (by decide) (by decide)
  obtain ⟨sr₂, hsr₂, hdoc₂, hcred₂, hhost₂, hpath₂, hret₂⟩ := @seen_spec slashesRequest
    sampleConfig.defaultHost (ascii "/secure/x".toList) .notMe rfl (by decide) (by decide)
  have hno : ¬ Challenged id [secureVhost] sr₂ := fun h => absurd (hret₂.mp h) (by decide)
  refine ⟨sr₁, sr₂, hsr₁, hsr₂, hhost₁.trans hhost₂.symm, hpath₁.trans hpath₂.symm, hret₁.mpr rfl, hno, ?_⟩
  intro h
  exact hno ((h sr₁ sr₂ hdoc₁ hdoc₂ rfl (hhost₂.trans hhost₁.symm) hcred₁ hcred₂
    (hpath₁.trans hpath₂.symm)).mp (hret₁.mpr rfl))

end Monkey.Auth
