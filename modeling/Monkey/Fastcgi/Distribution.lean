import Monkey.Fastcgi.Context
import Monkey.Lib.RoundRobin

/-!
# Monkey.Fastcgi.Distribution

The backend connections the worker threads get (`fcgi_fd_matrix_create`).

A location with fewer connections than threads has one handed to every thread.  For this
count an unset limit is one, but the connections handed out otherwise are the numbers
as configured, in turn: the servers of a location are dealt with one after the other, each
from the thread on where the one before has stopped.

A server can be listed so often that its connections wrap around in a cell of the matrix:
what is counted here is what is handed out (`conns`), and the cell is that modulo `2 ^ 32`.
-/

namespace Monkey.Fastcgi

/-! ## the configurations that are accepted -/

/-- `used_servers`: how often the locations name a server, in a byte. -/
def usedServers (config : FcgiConfig) (server : Nat) : UInt8 :=
  UInt8.ofNat (config.locations.map fun loc => loc.serverIds.count server).sum

/-- What is checked of the socket of a server. -/
def FcgiServer.validSocket (srv : FcgiServer) : Bool :=
  ((srv.addr.isSome && srv.port != 0) || srv.path.isSome) && (srv.port ≤ 0 || srv.port < 65535)

/-- `fcgi_validate_conf`. -/
def fcgiValidateConf (config : FcgiConfig) : Bool :=
  0 < config.servers.length && 0 < config.locations.length && config.locations.length < 65535 &&
    config.locations.all (fun loc =>
      0 < loc.serverIds.length && loc.serverIds.all (· < config.servers.length)) &&
    (List.range config.servers.length).all fun i =>
      usedServers config i < 2 && (config.servers.getD i {}).validSocket

/-- What the distribution needs of it: every location names servers that exist. -/
def Wellformed (config : FcgiConfig) : Prop :=
  ∀ loc ∈ config.locations, loc.serverIds ≠ [] ∧ ∀ s ∈ loc.serverIds, s < config.servers.length

theorem Wellformed.of_validate {config : FcgiConfig} (h : fcgiValidateConf config = true) : Wellformed config := by
  intro loc hloc
  simp only [fcgiValidateConf, Bool.and_eq_true, List.all_eq_true, decide_eq_true_eq] at h
  obtain ⟨hpos, hservers⟩ := h.1.2 loc hloc
  exact ⟨List.ne_nil_of_length_pos hpos, hservers⟩

/-! ## what a location deals -/

/-- `max_connections` of a server. -/
def maxConns (config : FcgiConfig) (s : Nat) : Nat := (config.servers.getD s {}).maxConnections.toNat

/-- The sum of `max_connections` over a location. -/
def locConns (config : FcgiConfig) (loc : FcgiLocation) : Nat := (loc.serverIds.map (maxConns config)).sum

/-- What thread `t` gets to server `s`, when the servers are dealt with from thread `j` on. -/
def dealt (config : FcgiConfig) (w : Nat) : Nat → List Nat → Nat → Nat → Nat
  | _, [], _, _ => 0
  | j, srv :: ids, t, s =>
      (if s = srv then turns w j t (maxConns config srv) else 0) + dealt config w (j + maxConns config srv) ids t s

/-- The connections that thread `t` has to the server `s` behind a location, with those from
before: the one handed out where connections are too few replaces them. -/
def connsAfter (config : FcgiConfig) (w t s : Nat) (before : Nat) (loc : FcgiLocation) : Nat :=
  if locFdCount config loc < w then
    if loc.serverIds[t % loc.serverIds.length]? = some s then 1 else before
  else before + dealt config w 0 loc.serverIds t s

/-- The connections that thread `t` is handed to the server `s`, by all the locations. -/
def conns (config : FcgiConfig) (w t s : Nat) : Nat := config.locations.foldl (connsAfter config w t s) 0

section dealt

variable {config : FcgiConfig} {n w : Nat}

theorem maxConns_lt (config : FcgiConfig) (s : Nat) : maxConns config s < 2 ^ 32 := UInt32.toNat_lt _

theorem dealt_mod (ids : List Nat) (j t s : Nat) : dealt config w (j % w) ids t s = dealt config w j ids t s := by
  induction ids generalizing j with
  | nil => rfl
  | cons srv ids ih =>
      rw [dealt, dealt, turns_mod, ← ih (j % w + maxConns config srv), Nat.mod_add_mod, ih]

theorem dealt_of_notMem {ids : List Nat} {s : Nat} (h : s ∉ ids) (j t : Nat) : dealt config w j ids t s = 0 := by
  induction ids generalizing j with
  | nil => rfl
  | cons srv ids ih =>
      rw [List.mem_cons, not_or] at h
      obtain ⟨hne, hrest⟩ := h
      rw [dealt, if_neg hne, ih hrest]

/-- All the connections of a server are dealt. -/
theorem sum_dealt_threads (hw : 0 < w) (ids : List Nat) (j s : Nat) :
    ∑ t ∈ Finset.range w, dealt config w j ids t s = ids.count s * maxConns config s := by
  induction ids generalizing j with
  | nil => simp [dealt]
  | cons srv ids ih =>
      simp only [dealt, Finset.sum_add_distrib, ih]
      by_cases hs : s = srv
      · subst hs
        simp only [if_true, sum_turns hw, List.count_cons_self]
        ring
      · rw [List.count_cons_of_ne (Ne.symm hs)]
        simp [hs]

/-- A thread gets the connections of the servers in turn, as if they were one server's. -/
theorem sum_dealt_servers {ids : List Nat} (hids : ∀ s ∈ ids, s < n) (j t : Nat) :
    ∑ s ∈ Finset.range n, dealt config w j ids t s = turns w j t (ids.map (maxConns config)).sum := by
  induction ids generalizing j with
  | nil => simp [dealt]
  | cons srv ids ih =>
      have hsrv : srv ∈ Finset.range n := Finset.mem_range.mpr (hids srv List.mem_cons_self)
      simp only [dealt, Finset.sum_add_distrib, ih fun s hs => hids s (List.mem_cons_of_mem _ hs)]
      rw [Finset.sum_ite_eq', if_pos hsrv, List.map_cons, List.sum_cons, turns_add]

/-- A location has nothing for a server it does not list. -/
theorem connsAfter_of_notMem {loc : FcgiLocation} {s : Nat} (h : s ∉ loc.serverIds) (t before : Nat) :
    connsAfter config w t s before loc = before := by
  unfold connsAfter
  split
  · rw [if_neg fun hget => h (List.mem_of_getElem? hget)]
  · rw [dealt_of_notMem h, Nat.add_zero]

theorem foldl_connsAfter_of_notMem {locs : List FcgiLocation} {s : Nat} (h : ∀ loc ∈ locs, s ∉ loc.serverIds)
    (t before : Nat) :
    locs.foldl (connsAfter config w t s) before = before := by
  induction locs generalizing before with
  | nil => rfl
  | cons loc locs ih =>
      obtain ⟨hloc, hlocs⟩ := List.forall_mem_cons.mp h
      rw [List.foldl_cons, connsAfter_of_notMem hloc, ih hlocs]

end dealt

/-! ## the cells -/

/-- A cell of the matrix. -/
def cell (serverCount : Nat) (counts : List UInt32) (t s : Nat) : UInt32 := counts.getD (t * serverCount + s) 0

section cells

variable {n w : Nat}

theorem cell_index_inj {t s t' s' : Nat} (hs : s < n) (hs' : s' < n) (h : t * n + s = t' * n + s') :
    t = t' ∧ s = s' :=
  slot_unique hs hs' (by rwa [Nat.mul_comm n, Nat.mul_comm n])

theorem cell_index_lt {t s : Nat} (ht : t < w) (hs : s < n) : t * n + s < n * w := by
  calc t * n + s < t * n + n := by omega
    _ = (t + 1) * n := by ring
    _ ≤ w * n := Nat.mul_le_mul_right _ ht
    _ = n * w := Nat.mul_comm ..

theorem cell_modify {counts : List UInt32} {t s t' s' : Nat} (hlen : counts.length = n * w) (ht : t < w)
    (hs : s < n) (hs' : s' < n) :
    cell n (counts.modify (t * n + s) (· + 1)) t' s' =
      if t' = t ∧ s' = s then cell n counts t' s' + 1 else cell n counts t' s' := by
  have hlt : t * n + s < counts.length := hlen ▸ cell_index_lt ht hs
  unfold cell
  rw [List.getD_eq_getElem?_getD, List.getD_eq_getElem?_getD, List.getElem?_modify]
  by_cases heq : t * n + s = t' * n + s'
  · obtain ⟨rfl, rfl⟩ := cell_index_inj hs hs' heq
    simp [hlt]
  · simp only [heq, if_false, id_map']
    rw [if_neg]
    rintro ⟨rfl, rfl⟩
    exact heq rfl

theorem cell_set {counts : List UInt32} {t s t' s' : Nat} (hlen : counts.length = n * w) (ht : t < w)
    (hs : s < n) (hs' : s' < n) :
    cell n (counts.set (t * n + s) 1) t' s' = if t' = t ∧ s' = s then 1 else cell n counts t' s' := by
  have hlt : t * n + s < counts.length := hlen ▸ cell_index_lt ht hs
  unfold cell
  rw [List.getD_eq_getElem?_getD, List.getD_eq_getElem?_getD, List.getElem?_set]
  by_cases heq : t * n + s = t' * n + s'
  · obtain ⟨rfl, rfl⟩ := cell_index_inj hs hs' heq
    simp [hlt]
  · rw [if_neg heq, if_neg]
    rintro ⟨rfl, rfl⟩
    exact heq rfl

/-- The connections of one server, from thread `j` on. -/
theorem cell_spreadServer {srv : Nat} (hsrv : srv < n) (hw : 0 < w) :
    ∀ (count j : Nat) (counts : List UInt32), j < w → counts.length = n * w →
      (spreadServer n w srv count j counts).1 = (j + count) % w ∧
      (spreadServer n w srv count j counts).2.length = n * w ∧
      ∀ t s, s < n → cell n (spreadServer n w srv count j counts).2 t s =
        cell n counts t s + UInt32.ofNat (if s = srv then turns w j t count else 0) := by
  intro count
  induction count with
  | zero =>
      intro j counts hj hlen
      refine ⟨(Nat.mod_eq_of_lt hj).symm, hlen, fun t s hs => ?_⟩
      simp [spreadServer]
  | succ count ih =>
      intro j counts hj hlen
      obtain ⟨hclock, hlen', hcells⟩ := ih ((j + 1) % w) (counts.modify (j * n + srv) (· + 1))
        (Nat.mod_lt _ hw) (by rwa [List.length_modify])
      refine ⟨?_, hlen', fun t s hs => ?_⟩
      · rw [spreadServer, hclock, Nat.mod_add_mod]
        congr 1
        omega
      · rw [spreadServer, hcells t s hs, cell_modify hlen hj hsrv hs, turns_mod, turns_succ, Nat.mod_eq_of_lt hj]
        by_cases hsame : s = srv
        · by_cases ht : t = j
          · simp only [hsame, ht, and_self, if_true, UInt32.ofNat_add, UInt32.add_assoc]
            rfl
          · simp [hsame, ht, Ne.symm ht]
        · simp [hsame]

/-- The connections of a list of servers, from thread `j` on. -/
theorem cell_spreadServers (config : FcgiConfig) (hw : 0 < w) :
    ∀ (ids : List Nat) (j : Nat) (counts : List UInt32), (∀ s ∈ ids, s < n) → j < w → counts.length = n * w →
      let r := ids.foldl (fun (clock, counts) srvId =>
        spreadServer n w srvId (config.servers.getD srvId {}).maxConnections.toNat clock counts) (j, counts)
      r.2.length = n * w ∧
        ∀ t s, s < n → cell n r.2 t s = cell n counts t s + UInt32.ofNat (dealt config w j ids t s) := by
  intro ids
  induction ids with
  | nil => exact fun j counts _ _ hlen => ⟨hlen, fun t s _ => by simp [dealt]⟩
  | cons srv ids ih =>
      intro j counts hids hj hlen
      obtain ⟨hclock, hlen', hcells⟩ :=
        cell_spreadServer (hids srv List.mem_cons_self) hw (maxConns config srv) j counts hj hlen
      obtain ⟨hlen'', hrest⟩ := ih ((j + maxConns config srv) % w) _ (fun s hs => hids s (List.mem_cons_of_mem _ hs))
        (Nat.mod_lt _ hw) hlen'
      rw [← hclock, Prod.mk.eta] at hlen'' hrest
      refine ⟨hlen'', fun t s hs => ?_⟩
      have hcell := hrest t s hs
      rw [hclock, dealt_mod, hcells t s hs, UInt32.add_assoc, ← UInt32.ofNat_add] at hcell
      exact hcell

/-- One connection for each of the first `m` threads. -/
theorem cell_fallback {ids : List Nat} (hids : ∀ s ∈ ids, s < n) (hne : ids ≠ []) {counts : List UInt32}
    (hlen : counts.length = n * w) (m : Nat) (hm : m ≤ w) :
    let r := (List.range m).foldl (fun counts t => counts.set (t * n + ids.getD (t % ids.length) 0) 1) counts
    r.length = n * w ∧ ∀ t s, s < n →
      cell n r t s = if t < m ∧ ids[t % ids.length]? = some s then 1 else cell n counts t s := by
  induction m with
  | zero => exact ⟨hlen, fun t s hs => by simp⟩
  | succ m ih =>
      obtain ⟨hlen', hcells⟩ := ih (Nat.le_of_succ_le hm)
      have hget : ids[m % ids.length]? = some (ids.getD (m % ids.length) 0) := by
        have hlt : m % ids.length < ids.length := Nat.mod_lt _ (List.length_pos_iff.mpr hne)
        simp [hlt]
      have hsrv : ids.getD (m % ids.length) 0 < n := hids _ (List.mem_of_getElem? hget)
      simp only [List.range_succ, List.foldl_append, List.foldl_cons, List.foldl_nil]
      refine ⟨by rwa [List.length_set], fun t s hs => ?_⟩
      rw [cell_set hlen' hm hsrv hs, hcells t s hs]
      by_cases ht : t = m
      · subst ht
        rw [hget]
        generalize ids.getD (t % ids.length) 0 = srv
        by_cases hs' : s = srv
        · simp [hs']
        · simp [hs', Ne.symm hs']
      · have hlt : t < m + 1 ↔ t < m := by omega
        simp only [ht, false_and, if_false, hlt]

end cells

/-! ## the matrix -/

section matrix

variable {config : FcgiConfig} {w : Nat}

/-- The step of `fcgi_fd_matrix_create` for one location. -/
def distribute (config : FcgiConfig) (w : Nat) (counts : List UInt32) (loc : FcgiLocation) : List UInt32 :=
  if locFdCount config loc < w then distributeConnsFallback config.servers.length w loc.serverIds counts
  else distributeConnsNormal config config.servers.length w loc.serverIds counts

/-- **What a location adds to the matrix** is what it hands out, modulo `2 ^ 32`. -/
theorem cell_distribute {loc : FcgiLocation} (hw : 0 < w) (hne : loc.serverIds ≠ [])
    (hids : ∀ s ∈ loc.serverIds, s < config.servers.length) {counts : List UInt32}
    (hlen : counts.length = config.servers.length * w) :
    (distribute config w counts loc).length = config.servers.length * w ∧
      ∀ t < w, ∀ s < config.servers.length, ∀ before,
        cell config.servers.length counts t s = UInt32.ofNat before →
          cell config.servers.length (distribute config w counts loc) t s =
            UInt32.ofNat (connsAfter config w t s before loc) := by
  unfold distribute connsAfter
  split
  · obtain ⟨hlen', hcells⟩ := cell_fallback hids hne hlen w le_rfl
    rw [distributeConnsFallback, if_pos (List.length_pos_iff.mpr hne)]
    refine ⟨hlen', fun t ht s hs before hbefore => ?_⟩
    rw [hcells t s hs, hbefore]
    by_cases hget : loc.serverIds[t % loc.serverIds.length]? = some s
    · rw [if_pos ⟨ht, hget⟩, if_pos hget]
      rfl
    · rw [if_neg fun h => hget h.2, if_neg hget]
  · obtain ⟨hlen', hcells⟩ := cell_spreadServers config hw loc.serverIds 0 counts hids hw hlen
    rw [distributeConnsNormal, if_pos hw]
    refine ⟨hlen', fun t ht s hs before hbefore => ?_⟩
    rw [hcells t s hs, hbefore, UInt32.ofNat_add]

theorem cell_distribute_all (hw : 0 < w) {t : Nat} (ht : t < w) {s : Nat} (hs : s < config.servers.length)
    {locs : List FcgiLocation} (hlocs : ∀ loc ∈ locs, loc.serverIds ≠ [] ∧ ∀ s ∈ loc.serverIds, s < config.servers.length)
    {counts : List UInt32} (hlen : counts.length = config.servers.length * w) {before : Nat}
    (hbefore : cell config.servers.length counts t s = UInt32.ofNat before) :
    cell config.servers.length (locs.foldl (distribute config w) counts) t s =
      UInt32.ofNat (locs.foldl (connsAfter config w t s) before) := by
  induction locs generalizing counts before with
  | nil => exact hbefore
  | cons loc locs ih =>
      obtain ⟨⟨hne, hids⟩, hrest⟩ := List.forall_mem_cons.mp hlocs
      obtain ⟨hlen', hcells⟩ := cell_distribute hw hne hids hlen
      exact ih hrest hlen' (hcells t ht s hs before hbefore)

/-- **A cell of the matrix** is what thread `t` is handed to server `s`, modulo `2 ^ 32`. -/
theorem fcgiFdMatrixGet_eq_conns (hconf : Wellformed config) (hw : 0 < w) {t s : Nat} (ht : t < w)
    (hs : s < config.servers.length) :
    fcgiFdMatrixGet (fcgiFdMatrixCreate true config w) t s = conns config w t s % 2 ^ 32 := by
  have hzero : cell config.servers.length (List.replicate (config.servers.length * w) 0) t s = UInt32.ofNat 0 := by
    rw [cell, List.getD_eq_getElem?_getD, List.getElem?_replicate]
    split <;> rfl
  have hcell := cell_distribute_all hw ht hs hconf List.length_replicate hzero
  calc fcgiFdMatrixGet (fcgiFdMatrixCreate true config w) t s
      = (UInt32.ofNat (conns config w t s)).toNat := congrArg UInt32.toNat hcell
    _ = conns config w t s % 2 ^ 32 := UInt32.toNat_ofNat' ..

/-! ## servers that are listed once -/

/-- No server is listed twice, in one location or in two. -/
def ListedOnce (config : FcgiConfig) : Prop :=
  ∀ s, (config.locations.map fun loc => loc.serverIds.count s).sum ≤ 1

/-- What thread `t` gets of a location to server `s`. -/
def shareCell (config : FcgiConfig) (w : Nat) (loc : FcgiLocation) (t s : Nat) : Nat := connsAfter config w t s 0 loc

theorem shareCell_of_notMem {loc : FcgiLocation} {s : Nat} (h : s ∉ loc.serverIds) (t : Nat) :
    shareCell config w loc t s = 0 := connsAfter_of_notMem h t 0

/-- The servers of a location are different. -/
theorem nodup_serverIds (honce : ListedOnce config) {loc : FcgiLocation} (hloc : loc ∈ config.locations) :
    loc.serverIds.Nodup := by
  rw [List.nodup_iff_count_le_one]
  intro s
  exact (List.single_le_sum (by simp) _ (List.mem_map_of_mem hloc)).trans (honce s)

/-- A server is listed by no location before and none behind its own. -/
theorem ListedOnce.split (honce : ListedOnce config) {before after : List FcgiLocation} {loc : FcgiLocation}
    (hsplit : config.locations = before ++ loc :: after) {s : Nat} (hs : s ∈ loc.serverIds) :
    (∀ l ∈ before, s ∉ l.serverIds) ∧ ∀ l ∈ after, s ∉ l.serverIds := by
  have hlisted := honce s
  have hcount := List.count_pos_iff.mpr hs
  rw [hsplit, List.map_append, List.map_cons, List.sum_append, List.sum_cons] at hlisted
  have hnone : ∀ locs : List FcgiLocation, (locs.map fun loc => loc.serverIds.count s).sum = 0 →
      ∀ l ∈ locs, s ∉ l.serverIds := by
    intro locs hzero l hl
    exact List.count_eq_zero.mp (List.sum_eq_zero_iff.mp hzero _ (List.mem_map_of_mem hl))
  exact ⟨hnone before (by omega), hnone after (by omega)⟩

/-- It has all its connections from its location. -/
theorem conns_of_mem (honce : ListedOnce config) {loc : FcgiLocation} (hloc : loc ∈ config.locations) {s : Nat}
    (hs : s ∈ loc.serverIds) (t : Nat) : conns config w t s = shareCell config w loc t s := by
  obtain ⟨before, after, hsplit⟩ := List.append_of_mem hloc
  obtain ⟨hbefore, hafter⟩ := honce.split hsplit hs
  rw [conns, hsplit, List.foldl_append, List.foldl_cons, foldl_connsAfter_of_notMem hbefore, foldl_connsAfter_of_notMem hafter,
    shareCell]

/-- A server in no location has none. -/
theorem conns_of_notMem {s : Nat} (h : ∀ loc ∈ config.locations, s ∉ loc.serverIds) (t : Nat) : conns config w t s = 0 :=
  foldl_connsAfter_of_notMem h t 0

/-- They do not wrap around. -/
theorem shareCell_lt (honce : ListedOnce config) {loc : FcgiLocation} (hloc : loc ∈ config.locations) {t : Nat}
    (ht : t < w) (s : Nat) : shareCell config w loc t s < 2 ^ 32 := by
  unfold shareCell connsAfter
  split
  · split <;> omega
  · have hall := @sum_dealt_threads config w (Nat.zero_lt_of_lt ht) loc.serverIds 0 s
    have hone := Finset.single_le_sum (f := fun t => dealt config w 0 loc.serverIds t s) (fun _ _ => Nat.zero_le _)
      (Finset.mem_range.mpr ht)
    have hcount := List.nodup_iff_count_le_one.mp (nodup_serverIds honce hloc) s
    have hle : loc.serverIds.count s * maxConns config s ≤ 1 * maxConns config s := Nat.mul_le_mul_right _ hcount
    have hlimit := maxConns_lt config s
    omega

/-! ## every thread, every location -/

/-- Every thread has a connection for every location. -/
def EveryThreadServes (config : FcgiConfig) (w : Nat) : Prop :=
  ∀ t < w, ∀ loc ∈ config.locations,
    ∃ s ∈ loc.serverIds, 0 < fcgiFdMatrixGet (fcgiFdMatrixCreate true config w) t s

/-- For every location, each thread is handed connections to one of its servers, and not as
many as make a cell wrap around to zero. -/
def ConnsSuffice (config : FcgiConfig) (w : Nat) : Prop :=
  ∀ loc ∈ config.locations, ∀ t < w, ∃ s ∈ loc.serverIds, ¬ 2 ^ 32 ∣ conns config w t s

/-- Where no server is listed twice, what a thread is handed of a location is the question. -/
theorem exists_shareCell_pos {loc : FcgiLocation} (hne : loc.serverIds ≠ [])
    (hids : ∀ s ∈ loc.serverIds, s < config.servers.length) {t : Nat} (ht : t < w) :
    (∃ s ∈ loc.serverIds, 0 < shareCell config w loc t s) ↔
      locFdCount config loc < w ∨ t < locConns config loc := by
  unfold shareCell connsAfter
  by_cases hfallback : locFdCount config loc < w
  · simp only [hfallback, if_true, true_or, iff_true]
    have hlt : t % loc.serverIds.length < loc.serverIds.length := Nat.mod_lt _ (List.length_pos_iff.mpr hne)
    exact ⟨_, List.getElem_mem hlt, by rw [if_pos (List.getElem?_eq_getElem hlt)]; exact Nat.one_pos⟩
  · simp only [hfallback, if_false, false_or, Nat.zero_add]
    rw [locConns, ← turns_pos_iff ht, ← @sum_dealt_servers config config.servers.length w _ hids 0 t, Finset.sum_pos_iff]
    constructor
    · rintro ⟨s, hs, hpos⟩
      exact ⟨s, Finset.mem_range.mpr (hids s hs), hpos⟩
    · rintro ⟨s, -, hpos⟩
      refine ⟨s, ?_, hpos⟩
      by_contra hs
      rw [dealt_of_notMem hs] at hpos
      exact absurd hpos (lt_irrefl 0)

/-- Where no server is listed twice, only the numbers matter. -/
theorem connsSuffice_iff (hconf : Wellformed config) (hw : 0 < w) (honce : ListedOnce config) :
    ConnsSuffice config w ↔ ∀ loc ∈ config.locations, locFdCount config loc < w ∨ w ≤ locConns config loc := by
  refine forall₂_congr fun loc hloc => ?_
  obtain ⟨hne, hids⟩ := hconf loc hloc
  have hthread : ∀ t < w, (∃ s ∈ loc.serverIds, ¬ 2 ^ 32 ∣ conns config w t s) ↔
      locFdCount config loc < w ∨ t < locConns config loc := by
    intro t ht
    rw [← exists_shareCell_pos hne hids ht]
    refine exists_congr fun s => and_congr_right fun hs => ?_
    have hlt := @shareCell_lt config w honce loc hloc t ht s
    rw [conns_of_mem honce hloc hs]
    omega
  constructor
  · intro h
    exact ((hthread (w - 1) (by omega)).mp (h (w - 1) (by omega))).imp_right fun hlast => by omega
  · exact fun h t ht => (hthread t ht).mpr (h.imp_right fun hnumber => lt_of_lt_of_le ht hnumber)

end matrix

end Monkey.Fastcgi
