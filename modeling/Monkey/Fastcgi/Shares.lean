import Monkey.Fastcgi.Distribution

/-!
# Monkey.Fastcgi.Shares

How many connections each worker thread gets to each server (`fcgi_fd_matrix_create`),
and the list of them that is made for a thread (`fcgi_fd_list_init`).

Where no server is listed twice, the locations do not meet in the matrix: a cell is what
one location deals, and a row is the sum of the shares of the locations.
-/

namespace Monkey.Fastcgi

/-! ## the matrix -/

/-- What thread `t` gets of a location. -/
def locShare (config : FcgiConfig) (w : Nat) (t : Nat) (loc : FcgiLocation) : Nat :=
  if locFdCount config loc < w then 1 else turns w 0 t (locConns config loc)

section matrix

variable {config : FcgiConfig} {w : Nat}

/-- What a thread gets of a location, to all its servers. -/
theorem sum_shareCell {n : Nat} {loc : FcgiLocation} (hne : loc.serverIds ≠ []) (hids : ∀ s ∈ loc.serverIds, s < n)
    (t : Nat) : ∑ s ∈ Finset.range n, shareCell config w loc t s = locShare config w t loc := by
  unfold shareCell connsAfter locShare
  split
  · have hlt : t % loc.serverIds.length < loc.serverIds.length := Nat.mod_lt _ (List.length_pos_iff.mpr hne)
    have hmem : loc.serverIds[t % loc.serverIds.length] ∈ Finset.range n :=
      Finset.mem_range.mpr (hids _ (List.getElem_mem hlt))
    simp only [List.getElem?_eq_getElem hlt, Option.some.injEq]
    rw [Finset.sum_ite_eq, if_pos hmem]
  · simp only [Nat.zero_add]
    exact sum_dealt_servers hids 0 t

/-- The connections of a thread to a server are those of all the locations. -/
theorem conns_eq_sum (honce : ListedOnce config) (t s : Nat) :
    conns config w t s = (config.locations.map fun loc => shareCell config w loc t s).sum := by
  have hother : ∀ locs : List FcgiLocation, (∀ l ∈ locs, s ∉ l.serverIds) →
      (locs.map fun loc => shareCell config w loc t s).sum = 0 := by
    intro locs hnone
    refine List.sum_eq_zero_iff.mpr fun x hx => ?_
    obtain ⟨l, hl, rfl⟩ := List.mem_map.mp hx
    exact shareCell_of_notMem (hnone l hl) t
  by_cases hlisted : ∃ loc ∈ config.locations, s ∈ loc.serverIds
  · obtain ⟨loc, hloc, hs⟩ := hlisted
    obtain ⟨before, after, hsplit⟩ := List.append_of_mem hloc
    obtain ⟨hbefore, hafter⟩ := honce.split hsplit hs
    rw [conns_of_mem honce hloc hs, hsplit, List.map_append, List.map_cons, List.sum_append, List.sum_cons,
      hother before hbefore, hother after hafter, Nat.add_zero, Nat.zero_add]
  · push Not at hlisted
    rw [conns_of_notMem hlisted, hother _ hlisted]

/-- They do not wrap around. -/
theorem conns_lt (honce : ListedOnce config) {t : Nat} (ht : t < w) (s : Nat) : conns config w t s < 2 ^ 32 := by
  by_cases hlisted : ∃ loc ∈ config.locations, s ∈ loc.serverIds
  · obtain ⟨loc, hloc, hs⟩ := hlisted
    rw [conns_of_mem honce hloc hs]
    exact shareCell_lt honce hloc ht s
  · push Not at hlisted
    rw [conns_of_notMem hlisted]
    exact Nat.two_pow_pos 32

/-- **A cell of the matrix** is what the locations deal to it. -/
theorem fcgiFdMatrixGet_eq (hconf : Wellformed config) (honce : ListedOnce config) (hw : 0 < w) {t s : Nat} (ht : t < w)
    (hs : s < config.servers.length) :
    fcgiFdMatrixGet (fcgiFdMatrixCreate true config w) t s =
      (config.locations.map fun loc => shareCell config w loc t s).sum := by
  rw [fcgiFdMatrixGet_eq_conns hconf hw ht hs, Nat.mod_eq_of_lt (conns_lt honce ht s), conns_eq_sum honce]

/-- A server has all its connections from its location. -/
theorem fcgiFdMatrixGet_of_mem (hconf : Wellformed config) (honce : ListedOnce config) (hw : 0 < w) {t : Nat}
    (ht : t < w) {loc : FcgiLocation} (hloc : loc ∈ config.locations) {s : Nat} (hs : s ∈ loc.serverIds) :
    fcgiFdMatrixGet (fcgiFdMatrixCreate true config w) t s = shareCell config w loc t s := by
  rw [fcgiFdMatrixGet_eq_conns hconf hw ht ((hconf loc hloc).2 s hs), Nat.mod_eq_of_lt (conns_lt honce ht s),
    conns_of_mem honce hloc hs]

/-- The connections of a thread, by the matrix. -/
def rowSum (config : FcgiConfig) (w t : Nat) : Nat :=
  ((List.range config.servers.length).map (fcgiFdMatrixGet (fcgiFdMatrixCreate true config w) t)).sum

theorem sum_map_range (f : Nat → Nat) (n : Nat) : ((List.range n).map f).sum = ∑ i ∈ Finset.range n, f i := rfl

theorem sum_range_sum_map {α : Type} (n : Nat) (l : List α) (f : α → Nat → Nat) :
    ∑ s ∈ Finset.range n, (l.map fun a => f a s).sum = (l.map fun a => ∑ s ∈ Finset.range n, f a s).sum := by
  induction l with
  | nil => simp
  | cons a l ih => simp only [List.map_cons, List.sum_cons, Finset.sum_add_distrib, ih]

/-- **The connections of a thread** are its shares of the locations. -/
theorem rowSum_eq (hconf : Wellformed config) (honce : ListedOnce config) (hw : 0 < w) {t : Nat} (ht : t < w) :
    rowSum config w t = (config.locations.map (locShare config w t)).sum := by
  have hcells : rowSum config w t =
      ∑ s ∈ Finset.range config.servers.length, (config.locations.map fun loc => shareCell config w loc t s).sum := by
    rw [rowSum, sum_map_range]
    exact Finset.sum_congr rfl fun s hs => fcgiFdMatrixGet_eq hconf honce hw ht (Finset.mem_range.mp hs)
  rw [hcells, sum_range_sum_map]
  refine congrArg List.sum (List.map_congr_left fun loc hloc => ?_)
  exact sum_shareCell (hconf loc hloc).1 (hconf loc hloc).2 t

/-- No thread gets more of a location than the first. -/
theorem locShare_le_first {t : Nat} (ht : t < w) (loc : FcgiLocation) :
    locShare config w t loc ≤ locShare config w 0 loc := by
  unfold locShare
  split
  · exact le_rfl
  · exact turns_le_first ht _

theorem rowSum_le_first (hconf : Wellformed config) (honce : ListedOnce config) (hw : 0 < w) {t : Nat} (ht : t < w) :
    rowSum config w t ≤ rowSum config w 0 := by
  rw [rowSum_eq hconf honce hw ht, rowSum_eq hconf honce hw hw]
  exact List.sum_le_sum fun loc _ => locShare_le_first ht loc

end matrix

/-! ## the list of a thread -/

/-- An entry of the list: of a server, with its location, and not connected. -/
def EntryOf (config : FcgiConfig) (e : FcgiFd) : Prop :=
  ∃ srv loc, config.servers[e.serverId]? = some srv ∧ config.locations[e.locationId]? = some loc ∧
    e.serverId ∈ loc.serverIds ∧ e = fcgiFdInit (if srv.path.isSome then .unix else .inet) e.serverId e.locationId

/-- The list of thread `t` is made of as many entries as its row says, for each server what
the cell says, and none of them is stored outside. -/
structure ListExact (config : FcgiConfig) (w t : Nat) (r : FcgiFdListRet) : Prop where
  ret : r.ret = 0
  n : r.n = rowSum config w t
  length : r.stores.length = rowSum config w t
  inside : r.stores.length ≤ r.allocated
  server : ∀ s < config.servers.length,
    r.stores.countP (·.serverId == s) = fcgiFdMatrixGet (fcgiFdMatrixCreate true config w) t s
  entry : ∀ e ∈ r.stores, EntryOf config e

section list

variable {config : FcgiConfig} {w : Nat}

theorem serverLocationId_some {s i : Nat} (h : serverLocationId config s = some i) :
    ∃ loc, config.locations[i]? = some loc ∧ s ∈ loc.serverIds := by
  have hcontains := List.find?_some h
  have hlt : i < config.locations.length := by simpa using List.mem_of_find?_eq_some h
  refine ⟨config.locations[i], List.getElem?_eq_getElem hlt, ?_⟩
  simpa [hlt] using hcontains

theorem serverLocationId_none {s : Nat} (h : serverLocationId config s = none) :
    ∀ loc ∈ config.locations, s ∉ loc.serverIds := by
  intro loc hloc hs
  obtain ⟨i, hlt, rfl⟩ := List.getElem_of_mem hloc
  have hno := List.find?_eq_none.mp h i (by simpa using hlt)
  exact hno (by simpa [hlt] using hs)

/-- The entries of one server. -/
theorem fcgiFdListRow_exists (hconf : Wellformed config) (honce : ListedOnce config) (hw : 0 < w) {t : Nat} (ht : t < w)
    {i : Nat} (hi : i < config.servers.length) :
    ∃ row, fcgiFdListRow (fcgiFdMatrixCreate true config w) t config i = some row ∧
      row.length = fcgiFdMatrixGet (fcgiFdMatrixCreate true config w) t i ∧
      ∀ e ∈ row, e.serverId = i ∧ EntryOf config e := by
  have hsrv := List.getElem?_eq_getElem hi
  unfold fcgiFdListRow
  rw [hsrv]
  simp only [Option.bind_eq_bind, Option.bind_some]
  cases hloc : serverLocationId config i with
  | some k =>
      obtain ⟨loc, hk, hmem⟩ := serverLocationId_some hloc
      refine ⟨_, rfl, List.length_replicate, fun e he => ?_⟩
      obtain rfl := List.eq_of_mem_replicate he
      exact ⟨rfl, config.servers[i], loc, hsrv, hk, hmem, rfl⟩
  | none =>
      have hzero : fcgiFdMatrixGet (fcgiFdMatrixCreate true config w) t i = 0 := by
        rw [fcgiFdMatrixGet_eq hconf honce hw ht hi, List.sum_eq_zero_iff]
        intro x hx
        obtain ⟨l, hl, rfl⟩ := List.mem_map.mp hx
        exact shareCell_of_notMem (serverLocationId_none hloc l hl) t
      simp only [hzero, if_true]
      exact ⟨[], rfl, rfl, fun e he => absurd he List.not_mem_nil⟩

/-- The entries of some servers, one after the other. -/
theorem fcgiFdListRows_spec (hconf : Wellformed config) (honce : ListedOnce config) (hw : 0 < w) {t : Nat} (ht : t < w) :
    ∀ (is : List Nat) (fds : List FcgiFd), (∀ i ∈ is, i < config.servers.length) →
      ∃ more, fcgiFdListRows (fcgiFdMatrixCreate true config w) t config is fds = (true, fds ++ more) ∧
        more.length = (is.map (fcgiFdMatrixGet (fcgiFdMatrixCreate true config w) t)).sum ∧
        (∀ s, more.countP (·.serverId == s) = is.count s * fcgiFdMatrixGet (fcgiFdMatrixCreate true config w) t s) ∧
        ∀ e ∈ more, EntryOf config e := by
  intro is
  induction is with
  | nil => exact fun fds _ => ⟨[], by simp [fcgiFdListRows]⟩
  | cons i is ih =>
      intro fds his
      obtain ⟨row, hrow, hlen, hentries⟩ := fcgiFdListRow_exists hconf honce hw ht (his i List.mem_cons_self)
      obtain ⟨more, hrows, hmore, hcount, hmem⟩ := ih (fds ++ row) fun k hk => his k (List.mem_cons_of_mem _ hk)
      refine ⟨row ++ more, ?_, ?_, fun s => ?_, fun e he => ?_⟩
      · simp only [fcgiFdListRows, hrow, hrows, List.append_assoc]
      · rw [List.length_append, hlen, hmore, List.map_cons, List.sum_cons]
      · rw [List.countP_append, hcount]
        by_cases hs : i = s
        · subst hs
          have hall : row.countP (·.serverId == i) = row.length :=
            List.countP_eq_length.mpr fun e he => by simp [(hentries e he).1]
          rw [hall, hlen, List.count_cons_self]
          ring
        · have hnone : row.countP (·.serverId == s) = 0 :=
            List.countP_eq_zero.mpr fun e he => by simp [(hentries e he).1, hs]
          rw [hnone, List.count_cons_of_ne hs, Nat.zero_add]
      · rcases List.mem_append.mp he with he | he
        · exact (hentries e he).2
        · exact hmem e he

/-- **The list of a thread** is what the row says just when that is an `int`. -/
theorem listExact_iff (hconf : Wellformed config) (honce : ListedOnce config) (hw : 0 < w) {t : Nat} (ht : t < w) :
    ListExact config w t (fcgiFdListInitMem (fcgiFdMatrixCreate true config w) t config) ↔ rowSum config w t < 2 ^ 31 := by
  obtain ⟨fds, hrows, hlen, hcount, hentries⟩ := fcgiFdListRows_spec hconf honce hw ht
    (List.range config.servers.length) [] fun i hi => List.mem_range.mp hi
  have hsum : fcgiFdMatrixThreadSum (fcgiFdMatrixCreate true config w) t = rowSum config w t % 2 ^ 32 := rfl
  have hinit : fcgiFdListInitMem (fcgiFdMatrixCreate true config w) t config =
      { ret := 0, n := toInt (rowSum config w t % 2 ^ 32 : Nat), allocated := rowSum config w t % 2 ^ 32, stores := fds } := by
    have hcreate : (fcgiFdMatrixCreate true config w).serverCount = config.servers.length := rfl
    unfold fcgiFdListInitMem
    rw [hcreate, hrows, hsum, List.nil_append]
    exact if_pos ⟨rfl, by rw [hlen]; rfl⟩
  rw [hinit]
  constructor
  · intro h
    have hn := h.n
    have hupper := toInt_upper (rowSum config w t % 2 ^ 32 : Nat)
    simp only at hn
    omega
  · intro hfits
    have hmod : rowSum config w t % 2 ^ 32 = rowSum config w t := Nat.mod_eq_of_lt (by omega)
    have hint : toInt (rowSum config w t : Int) = rowSum config w t := toInt_eq_self (by omega) (by omega)
    rw [hmod]
    refine ⟨rfl, by simpa only using hint, hlen, hlen.le, fun s hs => ?_, hentries⟩
    rw [hcount, List.count_eq_one_of_mem List.nodup_range (List.mem_range.mpr hs), Nat.one_mul]

end list

/-! ## the distribution -/

/-- A location whose servers all have a limit, and as many connections as there are
threads, but less than `2 ^ 31`. -/
structure Limited (config : FcgiConfig) (w : Nat) (loc : FcgiLocation) : Prop where
  pos : ∀ s ∈ loc.serverIds, 0 < maxConns config s
  bound : locConns config loc < 2 ^ 31
  enough : w ≤ locConns config loc

/-- All the connections of the servers of a location are in the matrix, the threads have
the same number of them or one less, and every list is made as the matrix says. -/
structure Distributed (config : FcgiConfig) (w : Nat) (loc : FcgiLocation) : Prop where
  column : ∀ s ∈ loc.serverIds,
    ∑ t ∈ Finset.range w, fcgiFdMatrixGet (fcgiFdMatrixCreate true config w) t s = maxConns config s
  balanced : ∀ t < w, ∀ t' < w,
    (loc.serverIds.map (fcgiFdMatrixGet (fcgiFdMatrixCreate true config w) t)).sum ≤
      (loc.serverIds.map (fcgiFdMatrixGet (fcgiFdMatrixCreate true config w) t')).sum + 1
  list : ∀ t < w, ListExact config w t (fcgiFdListInitMem (fcgiFdMatrixCreate true config w) t config)

/-- The connections of the first thread: of each location its share rounded up, or one
where there are fewer connections than threads. -/
def firstThreadConns (config : FcgiConfig) (w : Nat) : Nat :=
  (config.locations.map fun loc =>
    if locFdCount config loc < w then 1 else (locConns config loc + (w - 1)) / w).sum

section distributed

variable {config : FcgiConfig} {w : Nat} {loc : FcgiLocation}

theorem rowSum_first (hconf : Wellformed config) (honce : ListedOnce config) (hw : 0 < w) :
    rowSum config w 0 = firstThreadConns config w := by
  rw [rowSum_eq hconf honce hw hw, firstThreadConns]
  refine congrArg List.sum (List.map_congr_left fun l _ => ?_)
  rw [locShare, turns_first hw]

/-- A location with a limit for each server does not fall back. -/
theorem Limited.not_fallback (h : Limited config w loc) : ¬ locFdCount config loc < w := by
  have hlimits : (loc.serverIds.map fun s =>
      let n := (config.servers.getD s {}).maxConnections.toNat
      if n > 0 then n else 1) = loc.serverIds.map (maxConns config) :=
    List.map_congr_left fun s hs => if_pos (h.pos s hs)
  rw [locFdCount, hlimits, ← locConns, Nat.mod_eq_of_lt (by have := h.bound; omega)]
  exact Nat.not_lt.mpr h.enough

/-- **The column of a server** has all its connections. -/
theorem sum_column (hconf : Wellformed config) (honce : ListedOnce config) (hw : 0 < w)
    (hloc : loc ∈ config.locations) (h : Limited config w loc) {s : Nat} (hs : s ∈ loc.serverIds) :
    ∑ t ∈ Finset.range w, fcgiFdMatrixGet (fcgiFdMatrixCreate true config w) t s = maxConns config s := by
  have hcells : ∀ t ∈ Finset.range w, fcgiFdMatrixGet (fcgiFdMatrixCreate true config w) t s =
      dealt config w 0 loc.serverIds t s := by
    intro t ht
    rw [fcgiFdMatrixGet_of_mem hconf honce hw (Finset.mem_range.mp ht) hloc hs, shareCell, connsAfter, if_neg h.not_fallback,
      Nat.zero_add]
  rw [Finset.sum_congr rfl hcells, sum_dealt_threads hw,
    List.count_eq_one_of_mem (nodup_serverIds honce hloc) hs, Nat.one_mul]

/-- **The total of a thread** over the servers of a location is its share. -/
theorem sum_location (hconf : Wellformed config) (honce : ListedOnce config) (hw : 0 < w)
    (hloc : loc ∈ config.locations) {t : Nat} (ht : t < w) :
    (loc.serverIds.map (fcgiFdMatrixGet (fcgiFdMatrixCreate true config w) t)).sum = locShare config w t loc := by
  obtain ⟨hne, hids⟩ := hconf loc hloc
  have hcells : loc.serverIds.map (fcgiFdMatrixGet (fcgiFdMatrixCreate true config w) t) =
      loc.serverIds.map (shareCell config w loc t) :=
    List.map_congr_left fun s hs => fcgiFdMatrixGet_of_mem hconf honce hw ht hloc hs
  rw [hcells, ← sum_shareCell hne hids t, ← List.sum_toFinset _ (nodup_serverIds honce hloc)]
  refine Finset.sum_subset (fun s hs => Finset.mem_range.mpr (hids s (List.mem_toFinset.mp hs))) fun s _ hs => ?_
  exact shareCell_of_notMem (fun hmem => hs (List.mem_toFinset.mpr hmem)) t

/-- **Distribution by shares.**  For a configuration that is accepted and lists no server
twice, the connections of a limited location are all in the matrix, balanced between the
threads; and the lists of the threads are made as it says just when the connections of
the first thread over all locations are an `int`. -/
theorem distributed_iff (hvalid : fcgiValidateConf config = true) (honce : ListedOnce config) (hw : 1 ≤ w)
    (hloc : loc ∈ config.locations) (h : Limited config w loc) :
    Distributed config w loc ↔ firstThreadConns config w < 2 ^ 31 := by
  have hconf := Wellformed.of_validate hvalid
  rw [← rowSum_first hconf honce hw]
  constructor
  · exact fun hd => (listExact_iff hconf honce hw hw).mp (hd.list 0 hw)
  · intro hfits
    refine ⟨fun s hs => sum_column hconf honce hw hloc h hs, fun t ht t' ht' => ?_, fun t ht => ?_⟩
    · rw [sum_location hconf honce hw hloc ht, sum_location hconf honce hw hloc ht', locShare, locShare,
        if_neg h.not_fallback, if_neg h.not_fallback]
      exact turns_balanced ht ht' _
    · exact (listExact_iff hconf honce hw ht).mpr ((rowSum_le_first hconf honce hw ht).trans_lt hfits)

end distributed

/-- Two servers of a location, of three connections and two, for two threads. -/
theorem distributed_two_threads :
    Distributed
      { servers := [{ path := some [0x61], maxConnections := 3 }, { path := some [0x62], maxConnections := 2 }],
        locations := [{ serverIds := [0, 1] }] } 2 { serverIds := [0, 1] } := by
  refine (distributed_iff (by decide) (fun s => ?_) (by decide) List.mem_cons_self ?_).mpr (by decide)
  · simpa using List.nodup_iff_count_le_one.mp (by decide : [0, 1].Nodup) s
  · exact ⟨by decide, by decide, by decide⟩

/-- Three locations of one server each, and one thread for all of them. -/
def threeLocations : FcgiConfig :=
  { servers := [{ path := some [0x61], maxConnections := 2147483647 }, { path := some [0x62], maxConnections := 2147483647 },
      { path := some [0x63], maxConnections := 5 }],
    locations := [{ serverIds := [0] }, { serverIds := [1] }, { serverIds := [2] }] }

/-- The first thread has `2 ^ 32 + 3` connections, of which three are allocated. -/
theorem not_distributed_three_locations :
    fcgiValidateConf threeLocations = true ∧ ListedOnce threeLocations ∧ Limited threeLocations 1 { serverIds := [2] } ∧
      ¬ Distributed threeLocations 1 { serverIds := [2] } := by
  have hvalid : fcgiValidateConf threeLocations = true := by decide
  have honce : ListedOnce threeLocations := by
    intro s
    have hcount := List.nodup_iff_count_le_one.mp (by decide : [0, 1, 2].Nodup) s
    simp only [List.count_cons, List.count_nil] at hcount
    simp only [threeLocations, List.map_cons, List.map_nil, List.sum_cons, List.sum_nil, List.count_cons, List.count_nil]
    omega
  refine ⟨hvalid, honce, ⟨by decide, by decide, by decide⟩, fun h => ?_⟩
  have hfits := (listExact_iff (Wellformed.of_validate hvalid) honce Nat.one_pos Nat.one_pos).mp (h.list 0 Nat.one_pos)
  rw [rowSum_first (Wellformed.of_validate hvalid) honce Nat.one_pos] at hfits
  exact absurd hfits (by decide)

end Monkey.Fastcgi
