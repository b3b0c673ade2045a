import Monkey.Fastcgi.Lookup

/-!
# Monkey.Fastcgi.CacheAdd

What `request_cache_add` replaces.  The loop counts the positions of the clock but looks at
`cache->entries + 1` at each of them, so every request goes through the second entry and the
other entries are never used.
-/

namespace Monkey.Fastcgi

/-- The entry that a request gets. -/
def freshEntry (index : Nat) (req : Request) : ReqCacheEntry :=
  { req := some index, fd := req.fd, fcgiFd := some req.fcgiFd, counter := 1 }

/-- An entry after so many looks at it. -/
def agedEntry (e : ReqCacheEntry) (looks : Nat) : ReqCacheEntry := { e with counter := e.counter - looks }

/-- The entry `i` was a free one and has been replaced; every other one holds the request it
held. -/
structure Replaced (cache cache' : RequestCache) (index : Nat) (req : Request) (i : Nat) : Prop where
  lt : i < reqCacheSize
  free : (cache.entries.getD i {}).counter = 0
  fresh : cache'.entries.getD i {} = freshEntry index req
  others : ∀ j, j ≠ i → (cache'.entries.getD j {}).req = (cache.entries.getD j {}).req

/-- Requests added one after another to a fresh cache. -/
def addInOrder (rs : List Request) (ids : List Nat) : RequestCache :=
  ids.foldl (fun cache r => requestCacheAdd cache r (rs.getD r {})) requestCacheInit

/-- Each of them is found on its descriptor. -/
def AllFound (rs : List Request) (ids : List Nat) : Prop :=
  ∀ r ∈ ids, (requestCacheSearch rs (addInOrder rs ids) (rs.getD r {}).fd).2 = some r

section add

variable {cache : RequestCache} {r : Nat} {q : Request}

/-! ## one request -/

/-- The loop writes the second entry only: a new one once its counter is used up, its old one
with a lower counter until then. -/
theorem cacheAddLoop_entries (is : List Nat) {e : ReqCacheEntry} (he : cache.entries[1]? = some e) :
    (cacheAddLoop r q is cache).entries =
      cache.entries.set 1 (if e.counter.toNat < is.length then freshEntry r q else agedEntry e is.length) := by
  induction is generalizing cache e with
  | nil =>
      obtain ⟨hlt, hget⟩ := List.getElem?_eq_some_iff.mp he
      have hzero : agedEntry e 0 = e := congrArg (fun c => { e with counter := c }) (Int.sub_zero _)
      rw [cacheAddLoop, List.length_nil, if_neg (Nat.not_lt_zero _), hzero, ← hget, List.set_getElem_self]
  | cons i is ih =>
      have hfirst : cache.entries.getD 1 {} = e := by
        rw [List.getD_eq_getElem?_getD, he, Option.getD_some]
      rw [cacheAddLoop, hfirst, List.length_cons]
      by_cases hpos : e.counter > 0
      · have hnext : (cache.entries.set 1 (agedEntry e 1))[1]? = some (agedEntry e 1) :=
          List.getElem?_set_self (List.getElem?_eq_some_iff.mp he).1
        have hage : agedEntry (agedEntry e 1) is.length = agedEntry e (is.length + 1) := by
          simp only [agedEntry]
          congr 1
          omega
        have hleft : (agedEntry e 1).counter.toNat < is.length ↔ e.counter.toNat < is.length + 1 := by
          simp only [agedEntry]
          omega
        rw [if_pos hpos]
        refine (ih hnext).trans ?_
        rw [hage, List.set_set]
        simp only [hleft]
      · rw [if_neg hpos, if_pos (by omega)]
        rfl

theorem requestCacheAdd_entries (hsize : cache.entries.length = reqCacheSize) :
    (requestCacheAdd cache r q).entries = cache.entries.set 1
      (if (cache.entries.getD 1 {}).counter.toNat < reqCacheSize then freshEntry r q
        else agedEntry (cache.entries.getD 1 {}) reqCacheSize) := by
  have hclock : (clockwise cache.clockHand reqCacheSize).length = reqCacheSize := by
    rw [clockwise, List.length_map, List.length_range]
  have hlt : 1 < cache.entries.length := by
    rw [hsize]
    decide
  have hone : cache.entries[1]? = some (cache.entries.getD 1 {}) := by
    rw [List.getD_eq_getElem _ _ hlt, List.getElem?_eq_getElem hlt]
  rw [requestCacheAdd, cacheAddLoop_entries _ hone, hclock]

/-- The entries but the second one stay. -/
theorem requestCacheAdd_getD_ne (hsize : cache.entries.length = reqCacheSize) {i : Nat} (hi : i ≠ 1) :
    (requestCacheAdd cache r q).entries.getD i {} = cache.entries.getD i {} := by
  rw [requestCacheAdd_entries hsize, FcgiContext.getD_set, if_neg fun h => hi h.1]

theorem requestCacheAdd_getD_one (hsize : cache.entries.length = reqCacheSize)
    (hused : (cache.entries.getD 1 {}).counter < reqCacheSize) :
    (requestCacheAdd cache r q).entries.getD 1 {} = freshEntry r q := by
  have hlt : 1 < cache.entries.length := by
    rw [hsize]
    decide
  rw [requestCacheAdd_entries hsize, FcgiContext.getD_set, if_pos ⟨rfl, hlt⟩, if_pos]
  rw [reqCacheSize] at hused ⊢
  omega

/-- Only the second entry can be the one replaced. -/
theorem Replaced.eq_one {i : Nat} (hsize : cache.entries.length = reqCacheSize)
    (h : Replaced cache (requestCacheAdd cache r q) r q i) : i = 1 := by
  by_contra hi
  have hcounter : (freshEntry r q).counter = 0 := by
    rw [← h.fresh, requestCacheAdd_getD_ne hsize hi, h.free]
  exact one_ne_zero hcounter

theorem replaced_one_iff (hsize : cache.entries.length = reqCacheSize) :
    (∃! i, Replaced cache (requestCacheAdd cache r q) r q i) ↔ (cache.entries.getD 1 {}).counter = 0 := by
  constructor
  · rintro ⟨i, hi, -⟩
    obtain rfl := hi.eq_one hsize
    exact hi.free
  · intro hfree
    refine ⟨1, ⟨by decide, hfree, requestCacheAdd_getD_one hsize ?_, fun j hj => ?_⟩, fun i hi => hi.eq_one hsize⟩
    · rw [hfree]
      decide
    · rw [requestCacheAdd_getD_ne hsize hj]

end add

/-! ## one after another -/

theorem requestCacheInit_getD (i : Nat) : requestCacheInit.entries.getD i {} = {} := by
  rw [requestCacheInit, List.getD_eq_getElem?_getD, List.getElem?_replicate]
  split <;> rfl

section inOrder

variable {rs : List Request} {ids : List Nat} {r : Nat}

/-- Whatever was added, the second entry has the last one and the others have none. -/
theorem addInOrder_entries (rs : List Request) (ids : List Nat) :
    (addInOrder rs ids).entries = requestCacheInit.entries.set 1
      (ids.getLast?.elim {} fun r => freshEntry r (rs.getD r {})) := by
  induction ids using List.reverseRecOn with
  | nil => rfl
  | append_singleton ids r ih =>
      have hsize : (addInOrder rs ids).entries.length = reqCacheSize := by
        rw [ih, List.length_set, requestCacheInit, List.length_replicate]
      have hone : (addInOrder rs ids).entries.getD 1 {} = ids.getLast?.elim {} fun r => freshEntry r (rs.getD r {}) := by
        rw [ih, FcgiContext.getD_set, if_pos ⟨rfl, by decide⟩]
      have hused : ((addInOrder rs ids).entries.getD 1 {}).counter.toNat < reqCacheSize := by
        rw [hone]
        cases ids.getLast? with
        | none => exact Nat.zero_lt_succ _
        | some r => exact Nat.one_lt_succ_succ _
      have hadd : addInOrder rs (ids ++ [r]) = requestCacheAdd (addInOrder rs ids) r (rs.getD r {}) := by
        rw [addInOrder, List.foldl_append, List.foldl_cons, List.foldl_nil, addInOrder]
      rw [hadd, requestCacheAdd_entries hsize, if_pos hused, ih, List.set_set, List.getLast?_concat, Option.elim_some]

/-- A request found is one that an entry has. -/
theorem requestCacheSearch_req {cache : RequestCache} {fd : Int} (h : (requestCacheSearch rs cache fd).2 = some r) :
    ∃ i, (cache.entries.getD i {}).req = some r := by
  simp only [requestCacheSearch] at h
  split at h
  · contradiction
  · next i hi =>
      split at h
      · next hreq =>
          obtain rfl := Option.some.inj h
          exact ⟨i, (Option.filter_eq_some_iff.mp hreq).1⟩
      · contradiction

/-- So all the others are lost. -/
theorem getLast_of_found {fd : Int} (h : (requestCacheSearch rs (addInOrder rs ids) fd).2 = some r) :
    ids.getLast? = some r := by
  obtain ⟨i, hi⟩ := requestCacheSearch_req h
  rw [addInOrder_entries, FcgiContext.getD_set] at hi
  split at hi
  · cases hlast : ids.getLast? with
    | none =>
        rw [hlast] at hi
        contradiction
    | some r' =>
        rw [hlast] at hi
        exact hi
  · rw [requestCacheInit_getD] at hi
    contradiction

/-- One request with a descriptor is found: its entry is the only one with a descriptor. -/
theorem allFound_singleton (hfd : (rs.getD r {}).fd ≠ -1) : AllFound rs [r] := by
  intro r' hr'
  obtain rfl := List.mem_singleton.mp hr'
  have hentry : ∀ i, (addInOrder rs [r']).entries.getD i {} = if i = 1 then freshEntry r' (rs.getD r' {}) else {} := by
    intro i
    have hlt : 1 < requestCacheInit.entries.length := by decide
    rw [addInOrder_entries, FcgiContext.getD_set, requestCacheInit_getD]
    simp [hlt]
  have hmatch : (fun i => ((addInOrder rs [r']).entries.getD i {}).fd == (rs.getD r' {}).fd) = fun i => i == 1 := by
    funext i
    rw [hentry, Bool.eq_iff_iff, beq_iff_eq, beq_iff_eq]
    by_cases hone : i = 1
    · rw [if_pos hone]
      exact iff_of_true rfl hone
    · rw [if_neg hone]
      exact iff_of_false hfd.symm hone
  have hhand : (clockwise (addInOrder rs [r']).clockHand reqCacheSize).find? (fun i => i == 1) = some 1 := by
    have hclock : (addInOrder rs [r']).clockHand = 1 := rfl
    rw [hclock]
    decide
  have hkept : (some r').filter (fun r => (rs.getD r {}).fd == (rs.getD r' {}).fd) = some r' :=
    Option.filter_some_pos (beq_self_eq_true _)
  rw [requestCacheSearch, hmatch, hhand]
  simp only [hentry, if_true, freshEntry, hkept]

/-- Without a descriptor the search stops at an entry that has none either. -/
theorem not_allFound_of_fd (hfd : (rs.getD r {}).fd = -1) : ¬ AllFound rs [r] := by
  intro h
  have hnone : (requestCacheSearch rs (addInOrder rs [r]) (-1)).2 = none := rfl
  have hfound := h r (List.mem_singleton_self r)
  rw [hfd, hnone] at hfound
  contradiction

theorem allFound_iff (hnodup : ids.Nodup) : AllFound rs ids ↔ ids = [] ∨ ∃ r, ids = [r] ∧ (rs.getD r {}).fd ≠ -1 := by
  constructor
  · intro h
    cases ids with
    | nil => exact .inl rfl
    | cons r ids =>
        have hlast := getLast_of_found (h r List.mem_cons_self)
        obtain ⟨hnot, -⟩ := List.nodup_cons.mp hnodup
        cases ids with
        | nil => exact .inr ⟨r, rfl, fun hfd => not_allFound_of_fd hfd h⟩
        | cons r' ids =>
            rw [List.getLast?_cons_cons] at hlast
            exact absurd (List.mem_of_getLast? hlast) hnot
  · rintro (rfl | ⟨r, rfl, hfd⟩)
    · exact fun r hr => nomatch hr
    · exact allFound_singleton hfd

end inOrder

/-- **A free entry is what a request gets, when the second one is free**, and requests added
one after another are all found when there is at most one. -/
theorem requestCacheAdd_replaced_iff {cache : RequestCache} (hsize : cache.entries.length = reqCacheSize) (r : Nat)
    (q : Request) (rs : List Request) {ids : List Nat} (hnodup : ids.Nodup) :
    ((∃! i, Replaced cache (requestCacheAdd cache r q) r q i) ↔ (cache.entries.getD 1 {}).counter = 0) ∧
      (AllFound rs ids ↔ ids = [] ∨ ∃ r, ids = [r] ∧ (rs.getD r {}).fd ≠ -1) :=
  ⟨replaced_one_iff hsize, allFound_iff hnodup⟩

/-- The first request into a fresh cache. -/
theorem requestCacheAdd_replaced_iff_first :
    ((∃! i, Replaced requestCacheInit (requestCacheAdd requestCacheInit 0 { fd := 5 }) 0 { fd := 5 } i) ↔ (0 : Int) = 0) ∧
      (AllFound [{ fd := 5 }] [0] ↔ [0] = [] ∨ ∃ r, [0] = [r] ∧ ([({ fd := 5 } : Request)].getD r {}).fd ≠ -1) :=
  requestCacheAdd_replaced_iff rfl 0 { fd := 5 } [{ fd := 5 }] (List.nodup_singleton 0)

/-- The second request takes the entry of the first one, with all the others free, and the
first is not found any more. -/
theorem requestCacheAdd_takes_used :
    (∃ e ∈ (requestCacheAdd requestCacheInit 0 { fd := 5 }).entries, e.counter = 0) ∧
      (¬ ∃! i, Replaced (requestCacheAdd requestCacheInit 0 { fd := 5 })
        (requestCacheAdd (requestCacheAdd requestCacheInit 0 { fd := 5 }) 1 { fd := 6 }) 1 { fd := 6 } i) ∧
      [0, 1].Nodup ∧ [0, 1].length ≤ reqCacheSize ∧ ¬ AllFound [{ fd := 5 }, { fd := 6 }] [0, 1] := by
  refine ⟨⟨{}, ?_, rfl⟩, fun h => ?_, by decide, by decide, fun h => ?_⟩
  · decide
  · exact one_ne_zero ((replaced_one_iff rfl).mp h)
  · obtain h | ⟨r, h, -⟩ := (allFound_iff (by decide)).mp h
    · cases h
    · cases h

end Monkey.Fastcgi
