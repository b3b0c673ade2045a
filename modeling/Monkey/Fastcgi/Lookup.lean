import Monkey.Fastcgi.Handlers
import Monkey.Lib.Run

/-!
# Monkey.Fastcgi.Lookup

The request of a client found by its descriptor (`request_list_get_by_fd`), over
anything the plugin does to the list in between.

The entries of the cache have descriptors of their own, which are old ones once a
request has ended or its client has hung up.  An entry counts only if its request still
has the descriptor, and a request gets one only after a search for it has failed.
-/

namespace Monkey.Fastcgi

/-! ## what is done to the list -/

/-- What the plugin does to the list: a request reaches the stage 30 hook, a connection
selects one, it is looked up by its id or its descriptor, it is recycled, its client
hangs up, or it changes otherwise and keeps its descriptor. -/
inductive SlotCall
  | stage30 (clockId : UInt16) (fd : Int) (client : ClientRequest)
  | nextAssigned (clockId : UInt16)
  | get (reqId : UInt16)
  | getByFd (fd : Int)
  | recycle (r : Nat)
  | hangup (r : Nat)
  | change (r : Nat) (q : Request)
deriving DecidableEq, Repr

/-- `hangup` on a request: it fails, and is recycled unless a connection works on it. -/
def requestHangup (q : Request) : Request :=
  let q : Request := { q with state := .failed }
  if q.fcgiFd = -1 then requestRecycle q else { q with fd := -1, client := none }

/-- What `_mkp_stage_30` does to the list: only a client that has no request gets one. -/
def stage30Assign (rl : RequestList) (clockId : UInt16) (fd : Int) (client : ClientRequest) : RequestList :=
  match requestListGetByFd rl fd with
  | (rl, some _) => rl
  | (rl, none) =>
      match requestListNextAvailable rl clockId with
      | none => rl
      | some r =>
          match requestAssign (rl.rs.getD r {}) fd clockId client with
          | none => rl
          | some q => { rl with rs := rl.rs.set r q }

/-- The list afterwards. -/
def SlotCall.exec (rl : RequestList) : SlotCall → RequestList
  | .stage30 clockId fd client => stage30Assign rl clockId fd client
  | .nextAssigned clockId => (requestListNextAssigned rl clockId).1
  | .get reqId => (requestListGet rl reqId).1
  | .getByFd fd => (requestListGetByFd rl fd).1
  | .recycle r => { rl with rs := rl.rs.set r (requestRecycle (rl.rs.getD r {})) }
  | .hangup r => { rl with rs := rl.rs.set r (requestHangup (rl.rs.getD r {})) }
  | .change r q => { rl with rs := rl.rs.set r q }

/-- Sockets are not negative, and other changes leave the descriptor. -/
def SlotCall.Allowed (rl : RequestList) : SlotCall → Prop
  | .stage30 _ fd _ => 0 ≤ fd
  | .getByFd fd => 0 ≤ fd
  | .change r q => q.fd = (rl.rs.getD r {}).fd
  | _ => True

/-- One call. -/
def SlotCall.Step (rl : RequestList) (call : SlotCall) (rl' : RequestList) : Prop :=
  call.Allowed rl ∧ rl' = call.exec rl

/-! ## the descriptors -/

/-- No two requests have the same client. -/
def UniqueFds (rs : List Request) : Prop :=
  ∀ r r', (rs.getD r {}).fd = (rs.getD r' {}).fd → (rs.getD r {}).fd ≠ -1 → r = r'

section fds

variable {rs : List Request} {rl : RequestList} {q : Request} {r : Nat} {fd : Int}

theorem lt_of_fd_ne (h : (rs.getD r {}).fd ≠ -1) : r < rs.length := by
  by_contra hge
  rw [List.getD_eq_getElem?_getD, List.getElem?_eq_none (Nat.le_of_not_lt hge)] at h
  exact h rfl

/-- A request that keeps its descriptor or loses it. -/
theorem UniqueFds.set (h : UniqueFds rs) (hq : q.fd = (rs.getD r {}).fd ∨ q.fd = -1) : UniqueFds (rs.set r q) := by
  have hfd : ∀ i, ((rs.set r q).getD i {}).fd = (rs.getD i {}).fd ∨ ((rs.set r q).getD i {}).fd = -1 := by
    intro i
    rw [FcgiContext.getD_set]
    split
    · next hi => rwa [hi.1]
    · exact .inl rfl
  intro i j hij hne
  have hi := (hfd i).resolve_right hne
  have hj := (hfd j).resolve_right (hij ▸ hne)
  exact h i j (by rw [← hi, ← hj, hij]) (hi ▸ hne)

/-- A request that gets a descriptor no other has. -/
theorem UniqueFds.assign (h : UniqueFds rs) (hnew : ∀ i, (rs.getD i {}).fd ≠ q.fd) : UniqueFds (rs.set r q) := by
  intro i j
  rw [FcgiContext.getD_set, FcgiContext.getD_set]
  split
  · next hi =>
      split
      · next hj => exact fun _ _ => hi.1.trans hj.1.symm
      · exact fun heq _ => absurd heq.symm (hnew j)
  · split
    · exact fun heq _ => absurd heq (hnew i)
    · exact h i j

/-- **The search finds the request of a client**, whatever the cache holds. -/
theorem requestListGetByFd_iff (h : UniqueFds rl.rs) (hfd : fd ≠ -1) :
    (requestListGetByFd rl fd).2 = some r ↔ (rl.rs.getD r {}).fd = fd := by
  constructor
  · exact requestListGetByFd_some
  · intro hr
    cases hfound : (requestListGetByFd rl fd).2 with
    | none => exact absurd hr (requestListGetByFd_none hfound (lt_of_fd_ne (hr.symm ▸ hfd)))
    | some r' =>
        have hr' := requestListGetByFd_some hfound
        rw [h r' r (hr'.trans hr.symm) (hr'.symm ▸ hfd)]

/-- It finds what a scan of the slots finds. -/
theorem requestListGetByFd_eq_findIdx? (h : UniqueFds rl.rs) (hfd : fd ≠ -1) :
    (requestListGetByFd rl fd).2 = rl.rs.findIdx? (·.fd == fd) := by
  cases hscan : rl.rs.findIdx? (·.fd == fd) with
  | some r =>
      obtain ⟨hlt, hr, -⟩ := List.findIdx?_eq_some_iff_getElem.mp hscan
      exact (requestListGetByFd_iff h hfd).mpr (by simpa [hlt] using hr)
  | none =>
      have hno := List.findIdx?_eq_none_iff.mp hscan
      rw [Option.eq_none_iff_forall_ne_some]
      intro r hr
      have hfound := requestListGetByFd_some hr
      have hlt : r < rl.rs.length := lt_of_fd_ne (hfound.symm ▸ hfd)
      rw [List.getD_eq_getElem?_getD, List.getElem?_eq_getElem hlt, Option.getD_some] at hfound
      simpa [hfound] using hno _ (List.getElem_mem hlt)

end fds

/-! ## the cache -/

/-- An entry without a request has no descriptor, and a request is one of the list. -/
def EntryOk (n : Nat) (e : ReqCacheEntry) : Prop := (e.req = none → e.fd = -1) ∧ ∀ r ∈ e.req, r < n

/-- The entries of the cache of a list with so many slots. -/
def CacheOk (n : Nat) (cache : RequestCache) : Prop := ∀ e ∈ cache.entries, EntryOk n e

section cache

variable {n : Nat} {cache : RequestCache}

theorem CacheOk.getD (h : CacheOk n cache) (i : Nat) : EntryOk n (cache.entries.getD i {}) := by
  rw [List.getD_eq_getElem?_getD]
  cases hget : cache.entries[i]? with
  | none => exact ⟨fun _ => rfl, fun r hr => by cases hr⟩
  | some e => exact h e (List.mem_of_getElem? hget)

theorem CacheOk.set (h : CacheOk n cache) {e : ReqCacheEntry} (he : EntryOk n e) (i hand : Nat) :
    CacheOk n { entries := cache.entries.set i e, clockHand := hand } := by
  intro e' he'
  rcases List.mem_or_eq_of_mem_set he' with hold | rfl
  · exact h e' hold
  · exact he

/-- A request of the list is put in an entry. -/
theorem entryOk_of_lt {r : Nat} (hr : r < n) {e : ReqCacheEntry} (he : e.req = some r) : EntryOk n e := by
  refine ⟨fun hnone => ?_, fun r' hr' => ?_⟩
  · rw [he] at hnone
    contradiction
  · rw [he] at hr'
    exact Option.some.inj hr' ▸ hr

theorem cacheOk_init : CacheOk n requestCacheInit := by
  intro e he
  rw [List.eq_of_mem_replicate he]
  exact ⟨fun _ => rfl, fun r hr => by cases hr⟩

theorem CacheOk.add (h : CacheOk n cache) {r : Nat} (hr : r < n) (q : Request) :
    CacheOk n (requestCacheAdd cache r q) := by
  have hloop : ∀ (is : List Nat) (cache : RequestCache), CacheOk n cache → CacheOk n (cacheAddLoop r q is cache) := by
    intro is
    induction is with
    | nil => exact fun cache h => h
    | cons i is ih =>
        intro cache h
        simp only [cacheAddLoop]
        split
        · refine ih _ (h.set ?_ 1 cache.clockHand)
          exact ⟨(h.getD 1).1, (h.getD 1).2⟩
        · exact h.set (entryOk_of_lt hr rfl) 1 i
  exact hloop _ cache h

theorem CacheOk.hit (h : CacheOk n cache) {r : Nat} (hr : r < n) (q : Request) :
    CacheOk n (requestCacheHit cache r q) := by
  unfold requestCacheHit
  split
  · next i hi =>
      have hreq : (cache.entries.getD i {}).req = some r := by simpa using List.find?_some hi
      refine h.set ?_ i cache.clockHand
      exact entryOk_of_lt hr hreq
  · exact h.add hr q

theorem CacheOk.search (h : CacheOk n cache) (rs : List Request) (fd : Int) :
    CacheOk n (requestCacheSearch rs cache fd).1 := by
  simp only [requestCacheSearch]
  split
  · exact h
  · next i hi =>
      split
      · refine h.set ?_ i cache.clockHand
        exact ⟨(h.getD i).1, (h.getD i).2⟩
      · refine h.set ?_ i cache.clockHand
        exact ⟨fun _ => rfl, (h.getD i).2⟩

end cache

/-! ## the list -/

/-- The list: its clients are different, and its cache holds requests of it. -/
structure ListOk (rl : RequestList) : Prop where
  unique : UniqueFds rl.rs
  cache : CacheOk rl.rs.length rl.cache

section list

variable {rl rl' : RequestList}

theorem ListOk.nextAssigned (h : ListOk rl) (clockId : UInt16) : ListOk (requestListNextAssigned rl clockId).1 := by
  unfold requestListNextAssigned
  split
  · exact h
  · next i hi => exact ⟨h.unique, h.cache.hit (scanFrom_eq_some hi).1 _⟩

theorem ListOk.get (h : ListOk rl) (reqId : UInt16) : ListOk (requestListGet rl reqId).1 := by
  simp only [requestListGet]
  split
  · next hc => exact ⟨h.unique, h.cache.hit hc.2 _⟩
  · exact h

theorem ListOk.getByFd (h : ListOk rl) (fd : Int) : ListOk (requestListGetByFd rl fd).1 := by
  simp only [requestListGetByFd]
  split
  · next cache r hsearch => exact ⟨h.unique, by simpa [hsearch] using h.cache.search rl.rs fd⟩
  · next cache hsearch =>
      have hcache : CacheOk rl.rs.length cache := by simpa [hsearch] using h.cache.search rl.rs fd
      split
      · exact ⟨h.unique, hcache⟩
      · next i hi => exact ⟨h.unique, hcache.add (scanFrom_eq_some hi).1 _⟩

theorem ListOk.withRs (h : ListOk rl) {rs : List Request} (hlen : rs.length = rl.rs.length) (hu : UniqueFds rs) :
    ListOk { rl with rs := rs } :=
  ⟨hu, by rw [hlen]; exact h.cache⟩

theorem requestAssign_fd {q q' : Request} {fd : Int} {clockId : UInt16} {client : ClientRequest}
    (h : requestAssign q fd clockId client = some q') : q'.fd = fd := by
  obtain ⟨q₁, -, rfl⟩ := Option.map_eq_some_iff.mp h
  rfl

/-- A client that gets a request has none. -/
theorem ListOk.stage30 (h : ListOk rl) (clockId : UInt16) {fd : Int} (hfd : fd ≠ -1) (client : ClientRequest) :
    ListOk (stage30Assign rl clockId fd client) := by
  unfold stage30Assign
  split
  · next found r hfound => simpa only [hfound] using h.getByFd fd
  · next found hfound =>
      have hok : ListOk found := by simpa only [hfound] using h.getByFd fd
      have hnone : (requestListGetByFd rl fd).2 = none := by rw [hfound]
      have hrs : found.rs = rl.rs := by simpa only [hfound] using requestListGetByFd_rs rl fd
      split
      · exact hok
      · next r hr =>
          split
          · exact hok
          · next q hq =>
              refine hok.withRs List.length_set (hok.unique.assign fun i hi => ?_)
              rw [hrs, requestAssign_fd hq] at hi
              exact requestListGetByFd_none hnone (lt_of_fd_ne (hi.symm ▸ hfd)) hi

theorem requestHangup_fd (q : Request) : (requestHangup q).fd = -1 := by
  simp only [requestHangup]
  split <;> rfl

/-- **Step**: every call keeps the list. -/
theorem ListOk.step {call : SlotCall} (h : ListOk rl) (hstep : SlotCall.Step rl call rl') : ListOk rl' := by
  obtain ⟨hallowed, rfl⟩ := hstep
  cases call with
  | stage30 clockId fd client =>
      have h0 : 0 ≤ fd := hallowed
      exact h.stage30 clockId (by omega) client
  | nextAssigned clockId => exact h.nextAssigned clockId
  | get reqId => exact h.get reqId
  | getByFd fd => exact h.getByFd fd
  | recycle r => exact h.withRs List.length_set (h.unique.set (.inr rfl))
  | hangup r => exact h.withRs List.length_set (h.unique.set (.inr (requestHangup_fd _)))
  | change r q => exact h.withRs List.length_set (h.unique.set (.inl hallowed))

theorem listOk_init {clockCount idOffset size : UInt16} (h : requestListInit clockCount idOffset size = some rl) :
    ListOk rl := by
  unfold requestListInit at h
  split at h
  · obtain rfl := Option.some.inj h
    refine ⟨fun r r' _ hne => ?_, cacheOk_init⟩
    have hr : ((List.replicate size.toNat ({} : Request)).getD r {}).fd = -1 := by
      rw [List.getD_eq_getElem?_getD, List.getElem?_replicate]
      split <;> rfl
    exact absurd hr hne
  · contradiction

/-- **The cache is transparent**: after anything done to the list, the search for a
descriptor finds what a scan of the slots does, the one request that has it; and where the
descriptor is in the cache, it is with a request of the list. -/
theorem requestListGetByFd_transparent {clockCount idOffset size : UInt16} {rl₀ : RequestList} {calls : List SlotCall}
    (hinit : requestListInit clockCount idOffset size = some rl₀) (hrun : Run SlotCall.Step rl₀ calls rl) {fd : Int}
    (hfd : 0 ≤ fd) :
    (requestListGetByFd rl fd).2 = rl.rs.findIdx? (·.fd == fd) ∧
      (∀ r, (requestListGetByFd rl fd).2 = some r ↔ r < rl.rs.length ∧ (rl.rs.getD r {}).fd = fd) ∧
      ∀ e ∈ rl.cache.entries, e.fd = fd → ∃ r < rl.rs.length, e.req = some r := by
  have hok : ListOk rl := hrun.invariant (fun _ _ _ h hstep => h.step hstep) (listOk_init hinit)
  have hne : fd ≠ -1 := by omega
  refine ⟨requestListGetByFd_eq_findIdx? hok.unique hne, fun r => ?_, fun e he hentry => ?_⟩
  · rw [requestListGetByFd_iff hok.unique hne]
    exact ⟨fun h => ⟨lt_of_fd_ne (h.symm ▸ hne), h⟩, And.right⟩
  · obtain ⟨hnone, hlt⟩ := hok.cache e he
    cases hreq : e.req with
    | none => exact absurd (hentry.symm.trans (hnone hreq)) hne
    | some r => exact ⟨r, hlt r hreq, rfl⟩

/-- Calls that are allowed anywhere give a run. -/
theorem SlotCall.run_foldl {calls : List SlotCall} (hallowed : ∀ call ∈ calls, ∀ rl, call.Allowed rl) :
    ∀ rl, Run SlotCall.Step rl calls (calls.foldl SlotCall.exec rl) := by
  induction calls with
  | nil => exact fun rl => .nil rl
  | cons call calls ih =>
      intro rl
      exact .cons ⟨hallowed call List.mem_cons_self rl, rfl⟩ (ih (fun c hc => hallowed c (List.mem_cons_of_mem _ hc)) _)

end list

/-- Two clients get requests, and the first is looked up and hangs up; its slot goes to a
third, and its descriptor to a fourth in the slot of the second. -/
def reusedDescriptor : List SlotCall :=
  [.stage30 0 5 {}, .stage30 0 6 {}, .getByFd 5, .hangup 1, .stage30 0 7 {}, .hangup 0, .stage30 0 5 {}]

/-- The descriptor is found in its new slot. -/
theorem requestListGetByFd_transparent_reused :
    ∃ rl₀, requestListInit 1 1 2 = some rl₀ ∧
      (requestListGetByFd (reusedDescriptor.foldl SlotCall.exec rl₀) 5).2 = some 0 := by
  have hallowed : ∀ call ∈ reusedDescriptor, ∀ rl, call.Allowed rl := by
    simp [reusedDescriptor, SlotCall.Allowed]
  obtain ⟨-, hfound, -⟩ := requestListGetByFd_transparent (rfl : requestListInit 1 1 2 = some
    { idOffset := 1, clockHands := [0], rs := [{}, {}] }) (SlotCall.run_foldl hallowed _) (by decide : (0 : Int) ≤ 5)
  exact ⟨_, rfl, (hfound 0).mpr (by decide +kernel)⟩

end Monkey.Fastcgi
