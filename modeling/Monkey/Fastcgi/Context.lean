import Monkey.Fastcgi.FcgiFd
import Monkey.Lib.Bits
import Mathlib.Data.UInt

/-!
# Monkey.Fastcgi.Context

The contexts of the worker threads of the FastCGI plugin (`fcgi_context.c`) and the
ids their request lists hand out: the sixteen bits of a record header are shared by
the slots of all threads.
-/

namespace Monkey.Fastcgi

/-- `struct fcgi_context`; its chunks are those of the connections.  The list `cl`
of all chunks is left out, because a chunk is only ever found through the connection or the
vector that holds it; whether one is used after it was freed is asked with the references, in
`Monkey.Fastcgi.ChunkHolders`. -/
structure FcgiContext where
  rl : RequestList
  fds : List FcgiFd := []
deriving DecidableEq, Repr

/-- `fcgi_context_init`; `granted` is whether the memory requests made for the
thread were all met. -/
def fcgiContextInit (granted : Bool) (fdm : FcgiFdMatrix) (threadId : Nat) (requestCapacity : UInt16)
    (config : FcgiConfig) : Option FcgiContext :=
  let requestOffset := (1 + requestCapacity.toNat * threadId) % 2 ^ 32
  match requestListInit (UInt16.ofNat config.locations.length) (UInt16.ofNat requestOffset)
      requestCapacity, fcgiFdListInit fdm threadId config with
  | some rl, some fds => if granted then some { rl := rl, fds := fds } else none
  | _, _ => none

/-- `fcgi_context_list_init`: `alloc` answers the memory requests, first that for the
matrix, then that for the list of contexts, then those of the threads.  No memory is
granted for a negative number of contexts. -/
def fcgiContextListInit (alloc : Nat → Bool) (config : FcgiConfig) (workers workerCapacity : Int) :
    Option (List FcgiContext) :=
  let fdm := fcgiFdMatrixCreate (alloc 0) config workers.toNat
  let capacity := nextPowerOf2 (UInt16.ofInt workerCapacity)
  if capacity > 0 ∧ capacity < 65535 ∧ 0 ≤ workers ∧ alloc 1 then
    (List.range workers.toNat).mapM fun i => fcgiContextInit (alloc (2 + i)) fdm i capacity config
  else none

/-! ## the capacity -/

/-- The rounding is to the power of two at or above, modulo `2 ^ 16`. -/
theorem nextPowerOf2_toNat (v : UInt16) :
    (nextPowerOf2 v).toNat = 2 ^ (v - 1).toNat.size % 2 ^ 16 := by
  have hsmear : Smeared 16 (v - 1).toNat (nextPowerOf2 v - 1).toNat := by
    have h := (((Smeared.one (v - 1).toNat).double).double).double.double
    simpa [nextPowerOf2, UInt16.toNat_or, UInt16.toNat_shiftRight] using h
  have heq := hsmear.eq_two_pow_sub_one (UInt16.toNat_lt _)
  have hpos : 0 < 2 ^ (v - 1).toNat.size := Nat.two_pow_pos _
  calc (nextPowerOf2 v).toNat = (nextPowerOf2 v - 1 + 1).toNat := by simp
    _ = ((nextPowerOf2 v - 1).toNat + 1) % 2 ^ 16 := UInt16.toNat_add _ _
    _ = 2 ^ (v - 1).toNat.size % 2 ^ 16 := by rw [heq, Nat.sub_add_cancel hpos]

/-- A capacity the list accepts is at least what was asked for, unless that was cut
to sixteen bits, and at most `2 ^ 15`. -/
theorem nextPowerOf2_spec {v : UInt16} (h : nextPowerOf2 v > 0) :
    v.toNat ≤ (nextPowerOf2 v).toNat ∧ (nextPowerOf2 v).toNat ≤ 2 ^ 15 := by
  have hv := nextPowerOf2_toNat v
  have hpos : 0 < (nextPowerOf2 v).toNat := UInt16.lt_iff_toNat_lt.mp h
  have hsize : (v - 1).toNat.size ≤ 15 := by
    by_contra hbig
    have hdvd : 2 ^ 16 ∣ 2 ^ (v - 1).toNat.size := Nat.pow_dvd_pow 2 (by omega)
    rw [Nat.mod_eq_zero_of_dvd hdvd] at hv
    omega
  have hle : 2 ^ (v - 1).toNat.size ≤ 2 ^ 15 := Nat.pow_le_pow_right (by decide) hsize
  have hlt : (v - 1).toNat < 2 ^ (v - 1).toNat.size := Nat.lt_size_self _
  rw [Nat.mod_eq_of_lt (by omega)] at hv
  have hsub : v.toNat ≤ (v - 1).toNat + 1 := by
    rw [UInt16.toNat_sub]
    have := v.toNat_lt
    have : (1 : UInt16).toNat = 1 := rfl
    omega
  omega

/-! ## the ids of the slots -/

/-- What the ids of the slots are for: every thread has the slots asked for, an id
names a slot of all threads, and a thread finds its slots by their ids. -/
structure IdsOk (workerCapacity : Int) (ctxs : List FcgiContext) : Prop where
  slots : ∀ ctx ∈ ctxs, workerCapacity ≤ ctx.rl.rs.length
  range : ∀ ctx ∈ ctxs, ∀ r < ctx.rl.rs.length,
    1 ≤ (requestListIndexOf ctx.rl r).toNat ∧ (requestListIndexOf ctx.rl r).toNat ≤ 65535
  distinct : ∀ (t t' r r' : Nat) (ctx ctx' : FcgiContext), ctxs[t]? = some ctx → ctxs[t']? = some ctx' →
    r < ctx.rl.rs.length → r' < ctx'.rl.rs.length →
    requestListIndexOf ctx.rl r = requestListIndexOf ctx'.rl r' → t = t' ∧ r = r'
  get : ∀ ctx ∈ ctxs, ∀ r < ctx.rl.rs.length,
    (requestListGet ctx.rl (requestListIndexOf ctx.rl r)).2 = some r

theorem forall₂_of_mapM {α β : Type} {f : α → Option β} {l : List α} {l' : List β}
    (h : l.mapM f = some l') : List.Forall₂ (fun a b => f a = some b) l l' := by
  induction l generalizing l' with
  | nil =>
      obtain rfl : [] = l' := by simpa using h
      exact .nil
  | cons a l ih =>
      simp only [List.mapM_cons, Option.bind_eq_bind, Option.bind_eq_some_iff, Option.pure_def,
        Option.some.injEq] at h
      obtain ⟨b, hb, bs, hbs, rfl⟩ := h
      exact .cons hb (ih hbs)

/-- A context of thread `t` starts its ids after those of the threads before. -/
theorem fcgiContextInit_eq_some {granted : Bool} {fdm : FcgiFdMatrix} {t : Nat} {capacity : UInt16}
    {config : FcgiConfig} {ctx : FcgiContext}
    (h : fcgiContextInit granted fdm t capacity config = some ctx) :
    ctx.rl.idOffset.toNat = (1 + capacity.toNat * t) % 2 ^ 16 ∧
      ctx.rl.rs.length = capacity.toNat := by
  simp only [fcgiContextInit] at h
  split at h
  · next rl fds hrl _ =>
      split at h
      · obtain rfl := Option.some.inj h
        unfold requestListInit at hrl
        split at hrl
        · obtain rfl := Option.some.inj hrl
          constructor
          · show (UInt16.ofNat _).toNat = _
            rw [UInt16.toNat_ofNat', Nat.mod_mod_of_dvd _ (by decide)]
          · exact List.length_replicate
        · contradiction
      · contradiction
  · contradiction

theorem exists_of_mem_mapM {α β : Type} {f : α → Option β} {l : List α} {l' : List β}
    (h : l.mapM f = some l') {b : β} (hb : b ∈ l') : ∃ a, f a = some b := by
  have hall := forall₂_of_mapM h
  obtain ⟨t, ht, rfl⟩ := List.mem_iff_getElem.mp hb
  exact ⟨_, hall.get (by rwa [hall.length_eq]) ht⟩

/-- The entries stored are those of the servers. -/
theorem mem_fcgiFdListRows {fdm : FcgiFdMatrix} {t : Nat} {config : FcgiConfig} {is : List Nat} {fds out : List FcgiFd}
    (h : fcgiFdListRows fdm t config is fds = (true, out)) {f : FcgiFd} (hf : f ∈ out) :
    f ∈ fds ∨ ∃ i row, fcgiFdListRow fdm t config i = some row ∧ f ∈ row := by
  induction is generalizing fds with
  | nil =>
      obtain ⟨-, rfl⟩ := Prod.mk.inj h
      exact .inl hf
  | cons i is ih =>
      unfold fcgiFdListRows at h
      cases hrow : fcgiFdListRow fdm t config i with
      | none =>
          rw [hrow] at h
          exact absurd (Prod.mk.inj h).1 Bool.noConfusion
      | some row =>
          rw [hrow] at h
          obtain hmem | hrest := ih h
          · exact (List.mem_append.mp hmem).imp_right fun hmem => ⟨i, row, hrow, hmem⟩
          · exact .inr hrest

/-- The connections of a thread start closed. -/
theorem fcgiFdListInit_mem {fdm : FcgiFdMatrix} {t : Nat} {config : FcgiConfig} {fds : List FcgiFd}
    (h : fcgiFdListInit fdm t config = some fds) {f : FcgiFd} (hf : f ∈ fds) :
    ∃ type server location, f = fcgiFdInit type server location := by
  obtain hmem | ⟨i, row, hrow, hmem⟩ := mem_fcgiFdListRows (fcgiFdListInit_eq_some h).1 hf
  · exact absurd hmem List.not_mem_nil
  · obtain ⟨srv, -, hserver⟩ := Option.bind_eq_some_iff.mp hrow
    simp only at hserver
    split at hserver
    · obtain rfl := Option.some.inj hserver
      exact ⟨_, _, _, List.eq_of_mem_replicate hmem⟩
    · split at hserver
      · obtain rfl := Option.some.inj hserver
        exact absurd hmem List.not_mem_nil
      · contradiction

/-- The slots of a thread start free. -/
theorem fcgiContextInit_slots {granted : Bool} {fdm : FcgiFdMatrix} {t : Nat} {capacity : UInt16}
    {config : FcgiConfig} {ctx : FcgiContext}
    (h : fcgiContextInit granted fdm t capacity config = some ctx) :
    (∀ q ∈ ctx.rl.rs, q = {}) ∧ ∀ f ∈ ctx.fds, ∃ type server location, f = fcgiFdInit type server location := by
  simp only [fcgiContextInit] at h
  split at h
  case h_2 => contradiction
  case h_1 rl fds hrl hfds =>
    split at h
    case isFalse => contradiction
    case isTrue =>
      obtain rfl := Option.some.inj h
      refine ⟨fun q hq => ?_, fun f hf => fcgiFdListInit_mem hfds hf⟩
      unfold requestListInit at hrl
      split at hrl
      · obtain rfl := Option.some.inj hrl
        exact List.eq_of_mem_replicate hq
      · contradiction

/-- The contexts of a list that was built. -/
theorem fcgiContextListInit_eq_some {alloc : Nat → Bool} {config : FcgiConfig}
    {workers workerCapacity : Int} {ctxs : List FcgiContext}
    (h : fcgiContextListInit alloc config workers workerCapacity = some ctxs) :
    nextPowerOf2 (UInt16.ofInt workerCapacity) > 0 ∧ ctxs.length = workers.toNat ∧
      ∀ t ctx, ctxs[t]? = some ctx →
        ctx.rl.idOffset.toNat =
            (1 + (nextPowerOf2 (UInt16.ofInt workerCapacity)).toNat * t) % 2 ^ 16 ∧
          ctx.rl.rs.length = (nextPowerOf2 (UInt16.ofInt workerCapacity)).toNat := by
  simp only [fcgiContextListInit] at h
  split at h
  case isFalse => contradiction
  case isTrue hc =>
    have hall := forall₂_of_mapM h
    refine ⟨hc.1, by simpa using hall.length_eq.symm, ?_⟩
    intro t ctx hctx
    obtain ⟨ht, rfl⟩ := List.getElem?_eq_some_iff.mp hctx
    have hget := hall.get (by rw [hall.length_eq]; exact ht) ht
    simp only [List.get_eq_getElem, List.getElem_range] at hget
    exact fcgiContextInit_eq_some hget

/-- The id of slot `r` of thread `t`, in a list with `capacity` slots a thread. -/
theorem requestListIndexOf_toNat {rl : RequestList} {capacity t r : Nat}
    (hoff : rl.idOffset.toNat = (1 + capacity * t) % 2 ^ 16) (hr : r < rl.rs.length) :
    (requestListIndexOf rl r).toNat = (1 + (capacity * t + r)) % 2 ^ 16 := by
  rw [requestListIndexOf, if_pos hr.le, UInt16.toNat_add, hoff, UInt16.toNat_ofNat']
  omega

/-- Two slots of a thread's `capacity` are told apart by their place among all. -/
theorem slot_unique {capacity t t' r r' : Nat} (hr : r < capacity) (hr' : r' < capacity)
    (h : capacity * t + r = capacity * t' + r') : t = t' ∧ r = r' := by
  have hpos : 0 < capacity := by omega
  have ht : t = t' := by
    have hdiv := congrArg (· / capacity) h
    simpa [Nat.mul_add_div hpos, Nat.div_eq_of_lt hr, Nat.div_eq_of_lt hr'] using hdiv
  subst ht
  exact ⟨rfl, by omega⟩

/-- Where the slots of all threads number at most `2 ^ 16 - 1`, the ids are the
places of the slots, from one on. -/
theorem IdsOk.of_places {workerCapacity : Int} {capacity : Nat} {ctxs : List FcgiContext}
    (hcap : workerCapacity ≤ capacity) (hfit : ctxs.length * capacity ≤ 65535)
    (hctx : ∀ (t : Nat) (ctx : FcgiContext), ctxs[t]? = some ctx →
      ctx.rl.idOffset.toNat = (1 + capacity * t) % 2 ^ 16 ∧ ctx.rl.rs.length = capacity) :
    IdsOk workerCapacity ctxs := by
  have hplace : ∀ (t : Nat) (ctx : FcgiContext), ctxs[t]? = some ctx → ∀ r < capacity,
      capacity * t + r < 65535 := by
    intro t ctx h r hr
    obtain ⟨ht, -⟩ := List.getElem?_eq_some_iff.mp h
    calc capacity * t + r < capacity * t + capacity := by omega
      _ = capacity * (t + 1) := by ring
      _ ≤ capacity * ctxs.length := Nat.mul_le_mul_left _ ht
      _ ≤ 65535 := by rwa [Nat.mul_comm]
  have hid : ∀ (t : Nat) (ctx : FcgiContext), ctxs[t]? = some ctx → ∀ r < capacity,
      (requestListIndexOf ctx.rl r).toNat = 1 + (capacity * t + r) := by
    intro t ctx h r hr
    obtain ⟨hoff, hlen⟩ := hctx t ctx h
    rw [requestListIndexOf_toNat hoff (by omega), Nat.mod_eq_of_lt]
    have := hplace t ctx h r hr
    omega
  refine ⟨?_, ?_, ?_, ?_⟩
  · intro ctx hmem
    obtain ⟨t, ht⟩ := List.mem_iff_getElem?.mp hmem
    rwa [(hctx t ctx ht).2]
  · intro ctx hmem r hr
    obtain ⟨t, ht⟩ := List.mem_iff_getElem?.mp hmem
    rw [(hctx t ctx ht).2] at hr
    have := hid t ctx ht r hr
    have := hplace t ctx ht r hr
    omega
  · intro t t' r r' ctx ctx' ht ht' hr hr' heq
    rw [(hctx t ctx ht).2] at hr
    rw [(hctx t' ctx' ht').2] at hr'
    have := congrArg UInt16.toNat heq
    rw [hid t ctx ht r hr, hid t' ctx' ht' r' hr'] at this
    exact slot_unique hr hr' (by omega)
  · intro ctx hmem r hr
    obtain ⟨t, ht⟩ := List.mem_iff_getElem?.mp hmem
    have hlen := (hctx t ctx ht).2
    rw [hlen] at hr
    have hidr := hid t ctx ht r hr
    have hoff : ctx.rl.idOffset.toNat = 1 + capacity * t := by
      rw [(hctx t ctx ht).1, Nat.mod_eq_of_lt]
      have := hplace t ctx ht r hr
      omega
    have hle : ctx.rl.idOffset ≤ requestListIndexOf ctx.rl r := by
      rw [UInt16.le_iff_toNat_le]
      omega
    have hreal : (requestListIndexOf ctx.rl r - ctx.rl.idOffset).toNat = r := by
      rw [UInt16.toNat_sub_of_le _ _ hle]
      omega
    simp only [requestListGet]
    rw [if_pos ⟨hle, by omega⟩, hreal]

/-- **Ids of the slots.**  Whenever the contexts of the worker threads are built, the
ids name the slots of all threads exactly when no thread was asked for more than
`2 ^ 15` slots and the slots of all threads number at most `2 ^ 16 - 1`. -/
theorem idsOk_iff_slots_fit {alloc : Nat → Bool} {config : FcgiConfig} {workers workerCapacity : Int}
    {ctxs : List FcgiContext}
    (h : fcgiContextListInit alloc config workers workerCapacity = some ctxs) :
    IdsOk workerCapacity ctxs ↔
      workers.toNat = 0 ∨ (workerCapacity ≤ 2 ^ 15 ∧
        workers.toNat * (nextPowerOf2 (UInt16.ofInt workerCapacity)).toNat ≤ 65535) := by
  obtain ⟨hpos, hlen, hctx⟩ := fcgiContextListInit_eq_some h
  obtain ⟨hge, hle⟩ := nextPowerOf2_spec hpos
  have hcap : 0 < (nextPowerOf2 (UInt16.ofInt workerCapacity)).toNat := UInt16.lt_iff_toNat_lt.mp hpos
  generalize hc : (nextPowerOf2 (UInt16.ofInt workerCapacity)).toNat = capacity at *
  constructor
  · intro hok
    rw [or_iff_not_imp_left]
    intro hw
    constructor
    · have hget : ctxs[0]? = some (ctxs.get ⟨0, by omega⟩) := List.getElem?_eq_getElem (by omega)
      have := hok.slots _ (List.mem_of_getElem? hget)
      rw [(hctx 0 _ hget).2] at this
      omega
    · -- the slot in place `2 ^ 16` would have the id zero
      by_contra hbig
      have ht : 65535 / capacity < ctxs.length := by
        rw [Nat.div_lt_iff_lt_mul hcap, hlen]
        omega
      have hget : ctxs[65535 / capacity]? = some (ctxs.get ⟨65535 / capacity, ht⟩) :=
        List.getElem?_eq_getElem ht
      obtain ⟨hoff, hsize⟩ := hctx _ _ hget
      have hr : 65535 % capacity < (ctxs.get ⟨65535 / capacity, ht⟩).rl.rs.length := by
        rw [hsize]
        exact Nat.mod_lt _ hcap
      have hid := requestListIndexOf_toNat hoff hr
      rw [Nat.div_add_mod] at hid
      have := (hok.range _ (List.mem_of_getElem? hget) _ hr).1
      omega
  · rintro (hw | ⟨hsmall, hfit⟩)
    · obtain rfl : ctxs = [] := List.eq_nil_of_length_eq_zero (hlen.trans hw)
      exact ⟨by simp, by simp, by simp, by simp⟩
    · refine IdsOk.of_places ?_ (by rwa [hlen]) hctx
      by_cases hneg : workerCapacity < 0
      · omega
      · lift workerCapacity to Nat using by omega
        have hv : (UInt16.ofInt (workerCapacity : Int)).toNat = workerCapacity := by
          show ((workerCapacity : Int) % 2 ^ 16).toNat % 2 ^ 16 = workerCapacity
          omega
        omega

/-- Four workers with three slots each: sixteen slots, with the ids 1 to 16. -/
theorem idsOk_four_workers : ∃ ctxs, fcgiContextListInit (fun _ => true) {} 4 3 = some ctxs ∧
    IdsOk 3 ctxs :=
  have h : fcgiContextListInit (fun _ => true) {} 4 3 =
      some ((List.range 4).map fun t =>
        { rl := { idOffset := UInt16.ofNat (1 + 4 * t), rs := List.replicate 4 {} } }) := by decide +kernel
  ⟨_, h, (idsOk_iff_slots_fit h).mpr (.inr (by decide))⟩

/-- With two workers of `2 ^ 15` slots the last slot has the id zero. -/
theorem idsOk_fails_two_workers : ∃ ctxs,
    fcgiContextListInit (fun _ => true) {} 2 32768 = some ctxs ∧ ¬ IdsOk 32768 ctxs := by
  refine ⟨[{ rl := { idOffset := 1, rs := List.replicate 32768 {} } },
    { rl := { idOffset := 32769, rs := List.replicate 32768 {} } }], rfl, ?_⟩
  intro hok
  have hrange := (hok.range _ (List.mem_cons_of_mem _ List.mem_cons_self) 32767
    (by rw [List.length_replicate]; decide)).1
  rw [requestListIndexOf, if_pos (by rw [List.length_replicate]; decide)] at hrange
  exact absurd hrange (by decide)

end Monkey.Fastcgi
