import Monkey.Fastcgi.Protocol

/-!
# Monkey.Fastcgi.Params

The name-value pairs of a `PARAMS` stream read back (`protocol.c`).

A cursor stands on a pair: it knows the lengths of its name and its value, and where the
name starts.  The next pair starts behind the value.  The writer chooses the form of a
length from the length, the reader from its first bit, and steps over it by the length it
read.
-/

namespace Monkey.Fastcgi

/-! ## the cursor -/

/-- `fcgi_param_read_length`. -/
def fcgiParamReadLength (p : Bytes) : UInt32 :=
  if (p.getD 0 0) >>> 7 = 1 then
    ((p.getD 0 0 &&& 0x7f).toUInt32 <<< 24) + ((p.getD 1 0).toUInt32 <<< 16) +
      ((p.getD 2 0).toUInt32 <<< 8) + (p.getD 3 0).toUInt32
  else (p.getD 0 0).toUInt32

/-- `struct fcgi_param_entry`: `base` are the bytes from the pointer on, `base_len` of
which are the buffer. -/
structure FcgiParamEntry where
  keyLen : UInt32 := 0
  valueLen : UInt32 := 0
  position : Nat := 0
  baseLen : Nat
  base : Bytes
deriving DecidableEq, Repr

/-- `fcgi_param_entry_next`, `true` for `0`; the lengths are added as `uint32_t`. -/
def fcgiParamEntryNext (e : FcgiParamEntry) : Bool × FcgiParamEntry :=
  let e := { e with position := e.position + (e.keyLen + e.valueLen).toNat }
  if e.position < e.baseLen then
    let keyLen := fcgiParamReadLength (e.base.drop e.position)
    let position := e.position + if keyLen > 127 then 4 else 1
    let valueLen := fcgiParamReadLength (e.base.drop position)
    (true, { e with
      keyLen := keyLen, valueLen := valueLen, position := position + if valueLen > 127 then 4 else 1 })
  else (false, e)

/-- `fcgi_param_entry_init`. -/
def fcgiParamEntryInit (p : Bytes) (pLen : Nat) : FcgiParamEntry :=
  (fcgiParamEntryNext { baseLen := pLen, base := p }).2

/-- `fcgi_param_entry_key`. -/
def fcgiParamEntryKey (e : FcgiParamEntry) : Bytes := (e.base.drop e.position).take e.keyLen.toNat

/-- `fcgi_param_entry_value`. -/
def fcgiParamEntryValue (e : FcgiParamEntry) : Bytes :=
  (e.base.drop (e.position + e.keyLen.toNat)).take e.valueLen.toNat

/-- The `do … while` loop of `fcgi_param_entry_search`, which ends within as many steps as
the buffer has bytes. -/
def fcgiParamEntrySearchLoop (key : Bytes) : Nat → FcgiParamEntry → Bool × FcgiParamEntry
  | 0, e => (false, e)
  | fuel + 1, e =>
      if e.keyLen.toNat = key.length ∧ fcgiParamEntryKey e = key then (true, e)
      else
        match fcgiParamEntryNext e with
        | (true, e) => fcgiParamEntrySearchLoop key fuel e
        | (false, e) => (false, e)

/-- `fcgi_param_entry_search`, `true` for `0`. -/
def fcgiParamEntrySearch (e : FcgiParamEntry) (key : Bytes) : Bool × FcgiParamEntry :=
  fcgiParamEntrySearchLoop key (e.baseLen + 1) e

/-- `fcgi_param_write` without a buffer. -/
def fcgiParamWriteNull (key value : Bytes) : Nat :=
  (if key.length > 127 then 4 else 1) + (if value.length > 127 then 4 else 1) + (key.length + value.length)

/-- The pairs a loop over the buffer sees: the one the cursor is on, then the next ones until
`fcgi_param_entry_next` fails. -/
def fcgiParamEntries : Nat → FcgiParamEntry → List (Bytes × Bytes)
  | 0, _ => []
  | fuel + 1, e =>
      (fcgiParamEntryKey e, fcgiParamEntryValue e) ::
        match fcgiParamEntryNext e with
        | (true, e) => fcgiParamEntries fuel e
        | (false, _) => []

/-- The pairs written one behind the other. -/
def paramBytes (params : List (Bytes × Bytes)) : Bytes := params.flatMap fun p => fcgiParamWrite p.1 p.2

/-! ## one length -/

theorem length_writeLength (len : Nat) : (writeLength len).length = if len > 127 then 4 else 1 := by
  unfold writeLength
  split <;> rfl

/-- **A length is read back**, in either form. -/
theorem fcgiParamReadLength_writeLength {len : Nat} (hlen : len < 2 ^ 31) (rest : Bytes) :
    (fcgiParamReadLength (writeLength len ++ rest)).toNat = len := by
  unfold writeLength
  split
  · next hlong =>
      have hfirst : (UInt8.ofNat (128 + (len >>> 24) % 128)).toNat = 128 + (len >>> 24) % 128 := by
        rw [UInt8.toNat_ofNat']
        omega
      have hform : UInt8.ofNat (128 + (len >>> 24) % 128) >>> 7 = 1 := by
        rw [← UInt8.toNat_inj, UInt8.toNat_shiftRight, hfirst]
        simp only [UInt8.reduceToNat, Nat.shiftRight_eq_div_pow, Nat.reduceMod, Nat.reducePow]
        omega
      have hbits : (UInt8.ofNat (128 + (len >>> 24) % 128) &&& 0x7f).toNat = (len >>> 24) % 128 := by
        rw [UInt8.toNat_and, hfirst, show (0x7f : UInt8).toNat = 2 ^ 7 - 1 from rfl,
          Nat.and_two_pow_sub_one_eq_mod]
        omega
      simp only [fcgiParamReadLength, List.cons_append, List.getD_cons_zero, List.getD_cons_succ]
      rw [if_pos hform]
      simp only [UInt32.toNat_add, UInt32.toNat_shiftLeft, UInt8.toNat_toUInt32, hbits, UInt8.toNat_ofNat']
      simp only [Nat.shiftLeft_eq, Nat.shiftRight_eq_div_pow, UInt32.reduceToNat, Nat.reduceMod, Nat.reducePow]
      omega
  · next hshort =>
      have hfirst : (UInt8.ofNat len).toNat = len := by
        rw [UInt8.toNat_ofNat']
        omega
      have hform : ¬ UInt8.ofNat len >>> 7 = 1 := by
        rw [← UInt8.toNat_inj, UInt8.toNat_shiftRight, hfirst]
        simp only [UInt8.reduceToNat, Nat.shiftRight_eq_div_pow, Nat.reduceMod, Nat.reducePow]
        omega
      simp only [fcgiParamReadLength, List.cons_append, List.getD_cons_zero]
      rw [if_neg hform, UInt8.toNat_toUInt32, hfirst]

/-- The reader steps over a length by the value it read. -/
theorem step_writeLength {len : Nat} (hlen : len < 2 ^ 31) (rest : Bytes) :
    (if fcgiParamReadLength (writeLength len ++ rest) > 127 then 4 else 1) = (writeLength len).length := by
  have hform : fcgiParamReadLength (writeLength len ++ rest) > 127 ↔ len > 127 := by
    rw [gt_iff_lt, UInt32.lt_iff_toNat_lt, fcgiParamReadLength_writeLength hlen rest]
    rfl
  rw [length_writeLength]
  simp only [hform]

/-! ## the cursor on a pair -/

theorem paramBytes_cons (key value : Bytes) (rest : List (Bytes × Bytes)) :
    paramBytes ((key, value) :: rest) =
      writeLength key.length ++ (writeLength value.length ++ (key ++ (value ++ paramBytes rest))) := by
  simp [paramBytes, fcgiParamWrite]

theorem length_le_paramBytes (params : List (Bytes × Bytes)) : params.length ≤ (paramBytes params).length := by
  induction params with
  | nil => exact Nat.zero_le _
  | cons p rest ih =>
      rw [paramBytes_cons]
      simp only [List.length_append, List.length_cons, length_writeLength]
      split <;> omega

/-- Lengths that fit a length field. -/
def ParamsFit (params : List (Bytes × Bytes)) : Prop :=
  ∀ p ∈ params, p.1.length < 2 ^ 31 ∧ p.2.length < 2 ^ 31

/-- The cursor is on the pair `key`, `value`, with the pairs `rest` behind it. -/
structure OnEntry (e : FcgiParamEntry) (key value : Bytes) (rest : List (Bytes × Bytes)) : Prop where
  text : ∃ beyond, e.base.drop e.position = key ++ (value ++ (paramBytes rest ++ beyond))
  keyLen : e.keyLen.toNat = key.length
  valueLen : e.valueLen.toNat = value.length
  baseLen : e.baseLen = e.position + (key.length + (value.length + (paramBytes rest).length))

namespace OnEntry

variable {e : FcgiParamEntry} {key value key' value' : Bytes} {rest : List (Bytes × Bytes)}

theorem key_eq (h : OnEntry e key value rest) : fcgiParamEntryKey e = key := by
  obtain ⟨beyond, htext⟩ := h.text
  rw [fcgiParamEntryKey, htext, h.keyLen, List.take_left]

theorem value_eq (h : OnEntry e key value rest) : fcgiParamEntryValue e = value := by
  obtain ⟨beyond, htext⟩ := h.text
  rw [fcgiParamEntryValue, ← List.drop_drop, htext, h.keyLen, h.valueLen, List.drop_left, List.take_left]

/-- The sum of the two lengths is not cut down. -/
theorem lens (h : OnEntry e key value rest) (hkey : key.length < 2 ^ 31) (hvalue : value.length < 2 ^ 31) :
    (e.keyLen + e.valueLen).toNat = key.length + value.length := by
  rw [UInt32.toNat_add, h.keyLen, h.valueLen]
  omega

/-- **The cursor moves to the next pair.** -/
theorem next (h : OnEntry e key value ((key', value') :: rest)) (hkey : key.length < 2 ^ 31)
    (hvalue : value.length < 2 ^ 31) (hkey' : key'.length < 2 ^ 31) (hvalue' : value'.length < 2 ^ 31) :
    ∃ e', fcgiParamEntryNext e = (true, e') ∧ OnEntry e' key' value' rest ∧ e'.baseLen = e.baseLen := by
  obtain ⟨beyond, htext⟩ := h.text
  have hlen := h.baseLen
  have hstart : e.base.drop (e.position + (key.length + value.length)) =
      writeLength key'.length ++ (writeLength value'.length ++
        (key' ++ (value' ++ (paramBytes rest ++ beyond)))) := by
    rw [← List.drop_drop, htext, ← List.append_assoc, List.drop_left' (by rw [List.length_append]),
      paramBytes_cons]
    simp only [List.append_assoc]
  have hsecond : e.base.drop (e.position + (key.length + value.length) + (writeLength key'.length).length) =
      writeLength value'.length ++ (key' ++ (value' ++ (paramBytes rest ++ beyond))) := by
    rw [← List.drop_drop, hstart, List.drop_left]
  have hname : e.base.drop (e.position + (key.length + value.length) + (writeLength key'.length).length +
      (writeLength value'.length).length) = key' ++ (value' ++ (paramBytes rest ++ beyond)) := by
    rw [← List.drop_drop, hsecond, List.drop_left]
  have hpos : 0 < (writeLength key'.length).length := by
    rw [length_writeLength]
    split <;> omega
  rw [paramBytes_cons] at hlen
  simp only [List.length_append] at hlen
  have hnext : fcgiParamEntryNext e = (true, { e with
      keyLen := fcgiParamReadLength (e.base.drop (e.position + (key.length + value.length)))
      valueLen := fcgiParamReadLength (e.base.drop
        (e.position + (key.length + value.length) + (writeLength key'.length).length))
      position := e.position + (key.length + value.length) + (writeLength key'.length).length +
        (writeLength value'.length).length }) := by
    simp only [fcgiParamEntryNext, h.lens hkey hvalue]
    rw [if_pos (by omega), hstart, step_writeLength hkey', hsecond, step_writeLength hvalue']
  refine ⟨_, hnext, ⟨⟨beyond, hname⟩, ?_, ?_, ?_⟩, rfl⟩
  · simp only [hstart]
    exact fcgiParamReadLength_writeLength hkey' _
  · simp only [hsecond]
    exact fcgiParamReadLength_writeLength hvalue' _
  · simp only
    omega

/-- Behind the last pair there is nothing. -/
theorem next_nil (h : OnEntry e key value []) (hkey : key.length < 2 ^ 31) (hvalue : value.length < 2 ^ 31) :
    ∃ e', fcgiParamEntryNext e = (false, e') := by
  have hlen := h.baseLen
  simp only [paramBytes, List.flatMap_nil, List.length_nil] at hlen
  simp only [fcgiParamEntryNext, h.lens hkey hvalue]
  rw [if_neg (by omega)]
  exact ⟨_, rfl⟩

/-- **The loop sees the pairs from the cursor on**, and stops behind the last. -/
theorem entries (h : OnEntry e key value rest) (hfit : ParamsFit ((key, value) :: rest)) {fuel : Nat}
    (hfuel : rest.length < fuel) : fcgiParamEntries fuel e = (key, value) :: rest := by
  obtain ⟨hpair, hrest⟩ := List.forall_mem_cons.mp hfit
  induction rest generalizing e key value fuel with
  | nil =>
      obtain ⟨e', hnext⟩ := h.next_nil hpair.1 hpair.2
      obtain ⟨fuel, rfl⟩ := Nat.exists_eq_add_one.mpr (Nat.zero_lt_of_lt hfuel)
      rw [fcgiParamEntries, h.key_eq, h.value_eq, hnext]
  | cons p rest ih =>
      obtain ⟨key', value'⟩ := p
      obtain ⟨hpair', hrest'⟩ := List.forall_mem_cons.mp hrest
      obtain ⟨e', hnext, h', -⟩ := h.next hpair.1 hpair.2 hpair'.1 hpair'.2
      obtain ⟨fuel, rfl⟩ := Nat.exists_eq_add_one.mpr (Nat.zero_lt_of_lt hfuel)
      rw [fcgiParamEntries, h.key_eq, h.value_eq, hnext]
      exact congrArg _ (ih h' hrest (by simpa using hfuel) hpair' hrest')

/-- One test of a search. -/
theorem searchLoop_succ (h : OnEntry e key value rest) (wanted : Bytes) (fuel : Nat) :
    fcgiParamEntrySearchLoop wanted (fuel + 1) e =
      if wanted = key then (true, e)
      else
        match fcgiParamEntryNext e with
        | (true, e') => fcgiParamEntrySearchLoop wanted fuel e'
        | (false, e') => (false, e') := by
  have hmatch : (key.length = wanted.length ∧ key = wanted) ↔ wanted = key := by
    constructor
    · exact fun hkey => hkey.2.symm
    · rintro rfl
      exact ⟨rfl, rfl⟩
  rw [fcgiParamEntrySearchLoop, h.keyLen, h.key_eq]
  simp only [hmatch]

/-- **A search** from the cursor on. -/
theorem search (h : OnEntry e key value rest) (hfit : ParamsFit ((key, value) :: rest)) (wanted : Bytes)
    {fuel : Nat} (hfuel : rest.length < fuel) :
    (fcgiParamEntrySearchLoop wanted fuel e).1 = true ↔ ∃ v, (wanted, v) ∈ (key, value) :: rest := by
  obtain ⟨hpair, hrest⟩ := List.forall_mem_cons.mp hfit
  induction rest generalizing e key value fuel with
  | nil =>
      obtain ⟨e', hnext⟩ := h.next_nil hpair.1 hpair.2
      obtain ⟨fuel, rfl⟩ := Nat.exists_eq_add_one.mpr (Nat.zero_lt_of_lt hfuel)
      rw [h.searchLoop_succ, hnext]
      by_cases hkey : wanted = key
      · simp [hkey]
      · simp [hkey]
  | cons p rest ih =>
      obtain ⟨key', value'⟩ := p
      obtain ⟨hpair', hrest'⟩ := List.forall_mem_cons.mp hrest
      obtain ⟨e', hnext, h', -⟩ := h.next hpair.1 hpair.2 hpair'.1 hpair'.2
      obtain ⟨fuel, rfl⟩ := Nat.exists_eq_add_one.mpr (Nat.zero_lt_of_lt hfuel)
      rw [h.searchLoop_succ, hnext]
      by_cases hkey : wanted = key
      · simp [hkey]
      · rw [if_neg hkey]
        refine (ih h' hrest (by simpa using hfuel) hpair' hrest').trans (exists_congr fun v => ?_)
        simp [hkey]

end OnEntry

/-! ## the whole buffer -/

section buffer

variable {params : List (Bytes × Bytes)}

/-- The cursor after `i` more pairs. -/
def fcgiParamEntryAt (e : FcgiParamEntry) (i : Nat) : FcgiParamEntry :=
  (fun e => (fcgiParamEntryNext e).2)^[i] e

/-- The cursor of `fcgi_param_entry_init` moved on `i` times is on pair `i`. -/
theorem onEntry_at (hfit : ParamsFit params) (beyond : Bytes) {i : Nat} (hi : i < params.length) :
    OnEntry (fcgiParamEntryAt
        (fcgiParamEntryInit (paramBytes params ++ beyond) (paramBytes params).length) i)
      params[i].1 params[i].2 (params.drop (i + 1)) := by
  induction i with
  | zero =>
      obtain ⟨⟨key, value⟩, rest, rfl⟩ := List.exists_cons_of_length_pos hi
      obtain ⟨hkey, hvalue⟩ := hfit _ List.mem_cons_self
      have hstart : OnEntry { baseLen := (paramBytes ((key, value) :: rest)).length
                              base := paramBytes ((key, value) :: rest) ++ beyond }
          [] [] ((key, value) :: rest) := ⟨⟨beyond, rfl⟩, rfl, rfl, by simp⟩
      obtain ⟨e, hnext, h, -⟩ := hstart.next (by simp) (by simp) hkey hvalue
      rw [fcgiParamEntryAt, Function.iterate_zero_apply, fcgiParamEntryInit, hnext]
      exact h
  | succ i ih =>
      have hprev := ih (by omega)
      have hdrop : params.drop (i + 1) = (params[i + 1].1, params[i + 1].2) :: params.drop (i + 1 + 1) :=
        List.drop_eq_getElem_cons hi
      rw [hdrop] at hprev
      obtain ⟨hkey, hvalue⟩ := hfit _ (List.getElem_mem (by omega : i < params.length))
      obtain ⟨hkey', hvalue'⟩ := hfit _ (List.getElem_mem hi)
      obtain ⟨e, hnext, h, -⟩ := hprev.next hkey hvalue hkey' hvalue'
      rw [fcgiParamEntryAt] at hnext ⊢
      rw [Function.iterate_succ_apply', hnext]
      exact h

/-- A buffer without its data has the length of the one with it. -/
theorem fcgiParamWriteNull_eq (key value : Bytes) :
    fcgiParamWriteNull key value = (fcgiParamWrite key value).length := by
  simp only [fcgiParamWriteNull, fcgiParamWrite, List.length_append, length_writeLength]
  omega

/-- **Pairs are read back**: a loop sees them all and stops, a search from any of them finds
the keys from there on, the length without a buffer is that of the real call, and headers
are read as they were written. -/
theorem params_read_back (hne : params ≠ []) (hfit : ParamsFit params) (beyond : Bytes) :
    (∀ fuel, params.length ≤ fuel → fcgiParamEntries fuel
      (fcgiParamEntryInit (paramBytes params ++ beyond) (paramBytes params).length) = params) ∧
    (∀ i, i < params.length → ∀ key, (fcgiParamEntrySearch (fcgiParamEntryAt
      (fcgiParamEntryInit (paramBytes params ++ beyond) (paramBytes params).length) i) key).1 = true ↔
        ∃ value, (key, value) ∈ params.drop i) ∧
    (∀ p ∈ params, fcgiParamWriteNull p.1 p.2 = (fcgiParamWrite p.1 p.2).length) ∧
    (∀ (h : FcgiHeader) (rest : Bytes), fcgiReadHeader (fcgiWriteHeader h ++ rest) = h) := by
  refine ⟨fun fuel hfuel => ?_, fun i hi key => ?_, fun p _ => fcgiParamWriteNull_eq _ _,
    fcgiReadHeader_fcgiWriteHeader⟩
  · have hpos := List.length_pos_iff.mpr hne
    have hentry := onEntry_at hfit beyond hpos
    have hsplit : params = (params[0].1, params[0].2) :: params.drop 1 := by
      simpa using List.drop_eq_getElem_cons hpos
    have hrest : (params.drop 1).length < fuel := by
      rw [List.length_drop]
      omega
    have hentries := hentry.entries (hsplit ▸ hfit) hrest
    rw [← hsplit] at hentries
    exact hentries
  · have hentry := onEntry_at hfit beyond hi
    have hdrop : params.drop i = (params[i].1, params[i].2) :: params.drop (i + 1) :=
      List.drop_eq_getElem_cons hi
    have hrest : ParamsFit ((params[i].1, params[i].2) :: params.drop (i + 1)) :=
      hdrop ▸ fun p hp => hfit p (List.mem_of_mem_drop hp)
    have hlen := hentry.baseLen
    have hfuel := length_le_paramBytes (params.drop (i + 1))
    rw [hdrop]
    exact hentry.search hrest key (by omega)

end buffer

/-- A pair with a long value behind an empty one. -/
theorem params_read_back_two :
    fcgiParamEntries 2 (fcgiParamEntryInit
      (paramBytes [([], []), ([0x41], List.replicate 200 7)] ++ [1])
      (paramBytes [([], []), ([0x41], List.replicate 200 7)]).length) =
      [([], []), ([0x41], List.replicate 200 7)] := by
  have hfit : ParamsFit [([], []), ([0x41], List.replicate 200 7)] := by
    intro p hp
    obtain rfl | rfl := List.mem_pair.mp hp
    · exact ⟨by decide, by decide⟩
    · exact ⟨by decide, by rw [List.length_replicate]; decide⟩
  exact (params_read_back (List.cons_ne_nil _ _) hfit [1]).1 2 le_rfl

end Monkey.Fastcgi
