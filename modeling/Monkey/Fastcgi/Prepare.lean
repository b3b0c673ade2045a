import Monkey.Fastcgi.Env
import Monkey.Fastcgi.FcgiFd
import Mathlib.Data.List.GetD

/-!
# Monkey.Fastcgi.Prepare

The request the FastCGI plugin prepares for a backend (`fcgi_prepare_request`): a
buffer of 4096 bytes that holds the records, with the data of the client between
two parts of it.

The buffer is not cleared.  It is modelled by the writes made to it and by the parts
of it the output vector refers to; what an entry holds depends on what the memory of
the buffer held before.
-/

namespace Monkey.Fastcgi

/-! ## the buffer -/

/-- Bytes written to the buffer at an offset. -/
structure Write where
  off : Nat
  bytes : Bytes
deriving DecidableEq, Repr

/-- An entry of the output vector: a part of the buffer, or the data of the client. -/
inductive IovRef
  | buffer (off len : Nat)
  | data
deriving DecidableEq, Repr

/-- The memory of the buffer after a write. -/
def Write.apply (mem : Nat → UInt8) (w : Write) (i : Nat) : UInt8 :=
  if w.off ≤ i ∧ i < w.off + w.bytes.length then w.bytes.getD (i - w.off) 0 else mem i

/-- The memory after some writes. -/
def applyWrites (mem : Nat → UInt8) (writes : List Write) : Nat → UInt8 := writes.foldl Write.apply mem

/-- The bytes of a part of the memory. -/
def peek (mem : Nat → UInt8) (off len : Nat) : Bytes := (List.range' off len).map mem

/-- What an entry holds. -/
def IovRef.bytes (mem : Nat → UInt8) (data : Bytes) : IovRef → Bytes
  | .buffer off len => peek mem off len
  | .data => data

/-- A request as it was prepared. -/
structure Prepared where
  writes : List Write
  entries : List IovRef
deriving DecidableEq, Repr

/-- The entries of a prepared request. -/
def Prepared.io (mem : Nat → UInt8) (data : Bytes) (p : Prepared) : List Bytes :=
  p.entries.map (IovRef.bytes (applyWrites mem p.writes) data)

/-- The outcome: a request, a failure, or a run over a buffer of `fcgi_env_write`. -/
inductive PrepareRet
  | ok (p : Prepared)
  | failed
  | fault
deriving DecidableEq, Repr

/-! ## fcgi_prepare_request -/

/-- The length of the buffer. -/
def prepareLen : Nat := 4096

/-- `len - pos` as a `size_t`. -/
def spaceLeft (pos : Nat) : Nat := if pos ≤ prepareLen then prepareLen - pos else 2 ^ 64 + prepareLen - pos

/-- `~(n - 1) & 7`. -/
def padLen (n : Nat) : UInt8 := (~~~(UInt64.ofNat n - 1) &&& 7).toUInt8

/-- The header of the environment. -/
def paramsHeader (reqId : UInt16) (env : Bytes) : FcgiHeader :=
  { type := fcgiParams, reqId := reqId, bodyLen := UInt16.ofNat env.length, bodyPad := padLen env.length }

/-- The position behind the environment and its padding. -/
def envEnd (reqId : UInt16) (env : Bytes) : Nat :=
  24 + (paramsHeader reqId env).bodyLen.toNat + (paramsHeader reqId env).bodyPad.toNat

/-- The writes before the standard input: begin record, environment, empty record. -/
def headWrites (reqId : UInt16) (keepConn : Bool) (env : Bytes) : List Write :=
  [⟨0, fcgiWriteHeader { type := fcgiBeginRequest, reqId := reqId, bodyLen := 8 }⟩,
   ⟨8, fcgiWriteBeginReqBody fcgiResponder (if keepConn then fcgiKeepConn else 0)⟩,
   ⟨24, env⟩,
   ⟨16, fcgiWriteHeader (paramsHeader reqId env)⟩,
   ⟨envEnd reqId env, fcgiWriteHeader { type := fcgiParams, reqId := reqId }⟩]

/-- The standard input: without data an empty record at `pos`; with data a record
around them, whose empty record is written behind the room for the data, and the
last entry as long as everything before its end. -/
def prepareStdin (reqId : UInt16) (data : Bytes) (pos : Nat) : Option (List Write × List IovRef) :=
  let empty := fcgiWriteHeader { type := fcgiStdin, reqId := reqId }
  if data.length > 0 then
    let h : FcgiHeader :=
      { type := fcgiStdin, reqId := reqId, bodyLen := UInt16.ofNat data.length,
        bodyPad := padLen data.length }
    let tmp := pos + 8
    let pos' := tmp + h.bodyLen.toNat + h.bodyPad.toNat
    if spaceLeft pos > 8 ∧ spaceLeft pos' > 8 then
      some ([⟨pos, fcgiWriteHeader h⟩, ⟨pos', empty⟩], [.buffer 0 tmp, .data, .buffer tmp (pos' + 8)])
    else none
  else if spaceLeft pos > 8 then some ([⟨pos, empty⟩], [.buffer 0 (pos + 8)])
  else none

/-- `fcgi_prepare_request` with the request's id, its location and its output vector.
The entries it adds need a free place each. -/
def fcgiPrepareRequest (tmpuri : Nat → UInt8) (reqId : UInt16) (location : Option FcgiLocation)
    (iov : ChunkIov) (cr : ClientRequest) : PrepareRet :=
  match location with
  | none => .failed
  | some location =>
      if reqId = 0 then .failed
      else
        match fcgiEnvWrite (prepareLen - 24) (fcgiEnvVars tmpuri cr) 0 with
        | none => .fault
        | some env =>
            let pos := envEnd reqId env
            if spaceLeft pos > 8 then
              match prepareStdin reqId cr.data (pos + 8) with
              | some (stdin, entries) =>
                  if iov.index + entries.length ≤ iov.size then
                    .ok { writes := headWrites reqId location.keepAlive env ++ stdin, entries := entries }
                  else .failed
              | none => .failed
            else .failed

/-! ## reading the buffer -/

theorem length_peek (mem : Nat → UInt8) (off len : Nat) : (peek mem off len).length = len := by
  simp [peek]

theorem getD_peek (mem : Nat → UInt8) {off len i : Nat} (h : i < len) :
    (peek mem off len).getD i 0 = mem (off + i) := by
  simp [peek, h]

theorem peek_add (mem : Nat → UInt8) (off a b : Nat) :
    peek mem off (a + b) = peek mem off a ++ peek mem (off + a) b := by
  rw [peek, peek, peek, ← List.range'_append_1, List.map_append]

theorem peek_congr {mem mem' : Nat → UInt8} {off len : Nat}
    (h : ∀ i, off ≤ i → i < off + len → mem i = mem' i) : peek mem off len = peek mem' off len := by
  apply List.map_congr_left
  intro i hi
  obtain ⟨hlow, hhigh⟩ := List.mem_range'_1.mp hi
  exact h i hlow hhigh

/-- A write is read back. -/
theorem peek_apply_self (mem : Nat → UInt8) (w : Write) :
    peek (w.apply mem) w.off w.bytes.length = w.bytes := by
  apply List.ext_getElem
  · rw [length_peek]
  · intro i hi hi'
    simp only [peek, List.getElem_map, List.getElem_range', Write.apply]
    rw [if_pos (by omega)]
    simp [List.getElem?_eq_getElem hi']

/-- A write leaves the rest as it is. -/
theorem peek_apply_of_disjoint (mem : Nat → UInt8) (w : Write) {off len : Nat}
    (h : off + len ≤ w.off ∨ w.off + w.bytes.length ≤ off) :
    peek (w.apply mem) off len = peek mem off len := by
  apply peek_congr
  intro i hlow hhigh
  rw [Write.apply, if_neg (by omega)]

/-- Writes beside a part of the buffer leave it as it is. -/
theorem peek_applyWrites_of_disjoint (mem : Nat → UInt8) {writes : List Write} {off len : Nat}
    (h : ∀ w ∈ writes, off + len ≤ w.off ∨ w.off + w.bytes.length ≤ off) :
    peek (applyWrites mem writes) off len = peek mem off len := by
  induction writes generalizing mem with
  | nil => rfl
  | cons w writes ih =>
      calc peek (applyWrites mem (w :: writes)) off len
          = peek (w.apply mem) off len := ih (w.apply mem) fun v hv => h v (List.mem_cons_of_mem _ hv)
        _ = peek mem off len := peek_apply_of_disjoint mem w (h w List.mem_cons_self)

/-- The parts two writes change have nothing in common. -/
def Write.Beside (w v : Write) : Prop :=
  w.off + w.bytes.length ≤ v.off ∨ v.off + v.bytes.length ≤ w.off

/-- Writes side by side are all read back. -/
theorem peek_applyWrites_of_pairwise (mem : Nat → UInt8) {writes : List Write}
    (h : writes.Pairwise Write.Beside) {w : Write} (hw : w ∈ writes) :
    peek (applyWrites mem writes) w.off w.bytes.length = w.bytes := by
  induction h generalizing mem with
  | nil => simp at hw
  | @cons v writes hv _ ih =>
      obtain rfl | hw := List.mem_cons.mp hw
      · exact (peek_applyWrites_of_disjoint _ hv).trans (peek_apply_self mem w)
      · exact ih (v.apply mem) hw

/-- A header in memory starts a record. -/
theorem isRecord_peek {mem : Nat → UInt8} {off : Nat} {h : FcgiHeader}
    (hh : peek mem off 7 = fcgiWriteHeader h) :
    IsRecord h (peek mem (off + 8) h.bodyLen.toNat) (peek mem off h.pkgSize) := by
  refine ⟨mem (off + 7), peek mem (off + 8 + h.bodyLen.toNat) h.bodyPad.toNat, ?_, length_peek .., length_peek ..⟩
  have hsize : h.pkgSize = 7 + (1 + (h.bodyLen.toNat + h.bodyPad.toNat)) := by
    simp only [FcgiHeader.pkgSize, fcgiHeaderLen]
    omega
  rw [hsize, peek_add, peek_add, peek_add, hh]
  rfl

theorem padLen_toNat (n : Nat) : (padLen n).toNat = (8 - n % 8) % 8 := by
  have h7 : (7 : UInt64).toNat = 2 ^ 3 - 1 := rfl
  have h1 : (1 : UInt64).toNat = 1 := rfl
  rw [padLen, UInt64.toNat_toUInt8, UInt64.toNat_and, h7, Nat.and_two_pow_sub_one_eq_mod,
    UInt64.toNat_not, UInt64.toNat_sub, UInt64.toNat_ofNat', h1]
  simp [UInt64.size]
  omega

/-! ## the head -/

/-- What the buffer holds when the part before the standard input is written. -/
structure HeadIn (mem : Nat → UInt8) (reqId : UInt16) (keepConn : Bool) (env : Bytes) : Prop where
  begin_ : peek mem 0 7 = fcgiWriteHeader { type := fcgiBeginRequest, reqId := reqId, bodyLen := 8 }
  body : peek mem 8 3 = fcgiWriteBeginReqBody fcgiResponder (if keepConn then fcgiKeepConn else 0)
  params : peek mem 16 7 = fcgiWriteHeader (paramsHeader reqId env)
  env_ : peek mem 24 env.length = env
  empty : peek mem (envEnd reqId env) 7 = fcgiWriteHeader { type := fcgiParams, reqId := reqId }

/-- The environment fits its sixteen bits. -/
theorem paramsHeader_bodyLen {reqId : UInt16} {env : Bytes} (henv : env.length ≤ 4072) :
    (paramsHeader reqId env).bodyLen.toNat = env.length := by
  rw [paramsHeader, UInt16.toNat_ofNat', Nat.mod_eq_of_lt (by omega)]

/-- It ends before the buffer does, its padding included. -/
theorem envEnd_bounds {reqId : UInt16} {env : Bytes} (henv : env.length ≤ 4072) :
    24 + env.length ≤ envEnd reqId env ∧ envEnd reqId env ≤ prepareLen := by
  have hpad : (paramsHeader reqId env).bodyPad.toNat = (8 - env.length % 8) % 8 := padLen_toNat _
  rw [envEnd, paramsHeader_bodyLen henv, hpad, prepareLen]
  omega

/-- The writes before the standard input end with the empty record. -/
theorem headWrites_end_le {reqId : UInt16} {keepConn : Bool} {env : Bytes} (henv : env.length ≤ 4072) {w : Write}
    (hw : w ∈ headWrites reqId keepConn env) : w.off + w.bytes.length ≤ envEnd reqId env + 8 := by
  obtain ⟨hlow, -⟩ := @envEnd_bounds reqId env henv
  simp only [headWrites, List.mem_cons, List.not_mem_nil, or_false] at hw
  obtain rfl | rfl | rfl | rfl | rfl := hw
  all_goals
    simp only [fcgiWriteHeader_length, fcgiWriteBeginReqBody, List.length_cons, List.length_nil]
    omega

/-- The writes before the standard input, and others behind them. -/
theorem headIn_applyWrites {reqId : UInt16} {keepConn : Bool} {env : Bytes} (henv : env.length ≤ 4072)
    (mem : Nat → UInt8) {writes : List Write} (hw : ∀ w ∈ writes, envEnd reqId env + 8 ≤ w.off) :
    HeadIn (applyWrites mem (headWrites reqId keepConn env ++ writes)) reqId keepConn env := by
  obtain ⟨hlow, -⟩ := @envEnd_bounds reqId env henv
  have hhead : (headWrites reqId keepConn env).Pairwise Write.Beside := by
    simp only [headWrites, List.pairwise_cons, List.mem_cons, List.not_mem_nil, or_false,
      forall_eq_or_imp, forall_eq, Write.Beside, fcgiWriteHeader_length,
      fcgiWriteBeginReqBody, List.length_cons, List.length_nil]
    simp
    omega
  have hmem : ∀ w ∈ headWrites reqId keepConn env,
      peek (applyWrites mem (headWrites reqId keepConn env ++ writes)) w.off w.bytes.length = w.bytes := by
    intro w hmem
    rw [applyWrites, List.foldl_append]
    refine (peek_applyWrites_of_disjoint _ fun v hv => .inl ?_).trans
      (peek_applyWrites_of_pairwise mem hhead hmem)
    have := hw v hv
    simp only [headWrites, List.mem_cons, List.not_mem_nil, or_false] at hmem
    obtain rfl | rfl | rfl | rfl | rfl := hmem
    all_goals simp only [fcgiWriteHeader_length, fcgiWriteBeginReqBody, List.length_cons, List.length_nil]; omega
  simp only [headWrites, List.mem_cons, List.not_mem_nil, or_false, forall_eq_or_imp, forall_eq] at hmem
  exact ⟨hmem.1, hmem.2.1, hmem.2.2.2.1, hmem.2.2.1, hmem.2.2.2.2⟩

/-- The begin record. -/
theorem HeadIn.isRecord {mem : Nat → UInt8} {reqId : UInt16} {keepConn : Bool} {env : Bytes}
    (h : HeadIn mem reqId keepConn env) :
    ∃ reserved, reserved.length = 5 ∧
      IsRecord { type := fcgiBeginRequest, reqId := reqId, bodyLen := 8 }
        (fcgiWriteBeginReqBody fcgiResponder (if keepConn then fcgiKeepConn else 0) ++ reserved)
        (peek mem 0 16) := by
  refine ⟨peek mem 11 5, length_peek .., ?_⟩
  rw [← h.body, ← peek_add mem 8 3 5]
  exact isRecord_peek h.begin_

/-- The stream of the environment. -/
theorem HeadIn.isStream {mem : Nat → UInt8} {reqId : UInt16} {keepConn : Bool} {env : Bytes}
    (h : HeadIn mem reqId keepConn env) (henv : env.length ≤ 4072) (hne : env ≠ []) :
    IsStream fcgiParams reqId env (peek mem 16 (envEnd reqId env + 8 - 16)) := by
  have hlen := @paramsHeader_bodyLen reqId env henv
  have hend : envEnd reqId env = 16 + (paramsHeader reqId env).pkgSize := by
    simp only [envEnd, FcgiHeader.pkgSize, fcgiHeaderLen]
    omega
  have hrecord := isRecord_peek h.params
  rw [hlen, h.env_] at hrecord
  have hdone : IsRecord { type := fcgiParams, reqId := reqId } [] (peek mem (envEnd reqId env) 8) :=
    isRecord_peek h.empty
  rw [hend] at hdone
  rw [hend, show 16 + (paramsHeader reqId env).pkgSize + 8 - 16 = (paramsHeader reqId env).pkgSize + 8 by
    omega, peek_add]
  have hlast : IsStream fcgiParams reqId [] (peek mem (16 + (paramsHeader reqId env).pkgSize) 8) :=
    .done rfl rfl rfl hdone
  have hstream : IsStream fcgiParams reqId (env ++ []) _ := .cons rfl rfl rfl hne hrecord hlast
  rwa [List.append_nil] at hstream

/-! ## requests that are well formed -/

/-- What a prepared request must be: everything written or referred to lies in the
buffer, and the entries hold one request with the whole environment and the data. -/
structure Prepared.Ok (p : Prepared) (reqId : UInt16) (location : FcgiLocation) (vars : List EnvVar)
    (data : Bytes) (mem : Nat → UInt8) : Prop where
  writes : ∀ w ∈ p.writes, w.off + w.bytes.length ≤ prepareLen
  entries : ∀ off len, .buffer off len ∈ p.entries → off + len ≤ prepareLen
  request : IsRequest reqId location.keepAlive (envBytes vars) data (p.io mem data).flatten

/-- What `fcgi_prepare_request` must come to where it does not fail: a request that is well
formed.  A run over the buffer of a name, or the copy of a value whose length has wrapped,
writes outside and is none, whatever the function returns behind it. -/
def PrepareRet.Ok (ret : PrepareRet) (reqId : UInt16) (location : FcgiLocation) (vars : List EnvVar)
    (data : Bytes) (mem : Nat → UInt8) : Prop :=
  ∃ p, ret = .ok p ∧ p.Ok reqId location vars data mem

/-- A request without data whose parameters fit, and whose names fit their buffer: the two
checks of `fcgi_env_write` that go wrong in silence are passed by every parameter. -/
structure RequestFits (tmpuri : Nat → UInt8) (cr : ClientRequest) : Prop where
  data : cr.data = []
  env : EnvFits (prepareLen - 24) (fcgiEnvVars tmpuri cr) 0
  names : ∀ v ∈ fcgiEnvVars tmpuri cr, v.key.length ≤ nameBuffer

/-- What `fcgi_prepare_request` did when it returned zero. -/
theorem fcgiPrepareRequest_eq_ok {tmpuri : Nat → UInt8} {reqId : UInt16} {location : FcgiLocation}
    {iov : ChunkIov} {cr : ClientRequest} {p : Prepared}
    (h : fcgiPrepareRequest tmpuri reqId (some location) iov cr = .ok p) :
    ∃ env stdin, fcgiEnvWrite (prepareLen - 24) (fcgiEnvVars tmpuri cr) 0 = some env ∧
      spaceLeft (envEnd reqId env) > 8 ∧
      prepareStdin reqId cr.data (envEnd reqId env + 8) = some (stdin, p.entries) ∧
      p.writes = headWrites reqId location.keepAlive env ++ stdin := by
  simp only [fcgiPrepareRequest] at h
  generalize fcgiEnvWrite (prepareLen - 24) (fcgiEnvVars tmpuri cr) 0 = written at h ⊢
  split at h
  · contradiction
  split at h
  · contradiction
  next env =>
    refine ⟨env, ?_⟩
    generalize prepareStdin reqId cr.data (envEnd reqId env + 8) = stdin at h ⊢
    split at h
    · next hspace =>
        split at h
        · next stdin entries =>
            split at h
            · obtain rfl := PrepareRet.ok.inj h
              exact ⟨stdin, rfl, hspace, rfl, rfl⟩
            · contradiction
        · contradiction
    · contradiction

/-- The first parameter always fits. -/
theorem fcgiEnvWrite_ne_nil {tmpuri : Nat → UInt8} {cr : ClientRequest} {env : Bytes}
    (h : fcgiEnvWrite (prepareLen - 24) (fcgiEnvVars tmpuri cr) 0 = some env) : env ≠ [] := by
  simp only [fcgiEnvVars, List.cons_append] at h
  unfold fcgiEnvWrite at h
  rw [if_neg (by decide), if_pos (by decide), if_pos (by decide)] at h
  obtain ⟨rest, -, rfl⟩ := Option.map_eq_some_iff.mp h
  simp [fcgiParamWrite_ne_nil]

/-- The header of the data. -/
def stdinHeader (reqId : UInt16) (data : Bytes) : FcgiHeader :=
  { type := fcgiStdin, reqId := reqId, bodyLen := UInt16.ofNat data.length,
    bodyPad := padLen data.length }

/-- What is written for the standard input. -/
theorem prepareStdin_cases {reqId : UInt16} {data : Bytes} {pos : Nat} {stdin : List Write}
    {entries : List IovRef} (h : prepareStdin reqId data pos = some (stdin, entries)) :
    (data = [] ∧ spaceLeft pos > 8 ∧
      stdin = [⟨pos, fcgiWriteHeader { type := fcgiStdin, reqId := reqId }⟩] ∧
      entries = [.buffer 0 (pos + 8)]) ∨
    (data ≠ [] ∧ ∃ pos', pos + 8 ≤ pos' ∧
      stdin = [⟨pos, fcgiWriteHeader (stdinHeader reqId data)⟩,
        ⟨pos', fcgiWriteHeader { type := fcgiStdin, reqId := reqId }⟩] ∧
      entries = [.buffer 0 (pos + 8), .data, .buffer (pos + 8) (pos' + 8)]) := by
  simp only [prepareStdin] at h
  split at h
  · next hdata =>
      split at h
      · obtain ⟨rfl, rfl⟩ := Prod.mk.inj (Option.some.inj h)
        exact .inr ⟨List.length_pos_iff.mp hdata, _, by omega, rfl, rfl⟩
      · contradiction
  · next hdata =>
      split at h
      · next hspace =>
          obtain ⟨rfl, rfl⟩ := Prod.mk.inj (Option.some.inj h)
          exact .inl ⟨List.eq_nil_of_length_eq_zero (by omega), hspace, rfl, rfl⟩
      · contradiction

/-- It is written behind the head. -/
theorem prepareStdin_off {reqId : UInt16} {data : Bytes} {pos : Nat} {stdin : List Write}
    {entries : List IovRef} (h : prepareStdin reqId data pos = some (stdin, entries)) :
    ∀ w ∈ stdin, pos ≤ w.off := by
  obtain ⟨-, -, rfl, -⟩ | ⟨-, pos', hpos, rfl, -⟩ := prepareStdin_cases h
  · intro w hw
    obtain rfl := List.mem_singleton.mp hw
    exact le_rfl
  · intro w hw
    simp only [List.mem_cons, List.not_mem_nil, or_false] at hw
    obtain rfl | rfl := hw
    · exact le_rfl
    · exact (Nat.le_add_right pos 8).trans hpos

/-- The entries start with the head. -/
theorem prepareStdin_io {reqId : UInt16} {data : Bytes} {pos : Nat} {stdin : List Write}
    {entries : List IovRef} (h : prepareStdin reqId data pos = some (stdin, entries))
    (mem : Nat → UInt8) :
    ∃ rest, (entries.map (IovRef.bytes mem data)).flatten = peek mem 0 pos ++ rest := by
  obtain ⟨-, -, -, rfl⟩ | ⟨-, pos', -, -, rfl⟩ := prepareStdin_cases h
  all_goals
    simp only [List.map_cons, List.flatten_cons, IovRef.bytes, peek_add mem 0 pos 8, List.append_assoc]
    exact ⟨_, rfl⟩

/-- The bytes begin a request with the environment `env`. -/
def CarriesEnv (reqId : UInt16) (keepConn : Bool) (env bytes : Bytes) : Prop :=
  ∃ b params rest, bytes = b ++ (params ++ rest) ∧
    (∃ reserved, reserved.length = 5 ∧
      IsRecord { type := fcgiBeginRequest, reqId := reqId, bodyLen := 8 }
        (fcgiWriteBeginReqBody fcgiResponder (if keepConn then fcgiKeepConn else 0) ++ reserved) b) ∧
    IsStream fcgiParams reqId env params

theorem IsRequest.carriesEnv {reqId : UInt16} {keepConn : Bool} {env data bytes : Bytes}
    (h : IsRequest reqId keepConn env data bytes) : CarriesEnv reqId keepConn env bytes := by
  obtain ⟨b, params, s, heq, hbegin, hparams, -⟩ := h
  exact ⟨b, params, s, heq, hbegin, hparams⟩

/-- Bytes carry one environment only. -/
theorem CarriesEnv.unique {reqId : UInt16} {keepConn : Bool} {env env' bytes : Bytes}
    (h : CarriesEnv reqId keepConn env bytes) (h' : CarriesEnv reqId keepConn env' bytes) : env = env' := by
  obtain ⟨b, params, rest, rfl, ⟨reserved, -, hbegin⟩, hparams⟩ := h
  obtain ⟨b', params', rest', heq, ⟨reserved', -, hbegin'⟩, hparams'⟩ := h'
  obtain ⟨-, -, heq⟩ := hbegin.unique hbegin' heq
  exact (hparams.unique hparams' heq).1

/-- A request carries the environment that was written. -/
theorem carriesEnv_written {tmpuri : Nat → UInt8} {reqId : UInt16} {location : FcgiLocation}
    {iov : ChunkIov} {cr : ClientRequest} {p : Prepared}
    (h : fcgiPrepareRequest tmpuri reqId (some location) iov cr = .ok p) (mem : Nat → UInt8) :
    ∃ env, fcgiEnvWrite (prepareLen - 24) (fcgiEnvVars tmpuri cr) 0 = some env ∧
      CarriesEnv reqId location.keepAlive env (p.io mem cr.data).flatten := by
  obtain ⟨env, stdin, henv, -, hstdin, hwrites⟩ := fcgiPrepareRequest_eq_ok h
  have hlen : env.length ≤ 4072 := by
    have := fcgiEnvWrite_length henv (Nat.zero_le _)
    rw [prepareLen] at this
    omega
  have hhead : HeadIn (applyWrites mem p.writes) reqId location.keepAlive env := by
    rw [hwrites]
    exact headIn_applyWrites hlen mem (prepareStdin_off hstdin)
  have hlow := (@envEnd_bounds reqId env hlen).1
  obtain ⟨rest, hrest⟩ := prepareStdin_io hstdin (applyWrites mem p.writes)
  refine ⟨env, henv, _, _, rest, ?_, hhead.isRecord, hhead.isStream hlen (fcgiEnvWrite_ne_nil henv)⟩
  have hpeek := peek_add (applyWrites mem p.writes) 0 16 (envEnd reqId env + 8 - 16)
  rw [Nat.add_sub_cancel' (by omega), Nat.zero_add] at hpeek
  rw [Prepared.io, hrest, hpeek, List.append_assoc]

/-- **A request carries the environment that was written**, and no other. -/
theorem env_eq_of_carriesEnv {tmpuri : Nat → UInt8} {reqId : UInt16} {location : FcgiLocation}
    {iov : ChunkIov} {cr : ClientRequest} {p : Prepared} {mem : Nat → UInt8} {env' : Bytes}
    (h : fcgiPrepareRequest tmpuri reqId (some location) iov cr = .ok p)
    (hcarries : CarriesEnv reqId location.keepAlive env' (p.io mem cr.data).flatten) :
    fcgiEnvWrite (prepareLen - 24) (fcgiEnvVars tmpuri cr) 0 = some env' := by
  obtain ⟨env, henv, hown⟩ := carriesEnv_written h mem
  rw [henv, hown.unique hcarries]

/-- Without data, and with the whole environment, the request is well formed. -/
theorem prepared_ok_of_fits {tmpuri : Nat → UInt8} {reqId : UInt16} {location : FcgiLocation}
    {iov : ChunkIov} {cr : ClientRequest} {p : Prepared}
    (h : fcgiPrepareRequest tmpuri reqId (some location) iov cr = .ok p) (hdata : cr.data = [])
    (hfits : EnvFits (prepareLen - 24) (fcgiEnvVars tmpuri cr) 0) (mem : Nat → UInt8) :
    p.Ok reqId location (fcgiEnvVars tmpuri cr) cr.data mem := by
  obtain ⟨env, stdin, henv, hspace, hstdin, hwrites⟩ := fcgiPrepareRequest_eq_ok h
  have hwhole : env = envBytes (fcgiEnvVars tmpuri cr) :=
    (fcgiEnvWrite_eq_envBytes_iff (fun v => len_of_mem_fcgiEnvVars) henv).mpr hfits
  have hlen : env.length ≤ 4072 := by
    have := fcgiEnvWrite_length henv (Nat.zero_le _)
    rw [prepareLen] at this
    omega
  obtain ⟨hlow, hhigh⟩ := @envEnd_bounds reqId env hlen
  obtain ⟨-, hspace', rfl, hentries⟩ | ⟨hne, -⟩ := prepareStdin_cases hstdin
  case inr => exact absurd hdata hne
  have hend : envEnd reqId env + 16 < prepareLen := by
    rw [spaceLeft, if_pos hhigh] at hspace
    rw [spaceLeft, if_pos (by omega)] at hspace'
    omega
  have hhead : HeadIn (applyWrites mem p.writes) reqId location.keepAlive env := by
    rw [hwrites]
    exact headIn_applyWrites hlen mem (prepareStdin_off hstdin)
  have hlast : peek (applyWrites mem p.writes) (envEnd reqId env + 8) 7 =
      fcgiWriteHeader { type := fcgiStdin, reqId := reqId } := by
    rw [hwrites, applyWrites, List.foldl_append]
    exact peek_apply_self _ ⟨envEnd reqId env + 8, _⟩
  refine ⟨?_, ?_, ?_⟩
  · intro w hw
    rw [hwrites] at hw
    obtain hw | hw := List.mem_append.mp hw
    · have := headWrites_end_le hlen hw
      omega
    · obtain rfl := List.mem_singleton.mp hw
      simp only [fcgiWriteHeader_length]
      omega
  · intro off len hmem
    rw [hentries] at hmem
    obtain ⟨rfl, rfl⟩ := IovRef.buffer.inj (List.mem_singleton.mp hmem)
    omega
  · have hparams := hhead.isStream hlen (fcgiEnvWrite_ne_nil henv)
    have hrecord : IsRecord { type := fcgiStdin, reqId := reqId } []
        (peek (applyWrites mem p.writes) (envEnd reqId env + 8) 8) := isRecord_peek hlast
    have hdone : IsStream fcgiStdin reqId []
        (peek (applyWrites mem p.writes) (envEnd reqId env + 8) 8) := .done rfl rfl rfl hrecord
    rw [hwhole] at hparams
    rw [hdata]
    refine ⟨_, _, _, ?_, hhead.isRecord, hparams, hdone⟩
    rw [Prepared.io, hentries, ← hwhole]
    have hsum : envEnd reqId env + 8 + 8 = 16 + ((envEnd reqId env + 8 - 16) + 8) := by omega
    simp only [List.map_cons, List.map_nil, List.flatten_cons, List.flatten_nil, List.append_nil,
      IovRef.bytes]
    rw [hsum, peek_add, peek_add, show 0 + 16 + (envEnd reqId env + 8 - 16) = envEnd reqId env + 8 by omega]

/-! ## requests with data -/

theorem length_fcgiParamWrite_ge (key value : Bytes) :
    2 + key.length + value.length ≤ (fcgiParamWrite key value).length := by
  have hlen : ∀ n, 1 ≤ (writeLength n).length := by
    intro n
    unfold writeLength
    split <;> simp
  have hk := hlen key.length
  have hv := hlen value.length
  simp only [fcgiParamWrite, List.length_append]
  omega

theorem length_envVar_ge (key : String) (value : Bytes) (n : Nat) (hkey : key.toList.length = n) :
    2 + n + value.length ≤ (fcgiParamWrite (envVar key value).key (envVar key value).value).length := by
  have := length_fcgiParamWrite_ge (envVar key value).key (envVar key value).value
  simpa only [envVar, ascii, List.length_map, hkey] using this

/-- The names of the parameters alone take nearly as much room as any padding. -/
theorem length_envBytes_ge (tmpuri : Nat → UInt8) (cr : ClientRequest) :
    222 ≤ (envBytes (fcgiEnvVars tmpuri cr)).length := by
  have h1 := length_envVar_ge "PATH_INFO" [] 9 rfl
  have h2 := length_envVar_ge "GATEWAY_INTERFACE" (ascii "CGI/1.1".toList) 17 rfl
  have h3 := length_envVar_ge "REDIRECT_STATUS" (ascii "200".toList) 15 rfl
  have h4 := length_envVar_ge "SERVER_SOFTWARE" cr.hostSignature 15 rfl
  have h5 := length_envVar_ge "DOCUMENT_ROOT" cr.documentroot 13 rfl
  have h6 := length_envVar_ge "SERVER_PROTOCOL" cr.protocol 15 rfl
  have h7 := length_envVar_ge "SERVER_NAME" cr.hostAlias 11 rfl
  have h8 := length_envVar_ge "SCRIPT_FILENAME" cr.realPath 15 rfl
  have h9 := length_envVar_ge "SCRIPT_NAME" cr.uriProcessed 11 rfl
  have h10 := length_envVar_ge "REQUEST_METHOD" cr.method 14 rfl
  have h11 := length_envVar_ge "REQUEST_URI" (requestUri tmpuri cr) 11 rfl
  have h12 := length_envVar_ge "QUERY_STRING" cr.queryString 12 rfl
  have h13 := length_envVar_ge "CONTENT_TYPE" cr.contentType 12 rfl
  have h14 := length_envVar_ge "CONTENT_LENGTH" (printInt cr.contentLength) 14 rfl
  have hcgi : (ascii "CGI/1.1".toList).length = 7 := rfl
  have hok : (ascii "200".toList).length = 3 := rfl
  simp only [envBytes, fcgiEnvVars, List.flatMap_append, List.flatMap_cons, List.flatMap_nil,
    List.length_append, List.length_nil]
  omega

/-- The bytes of the buffer behind `tmp` when it was all zero. -/
theorem applyWrites_zero_tail {writes : List Write} {tmp pos' : Nat} {empty : Bytes}
    (hbefore : ∀ w ∈ writes, w.off + w.bytes.length ≤ tmp) (i : Nat) :
    applyWrites (fun _ => 0) (writes ++ [⟨pos', empty⟩]) (tmp + i) =
      if pos' ≤ tmp + i then empty.getD (tmp + i - pos') 0 else 0 := by
  have hzero : applyWrites (fun _ => 0) writes (tmp + i) = 0 := by
    have h : peek (applyWrites (fun _ => 0) writes) (tmp + i) 1 = peek (fun _ => 0) (tmp + i) 1 :=
      peek_applyWrites_of_disjoint _ fun w hw => .inr ((hbefore w hw).trans (Nat.le_add_right tmp i))
    simpa [peek] using h
  rw [applyWrites, List.foldl_append]
  simp only [List.foldl_cons, List.foldl_nil, Write.apply]
  by_cases hlow : pos' ≤ tmp + i
  · by_cases hhigh : tmp + i < pos' + empty.length
    · rw [if_pos ⟨hlow, hhigh⟩, if_pos hlow]
    · rw [if_neg fun h => hhigh h.2, if_pos hlow, List.getD_eq_getElem?_getD,
        List.getElem?_eq_none (by omega)]
      exact hzero
  · rw [if_neg fun h => hlow h.1, if_neg hlow]
    exact hzero

/-- The only empty record of standard input in a header between zeros is at the
header itself. -/
theorem zero_of_header_at {reqId : UInt16} {h : FcgiHeader} {j : Nat} (hv : h.version = fcgiVersion1)
    (ht : h.type = fcgiStdin) (hi : h.reqId = reqId)
    (hbyte : ∀ i < 7, (fcgiWriteHeader h).getD i 0 =
      (fcgiWriteHeader { type := fcgiStdin, reqId := reqId }).getD (j + i) 0) :
    j = 0 ∧ h.bodyPad = 0 := by
  have h0 := hbyte 0 (by decide)
  have h1 := hbyte 1 (by decide)
  have h2 := hbyte 2 (by decide)
  have h6 := hbyte 6 (by decide)
  subst hi
  simp only [fcgiWriteHeader, hv, ht, fcgiVersion1, fcgiStdin] at h0 h1 h2 h6
  rcases j with _ | _ | _ | _ | _ | _ | _ | j
  · exact ⟨rfl, by simpa using h6⟩
  · simp at h0
  · simp_all
  · simp_all
  · simp_all
  · simp_all
  · simp_all
  · simp at h0

/-- The part of a zero buffer from `tmp` on, with a header written at `pos'` and as long
as everything before the end of that header, does not end with an empty record. -/
theorem tail_not_ends_empty {reqId : UInt16} {writes : List Write} {tmp pos' : Nat}
    (hbefore : ∀ w ∈ writes, w.off + w.bytes.length ≤ tmp) (hpos : tmp ≤ pos') (htmp : 0 < tmp)
    (hlong : 255 ≤ pos') {h : FcgiHeader} (hv : h.version = fcgiVersion1) (ht : h.type = fcgiStdin)
    (hi : h.reqId = reqId) {front before last : Bytes} (hr : IsRecord h [] last)
    (heq : before ++ peek (applyWrites (fun _ => 0) (writes ++
      [⟨pos', fcgiWriteHeader { type := fcgiStdin, reqId := reqId }⟩])) tmp (pos' + 8) = front ++ last) :
    False := by
  obtain ⟨reserved, pad, rfl, -, hpad⟩ := hr
  have hlen : (fcgiWriteHeader h ++ reserved :: ([] ++ pad)).length = 8 + pad.length := by
    simp only [List.length_append, fcgiWriteHeader_length, List.length_cons, List.nil_append]
    omega
  -- the record is shorter than the part, so it is an end of it
  have hsuffix : fcgiWriteHeader h ++ reserved :: ([] ++ pad) <:+ peek (applyWrites (fun _ => 0) (writes ++
      [⟨pos', fcgiWriteHeader { type := fcgiStdin, reqId := reqId }⟩])) tmp (pos' + 8) := by
    have := h.bodyPad.toNat_lt
    apply List.suffix_of_suffix_length_le (heq ▸ List.suffix_append front _) (List.suffix_append before _)
    rw [hlen, length_peek]
    omega
  obtain ⟨u, hu⟩ := hsuffix
  have htotal := congrArg List.length hu
  rw [List.length_append, hlen, length_peek] at htotal
  have hbyte : ∀ i < 7, (fcgiWriteHeader h).getD i 0 =
      if pos' ≤ tmp + (u.length + i) then
        (fcgiWriteHeader { type := fcgiStdin, reqId := reqId }).getD (tmp + (u.length + i) - pos') 0
      else 0 := by
    intro i hi7
    have hat := @getD_peek (applyWrites (fun _ => 0) (writes ++
      [⟨pos', fcgiWriteHeader { type := fcgiStdin, reqId := reqId }⟩])) tmp (pos' + 8) (u.length + i) (by omega)
    rw [applyWrites_zero_tail hbefore, ← hu, List.getD_append_right _ _ _ _ (by omega),
      Nat.add_sub_cancel_left, List.getD_append _ _ _ _ (by rw [fcgiWriteHeader_length]; exact hi7)] at hat
    exact hat
  have hstart : pos' ≤ tmp + u.length := by
    by_contra hlt
    have h0 := hbyte 0 (by decide)
    rw [if_neg (by omega)] at h0
    simp [fcgiWriteHeader, hv, fcgiVersion1] at h0
  obtain ⟨hj, hpad0⟩ := @zero_of_header_at reqId h (tmp + u.length - pos') hv ht hi fun i hi7 => by
    rw [hbyte i hi7, if_pos (by omega)]
    congr 1
    omega
  rw [hpad0] at hpad
  have : (0 : UInt8).toNat = 0 := rfl
  omega

/-- With data the last entry does not end with the empty record: in a buffer that was
all zero no such record is found at the end of it. -/
theorem not_isRequest_of_data {tmpuri : Nat → UInt8} {reqId : UInt16} {location : FcgiLocation}
    {iov : ChunkIov} {cr : ClientRequest} {p : Prepared} {env' data' : Bytes}
    (h : fcgiPrepareRequest tmpuri reqId (some location) iov cr = .ok p) (hdata : cr.data ≠ [])
    (hfits : EnvFits (prepareLen - 24) (fcgiEnvVars tmpuri cr) 0) :
    ¬ IsRequest reqId location.keepAlive env' data' (p.io (fun _ => 0) cr.data).flatten := by
  obtain ⟨env, stdin, henv, -, hstdin, hwrites⟩ := fcgiPrepareRequest_eq_ok h
  have hwhole : env = envBytes (fcgiEnvVars tmpuri cr) :=
    (fcgiEnvWrite_eq_envBytes_iff (fun v => len_of_mem_fcgiEnvVars) henv).mpr hfits
  have hge : 222 ≤ env.length := hwhole ▸ length_envBytes_ge tmpuri cr
  have hlen : env.length ≤ 4072 := by
    have := fcgiEnvWrite_length henv (Nat.zero_le _)
    rw [prepareLen] at this
    omega
  obtain ⟨hlow, -⟩ := @envEnd_bounds reqId env hlen
  obtain ⟨hnil, -⟩ | ⟨-, pos', hpos', hst, hentries⟩ := prepareStdin_cases hstdin
  case inl => exact absurd hnil hdata
  rintro ⟨b, params, s, heq, -, -, hs⟩
  obtain ⟨front, last, hd, rfl, hv, ht, hi, hr⟩ := hs.exists_last
  have hbefore : ∀ w ∈ headWrites reqId location.keepAlive env ++
      [⟨envEnd reqId env + 8, fcgiWriteHeader (stdinHeader reqId cr.data)⟩],
      w.off + w.bytes.length ≤ envEnd reqId env + 8 + 8 := by
    intro w hw
    obtain hw | hw := List.mem_append.mp hw
    · exact (headWrites_end_le hlen hw).trans (Nat.le_add_right _ 8)
    · obtain rfl := List.mem_singleton.mp hw
      simp only [fcgiWriteHeader_length]
      omega
  rw [Prepared.io, hentries, hwrites, hst, List.append_cons (headWrites _ _ _)] at heq
  simp only [List.map_cons, List.map_nil, List.flatten_cons, List.flatten_nil, List.append_nil,
    IovRef.bytes] at heq
  rw [← List.append_assoc, ← List.append_assoc params, ← List.append_assoc b] at heq
  exact tail_not_ends_empty hbefore hpos' (by omega) (by omega) hv ht hi hr heq

/-- A request that was prepared is well formed, whatever the memory of its buffer held, exactly
when the client sent no data and every parameter of its environment fits the buffer. -/
theorem Prepared.ok_iff {tmpuri : Nat → UInt8} {reqId : UInt16} {location : FcgiLocation}
    {iov : ChunkIov} {cr : ClientRequest} {p : Prepared}
    (h : fcgiPrepareRequest tmpuri reqId (some location) iov cr = .ok p) :
    (∀ mem, p.Ok reqId location (fcgiEnvVars tmpuri cr) cr.data mem) ↔
      cr.data = [] ∧ EnvFits (prepareLen - 24) (fcgiEnvVars tmpuri cr) 0 := by
  constructor
  · intro hok
    have hreq := (hok fun _ => 0).request
    have hwrite := env_eq_of_carriesEnv h hreq.carriesEnv
    have hfits := (fcgiEnvWrite_eq_envBytes_iff (fun v => len_of_mem_fcgiEnvVars) hwrite).mp rfl
    refine ⟨?_, hfits⟩
    by_contra hdata
    exact not_isRequest_of_data h hdata hfits hreq
  · rintro ⟨hdata, hfits⟩ mem
    exact prepared_ok_of_fits h hdata hfits mem

/-- A run over a buffer is one of the environment. -/
theorem fcgiPrepareRequest_eq_fault {tmpuri : Nat → UInt8} {reqId : UInt16} {location : FcgiLocation}
    {iov : ChunkIov} {cr : ClientRequest}
    (h : fcgiPrepareRequest tmpuri reqId (some location) iov cr = .fault) :
    fcgiEnvWrite (prepareLen - 24) (fcgiEnvVars tmpuri cr) 0 = none := by
  simp only [fcgiPrepareRequest] at h
  generalize fcgiEnvWrite (prepareLen - 24) (fcgiEnvVars tmpuri cr) 0 = written at h ⊢
  split at h
  · contradiction
  split at h
  · rfl
  next env =>
    split at h
    · split at h
      · split at h <;> contradiction
      · contradiction
    · contradiction

/-- **Well-formed requests.**  Where `fcgi_prepare_request` does not fail, it has prepared a
well-formed request, whatever the memory of its buffer held, exactly when the client sent
no data, every parameter of its environment fits the buffer, and every name its own. -/
theorem prepared_ok_iff {tmpuri : Nat → UInt8} {reqId : UInt16} {location : FcgiLocation}
    {iov : ChunkIov} {cr : ClientRequest}
    (h : fcgiPrepareRequest tmpuri reqId (some location) iov cr ≠ .failed) :
    (∀ mem, (fcgiPrepareRequest tmpuri reqId (some location) iov cr).Ok reqId location
      (fcgiEnvVars tmpuri cr) cr.data mem) ↔ RequestFits tmpuri cr := by
  have hwhole := @fcgiEnvWrite_whole_iff (prepareLen - 24) 0 (fcgiEnvVars tmpuri cr)
    fun v => len_of_mem_fcgiEnvVars
  cases hret : fcgiPrepareRequest tmpuri reqId (some location) iov cr with
  | failed => exact absurd hret h
  | fault =>
      refine iff_of_false (fun hok => ?_) fun hfits => ?_
      · obtain ⟨p, heq, -⟩ := hok fun _ => 0
        contradiction
      · have hsome := hwhole.mpr ⟨hfits.env, hfits.names⟩
        rw [fcgiPrepareRequest_eq_fault hret] at hsome
        contradiction
  | ok p =>
      have hok : (∀ mem, (PrepareRet.ok p).Ok reqId location (fcgiEnvVars tmpuri cr) cr.data mem) ↔
          ∀ mem, p.Ok reqId location (fcgiEnvVars tmpuri cr) cr.data mem := by
        refine forall_congr' fun mem => ⟨?_, fun hp => ⟨p, rfl, hp⟩⟩
        rintro ⟨q, heq, hq⟩
        rwa [PrepareRet.ok.inj heq]
      rw [hok, Prepared.ok_iff hret]
      constructor
      · rintro ⟨hdata, hfits⟩
        -- what was written is the whole environment, so no name ran over its buffer
        obtain ⟨env, stdin, hwrite, -⟩ := fcgiPrepareRequest_eq_ok hret
        obtain rfl := (fcgiEnvWrite_eq_envBytes_iff (fun v => len_of_mem_fcgiEnvVars) hwrite).mpr hfits
        exact ⟨hdata, hfits, (hwhole.mp hwrite).2⟩
      · exact fun hfits => ⟨hfits.data, hfits.env⟩

theorem PrepareRet.exists_ok {r : PrepareRet} (h : r ≠ .failed ∧ r ≠ .fault) : ∃ p, r = .ok p := by
  cases r with
  | ok p => exact ⟨p, rfl⟩
  | failed => exact absurd rfl h.1
  | fault => exact absurd rfl h.2

/-- A request without data. -/
theorem prepared_ok_get :
    RequestFits (fun _ => 0) { uri := ascii ['/'], headersToc := [ascii "A: b".toList] } ∧ ∀ mem,
      (fcgiPrepareRequest (fun _ => 0) 1 (some {}) {}
        { uri := ascii ['/'], headersToc := [ascii "A: b".toList] }).Ok 1 {}
        (fcgiEnvVars (fun _ => 0) { uri := ascii ['/'], headersToc := [ascii "A: b".toList] }) [] mem := by
  have hfits : RequestFits (fun _ => 0) { uri := ascii ['/'], headersToc := [ascii "A: b".toList] } :=
    ⟨rfl, by decide +kernel, by decide +kernel⟩
  exact ⟨hfits, (@prepared_ok_iff (fun _ => 0) 1 {} {}
    { uri := ascii ['/'], headersToc := [ascii "A: b".toList] } (by decide +kernel)).mpr hfits⟩

/-- Three bytes of data are not followed by the empty record. -/
theorem prepared_not_ok_post : ∃ p,
    fcgiPrepareRequest (fun _ => 0) 1 (some {}) {} { uri := ascii ['/'], data := ascii "a=1".toList } = .ok p ∧
      ¬ ∀ mem, (PrepareRet.ok p).Ok 1 {} (fcgiEnvVars (fun _ => 0)
        { uri := ascii ['/'], data := ascii "a=1".toList }) (ascii "a=1".toList) mem := by
  obtain ⟨p, hp⟩ := @PrepareRet.exists_ok (fcgiPrepareRequest (fun _ => 0) 1 (some {}) {}
    { uri := ascii ['/'], data := ascii "a=1".toList }) (by decide +kernel)
  refine ⟨p, hp, fun hok => ?_⟩
  obtain ⟨q, heq, hq⟩ := hok fun _ => 0
  obtain rfl := PrepareRet.ok.inj heq
  exact not_isRequest_of_data hp (by decide) (by decide +kernel) hq.request

end Monkey.Fastcgi
