import Monkey.Http.Init
import Monkey.Lib.Heap

/-!
# Monkey.Http.RealPath

The buffers behind `sr->real_path`: the static one of the request, or a block that the
request has to free.  `mk_http_init` composes the path and may replace it by that of an
index file; `mk_request_free` frees it.
-/

namespace Monkey

/-- What `sr->real_path.data` points to. -/
inductive PathData
  | null
  | static
  | documentroot
  | block (n : Nat)
deriving DecidableEq, Repr

/-- `sr->real_path` with the memory behind it. -/
structure PathState where
  static : Bytes
  documentroot : Bytes
  heap : Heap := []
  data : PathData := .null
  len : Nat := 0
deriving DecidableEq, Repr

/-- The bytes from `sr->real_path.data` on. -/
def PathState.buffer (p : PathState) : Option Bytes :=
  match p.data with
  | .null => none
  | .static => some p.static
  | .documentroot => some (p.documentroot ++ [0])
  | .block n => p.heap.block n

/-- `MK_PATH_BASE`. -/
def mkPathBase : Nat := 128

/-- `mk_pointer_free` of `sr->real_path`. -/
def mkPointerFree (p : PathState) : Option PathState :=
  match p.data with
  | .null => some { p with len := 0 }
  | .block n => (p.heap.free n).map fun heap => { p with heap := heap, len := 0 }
  | _ => none

/-- The path in `mk_request_free`. -/
def requestFree (p : PathState) : Option PathState := if p.data = .static then some p else mkPointerFree p

section
variable (junk : Nat → UInt8)

/-! ## composing the path -/

/-- `mk_buffer_cat` into `sr->real_path`. -/
def mkBufferCat (p : PathState) (buf1 : Bytes) (len1 : Int) (buf2 : Bytes) (len2 : Int) : Option (Int × PathState) :=
  if len1 < 0 ∨ len2 < 0 then some (-1, p)
  else do
    let (heap, n) := p.heap.malloc (newBuffer junk (len1 + len2 + 1).toNat)
    let heap ← heap.write n 0 (buf1.take len1.toNat)
    let heap ← heap.write n len1.toNat (buf2.take len2.toNat)
    let heap ← heap.write n (len1 + len2).toNat [0]
    return (0, { p with heap := heap, data := .block n, len := toULong (len1 + len2) })

/-- `mk_string_build` into `sr->real_path`, for a format that gives `text`. -/
def mkStringBuild (p : PathState) (text : Bytes) : Option PathState := do
  let alloc := 64
  let (heap, n) := p.heap.malloc (newBuffer junk alloc)
  let heap ← heap.write n 0 (text.take (alloc - 1) ++ [0])
  let (heap, n) ←
    if text.length ≥ alloc then do
      let heap ← heap.free n
      let (heap, n) := heap.malloc (newBuffer junk (text.length + 1))
      let heap ← heap.write n 0 (text ++ [0])
      some (heap, n)
    else some (heap, n)
  let heap ← heap.write n text.length [0]
  return { p with heap := heap, data := .block n, len := text.length }

/-- The document root and the URI, in the static buffer or in a new block. -/
def composePath (uri : Bytes) (p : PathState) : Option (Int × PathState) :=
  let root := p.documentroot
  let len := toInt (root.length + uri.length)
  if len < mkPathBase then do
    let static ← writeAt p.static 0 root
    let static ← writeAt static root.length uri
    let static ← writeAt static len.toNat [0]
    return (0, { p with static := static, data := .static, len := toULong len })
  else mkBufferCat junk p root (toInt root.length) uri (toInt uri.length)

/-- The start of `mk_http_init`: what it returns early, if not 0, and the path. -/
def initRealPath (userHome : Bool) (uri : Bytes) (p : PathState) : Option (Int × PathState) :=
  let p := if uri = [0x2f] then { p with data := .documentroot, len := p.documentroot.length } else p
  if userHome then some (0, p) else composePath junk uri p

/-! ## the index file -/

/-- The loop of `mk_request_index`: `file_aux` and the length of the path in it. -/
def requestIndexLoop (access : Bytes → Bool) (pathfile : Bytes) (flen : Nat) (fileAux : Bytes) :
    List Bytes → Option (Bytes × Option Nat)
  | [] => some (fileAux, none)
  | entry :: indexFiles => do
      let text := pathfile ++ entry
      let fileAux ← writeAt fileAux 0 (text.take (flen - 1) ++ [0])
      let len := if text.length > flen then flen else text.length
      if access (cstr fileAux) then some (fileAux, some len)
      else requestIndexLoop access pathfile flen fileAux indexFiles

/-- `strdup` into `sr->real_path`. -/
def strdupPath (p : PathState) (s : Bytes) (len : Nat) : PathState :=
  let (heap, n) := p.heap.malloc (cstr s ++ [0])
  { p with heap := heap, data := .block n, len := len }

/-- The index lookup of `mk_http_init`. -/
def initIndexFile (access : Bytes → Bool) (indexFiles : List Bytes) (p : PathState) : Option PathState := do
  let buf ← p.buffer
  let (tmppath, found) ← requestIndexLoop access (cstr buf) maxPath (newBuffer junk maxPath) indexFiles
  match found with
  | none => some p
  | some len =>
      if p.data ≠ .static then (mkPointerFree p).map fun p => strdupPath p tmppath len
      else if len < mkPathBase then do
        let text ← readAt tmppath 0 len
        let static ← writeAt p.static 0 text
        let static ← writeAt static len [0]
        return { p with static := static, len := len }
      else some (strdupPath p tmppath len)

end

/-! ## what a path is -/

/-- The path of a request in good order: the length is that of the string, which ends inside its
buffer; the buffer is the static one or a block; `mk_request_free` frees every block there is, and
could not do it again. -/
structure SafePath (p : PathState) : Prop where
  text : ∃ buf, p.buffer = some buf ∧ 0 ∈ buf ∧ p.len = strlen buf
  owner : p.data = .static ∨ ∃ n, p.data = .block n
  freed : ∃ p', requestFree p = some p' ∧ p'.heap.Freed ∧ (p.data = .static ∨ requestFree p' = none)

/-- The buffer in which a path is, with its NUL. -/
inductive PathState.Holds (p : PathState) (text : Bytes) : Prop
  | static (rest : Bytes) (hdata : p.data = .static) (hroom : p.static.length = mkPathBase)
      (hbuf : p.static = text ++ 0 :: rest) (hheap : p.heap.Freed)
  | block (heap : Heap) (rest : Bytes) (hdata : p.data = .block heap.length)
      (hbuf : p.heap = heap ++ [some (text ++ 0 :: rest)]) (hheap : heap.Freed)

theorem strlen_append_nul (text rest : Bytes) : strlen (text ++ 0 :: rest) = strlen text := by
  rw [strlen, strlen, cstr_append_nul]

variable {junk : Nat → UInt8} {p : PathState} {text uri : Bytes}

theorem PathState.Holds.buffer (h : p.Holds text) : ∃ rest, p.buffer = some (text ++ 0 :: rest) := by
  cases h with
  | static rest hdata _ hbuf _ => exact ⟨rest, by rw [PathState.buffer, hdata, hbuf]⟩
  | block heap rest hdata hbuf _ => exact ⟨rest, by rw [PathState.buffer, hdata, hbuf]; exact Heap.block_last⟩

/-- Only the length can be wrong. -/
theorem PathState.Holds.safePath_iff (h : p.Holds text) : SafePath p ↔ p.len = strlen text := by
  obtain ⟨rest, hbuf⟩ := h.buffer
  constructor
  · rintro ⟨⟨buf, hbuf', -, hlen⟩, -, -⟩
    rw [hbuf] at hbuf'
    rw [hlen, ← Option.some.inj hbuf', strlen_append_nul]
  · intro hlen
    refine ⟨⟨_, hbuf, by simp, by rw [hlen, strlen_append_nul]⟩, ?_, ?_⟩
    · cases h with
      | static _ hdata _ _ _ => exact .inl hdata
      | block heap _ hdata _ _ => exact .inr ⟨heap.length, hdata⟩
    · cases h with
      | static _ hdata _ _ hheap => exact ⟨p, by rw [requestFree, if_pos hdata], hheap, .inl hdata⟩
      | block heap _ hdata hblock hheap =>
          have hfree : p.heap.free heap.length = some (heap ++ [none]) := by rw [hblock, Heap.free_last]
          have honce := Heap.free_free hfree
          refine ⟨{ p with heap := heap ++ [none], len := 0 }, ?_, hheap.concat, .inr ?_⟩
          · rw [requestFree, if_neg (by rw [hdata]; simp), mkPointerFree, hdata]
            simp only [hfree, Option.map_some]
          · rw [requestFree, if_neg (by rw [hdata]; simp), mkPointerFree, hdata]
            simp only [honce, Option.map_none]

/-! ## composing -/

/-- Three pieces stored one after the other. -/
theorem write_three {buf a b c : Bytes} (h : a.length + b.length + c.length ≤ buf.length) :
    ∃ buf₁ buf₂, writeAt buf 0 a = some buf₁ ∧ writeAt buf₁ a.length b = some buf₂ ∧
      writeAt buf₂ (a.length + b.length) c = some (a ++ b ++ c ++ buf.drop (a.length + b.length + c.length)) := by
  have h₁ : writeAt buf 0 a = some (fillAt buf 0 a) := writeAt_of_le (by omega)
  have h₂ : writeAt (fillAt buf 0 a) a.length b = some (fillAt buf 0 (a ++ b)) := by
    have happend : writeAt (fillAt buf 0 a) (0 + a.length) b = writeAt buf 0 (a ++ b) := writeAt_append h₁
    rw [Nat.zero_add] at happend
    rw [happend, writeAt_of_le (by rw [List.length_append]; omega)]
  have h₂' : writeAt buf 0 (a ++ b) = some (fillAt buf 0 (a ++ b)) := writeAt_of_le (by rw [List.length_append]; omega)
  refine ⟨fillAt buf 0 a, fillAt buf 0 (a ++ b), h₁, h₂, ?_⟩
  have happend : writeAt (fillAt buf 0 (a ++ b)) (0 + (a ++ b).length) c = writeAt buf 0 (a ++ b ++ c) :=
    writeAt_append h₂'
  rw [Nat.zero_add, List.length_append] at happend
  rw [happend, writeAt_front (by simp only [List.length_append]; omega), List.length_append, List.length_append]

/-- A path that is composed of the document root and the URI. -/
theorem composePath_holds (hroom : p.static.length = mkPathBase) (hheap : p.heap.Freed)
    (hlen : p.documentroot.length + uri.length < 2 ^ 31 - 1) :
    ∃ p', composePath junk uri p = some (0, p') ∧ p'.Holds (p.documentroot ++ uri) ∧
      p'.len = (p.documentroot ++ uri).length := by
  have hint : toInt (p.documentroot.length + uri.length) = (p.documentroot.length + uri.length : Nat) :=
    toInt_eq_self (by omega) (by omega)
  have hint₁ : toInt p.documentroot.length = p.documentroot.length := toInt_eq_self (by omega) (by omega)
  have hint₂ : toInt uri.length = uri.length := toInt_eq_self (by omega) (by omega)
  have hulong : toULong (p.documentroot.length + uri.length : Nat) = p.documentroot.length + uri.length := by
    unfold toULong
    omega
  unfold composePath
  simp only [hint]
  by_cases hfits : ((p.documentroot.length + uri.length : Nat) : Int) < mkPathBase
  · have hle : p.documentroot.length + uri.length + [(0 : UInt8)].length ≤ p.static.length := by
      rw [hroom, List.length_singleton]
      omega
    obtain ⟨buf₁, buf₂, h₁, h₂, h₃⟩ := write_three hle
    rw [if_pos hfits]
    simp only [h₁, Option.bind_eq_bind, Option.bind_some, h₂, Int.toNat_natCast, h₃, hulong, Option.pure_def]
    refine ⟨_, rfl, .static (p.static.drop (p.documentroot.length + uri.length + 1)) rfl ?_ ?_ hheap,
      (List.length_append ..).symm⟩
    · simp only [List.length_append, List.length_drop]
      omega
    · rw [List.append_assoc _ [0]]
      rfl
  · have hsum : ((p.documentroot.length : Int) + uri.length + 1).toNat = p.documentroot.length + uri.length + 1 := by
      omega
    have hsum' : ((p.documentroot.length : Int) + uri.length).toNat = p.documentroot.length + uri.length := by
      omega
    have hulong' : toULong ((p.documentroot.length : Int) + uri.length) = p.documentroot.length + uri.length := hulong
    have hle : p.documentroot.length + uri.length + [(0 : UInt8)].length ≤
        (newBuffer junk (p.documentroot.length + uri.length + 1)).length := by
      rw [length_newBuffer, List.length_singleton]
    obtain ⟨buf₁, buf₂, h₁, h₂, h₃⟩ := write_three hle
    rw [List.drop_of_length_le (by rw [length_newBuffer, List.length_singleton]), List.append_nil] at h₃
    rw [if_neg hfits, mkBufferCat, hint₁, hint₂, if_neg (by omega)]
    simp only [hsum, hsum', hulong', Int.toNat_natCast, List.take_length, Heap.malloc, Heap.write_last h₁,
      Option.bind_eq_bind, Option.bind_some, Heap.write_last h₂, Heap.write_last h₃, Option.pure_def]
    exact ⟨_, rfl, .block p.heap [] rfl rfl hheap, (List.length_append ..).symm⟩

/-- A path that is built from a format. -/
theorem mkStringBuild_holds (hheap : p.heap.Freed) (text : Bytes) :
    ∃ p', mkStringBuild junk p text = some p' ∧ p'.Holds text ∧ p'.len = text.length := by
  have hnul : ∀ rest, writeAt (text ++ 0 :: rest) text.length [0] = some (text ++ 0 :: rest) := by
    intro rest
    have hmiddle := @writeAt_middle [0] text [0] rest rfl
    rwa [List.append_assoc] at hmiddle
  unfold mkStringBuild
  simp only [Heap.malloc]
  by_cases hlong : text.length ≥ 64
  · -- the text is cut, and written again into a block of its length
    have hcut : writeAt (newBuffer junk 64) 0 (text.take 63 ++ [0]) = some (text.take 63 ++ [0]) :=
      writeAt_all (by
        rw [length_newBuffer, List.length_append, List.length_take_of_le (by omega), List.length_singleton])
    have hall : writeAt (newBuffer junk (text.length + 1)) 0 (text ++ [0]) = some (text ++ [0]) :=
      writeAt_all (by rw [length_newBuffer, List.length_append, List.length_singleton])
    have hfreed := (hheap.concat : (p.heap ++ [none]).Freed)
    simp only [Nat.reduceSub, Heap.write_last hcut, Option.bind_eq_bind, Option.bind_some, hlong, if_true,
      Heap.free_last, Heap.write_last hall, Heap.write_last (hnul []), Option.pure_def]
    exact ⟨_, rfl, .block (p.heap ++ [none]) [] rfl rfl hfreed, rfl⟩
  · have hfront : writeAt (newBuffer junk 64) 0 (text.take 63 ++ [0]) =
        some (text ++ 0 :: (newBuffer junk 64).drop (text.length + 1)) := by
      rw [List.take_of_length_le (by omega),
        writeAt_front (by rw [length_newBuffer, List.length_append, List.length_singleton]; omega),
        List.length_append, List.length_singleton, List.append_assoc, List.singleton_append]
    simp only [Nat.reduceSub, Heap.write_last hfront, Option.bind_eq_bind, Option.bind_some, hlong, if_false,
      Heap.write_last (hnul _), Option.pure_def]
    exact ⟨_, rfl, .block p.heap _ rfl rfl hheap, rfl⟩

/-! ## the index file -/

/-- The buffer of `mk_request_index` has the path of the first entry that exists, cut to fit. -/
theorem requestIndexLoop_eq (access : Bytes → Bool) {pathfile fileAux : Bytes} (hpath : 0 ∉ pathfile)
    (hroom : fileAux.length = maxPath) {indexFiles : List Bytes} (hindex : ∀ e ∈ indexFiles, 0 ∉ e) :
    ∃ tmppath found, requestIndexLoop access pathfile maxPath fileAux indexFiles = some (tmppath, found) ∧
      match indexFiles.find? (fun e => access ((pathfile ++ e).take (maxPath - 1))) with
      | none => found = none
      | some e => found = some (min (pathfile ++ e).length maxPath) ∧
          ∃ rest, tmppath = (pathfile ++ e).take (maxPath - 1) ++ 0 :: rest := by
  induction indexFiles generalizing fileAux with
  | nil => exact ⟨fileAux, none, rfl, rfl⟩
  | cons e indexFiles ih =>
      obtain ⟨he, hindex⟩ := List.forall_mem_cons.mp hindex
      have hcut : ((pathfile ++ e).take (maxPath - 1)).length ≤ maxPath - 1 := List.length_take_le ..
      have hmax : 0 < maxPath := by decide
      have hnul : 0 ∉ (pathfile ++ e).take (maxPath - 1) := fun h0 =>
        (List.mem_append.mp (List.mem_of_mem_take h0)).elim hpath he
      have hlen : ((pathfile ++ e).take (maxPath - 1) ++ [0]).length ≤ fileAux.length := by
        rw [List.length_append, List.length_singleton, hroom]
        omega
      have hfront := writeAt_front hlen
      obtain ⟨t, ht⟩ : ∃ t : Bytes, (pathfile ++ e).take (maxPath - 1) = t := ⟨_, rfl⟩
      rw [ht] at hnul hfront hlen
      have hstr : cstr (t ++ [0] ++ fileAux.drop (t ++ [(0 : UInt8)]).length) = t := by
        rw [List.append_assoc, List.singleton_append, cstr_append_nul, cstr_eq_self hnul]
      have hroom' : (t ++ [0] ++ fileAux.drop (t ++ [(0 : UInt8)]).length).length = maxPath := by
        rw [List.length_append, List.length_drop]
        omega
      rw [requestIndexLoop, List.find?_cons]
      simp only [ht, hfront, Option.bind_eq_bind, Option.bind_some, hstr]
      cases access t with
      | true =>
          refine ⟨_, _, rfl, ?_, fileAux.drop (t ++ [(0 : UInt8)]).length, ?_⟩
          · congr 1
            split <;> omega
          · rw [List.append_assoc, List.singleton_append, ht]
      | false => exact ih hroom' hindex

theorem strdupPath_holds (hheap : p.heap.Freed) (text tmppath : Bytes) (len : Nat) (htext : cstr tmppath = text) :
    (strdupPath p tmppath len).Holds text ∧ (strdupPath p tmppath len).len = len := by
  refine ⟨.block p.heap [] rfl ?_ hheap, rfl⟩
  rw [← htext]
  rfl

theorem mkPointerFree_last {heap : Heap} {block : Bytes} (hdata : p.data = .block heap.length)
    (hheap : p.heap = heap ++ [some block]) :
    mkPointerFree p = some { p with heap := heap ++ [none], len := 0 } := by
  rw [mkPointerFree, hdata]
  simp only [hheap, Heap.free_last, Option.map_some]

/-- A path that is copied into the static buffer. -/
theorem writeStatic_holds (hroom : p.static.length = mkPathBase) (hdata : p.data = .static) (hheap : p.heap.Freed)
    {text : Bytes} (hlen : text.length < mkPathBase) :
    ∃ buf₁ buf₂, writeAt p.static 0 text = some buf₁ ∧ writeAt buf₁ text.length [0] = some buf₂ ∧
      ({ p with static := buf₂, len := text.length } : PathState).Holds text := by
  have h₁ : writeAt p.static 0 text = some (text ++ p.static.drop text.length) := writeAt_front (by omega)
  have h₂ : writeAt (text ++ p.static.drop text.length) (0 + text.length) [0] = writeAt p.static 0 (text ++ [0]) :=
    writeAt_append h₁
  rw [Nat.zero_add, writeAt_front (by rw [List.length_append, List.length_singleton]; omega)] at h₂
  refine ⟨_, _, h₁, h₂, .static (p.static.drop (text.length + 1)) hdata ?_ ?_ hheap⟩
  · simp only [List.length_append, List.length_drop, List.length_singleton]
    omega
  · rw [List.append_assoc, List.singleton_append, List.length_append, List.length_singleton]

/-- The index lookup keeps the path, or puts that of the index file in its place. -/
theorem initIndexFile_holds (access : Bytes → Bool) {indexFiles : List Bytes} (hindex : ∀ e ∈ indexFiles, 0 ∉ e)
    (h : p.Holds text) :
    ∃ p', initIndexFile junk access indexFiles p = some p' ∧
      match indexFiles.find? (fun e => access ((cstr text ++ e).take (maxPath - 1))) with
      | none => p' = p
      | some e => p'.Holds ((cstr text ++ e).take (maxPath - 1)) ∧ p'.len = min (cstr text ++ e).length maxPath := by
  obtain ⟨rest, hbuf⟩ := h.buffer
  obtain ⟨tmppath, found, hloop, hfound⟩ :=
    requestIndexLoop_eq access (zero_notMem_cstr text) (length_newBuffer junk maxPath) hindex
  unfold initIndexFile
  simp only [hbuf, Option.bind_eq_bind, Option.bind_some, cstr_append_nul, hloop]
  cases hfind : indexFiles.find? (fun e => access ((cstr text ++ e).take (maxPath - 1))) with
  | none =>
      rw [hfind] at hfound
      obtain rfl := hfound
      exact ⟨p, rfl, rfl⟩
  | some e =>
      rw [hfind] at hfound
      obtain ⟨rfl, rest', rfl⟩ := hfound
      have hmax : maxPath = 1024 := rfl
      have hbase : mkPathBase = 128 := rfl
      have hnul : 0 ∉ (cstr text ++ e).take (maxPath - 1) := fun h0 =>
        (List.mem_append.mp (List.mem_of_mem_take h0)).elim (zero_notMem_cstr text)
          (hindex e (List.mem_of_find?_eq_some hfind))
      have htmp : cstr ((cstr text ++ e).take (maxPath - 1) ++ 0 :: rest') = (cstr text ++ e).take (maxPath - 1) := by
        rw [cstr_append_nul, cstr_eq_self hnul]
      simp only
      cases h with
      | block heap rest hdata hblock hheap =>
          rw [if_pos (by rw [hdata]; simp), mkPointerFree_last hdata hblock]
          exact ⟨_, rfl, strdupPath_holds hheap.concat _ _ _ htmp⟩
      | static rest hdata hroom hstatic hheap =>
          rw [if_neg (by rw [hdata]; simp)]
          by_cases hfits : min (cstr text ++ e).length maxPath < mkPathBase
          · -- the path is as long as its text, so none of it is cut
            have hlen : min (cstr text ++ e).length maxPath = (cstr text ++ e).length := by omega
            have htake : (cstr text ++ e).take (maxPath - 1) = cstr text ++ e := List.take_of_length_le (by omega)
            rw [if_pos hfits, hlen, htake]
            rw [hlen] at hfits
            obtain ⟨buf₁, buf₂, h₁, h₂, hholds⟩ := writeStatic_holds hroom hdata hheap hfits
            have hread : readAt (cstr text ++ e ++ 0 :: rest') 0 (cstr text ++ e).length = some (cstr text ++ e) := by
              rw [readAt, if_pos (by simp), List.drop_zero, List.take_left]
            simp only [hread, Option.bind_some, h₁, h₂, Option.pure_def]
            exact ⟨_, rfl, hholds, rfl⟩
          · rw [if_neg hfits]
            exact ⟨_, rfl, strdupPath_holds hheap _ _ _ htmp⟩

/-! ## the path of a request -/

/-- The request before its path is known. -/
def pathStart (sr : SessionRequest) : PathState :=
  { static := List.replicate mkPathBase 0, documentroot := sr.hostConf.documentroot }

/-- The path of a request: of a home directory, as `mk_user_init` has built it, or composed. -/
def pathSetup (junk : Nat → UInt8) (sr : SessionRequest) : Option (Int × PathState) :=
  if sr.userHome then do
    let p ← mkStringBuild junk (pathStart sr) sr.realPath
    initRealPath junk true sr.uriProcessed.text p
  else initRealPath junk false sr.uriProcessed.text (pathStart sr)

/-- What a request comes with: a document root, index files and a home directory that are C strings,
a URI behind `/~` for the latter, and lengths that are an `int`. -/
structure PathRequest (ctx : Ctx) (sr : SessionRequest) : Prop where
  documentroot : 0 ∉ sr.hostConf.documentroot
  indexFiles : ∀ e ∈ ctx.cfg.indexFiles, 0 ∉ e
  home : sr.userHome = true → 0 ∉ sr.realPath ∧ 2 < sr.uriProcessed.text.length
  lengths : sr.hostConf.documentroot.length + sr.uriProcessed.text.length < 2 ^ 31 - 1

/-- The path is in good order once it is composed and, if the index files are looked for, after
that. -/
def PathsSafe (junk : Nat → UInt8) (ctx : Ctx) (sr : SessionRequest) (lookup : Bool) : Prop :=
  ∃ p, pathSetup junk sr = some (0, p) ∧ SafePath p ∧
    (lookup = true →
      ∃ p', initIndexFile junk ctx.sys.access ctx.cfg.indexFiles p = some p' ∧ SafePath p')

variable {ctx : Ctx} {sr : SessionRequest}

/-- The path is that of `composeRealPath`, with its length. -/
theorem pathSetup_holds (h : PathRequest ctx sr) :
    ∃ p, pathSetup junk sr = some (0, p) ∧ p.Holds (composeRealPath sr).realPath ∧
      p.len = (composeRealPath sr).realPath.length := by
  have hheap : (pathStart sr).heap.Freed := fun b hb => by contradiction
  unfold pathSetup composeRealPath
  cases hhome : sr.userHome with
  | true =>
      obtain ⟨p, hbuild, hholds, hlen⟩ : ∃ p, mkStringBuild junk (pathStart sr) sr.realPath = some p ∧
          p.Holds sr.realPath ∧ p.len = sr.realPath.length := mkStringBuild_holds hheap sr.realPath
      have huri : sr.uriProcessed.text ≠ [0x2f] := by
        intro heq
        have hlong := (h.home hhome).2
        rw [heq] at hlong
        contradiction
      simp only [if_true, hbuild, Option.bind_eq_bind, Option.bind_some, initRealPath, if_neg huri]
      exact ⟨p, rfl, hholds, hlen⟩
  | false =>
      simp only [Bool.false_eq_true, if_false, initRealPath]
      split
      · exact composePath_holds (p := { pathStart sr with
          data := .documentroot, len := (pathStart sr).documentroot.length }) List.length_replicate hheap h.lengths
      · exact composePath_holds (p := pathStart sr) List.length_replicate hheap h.lengths

theorem strlen_eq_length_iff {s : Bytes} : strlen s = s.length ↔ 0 ∉ s := by
  constructor
  · intro hlen h0
    exact absurd hlen (strlen_lt_of_mem h0).ne
  · intro h0
    rw [strlen, cstr_eq_self h0]

/-- After the lookup the path is that of `mkRequestIndex`. -/
theorem initIndexFile_refines (h : PathRequest ctx sr) (hholds : p.Holds text) :
    ∃ p', initIndexFile junk ctx.sys.access ctx.cfg.indexFiles p = some p' ∧
      p'.Holds ((mkRequestIndex ctx text).getD text) := by
  obtain ⟨p', heq, hp'⟩ := initIndexFile_holds ctx.sys.access h.indexFiles hholds
  refine ⟨p', heq, ?_⟩
  rw [mkRequestIndex, List.find?_map]
  simp only [Function.comp_def]
  split at hp'
  · next hfind =>
      rw [hp', hfind]
      exact hholds
  · next e hfind =>
      rw [hfind]
      exact hp'.1

/-- The lookup goes wrong when the path of the index file is cut. -/
theorem initIndexFile_safe_iff (h : PathRequest ctx sr) (hholds : p.Holds text) (hsafe : SafePath p) (h0 : 0 ∉ text) :
    (∃ p', initIndexFile junk ctx.sys.access ctx.cfg.indexFiles p = some p' ∧ SafePath p') ↔
      ∀ e, ctx.cfg.indexFiles.find? (fun e => ctx.sys.access ((text ++ e).take (maxPath - 1))) = some e →
        (text ++ e).length < maxPath := by
  obtain ⟨p', heq, hp'⟩ : ∃ p', initIndexFile junk ctx.sys.access ctx.cfg.indexFiles p = some p' ∧ _ :=
    initIndexFile_holds ctx.sys.access h.indexFiles hholds
  rw [cstr_eq_self h0] at hp'
  have hsame : (∃ p', initIndexFile junk ctx.sys.access ctx.cfg.indexFiles p = some p' ∧ SafePath p') ↔ SafePath p' := by
    simp only [heq, Option.some.injEq, exists_eq_left']
  rw [hsame]
  split at hp'
  · next hfind =>
      rw [hp', hfind]
      exact iff_of_true hsafe nofun
  · next e hfind =>
      have hnul : 0 ∉ (text ++ e).take (maxPath - 1) := fun hmem =>
        (List.mem_append.mp (List.mem_of_mem_take hmem)).elim h0 (h.indexFiles e (List.mem_of_find?_eq_some hfind))
      have hmax : maxPath = 1024 := rfl
      rw [hfind, hp'.1.safePath_iff, hp'.2, strlen_eq_length_iff.mpr hnul, List.length_take]
      constructor
      · intro hlen e' he'
        obtain rfl := Option.some.inj he'
        omega
      · intro hshort
        have := hshort e rfl
        omega

/-- **The path of a request**: it is in good order after every step exactly when the URI has no NUL
and the path of an index file is shorter than the buffer of the lookup. -/
theorem pathsSafe_iff {ctx : Ctx} {sr : SessionRequest} (h : PathRequest ctx sr) (junk : Nat → UInt8) (lookup : Bool) :
    PathsSafe junk ctx sr lookup ↔
      (sr.userHome = false → 0 ∉ sr.uriProcessed.text) ∧
        (lookup = true → ∀ e, ctx.cfg.indexFiles.find? (fun e =>
            ctx.sys.access (((composeRealPath sr).realPath ++ e).take (maxPath - 1))) = some e →
          ((composeRealPath sr).realPath ++ e).length < maxPath) := by
  obtain ⟨p, hsetup, hholds, hlen⟩ : ∃ p, pathSetup junk sr = some (0, p) ∧
    p.Holds (composeRealPath sr).realPath ∧ p.len = (composeRealPath sr).realPath.length := pathSetup_holds h
  have hnul : 0 ∉ (composeRealPath sr).realPath ↔ (sr.userHome = false → 0 ∉ sr.uriProcessed.text) := by
    unfold composeRealPath
    cases hhome : sr.userHome with
    | true => simpa using (h.home hhome).1
    | false => simp [h.documentroot]
  have hsafe : SafePath p ↔ 0 ∉ (composeRealPath sr).realPath := by
    rw [hholds.safePath_iff, hlen, eq_comm, strlen_eq_length_iff]
  have hpath : PathsSafe junk ctx sr lookup ↔ SafePath p ∧ (lookup = true →
      ∃ p', initIndexFile junk ctx.sys.access ctx.cfg.indexFiles p = some p' ∧ SafePath p') := by
    simp only [PathsSafe, hsetup, Option.some.injEq, Prod.mk.injEq, true_and, exists_eq_left']
  rw [hpath, ← hnul, hsafe]
  refine and_congr_right fun h0 => imp_congr_right fun _ => ?_
  exact initIndexFile_safe_iff h hholds (hsafe.mpr h0) h0

/-- A directory, and a server with one index file. -/
def directoryRequest (documentroot uri : Bytes) : SessionRequest :=
  { uriProcessed := { data := some uri, len := uri.length }, hostConf := { documentroot := documentroot } }

def indexFileCtx : Ctx := { sampleCtx with cfg := { sampleConfig with indexFiles := [ascii "index.html".toList] } }

theorem pathsSafe_iff_docs :
    PathsSafe (fun _ => 0) indexFileCtx (directoryRequest (ascii "/srv".toList) (ascii "/docs/".toList)) true :=
  (pathsSafe_iff ⟨by decide, by decide, by decide, by decide⟩ _ _).mpr
    ⟨fun _ => by decide, fun _ e he => by
      obtain rfl := Option.some.inj he
      decide⟩

/-- Ten directories with names of 99 bytes. -/
def deepUri : Bytes := 0x2f :: (List.replicate 10 (List.replicate 99 0x64 ++ [0x2f])).flatten

/-- With a document root of 13 bytes the path of `index.html` in the deepest directory has 1024
bytes: `index.htm` is served, and its length is one too large. -/
theorem pathsSafe_deep :
    ¬ PathsSafe (fun _ => 0) indexFileCtx (directoryRequest (ascii "/srv/www/site".toList) deepUri) true := by
  rintro ⟨p, hsetup, hsafe, hlookup⟩
  have hrequest : PathRequest indexFileCtx (directoryRequest (ascii "/srv/www/site".toList) deepUri) :=
    ⟨by decide, by decide, by decide, by decide +kernel⟩
  obtain ⟨p', hsetup', hholds, -⟩ := pathSetup_holds hrequest
  obtain rfl : p = p' := (Prod.mk.inj (Option.some.inj (hsetup.symm.trans hsetup'))).2
  have hshort := (initIndexFile_safe_iff hrequest hholds hsafe (by decide +kernel)).mp (hlookup rfl) _ rfl
  exact absurd hshort (by decide +kernel)

end Monkey
