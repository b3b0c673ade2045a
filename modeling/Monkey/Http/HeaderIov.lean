import Monkey.Http.Header
import Monkey.Http.Answer

/-!
# Monkey.Http.HeaderIov

The vectors of `mk_iov.c` and the room `mk_header_send` has in them: the one of the
thread for the header itself, and that of the request for extra rows.

A vector is its entries and its size, and one entry too many stops the server; who frees an entry
later is not kept.
-/

namespace Monkey

/-- `struct mk_iov`: the entries below `iov_idx`, and the number allocated. -/
structure MkIov where
  io : List Bytes := []
  size : Nat
deriving DecidableEq, Repr

/-- `mk_iov_add_entry`; a vector over its size is a `mk_bug`. -/
def mkIovAddEntry (iov : MkIov) (buf sep : Bytes) : Option MkIov :=
  let io := iov.io ++ buf :: if 0 < sep.length then [sep] else []
  if io.length ≤ iov.size then some { iov with io := io } else none

/-- `mk_iov_crlf`. -/
def mkIovCrlf : Bytes := [0x0d, 0x0a]

/-- The entries of the vector of the thread for a header, most of them followed by a
separator; `encoded` is whether there is a `Content-Encoding`. -/
def headerEntries (b : HeaderBlock) (encoded : Bool) : Nat :=
  let status := 1
  let signature := 2
  let date := 2
  let lastModified := if b.lastModified.isSome then 2 else 0
  let connection :=
    match b.connection with
    | .none => 0
    | .keepAlive _ => 3
    | .close => 1
  let location := if b.location.isSome then 3 else 0
  let contentType := if b.contentType.isSome then 2 else 0
  let chunked := if b.chunked then 1 else 0
  let contentEncoding := if encoded then 2 else 0
  let contentLength := if b.contentLength.isSome then 2 else 0
  let contentRange := if b.contentRange.isSome then 2 else 0
  let crlf := if b.extraRows = [] then 1 else 0
  status + signature + date + lastModified + connection + location + contentType + chunked +
    contentEncoding + contentLength + contentRange + crlf

/-- The size of the vector of the thread (`mk_cache_iov_header`). -/
def headerIovSize : Nat := 32

/-- `MK_PLUGIN_HEADER_EXTRA_ROWS`; the vector of the extra rows has twice as many. -/
def mkPluginHeaderExtraRows : Nat := 18

/-- The vector of the extra rows. -/
def extraRowsIov (h : ResponseHeaders) : MkIov := { io := h.extraRows, size := mkPluginHeaderExtraRows * 2 }

/-- `mk_header_send` with its vectors: `none` is a `mk_bug`.  The line that ends the
header goes behind the extra rows, if there are any. -/
def mkHeaderSendIov (ctx : Ctx) (sr : SessionRequest) (encoded : Bool) : Option Res :=
  if statusKnown sr.headers.status ∧ headerEntries (headerBlock ctx sr) encoded ≤ headerIovSize then
    if sr.headers.extraRows = [] then some (mkHeaderSend ctx sr)
    else (mkIovAddEntry (extraRowsIov sr.headers) mkIovCrlf []).map fun _ => mkHeaderSend ctx sr
  else none

/-- The vector of the thread is large enough for every header. -/
theorem headerEntries_le (b : HeaderBlock) (encoded : Bool) : headerEntries b encoded ≤ headerIovSize := by
  have hconn : (match b.connection with | .none => 0 | .keepAlive _ => 3 | .close => 1) ≤ 3 := by
    cases b.connection <;> simp
  have hfield : ∀ (p : Prop) [Decidable p] (n : Nat), (if p then n else 0) ≤ n := by
    intro p _ n
    split
    · exact le_rfl
    · exact Nat.zero_le n
  calc headerEntries b encoded
    _ ≤ 1 + 2 + 2 + 2 + 3 + 3 + 2 + 1 + 2 + 2 + 2 + 1 := by
        simp only [headerEntries]
        gcongr <;> apply hfield
    _ ≤ headerIovSize := by decide

/-- **What `mk_header_send` needs**: a status it knows, and room for the last line. -/
theorem mkHeaderSendIov_isSome (ctx : Ctx) (sr : SessionRequest) (encoded : Bool) :
    (mkHeaderSendIov ctx sr encoded).isSome = true ↔
      statusKnown sr.headers.status = true ∧
        (sr.headers.extraRows = [] ∨ sr.headers.extraRows.length < mkPluginHeaderExtraRows * 2) := by
  unfold mkHeaderSendIov
  simp only [headerEntries_le, and_true]
  by_cases hstatus : statusKnown sr.headers.status = true
  · by_cases hrows : sr.headers.extraRows = []
    · simp [hstatus, hrows]
    · simp [hstatus, hrows, mkIovAddEntry, extraRowsIov]
  · simp [hstatus]

end Monkey
