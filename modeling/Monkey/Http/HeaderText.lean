import Monkey.Http.HeaderIov
import Monkey.Http.Itop
import Monkey.Lib.HeaderFields
import Monkey.Time.Clock

/-!
# Monkey.Http.HeaderText

The bytes of a response header (`mk_header_send`): the entries of the vector of the thread,
then those of the vector of the extra rows.

A client reads back the fields that the block of the header has, in their order, and the body
behind the empty line.
-/

namespace Monkey

/-! ## the texts -/

/-- The reasons of the `status_response` table. -/
def statusReasons : List (Int × String) :=
  [(200, "OK"), (404, "Not Found"), (100, "Continue"), (101, "Switching Protocols"), (201, "Created"),
    (202, "Accepted"), (203, "Non-Authoritative Information"), (204, "No Content"), (205, "Reset Content"),
    (206, "Partial Content"), (300, "Multiple Choices"), (301, "Moved Permanently"), (302, "Found"),
    (303, "See Other"), (304, "Not Modified"), (305, "Use Proxy"), (400, "Bad Request"), (401, "Unauthorized"),
    (402, "Payment Required"), (403, "Forbidden"), (405, "Method Not Allowed"), (406, "Not Acceptable"),
    (407, "Proxy Authentication Required"), (408, "Request Timeout"), (409, "Conflict"), (410, "Gone"),
    (411, "Length Required"), (412, "Precondition Failed"), (413, "Request Entity Too Large"),
    (414, "Request-URI Too Long"), (415, "Unsupported Media Type"), (500, "Internal Server Error"),
    (501, "Not Implemented"), (502, "Bad Gateway"), (503, "Service Unavailable"), (504, "Gateway Timeout"),
    (505, "HTTP Version Not Supported")]

/-- A status line without its CRLF. -/
def statusText (status : Int) (reason : String) : Bytes :=
  ascii "HTTP/1.1 ".toList ++ decimalInt status ++ [0x20] ++ ascii reason.toList

/-- The response: the custom one, or that of the table. -/
def responseText (customStatus : Bytes) (status : Int) : Option Bytes :=
  if status = mkCustomStatus then some customStatus
  else (statusReasons.find? fun e => e.1 == status).map fun e => statusText e.1 e.2 ++ mkIovCrlf

def mkHeaderShortDate : Bytes := ascii "Date: ".toList
def mkHeaderLastModified : Bytes := ascii "Last-Modified: ".toList
def mkHeaderShortLocation : Bytes := ascii "Location: ".toList
def mkHeaderShortCt : Bytes := ascii "Content-Type: ".toList
def mkHeaderContentEncoding : Bytes := ascii "Content-Encoding: ".toList
def mkHeaderContentLength : Bytes := ascii "Content-Length: ".toList
def mkHeaderConnKa : Bytes := ascii "Connection: Keep-Alive\r\n".toList
def mkHeaderConnClose : Bytes := ascii "Connection: Close\r\n".toList
def mkHeaderTeChunked : Bytes := ascii "Transfer-Encoding: Chunked\r\n".toList
def rhContentRange : Bytes := ascii "Content-Range:".toList

/-- What `mk_header_send` reads besides the block: the texts of a custom status and of an encoding,
the signature of the host, the date of the clock, and the caches of the thread
(`mk_cache_thread_init`). -/
structure HeaderThread where
  customStatus : Bytes
  contentEncoding : Bytes
  headerHostSignature : Bytes
  headerCurrentTime : Bytes
  /-- `mk_cache_header_ka`. -/
  headerKa : Bytes
  headerKaMax : Bytes
  headerCl : Bytes
  headerLm : Bytes
  gcache : List Time.GmtCache

/-- `mk_string_itop` into a cache: the bytes that the pointer delimits. -/
def itopText (value : Int) (cache : Bytes) : Option Bytes := (mkStringItop value cache).map fun r => r.1.take r.2

/-- `mk_utils_utime2gmt` into a cache: the bytes that the pointer delimits. -/
def utime2gmtText (gcache : List Time.GmtCache) (cache : Bytes) (date : Int) : Option Bytes :=
  (Time.mkUtilsUtime2gmt 0 gcache cache date).map fun r => r.2.1.take r.1.toNat

/-- The buffer and the separator of one `mk_iov_add_entry`. -/
abbrev Entry := Bytes × Bytes

def lastModifiedAdds (w : HeaderThread) : Option Int → Option (List Entry)
  | none => some []
  | some date => (utime2gmtText w.gcache w.headerLm date).map fun lm => [(mkHeaderLastModified, lm)]

def connectionAdds (w : HeaderThread) : ConnectionField → Option (List Entry)
  | .none => some []
  | .keepAlive max => (itopText max w.headerKaMax).map fun ka => [(w.headerKa, []), (ka, mkHeaderConnKa)]
  | .close => some [(mkHeaderConnClose, [])]

def locationAdds : Option Bytes → List Entry
  | none => []
  | some location => [(mkHeaderShortLocation, []), (location, mkIovCrlf)]

def contentTypeAdds : Option Bytes → List Entry
  | none => []
  | some type => [(mkHeaderShortCt, type)]

/-- A name and the value behind it, without separators. -/
def contentEncodingAdds (encoding : Bytes) : List Entry :=
  if 0 < encoding.length then [(mkHeaderContentEncoding, []), (encoding, [])] else []

def contentLengthAdds (w : HeaderThread) : Option Int → Option (List Entry)
  | none => some []
  | some length => (itopText length w.headerCl).map fun cl => [(mkHeaderContentLength, cl)]

def contentRangeAdds : Option (Int × Int × Int) → List Entry
  | none => []
  | some (first, last, total) =>
      [(rhContentRange ++ ascii " bytes ".toList ++ decimalInt first ++ [0x2d] ++ decimalInt last ++ [0x2f] ++
        decimalInt total, mkIovCrlf)]

/-- The entries of a header; `breakline` is whether it ends here (`cgi` or `breakline` of the
headers). -/
def headerAdds (w : HeaderThread) (b : HeaderBlock) (breakline : Bool) : Option (List Entry) := do
  let response ← responseText w.customStatus b.status
  let lastModified ← lastModifiedAdds w b.lastModified
  let connection ← connectionAdds w b.connection
  let contentLength ← contentLengthAdds w b.contentLength
  some <|
    [(response, []), (w.headerHostSignature, mkIovCrlf), (mkHeaderShortDate, w.headerCurrentTime)] ++
    lastModified ++ connection ++ locationAdds b.location ++ contentTypeAdds b.contentType ++
    (if b.chunked then [(mkHeaderTeChunked, [])] else []) ++ contentEncodingAdds w.contentEncoding ++
    contentLength ++ contentRangeAdds b.contentRange ++
    (if breakline ∧ b.extraRows = [] then [(mkIovCrlf, [])] else [])

/-- Entries added one after the other. -/
def addEntries (iov : MkIov) (adds : List Entry) : Option MkIov :=
  adds.foldlM (fun iov e => mkIovAddEntry iov e.1 e.2) iov

/-- The vector of the extra rows, which the line that ends the header goes to if there are any. -/
def endedRows (b : HeaderBlock) (breakline : Bool) : Option MkIov :=
  if breakline ∧ b.extraRows ≠ [] then mkIovAddEntry ⟨b.extraRows, mkPluginHeaderExtraRows * 2⟩ mkIovCrlf []
  else some ⟨b.extraRows, mkPluginHeaderExtraRows * 2⟩

/-- The bytes of `mk_header_send`: the vector of the thread, then that of the extra rows. -/
def mkHeaderSendText (w : HeaderThread) (b : HeaderBlock) (breakline : Bool) : Option Bytes := do
  let adds ← headerAdds w b breakline
  let iov ← addEntries ⟨[], headerIovSize⟩ adds
  let rows ← endedRows b breakline
  some (iov.io.flatten ++ rows.io.flatten)

/-- Room for all of them is enough. -/
theorem addEntries_eq {iov : MkIov} {adds : List Entry}
    (h : iov.io.length + 2 * adds.length ≤ iov.size) :
    ∃ iov', addEntries iov adds = some iov' ∧
      iov'.io.flatten = iov.io.flatten ++ (adds.map fun e => e.1 ++ e.2).flatten := by
  induction adds generalizing iov with
  | nil => exact ⟨iov, rfl, by simp⟩
  | cons e adds ih =>
      obtain ⟨buf, sep⟩ := e
      rw [List.length_cons] at h
      obtain ⟨iov₁, hadd, hsize, hlength, htext⟩ : ∃ iov₁, mkIovAddEntry iov buf sep = some iov₁ ∧
          iov₁.size = iov.size ∧ iov₁.io.length ≤ iov.io.length + 2 ∧
          iov₁.io.flatten = iov.io.flatten ++ (buf ++ sep) := by
        unfold mkIovAddEntry
        by_cases hsep : 0 < sep.length
        · have hroom : (iov.io ++ [buf, sep]).length ≤ iov.size := by
            rw [List.length_append, List.length_cons, List.length_singleton]
            omega
          simp only [if_pos hsep, if_pos hroom]
          exact ⟨_, rfl, rfl, by simp, by simp⟩
        · obtain rfl : sep = [] := List.length_eq_zero_iff.mp (by omega)
          have hroom : (iov.io ++ [buf]).length ≤ iov.size := by
            rw [List.length_append, List.length_singleton]
            omega
          simp only [if_neg hsep, if_pos hroom]
          exact ⟨_, rfl, rfl, by simp, by simp⟩
      obtain ⟨iov', hrest, htext'⟩ := ih (show iov₁.io.length + 2 * adds.length ≤ iov₁.size by omega)
      refine ⟨iov', ?_, ?_⟩
      · rw [addEntries, List.foldlM_cons, hadd]
        exact hrest
      · rw [htext', htext, List.map_cons, List.flatten_cons, List.append_assoc]

/-! ## the fields -/

def lastModifiedFields : Option Int → List (Bytes × Bytes)
  | none => []
  | some date => [(ascii "Last-Modified".toList, Time.rfc1123 date)]

def connectionFields (timeout : Int) : ConnectionField → List (Bytes × Bytes)
  | .none => []
  | .keepAlive max =>
      [(ascii "Keep-Alive".toList, ascii "timeout=".toList ++ decimalInt timeout ++ ascii ", max=".toList ++
        decimalInt max), (ascii "Connection".toList, ascii "Keep-Alive".toList)]
  | .close => [(ascii "Connection".toList, ascii "Close".toList)]

def locationFields : Option Bytes → List (Bytes × Bytes)
  | none => []
  | some location => [(ascii "Location".toList, location)]

def contentTypeFields : Option Bytes → List (Bytes × Bytes)
  | none => []
  | some type => [(ascii "Content-Type".toList, lineBody type)]

def chunkedFields (chunked : Bool) : List (Bytes × Bytes) :=
  if chunked then [(ascii "Transfer-Encoding".toList, ascii "Chunked".toList)] else []

def contentEncodingFields (encoding : Bytes) : List (Bytes × Bytes) :=
  if 0 < encoding.length then [(ascii "Content-Encoding".toList, lineBody encoding)] else []

def contentLengthFields : Option Int → List (Bytes × Bytes)
  | none => []
  | some length => [(ascii "Content-Length".toList, decimalInt length)]

def contentRangeFields : Option (Int × Int × Int) → List (Bytes × Bytes)
  | none => []
  | some (first, last, total) =>
      [(ascii "Content-Range".toList, ascii "bytes ".toList ++ decimalInt first ++ [0x2d] ++ decimalInt last ++
        [0x2f] ++ decimalInt total)]

/-- The fields of a header: the signature of the host, the second the date was taken at and the
keep-alive timeout are those of the thread, the rest is what the block has. -/
def headerFields (w : HeaderThread) (server : Bytes) (now timeout : Int) (b : HeaderBlock) (rows : List (Bytes × Bytes)) :
    List (Bytes × Bytes) :=
  [(ascii "Server".toList, server), (ascii "Date".toList, Time.rfc1123 now)] ++
  lastModifiedFields b.lastModified ++ connectionFields timeout b.connection ++ locationFields b.location ++
  contentTypeFields b.contentType ++ chunkedFields b.chunked ++ contentEncodingFields w.contentEncoding ++
  contentLengthFields b.contentLength ++ contentRangeFields b.contentRange ++ rows

/-- The rows of `mk_plugin_header_add`: a text and a CRLF each. -/
def rowEntries (rows : List (Bytes × Bytes)) : List Bytes :=
  rows.flatMap fun row => [row.1 ++ [0x3a, 0x20] ++ row.2, mkIovCrlf]

/-- The first line, without its CRLF. -/
def statusLine (w : HeaderThread) (status : Int) : Bytes :=
  if status = mkCustomStatus then lineBody w.customStatus
  else ((statusReasons.find? fun e => e.1 == status).map fun e => statusText e.1 e.2).getD []

/-- A value of one line, without a blank in front. -/
def IsValue (value : Bytes) : Prop := 0x0a ∉ value ∧ value.head? ≠ some 0x20
deriving Decidable

/-- An `int`. -/
def IsInt (value : Int) : Prop := -2 ^ 31 ≤ value ∧ value < 2 ^ 31

/-- What the thread has set up for its headers. -/
structure HeaderThread.Ready (w : HeaderThread) (server : Bytes) (now timeout : Int) : Prop where
  signature : w.headerHostSignature = ascii "Server: ".toList ++ server
  server : IsValue server
  date : w.headerCurrentTime = Time.rfc1123 now ++ crlfText
  now : Time.InRange now
  ka : w.headerKa = ascii "Keep-Alive: timeout=".toList ++ decimalInt timeout ++ ascii ", max=".toList
  kaMax : mkUtilsInt2mkpBufferLen ≤ w.headerKaMax.length
  cl : mkUtilsInt2mkpBufferLen ≤ w.headerCl.length
  lm : 32 ≤ w.headerLm.length
  gcache : Time.CacheOk w.gcache
  contentEncoding : w.contentEncoding ≠ [] → ∃ value, w.contentEncoding = value ++ crlfText ∧ IsValue value

/-- A status of the table, or a custom one of one line. -/
def HeaderThread.Knows (w : HeaderThread) (status : Int) : Prop :=
  status ∈ statusResponse ∨
    status = mkCustomStatus ∧ ∃ line, w.customStatus = line ++ crlfText ∧ line ≠ [] ∧ 0x0a ∉ line

/-- A block whose texts are of one line; its type and its rows have the CRLF that their callers
put there. -/
structure HeaderBlock.OneLined (b : HeaderBlock) (rows : List (Bytes × Bytes)) : Prop where
  lastModified : ∀ date, b.lastModified = some date → Time.InRange date
  connection : ∀ max, b.connection = .keepAlive max → IsInt max
  location : ∀ location, b.location = some location → IsValue location
  contentType : ∀ type, b.contentType = some type → ∃ value, type = value ++ crlfText ∧ IsValue value
  contentLength : ∀ length, b.contentLength = some length → IsInt length
  extraRows : b.extraRows = rowEntries rows
  rows : ∀ row ∈ rows, IsField row
  room : b.extraRows.length < mkPluginHeaderExtraRows * 2

/-! ## texts of one line -/

theorem isValue_append {text rest : Bytes} (htext : IsValue text) (hne : text ≠ []) (hrest : 0x0a ∉ rest) :
    IsValue (text ++ rest) := by
  refine ⟨?_, ?_⟩
  · rw [List.mem_append, not_or]
    exact ⟨htext.1, hrest⟩
  · rw [List.head?_append_of_ne_nil _ hne]
    exact htext.2

theorem newline_decimal (n : Nat) : 0x0a ∉ decimal n :=
  fun hmem => absurd (isdigit_of_mem_decimal _ hmem) (by decide)

theorem newline_decimalInt (x : Int) : 0x0a ∉ decimalInt x := by
  rw [decimalInt]
  split
  · rw [List.mem_cons, not_or]
    exact ⟨by decide, newline_decimal _⟩
  · exact newline_decimal _

theorem isValue_decimalInt (x : Int) : IsValue (decimalInt x) := by
  refine ⟨newline_decimalInt x, ?_⟩
  rw [decimalInt]
  split
  · simp
  · intro hhead
    exact absurd (isdigit_of_mem_decimal _ (List.mem_of_head? hhead)) (by decide)

theorem isValue_rfc1123 {t : Int} (h : Time.InRange t) : IsValue (Time.rfc1123 t) := by
  have hpad : ∀ k n, 0x0a ∉ zeroPadded k n :=
    fun k n hmem => absurd (isdigit_of_mem_zeroPadded _ hmem) (by decide)
  have hday : ∀ w < 7, (0x0a : UInt8) ∉ Time.dayNames.getD w [] ∧ Time.dayNames.getD w [] ≠ [] ∧
      (Time.dayNames.getD w []).head? ≠ some 0x20 := by decide
  have hmonth : ∀ m < 12, (0x0a : UInt8) ∉ Time.monthNames.getD m [] := by decide
  have hname := hday _ h.fields.wday
  rw [Time.rfc1123]
  simp only [List.append_assoc]
  refine isValue_append ⟨hname.1, hname.2.2⟩ hname.2.1 ?_
  simp only [List.mem_append, List.mem_singleton, not_or, hpad, hmonth _ h.fields.mon, not_false_eq_true,
    true_and]
  decide

theorem itopText_eq {value : Int} (h : IsInt value) {cache : Bytes} (hcache : mkUtilsInt2mkpBufferLen ≤ cache.length) :
    itopText value cache = some (decimalInt value ++ crlfText) := by
  obtain ⟨data, heq, htext⟩ := mkStringItop_text h.1 h.2 hcache
  rw [itopText, heq, Option.map_some, htext]
  rfl

theorem utime2gmtText_eq {gcache : List Time.GmtCache} (h : Time.CacheOk gcache) {cache : Bytes}
    (hcache : 32 ≤ cache.length) {date : Int} (hdate : Time.InRange date) :
    utime2gmtText gcache cache date = some (Time.rfc1123 date ++ crlfText) := by
  obtain ⟨gcache', heq, -⟩ := Time.mkUtilsUtime2gmt_eq h 0 hcache hdate
  have hlength := Time.length_rfc1123Line hdate
  have hline : Time.rfc1123Line date = (Time.rfc1123 date ++ crlfText) ++ [0] := by
    rw [Time.rfc1123Line, List.append_assoc]
    rfl
  have htext : (Time.rfc1123 date ++ crlfText).length = 31 := by
    rw [hline, List.length_append, List.length_singleton] at hlength
    omega
  have htake := @take_fillAt cache 0 (Nat.zero_le _) (Time.rfc1123Line date)
  rw [hlength, Nat.zero_add, List.take_zero, List.nil_append, hline] at htake
  rw [utime2gmtText, heq, Option.map_some]
  have htake' := congrArg (List.take 31) htake
  rw [List.take_take, ← htext, List.take_left' rfl, htext, ← hline] at htake'
  exact congrArg some htake'

/-! ## the parts of a header -/

/-- At most `n` entries, which say the lines of some fields. -/
structure Lines (n : Nat) (adds : List Entry) (fields : List (Bytes × Bytes)) : Prop where
  room : adds.length ≤ n
  text : (adds.map fun e => e.1 ++ e.2).flatten = (fields.map fieldLine).flatten
  fields : ∀ f ∈ fields, IsField f

theorem Lines.append {n n' : Nat} {adds adds' : List Entry} {fields fields' : List (Bytes × Bytes)}
    (h : Lines n adds fields) (h' : Lines n' adds' fields') : Lines (n + n') (adds ++ adds') (fields ++ fields') where
  room := by
    rw [List.length_append]
    exact Nat.add_le_add h.room h'.room
  text := by rw [List.map_append, List.flatten_append, h.text, h'.text, List.map_append, List.flatten_append]
  fields := fun f hf => (List.mem_append.mp hf).elim (h.fields f) (h'.fields f)

theorem lines_nil (n : Nat) : Lines n [] [] := ⟨Nat.zero_le n, rfl, by simp⟩

/-- One line. -/
theorem lines_line {n : Nat} {adds : List Entry} {name value : Bytes} (hroom : adds.length ≤ n)
    (htext : (adds.map fun e => e.1 ++ e.2).flatten = fieldLine (name, value)) (hname : 0x3a ∉ name ∧ 0x0a ∉ name)
    (hvalue : IsValue value) : Lines n adds [(name, value)] where
  room := hroom
  text := by simpa using htext
  fields := by
    intro f hf
    rw [List.mem_singleton.mp hf]
    exact ⟨hname, hvalue⟩

section

variable {w : HeaderThread} {server : Bytes} {now timeout : Int} {b : HeaderBlock} {rows : List (Bytes × Bytes)}

theorem responseText_eq {status : Int} (h : w.Knows status) :
    responseText w.customStatus status = some (statusLine w status ++ crlfText) ∧ statusLine w status ≠ [] ∧
      0x0a ∉ statusLine w status := by
  rcases h with hmem | ⟨rfl, line, hline, hne, hnew⟩
  · have hcustom : status ≠ mkCustomStatus := by
      rintro rfl
      exact absurd hmem (by decide)
    have hcodes : statusReasons.map (·.1) = statusResponse := rfl
    rw [← hcodes] at hmem
    obtain ⟨e, he, rfl⟩ := List.mem_map.mp hmem
    obtain ⟨e', hfind⟩ := Option.isSome_iff_exists.mp
      (List.find?_isSome.mpr ⟨e, he, beq_self_eq_true e.1⟩ : (statusReasons.find? fun x => x.1 == e.1).isSome = true)
    have hreason : ∀ e ∈ statusReasons, 0x0a ∉ ascii e.2.toList := by decide
    rw [responseText, statusLine, if_neg hcustom, if_neg hcustom, hfind, Option.map_some, Option.map_some,
      Option.getD_some]
    refine ⟨rfl, by simp [statusText], ?_⟩
    simp only [statusText, List.mem_append, newline_decimalInt, hreason e' (List.mem_of_find?_eq_some hfind), not_or,
      not_false_eq_true, and_true]
    decide
  · rw [responseText, statusLine, if_pos rfl, if_pos rfl, hline, lineBody_append]
    exact ⟨rfl, hne, hnew⟩

theorem lines_first (hw : w.Ready server now timeout) :
    Lines 2 [(w.headerHostSignature, mkIovCrlf), (mkHeaderShortDate, w.headerCurrentTime)]
      [(ascii "Server".toList, server), (ascii "Date".toList, Time.rfc1123 now)] := by
  refine ⟨le_rfl, ?_, ?_⟩
  · simp [hw.signature, hw.date, fieldLine, mkHeaderShortDate, mkIovCrlf, crlfText, ascii]
  · intro f hf
    simp only [List.mem_cons, List.not_mem_nil, or_false] at hf
    rcases hf with rfl | rfl
    · exact ⟨show 0x3a ∉ ascii "Server".toList ∧ 0x0a ∉ ascii "Server".toList by decide, hw.server⟩
    · exact ⟨show 0x3a ∉ ascii "Date".toList ∧ 0x0a ∉ ascii "Date".toList by decide, isValue_rfc1123 hw.now⟩

theorem lines_lastModified (hw : w.Ready server now timeout) (hb : b.OneLined rows) :
    ∃ adds, lastModifiedAdds w b.lastModified = some adds ∧ Lines 1 adds (lastModifiedFields b.lastModified) := by
  cases hlm : b.lastModified with
  | none => exact ⟨[], rfl, lines_nil 1⟩
  | some date =>
      have hdate := hb.lastModified date hlm
      refine ⟨_, by rw [lastModifiedAdds, utime2gmtText_eq hw.gcache hw.lm hdate, Option.map_some], ?_⟩
      exact lines_line le_rfl (by simp [fieldLine, mkHeaderLastModified, ascii]) (by decide) (isValue_rfc1123 hdate)

theorem lines_connection (hw : w.Ready server now timeout) (hb : b.OneLined rows) :
    ∃ adds, connectionAdds w b.connection = some adds ∧ Lines 2 adds (connectionFields timeout b.connection) := by
  cases hconn : b.connection with
  | none => exact ⟨[], rfl, lines_nil 2⟩
  | close => exact ⟨_, rfl, lines_line (by decide) (by decide) (by decide) ⟨by decide, by decide⟩⟩
  | keepAlive max =>
      have hmax := hb.connection max hconn
      refine ⟨_, by rw [connectionAdds, itopText_eq hmax hw.kaMax, Option.map_some], ?_⟩
      refine ⟨le_rfl, ?_, ?_⟩
      · simp [connectionFields, hw.ka, fieldLine, crlfText, mkHeaderConnKa, ascii]
      · intro f hf
        simp only [connectionFields, List.mem_cons, List.not_mem_nil, or_false] at hf
        rcases hf with rfl | rfl
        · refine ⟨show 0x3a ∉ ascii "Keep-Alive".toList ∧ 0x0a ∉ ascii "Keep-Alive".toList by decide, ?_⟩
          simp only [List.append_assoc]
          refine isValue_append ⟨by decide, by decide⟩ (by decide) ?_
          simp only [List.mem_append, newline_decimalInt, not_or, not_false_eq_true, true_and, and_true]
          decide
        · exact ⟨by decide, by decide⟩

theorem lines_location (hb : b.OneLined rows) : Lines 2 (locationAdds b.location) (locationFields b.location) := by
  cases hloc : b.location with
  | none => exact lines_nil 2
  | some location =>
      exact lines_line le_rfl (by simp [locationAdds, fieldLine, mkHeaderShortLocation, mkIovCrlf, crlfText, ascii]) (by decide)
        (hb.location location hloc)

theorem lines_contentType (hb : b.OneLined rows) :
    Lines 1 (contentTypeAdds b.contentType) (contentTypeFields b.contentType) := by
  cases htype : b.contentType with
  | none => exact lines_nil 1
  | some type =>
      obtain ⟨value, rfl, hvalue⟩ := hb.contentType type htype
      rw [contentTypeFields, lineBody_append]
      exact lines_line le_rfl (by simp [contentTypeAdds, fieldLine, mkHeaderShortCt, ascii]) (by decide) hvalue

theorem lines_chunked (chunked : Bool) :
    Lines 1 (if chunked then [(mkHeaderTeChunked, [])] else []) (chunkedFields chunked) := by
  cases chunked with
  | false => exact lines_nil 1
  | true => exact lines_line le_rfl (by decide) (by decide) ⟨by decide, by decide⟩

theorem lines_contentEncoding (hw : w.Ready server now timeout) :
    Lines 2 (contentEncodingAdds w.contentEncoding) (contentEncodingFields w.contentEncoding) := by
  rw [contentEncodingAdds, contentEncodingFields]
  by_cases hne : 0 < w.contentEncoding.length
  · obtain ⟨value, htext, hvalue⟩ := hw.contentEncoding (List.length_pos_iff.mp hne)
    rw [if_pos hne, if_pos hne, htext, lineBody_append]
    exact lines_line le_rfl (by simp [fieldLine, mkHeaderContentEncoding, ascii]) (by decide) hvalue
  · rw [if_neg hne, if_neg hne]
    exact lines_nil 2

theorem lines_contentLength (hw : w.Ready server now timeout) (hb : b.OneLined rows) :
    ∃ adds, contentLengthAdds w b.contentLength = some adds ∧ Lines 1 adds (contentLengthFields b.contentLength) := by
  cases hlen : b.contentLength with
  | none => exact ⟨[], rfl, lines_nil 1⟩
  | some length =>
      refine ⟨_, by rw [contentLengthAdds, itopText_eq (hb.contentLength length hlen) hw.cl, Option.map_some], ?_⟩
      exact lines_line le_rfl (by simp [fieldLine, mkHeaderContentLength, ascii]) (by decide) (isValue_decimalInt length)

theorem lines_contentRange (range : Option (Int × Int × Int)) :
    Lines 1 (contentRangeAdds range) (contentRangeFields range) := by
  cases range with
  | none => exact lines_nil 1
  | some r =>
      obtain ⟨first, last, total⟩ := r
      refine lines_line le_rfl (by simp [contentRangeAdds, fieldLine, rhContentRange, mkIovCrlf, crlfText, ascii]) (by decide) ?_
      simp only [List.append_assoc]
      refine isValue_append ⟨by decide, by decide⟩ (by decide) ?_
      simp only [List.mem_append, newline_decimalInt, not_or, not_false_eq_true, true_and, and_true]
      decide

/-! ## the header -/

/-- The entries of the vector of the thread. -/
theorem headerAdds_eq (hw : w.Ready server now timeout) (hb : b.OneLined rows) (hstatus : w.Knows b.status)
    (breakline : Bool) :
    ∃ adds, Lines 13 adds (headerFields w server now timeout b []) ∧
      headerAdds w b breakline = some ((statusLine w b.status ++ crlfText, []) ::
        (adds ++ if breakline ∧ b.extraRows = [] then [(mkIovCrlf, [])] else [])) := by
  obtain ⟨lastModified, hlm, hlmLines⟩ := lines_lastModified hw hb
  obtain ⟨connection, hconn, hconnLines⟩ := lines_connection hw hb
  obtain ⟨contentLength, hcl, hclLines⟩ := lines_contentLength hw hb
  have hlines := (((((((((lines_first hw).append hlmLines).append hconnLines).append (lines_location hb)).append
    (lines_contentType hb)).append (lines_chunked b.chunked)).append (lines_contentEncoding hw)).append
    hclLines).append (lines_contentRange b.contentRange))
  have hfields : headerFields w server now timeout b [] = _ := List.append_nil _
  rw [hfields]
  refine ⟨_, hlines, ?_⟩
  rw [headerAdds, (responseText_eq hstatus).1, hlm, hconn, hcl]
  rfl

/-- The rows of the request. -/
theorem flatten_rowEntries (rows : List (Bytes × Bytes)) : (rowEntries rows).flatten = (rows.map fieldLine).flatten := by
  induction rows with
  | nil => rfl
  | cons row rows ih =>
      rw [rowEntries, List.flatMap_cons, List.flatten_append, ← rowEntries, ih, List.map_cons, List.flatten_cons]
      simp [fieldLine, mkIovCrlf, crlfText]

/-- The vector of the extra rows takes one more entry. -/
theorem endedRows_eq (hb : b.OneLined rows) (breakline : Bool) :
    ∃ iov, endedRows b breakline = some iov ∧
      iov.io.flatten = (rows.map fieldLine).flatten ++ if breakline ∧ b.extraRows ≠ [] then crlfText else [] := by
  have hrows : b.extraRows.flatten = (rows.map fieldLine).flatten := by rw [hb.extraRows, flatten_rowEntries]
  by_cases hlast : breakline = true ∧ b.extraRows ≠ []
  · have hmore : b.extraRows.length + 1 ≤ mkPluginHeaderExtraRows * 2 := hb.room
    rw [endedRows, if_pos hlast, if_pos hlast]
    refine ⟨⟨b.extraRows ++ [mkIovCrlf], mkPluginHeaderExtraRows * 2⟩, by simp [mkIovAddEntry, hmore], ?_⟩
    rw [List.flatten_append, hrows, List.flatten_singleton]
    rfl
  · rw [endedRows, if_neg hlast, if_neg hlast]
    exact ⟨_, rfl, by rw [hrows, List.append_nil]⟩

/-- The bytes of a header; the empty line is behind the extra rows. -/
theorem mkHeaderSendText_eq (hw : w.Ready server now timeout) (hb : b.OneLined rows) (hstatus : w.Knows b.status)
    (breakline : Bool) :
    mkHeaderSendText w b breakline = some (statusLine w b.status ++ crlfText ++
        ((headerFields w server now timeout b rows).map fieldLine).flatten ++ if breakline then crlfText else []) ∧
      ∀ f ∈ headerFields w server now timeout b rows, IsField f := by
  obtain ⟨adds, hlines, hadds⟩ := headerAdds_eq hw hb hstatus breakline
  obtain ⟨rowsIov, hrowsIov, hrowsText⟩ := endedRows_eq hb breakline
  have hfields : headerFields w server now timeout b rows = headerFields w server now timeout b [] ++ rows := by
    simp only [headerFields, List.append_nil]
  refine ⟨?_, fun f hf => ?_⟩
  · obtain ⟨last, hlast⟩ : ∃ last : List Entry,
        (if breakline ∧ b.extraRows = [] then [(mkIovCrlf, [])] else []) = last := ⟨_, rfl⟩
    have hlastRoom : last.length ≤ 1 := by
      rw [← hlast]
      split <;> simp
    rw [hlast] at hadds
    have hroom := hlines.room
    obtain ⟨iov, hiov, htext⟩ := @addEntries_eq ⟨[], headerIovSize⟩
      ((statusLine w b.status ++ crlfText, []) :: (adds ++ last)) (by
        simp only [List.length_cons, List.length_nil, List.length_append, headerIovSize]
        omega)
    rw [List.map_cons, List.flatten_cons, List.map_append, List.flatten_append, hlines.text] at htext
    have hsend : mkHeaderSendText w b breakline = some (iov.io.flatten ++ rowsIov.io.flatten) := by
      simp only [mkHeaderSendText, hadds, hiov, hrowsIov, Option.bind_eq_bind, Option.bind_some]
    rw [hsend, htext, hrowsText, hfields, List.map_append, List.flatten_append, ← hlast]
    -- the empty line is in one of the two vectors
    by_cases hbreak : breakline = true
    · by_cases hempty : b.extraRows = []
      · have hnil : (rows.map fieldLine).flatten = [] := by
          rw [← flatten_rowEntries, ← hb.extraRows, hempty]
          rfl
        simp [hbreak, hempty, hnil, mkIovCrlf, crlfText]
      · simp [hbreak, hempty]
    · simp [hbreak]
  · rw [hfields] at hf
    exact (List.mem_append.mp hf).elim (hlines.fields f) (hb.rows f)

/-- The headers of a request whose texts are of one line. -/
structure ResponseHeaders.OneLined (h : ResponseHeaders) (rows : List (Bytes × Bytes)) : Prop where
  lastModified : 0 < h.lastModified → Time.InRange h.lastModified
  location : ∀ location, h.location = some location → IsValue location
  contentType : h.contentType ≠ [] → ∃ value, h.contentType = value ++ crlfText ∧ IsValue value
  extraRows : h.extraRows = rowEntries rows
  rows : ∀ row ∈ rows, IsField row
  room : h.extraRows.length < mkPluginHeaderExtraRows * 2

theorem isInt_toInt (x : Int) : IsInt (toInt x) := ⟨toInt_lower x, toInt_upper x⟩

theorem isInt_connectionField {ctx : Ctx} {sr : SessionRequest} {max : Int} (h : connectionField ctx sr = .keepAlive max) :
    IsInt max := by
  rw [connectionField] at h
  split at h
  · split at h
    · split at h
      · rw [← ConnectionField.keepAlive.inj h]
        exact isInt_toInt _
      · cases h
    · cases h
  · cases h

theorem ResponseHeaders.OneLined.block {sr : SessionRequest} (h : sr.headers.OneLined rows) (ctx : Ctx) :
    (headerBlock ctx sr).OneLined rows where
  lastModified := by
    intro date hdate
    simp only [headerBlock] at hdate
    split at hdate
    · rw [← Option.some.inj hdate]
      exact h.lastModified ‹_›
    · cases hdate
  connection := fun _ hmax => isInt_connectionField hmax
  location := h.location
  contentType := by
    intro type htype
    simp only [headerBlock] at htype
    split at htype
    · cases htype
    · rw [← Option.some.inj htype]
      exact h.contentType ‹_›
  contentLength := by
    intro length hlength
    simp only [headerBlock] at hlength
    split at hlength
    · rw [← Option.some.inj hlength]
      exact isInt_toInt _
    · cases hlength
  extraRows := h.extraRows
  rows := h.rows
  room := h.room

/-- **What a client reads** of a response: the status, the fields of the header in their order, and
the body behind the empty line.  The rows that a plugin writes behind a header without an empty
line are read as fields of it. -/
theorem mkHeaderSendText_read (hw : w.Ready server now timeout) {ctx : Ctx} {sr : SessionRequest}
    (hsr : sr.headers.OneLined rows) (hstatus : w.Knows sr.headers.status) :
    (∃ text, mkHeaderSendText w (headerBlock ctx sr) true = some text ∧ ∀ body, readHeader (text ++ body) =
      (statusLine w sr.headers.status, headerFields w server now timeout (headerBlock ctx sr) rows, body)) ∧
    ∃ text, mkHeaderSendText w (headerBlock ctx sr) false = some text ∧ ∀ more body, (∀ f ∈ more, IsField f) →
      readHeader (text ++ ((more.map fieldLine).flatten ++ crlfText ++ body)) =
        (statusLine w sr.headers.status, headerFields w server now timeout (headerBlock ctx sr) rows ++ more, body) := by
  have hb := hsr.block ctx
  obtain ⟨-, hne, hnew⟩ := responseText_eq hstatus
  refine ⟨?_, ?_⟩
  · obtain ⟨htext, hfields⟩ := mkHeaderSendText_eq hw hb hstatus true
    refine ⟨_, htext, fun body => ?_⟩
    exact readHeader_compose hne hnew hfields body
  · obtain ⟨htext, hfields⟩ := mkHeaderSendText_eq hw hb hstatus false
    rw [show (headerBlock ctx sr).status = sr.headers.status from rfl] at htext
    refine ⟨_, htext, fun more body hmore => ?_⟩
    have hall : ∀ f ∈ headerFields w server now timeout (headerBlock ctx sr) rows ++ more, IsField f :=
      fun f hf => (List.mem_append.mp hf).elim (hfields f) (hmore f)
    have hread := readHeader_compose hne hnew hall body
    rw [composeHeader, List.map_append, List.flatten_append] at hread
    simpa only [List.append_assoc, List.append_nil, Bool.false_eq_true, if_false] using hread

end

/-- A thread of a server that calls itself `Monkey`. -/
def sampleThread : HeaderThread where
  customStatus := []
  contentEncoding := []
  headerHostSignature := ascii "Server: Monkey".toList
  headerCurrentTime := Time.rfc1123 1000000000 ++ crlfText
  headerKa := ascii "Keep-Alive: timeout=15, max=".toList
  headerKaMax := List.replicate 64 0
  headerCl := List.replicate mkUtilsInt2mkpBufferLen 0
  headerLm := List.replicate 32 0
  gcache := Time.GmtCache.init

theorem sampleThread_ready : sampleThread.Ready (ascii "Monkey".toList) 1000000000 15 :=
  ⟨by decide, by decide, rfl, by decide, by decide, by decide, by decide, by decide, .init, fun h => absurd rfl h⟩

/-- A page of five bytes, with one row of a plugin. -/
def samplePage : SessionRequest where
  headers := {
    status := 200
    contentLength := 5
    realLength := 5
    lastModified := 999999999
    contentType := ascii "text/html\r\n".toList
    extraRows := rowEntries [(ascii "X-Served-By".toList, ascii "sample".toList)] }

theorem mkHeaderSendText_read_page :
    ∃ text, mkHeaderSendText sampleThread (headerBlock sampleCtx samplePage) true = some text ∧
      ∀ body, readHeader (text ++ body) = (statusLine sampleThread 200,
        headerFields sampleThread (ascii "Monkey".toList) 1000000000 15 (headerBlock sampleCtx samplePage)
          [(ascii "X-Served-By".toList, ascii "sample".toList)], body) := by
  have hpage : samplePage.headers.OneLined [(ascii "X-Served-By".toList, ascii "sample".toList)] := by
    refine ⟨fun _ => (by decide : Time.InRange 999999999), ?_, ?_, rfl, fun row hrow => ?_, by decide⟩
    · intro location hlocation
      cases hlocation
    · exact fun _ => ⟨ascii "text/html".toList, by decide, by decide⟩
    rw [List.mem_singleton.mp hrow]
    exact ⟨by decide, by decide⟩
  exact (mkHeaderSendText_read sampleThread_ready hpage (Or.inl (by decide))).1

end Monkey
