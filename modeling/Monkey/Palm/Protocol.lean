import Monkey.Http.HeaderIov
import Monkey.Http.Itop
import Monkey.Lib.Tokens
import Monkey.Request.Headers

/-!
# Monkey.Palm.Protocol

`mk_palm_protocol_request_new`: the environment of a request as it goes to a Palm server,
four entries of one vector for each variable.

The buffer of a converted header has the length of its row, to which the prefix of the name
has to be added; lengths are kept in a `short`, and the rows of the table need more entries
than the vector has.

A variable is what stands in the vector, so nothing is copied but the converted names.  Left out
is how the vector is written to the socket.  A request is right when a reader gets each header
back as the variable that CGI has for it (`rowVariable`).
-/

namespace Monkey.Palm

/-! ## names of headers -/

/-- The prefix of a converted name. -/
def httpPrefix : Bytes := ascii "HTTP_".toList

/-- The headers that keep their name. -/
def keepsName (buf : Bytes) : Bool :=
  strncasecmp buf (ascii "Content-".toList) 8 || strncasecmp buf (ascii "Cookie-".toList) 7

/-- A character of a converted name. -/
def cgiChar (c : UInt8) : UInt8 := if c = 0x2d then 0x5f else toupper c

/-- The loop of `prot_header2cgi`: the buffer, and the position in the row where it ends. -/
def protHeader2cgiLoop (offset : Nat) : Bytes → Nat → Bytes → Option (Bytes × Nat)
  | [], i, dest => some (dest, i)
  | c :: buf, i, dest =>
      if c = 0x3a then (writeAt dest (offset + i) [0]).map (·, i)
      else (writeAt dest (offset + i) [cgiChar c]).bind (protHeader2cgiLoop offset buf (i + 1))

/-- `prot_header2cgi` of the first `len` bytes: the buffer and the length of the name.  There
is no result where it writes outside the buffer. -/
def protHeader2cgi (buf : Bytes) (len : Int) (dest : Bytes) : Option (Bytes × Nat) :=
  let offset := if keepsName buf then 0 else httpPrefix.length
  (if keepsName buf then some dest else writeAt dest 0 httpPrefix).bind fun dest =>
    (protHeader2cgiLoop offset (buf.take len.toNat) 0 dest).map fun (dest, i) => (dest, i + offset)

/-! ## the vector -/

/-- What goes wrong: a write outside the buffer of a row, a length below zero, and a `mk_bug`. -/
inductive PalmFault
  | rowBuffer
  | negativeLength
  | vector
deriving DecidableEq, Repr

/-- `mk_iov_add_entry` with its `int` length. -/
def iovAddEntry (iov : MkIov) (buf : Bytes) (len : Int) (sep : Bytes) : Except PalmFault MkIov :=
  if len < 0 then .error .negativeLength
  else (mkIovAddEntry iov (buf.take len.toNat) sep).elim (.error .vector) .ok

/-- `mk_iov_equal`. -/
def mkIovEqual : Bytes := [0x3d]

/-- `prot_add_header`. -/
def protAddHeader (iov : MkIov) (header : Bytes × Bytes) : Except PalmFault MkIov :=
  (iovAddEntry iov header.1 header.1.length mkIovEqual).bind fun iov =>
    iovAddEntry iov header.2 header.2.length mkIovCrlf

/-- The bytes of a row. -/
def rowText (row : HeaderTocRow) : Bytes := row.init.take row.len

/-- The length of a row as a `short int`. -/
def rowLength (row : HeaderTocRow) : Int := (row.len : Int).bmod (2 ^ 16)

/-- Just prefixed headers require the offset. -/
def prefixOffset (rowBuf : Bytes) : Nat :=
  if strncmp rowBuf httpPrefix httpPrefix.length then httpPrefix.length else 0

/-- One row of the table. -/
def protAddRow (junk : Nat → UInt8) (iov : MkIov) (row : HeaderTocRow) : Except PalmFault MkIov :=
  match protHeader2cgi row.init (rowLength row) (newBuffer junk (rowLength row + 1).toNat) with
  | none => .error .rowBuffer
  | some (rowBuf, rowLen) =>
      (iovAddEntry iov rowBuf rowLen mkIovEqual).bind fun iov =>
        iovAddEntry iov (row.init.drop (rowLen - prefixOffset rowBuf + 2))
          (rowLength row - (rowLen - prefixOffset rowBuf) - 2) mkIovCrlf

/-! ## the request -/

/-- What the request takes from elsewhere: the configuration, the alias of the host, the
name of the method, and the address of the client, if it can be formatted. -/
structure PalmEnv where
  serverPort : Int
  serverName : Bytes
  methodP : Bytes
  remoteAddr : Option Bytes
  remotePort : Int

/-- The variables before the headers of the client. -/
def headersBefore (env : PalmEnv) (sr : SessionRequest) : List (Bytes × Bytes) :=
  [(ascii "DOCUMENT_ROOT".toList, sr.hostConf.documentroot)] ++
  (if sr.method = .post ∧ 0 ≤ sr.contentLength then
    [(ascii "CONTENT_LENGTH".toList, decimalInt (toInt sr.contentLength))] else []) ++
  (if 0 < sr.headers.contentType.length then [(ascii "CONTENT_TYPE".toList, sr.headers.contentType)] else []) ++
  [(ascii "SERVER_PORT".toList, decimalInt (toInt env.serverPort)),
    (ascii "SERVER_NAME".toList, env.serverName),
    (ascii "SERVER_PROTOCOL".toList, ascii "HTTP/1.1".toList),
    (ascii "SERVER_SIGNATURE".toList, (ascii "Server: ".toList ++ sr.hostConf.hostSignature).drop 8)]

/-- `REQUEST_URI`: with a query string, as much of the request as the two take. -/
def requestUri (sr : SessionRequest) : Bytes :=
  (sr.uri.data.getD []).take
    (if 0 < sr.queryString.len then sr.uri.len + sr.queryString.len + 1 else sr.uri.len)

/-- The variables behind them. -/
def headersAfter (env : PalmEnv) (sr : SessionRequest) (ip : Bytes) : List (Bytes × Bytes) :=
  [(ascii "REMOTE_ADDR".toList, ip),
    (ascii "REMOTE_PORT".toList, decimalInt (toInt env.remotePort)),
    (ascii "GATEWAY_INTERFACE".toList, ascii "CGI/1.1".toList),
    (ascii "REQUEST_URI".toList, requestUri sr),
    (ascii "REQUEST_METHOD".toList, env.methodP),
    (ascii "SCRIPT_NAME".toList, sr.uri.text),
    (ascii "SCRIPT_FILENAME".toList, sr.realPath)] ++
  (if 0 < sr.queryString.len then [(ascii "QUERY_STRING".toList, sr.queryString.text)] else []) ++
  (if 0 < sr.contentLength ∧ 0 < sr.data.len then [(ascii "POST_VARS".toList, sr.data.text)] else [])

/-- The size of the vector of the thread (`mk_palm_protocol_thread_init`). -/
def requestIovSize : Nat := 128

/-- `mk_iov_crlfcrlf`. -/
def mkIovCrlfcrlf : Bytes := mkIovCrlf ++ mkIovCrlf

/-- `mk_palm_protocol_request_new`: the vector, or `NULL` where the address of the client cannot
be formatted. -/
def mkPalmProtocolRequestNew (junk : Nat → UInt8) (env : PalmEnv) (sr : SessionRequest) :
    Except PalmFault (Option MkIov) :=
  ((headersBefore env sr).foldlM protAddHeader { size := requestIovSize }).bind fun iov =>
    (sr.headersToc.foldlM (protAddRow junk) iov).bind fun iov =>
      match env.remoteAddr with
      | none => .ok none
      | some ip =>
          ((headersAfter env sr ip).foldlM protAddHeader iov).bind fun iov =>
            (iovAddEntry iov mkIovCrlfcrlf mkIovCrlfcrlf.length []).map some

/-! ## rows as they should be -/

/-- The name of a row: what comes before its colon. -/
def rowName (text : Bytes) : Bytes := text.takeWhile (· ≠ 0x3a)

/-- The value of a row: what comes behind the colon and the blank. -/
def rowValue (text : Bytes) : Bytes := text.drop ((rowName text).length + 2)

/-- The name as a CGI variable. -/
def cgiName (name : Bytes) : Bytes := (if keepsName name then [] else httpPrefix) ++ name.map cgiChar

/-- The entries of a variable. -/
def variableEntries (header : Bytes × Bytes) : List Bytes := [header.1, mkIovEqual, header.2, mkIovCrlf]

/-- The variable of a row. -/
def rowVariable (text : Bytes) : Bytes × Bytes := (cgiName (rowName text), rowValue text)

/-- A row is a name, a colon and a blank, and a value. -/
def IsHeaderRow (text : Bytes) : Prop := text = rowName text ++ 0x3a :: 0x20 :: rowValue text

/-- The part of a row that its length as a `short` leaves. -/
def visibleText (row : HeaderTocRow) : Bytes := row.init.take (rowLength row).toNat

/-- The row has its colon and one byte behind it, and three more where the name is prefixed. -/
def RowFits (text : Bytes) : Prop :=
  (rowName text).length + (if keepsName (rowName text) then 2 else 5) ≤ text.length

instance (text : Bytes) : Decidable (IsHeaderRow text) := inferInstanceAs (Decidable (_ = _))

instance (text : Bytes) : Decidable (RowFits text) := inferInstanceAs (Decidable (_ ≤ _))

/-! ## writing a name -/

theorem writeAt_nil {block : Bytes} {i : Nat} (h : i ≤ block.length) : writeAt block i [] = some block := by
  rw [writeAt_of_le (by simpa using h), fillAt, List.append_nil, List.length_nil, Nat.add_zero,
    List.take_append_drop]

/-- Bytes written in two steps. -/
theorem writeAt_bind (block : Bytes) (i : Nat) (bs cs : Bytes) :
    ((writeAt block i bs).bind fun block => writeAt block (i + bs.length) cs) = writeAt block i (bs ++ cs) := by
  cases hw : writeAt block i bs with
  | some block' => exact writeAt_append hw
  | none =>
      have hlong : ¬ i + bs.length ≤ block.length := fun h => by rw [writeAt_of_le h] at hw; contradiction
      refine (if_neg ?_).symm
      rw [List.length_append]
      omega

/-- A name that ends at a colon. -/
theorem protHeader2cgiLoop_colon {name : Bytes} (hname : 0x3a ∉ name) (s : Bytes) (offset i : Nat) (dest : Bytes) :
    protHeader2cgiLoop offset (name ++ 0x3a :: s) i dest =
      (writeAt dest (offset + i) (name.map cgiChar ++ [0])).map (·, i + name.length) := by
  induction name generalizing i dest with
  | nil => rfl
  | cons c name ih =>
      obtain ⟨hc, hname⟩ := not_or.mp fun h => hname (List.mem_cons.mpr h)
      have hnext : ∀ dest, protHeader2cgiLoop offset (name ++ 0x3a :: s) (i + 1) dest =
          (writeAt dest (offset + i + [cgiChar c].length) (name.map cgiChar ++ [0])).map
            (·, i + (c :: name).length) := by
        intro dest
        rw [ih hname, List.length_singleton, List.length_cons]
        congr 1
        funext dest
        congr 1
        omega
      have hsplit : writeAt dest (offset + i) ((c :: name).map cgiChar ++ [0]) = _ :=
        (writeAt_bind dest (offset + i) [cgiChar c] (name.map cgiChar ++ [0])).symm
      rw [List.cons_append, protHeader2cgiLoop, if_neg (Ne.symm hc), funext hnext, hsplit, Option.map_bind]
      rfl

/-- A row without a colon. -/
theorem protHeader2cgiLoop_none {text : Bytes} (htext : 0x3a ∉ text) (offset i : Nat) {dest : Bytes}
    (hi : offset + i ≤ dest.length) :
    protHeader2cgiLoop offset text i dest =
      (writeAt dest (offset + i) (text.map cgiChar)).map (·, i + text.length) := by
  induction text generalizing i dest with
  | nil =>
      rw [List.map_nil, writeAt_nil hi]
      rfl
  | cons c text ih =>
      obtain ⟨hc, htext⟩ := not_or.mp fun h => htext (List.mem_cons.mpr h)
      have hsplit : writeAt dest (offset + i) ((c :: text).map cgiChar) = _ :=
        (writeAt_bind dest (offset + i) [cgiChar c] (text.map cgiChar)).symm
      rw [protHeader2cgiLoop, if_neg (Ne.symm hc), hsplit, Option.map_bind]
      cases hw : writeAt dest (offset + i) [cgiChar c] with
      | none => rfl
      | some dest' =>
          obtain ⟨hle, rfl⟩ := writeAt_eq_some hw
          have hlen := length_fillAt hle
          rw [List.length_singleton] at hle
          rw [Option.bind_some, Option.bind_some, ih htext (i + 1) (by omega), List.length_cons]
          congr 1
          funext dest
          congr 1
          omega

theorem rowName_append {name : Bytes} (hname : 0x3a ∉ name) (s : Bytes) : rowName (name ++ 0x3a :: s) = name := by
  rw [rowName, List.takeWhile_append_of_pos]
  · simp
  · intro c hc
    have hne : c ≠ 0x3a := by
      rintro rfl
      exact hname hc
    simpa using hne

/-- The first colon of a text. -/
theorem rowName_colon {text : Bytes} (h : 0x3a ∈ text) :
    ∃ s, text = rowName text ++ 0x3a :: s ∧ 0x3a ∉ rowName text := by
  obtain ⟨u, w, rfl, hu⟩ := List.eq_append_cons_of_mem h
  rw [rowName_append hu]
  exact ⟨w, rfl, hu⟩

theorem rowName_of_notMem {text : Bytes} (h : 0x3a ∉ text) : rowName text = text := by
  rw [rowName, List.takeWhile_eq_self_iff]
  intro c hc
  have hne : c ≠ 0x3a := by
    rintro rfl
    exact h hc
  simpa using hne

/-- What a text starts with, without its colon. -/
theorem isPrefix_before {u name : Bytes} {x : UInt8} (hu : x ∉ u) (s : Bytes) :
    u <+: name ++ x :: s ↔ u <+: name := by
  constructor
  · intro h
    by_cases hlen : u.length ≤ name.length
    · exact List.prefix_of_prefix_length_le h (List.prefix_append _ _) hlen
    · have hshort : name ++ [x] <+: u := by
        refine List.prefix_of_prefix_length_le ?_ h (by rw [List.length_append, List.length_singleton]; omega)
        exact ⟨s, by simp⟩
      exact absurd (hshort.subset (List.mem_append_right _ List.mem_cons_self)) hu
  · exact fun h => h.trans (List.prefix_append _ _)

/-- The test for the headers that keep their name ends before the colon. -/
theorem keepsName_colon (name s : Bytes) : keepsName (name ++ 0x3a :: s) = keepsName name := by
  have hcase : ∀ t : Bytes, 0 ∉ t → 0x3a ∉ t.map toupper →
      strncasecmp (name ++ 0x3a :: s) t t.length = strncasecmp name t t.length := by
    intro t h0 hcolon
    rw [Bool.eq_iff_iff, strncasecmp_iff_isPrefix h0, strncasecmp_iff_isPrefix h0, List.map_append, List.map_cons]
    exact isPrefix_before hcolon _
  unfold keepsName
  rw [show (8 : Nat) = (ascii "Content-".toList).length from rfl, show (7 : Nat) = (ascii "Cookie-".toList).length from rfl,
    hcase _ (by decide) (by decide), hcase _ (by decide) (by decide)]

/-- **The name of a row** is written at once, with a NUL behind it. -/
theorem protHeader2cgi_colon (buf : Bytes) (len : Int) {name s : Bytes} (hvisible : buf.take len.toNat = name ++ 0x3a :: s)
    (hname : 0x3a ∉ name) (dest : Bytes) :
    protHeader2cgi buf len dest = (writeAt dest 0 (cgiName name ++ [0])).map (·, (cgiName name).length) := by
  have hkeeps : keepsName buf = keepsName name := by
    rw [← List.take_append_drop len.toNat buf, hvisible, List.append_assoc, List.cons_append, keepsName_colon]
  unfold protHeader2cgi cgiName
  rw [hkeeps, hvisible]
  cases keepsName name with
  | true =>
      simp only [if_true, Option.bind_some]
      rw [protHeader2cgiLoop_colon hname, Option.map_map]
      simp [Function.comp_def]
  | false =>
      have hsplit := writeAt_bind dest 0 httpPrefix (name.map cgiChar ++ [0])
      simp only [Bool.false_eq_true, if_false]
      rw [List.append_assoc, ← hsplit, Option.map_bind]
      congr 1
      funext dest
      rw [protHeader2cgiLoop_colon hname, Option.map_map]
      simp [Function.comp_def, Nat.add_comm]

/-- A row without a colon has no room for a prefix. -/
theorem protHeader2cgi_none {buf : Bytes} {len : Int} (hvisible : 0x3a ∉ buf.take len.toNat)
    (hkeeps : keepsName buf = false) {dest : Bytes} (hdest : dest.length ≤ (buf.take len.toNat).length + 1) :
    protHeader2cgi buf len dest = none := by
  have hprefix : httpPrefix.length = 5 := rfl
  unfold protHeader2cgi
  simp only [hkeeps, Bool.false_eq_true, if_false]
  cases hw : writeAt dest 0 httpPrefix with
  | none => rfl
  | some dest' =>
      obtain ⟨hle, rfl⟩ := writeAt_eq_some hw
      have hlen := length_fillAt hle
      have hlong : ¬ httpPrefix.length + 0 + ((buf.take len.toNat).map cgiChar).length ≤
          (fillAt dest 0 httpPrefix).length := by
        rw [List.length_map]
        omega
      rw [Option.bind_some, protHeader2cgiLoop_none hvisible _ _ (by omega), writeAt, if_neg hlong]
      rfl

/-- Without a prefix it is copied as it is. -/
theorem protHeader2cgi_keeps {buf : Bytes} {len : Int} (hvisible : 0x3a ∉ buf.take len.toNat)
    (hkeeps : keepsName buf = true) {dest : Bytes} :
    protHeader2cgi buf len dest =
      (writeAt dest 0 ((buf.take len.toNat).map cgiChar)).map (·, (buf.take len.toNat).length) := by
  unfold protHeader2cgi
  simp only [hkeeps, if_true, Option.bind_some]
  rw [protHeader2cgiLoop_none hvisible _ _ (Nat.zero_le _), Option.map_map]
  simp [Function.comp_def]

/-- A name that is kept does not start like the prefix. -/
theorem prefixOffset_of_keepsName {buf text s : Bytes} (hkeeps : keepsName buf = true) (htext : text <+: buf)
    (hshort : text = [] → s.length < httpPrefix.length) :
    prefixOffset (text.map cgiChar ++ s) = 0 := by
  refine if_neg fun hmatch => ?_
  have hpre := (strncmp_iff_isPrefix (by decide)).mp hmatch
  cases text with
  | nil =>
      have := hpre.length_le
      have := hshort rfl
      simp only [List.map_nil, List.nil_append] at *
      omega
  | cons c text =>
      obtain ⟨w, rfl⟩ := htext
      -- the first letter is a C
      have hfirst : toupper c = 0x43 := by
        unfold keepsName at hkeeps
        rw [Bool.or_eq_true] at hkeeps
        rcases hkeeps with h | h
        · exact (List.cons_prefix_cons.mp ((@strncasecmp_iff_isPrefix _ (ascii "Content-".toList) (by decide)).mp h)).1.symm
        · exact (List.cons_prefix_cons.mp ((@strncasecmp_iff_isPrefix _ (ascii "Cookie-".toList) (by decide)).mp h)).1.symm
      have hhttp : cgiChar c = 0x48 := (List.cons_prefix_cons.mp hpre).1.symm
      unfold cgiChar at hhttp
      split at hhttp
      · contradiction
      · rw [hfirst] at hhttp
        contradiction

/-! ## adding a row -/

theorem iovAddEntry_eq {buf text : Bytes} {n : Nat} (htake : buf.take n = text) (hlen : text.length = n) (iov : MkIov)
    (sep : Bytes) : iovAddEntry iov buf n sep = iovAddEntry iov text text.length sep := by
  unfold iovAddEntry
  rw [if_neg (by omega), if_neg (by omega), Int.toNat_natCast, Int.toNat_natCast, htake, List.take_length]

theorem iovAddEntry_negative {n : Int} (hn : n < 0) (iov : MkIov) (buf sep : Bytes) :
    iovAddEntry iov buf n sep = .error .negativeLength := if_pos hn

theorem RowFits.colon_mem {text : Bytes} (hfit : RowFits text) : 0x3a ∈ text := by
  by_contra hno
  rw [RowFits, rowName_of_notMem hno] at hfit
  split at hfit <;> omega

theorem rowLength_eq_iff (row : HeaderTocRow) : rowLength row = row.len ↔ row.len < 2 ^ 15 := by
  unfold rowLength
  constructor
  · intro h
    have := @Int.bmod_lt row.len (2 ^ 16) (by decide)
    omega
  · exact fun h => Int.bmod_eq_of_le (by omega) (by omega)

theorem rowLength_le (row : HeaderTocRow) : rowLength row ≤ row.len := by
  by_cases hsmall : row.len < 2 ^ 15
  · exact ((rowLength_eq_iff row).mpr hsmall).le
  · have := @Int.bmod_lt row.len (2 ^ 16) (by decide)
    unfold rowLength
    omega

section row

variable {row : HeaderTocRow} (hrow : row.len ≤ row.init.length)

include hrow in
theorem length_visibleText : (visibleText row).length = (rowLength row).toNat := by
  have hle := rowLength_le row
  exact List.length_take_of_le (by omega)

include hrow in
/-- **A row that fits** is added like any other variable. -/
theorem protAddRow_of_fits (hfit : RowFits (visibleText row)) (junk : Nat → UInt8) (iov : MkIov) :
    protAddRow junk iov row = protAddHeader iov (rowVariable (visibleText row)) := by
  have hlen := length_visibleText hrow
  have hcolon := hfit.colon_mem
  obtain ⟨s, hvisible, hname⟩ := rowName_colon hcolon
  obtain ⟨n, hn⟩ : ∃ n : Nat, rowLength row = n := by
    refine ⟨_, (Int.toNat_of_nonneg ?_).symm⟩
    by_contra hneg
    rw [Int.toNat_of_nonpos (by omega)] at hlen
    exact List.ne_nil_of_mem hcolon (List.eq_nil_of_length_eq_zero hlen)
  rw [hn, Int.toNat_natCast] at hlen
  obtain ⟨name, hrowName⟩ : ∃ name, rowName (visibleText row) = name := ⟨_, rfl⟩
  rw [RowFits, hrowName, hlen] at hfit
  rw [hrowName] at hvisible hname
  have hprefix : httpPrefix.length = 5 := rfl
  have hroom : (cgiName name ++ [0]).length ≤ (newBuffer junk (n + 1)).length := by
    rw [length_newBuffer, cgiName, List.length_append, List.length_append, List.length_map, List.length_singleton]
    split at hfit
    · next hkeeps => rw [if_pos hkeeps, List.length_nil]; omega
    · next hkeeps => rw [if_neg hkeeps]; omega
  have htake : row.init.take (n : Int).toNat = name ++ 0x3a :: s := by
    rw [← hvisible, visibleText, hn]
  unfold protAddRow
  simp only [hn]
  rw [protHeader2cgi_colon _ _ htake hname, show ((n : Int) + 1).toNat = n + 1 by omega, writeAt_front hroom,
    Option.map_some]
  dsimp only
  generalize hdest : cgiName name ++ [0] ++ (newBuffer junk (n + 1)).drop (cgiName name ++ [0]).length = dest
  have hoffset : prefixOffset dest + name.length = (cgiName name).length := by
    rw [← hdest, List.append_assoc]
    unfold cgiName
    by_cases hkeeps : keepsName name = true
    · have hno := prefixOffset_of_keepsName hkeeps List.prefix_rfl (s := [0] ++ (newBuffer junk (n + 1)).drop
        (name.map cgiChar ++ [0]).length) (by rintro rfl; exact absurd hkeeps (by decide))
      rw [if_pos hkeeps, List.nil_append, hno, Nat.zero_add, List.length_map]
    · have hyes := (@strncmp_iff_isPrefix (httpPrefix ++ (name.map cgiChar ++ ([0] ++ (newBuffer junk (n + 1)).drop
        (httpPrefix ++ name.map cgiChar ++ [0]).length))) httpPrefix (by decide)).mpr (List.prefix_append _ _)
      rw [if_neg hkeeps, List.append_assoc, prefixOffset, if_pos hyes, List.length_append, List.length_map]
  have hname' : dest.take (cgiName name).length = cgiName name := by
    rw [← hdest, List.append_assoc, List.take_left]
  have hvalue : (row.init.drop (name.length + 2)).take (n - name.length - 2) = rowValue (visibleText row) := by
    rw [rowValue, hrowName, visibleText, hn, Int.toNat_natCast, List.drop_take, Nat.sub_sub]
  have hvalueLen : (rowValue (visibleText row)).length = n - name.length - 2 := by
    rw [rowValue, hrowName, List.length_drop, hlen, Nat.sub_sub]
  rw [iovAddEntry_eq hname' rfl, protAddHeader, rowVariable, hrowName]
  refine congrArg (Except.bind _) (funext fun iov => ?_)
  dsimp only
  rw [← iovAddEntry_eq hvalue hvalueLen]
  have hdrop : (cgiName name).length - prefixOffset dest = name.length := by omega
  have hrest : (n : Int) - (((cgiName name).length : Int) - (prefixOffset dest : Int)) - 2 =
      ((n - name.length - 2 : Nat) : Int) := by
    have htwo : name.length + 2 ≤ n := by split at hfit <;> omega
    omega
  rw [hdrop, hrest]

/-- The value of a row goes wrong where its length is below zero. -/
theorem protAddRow_negative {junk : Nat → UInt8} {iov : MkIov} {dest : Bytes} {k : Nat}
    (hdest : protHeader2cgi row.init (rowLength row) (newBuffer junk (rowLength row + 1).toNat) = some (dest, k))
    (hoffset : prefixOffset dest = 0) (hshort : rowLength row < k + 2) :
    ∃ fault, protAddRow junk iov row = .error fault := by
  unfold protAddRow
  rw [hdest]
  have hvalue : ∀ iov, iovAddEntry iov (row.init.drop (k - prefixOffset dest + 2))
      (rowLength row - (k - prefixOffset dest) - 2) mkIovCrlf = .error .negativeLength :=
    fun iov => iovAddEntry_negative (by rw [hoffset]; omega) _ _ _
  simp only [hvalue]
  cases iovAddEntry iov dest k mkIovEqual with
  | error fault => exact ⟨fault, rfl⟩
  | ok iov' => exact ⟨.negativeLength, rfl⟩

include hrow in
/-- **A row that does not fit** goes wrong. -/
theorem protAddRow_of_not_fits (hfit : ¬ RowFits (visibleText row)) (junk : Nat → UInt8) (iov : MkIov) :
    ∃ fault, protAddRow junk iov row = .error fault := by
  have hlen := length_visibleText hrow
  have hdestLen : (newBuffer junk (rowLength row + 1).toNat).length ≤ (visibleText row).length + 1 := by
    rw [length_newBuffer, hlen]
    omega
  have hprefix : httpPrefix.length = 5 := rfl
  by_cases hcolon : 0x3a ∈ visibleText row
  · obtain ⟨s, hvisible, hname⟩ := rowName_colon hcolon
    have hnewLen : (newBuffer junk (rowLength row + 1).toNat).length = (visibleText row).length + 1 := by
      have := List.length_pos_of_mem hcolon
      rw [length_newBuffer, hlen]
      omega
    have hcgi := protHeader2cgi_colon row.init (rowLength row) hvisible hname
      (newBuffer junk (rowLength row + 1).toNat)
    have hnameLen : (rowName (visibleText row)).length < (visibleText row).length := by
      have hcount := congrArg List.length hvisible
      rw [List.length_append, List.length_cons] at hcount
      omega
    rw [RowFits] at hfit
    by_cases hkeeps : keepsName (rowName (visibleText row)) = true
    · rw [if_pos hkeeps] at hfit
      have hname' : cgiName (rowName (visibleText row)) = (rowName (visibleText row)).map cgiChar := by
        rw [cgiName, if_pos hkeeps, List.nil_append]
      rw [hname', writeAt_front (by simp; omega), Option.map_some] at hcgi
      refine protAddRow_negative hcgi ?_ (by rw [List.length_map]; omega)
      rw [List.append_assoc]
      exact prefixOffset_of_keepsName hkeeps List.prefix_rfl fun hnil => by
        rw [hnil] at hkeeps
        exact absurd hkeeps (by decide)
    · rw [if_neg hkeeps] at hfit
      have hlong : ¬ 0 + (cgiName (rowName (visibleText row)) ++ [0]).length ≤
          (newBuffer junk (rowLength row + 1).toNat).length := by
        rw [cgiName, if_neg hkeeps, List.length_append, List.length_append, List.length_map, List.length_singleton]
        omega
      rw [writeAt, if_neg hlong, Option.map_none] at hcgi
      unfold protAddRow
      rw [hcgi]
      exact ⟨_, rfl⟩
  · cases hkeeps : keepsName row.init with
    | false =>
        unfold protAddRow
        rw [protHeader2cgi_none hcolon hkeeps hdestLen]
        exact ⟨_, rfl⟩
    | true =>
        have hroom : ((visibleText row).map cgiChar).length ≤ (newBuffer junk (rowLength row + 1).toNat).length := by
          rw [List.length_map, length_newBuffer, hlen]
          omega
        have hcgi := @protHeader2cgi_keeps row.init (rowLength row) hcolon hkeeps
          (newBuffer junk (rowLength row + 1).toNat)
        rw [← visibleText, writeAt_front hroom, Option.map_some] at hcgi
        refine protAddRow_negative hcgi (prefixOffset_of_keepsName hkeeps (List.take_prefix _ _) fun hnil => ?_)
          (by omega)
        rw [hnil, List.length_nil] at hdestLen
        rw [List.length_drop]
        omega

end row

/-! ## the vector of a request -/

/-- A variable takes four entries. -/
theorem protAddHeader_eq (iov : MkIov) (header : Bytes × Bytes) :
    protAddHeader iov header =
      if iov.io.length + 4 ≤ iov.size then .ok { iov with io := iov.io ++ variableEntries header }
      else .error .vector := by
  have hadd : ∀ (iov : MkIov) (buf sep : Bytes), 0 < sep.length → iovAddEntry iov buf buf.length sep =
      if iov.io.length + 2 ≤ iov.size then .ok { iov with io := iov.io ++ [buf, sep] } else .error .vector := by
    intro iov buf sep hsep
    unfold iovAddEntry mkIovAddEntry
    rw [if_neg (by omega), if_pos hsep, Int.toNat_natCast, List.take_length]
    simp only [List.length_append, List.length_cons, List.length_nil]
    split <;> rfl
  unfold protAddHeader
  rw [hadd _ _ _ (by decide)]
  by_cases htwo : iov.io.length + 2 ≤ iov.size
  · rw [if_pos htwo]
    show iovAddEntry _ _ _ _ = _
    rw [hadd _ _ _ (by decide)]
    simp only [List.length_append, List.length_cons, List.length_nil, variableEntries, List.append_assoc,
      List.cons_append, List.nil_append]
  · rw [if_neg htwo, if_neg (by omega)]
    rfl

/-- Variables one after the other. -/
theorem foldlM_protAddHeader (headers : List (Bytes × Bytes)) (iov : MkIov) (hio : iov.io.length ≤ iov.size) :
    headers.foldlM protAddHeader iov =
      if iov.io.length + 4 * headers.length ≤ iov.size then
        .ok { iov with io := iov.io ++ headers.flatMap variableEntries }
      else .error .vector := by
  induction headers generalizing iov with
  | nil =>
      rw [List.length_nil, if_pos (by omega), List.flatMap_nil, List.append_nil]
      rfl
  | cons header headers ih =>
      rw [List.foldlM_cons, protAddHeader_eq, List.length_cons]
      by_cases hfour : iov.io.length + 4 ≤ iov.size
      · have hlen : (iov.io ++ variableEntries header).length = iov.io.length + 4 := List.length_append
        rw [if_pos hfour]
        refine (ih _ (by show (iov.io ++ _).length ≤ iov.size; omega)).trans ?_
        rw [hlen, show iov.io.length + 4 + 4 * headers.length = iov.io.length + 4 * (headers.length + 1) by ring,
          List.append_assoc, ← List.flatMap_cons]
      · rw [if_neg hfour, if_neg (by omega)]
        rfl

/-- **The rows of the table**: all of them fit, and so does what they add. -/
theorem foldlM_protAddRow {junk : Nat → UInt8} {rows : List HeaderTocRow}
    (hrows : ∀ row ∈ rows, row.len ≤ row.init.length) {iov iov' : MkIov} (hio : iov.io.length ≤ iov.size) :
    rows.foldlM (protAddRow junk) iov = .ok iov' ↔
      (∀ row ∈ rows, RowFits (visibleText row)) ∧ iov.io.length + 4 * rows.length ≤ iov.size ∧
        iov' = { iov with io := iov.io ++ (rows.map fun row => rowVariable (visibleText row)).flatMap variableEntries } := by
  by_cases hfit : ∀ row ∈ rows, RowFits (visibleText row)
  · have hsame : ∀ iov, rows.foldlM (protAddRow junk) iov =
        (rows.map fun row => rowVariable (visibleText row)).foldlM protAddHeader iov := by
      clear hio
      induction rows with
      | nil => exact fun _ => rfl
      | cons row rows ih =>
          obtain ⟨hrow, hrows⟩ := List.forall_mem_cons.mp hrows
          obtain ⟨hfirst, hfit⟩ := List.forall_mem_cons.mp hfit
          intro iov
          rw [List.foldlM_cons, List.map_cons, List.foldlM_cons, protAddRow_of_fits hrow hfirst,
            funext (ih hrows hfit)]
    rw [hsame, foldlM_protAddHeader _ _ hio, List.length_map, and_iff_right hfit]
    by_cases hroom : iov.io.length + 4 * rows.length ≤ iov.size
    · rw [if_pos hroom, and_iff_right hroom, Except.ok.injEq, eq_comm]
    · rw [if_neg hroom]
      simp [hroom]
  · refine iff_of_false (fun hok => hfit ?_) fun h => hfit h.1
    clear hfit hio
    induction rows generalizing iov with
    | nil => simp
    | cons row rows ih =>
        obtain ⟨hrow, hrows⟩ := List.forall_mem_cons.mp hrows
        have hfirst : RowFits (visibleText row) := by
          by_contra hno
          obtain ⟨fault, hfault⟩ := protAddRow_of_not_fits hrow hno junk iov
          simp [List.foldlM_cons, hfault, bind, Except.bind] at hok
        rw [List.foldlM_cons] at hok
        cases hstep : protAddRow junk iov row with
        | error fault =>
            simp [hstep, bind, Except.bind] at hok
        | ok iov₁ =>
            rw [hstep] at hok
            exact List.forall_mem_cons.mpr ⟨hfirst, ih hrows hok⟩

/-- The entries that a request needs. -/
def entryCount (env : PalmEnv) (sr : SessionRequest) : Nat :=
  4 * ((headersBefore env sr).length + sr.headersToc.length) +
    env.remoteAddr.elim 0 fun ip => 4 * (headersAfter env sr ip).length + 1

/-- The entries of a request, with the texts of its rows. -/
def requestEntries (env : PalmEnv) (sr : SessionRequest) (ip : Bytes) (texts : List Bytes) : List Bytes :=
  (headersBefore env sr ++ texts.map rowVariable ++ headersAfter env sr ip).flatMap variableEntries ++
    [mkIovCrlfcrlf]

theorem bind_eq_ok {α β : Type} {x : Except PalmFault α} {f : α → Except PalmFault β} {b : β} :
    x.bind f = .ok b ↔ ∃ a, x = .ok a ∧ f a = .ok b := by
  cases x with
  | error fault => simp [Except.bind]
  | ok a => simp [Except.bind]

/-- There is always room for the variables before the rows. -/
theorem length_headersBefore (env : PalmEnv) (sr : SessionRequest) : (headersBefore env sr).length ≤ 7 := by
  unfold headersBefore
  split
  all_goals
    split
    all_goals simp

theorem length_flatMap_variableEntries (headers : List (Bytes × Bytes)) :
    (headers.flatMap variableEntries).length = 4 * headers.length := by
  induction headers with
  | nil => rfl
  | cons header headers ih =>
      rw [List.flatMap_cons, List.length_append, ih, List.length_cons]
      show 4 + 4 * headers.length = _
      ring

/-- The last entry has no separator. -/
theorem iovAddEntry_last (iov : MkIov) (text : Bytes) :
    iovAddEntry iov text text.length [] =
      if iov.io.length + 1 ≤ iov.size then .ok { iov with io := iov.io ++ [text] } else .error .vector := by
  unfold iovAddEntry mkIovAddEntry
  rw [if_neg (by omega), Int.toNat_natCast, List.take_length]
  simp only [List.length_nil, Nat.lt_irrefl, if_false, List.length_append, List.length_singleton]
  split
  · rfl
  · rfl

/-- What comes behind the rows. -/
theorem addLast_ok_iff (headers : List (Bytes × Bytes)) {iov : MkIov} (hio : iov.io.length ≤ iov.size)
    {r : Option MkIov} :
    ((headers.foldlM protAddHeader iov).bind fun iov =>
        (iovAddEntry iov mkIovCrlfcrlf mkIovCrlfcrlf.length []).map some) = .ok r ↔
      iov.io.length + (4 * headers.length + 1) ≤ iov.size ∧
        r = some { iov with io := iov.io ++ headers.flatMap variableEntries ++ [mkIovCrlfcrlf] } := by
  rw [foldlM_protAddHeader _ _ hio]
  by_cases hroom : iov.io.length + 4 * headers.length ≤ iov.size
  · rw [if_pos hroom]
    show (iovAddEntry _ _ _ _).map some = _ ↔ _
    rw [iovAddEntry_last, List.length_append, length_flatMap_variableEntries, ← Nat.add_assoc]
    by_cases hlast : iov.io.length + 4 * headers.length + 1 ≤ iov.size
    · rw [if_pos hlast, and_iff_right hlast]
      show Except.ok _ = Except.ok r ↔ _
      rw [Except.ok.injEq, eq_comm]
    · rw [if_neg hlast]
      exact iff_of_false (fun h => by simp [Except.map] at h) fun h => hlast h.1
  · rw [if_neg hroom]
    exact iff_of_false (fun h => by simp [Except.bind] at h) fun h => hroom (by omega)

/-- **What a request becomes**, if nothing goes wrong. -/
theorem mkPalmProtocolRequestNew_ok_iff {junk : Nat → UInt8} {env : PalmEnv} {sr : SessionRequest}
    (hrows : ∀ row ∈ sr.headersToc, row.len ≤ row.init.length) {r : Option MkIov} :
    mkPalmProtocolRequestNew junk env sr = .ok r ↔
      (∀ row ∈ sr.headersToc, RowFits (visibleText row)) ∧ entryCount env sr ≤ requestIovSize ∧
        r = env.remoteAddr.map fun ip =>
          { io := requestEntries env sr ip (sr.headersToc.map visibleText), size := requestIovSize } := by
  have hbefore := length_headersBefore env sr
  have hsize : requestIovSize = 128 := rfl
  have hentries := length_flatMap_variableEntries (headersBefore env sr)
  have hio : (⟨(headersBefore env sr).flatMap variableEntries, requestIovSize⟩ : MkIov).io.length ≤ requestIovSize := by
    show ((headersBefore env sr).flatMap variableEntries).length ≤ _
    omega
  unfold mkPalmProtocolRequestNew entryCount requestEntries
  rw [foldlM_protAddHeader _ _ (Nat.zero_le _), if_pos (by show 0 + _ ≤ requestIovSize; omega), bind_eq_ok]
  simp only [Except.ok.injEq, exists_eq_left', List.nil_append]
  rw [bind_eq_ok]
  simp only [foldlM_protAddRow hrows hio, hentries]
  cases env.remoteAddr with
  | none =>
      constructor
      · rintro ⟨iov, ⟨hfit, hroom, rfl⟩, hr⟩
        exact ⟨hfit, by rw [Option.elim_none]; omega, (Except.ok.inj hr).symm⟩
      · rintro ⟨hfit, hroom, rfl⟩
        rw [Option.elim_none] at hroom
        exact ⟨_, ⟨hfit, by omega, rfl⟩, rfl⟩
  | some ip =>
      have hlen : ∀ rows : List (Bytes × Bytes),
          ((headersBefore env sr).flatMap variableEntries ++ rows.flatMap variableEntries).length =
            4 * (headersBefore env sr).length + 4 * rows.length := by
        intro rows
        rw [List.length_append, length_flatMap_variableEntries, length_flatMap_variableEntries]
      have hshape : (sr.headersToc.map visibleText).map rowVariable =
          sr.headersToc.map fun row => rowVariable (visibleText row) := List.map_map
      simp only [Option.elim_some, Option.map_some, List.flatMap_append, hshape]
      constructor
      · rintro ⟨iov, ⟨hfit, hroom, rfl⟩, hr⟩
        rw [addLast_ok_iff _ (by rw [hlen, List.length_map]; exact hroom), hlen, List.length_map] at hr
        dsimp only at hr
        exact ⟨hfit, by omega, hr.2⟩
      · rintro ⟨hfit, hroom, rfl⟩
        refine ⟨_, ⟨hfit, by omega, rfl⟩, ?_⟩
        rw [addLast_ok_iff _ (by rw [hlen, List.length_map]; dsimp only; omega), hlen, List.length_map]
        dsimp only
        exact ⟨by omega, rfl⟩

/-! ## requests that are passed on as they are -/

/-- The rows of an emitted request are its variables: each is a name and a value, and the
vector has the converted name and the value. -/
def EmitsRows (env : PalmEnv) (sr : SessionRequest) (iov : MkIov) : Prop :=
  (∀ row ∈ sr.headersToc, IsHeaderRow (rowText row)) ∧
    ∃ ip, env.remoteAddr = some ip ∧ iov.io = requestEntries env sr ip (sr.headersToc.map rowText)

/-- The request fits: every row as far as a `short` goes, and all variables in the vector.  If
the request is not given up, each row is a name and a value, of less than `2 ^ 15` bytes. -/
def RequestFits (env : PalmEnv) (sr : SessionRequest) : Prop :=
  (∀ row ∈ sr.headersToc, RowFits (visibleText row)) ∧ entryCount env sr ≤ requestIovSize ∧
    (env.remoteAddr ≠ none → ∀ row ∈ sr.headersToc, row.len < 2 ^ 15 ∧ IsHeaderRow (rowText row))

/-- Rows with the same entries. -/
theorem eq_of_rowEntries_eq {rows : List HeaderTocRow} {f g : HeaderTocRow → Bytes × Bytes}
    (h : (rows.map f).flatMap variableEntries = (rows.map g).flatMap variableEntries) :
    ∀ row ∈ rows, f row = g row := by
  induction rows with
  | nil => simp
  | cons row rows ih =>
      rw [List.map_cons, List.map_cons, List.flatMap_cons, List.flatMap_cons] at h
      obtain ⟨hfirst, hrest⟩ := List.append_inj h rfl
      have hrow : f row = g row := by
        simp only [variableEntries, List.cons.injEq, and_true, true_and] at hfirst
        exact Prod.ext hfirst.1 hfirst.2
      exact List.forall_mem_cons.mpr ⟨hrow, ih hrest⟩

/-- A row is seen as it is where its length is a `short`, and only there with its value. -/
theorem rowVariable_visibleText_iff {row : HeaderTocRow} (hrow : row.len ≤ row.init.length)
    (hfit : RowFits (visibleText row)) :
    rowVariable (visibleText row) = rowVariable (rowText row) ↔ row.len < 2 ^ 15 := by
  have hlen := length_visibleText hrow
  have htextLen : (rowText row).length = row.len := List.length_take_of_le hrow
  have hle := rowLength_le row
  rw [← rowLength_eq_iff]
  constructor
  · intro heq
    obtain ⟨s, hvisible, hname⟩ := rowName_colon hfit.colon_mem
    have hsame : rowName (rowText row) = rowName (visibleText row) := by
      have htake : rowText row = visibleText row ++ (row.init.drop (rowLength row).toNat).take
          (row.len - (rowLength row).toNat) := by
        rw [rowText, visibleText, ← List.take_add, Nat.add_sub_cancel' (by omega)]
      rw [htake, hvisible, List.append_assoc, List.cons_append, rowName_append hname, rowName_append hname]
    have htwo : (rowName (visibleText row)).length + 2 ≤ (visibleText row).length := by
      rw [RowFits] at hfit
      split at hfit <;> omega
    have hvalue := congrArg (fun x => x.2.length) heq
    simp only [rowVariable, rowValue, List.length_drop, hsame, htextLen, hlen] at hvalue htwo
    omega
  · intro h
    rw [visibleText, h, rowText, Int.toNat_natCast]

/-- **Requests to a Palm server.**  Nothing goes wrong, and each row of an emitted request is its
converted name and its value, exactly where the request fits. -/
theorem palmRequest_exact_iff (junk : Nat → UInt8) (env : PalmEnv) {sr : SessionRequest}
    (hrows : ∀ row ∈ sr.headersToc, row.len ≤ row.init.length) :
    (∃ r, mkPalmProtocolRequestNew junk env sr = .ok r ∧ ∀ iov, r = some iov → EmitsRows env sr iov) ↔
      RequestFits env sr := by
  unfold RequestFits EmitsRows
  simp only [mkPalmProtocolRequestNew_ok_iff hrows]
  cases env.remoteAddr with
  | none =>
      constructor
      · rintro ⟨r, ⟨hfit, hroom, -⟩, -⟩
        exact ⟨hfit, hroom, fun h => absurd rfl h⟩
      · rintro ⟨hfit, hroom, -⟩
        exact ⟨none, ⟨hfit, hroom, rfl⟩, fun iov h => by contradiction⟩
  | some ip =>
      simp only [Option.map_some, Option.some.injEq, exists_eq_left']
      constructor
      · rintro ⟨r, ⟨hfit, hroom, rfl⟩, hemits⟩
        obtain ⟨hshape, hio⟩ := hemits _ rfl
        refine ⟨hfit, hroom, fun _ row hrow => ⟨?_, hshape row hrow⟩⟩
        simp only [requestEntries, List.flatMap_append, List.map_map] at hio
        have hrowsEq := eq_of_rowEntries_eq
          (List.append_cancel_left (List.append_cancel_right (List.append_cancel_right hio)))
        exact (rowVariable_visibleText_iff (hrows row hrow) (hfit row hrow)).mp (hrowsEq row hrow)
      · rintro ⟨hfit, hroom, hexact⟩
        have hall := hexact (Option.some_ne_none ip)
        refine ⟨_, ⟨hfit, hroom, rfl⟩, ?_⟩
        intro iov hiov
        obtain rfl := Option.some.inj hiov
        refine ⟨fun row hrow => (hall row hrow).2, ?_⟩
        have hsame : sr.headersToc.map visibleText = sr.headersToc.map rowText := by
          refine List.map_congr_left fun row hrow => ?_
          rw [visibleText, (rowLength_eq_iff row).mpr (hall row hrow).1, rowText, Int.toNat_natCast]
        rw [hsame]

/-- A request of one header row. -/
def requestOfRow (row : Bytes) : SessionRequest where
  headersToc := [{ init := row ++ mkIovCrlf, len := row.length }]

/-- A client whose address is known. -/
def palmClient : PalmEnv where
  serverPort := 2001
  serverName := ascii "a".toList
  methodP := ascii "GET".toList
  remoteAddr := some (ascii "10.0.0.1".toList)
  remotePort := 80

/-- A row with a value of three bytes is passed on. -/
theorem palmRequest_exact_abc : ∃ r,
    mkPalmProtocolRequestNew (fun _ => 0) palmClient (requestOfRow (ascii "X-Id: abc".toList)) = .ok r ∧
      ∀ iov, r = some iov → EmitsRows palmClient (requestOfRow (ascii "X-Id: abc".toList)) iov := by
  exact (palmRequest_exact_iff (fun _ => 0) palmClient (by decide)).mpr
    ⟨by decide +kernel, by decide +kernel, fun _ => by decide +kernel⟩

/-- A row with one of two bytes is not. -/
theorem palmRequest_short_ab : ¬ ∀ (junk : Nat → UInt8) (env : PalmEnv) (sr : SessionRequest),
    (∀ row ∈ sr.headersToc, row.len ≤ row.init.length) → sr.headersToc.length ≤ mkHeadersTocLen →
      ∃ r, mkPalmProtocolRequestNew junk env sr = .ok r ∧ ∀ iov, r = some iov → EmitsRows env sr iov := by
  intro h
  obtain ⟨r, hr, -⟩ := h (fun _ => 0) palmClient (requestOfRow (ascii "X-Id: ab".toList))
    (by decide) (by decide)
  have hfault : mkPalmProtocolRequestNew (fun _ => 0) palmClient (requestOfRow (ascii "X-Id: ab".toList)) =
      .error .rowBuffer := by decide +kernel
  rw [hfault] at hr
  contradiction

end Monkey.Palm
