import Monkey.Request.SegmentsExact

/-!
# Monkey.Request.Touches

Where `mk_request_header_process` looks in the buffer of the session.  The functions
below follow it through a request block and list what it touches: the last byte each
search or comparison reads, the bytes found, the positions computed, and the use of a
search that has found nothing.  Positions are relative to the start of the block; a
block ends with its blank line, and the buffer with the NUL that `mk_handler_read` puts
behind the last byte.

The rows of the header table and the comparisons with header names always stay inside:
no name has a carriage return, and every row ends with one.
-/

namespace Monkey

/-! ## what is touched -/

inductive Touch
  /-- bytes up to this position are read, and none after it -/
  | read (last : Nat)
  /-- a search has found the byte at this position -/
  | found (pos : Nat)
  /-- a position of the block, or its end -/
  | offset (pos : Nat)
  /-- a search that has found nothing is used -/
  | missing
deriving DecidableEq, Repr

/-- Inside the buffer, of which `size` bytes are left from the start of the block on,
and inside the block, which takes `block` of them. -/
def Touch.Inside (size block : Nat) : Touch → Prop
  | .read last => last ≤ size
  | .found pos => pos < block
  | .offset pos => pos ≤ block
  | .missing => False

def TouchesInside (size block : Nat) (touches : List Touch) : Prop :=
  ∀ t ∈ touches, t.Inside size block

instance (size block : Nat) : (t : Touch) → Decidable (t.Inside size block)
  | .read last => inferInstanceAs (Decidable (last ≤ size))
  | .found pos => inferInstanceAs (Decidable (pos < block))
  | .offset pos => inferInstanceAs (Decidable (pos ≤ block))
  | .missing => inferInstanceAs (Decidable False)

instance (size block : Nat) (touches : List Touch) : Decidable (TouchesInside size block touches) :=
  inferInstanceAs (Decidable (∀ t ∈ touches, t.Inside size block))

/-- The position in `data` of a pointer into it. -/
def offsetIn (data s : Bytes) : Nat := data.length - s.length

/-- How many bytes of `s` a comparison with `t`, after the translation `f` of each byte,
reads. -/
def strncmpReads (f : UInt8 → UInt8) : Bytes → Bytes → Nat → Nat
  | _, _, 0 => 0
  | c :: s, d :: t, n + 1 => if f c = f d ∧ c ≠ 0 then strncmpReads f s t n + 1 else 1
  | _, _, _ + 1 => 1

/-! ## the first line -/

/-- The search for a query string, `prot_init` bytes from the URI on. -/
def queryTouches (data : Bytes) (uriInit protInit : Nat) : List Touch :=
  match memchr (data.drop uriInit) 0x3f protInit with
  | some q => .read (uriInit + q) :: if 0 < q then [.found (uriInit + q)] else []
  | none => [.read (uriInit + protInit - 1)]

/-- `mk_utils_url_decode` on the URI, which ends in front of the query string or of the
last blank. -/
def decodeTouches (data : Bytes) (uriInit last : Nat) : List Touch :=
  match memchr (data.drop uriInit) 0x3f (last + 1) with
  | some q => if 0 < q ∧ uriInit + q < last then [.read (uriInit + q - 1)] else [.read (last - 1)]
  | none => [.read (last - 1)]

/-- `mk_http_protocol_check`, when there is something to compare; a negative length is
a large one. -/
def protocolTouches (data : Bytes) (protInit fhLimit : Nat) : List Touch :=
  if fhLimit ≤ 1 then []
  else
    let n := if fhLimit - 1 < protInit then 2 ^ 64 else fhLimit - 1 - protInit
    .offset (fhLimit - 1) ::
      [['1', '.', '1'], ['1', '.', '0'], ['0', '.', '9']].map fun version =>
        .read (protInit + strncmpReads id (data.drop protInit)
          (ascii (['H', 'T', 'T', 'P', '/'] ++ version)) n - 1)

/-! ## the header rows -/

/-- `mk_request_header_toc_parse`: `off` is the position of `p` in the block of length
`len`, `l` that of the last line end. -/
def rowTouches (len : Nat) : Nat → Bytes → Nat → Option Nat → List Touch
  | 0, _, _, _ => []
  | n + 1, p, off, l =>
      if l.elim true (fun l => decide (l < len)) then
        match strstr p mkCrlf with
        | some k =>
            .read (off + k + 1) :: .offset off :: .found (off + k) ::
              rowTouches len n (p.drop (k + 2)) (off + k + 2) (some (off + k))
        | none => [.read (off + strlen p)]
      else []

/-- `mk_request_header_get`: the rows compared, up to the one with the key. -/
def lookupTouches (data key : Bytes) : List HeaderTocRow → List Touch
  | [] => []
  | row :: rows =>
      if row.found then lookupTouches data key rows
      else
        .read (offsetIn data row.init + strncmpReads toupper row.init key key.length - 1) ::
          if strncasecmp row.init key key.length then
            [.offset (offsetIn data row.init + (key.length + 1))]
          else lookupTouches data key rows

/-- The last colon of a `Host` value; a length of zero or less stands for all that
follows. -/
def hostColon (value : Bytes) (len : Nat) : Option Nat :=
  memrchr value 0x3a (if toInt len ≤ 0 then strlen value else (toInt len).toNat)

/-- `short int port_len`. -/
def portLen (len pos : Nat) : Int := ((len : Int) - pos - 1).bmod (2 ^ 16)

/-- The `Host` part: the search for a colon, then `memcpy`, for which a negative length
is a large one. -/
def hostTouches (data : Bytes) (host : MkPointer) : List Touch :=
  match host.data with
  | none => []
  | some value =>
      .read (if toInt host.len ≤ 0 then offsetIn data value + strlen value
        else offsetIn data value + (toInt host.len).toNat - 1) ::
        match hostColon value host.len with
        | none => []
        | some pos =>
            .found (offsetIn data value + pos) ::
              if portLen host.len pos ≥ 6 then []
              else [.read (offsetIn data value + pos + toULong (portLen host.len pos))]

/-- The scan of `_mk_string_search` when a length is given, from position `off` of the
block on. -/
def scanTouches (search : Bytes) (len : Nat) : Bytes → Nat → Nat → List Touch
  | [], off, _ => [.read off]
  | c :: s, off, i =>
      .read (off + strncmpReads toupper (c :: s) search search.length - 1) ::
        if (search.map toupper).isPrefixOf ((c :: s).map toupper) then [.found off]
        else if i + 1 ≥ len then []
        else if c = 0 then []
        else scanTouches search len s (off + 1) (i + 1)

/-- `mk_string_search_n`. -/
def searchTouches (data value search : Bytes) (len : Int) : List Touch :=
  if len ≤ 0 then
    match strcasestr value search with
    | some k => [.read (offsetIn data value + k + search.length - 1), .found (offsetIn data value + k)]
    | none => [.read (offsetIn data value + strlen value)]
  else scanTouches search len.toNat value (offsetIn data value) 0

/-- The `Connection` part. -/
def connectionTouches (data : Bytes) (connection : MkPointer) : List Touch :=
  match connection.data with
  | none => []
  | some value =>
      searchTouches data value keepAliveValue (toInt connection.len) ++
        if mkStringSearchN value keepAliveValue (toInt connection.len) ≥ 0 then []
        else searchTouches data value closeValue (toInt connection.len)

/-- The rows in the order `mk_request_header_process` looks for them; a `Host` that is
refused ends it. -/
def fieldsTouches (cfg : Config) (data : Bytes) (rows : List HeaderTocRow) : List Touch :=
  let host := mkRequestHeaderGet rows rhHost
  lookupTouches data rhHost rows ++ (hostTouches data host.1 ++
    if (mkRequestHostProcess cfg host.1 {}).1 = false then []
    else
      let connection := mkRequestHeaderGet host.2 rhConnection
      let range := mkRequestHeaderGet connection.2 rhRange
      lookupTouches data rhConnection host.2 ++ (lookupTouches data rhRange connection.2 ++
        (lookupTouches data rhIfModifiedSince range.2 ++ connectionTouches data connection.1)))

/-! ## `mk_request_header_process` -/

/-- The header table of a block whose first line ends at `fhLimit`. -/
def headerRows (data : Bytes) (len fhLimit : Nat) : List HeaderTocRow :=
  mkRequestHeaderTocParse (data.drop (fhLimit + 1)) ((len : Int) - (fhLimit + 1 : Nat))

/-- From the last blank of the first line on. -/
def lineTouches (cfg : Config) (data : Bytes) (len blank fhLimit : Nat) : List Touch :=
  .read (if fhLimit = 0 then strlen data else fhLimit - 1) ::
    match memrchr data 0x20 (if fhLimit = 0 then strlen data else fhLimit) with
    | none => []
    | some last =>
        .found last :: .offset (last + 1) ::
          -- `uri_end <= 0`, `uri_end < uri_init`
          if last ≤ 1 ∨ last < blank + 2 then []
          else
            queryTouches data (blank + 1) (last + 1) ++
              -- `prot_init == prot_end`
              if last + 2 = fhLimit then []
              else
                protocolTouches data (last + 1) fhLimit ++ (.offset (fhLimit + 1) ::
                  (decodeTouches data (blank + 1) last ++
                    (rowTouches len mkHeadersTocLen (data.drop (fhLimit + 1)) (fhLimit + 1) none ++
                      fieldsTouches cfg data (headerRows data len fhLimit))))

/-- `mk_request_header_process` on a block of length `len`. -/
def headerTouches (cfg : Config) (data : Bytes) (len : Nat) : List Touch :=
  .read ((strchr data 0x20).getD (strlen data)) ::
    .read ((strchr data 0x0a).getD (strlen data)) ::
      match strchr data 0x20, strchr data 0x0a with
      | some blank, some fhLimit =>
          .found blank :: .found fhLimit :: lineTouches cfg data len blank fhLimit
      | _, _ => [.missing]

/-! ## comparisons -/

theorem touchesInside_nil {size block : Nat} : TouchesInside size block [] :=
  fun _ ht => absurd ht List.not_mem_nil

theorem touchesInside_cons {size block : Nat} {t : Touch} {ts : List Touch} :
    TouchesInside size block (t :: ts) ↔ t.Inside size block ∧ TouchesInside size block ts :=
  List.forall_mem_cons

theorem touchesInside_append {size block : Nat} {ts ts' : List Touch} :
    TouchesInside size block (ts ++ ts') ↔
      TouchesInside size block ts ∧ TouchesInside size block ts' :=
  List.forall_mem_append

theorem strlen_le_length (s : Bytes) : strlen s ≤ s.length := cstr_length_le s

theorem offsetIn_drop {data : Bytes} {off : Nat} (h : off ≤ data.length) :
    offsetIn data (data.drop off) = off := by
  rw [offsetIn, List.length_drop]
  omega

/-- A byte the other string does not have ends the comparison. -/
theorem strncmpReads_le_of_getElem? {f : UInt8 → UInt8} {s t : Bytes} {n k : Nat} {c : UInt8}
    (hs : s[k]? = some c) (ht : f c ∉ t.map f) : strncmpReads f s t n ≤ k + 1 := by
  fun_induction strncmpReads f s t n generalizing k with
  | case1 => omega
  | case2 b s d t n hbd ih =>
    rw [List.map_cons, List.mem_cons, not_or] at ht
    cases k with
    | zero =>
      rw [List.getElem?_cons_zero, Option.some.injEq] at hs
      exact absurd (hs ▸ hbd.1) ht.1
    | succ k =>
      rw [List.getElem?_cons_succ] at hs
      have := ih hs ht.2
      omega
  | case3 => omega
  | case4 => omega

/-- A header name: it has no NUL and no carriage return. -/
def IsName (key : Bytes) : Prop := 0 ∉ key ∧ toupper 0x0d ∉ key.map toupper

instance (key : Bytes) : Decidable (IsName key) :=
  inferInstanceAs (Decidable (0 ∉ key ∧ toupper 0x0d ∉ key.map toupper))

/-- A name is not longer than the line that starts with it. -/
theorem IsName.length_le {key s : Bytes} {len : Nat} (hkey : IsName key) (hcr : s[len]? = some 0x0d)
    (hmatch : strncasecmp s key key.length = true) : key.length ≤ len := by
  by_contra hlt
  have hpre := (strncasecmp_iff_isPrefix hkey.1).mp hmatch
  have hlen : len < (key.map toupper).length := by
    rw [List.length_map]
    omega
  have hbyte := List.prefix_iff_getElem?.mp hpre len hlen
  rw [List.getElem?_map, hcr, Option.map_some, Option.some.injEq] at hbyte
  exact hkey.2 (hbyte ▸ List.getElem_mem hlen)

/-! ## the rows stay inside -/

section

variable {data : Bytes} {len : Nat}

/-- The blank line of a block, in the buffer. -/
structure EndsAt (data : Bytes) (len : Nat) : Prop where
  ends : mkEndblock <+: data.drop len

/-- A row of the header table: it starts in the buffer, and ends with a line end of the
block. -/
structure RowIn (data : Bytes) (len : Nat) (row : HeaderTocRow) : Prop where
  init : row.init = data.drop (offsetIn data row.init)
  stop : mkCrlf <+: row.init.drop row.len
  le : offsetIn data row.init + row.len ≤ len + 2

/-- A header value of `n` bytes up to the end of its row; behind a row that is only the
name `n` is `-1`. -/
structure ValueIn (data : Bytes) (len : Nat) (value : Bytes) (n : Int) : Prop where
  length_le : value.length ≤ data.length
  lower : -1 ≤ n
  stop : 0 ≤ n → mkCrlf <+: value.drop n.toNat
  le : (offsetIn data value : Int) + n ≤ len + 2

namespace EndsAt

theorem length_le (h : EndsAt data len) : len + 4 ≤ data.length := by
  have hle := h.ends.length_le
  rw [List.length_drop] at hle
  have : mkEndblock.length = 4 := rfl
  omega

theorem first (h : EndsAt data len) : mkCrlf <+: data.drop len :=
  (List.prefix_append mkCrlf mkCrlf).trans h.ends

theorem second (h : EndsAt data len) : mkCrlf <+: data.drop (len + 2) := by
  obtain ⟨t, ht⟩ := h.ends
  rw [← List.drop_drop, ← ht]
  exact ⟨t, rfl⟩

/-- The first newline belongs to the block or to its blank line. -/
theorem newline (h : EndsAt data len) {fhLimit : Nat} (hf : strchr data 0x0a = some fhLimit) :
    fhLimit < len ∨ fhLimit = len + 1 := by
  have hle := strchr_le hf (crlf_bytes h.first).2
  have hne : fhLimit ≠ len := by
    rintro rfl
    have hbyte := strchr_getElem? hf
    rw [(crlf_bytes h.first).1] at hbyte
    contradiction
  omega

/-- A line end found from inside the block is one of the block, and unless it is that of
the blank line another one follows. -/
theorem row_step (h : EndsAt data len) {off k : Nat} (hoff : off ≤ len ∨ off = len + 2)
    (hk : strstr (data.drop off) mkCrlf = some k) :
    off + k ≤ len + 2 ∧ (off + k < len → off + k + 2 ≤ len) := by
  rcases hoff with hoff | rfl
  · have hle : k ≤ len - off := by
      refine strstr_le hk ?_
      rw [List.drop_drop, show off + (len - off) = len by omega]
      exact h.first
    have hne : off + k + 1 ≠ len := by
      intro heq
      have hbyte := (crlf_bytes (isPrefix_drop_of_strstr hk)).2
      rw [List.getElem?_drop, ← Nat.add_assoc, heq, (crlf_bytes h.first).1] at hbyte
      contradiction
    omega
  · have hle : k ≤ 0 := by
      refine strstr_le hk ?_
      rw [List.drop_zero]
      exact h.second
    omega

/-- The row loop stays inside: the line end in front of the blank line is found by the
last round at the latest. -/
theorem rowTouches_inside (h : EndsAt data len) {n off : Nat} {l : Option Nat}
    (hoff : l.elim true (fun l => decide (l < len)) = true → off ≤ len ∨ off = len + 2) :
    TouchesInside data.length (len + 4) (rowTouches len n (data.drop off) off l) := by
  have hsize := h.length_le
  induction n generalizing off l with
  | zero => exact touchesInside_nil
  | succ n ih =>
    rw [rowTouches]
    split
    · next hl =>
      cases hk : strstr (data.drop off) mkCrlf with
      | none =>
        have hlen := strlen_le_length (data.drop off)
        rw [List.length_drop] at hlen
        have := hoff hl
        exact touchesInside_cons.mpr ⟨show off + strlen _ ≤ _ by omega, touchesInside_nil⟩
      | some k =>
        have hstep := h.row_step (hoff hl) hk
        simp only [touchesInside_cons, Touch.Inside, List.drop_drop]
        rw [show off + (k + 2) = off + k + 2 by omega]
        refine ⟨by omega, by omega, by omega, ih fun hnext => ?_⟩
        exact .inl (hstep.2 (by simpa using hnext))
    · exact touchesInside_nil

/-- The rows are rows of the block. -/
theorem mkRequestHeaderTocLoop_rowIn (h : EndsAt data len) {base n off : Nat} {l : Option Nat}
    (hoff : l.elim true (fun l => decide ((l : Int) < (len : Int) - base)) = true →
      base + off ≤ len ∨ base + off = len + 2) {row : HeaderTocRow}
    (hrow : row ∈ mkRequestHeaderTocLoop ((len : Int) - base) n (data.drop (base + off)) off l) :
    RowIn data len row := by
  have hsize := h.length_le
  induction n generalizing off l with
  | zero => exact absurd hrow List.not_mem_nil
  | succ n ih =>
    rw [mkRequestHeaderTocLoop] at hrow
    split at hrow
    · next hl =>
      split at hrow
      · next k hk =>
        have hstep := h.row_step (hoff hl) hk
        rcases List.mem_cons.mp hrow with rfl | hrow
        · have hdrop : offsetIn data (data.drop (base + off)) = base + off :=
            offsetIn_drop (by omega)
          refine ⟨by rw [hdrop], isPrefix_drop_of_strstr hk, ?_⟩
          simp only [hdrop]
          exact hstep.1
        · rw [List.drop_drop, show base + off + (k + 2) = base + (off + k + 2) by omega] at hrow
          refine ih (fun hnext => ?_) hrow
          simp only [Option.elim_some, decide_eq_true_eq] at hnext
          exact .inl (by omega)
      · exact absurd hrow List.not_mem_nil
    · exact absurd hrow List.not_mem_nil

/-- The header table of a block has rows of the block. -/
theorem headerRows_rowIn (h : EndsAt data len) {fhLimit : Nat}
    (hf : strchr data 0x0a = some fhLimit) {row : HeaderTocRow}
    (hrow : row ∈ headerRows data len fhLimit) : RowIn data len row := by
  have hnew := h.newline hf
  exact @mkRequestHeaderTocLoop_rowIn data len h (fhLimit + 1) mkHeadersTocLen 0 none
    (fun _ => by omega) row hrow

/-- The comparison of the protocol ends at the newline at the latest. -/
theorem protocolTouches_inside (h : EndsAt data len) {fhLimit last : Nat}
    (hf : strchr data 0x0a = some fhLimit) (hlast : fhLimit = 0 ∨ last < fhLimit) :
    TouchesInside data.length (len + 4) (protocolTouches data (last + 1) fhLimit) := by
  have hsize := h.length_le
  have hnew := h.newline hf
  have hname : ∀ version ∈ [['1', '.', '1'], ['1', '.', '0'], ['0', '.', '9']],
      id (0x0a : UInt8) ∉ (ascii (['H', 'T', 'T', 'P', '/'] ++ version)).map id := by
    decide
  unfold protocolTouches
  split
  · exact touchesInside_nil
  · refine touchesInside_cons.mpr ⟨show fhLimit - 1 ≤ len + 4 by omega, ?_⟩
    intro t ht
    obtain ⟨version, hversion, rfl⟩ := List.mem_map.mp ht
    show last + 1 + strncmpReads id (data.drop (last + 1)) _ _ - 1 ≤ data.length
    have hbyte : (data.drop (last + 1))[fhLimit - (last + 1)]? = some 0x0a := by
      rw [List.getElem?_drop, show last + 1 + (fhLimit - (last + 1)) = fhLimit by omega]
      exact strchr_getElem? hf
    have hreads := @strncmpReads_le_of_getElem? id _ _
      (if fhLimit - 1 < last + 1 then 2 ^ 64 else fhLimit - 1 - (last + 1)) _ _ hbyte (hname version hversion)
    omega

end EndsAt

/-- The URI ends in front of the last blank. -/
theorem decodeTouches_inside {uriInit last : Nat} (hlast : last ≤ data.length) :
    TouchesInside data.length (len + 4) (decodeTouches data uriInit last) := by
  unfold decodeTouches
  have hwhole : TouchesInside data.length (len + 4) [.read (last - 1)] :=
    touchesInside_cons.mpr ⟨show last - 1 ≤ _ by omega, touchesInside_nil⟩
  split
  · split
    · exact touchesInside_cons.mpr ⟨show uriInit + _ - 1 ≤ _ by omega, touchesInside_nil⟩
    · exact hwhole
  · exact hwhole

/-! ## the fields stay in their rows -/

namespace RowIn

variable {row : HeaderTocRow} {key : Bytes}

/-- The byte behind a row. -/
theorem cr (h : RowIn data len row) : row.init[row.len]? = some 0x0d := by
  exact (crlf_bytes h.stop).1

/-- A row with a key is at least the key. -/
theorem key_length_le (h : RowIn data len row) (hkey : IsName key)
    (hmatch : strncasecmp row.init key key.length = true) : key.length ≤ row.len :=
  hkey.length_le h.cr hmatch

theorem value (h : RowIn data len row) (hkey : IsName key)
    (hmatch : strncasecmp row.init key key.length = true) :
    ValueIn data len (row.init.drop (key.length + 1)) ((row.len : Int) - (key.length + 1)) := by
  have hle := h.key_length_le hkey hmatch
  have hin := h.le
  have hlt : row.len < row.init.length := (List.getElem?_eq_some_iff.mp h.cr).1
  have hinit : row.init.length ≤ data.length := by
    rw [h.init, List.length_drop]
    omega
  have hdrop : offsetIn data (row.init.drop (key.length + 1)) =
      offsetIn data row.init + (key.length + 1) := by
    unfold offsetIn
    rw [List.length_drop]
    omega
  refine ⟨?_, by omega, fun hn => ?_, ?_⟩
  · rw [List.length_drop]
    omega
  · rw [List.drop_drop, show key.length + 1 + ((row.len : Int) - (key.length + 1)).toNat =
      row.len by omega]
    exact h.stop
  · rw [hdrop]
    omega

end RowIn

/-- A lookup gives a value of the block, and leaves its rows. -/
theorem mkRequestHeaderGet_spec {key : Bytes} (hkey : IsName key) {rows : List HeaderTocRow}
    (hrows : ∀ row ∈ rows, RowIn data len row) :
    (∀ value ∈ (mkRequestHeaderGet rows key).1.data, ∃ n,
      (mkRequestHeaderGet rows key).1.len = toULong n ∧ ValueIn data len value n) ∧
    ∀ row ∈ (mkRequestHeaderGet rows key).2, RowIn data len row := by
  induction rows with
  | nil => exact ⟨fun _ hvalue => absurd hvalue (Option.not_mem_none _), hrows⟩
  | cons row rows ih =>
    obtain ⟨hrow, hrest⟩ := List.forall_mem_cons.mp hrows
    rw [mkRequestHeaderGet]
    split
    · next hmatch =>
      refine ⟨fun value hvalue => ?_, List.forall_mem_cons.mpr ⟨⟨hrow.init, hrow.stop, hrow.le⟩, hrest⟩⟩
      obtain rfl := Option.some.inj hvalue
      exact ⟨_, rfl, hrow.value hkey hmatch.2⟩
    · have := ih hrest
      exact ⟨this.1, List.forall_mem_cons.mpr ⟨hrow, this.2⟩⟩

/-- The comparisons of a lookup end with the rows. -/
theorem EndsAt.lookupTouches_inside (h : EndsAt data len) {key : Bytes} (hkey : IsName key)
    {rows : List HeaderTocRow} (hrows : ∀ row ∈ rows, RowIn data len row) :
    TouchesInside data.length (len + 4) (lookupTouches data key rows) := by
  have hsize := h.length_le
  induction rows with
  | nil => exact touchesInside_nil
  | cons row rows ih =>
    obtain ⟨hrow, hrest⟩ := List.forall_mem_cons.mp hrows
    rw [lookupTouches]
    split
    · exact ih hrest
    · have hle := hrow.le
      have hreads := @strncmpReads_le_of_getElem? toupper _ _ key.length _ _ hrow.cr hkey.2
      refine touchesInside_cons.mpr ⟨show offsetIn data row.init + _ - 1 ≤ _ by omega, ?_⟩
      split
      · next hmatch =>
        have := hrow.key_length_le hkey hmatch
        exact touchesInside_cons.mpr ⟨show offsetIn data row.init + _ ≤ _ by omega, touchesInside_nil⟩
      · exact ih hrest

/-- The scan of a value ends with its row. -/
theorem EndsAt.scanTouches_inside (h : EndsAt data len) {search : Bytes} (hsearch : IsName search)
    {n m off i : Nat} {s : Bytes} (hcr : s[m]? = some 0x0d) (hn : n ≤ i + m)
    (hoff : off + m ≤ len + 2) :
    TouchesInside data.length (len + 4) (scanTouches search n s off i) := by
  have hsize := h.length_le
  induction s generalizing m off i with
  | nil => contradiction
  | cons c s ih =>
    have hreads := @strncmpReads_le_of_getElem? toupper _ _ search.length _ _ hcr hsearch.2
    rw [scanTouches]
    refine touchesInside_cons.mpr ⟨show off + _ - 1 ≤ _ by omega, ?_⟩
    split
    · exact touchesInside_cons.mpr ⟨show off < _ by omega, touchesInside_nil⟩
    · split
      · exact touchesInside_nil
      · split
        · exact touchesInside_nil
        · cases m with
          | zero => omega
          | succ m => exact ih hcr (by omega) (by omega)

end

end Monkey
