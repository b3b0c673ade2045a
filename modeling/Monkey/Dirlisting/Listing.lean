import Monkey.Config.Hosts
import Monkey.Dirlisting.Directory
import Monkey.Dirlisting.Template
import Monkey.Http.HeaderIov
import Monkey.Lib.Bsearch
import Monkey.Lib.Chunked

/-!
# Monkey.Dirlisting.Listing

The body of a directory listing: `mk_dirhtml_init` puts the values of the request and of
each entry into the three templates of the theme, and sends each of them as a chunk.

The first entry of a vector is kept for the size of its chunk.  The framing is right for
whatever is listed; what is listed are the names that the buffer of the directory stream
holds in the end, and those are the names of the directory only if none was overwritten.
-/

namespace Monkey.Dirlisting

/-! ## vectors -/

/-- `struct mk_iov` with its total. -/
structure TotalIov where
  vec : MkIov
  totalLen : Nat := 0
deriving DecidableEq, Repr

/-- `mk_iov_create`: the entries before the offset are empty. -/
def mkIovCreate (n offset : Nat) : TotalIov := { vec := { io := List.replicate offset [], size := n } }

/-- `mk_iov_add_entry` with its total. -/
def addEntry (iov : TotalIov) (buf sep : Bytes) : Option TotalIov :=
  (mkIovAddEntry iov.vec buf sep).map fun vec => { vec := vec, totalLen := iov.totalLen + buf.length + sep.length }

/-- `mk_iov_set_entry`. -/
def mkIovSetEntry (iov : TotalIov) (buf : Bytes) (idx : Nat) : TotalIov where
  vec := { iov.vec with io := iov.vec.io.set idx buf }
  totalLen := iov.totalLen + buf.length

/-! ## values -/

/-- `struct dirhtml_value`. -/
structure DirhtmlValue where
  tags : Tags
  tagId : Nat
  sep : Bytes
  value : Bytes
deriving DecidableEq, Repr

/-- `mk_dirhtml_tag_assign`: the value is a string, and goes to the end of the list. -/
def mkDirhtmlTagAssign (values : List DirhtmlValue) (tagId : Nat) (sep value : Bytes) (tags : Tags) :
    List DirhtmlValue :=
  values ++ [{ tags := tags, tagId := tagId, sep := sep, value := cstr value }]

/-- The first value of a tag. -/
def findValue (values : List DirhtmlValue) (tags : Tags) (tagId : Nat) : Option DirhtmlValue :=
  values.find? fun val => val.tags = tags ∧ val.tagId = tagId

/-- One node of a template. -/
def composeNode (values : List DirhtmlValue) (iov : TotalIov) : TemplateNode → Option TotalIov
  | .tag tags tagId =>
      match findValue values tags tagId with
      | some val => addEntry iov val.value val.sep
      | none => some iov
  | .text buf => addEntry iov buf []

/-- `mk_dirhtml_template_len`. -/
def mkDirhtmlTemplateLen (tpl : List TemplateNode) : Nat := tpl.length

/-- `mk_dirhtml_theme_compose`; there is no result where the vector gets more entries than it
has. -/
def mkDirhtmlThemeCompose (template : List TemplateNode) (values : List DirhtmlValue) (isChunked : Bool) :
    Option TotalIov :=
  (template.foldlM (composeNode values) (mkIovCreate (1 + mkDirhtmlTemplateLen template * 2) 1)).bind fun iov =>
    if isChunked then addEntry iov crlf [] else some iov

/-! ## sending -/

/-- What the socket got, and the number of sends.  A send takes a part of what it is given, or
fails; the functions of the source look at the sign of what it returns and at nothing else. -/
structure Sending where
  out : Bytes := []
  sends : Nat := 0
deriving DecidableEq, Repr

section accept

-- the result of each send, by its number and the bytes it is given
variable (accept : Nat → Nat → Int)

/-- `socket_sendv` and `socket_send`. -/
def socketSend (st : Sending) (data : Bytes) : Int × Sending :=
  let n := accept st.sends data.length
  (n, { out := st.out ++ data.take n.toNat, sends := st.sends + 1 })

/-- `mk_dirhtml_send`: in HTTP/1.1 the first entry becomes the size of the chunk. -/
def mkDirhtmlSend (protocol : Protocol) (st : Sending) (data : TotalIov) : Int × Sending :=
  if protocol = .http11 then
    socketSend accept st (mkIovSetEntry data (printfX (data.totalLen - 2) ++ crlf) 0).vec.io.flatten
  else socketSend accept st data.vec.io.flatten

/-- `mk_dirhtml_send_chunked_end`. -/
def mkDirhtmlSendChunkedEnd (st : Sending) : Int × Sending := socketSend accept st lastChunk

/-! ## the listing -/

/-- `mk_dirhtml_entry_cmp`: `strcasecmp` of the names. -/
def mkDirhtmlEntryCmp (a b : MkFList Bytes) : Ordering :=
  compare ((cstr a.name).map Config.tolower) ((cstr b.name).map Config.tolower)

/-- The templates of a theme. -/
structure Theme where
  header : List TemplateNode
  entry : List TemplateNode
  footer : List TemplateNode
deriving DecidableEq, Repr

/-- `mk_dirhtml_theme_load`, from what can be read of the three files. -/
def mkDirhtmlThemeLoad (header entry footer : Option Bytes) : Option Theme :=
  match header, entry, footer with
  | some header, some entry, some footer =>
      some ⟨mkDirhtmlTemplateCreate header, mkDirhtmlTemplateCreate entry, mkDirhtmlTemplateCreate footer⟩
  | _, _, _ => none

/-- The values of the header and the footer. -/
def valuesGlobal (title themePath : Bytes) : List DirhtmlValue :=
  mkDirhtmlTagAssign (mkDirhtmlTagAssign [] 0 [] title .global) 1 [] themePath .global

/-- The values of an entry; the slash of a directory is a separator. -/
def valuesEntry (e : MkFList Bytes) : List DirhtmlValue :=
  let sep := if e.type = dtDir then [0x2f] else []
  let values := mkDirhtmlTagAssign [] 0 sep e.name .entry
  let values := mkDirhtmlTagAssign values 1 sep e.name .entry
  let values := mkDirhtmlTagAssign values 2 sep e.name .entry
  let values := mkDirhtmlTagAssign values 3 [] e.ftModif .entry
  mkDirhtmlTagAssign values 4 [] e.size .entry

/-- The loop over the sorted entries, until a send fails. -/
def sendEntries (protocol : Protocol) (template : List TemplateNode) : List (MkFList Bytes) → Sending → Option Sending
  | [], st => some st
  | e :: toc, st =>
      (mkDirhtmlThemeCompose template (valuesEntry e) (protocol = .http11)).bind fun iov =>
        let (n, st) := mkDirhtmlSend accept protocol st iov
        if n < 0 then some st else sendEntries protocol template toc st

/-- The part of `mk_dirhtml_init` behind the list of entries, with their names as they are from
then on: what the socket gets behind the header, which `headerSend` is the result of sending. -/
def sendListing (qsort : List (MkFList Bytes) → List (MkFList Bytes)) (headerSend : Int) (theme : Theme)
    (protocol : Protocol) (title themePath : Bytes) (fileList : List (MkFList Bytes)) : Option Bytes :=
  let isChunked : Bool := protocol = .http11
  (mkDirhtmlThemeCompose theme.header (valuesGlobal title themePath) isChunked).bind fun iovHeader =>
    (mkDirhtmlThemeCompose theme.footer (valuesGlobal title themePath) isChunked).bind fun iovFooter =>
      if headerSend < 0 then some []
      else
        let (n, st) := mkDirhtmlSend accept protocol {} iovHeader
        if n < 0 then some st.out
        else
          (sendEntries accept protocol theme.entry (qsort fileList) st).map fun st =>
            let (n, st) := mkDirhtmlSend accept protocol st iovFooter
            if protocol = .http11 ∧ 0 ≤ n then (mkDirhtmlSendChunkedEnd accept st).2.out else st.out

/-- `mk_dirhtml_init`: without a stream nothing is sent.  The table of contents has the entries
of the list and not their names, which `qsort` and the templates read through their places:
from the last call of `readdir` on the buffer does not change. -/
def mkDirhtmlInit (qsort : List (MkFList Bytes) → List (MkFList Bytes)) (headerSend : Int) (theme : Theme)
    (protocol : Protocol) (title themePath : Bytes) (calls : FileCalls) (path : Bytes) (dir : Option Dir) :
    Option Bytes :=
  match dir with
  | none => some []
  | some dir =>
      sendListing accept qsort headerSend theme protocol title themePath
        ((mkDirhtmlCreateList calls path dir).map (MkFList.read dir.buffer))

end accept

/-! ## what a template says -/

/-- A node with its value and separator, if there is one. -/
def nodeText (values : List DirhtmlValue) : TemplateNode → Bytes
  | .text buf => buf
  | .tag tags tagId => (findValue values tags tagId).elim [] fun val => val.value ++ val.sep

/-- A template with its values. -/
def composed (template : List TemplateNode) (values : List DirhtmlValue) : Bytes :=
  template.flatMap (nodeText values)

/-- What the theme says of an entry. -/
def entryText (theme : Theme) (e : MkFList Bytes) : Bytes := composed theme.entry (valuesEntry e)

/-- The parts of a listing. -/
def listingParts (theme : Theme) (title themePath : Bytes) (toc : List (MkFList Bytes)) : List Bytes :=
  composed theme.header (valuesGlobal title themePath) ::
    toc.map (entryText theme) ++ [composed theme.footer (valuesGlobal title themePath)]

/-! ## composing -/

/-- The entries that a node may need. -/
def nodeEntries : TemplateNode → Nat
  | .text _ => 1
  | .tag _ _ => 2

/-- A vector that holds `text` behind its first entry. -/
structure Holds (iov : TotalIov) (size : Nat) (text : Bytes) : Prop where
  io : ∃ entries, iov.vec.io = [] :: entries ∧ entries.flatten = text
  size : iov.vec.size = size
  total : iov.totalLen = text.length

theorem holds_mkIovCreate (n : Nat) : Holds (mkIovCreate n 1) n [] := ⟨⟨[], rfl, rfl⟩, rfl, rfl⟩

/-- An entry with its separator is added where there is room for both. -/
theorem Holds.addEntry {iov : TotalIov} {size : Nat} {text : Bytes} (h : Holds iov size text) (buf sep : Bytes)
    (hroom : iov.vec.io.length + (if 0 < sep.length then 2 else 1) ≤ size) :
    ∃ iov', Dirlisting.addEntry iov buf sep = some iov' ∧ Holds iov' size (text ++ (buf ++ sep)) ∧
      iov'.vec.io.length = iov.vec.io.length + if 0 < sep.length then 2 else 1 := by
  obtain ⟨⟨entries, hio, hflat⟩, hsize, htotal⟩ := h
  by_cases hsep : 0 < sep.length
  · rw [if_pos hsep] at hroom ⊢
    have hadd : mkIovAddEntry iov.vec buf sep = some { iov.vec with io := iov.vec.io ++ [buf, sep] } := by
      unfold mkIovAddEntry
      rw [if_pos hsep]
      exact if_pos (by rw [List.length_append, hsize]; exact hroom)
    rw [Dirlisting.addEntry, hadd]
    refine ⟨_, rfl, ⟨⟨entries ++ [buf, sep], ?_, ?_⟩, hsize, ?_⟩, List.length_append⟩
    · show iov.vec.io ++ [buf, sep] = _
      rw [hio]
      rfl
    · simp [hflat]
    · simp [htotal, Nat.add_assoc]
  · obtain rfl : sep = [] := List.eq_nil_of_length_eq_zero (Nat.eq_zero_of_not_pos hsep)
    rw [if_neg hsep] at hroom ⊢
    have hadd : mkIovAddEntry iov.vec buf [] = some { iov.vec with io := iov.vec.io ++ [buf] } := by
      unfold mkIovAddEntry
      rw [if_neg hsep]
      exact if_pos (by rw [List.length_append, hsize]; exact hroom)
    rw [Dirlisting.addEntry, hadd]
    refine ⟨_, rfl, ⟨⟨entries ++ [buf], ?_, ?_⟩, hsize, ?_⟩, List.length_append⟩
    · show iov.vec.io ++ [buf] = _
      rw [hio]
      rfl
    · simp [hflat]
    · simp [htotal]

/-- A node is composed where there is room for it. -/
theorem Holds.composeNode {iov : TotalIov} {size : Nat} {text : Bytes} (h : Holds iov size text)
    (values : List DirhtmlValue) (node : TemplateNode) (hroom : iov.vec.io.length + nodeEntries node ≤ size) :
    ∃ iov', Dirlisting.composeNode values iov node = some iov' ∧ Holds iov' size (text ++ nodeText values node) ∧
      iov'.vec.io.length ≤ iov.vec.io.length + nodeEntries node := by
  cases node with
  | text buf =>
      obtain ⟨iov', hadd, hholds, hlen⟩ := h.addEntry buf [] hroom
      rw [List.append_nil] at hholds
      exact ⟨iov', hadd, hholds, hlen.le⟩
  | tag tags tagId =>
      rw [Dirlisting.composeNode, nodeText]
      cases findValue values tags tagId with
      | none => exact ⟨iov, rfl, by rwa [Option.elim_none, List.append_nil], Nat.le_add_right _ _⟩
      | some val =>
          have htwo : (if 0 < val.sep.length then 2 else 1) ≤ nodeEntries (.tag tags tagId) := by
            rw [nodeEntries]
            split <;> omega
          obtain ⟨iov', hadd, hholds, hlen⟩ := h.addEntry val.value val.sep (by omega)
          exact ⟨iov', hadd, hholds, by omega⟩

/-- **A template is composed** where there is room for its nodes. -/
theorem Holds.compose {iov : TotalIov} {size : Nat} {text : Bytes} (h : Holds iov size text)
    (values : List DirhtmlValue) (template : List TemplateNode)
    (hroom : iov.vec.io.length + (template.map nodeEntries).sum ≤ size) :
    ∃ iov', template.foldlM (Dirlisting.composeNode values) iov = some iov' ∧
      Holds iov' size (text ++ composed template values) ∧
      iov'.vec.io.length ≤ iov.vec.io.length + (template.map nodeEntries).sum := by
  induction template generalizing iov text with
  | nil => exact ⟨iov, rfl, by rwa [composed, List.flatMap_nil, List.append_nil], Nat.le_add_right _ _⟩
  | cons node template ih =>
      rw [List.map_cons, List.sum_cons] at hroom ⊢
      obtain ⟨iov₁, hnode, hholds₁, hlen₁⟩ := h.composeNode values node (by omega)
      obtain ⟨iov₂, hrest, hholds₂, hlen₂⟩ := ih hholds₁ (by omega)
      refine ⟨iov₂, ?_, ?_, by omega⟩
      · rw [List.foldlM_cons, hnode]
        exact hrest
      · rwa [List.append_assoc] at hholds₂

theorem nodeEntries_le (node : TemplateNode) : nodeEntries node ≤ 2 := by
  cases node with
  | text buf => exact Nat.le_succ 1
  | tag tags tagId => exact le_rfl

/-- The nodes of a template with a piece of text leave room for the line end. -/
theorem sum_nodeEntries_lt {template : List TemplateNode} {buf : Bytes} (h : .text buf ∈ template) :
    (template.map nodeEntries).sum < template.length * 2 := by
  induction template with
  | nil => contradiction
  | cons node template ih =>
      have hnode := nodeEntries_le node
      have hrest : (template.map nodeEntries).sum ≤ template.length * 2 := by
        have hle := List.sum_le_card_nsmul (template.map nodeEntries) 2 fun n hn => by
          obtain ⟨node, -, rfl⟩ := List.mem_map.mp hn
          exact nodeEntries_le node
        simpa using hle
      rw [List.map_cons, List.sum_cons, List.length_cons]
      rcases List.mem_cons.mp h with heq | h
      · subst heq
        rw [nodeEntries]
        omega
      · have := ih h
        omega

/-- A template that is not empty ends with a piece of text. -/
theorem text_mem_create {content : Bytes} (h : mkDirhtmlTemplateCreate content ≠ []) :
    ∃ buf, .text buf ∈ mkDirhtmlTemplateCreate content := by
  unfold mkDirhtmlTemplateCreate at h ⊢
  split at h
  · exact absurd rfl h
  · next hlen =>
    rw [if_neg hlen]
    exact ⟨_, List.mem_append_right _ (List.mem_singleton.mpr rfl)⟩

/-- What a composed vector is: the text of the template, and its line end in HTTP/1.1. -/
theorem mkDirhtmlThemeCompose_spec {template : List TemplateNode} {buf : Bytes} (htext : .text buf ∈ template)
    (values : List DirhtmlValue) (isChunked : Bool) :
    ∃ iov, mkDirhtmlThemeCompose template values isChunked = some iov ∧
      Holds iov (1 + template.length * 2) (composed template values ++ if isChunked then crlf else []) := by
  have hlt := sum_nodeEntries_lt htext
  have hone : (mkIovCreate (1 + template.length * 2) 1).vec.io.length = 1 := rfl
  obtain ⟨iov, hfold, hholds, hlen⟩ :=
    (holds_mkIovCreate (1 + template.length * 2)).compose values template (by omega)
  rw [List.nil_append] at hholds
  unfold mkDirhtmlThemeCompose mkDirhtmlTemplateLen
  rw [hfold, Option.bind_some]
  cases isChunked with
  | false => exact ⟨iov, rfl, by simpa using hholds⟩
  | true =>
      obtain ⟨iov', hadd, hholds', -⟩ := hholds.addEntry crlf [] (by simp; omega)
      exact ⟨iov', hadd, by simpa using hholds'⟩

/-! ## sending -/

/-- After a send of all of its data. -/
def Sending.sent (st : Sending) (data : Bytes) : Sending := { out := st.out ++ data, sends := st.sends + 1 }

section accept

variable {accept : Nat → Nat → Int}

theorem socketSend_full (haccept : ∀ k n, accept k n = n) (st : Sending) (data : Bytes) :
    socketSend accept st data = ((data.length : Int), st.sent data) := by
  unfold socketSend
  simp only [haccept, Int.toNat_natCast, List.take_length]
  rfl

/-- **A part is sent** as a chunk in HTTP/1.1, and as it is otherwise. -/
theorem mkDirhtmlSend_full (haccept : ∀ k n, accept k n = n) (protocol : Protocol) (st : Sending) {iov : TotalIov}
    {size : Nat} {text : Bytes} (h : Holds iov size (text ++ if protocol = .http11 then crlf else [])) :
    ∃ n : Nat, mkDirhtmlSend accept protocol st iov = ((n : Int), st.sent (framePiece (protocol = .http11) text)) := by
  obtain ⟨⟨entries, hio, hflat⟩, -, htotal⟩ := h
  unfold mkDirhtmlSend
  by_cases hprotocol : protocol = .http11
  · simp only [hprotocol, if_true] at hflat htotal ⊢
    rw [socketSend_full haccept]
    refine ⟨_, congrArg (fun data => (_, st.sent data)) ?_⟩
    have hsize : iov.totalLen - 2 = text.length := by
      rw [htotal, List.length_append]
      exact Nat.add_sub_cancel text.length 2
    simp [mkIovSetEntry, hio, hflat, hsize, framePiece, chunk]
  · simp only [hprotocol, if_false, List.append_nil] at hflat ⊢
    rw [socketSend_full haccept]
    refine ⟨_, congrArg (fun data => (_, st.sent data)) ?_⟩
    simp [hio, hflat, framePiece]

/-- **The entries are sent**, one after the other. -/
theorem sendEntries_full (haccept : ∀ k n, accept k n = n) (protocol : Protocol) {template : List TemplateNode}
    (toc : List (MkFList Bytes)) (htext : toc ≠ [] → ∃ buf, .text buf ∈ template) (st : Sending) :
    ∃ st', sendEntries accept protocol template toc st = some st' ∧
      st'.out = st.out ++
        (toc.map fun e => composed template (valuesEntry e)).flatMap (framePiece (protocol = .http11)) := by
  induction toc generalizing st with
  | nil => exact ⟨st, rfl, by simp⟩
  | cons e toc ih =>
      obtain ⟨buf, hbuf⟩ := htext (List.cons_ne_nil e toc)
      obtain ⟨iov, hcompose, hholds⟩ := mkDirhtmlThemeCompose_spec hbuf (valuesEntry e) (protocol = .http11)
      simp only [decide_eq_true_eq] at hholds
      obtain ⟨n, hsend⟩ := mkDirhtmlSend_full haccept protocol st hholds
      obtain ⟨st', hrest, hout⟩ := ih (fun _ => ⟨buf, hbuf⟩)
        (st.sent (framePiece (protocol = .http11) (composed template (valuesEntry e))))
      refine ⟨st', ?_, ?_⟩
      · rw [sendEntries, hcompose, Option.bind_some, hsend]
        simp only
        rw [if_neg (by omega), hrest]
      · rw [hout, List.map_cons, List.flatMap_cons, ← List.append_assoc]
        rfl

/-- **What the socket gets**: the parts of the listing, each as a chunk in HTTP/1.1. -/
theorem sendListing_full (haccept : ∀ k n, accept k n = n) {headerSend : Int} (hhead : 0 ≤ headerSend)
    (qsort : List (MkFList Bytes) → List (MkFList Bytes)) {theme : Theme} (protocol : Protocol) (title themePath : Bytes)
    (fileList : List (MkFList Bytes)) {header footer : Bytes} (hheader : .text header ∈ theme.header)
    (hentry : qsort fileList ≠ [] → ∃ entry, .text entry ∈ theme.entry) (hfooter : .text footer ∈ theme.footer) :
    sendListing accept qsort headerSend theme protocol title themePath fileList =
      some ((listingParts theme title themePath (qsort fileList)).flatMap (framePiece (protocol = .http11)) ++
        frameEnd (protocol = .http11)) := by
  obtain ⟨iovHeader, hcomposeHeader, hholdsHeader⟩ :=
    mkDirhtmlThemeCompose_spec hheader (valuesGlobal title themePath) (protocol = .http11)
  obtain ⟨iovFooter, hcomposeFooter, hholdsFooter⟩ :=
    mkDirhtmlThemeCompose_spec hfooter (valuesGlobal title themePath) (protocol = .http11)
  simp only [decide_eq_true_eq] at hholdsHeader hholdsFooter
  obtain ⟨n, hsendHeader⟩ := mkDirhtmlSend_full haccept protocol {} hholdsHeader
  obtain ⟨st, hentries, hout⟩ := sendEntries_full haccept protocol (qsort fileList) hentry
    (Sending.sent {} (framePiece (protocol = .http11) (composed theme.header (valuesGlobal title themePath))))
  obtain ⟨m, hsendFooter⟩ := mkDirhtmlSend_full haccept protocol st hholdsFooter
  unfold sendListing
  simp only [hcomposeHeader, hcomposeFooter, Option.bind_some]
  rw [if_neg (by omega), hsendHeader]
  simp only
  rw [if_neg (by omega), hentries, Option.map_some, hsendFooter]
  have hparts : (st.sent (framePiece (protocol = .http11)
      (composed theme.footer (valuesGlobal title themePath)))).out =
        (listingParts theme title themePath (qsort fileList)).flatMap (framePiece (protocol = .http11)) := by
    rw [Sending.sent, hout]
    simp [Sending.sent, listingParts]
    rfl
  simp only
  by_cases hprotocol : protocol = .http11
  · rw [if_pos ⟨hprotocol, by omega⟩, mkDirhtmlSendChunkedEnd, socketSend_full haccept, Sending.sent, hparts]
    simp [frameEnd, hprotocol]
  · rw [if_neg fun h => hprotocol h.1, hparts]
    simp [frameEnd, hprotocol]

end accept

/-! ## the body -/

/-- Pieces that are not empty, each as a chunk or as it is, make a body. -/
theorem encodes_pieces {pieces : List Bytes} (hne : [] ∉ pieces) (chunked : Bool) :
    Encodes chunked (pieces.flatMap (framePiece chunked) ++ frameEnd chunked) pieces.flatten := by
  refine Framed.close ?_
  cases chunked with
  | true => exact ⟨pieces, hne, rfl, rfl⟩
  | false =>
      show pieces.flatMap (fun piece => piece) = pieces.flatten
      rw [List.flatMap_id']

/-- A template that says something has a piece of text. -/
theorem text_mem_of_composed {content : Bytes} (values : List DirhtmlValue)
    (h : composed (mkDirhtmlTemplateCreate content) values ≠ []) :
    ∃ buf, .text buf ∈ mkDirhtmlTemplateCreate content := by
  refine text_mem_create fun hnil => h ?_
  rw [hnil]
  rfl

instance : Std.TransCmp mkDirhtmlEntryCmp :=
  inferInstanceAs (Std.TransCmp (compareOn fun e : MkFList Bytes => (cstr e.name).map Config.tolower))

/-- The parts are the header and the footer, and the texts of the entries between them. -/
theorem listingParts_inj {theme : Theme} {title themePath : Bytes} {toc toc' : List (MkFList Bytes)} :
    listingParts theme title themePath toc = listingParts theme title themePath toc' ↔
      toc.map (entryText theme) = toc'.map (entryText theme) := by
  rw [listingParts, listingParts, List.cons_append, List.cons_append, List.cons.injEq, and_iff_right rfl,
    List.append_cancel_right_eq]

/-- Other entries have other parts, in the order of the entries. -/
theorem listingParts_perm {theme : Theme} {title themePath : Bytes} {toc toc' : List (MkFList Bytes)}
    (h : toc.Perm toc') :
    (listingParts theme title themePath toc).Perm (listingParts theme title themePath toc') :=
  ((h.map (entryText theme)).append_right [composed theme.footer (valuesGlobal title themePath)]).cons
    (composed theme.header (valuesGlobal title themePath))

section body

variable (accept : Nat → Nat → Int) (qsort : List (MkFList Bytes) → List (MkFList Bytes)) (headerSend : Int)
  (theme : Theme) (title themePath : Bytes) (calls : FileCalls) (path : Bytes) (dir : Dir)

/-- The listing is that of the directory: the header, the entries of the directory in order and
the footer, each a chunk of its own in HTTP/1.1 and without framing otherwise, and no vector
gets more entries than it has. -/
def ListsDirectory : Prop :=
  ∃ toc, toc.Perm (entriesRead calls path dir) ∧ InOrder mkDirhtmlEntryCmp toc ∧ ∀ protocol, ∃ out,
    mkDirhtmlInit accept qsort headerSend theme protocol title themePath calls path (some dir) = some out ∧
    out = (listingParts theme title themePath toc).flatMap (framePiece (protocol = .http11)) ++
      frameEnd (protocol = .http11) ∧
    Encodes (protocol = .http11) out (listingParts theme title themePath toc).flatten

/-- The entries sorted by the names that stand in the buffer in the end have the texts of the
entries of the directory in order. -/
def SameTexts : Prop :=
  ∃ toc, toc.Perm (entriesRead calls path dir) ∧ InOrder mkDirhtmlEntryCmp toc ∧
    (qsort (entriesKept calls path dir)).map (entryText theme) = toc.map (entryText theme)

end body

section body

variable {accept : Nat → Nat → Int} {qsort : List (MkFList Bytes) → List (MkFList Bytes)} {headerSend : Int}
  {theme : Theme} {title themePath : Bytes} {calls : FileCalls} {path : Bytes} {dir : Dir}

/-- So it is where no name is overwritten. -/
theorem NamesKept.sameTexts (h : NamesKept calls path dir) (hsort : IsQsort mkDirhtmlEntryCmp qsort) :
    SameTexts qsort theme calls path dir :=
  ⟨qsort (entriesKept calls path dir), h.entries_eq ▸ hsort.perm _, hsort.inOrder _, rfl⟩

/-- In any case the texts are the same, in some order. -/
theorem SameTexts.perm (h : SameTexts qsort theme calls path dir) (hsort : IsQsort mkDirhtmlEntryCmp qsort) :
    ((entriesKept calls path dir).map (entryText theme)).Perm ((entriesRead calls path dir).map (entryText theme)) := by
  obtain ⟨toc, hperm, -, htexts⟩ := h
  have hkept := (hsort.perm (entriesKept calls path dir)).map (entryText theme)
  rw [htexts] at hkept
  exact hkept.symm.trans (hperm.map (entryText theme))

/-- What the socket gets for a directory: the entries under the names in the buffer. -/
theorem mkDirhtmlInit_full (haccept : ∀ k n, accept k n = n) (hhead : 0 ≤ headerSend)
    (hsort : IsQsort mkDirhtmlEntryCmp qsort) {header entry footer : Bytes}
    (htheme : mkDirhtmlThemeLoad (some header) (some entry) (some footer) = some theme)
    (hne : ∀ part ∈ listingParts theme title themePath (entriesRead calls path dir), part ≠ []) (protocol : Protocol) :
    mkDirhtmlInit accept qsort headerSend theme protocol title themePath calls path (some dir) =
      some ((listingParts theme title themePath (qsort (entriesKept calls path dir))).flatMap
        (framePiece (protocol = .http11)) ++ frameEnd (protocol = .http11)) := by
  obtain rfl : ⟨mkDirhtmlTemplateCreate header, mkDirhtmlTemplateCreate entry, mkDirhtmlTemplateCreate footer⟩ =
    theme := Option.some.inj htheme
  obtain ⟨headerText, hheader⟩ := text_mem_of_composed _ (hne _ List.mem_cons_self)
  obtain ⟨footerText, hfooter⟩ := text_mem_of_composed _ (hne _ (List.mem_append_right _ List.mem_cons_self))
  refine sendListing_full haccept hhead qsort protocol title themePath (entriesKept calls path dir) hheader ?_ hfooter
  intro htoc
  -- the directory has an entry too, and its part is not empty
  have hlength : (entriesRead calls path dir).length ≠ 0 := by
    rw [← length_entriesKept, ← (hsort.perm (entriesKept calls path dir)).length_eq]
    simpa using htoc
  obtain ⟨e, he⟩ := List.exists_mem_of_ne_nil _ (mt List.length_eq_zero_iff.mpr hlength)
  refine text_mem_of_composed (valuesEntry e) (hne _ ?_)
  exact List.mem_cons_of_mem _ (List.mem_append_left _ (List.mem_map_of_mem he))

/-- A listing is that of the directory if the texts are. -/
theorem listsDirectory_iff (haccept : ∀ k n, accept k n = n) (hhead : 0 ≤ headerSend)
    (hsort : IsQsort mkDirhtmlEntryCmp qsort) {header entry footer : Bytes}
    (htheme : mkDirhtmlThemeLoad (some header) (some entry) (some footer) = some theme)
    (hne : ∀ part ∈ listingParts theme title themePath (entriesRead calls path dir), part ≠ []) :
    ListsDirectory accept qsort headerSend theme title themePath calls path dir ↔
      SameTexts qsort theme calls path dir := by
  have hinit := @mkDirhtmlInit_full accept qsort headerSend theme title themePath calls path dir haccept hhead hsort
    header entry footer htheme hne
  refine exists_congr fun toc => and_congr_right fun hperm => and_congr_right fun _ => ?_
  rw [← @listingParts_inj theme title themePath]
  constructor
  · intro h
    obtain ⟨out, hout, rfl, -⟩ := h .http11
    have hsame := Option.some.inj ((hinit .http11).symm.trans hout)
    refine flatMap_chunk_inj ?_ hsame
    simp only [listingParts, List.length_append, List.length_cons, List.length_map, hperm.length_eq,
      (hsort.perm (entriesKept calls path dir)).length_eq, length_entriesKept]
  · intro hparts protocol
    refine ⟨_, hinit protocol, by rw [hparts], ?_⟩
    rw [hparts]
    refine encodes_pieces (fun hmem => ?_) _
    exact hne [] ((listingParts_perm hperm).subset hmem) rfl

end body

/-! ## two directories -/

/-- Every file has some text of a date and a size. -/
def plainCalls : FileCalls where
  fileGetInfo := fun _ => some {}
  strftime := fun _ => some (ascii "01-Jan-2014 00:00".toList)
  humanReadableSize := fun _ => ascii "3b".toList

def plainTheme : Theme where
  header := mkDirhtmlTemplateCreate (ascii "<h1>%_html_title_%</h1>".toList)
  entry := mkDirhtmlTemplateCreate (ascii "<p>%_target_name_%".toList)
  footer := mkDirhtmlTemplateCreate (ascii "%_html_title_%".toList)

/-- A file and a directory, side by side in the buffer. -/
def roomyDir : Dir where
  calls := [⟨ascii ['b'] ++ [0] ++ ascii ['A'] ++ [0], 0, dtReg⟩, ⟨ascii ['b'] ++ [0] ++ ascii ['A'] ++ [0], 2, dtDir⟩]
  buffer := ascii ['b'] ++ [0] ++ ascii ['A'] ++ [0]

/-- Two files, the second in the place of the first. -/
def narrowDir : Dir where
  calls := [⟨ascii ['b'] ++ [0], 0, dtReg⟩, ⟨ascii ['a'] ++ [0], 0, dtReg⟩]
  buffer := ascii ['a'] ++ [0]

end Monkey.Dirlisting
