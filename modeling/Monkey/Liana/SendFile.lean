import Monkey.Lib.Run
import Monkey.Http.Init

/-!
# Monkey.Liana.SendFile

A file sent by `mk_http_send_file` over the two transports: `liana` (`sendfile`) and
`liana_ssl` (`pread` into a buffer and an encrypted write).  A response is a run of
sends that goes on as long as `mk_http_send_file` returns a positive `int`.

How much the connection takes of a send is an argument of each of them, and a send may fail.  The file
does not change while it is sent.
-/

namespace Monkey

/-- A file on disk; its size is an `off_t`. -/
structure StoredFile where
  bytes : Bytes
  size_lt : bytes.length < 2 ^ 63

/-- The loaded transport plugin.  The buffer of `liana_ssl` has the size of a record, a constant
of its TLS library (`MK_LIANA_SSL_BUFFER_PLAIN`), which may be any. -/
inductive Transport
  | liana
  | lianaSsl (bufferPlain : Nat) (pos : 0 < bufferPlain)

/-- How many bytes `_mkp_network_io_send_file` asks for: `liana_ssl` ignores the count. -/
def Transport.request (t : Transport) (count : Int) : Nat :=
  match t with
  | .liana => toULong count
  | .lianaSsl bufferPlain _ => bufferPlain

/-- `_mkp_network_io_send_file`: the bytes that go out when the connection takes
`accepted` bytes, or `none` for an error. -/
def Transport.sendFile (t : Transport) (file : StoredFile) (offset count : Int)
    (accepted : Option Nat) : Option Bytes :=
  match accepted with
  | none => none
  | some k =>
      if offset < 0 then none
      else some (((file.bytes.drop offset.toNat).take (t.request count)).take k)

/-- The number `mk_http_send_file` gets for it. -/
def nbytesOf (chunk : Option Bytes) : Int :=
  chunk.elim (-1) fun bytes => (bytes.length : Int)

/-- A file response: its request, the body bytes sent, whether `mk_handler_write` has
got past it, and whether a send failed. -/
structure FileResponse where
  sr : SessionRequest
  sent : Bytes := []
  ended : Bool := false
  failed : Bool := false

/-- The response after a send that returned `r`. -/
def FileResponse.after (s : FileResponse) (chunk : Option Bytes) (r : Res) : FileResponse where
  sr := r.sr
  sent := s.sent ++ chunk.getD []
  ended := decide (r.ret ≤ 0)
  failed := chunk.isNone

/-- The next `mk_http_send_file` of a response. -/
def FileResponse.send (ctx : Ctx) (t : Transport) (file : StoredFile) (s : FileResponse)
    (accepted : Option Nat) : Option FileResponse :=
  if s.ended = true then none
  else
    let chunk := t.sendFile file s.sr.bytesOffset s.sr.bytesToSend accepted
    let sys := { ctx.sys with sendFile := fun _ _ _ => nbytesOf chunk }
    some (s.after chunk (mkHttpSendFile { ctx with sys := sys } s.sr))

def FileResponse.Send (ctx : Ctx) (t : Transport) (file : StoredFile) (s : FileResponse)
    (accepted : Option Nat) (s' : FileResponse) : Prop :=
  s.send ctx t file accepted = some s'

/-- The number of bytes the connection takes of what is asked for. -/
def Transport.taken (t : Transport) (file : StoredFile) (sr : SessionRequest) (k : Nat) : Int :=
  min (k : Int) (min (t.request sr.bytesToSend : Int) (file.bytes.length - sr.bytesOffset))

/-- A send that keeps to the window: over `liana_ssl` the connection takes no more than
what is left, or a whole buffer is left, or the window ends with the file; and the rest
is none, or positive as an `int`. -/
def FitsWindow (t : Transport) (file : StoredFile) (s : FileResponse) (accepted : Option Nat) : Prop :=
  ∀ k ∈ accepted,
    (∀ bufferPlain pos, t = .lianaSsl bufferPlain pos → (k : Int) ≤ s.sr.bytesToSend ∨
      (bufferPlain : Int) ≤ s.sr.bytesToSend ∨
      file.bytes.length - s.sr.bytesOffset ≤ s.sr.bytesToSend) ∧
    (t.taken file s.sr k = s.sr.bytesToSend ∨ 0 < toInt (s.sr.bytesToSend - t.taken file s.sr k))

/-! ## the window -/

/-- A response of `n` bytes from offset `o` on, so far. -/
structure InWindow (file : StoredFile) (o n : Int) (s : FileResponse) : Prop where
  left : 0 ≤ s.sr.bytesToSend
  left_le : s.sr.bytesToSend ≤ n
  offset : s.sr.bytesOffset = o + (n - s.sr.bytesToSend)
  sent : s.sent = (file.bytes.drop o.toNat).take (n - s.sr.bytesToSend).toNat
  complete : s.ended = true → s.failed = true ∨ s.sr.bytesToSend = 0

/-- The bytes of one send. -/
theorem Transport.sendFile_length {t : Transport} {file : StoredFile} {sr : SessionRequest} {k : Nat}
    (hoffset : 0 ≤ sr.bytesOffset) (hsize : sr.bytesOffset ≤ file.bytes.length) :
    ∃ chunk, t.sendFile file sr.bytesOffset sr.bytesToSend (some k) = some chunk ∧
      chunk = (file.bytes.drop sr.bytesOffset.toNat).take (t.taken file sr k).toNat ∧
      (chunk.length : Int) = t.taken file sr k ∧ 0 ≤ t.taken file sr k := by
  have htaken : 0 ≤ t.taken file sr k := by
    unfold taken
    omega
  have hmin : (t.taken file sr k).toNat = min k (min (t.request sr.bytesToSend)
      (file.bytes.drop sr.bytesOffset.toNat).length) := by
    simp only [taken, List.length_drop]
    omega
  refine ⟨(file.bytes.drop sr.bytesOffset.toNat).take (t.taken file sr k).toNat, ?_, rfl, ?_, htaken⟩
  · rw [sendFile, if_neg (not_lt.mpr hoffset), List.take_take, hmin, Option.some.injEq,
      List.take_eq_take_iff]
    omega
  · rw [List.length_take, hmin]
    omega

/-- No send that fits takes more than what is left. -/
theorem Transport.taken_le {t : Transport} {file : StoredFile} {s : FileResponse} {k : Nat}
    (hleft : 0 ≤ s.sr.bytesToSend) (hlt : s.sr.bytesToSend < 2 ^ 63)
    (h : FitsWindow t file s (some k)) : t.taken file s.sr k ≤ s.sr.bytesToSend := by
  have hfits := (h k rfl).1
  cases t with
  | liana =>
      have hcount : (toULong s.sr.bytesToSend : Int) = s.sr.bytesToSend := by
        unfold toULong
        omega
      simp only [taken, request, hcount]
      omega
  | lianaSsl bufferPlain pos =>
      simp only [taken, request]
      rcases hfits bufferPlain pos rfl with hk | hk | hk <;> omega

/-- What a successful send does to a response. -/
theorem FileResponse.send_some {ctx : Ctx} {t : Transport} {file : StoredFile} {s s' : FileResponse}
    {k : Nat} {chunk : Bytes} (h : FileResponse.Send ctx t file s (some k) s')
    (hchunk : t.sendFile file s.sr.bytesOffset s.sr.bytesToSend (some k) = some chunk) :
    s.ended = false ∧ s'.sr.bytesToSend = s.sr.bytesToSend - chunk.length ∧
      s'.sr.bytesOffset = s.sr.bytesOffset + chunk.length ∧ s'.sent = s.sent ++ chunk ∧
      s'.ended = decide (toInt (s.sr.bytesToSend - chunk.length) ≤ 0) := by
  obtain ⟨hended, hsend⟩ := Option.ite_none_left_eq_some.mp h
  simp only [hchunk, Option.some.injEq] at hsend
  rw [mkHttpSendFile_eq (k := chunk.length) rfl (by positivity)] at hsend
  subst hsend
  exact ⟨by simpa using hended, rfl, rfl, rfl, rfl⟩

/-- What a failed send does to a response. -/
theorem FileResponse.send_none {ctx : Ctx} {t : Transport} {file : StoredFile} {s s' : FileResponse}
    (h : FileResponse.Send ctx t file s none s') :
    s'.sr.bytesToSend = s.sr.bytesToSend ∧ s'.sr.bytesOffset = s.sr.bytesOffset ∧
      s'.sent = s.sent ∧ s'.ended = true ∧ s'.failed = true := by
  obtain ⟨hended, hsend⟩ := Option.ite_none_left_eq_some.mp h
  simp only [Transport.sendFile, Option.some.injEq] at hsend
  rw [mkHttpSendFile_failed (show (-1 : Int) < 0 by decide)] at hsend
  subst hsend
  exact ⟨rfl, rfl, List.append_nil _, rfl, rfl⟩

/-- A send that fits keeps to the window. -/
theorem InWindow.send {ctx : Ctx} {t : Transport} {file : StoredFile} {o n : Int}
    {s s' : FileResponse} {accepted : Option Nat} (h : InWindow file o n s) (ho : 0 ≤ o)
    (hn : o + n ≤ file.bytes.length) (hfits : FitsWindow t file s accepted)
    (hstep : FileResponse.Send ctx t file s accepted s') : InWindow file o n s' := by
  have hleft := h.left
  have hle := h.left_le
  have hoffset := h.offset
  cases accepted with
  | none =>
      obtain ⟨hto, hoff, hsent, -, hfailed⟩ := FileResponse.send_none hstep
      exact ⟨hto ▸ hleft, hto ▸ hle, by rw [hto, hoff, hoffset], by rw [hsent, hto, h.sent],
        fun _ => .inl hfailed⟩
  | some k =>
      have htaken := Transport.taken_le hleft (by have := file.size_lt; omega) hfits
      obtain ⟨chunk, hchunk, hbytes, hlen, hpos⟩ :=
        @Transport.sendFile_length t file s.sr k (by omega) (by omega)
      obtain ⟨-, hto, hoff, hsent, hend⟩ := FileResponse.send_some hstep hchunk
      rw [hlen] at hto hoff hend
      refine ⟨by omega, by omega, by omega, ?_, fun hended => .inr ?_⟩
      · have hdrop : s.sr.bytesOffset.toNat = o.toNat + (n - s.sr.bytesToSend).toNat := by omega
        have htake : (n - s'.sr.bytesToSend).toNat =
            (n - s.sr.bytesToSend).toNat + (t.taken file s.sr k).toNat := by omega
        rw [hsent, h.sent, hbytes, hdrop, htake, ← List.drop_drop, List.take_add]
      · rw [hend] at hended
        have hint := of_decide_eq_true hended
        rcases (hfits k rfl).2 with hall | hrest
        · omega
        · omega

/-- A response that is not over has sent a byte for every send that was taken. -/
theorem InWindow.progress {ctx : Ctx} {t : Transport} {file : StoredFile} {o n : Int}
    {s s' : FileResponse} {events : List (Option Nat)} (h : InWindow file o n s) (ho : 0 ≤ o)
    (hn : o + n ≤ file.bytes.length)
    (hrun : Run (Guarded (FitsWindow t file) (FileResponse.Send ctx t file)) s events s')
    (hevents : ∀ accepted ∈ events, ∃ k, accepted = some k ∧ 0 < k) (hended : s'.ended = false) :
    s.sent.length + events.length ≤ s'.sent.length := by
  induction hrun with
  | nil s => simp
  | @cons s s₁ s' accepted events hstep hrest ih =>
      have hs₁ := h.send ho hn hstep.1 hstep.2
      have hrec := ih hs₁ (fun a ha => hevents a (List.mem_cons_of_mem _ ha)) hended
      obtain ⟨k, rfl, hk⟩ := hevents accepted List.mem_cons_self
      have hleft := h.left
      have hle := h.left_le
      have hoffset := h.offset
      obtain ⟨chunk, hchunk, -, hlen, -⟩ :=
        @Transport.sendFile_length t file s.sr k (by omega) (by omega)
      obtain ⟨-, -, -, hsent, hend⟩ := FileResponse.send_some hstep.2 hchunk
      have hpos : 0 < s.sr.bytesToSend := by
        by_contra hzero
        have hover : s₁.ended = true := by
          have htaken := Transport.taken_le hleft (by have := file.size_lt; omega) hstep.1
          have hnone : s.sr.bytesToSend - (chunk.length : Int) = 0 := by omega
          rw [hend, hnone]
          decide
        cases hrest with
        | nil => exact absurd hover (by simp [hended])
        | cons hnext _ => exact (Option.ite_none_left_eq_some.mp hnext.2).1 hover
      have hrequest : 0 < t.request s.sr.bytesToSend := by
        have hsize := file.size_lt
        cases t with
        | liana =>
            simp only [Transport.request, toULong]
            omega
        | lianaSsl bufferPlain pos => exact pos
      have htaken : 0 < t.taken file s.sr k := by
        unfold Transport.taken
        omega
      rw [hsent, List.length_append] at hrec
      simp only [List.length_cons]
      omega

/-- The window of a response that starts with `sr`. -/
def fileWindow (file : StoredFile) (sr : SessionRequest) : Bytes :=
  (file.bytes.drop sr.bytesOffset.toNat).take sr.bytesToSend.toNat

/-- A window inside the file, sent by any schedule of sends that fit, over either
transport: at every time the count left is the bytes not yet sent, the bytes sent are the
first of the window, and a response that is over without a failed send has sent them all.
It is over after at most as many sends as it has bytes. -/
theorem file_sent_whole {ctx : Ctx} {t : Transport} {file : StoredFile} {sr : SessionRequest}
    {events : List (Option Nat)} {s : FileResponse} (hoffset : 0 ≤ sr.bytesOffset)
    (hcount : 0 ≤ sr.bytesToSend) (hsize : sr.bytesOffset + sr.bytesToSend ≤ file.bytes.length)
    (h : Run (Guarded (FitsWindow t file) (FileResponse.Send ctx t file)) { sr := sr } events s) :
    0 ≤ s.sr.bytesToSend ∧ (s.sent.length : Int) + s.sr.bytesToSend = sr.bytesToSend ∧
      s.sent <+: fileWindow file sr ∧
      (s.ended = true → s.failed = true ∨ s.sent = fileWindow file sr) ∧
      ((∀ accepted ∈ events, ∃ k, accepted = some k ∧ 0 < k) → s.ended = false →
        events.length ≤ s.sent.length) := by
  have hstart : InWindow file sr.bytesOffset sr.bytesToSend { sr := sr } :=
    ⟨hcount, le_rfl, by simp, by simp, by simp⟩
  have hs : InWindow file sr.bytesOffset sr.bytesToSend s :=
    h.guarded_invariant (fun _ _ _ hs hfits hstep => hs.send hoffset hsize hfits hstep) hstart
  have hleft := hs.left
  have hle := hs.left_le
  refine ⟨hleft, ?_, ?_, fun hended => ?_, fun hevents hended => ?_⟩
  · rw [hs.sent, List.length_take, List.length_drop]
    omega
  · rw [hs.sent, fileWindow]
    exact List.take_prefix_take_left (by omega)
  · refine (hs.complete hended).imp_right fun hzero => ?_
    rw [hs.sent, hzero, fileWindow, sub_zero]
  · simpa using hstart.progress hoffset hsize h hevents hended

/-- A file of six bytes. -/
def sampleFile : StoredFile := ⟨[1, 2, 3, 4, 5, 6], by decide⟩

/-- Records of 16 KiB. -/
def sampleSsl : Transport := .lianaSsl 16384 (by decide)

/-- The last five bytes of the file over `liana_ssl`, in two sends. -/
theorem file_sent_whole_five_bytes :
    let sr : SessionRequest := { bytesOffset := 1, bytesToSend := 5 }
    ∃ s, Run (Guarded (FitsWindow sampleSsl sampleFile)
        (FileResponse.Send sampleCtx sampleSsl sampleFile)) { sr := sr } [some 2, some 100] s ∧
      s.ended = true ∧ (s.failed = true ∨ s.sent = fileWindow sampleFile sr) := by
  have hrun : ∃ s, Run (Guarded (FitsWindow sampleSsl sampleFile)
      (FileResponse.Send sampleCtx sampleSsl sampleFile))
      { sr := { bytesOffset := 1, bytesToSend := 5 } } [some 2, some 100] s ∧ s.ended = true := by
    refine ⟨_, .cons ⟨?_, rfl⟩ (.cons ⟨?_, rfl⟩ (.nil _)), by decide⟩
    all_goals
      intro k hk
      cases hk
      refine ⟨fun bufferPlain pos heq => ?_, by decide⟩
      cases heq
      decide
  obtain ⟨s, hrun, hended⟩ := hrun
  obtain ⟨-, -, -, hwhole, -⟩ := file_sent_whole (by decide) (by decide) (by decide) hrun
  exact ⟨s, hrun, hended, hwhole hended⟩

/-- Two bytes from the middle of the file over `liana_ssl`: five go out, and the count
left is `-3`. -/
theorem ssl_send_file_overshoots :
    ¬ ∀ (ctx : Ctx) (t : Transport) (file : StoredFile) (sr : SessionRequest)
      (events : List (Option Nat)) (s : FileResponse), 0 ≤ sr.bytesOffset → 0 ≤ sr.bytesToSend →
      sr.bytesOffset + sr.bytesToSend ≤ file.bytes.length →
      Run (FileResponse.Send ctx t file) { sr := sr } events s →
      0 ≤ s.sr.bytesToSend ∧ s.sent <+: fileWindow file sr := by
  intro h
  have hrun : ∃ s, Run (FileResponse.Send sampleCtx sampleSsl sampleFile)
      { sr := { bytesOffset := 1, bytesToSend := 2 } } [some 100] s ∧ s.sr.bytesToSend = -3 :=
    ⟨_, .cons rfl (.nil _), by decide⟩
  obtain ⟨s, hrun, hleft⟩ := hrun
  have hpos := (h _ _ _ _ _ s (by decide) (by decide) (by decide) hrun).1
  omega

end Monkey
