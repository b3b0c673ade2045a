import Monkey.Fastcgi.Handlers
import Monkey.Http.HeaderIov

/-!
# Monkey.Fastcgi.ResponseHead

The header of a response, from the lines the backend sends (`fcgi_handle_cgi_header`) to
`mk_header_send`, which stops the server at a status it does not know and at one row too
many.  The lines are neither counted nor is their status looked at.

A line is kept with the memory behind it, because `sscanf` reads on when the value of a status
is empty.  The header is written by the core, and where the core stops the server there is no
result.
-/

namespace Monkey.Fastcgi

/-! ## one line -/

/-- `sscanf` with `%d`: white space, a sign and at least one digit, else nothing is
read. -/
def sscanfInt (s : Bytes) : Option Int :=
  let signed := s.dropWhile isspace
  let number := if signed.head? = some 0x2d ∨ signed.head? = some 0x2b then signed.tail else signed
  if number.head?.any isdigit then some (toInt (strtol s)) else none

def contentTypeName : Bytes := ascii "Content-type: ".toList
def locationName : Bytes := ascii "Location: ".toList
def statusName : Bytes := ascii "Status: ".toList

/-- The line that starts here is one of the three that are looked at. -/
def named (entry : Bytes) : Bool :=
  strncasecmp entry contentTypeName 14 || strncasecmp entry locationName 10 || strncasecmp entry statusName 8

/-- `fcgi_handle_cgi_header` for the line of `len` bytes at `entry`; a row too many is a
`mk_bug`.  The number of a status may stand behind the line. -/
def fcgiHandleCgiHeader (h : ResponseHeaders) (entry : Bytes) (len : Nat) : Option ResponseHeaders :=
  if strncasecmp entry contentTypeName 14 then some { h with contentType := (entry.take len).drop 14 }
  else if strncasecmp entry locationName 10 then
    let valueLen := len - 10 - if entry[len - 2]? = some 0x0d then 2 else 1
    some { h with location := some (cstr ((entry.drop 10).take valueLen)) }
  else if strncasecmp entry statusName 8 then
    match sscanfInt (entry.drop 8) with
    | some status => some { h with status := status }
    | none => some h
  else (mkIovAddEntry (extraRowsIov h) (entry.take len) []).map fun iov => { h with extraRows := iov.io }

/-! ## the lines of a header -/

/-- The lines, each with the memory from its start on. -/
def linesFrom : Bytes → List Bytes → List (Bytes × Nat)
  | _, [] => []
  | mem, row :: rows => (mem, row.length) :: linesFrom (mem.drop row.length) rows

/-- The lines of the header in the first entry of a response. -/
def headerLines (entry beyond : Bytes) : List (Bytes × Nat) :=
  linesFrom (entry ++ beyond) (fcgiParseCgiHeaders entry beyond).2

/-- The fields after `fcgi_parse_cgi_headers`. -/
def fcgiCgiHeaders (h : ResponseHeaders) (entry beyond : Bytes) : Option ResponseHeaders :=
  (headerLines entry beyond).foldlM (fun h l => fcgiHandleCgiHeader h l.1 l.2) h

/-- `fcgi_send_response_headers` with the request of the session, where the first entry of
the vector is `entry`: `none` is a `mk_bug`, the inner `Option` an error. -/
def fcgiSendHead (ctx : Ctx) (sr : SessionRequest) (encoded : Bool) (iov : ChunkIov) (entry beyond : Bytes) :
    Option (Option Res) :=
  (fcgiCgiHeaders { sr.headers with status := mkHttpOk } entry beyond).bind fun h =>
    match chunkIovDrop iov (fcgiParseCgiHeaders entry beyond).1 with
    | none => some none
    | some iov =>
        (mkHeaderSendIov ctx { sr with headers := { h with contentLength := chunkIovLength iov } } encoded).map some

/-- The number in a status line. -/
def lineStatus (l : Bytes × Nat) : Option Int :=
  if strncasecmp l.1 contentTypeName 14 || strncasecmp l.1 locationName 10 then none
  else if strncasecmp l.1 statusName 8 then sscanfInt (l.1.drop 8) else none

/-- The status of a header: the last one that can be read, else 200. -/
def headStatus (lines : List (Bytes × Nat)) : Int := (lines.filterMap lineStatus).getLast?.getD mkHttpOk

/-- How many lines become extra rows. -/
def extraLines (lines : List (Bytes × Nat)) : Nat := lines.countP fun l => !named l.1

/-! ## what the lines do -/

/-- One line sets the status, adds a row, or does neither. -/
theorem fcgiHandleCgiHeader_spec (h : ResponseHeaders) (l : Bytes × Nat) :
    (named l.1 = true → ∃ h', fcgiHandleCgiHeader h l.1 l.2 = some h' ∧ h'.extraRows = h.extraRows ∧
      h'.status = (lineStatus l).getD h.status) ∧
    (named l.1 = false → lineStatus l = none ∧
      if h.extraRows.length < mkPluginHeaderExtraRows * 2 then
        ∃ h', fcgiHandleCgiHeader h l.1 l.2 = some h' ∧ h'.extraRows.length = h.extraRows.length + 1 ∧
          h'.status = h.status
      else fcgiHandleCgiHeader h l.1 l.2 = none) := by
  unfold fcgiHandleCgiHeader named lineStatus
  cases hct : strncasecmp l.1 contentTypeName 14
  · cases hloc : strncasecmp l.1 locationName 10
    · cases hstatus : strncasecmp l.1 statusName 8
      · refine ⟨by simp, fun _ => ⟨by simp, ?_⟩⟩
        split
        · next hlt => simp [mkIovAddEntry, extraRowsIov, hlt]
        · next hfull => simp [mkIovAddEntry, extraRowsIov, Nat.le_of_not_lt hfull]
      · refine ⟨fun _ => ?_, by simp⟩
        cases sscanfInt (l.1.drop 8) <;> simp
    · exact ⟨fun _ => ⟨_, rfl, rfl, rfl⟩, by simp⟩
  · exact ⟨fun _ => ⟨_, rfl, rfl, rfl⟩, by simp⟩

/-- **The lines of a header** leave the last status and all the rows, if those find
room. -/
theorem foldlM_lines (lines : List (Bytes × Nat)) (h : ResponseHeaders) :
    if extraLines lines = 0 ∨ h.extraRows.length + extraLines lines ≤ mkPluginHeaderExtraRows * 2 then
      ∃ h', lines.foldlM (fun h l => fcgiHandleCgiHeader h l.1 l.2) h = some h' ∧
        h'.extraRows.length = h.extraRows.length + extraLines lines ∧
        h'.status = (lines.filterMap lineStatus).getLast?.getD h.status
    else lines.foldlM (fun h l => fcgiHandleCgiHeader h l.1 l.2) h = none := by
  induction lines generalizing h with
  | nil => exact ⟨h, rfl, rfl, rfl⟩
  | cons l lines ih =>
      obtain ⟨hnamed, hrow⟩ := fcgiHandleCgiHeader_spec h l
      rw [List.foldlM_cons]
      cases hname : named l.1 with
      | true =>
          obtain ⟨h', hstep, hrows, hstatus⟩ := hnamed hname
          have hcount : extraLines (l :: lines) = extraLines lines := by simp [extraLines, hname]
          have hih := ih h'
          rw [hcount, hstep, Option.bind_eq_bind, Option.bind_some, List.filterMap_cons]
          rw [hrows, hstatus] at hih
          split at hih
          · next hroom =>
              rw [if_pos hroom]
              obtain ⟨h'', hfold, hlen, hlast⟩ := hih
              refine ⟨h'', hfold, hlen, ?_⟩
              rw [hlast]
              cases hline : lineStatus l with
              | none => rfl
              | some s => simp [List.getLast?_cons]
          · next hroom => rwa [if_neg hroom]
      | false =>
          obtain ⟨hline, hspec⟩ := hrow hname
          have hcount : extraLines (l :: lines) = extraLines lines + 1 := by simp [extraLines, hname]
          rw [hcount, List.filterMap_cons, hline]
          split at hspec
          · next hlt =>
              obtain ⟨h', hstep, hrows, hstatus⟩ := hspec
              have hih := ih h'
              rw [hstep, Option.bind_eq_bind, Option.bind_some]
              rw [hrows, hstatus] at hih
              by_cases hroom : h.extraRows.length + (extraLines lines + 1) ≤ mkPluginHeaderExtraRows * 2
              · rw [if_pos (.inr hroom)]
                rw [if_pos (.inr (by omega))] at hih
                obtain ⟨h'', hfold, hlen, hlast⟩ := hih
                exact ⟨h'', hfold, by omega, hlast⟩
              · rw [if_neg (by omega)]
                rwa [if_neg (by omega)] at hih
          · next hfull =>
              rw [hspec, if_neg (by omega)]
              rfl

/-! ## the whole header -/

/-- The header can be sent: the rows find room, and where the header can be taken off the
output, the status is known and there is room for the last line. -/
def HeadOk (sr : SessionRequest) (iov : ChunkIov) (entry beyond : Bytes) : Prop :=
  let lines := headerLines entry beyond
  let rows := sr.headers.extraRows.length + extraLines lines
  (extraLines lines = 0 ∨ rows ≤ mkPluginHeaderExtraRows * 2) ∧
    (0 < (fcgiParseCgiHeaders entry beyond).1 → (fcgiParseCgiHeaders entry beyond).1 ≤ chunkIovLength iov →
      statusKnown (headStatus lines) = true ∧ (rows = 0 ∨ rows < mkPluginHeaderExtraRows * 2))

/-- **The header of a response** is sent or refused, and does not stop the server, exactly
where the lines are few enough and the status is known. -/
theorem fcgiSendHead_isSome_iff (ctx : Ctx) (sr : SessionRequest) (encoded : Bool) (iov : ChunkIov)
    (entry beyond : Bytes) :
    (fcgiSendHead ctx sr encoded iov entry beyond).isSome = true ↔ HeadOk sr iov entry beyond := by
  have hfold := foldlM_lines (headerLines entry beyond) { sr.headers with status := mkHttpOk }
  unfold fcgiSendHead HeadOk fcgiCgiHeaders
  dsimp only at hfold ⊢
  split at hfold
  · next hroom =>
      obtain ⟨h, hlines, hrows, hstatus⟩ := hfold
      rw [hlines, Option.bind_some, and_iff_right hroom]
      unfold chunkIovDrop
      by_cases hdrop : 0 < (fcgiParseCgiHeaders entry beyond).1 ∧
          (fcgiParseCgiHeaders entry beyond).1 ≤ chunkIovLength iov
      · rw [if_pos hdrop]
        dsimp only
        rw [Option.isSome_map, mkHeaderSendIov_isSome]
        dsimp only
        rw [hstatus, ← List.length_eq_zero_iff, hrows]
        exact ⟨fun h _ _ => h, fun h => h hdrop.1 hdrop.2⟩
      · rw [if_neg hdrop]
        exact iff_of_true rfl fun hpos hle => absurd ⟨hpos, hle⟩ hdrop
  · next hroom =>
      rw [hfold, Option.bind_none]
      simp [hroom]

/-- A status, a content type and one more line. -/
example : (fcgiSendHead sampleCtx {} false
    { io := [ascii "Status: 404\nContent-type: text/html\nX-A: b\n\nno".toList] }
    (ascii "Status: 404\nContent-type: text/html\nX-A: b\n\nno".toList) []).isSome = true := by
  decide +kernel

/-- A status that is not in the table stops the server. -/
theorem fcgiSendHead_unknown_status : ¬ ∀ (ctx : Ctx) (sr : SessionRequest) (encoded : Bool) (iov : ChunkIov)
    (entry beyond : Bytes), sr.headers.extraRows = [] → iov.io.head? = some entry →
    (fcgiSendHead ctx sr encoded iov entry beyond).isSome = true := by
  intro h
  have hsent := h sampleCtx {} false { io := [ascii "Status: 299\n\nok".toList] }
    (ascii "Status: 299\n\nok".toList) [] rfl rfl
  exact absurd hsent (by decide +kernel)

end Monkey.Fastcgi
