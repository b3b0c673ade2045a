import Monkey.Lib.Decimal
import Monkey.Lib.HeaderFields

/-!
# Monkey.Lib.Responses

The responses that a client reads from a connection on which it has sent several requests.

Where a response ends is said by its header alone: there is no body behind an answer to a HEAD
and behind some statuses, and else the body has the length of the `Content-Length` field.  A
stream is cut into the responses it was made of exactly when each of them announces its length
(`readResponses_iff`).
-/

namespace Monkey

structure Response where
  start : Bytes
  fields : List (Bytes × Bytes)
  body : Bytes
deriving DecidableEq, Repr

/-- The bytes of a response. -/
def Response.text (r : Response) : Bytes := composeHeader r.start r.fields ++ r.body

/-- A response whose header can be read back. -/
structure Response.Readable (r : Response) : Prop where
  start : r.start ≠ [] ∧ 0x0a ∉ r.start
  fields : ∀ f ∈ r.fields, IsField f

/-! ## the length of a body -/

/-- The code in a status line: the number behind its first blank. -/
def statusCode (start : Bytes) : Nat := digits 0 ((start.dropWhile (· ≠ 0x20)).drop 1)

/-- The statuses that have no body. -/
def isBodiless (code : Nat) : Bool := (100 ≤ code ∧ code < 200) ∨ code = 204 ∨ code = 304

/-- The value of the first field of a name in upper case. -/
def fieldValue (name : Bytes) (fields : List (Bytes × Bytes)) : Option Bytes :=
  (fields.find? fun f => f.1.map toupper == name).map Prod.snd

def transferEncodingName : Bytes := ascii "TRANSFER-ENCODING".toList
def contentLengthName : Bytes := ascii "CONTENT-LENGTH".toList

/-- A value that is a number. -/
def numberOf (value : Bytes) : Option Nat :=
  if value ≠ [] ∧ value.all isdigit then some (digits 0 value) else none

/-- The length of a body, which depends on whether the request was a HEAD; `none` where the header
does not say it. -/
def bodyLength (head : Bool) (start : Bytes) (fields : List (Bytes × Bytes)) : Option Nat :=
  if head ∨ isBodiless (statusCode start) then some 0
  else if (fieldValue transferEncodingName fields).isSome then none
  else (fieldValue contentLengthName fields).bind numberOf

theorem numberOf_decimal (n : Nat) : numberOf (decimal n) = some n := by
  have hne : decimal n ≠ [] := by
    rcases lt_or_ge n 10 with hn | hn
    · simp [decimal_of_lt hn]
    · simp [decimal_of_le hn]
  have hall : (decimal n).all isdigit = true := List.all_eq_true.mpr isdigit_of_mem_decimal
  rw [numberOf, if_pos ⟨hne, hall⟩, digits_decimal]

theorem numberOf_decimalInt (x : Int) : numberOf (decimalInt x) = if 0 ≤ x then some x.toNat else none := by
  rw [decimalInt]
  by_cases hx : x < 0
  · rw [if_pos hx, if_neg (by omega), numberOf]
    exact if_neg fun h => absurd h.2 (by simp [isdigit])
  · rw [if_neg hx, if_pos (by omega), numberOf_decimal]
    congr 1
    omega

/-- A field whose name is another one is passed over. -/
theorem fieldValue_cons_of_ne {name : Bytes} {f : Bytes × Bytes} (h : f.1.map toupper ≠ name)
    (fields : List (Bytes × Bytes)) : fieldValue name (f :: fields) = fieldValue name fields := by
  rw [fieldValue, List.find?_cons_of_neg (by simpa using h)]
  rfl

theorem fieldValue_cons_self {name : Bytes} {f : Bytes × Bytes} (h : f.1.map toupper = name)
    (fields : List (Bytes × Bytes)) : fieldValue name (f :: fields) = some f.2 := by
  rw [fieldValue, List.find?_cons_of_pos (by simpa using h)]
  rfl

theorem fieldValue_append_of_ne {name : Bytes} {fields : List (Bytes × Bytes)}
    (h : ∀ f ∈ fields, f.1.map toupper ≠ name) (rest : List (Bytes × Bytes)) :
    fieldValue name (fields ++ rest) = fieldValue name rest := by
  induction fields with
  | nil => rfl
  | cons f fields ih =>
      rw [List.cons_append, fieldValue_cons_of_ne (h f List.mem_cons_self)]
      exact ih fun f hf => h f (List.mem_cons_of_mem _ hf)

theorem fieldValue_eq_none {name : Bytes} {fields : List (Bytes × Bytes)}
    (h : ∀ f ∈ fields, f.1.map toupper ≠ name) : fieldValue name fields = none := by
  rw [← List.append_nil fields]
  exact fieldValue_append_of_ne h []

/-! ## reading -/

/-- The next response, and what is behind it; `none` while its end is not there, or not known. -/
def readResponse (head : Bool) (s : Bytes) : Option (Response × Bytes) :=
  let (start, fields, rest) := readHeader s
  (bodyLength head start fields).bind fun n =>
    if n ≤ rest.length then some (⟨start, fields, rest.take n⟩, rest.drop n) else none

/-- One response for each request, a HEAD or another, and nothing behind the last one. -/
def readResponses : List Bool → Bytes → Option (List Response)
  | [], s => if s = [] then some [] else none
  | head :: heads, s => do
      let (r, rest) ← readResponse head s
      let rs ← readResponses heads rest
      some (r :: rs)

/-- A response is read as the one that was meant if and only if it is that one and its header announces
the length of its body; what is left is then what is behind it. -/
theorem readResponse_meant_iff {r meant : Response} (h : r.Readable) (hlength : meant.body.length = r.body.length)
    (head : Bool) (rest rest' : Bytes) :
    readResponse head (r.text ++ rest) = some (meant, rest') ↔
      (bodyLength head r.start r.fields = some r.body.length ∧ meant = r) ∧ rest' = rest := by
  have hheader : readHeader (r.text ++ rest) = (r.start, r.fields, r.body ++ rest) := by
    rw [Response.text, List.append_assoc]
    exact readHeader_compose h.start.1 h.start.2 h.fields (r.body ++ rest)
  simp only [readResponse, hheader]
  cases hannounced : bodyLength head r.start r.fields with
  | none => simp
  | some n =>
      rw [Option.bind_some, List.length_append, Option.some.injEq]
      constructor
      · intro hread
        split at hread
        · obtain ⟨rfl, hrest⟩ := Prod.mk.inj (Option.some.inj hread)
          rw [List.length_take, List.length_append] at hlength
          obtain rfl : n = r.body.length := by omega
          exact ⟨⟨rfl, by rw [List.take_left]⟩, by rw [← hrest, List.drop_left]⟩
        · cases hread
      · rintro ⟨⟨rfl, rfl⟩, rfl⟩
        rw [if_pos (Nat.le_add_right _ _), List.take_left, List.drop_left]

/-- **In step**: a client reads the responses that were meant, each with its own body, if and only if
these are what was sent and the header of each of them announces the length of its body. -/
theorem readResponses_meant_iff {rs : List (Bool × Response × Response)} (h : ∀ r ∈ rs, r.2.1.Readable)
    (hlength : ∀ r ∈ rs, r.2.2.body.length = r.2.1.body.length) :
    readResponses (rs.map Prod.fst) (rs.flatMap fun r => r.2.1.text) = some (rs.map fun r => r.2.2) ↔
      ∀ r ∈ rs, bodyLength r.1 r.2.1.start r.2.1.fields = some r.2.1.body.length ∧ r.2.2 = r.2.1 := by
  induction rs with
  | nil => simp [readResponses]
  | cons r rs ih =>
      obtain ⟨head, r, meant⟩ := r
      have hr := readResponse_meant_iff (h (head, r, meant) List.mem_cons_self)
        (hlength (head, r, meant) List.mem_cons_self) head
      have ih := ih (fun r hmem => h r (List.mem_cons_of_mem _ hmem))
        fun r hmem => hlength r (List.mem_cons_of_mem _ hmem)
      rw [List.forall_mem_cons, ← ih]
      simp only [List.map_cons, List.flatMap_cons, readResponses, Option.bind_eq_bind]
      constructor
      · intro hread
        obtain ⟨⟨r', rest'⟩, hfirst, hread⟩ := Option.bind_eq_some_iff.mp hread
        obtain ⟨rs', hrest, hread⟩ := Option.bind_eq_some_iff.mp hread
        obtain ⟨rfl, rfl⟩ := List.cons.inj (Option.some.inj hread)
        obtain ⟨hannounced, rfl⟩ := (hr _ _).mp hfirst
        exact ⟨hannounced, hrest⟩
      · rintro ⟨hannounced, hrest⟩
        rw [(hr _ _).mpr ⟨hannounced, rfl⟩, Option.bind_some, hrest, Option.bind_some]

/-- Responses that are meant as they are sent. -/
theorem readResponses_iff {rs : List (Bool × Response)} (h : ∀ r ∈ rs, r.2.Readable) :
    readResponses (rs.map Prod.fst) (rs.flatMap fun r => r.2.text) = some (rs.map Prod.snd) ↔
      ∀ r ∈ rs, bodyLength r.1 r.2.start r.2.fields = some r.2.body.length := by
  have hmeant := @readResponses_meant_iff (rs.map fun r => (r.1, r.2, r.2)) (by simpa using h) (by simp)
  simpa [List.flatMap_map, Function.comp_def] using hmeant

end Monkey
