import Monkey.Http.Paths
import Monkey.Lib.Extent
import Monkey.Lib.Tokens

/-!
# Monkey.Request.Line

The first line of a request: a method, a URI and a protocol, with a blank between them
and a CRLF behind.  What `mk_http_method_get` and `mk_request_header_process` make of it
is what the tokens say, except for four kinds of lines: a NUL ends the line for `index`, a
name cut short is taken for the name, and a `?` at either end of the URI is no separator.
-/

namespace Monkey

/-! ## the line -/

/-- A token of the first line. -/
structure IsToken (s : Bytes) : Prop where
  ne_nil : s ≠ []
  blank : 0x20 ∉ s
  newline : 0x0a ∉ s

/-- A first line and what follows it. -/
def requestLine (m u v rest : Bytes) : Bytes := m ++ 0x20 :: (u ++ 0x20 :: (v ++ (mkCrlf ++ rest)))

/-- A first line that `mk_request_header_process` gets past: what is in front of its first
blank, between the first and the last, and behind the last. -/
structure IsFirstLine (m u v : Bytes) : Prop where
  nul : 0 ∉ m ∧ 0 ∉ u ∧ 0 ∉ v
  newline : 0x0a ∉ m ∧ 0x0a ∉ u ∧ 0x0a ∉ v
  first : 0x20 ∉ m
  between : u ≠ []
  last : v ≠ [] ∧ 0x20 ∉ v

theorem IsToken.isFirstLine {m u v : Bytes} (hm : IsToken m) (hu : IsToken u) (hv : IsToken v)
    (h0 : 0 ∉ m ∧ 0 ∉ u ∧ 0 ∉ v) : IsFirstLine m u v :=
  ⟨h0, ⟨hm.newline, hu.newline, hv.newline⟩, hm.blank, hu.ne_nil, hv.ne_nil, hv.blank⟩

def methodTable : List (Bytes × Method) :=
  [(ascii "GET".toList, .get), (ascii "POST".toList, .post), (ascii "HEAD".toList, .head),
    (ascii "PUT".toList, .put), (ascii "DELETE".toList, .delete)]

def protocolTable : List (Bytes × Protocol) :=
  [(ascii "HTTP/1.1".toList, .http11), (ascii "HTTP/1.0".toList, .http10),
    (ascii "HTTP/0.9".toList, .http09)]

/-- The line has been read as its tokens say. -/
structure LineRead (m u v body : Bytes) (sr : SessionRequest) : Prop where
  method : mkHttpMethodGet body = lookupName methodTable .unknown m
  uri : sr.uri.text = u.takeWhile (· ≠ 0x3f)
  query : sr.queryString.text = (u.dropWhile (· ≠ 0x3f)).drop 1
  protocol : sr.protocol = lookupName protocolTable .unknown v

/-- No `?` is the first byte of the URI, and the first one is not its last byte. -/
def QueryInside (u : Bytes) : Prop :=
  u.head? ≠ some 0x3f ∧ (u.dropWhile (· ≠ 0x3f)).length ≠ 1

instance (u : Bytes) : Decidable (QueryInside u) := inferInstanceAs (Decidable (_ ∧ _))

/-- The lines that are read right. -/
structure PlainLine (m u v : Bytes) : Prop where
  nul : 0 ∉ m ∧ 0 ∉ u ∧ 0 ∉ v
  method : 3 ≤ m.length → ¬ CutShort methodTable m
  query : QueryInside u
  protocol : ¬ CutShort protocolTable v

/-! ## method and protocol -/

theorem mkHttpMethodCheck_eq {m : Bytes} (h0 : 0 ∉ m) (rest : Bytes) :
    mkHttpMethodCheck (m ++ rest) m.length = lookupPrefix methodTable .unknown m := by
  simp only [mkHttpMethodCheck, strncmp_token h0, methodTable, lookupPrefix_cons, lookupPrefix_nil]
  rfl

theorem mkHttpProtocolCheck_eq {v : Bytes} (h0 : 0 ∉ v) (rest : Bytes) :
    mkHttpProtocolCheck (v ++ rest) v.length = lookupPrefix protocolTable .unknown v := by
  have hlen : (if (v.length : Int) < 0 then 2 ^ 64 else (v.length : Int).toNat) = v.length := by
    rw [if_neg (by omega), Int.toNat_natCast]
  simp only [mkHttpProtocolCheck, hlen, strncmp_token h0, protocolTable, lookupPrefix_cons,
    lookupPrefix_nil]
  rfl

theorem not_cutShort_methodTable : ∀ e ∈ methodTable, ¬ CutShort methodTable e.1 := by decide

theorem not_cutShort_protocolTable : ∀ e ∈ protocolTable, ¬ CutShort protocolTable e.1 := by decide

/-- The method is right unless a name is cut short to three bytes or more. -/
theorem mkHttpMethodGet_eq_iff {m : Bytes} (h0 : 0 ∉ m) (hblank : 0x20 ∉ m) (rest : Bytes) :
    mkHttpMethodGet (m ++ 0x20 :: rest) = lookupName methodTable .unknown m ↔
      (3 ≤ m.length → ¬ CutShort methodTable m) := by
  have hlength : ∀ e ∈ methodTable, 3 ≤ e.1.length ∧ e.1.length < 7 := by decide
  have hnone : ¬ (3 ≤ m.length ∧ m.length < 7) → lookupName methodTable .unknown m = .unknown := by
    intro hbad
    rw [lookupName, List.find?_eq_none.mpr]
    · rfl
    · intro e he heq
      exact hbad (beq_iff_eq.mp heq ▸ hlength e he)
  by_cases hseven : m.length < 7
  · have hpos : mkStringCharSearch (m ++ 0x20 :: rest) 0x20 7 = m.length := by
      simp only [mkStringCharSearch, Int.reduceLT, if_false, Int.reduceToNat,
        memchr_append_cons hblank rest hseven]
      rfl
    by_cases hthree : 3 ≤ m.length
    · rw [mkHttpMethodGet, hpos, if_neg (by omega), Int.toNat_natCast, mkHttpMethodCheck_eq h0,
        lookupPrefix_eq_iff (by decide) not_cutShort_methodTable, forall_prop_of_true hthree]
    · rw [mkHttpMethodGet, hpos, if_pos (by omega), hnone (by omega)]
      exact iff_of_true rfl fun h => absurd h hthree
  · have hcut : ¬ CutShort methodTable m := by
      rintro ⟨e, he, hpre, -⟩
      have := (hlength e he).2
      have := hpre.length_le
      omega
    have hsearch : memchr (m ++ 0x20 :: rest) 0x20 7 = none := by
      apply memchr_eq_none
      rw [List.take_append_of_le_length (by omega)]
      exact fun hmem => hblank (List.mem_of_mem_take hmem)
    rw [hnone (by omega)]
    refine iff_of_true ?_ fun _ => hcut
    simp [mkHttpMethodGet, mkStringCharSearch, hsearch, position]

/-- The protocol is right unless its name is cut short. -/
theorem mkHttpProtocolCheck_eq_iff {v : Bytes} (h0 : 0 ∉ v) (rest : Bytes) :
    mkHttpProtocolCheck (v ++ rest) v.length = lookupName protocolTable .unknown v ↔
      ¬ CutShort protocolTable v := by
  rw [mkHttpProtocolCheck_eq h0, lookupPrefix_eq_iff (by decide) not_cutShort_protocolTable]

/-! ## where the line is cut -/

section line

variable {m u v : Bytes}

/-- The position of the line feed. -/
theorem IsFirstLine.strchr_newline (h : IsFirstLine m u v) (rest : Bytes) :
    strchr (requestLine m u v rest) 0x0a = some (m.length + u.length + v.length + 3) := by
  have hsplit : requestLine m u v rest =
      (m ++ 0x20 :: (u ++ 0x20 :: (v ++ [0x0d]))) ++ 0x0a :: rest := by
    simp [requestLine, mkCrlf]
  rw [hsplit, strchr_append_cons (by simp [h.nul]) (by simp [h.newline]) (by decide)]
  simp only [List.length_append, List.length_cons, List.length_nil, Option.some.injEq]
  omega

/-- A NUL in the line hides the line feed. -/
theorem strchr_requestLine_nul (hline : 0x0a ∉ m ∧ 0x0a ∉ u ∧ 0x0a ∉ v)
    (h0 : ¬ (0 ∉ m ∧ 0 ∉ u ∧ 0 ∉ v)) (rest : Bytes) :
    strchr (requestLine m u v rest) 0x0a = none := by
  have hsplit : requestLine m u v rest =
      (m ++ 0x20 :: (u ++ 0x20 :: v)) ++ (mkCrlf ++ rest) := by
    simp [requestLine]
  have hmem : 0 ∈ m ++ 0x20 :: (u ++ 0x20 :: v) := by
    simp only [List.mem_append, List.mem_cons]
    tauto
  rw [strchr, hsplit, cstr_append_of_mem hmem, List.findIdx?_eq_none_iff]
  intro c hc
  rw [beq_eq_false_iff_ne]
  rintro rfl
  have hmem := (List.takeWhile_prefix _).subset hc
  simp [hline] at hmem

/-- The last blank of the line. -/
theorem memrchr_requestLine (m u : Bytes) (hv : 0x20 ∉ v) (rest : Bytes) :
    memrchr (requestLine m u v rest) 0x20 (m.length + u.length + v.length + 3) =
      some (m.length + u.length + 1) := by
  have hsplit : requestLine m u v rest =
      (m ++ 0x20 :: u) ++ 0x20 :: ((v ++ [0x0d]) ++ 0x0a :: rest) := by
    simp [requestLine, mkCrlf]
  have hlen : m.length + u.length + v.length + 3 =
      (m ++ 0x20 :: u).length + ((v ++ [0x0d]).length + 1) := by
    simp only [List.length_append, List.length_cons, List.length_nil]
    omega
  rw [hsplit, hlen, memrchr_append_cons (by simp [hv])]
  simp only [List.length_append, List.length_cons, Option.some.injEq]
  omega

/-- A request with such a first line comes to its header fields. -/
theorem IsFirstLine.mkRequestHeaderProcess_eq (h : IsFirstLine m u v) {rest : Bytes}
    (hlen : (requestLine m u v rest).length < 2 ^ 31) (cfg : Config) (sys : Sys)
    {sr : SessionRequest} (hbody : sr.body.data = some (requestLine m u v rest)) :
    mkRequestHeaderProcess cfg sys sr =
      mkRequestFieldsProcess cfg rest ((sr.body.len : Int) - (m.length + u.length + v.length + 4 : Nat))
        (mkRequestUriDecode
          { mkRequestUriProcess (requestLine m u v rest) (m.length + 1 : Nat) (m.length + u.length : Nat)
              (m.length + u.length + 2 : Nat) sr with
            protocol := mkHttpProtocolCheck (v ++ (mkCrlf ++ rest)) v.length }) := by
  have hupos := List.length_pos_iff.mpr h.between
  have hvpos := List.length_pos_iff.mpr h.last.1
  have hinit : indexOf sys (requestLine m u v rest) 0x20 = (m.length : Int) := by
    rw [indexOf, requestLine, strchr_append_cons h.nul.1 h.first (by decide)]
    rfl
  have hlimit : indexOf sys (requestLine m u v rest) 0x0a =
      ((m.length + u.length + v.length + 3 : Nat) : Int) := by
    rw [indexOf, h.strchr_newline]
    rfl
  have hblank : mkStringCharSearchR (requestLine m u v rest) 0x20
      ((m.length + u.length + v.length + 3 : Nat) : Int) = ((m.length + u.length + 1 : Nat) : Int) := by
    rw [mkStringCharSearchR, if_neg (by omega), Int.toNat_natCast, memrchr_requestLine m u h.last.2]
    rfl
  have huriEnd : ((m.length + u.length + 1 : Nat) : Int) - 1 = (m.length + u.length : Nat) := by omega
  have huriInit : (m.length : Int) + 1 = (m.length + 1 : Nat) := by omega
  have hprotInit : ((m.length + u.length : Nat) : Int) + 2 = (m.length + u.length + 2 : Nat) := by omega
  have hprotEnd : ((m.length + u.length + v.length + 3 : Nat) : Int) - 1 =
      (m.length + u.length + v.length + 2 : Nat) := by omega
  obtain ⟨stop, hlt, hle, huri⟩ := @mkRequestUriProcess_uri (requestLine m u v rest) (m.length + 1 : Nat)
    (m.length + u.length : Nat) (m.length + u.length + 2 : Nat) sr (by omega)
  have huriLen : ¬ (mkRequestUriProcess (requestLine m u v rest) (m.length + 1 : Nat)
      (m.length + u.length : Nat) (m.length + u.length + 2 : Nat) sr).uri.len < 1 := by
    simp only [huri, mkPointerCreate, if_pos hlt.ne]
    unfold toULong
    simp only [requestLine, List.length_append, List.length_cons] at hlen
    omega
  have hkept : (mkRequestUriProcess (requestLine m u v rest) (m.length + 1 : Nat)
      (m.length + u.length : Nat) (m.length + u.length + 2 : Nat) sr).body = sr.body := by
    obtain ⟨uri, queryString, heq⟩ := mkRequestUriProcess_eq (requestLine m u v rest)
      (m.length + 1 : Nat) (m.length + u.length : Nat) (m.length + u.length + 2 : Nat) sr
    rw [heq]
  have hprotocol : (requestLine m u v rest).drop (m.length + u.length + 2) = v ++ (mkCrlf ++ rest) := by
    have hsplit : requestLine m u v rest = (m ++ 0x20 :: (u ++ [0x20])) ++ (v ++ (mkCrlf ++ rest)) := by
      simp [requestLine]
    rw [hsplit, List.drop_left']
    simp only [List.length_append, List.length_cons, List.length_nil]
    omega
  have hheaders : (requestLine m u v rest).drop (m.length + u.length + v.length + 4) = rest := by
    have hsplit : requestLine m u v rest = (m ++ 0x20 :: (u ++ 0x20 :: (v ++ mkCrlf))) ++ rest := by
      simp [requestLine]
    rw [hsplit, List.drop_left']
    simp only [List.length_append, List.length_cons, mkCrlf, List.length_nil]
    omega
  unfold mkRequestHeaderProcess
  simp only [hbody, Option.getD_some, hinit, hlimit, hblank, huriEnd, huriInit, hprotInit, hprotEnd]
  rw [if_neg (by omega), if_neg (by omega), if_neg huriLen, if_neg (by omega), if_pos (by omega),
    Int.toNat_natCast, hprotocol]
  have hat : ((m.length + u.length + v.length + 2 : Nat) : Int) + 2 =
      (m.length + u.length + v.length + 4 : Nat) := by omega
  have hcount : ((m.length + u.length + v.length + 2 : Nat) : Int) - (m.length + u.length + 2 : Nat) =
      v.length := by omega
  simp only [hat, Int.toNat_natCast, hheaders, hcount, hkept]

end line

/-! ## URI and query string -/

theorem mkPointerCreate_text (buf : Bytes) (i : Nat) {n : Nat} (hpos : 0 < n) (hlt : n < 2 ^ 64) :
    (mkPointerCreate buf i (i + n : Nat)).text = (buf.drop i).take n := by
  have hlen : toULong (((i + n : Nat) : Int) - i) = n := by
    unfold toULong
    omega
  simp only [mkPointerCreate, MkPointer.text, Option.getD_some, Int.toNat_natCast, hlen]
  rw [if_pos (by omega)]

/-- An empty range is one byte long. -/
theorem mkPointerCreate_empty (buf : Bytes) (i : Nat) :
    (mkPointerCreate buf i i).text = (buf.drop i).take 1 := by
  simp [mkPointerCreate, MkPointer.text]

section uri

variable {body m u w : Bytes} {sr : SessionRequest}

/-- Where the search for a `?` leads. -/
theorem mkRequestUriProcess_search (hdrop : body.drop (m.length + 1) = u ++ 0x20 :: w) :
    mkRequestUriProcess body (m.length + 1 : Nat) (m.length + u.length : Nat)
        (m.length + u.length + 2 : Nat) sr =
      match memchr (u ++ 0x20 :: w) 0x3f (m.length + u.length + 2) with
      | some k =>
          if 0 < k ∧ k < u.length then
            { sr with
              queryString := mkPointerCreate body (m.length + k + 2 : Nat) (m.length + u.length + 1 : Nat)
              uri := mkPointerCreate body (m.length + 1 : Nat) (m.length + 1 + k : Nat) }
          else { sr with uri := mkPointerCreate body (m.length + 1 : Nat) (m.length + 1 + u.length : Nat) }
      | none =>
          { sr with uri := mkPointerCreate body (m.length + 1 : Nat) (m.length + 1 + u.length : Nat) } := by
  have hend : ((m.length + u.length : Nat) : Int) + 1 = (m.length + 1 + u.length : Nat) := by omega
  have hsearch : mkStringCharSearch (body.drop ((m.length + 1 : Nat) : Int).toNat) 0x3f
      (m.length + u.length + 2 : Nat) =
        position (memchr (u ++ 0x20 :: w) 0x3f (m.length + u.length + 2)) := by
    rw [mkStringCharSearch, if_neg (by omega), Int.toNat_natCast, Int.toNat_natCast, hdrop]
  cases hfound : memchr (u ++ 0x20 :: w) 0x3f (m.length + u.length + 2) with
  | none =>
      rw [hfound] at hsearch
      change _ = (-1 : Int) at hsearch
      simp only [mkRequestUriProcess, hsearch, hend]
      rw [if_neg (by omega)]
  | some k =>
      rw [hfound] at hsearch
      change _ = (k : Int) at hsearch
      have hmark : (k : Int) + (m.length + 1 : Nat) + 1 = (m.length + k + 2 : Nat) := by omega
      have hstop : (k : Int) + (m.length + 1 : Nat) = (m.length + 1 + k : Nat) := by omega
      have hlast : m.length + 1 + u.length = m.length + u.length + 1 := by omega
      simp only [mkRequestUriProcess, hsearch, hend, hmark, hlast]
      by_cases hk : 0 < k ∧ k < u.length
      · rw [if_pos hk, if_pos (by omega), hstop]
      · rw [if_neg hk, if_neg (by omega)]

theorem mkRequestUriProcess_whole (hne : u ≠ []) (hlen : body.length < 2 ^ 31)
    (hdrop : body.drop (m.length + 1) = u ++ 0x20 :: w) :
    (mkPointerCreate body (m.length + 1 : Nat) (m.length + 1 + u.length : Nat)).text = u := by
  have hlength := congrArg List.length hdrop
  rw [List.length_drop, List.length_append] at hlength
  rw [mkPointerCreate_text body (m.length + 1) (List.length_pos_iff.mpr hne) (by omega), hdrop,
    List.take_left]

/-- A first `?` behind the URI does not count. -/
theorem mkRequestUriProcess_plain (hne : u ≠ []) (hmark : 0x3f ∉ u) (hlen : body.length < 2 ^ 31)
    (hdrop : body.drop (m.length + 1) = u ++ 0x20 :: w) :
    let sr' := mkRequestUriProcess body (m.length + 1 : Nat) (m.length + u.length : Nat)
      (m.length + u.length + 2 : Nat) sr
    sr'.uri.text = u ∧ sr'.queryString = sr.queryString := by
  have hwhole := mkRequestUriProcess_whole hne hlen hdrop
  simp only [mkRequestUriProcess_search hdrop]
  cases hk : memchr (u ++ 0x20 :: w) 0x3f (m.length + u.length + 2) with
  | none => exact ⟨hwhole, rfl⟩
  | some k =>
      have hbehind : ¬ (0 < k ∧ k < u.length) := by
        rintro ⟨-, hlt⟩
        have hget := memchr_getElem? hk
        rw [List.getElem?_append_left hlt] at hget
        exact hmark (List.mem_of_getElem? hget)
      simp only
      rw [if_neg hbehind]
      exact ⟨hwhole, rfl⟩

/-- A `?` at the start of the URI does not count either. -/
theorem mkRequestUriProcess_first (hlen : body.length < 2 ^ 31)
    (hdrop : body.drop (m.length + 1) = (0x3f :: u) ++ 0x20 :: w) :
    (mkRequestUriProcess body (m.length + 1 : Nat) (m.length + (0x3f :: u).length : Nat)
      (m.length + (0x3f :: u).length + 2 : Nat) sr).uri.text = 0x3f :: u := by
  have hwhole := mkRequestUriProcess_whole (List.cons_ne_nil _ _) hlen hdrop
  have hfound : memchr ((0x3f :: u) ++ 0x20 :: w) 0x3f (m.length + (0x3f :: u).length + 2) = some 0 :=
    memchr_append_cons (s := []) (by simp) (u ++ 0x20 :: w) (by simp)
  simp only [mkRequestUriProcess_search hdrop, hfound]
  rw [if_neg (by omega)]
  exact hwhole

/-- A `?` inside the URI separates; behind one at its end the blank is taken. -/
theorem mkRequestUriProcess_query {a b : Bytes} (hne : a ≠ []) (ha : 0x3f ∉ a)
    (hlen : body.length < 2 ^ 31)
    (hdrop : body.drop (m.length + 1) = (a ++ 0x3f :: b) ++ 0x20 :: w) :
    let sr' := mkRequestUriProcess body (m.length + 1 : Nat) (m.length + (a ++ 0x3f :: b).length : Nat)
      (m.length + (a ++ 0x3f :: b).length + 2 : Nat) sr
    sr'.uri.text = a ∧ sr'.queryString.text = if b = [] then [0x20] else b := by
  have hapos := List.length_pos_iff.mpr hne
  have hlength := congrArg List.length hdrop
  simp only [List.length_drop, List.length_append, List.length_cons] at hlength
  have hfound : memchr ((a ++ 0x3f :: b) ++ 0x20 :: w) 0x3f
      (m.length + (a ++ 0x3f :: b).length + 2) = some a.length := by
    rw [List.append_assoc, List.cons_append, memchr_append_cons ha]
    rw [List.length_append]
    omega
  have hquery : body.drop (m.length + a.length + 2) = b ++ 0x20 :: w := by
    rw [show m.length + a.length + 2 = m.length + 1 + (a.length + 1) by omega, ← List.drop_drop,
      hdrop, List.append_assoc, List.cons_append, List.drop_length_add_append, List.drop_succ_cons,
      List.drop_zero]
  simp only [mkRequestUriProcess_search hdrop, hfound]
  rw [if_pos ⟨hapos, by rw [List.length_append, List.length_cons]; omega⟩]
  constructor
  · rw [mkPointerCreate_text body (m.length + 1) hapos (by omega), hdrop, List.append_assoc,
      List.take_left]
  · have hstop : m.length + (a ++ 0x3f :: b).length + 1 = m.length + a.length + 2 + b.length := by
      rw [List.length_append, List.length_cons]
      omega
    simp only [hstop]
    split
    · next hb =>
        rw [hb, List.length_nil, add_zero, mkPointerCreate_empty, hquery, hb]
        rfl
    · next hb =>
        rw [mkPointerCreate_text body _ (List.length_pos_iff.mpr hb) (by omega), hquery, List.take_left]

/-- The URI and the query string are what a `?` inside the URI separates. -/
theorem mkRequestUriProcess_iff (hne : u ≠ []) (hlen : body.length < 2 ^ 31)
    (hdrop : body.drop (m.length + 1) = u ++ 0x20 :: w) (hquery : sr.queryString = {}) :
    let sr' := mkRequestUriProcess body (m.length + 1 : Nat) (m.length + u.length : Nat)
      (m.length + u.length + 2 : Nat) sr
    (sr'.uri.text = u.takeWhile (· ≠ 0x3f) ∧
      sr'.queryString.text = (u.dropWhile (· ≠ 0x3f)).drop 1) ↔ QueryInside u := by
  by_cases hmark : 0x3f ∈ u
  · obtain ⟨a, b, rfl, ha⟩ := List.eq_append_cons_of_mem hmark
    simp only [takeWhile_append_cons ha, dropWhile_append_cons ha, QueryInside]
    by_cases hne : a = []
    · subst hne
      have huri := @mkRequestUriProcess_first body m b w sr hlen hdrop
      refine iff_of_false ?_ fun h => h.1 rfl
      rintro ⟨hempty, -⟩
      exact List.cons_ne_nil _ _ (huri.symm.trans hempty)
    · obtain ⟨huri, htext⟩ := @mkRequestUriProcess_query body m w sr a b hne ha hlen hdrop
      simp only [huri, htext]
      obtain ⟨c, a, rfl⟩ := List.exists_cons_of_ne_nil hne
      have hc : c ≠ 0x3f := fun h => ha (h ▸ List.mem_cons_self)
      by_cases hb : b = []
      · simp [hb]
      · simp [hb, hc]
  · obtain ⟨huri, htext⟩ := @mkRequestUriProcess_plain body m u w sr hne hmark hlen hdrop
    simp only [htext, hquery, takeWhile_of_notMem hmark, dropWhile_of_notMem hmark]
    refine iff_of_true ⟨huri, rfl⟩ ⟨?_, ?_⟩
    · intro hhead
      exact hmark (List.mem_of_head? hhead)
    · rw [dropWhile_of_notMem hmark]
      simp

end uri

/-! ## the whole line -/

/-- The first line of a request. -/
def SessionRequest.line (sr : SessionRequest) : MkPointer × MkPointer × Protocol :=
  (sr.uri, sr.queryString, sr.protocol)

/-- Without a line feed the protocol is not read. -/
theorem mkRequestHeaderProcess_no_newline (cfg : Config) {sys : Sys} (hnull : sys.nullDiff ≤ 0)
    {sr : SessionRequest} {body : Bytes} (hbody : sr.body.data = some body)
    (hline : strchr body 0x0a = none) :
    (mkRequestHeaderProcess cfg sys sr).2.protocol = sr.protocol := by
  have hlimit : indexOf sys body 0x0a = sys.nullDiff := by
    rw [indexOf, hline]
    rfl
  unfold mkRequestHeaderProcess
  simp only [hbody, Option.getD_some, hlimit]
  split
  · rfl
  split
  · rfl
  obtain ⟨uri, queryString, huri⟩ := mkRequestUriProcess_eq body (indexOf sys body 0x20 + 1)
    (mkStringCharSearchR body 0x20 sys.nullDiff - 1) (mkStringCharSearchR body 0x20 sys.nullDiff - 1 + 2) sr
  rw [huri]
  split
  · rfl
  split
  · rfl
  rw [if_neg (by omega), mkRequestFieldsProcess_keeps (f := fun sr => sr.protocol)
    (fun _ _ _ _ _ _ _ _ _ _ => rfl)]
  rfl

theorem mkRequestUriDecode_line (sr : SessionRequest) : (mkRequestUriDecode sr).line = sr.line := by
  obtain ⟨uriProcessed, heq⟩ : ∃ p, mkRequestUriDecode sr = { sr with uriProcessed := p } := ⟨_, rfl⟩
  rw [heq]
  rfl

/-- The first line of a request once its header fields have been processed. -/
theorem mkRequestHeaderProcess_line {m u v rest : Bytes} (h : IsFirstLine m u v)
    (hlen : (requestLine m u v rest).length < 2 ^ 31) (cfg : Config) (sys : Sys) {sr : SessionRequest}
    (hbody : sr.body.data = some (requestLine m u v rest)) :
    (mkRequestHeaderProcess cfg sys sr).2.line =
      let sr' := mkRequestUriProcess (requestLine m u v rest) (m.length + 1 : Nat)
        (m.length + u.length : Nat) (m.length + u.length + 2 : Nat) sr
      (sr'.uri, sr'.queryString, mkHttpProtocolCheck (v ++ (mkCrlf ++ rest)) v.length) := by
  rw [h.mkRequestHeaderProcess_eq hlen cfg sys hbody,
    mkRequestFieldsProcess_keeps (f := SessionRequest.line) (fun _ _ _ _ _ _ _ _ _ _ => rfl),
    mkRequestUriDecode_line]
  simp only [SessionRequest.line]

theorem lookupName_protocolTable_ne (v : Bytes) : lookupName protocolTable .unknown v ≠ .unset := by
  unfold lookupName
  cases hfind : protocolTable.find? fun e => v == e.1 with
  | none => exact Protocol.noConfusion
  | some e =>
      have hset : ∀ e ∈ protocolTable, e.2 ≠ .unset := by decide
      exact hset e (List.mem_of_find?_eq_some hfind)

/-- **First line**: it is read as its tokens say exactly when no NUL ends it, no name is cut
short and no `?` stands at an end of the URI. -/
theorem first_line_iff {m u v rest : Bytes} (hm : IsToken m) (hu : IsToken u) (hv : IsToken v)
    (hlen : (requestLine m u v rest).length < 2 ^ 31) :
    (∀ (cfg : Config) (sys : Sys) (sr : SessionRequest),
      sr.body.data = some (requestLine m u v rest) → sr.queryString = {} → sr.protocol = .unset →
      LineRead m u v (requestLine m u v rest) (mkRequestHeaderProcess cfg sys sr).2) ↔
    PlainLine m u v := by
  obtain ⟨sr, hbody, hempty, hunset⟩ : ∃ sr : SessionRequest,
      sr.body.data = some (requestLine m u v rest) ∧ sr.queryString = {} ∧ sr.protocol = .unset :=
    ⟨{ body := ⟨some (requestLine m u v rest), 0⟩ }, rfl, rfl, rfl⟩
  by_cases h0 : 0 ∉ m ∧ 0 ∉ u ∧ 0 ∉ v
  · have hmethod := mkHttpMethodGet_eq_iff h0.1 hm.blank (u ++ 0x20 :: (v ++ (mkCrlf ++ rest)))
    have hprotocol := mkHttpProtocolCheck_eq_iff h0.2.2 (mkCrlf ++ rest)
    have hdrop : (requestLine m u v rest).drop (m.length + 1) =
        u ++ 0x20 :: (v ++ (mkCrlf ++ rest)) := by
      rw [requestLine, List.drop_length_add_append, List.drop_succ_cons, List.drop_zero]
    have hline := mkRequestHeaderProcess_line (hm.isFirstLine hu hv h0) hlen
    constructor
    · intro hread
      have hgood := hread sampleConfig sampleSys sr hbody hempty hunset
      have hkept := hline sampleConfig sampleSys hbody
      simp only [SessionRequest.line, Prod.mk.injEq] at hkept
      obtain ⟨huri, hquery, hprot⟩ := hkept
      refine ⟨h0, hmethod.mp hgood.method, ?_, hprotocol.mp (hprot.symm.trans hgood.protocol)⟩
      refine (mkRequestUriProcess_iff hu.ne_nil hlen hdrop hempty).mp ⟨?_, ?_⟩
      · rw [← huri, hgood.uri]
      · rw [← hquery, hgood.query]
    · rintro ⟨-, hshort, hquery, hcut⟩ cfg sys sr hbody hempty -
      obtain ⟨huri, htext⟩ := (mkRequestUriProcess_iff hu.ne_nil hlen hdrop hempty).mpr hquery
      have hkept := hline cfg sys hbody
      simp only [SessionRequest.line, Prod.mk.injEq] at hkept
      refine ⟨hmethod.mpr hshort, ?_, ?_, hkept.2.2.trans (hprotocol.mpr hcut)⟩
      · rw [hkept.1, huri]
      · rw [hkept.2.1, htext]
  · refine iff_of_false ?_ fun h => h0 h.nul
    intro hread
    have hgood := (hread sampleConfig sampleSys sr hbody hempty hunset).protocol
    rw [mkRequestHeaderProcess_no_newline sampleConfig le_rfl hbody
      (strchr_requestLine_nul ⟨hm.newline, hu.newline, hv.newline⟩ h0 rest), hunset] at hgood
    exact lookupName_protocolTable_ne v hgood.symm

/-- A line with a query string, read right. -/
theorem first_line_get : LineRead (ascii "GET".toList) (ascii "/a?b=1".toList) (ascii "HTTP/1.1".toList)
    (ascii "GET /a?b=1 HTTP/1.1\r\n\r\n".toList)
    (mkRequestHeaderProcess sampleConfig sampleSys
      { body := ⟨some (ascii "GET /a?b=1 HTTP/1.1\r\n\r\n".toList), 19⟩ }).2 :=
  (@first_line_iff (ascii "GET".toList) (ascii "/a?b=1".toList) (ascii "HTTP/1.1".toList) mkCrlf
    ⟨by decide, by decide, by decide⟩ ⟨by decide, by decide, by decide⟩ ⟨by decide, by decide, by decide⟩
    (by decide)).mpr ⟨by decide, by decide, by decide, by decide⟩ sampleConfig sampleSys
    { body := ⟨some (ascii "GET /a?b=1 HTTP/1.1\r\n\r\n".toList), 19⟩ } rfl rfl rfl

/-- A method and a protocol cut short are taken for whole. -/
theorem not_first_line_read : ¬ ∀ (cfg : Config) (sys : Sys) (sr : SessionRequest) (m u v rest : Bytes),
    IsToken m → IsToken u → IsToken v → (requestLine m u v rest).length < 2 ^ 31 →
    sr.body.data = some (requestLine m u v rest) → sr.queryString = {} → sr.protocol = .unset →
    LineRead m u v (requestLine m u v rest) (mkRequestHeaderProcess cfg sys sr).2 := by
  intro h
  have hread := h sampleConfig sampleSys { body := ⟨some (ascii "POS /a HTTP/1\r\n\r\n".toList), 13⟩ }
    (ascii "POS".toList) (ascii "/a".toList) (ascii "HTTP/1".toList) mkCrlf
    ⟨by decide, by decide, by decide⟩ ⟨by decide, by decide, by decide⟩ ⟨by decide, by decide, by decide⟩
    (by decide) rfl rfl rfl
  exact absurd hread.method (by decide)

end Monkey
