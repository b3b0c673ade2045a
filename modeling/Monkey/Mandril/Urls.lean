import Monkey.Http.Header
import Monkey.Http.Percent
import Monkey.Mandril.Addresses

/-!
# Monkey.Mandril.Urls

The URIs the mandril plugin refuses: the rules `Deny_URL` of its configuration, and the
stage 20 hook.

A rule is looked for in the URI as it came, where the core serves it decoded.

Two URIs are the same for the core when they are decoded to the same bytes; the hook looks at the
URI as it came, though the decoded one is there already.
-/

namespace Monkey.Mandril

/-- The test of the loop over the rules. -/
def mkSecurityUrlTest (url : MkPointer) (criteria : Bytes) : Bool :=
  decide (0 ≤ mkStringSearchN (url.data.getD []) (cstr criteria) (toInt url.len))

/-- `mk_security_check_url`. -/
def mkSecurityCheckUrl (mkSecureUrl : List Bytes) (url : MkPointer) : Int :=
  if mkSecureUrl.any (mkSecurityUrlTest url) then -1 else 0

/-- `_mkp_stage_20`. -/
def mkpStage20 (mkSecureUrl : List Bytes) (sr : SessionRequest) : Int × SessionRequest :=
  if mkSecurityCheckUrl mkSecureUrl sr.uri < 0 then
    (mkPluginRetCloseConx, mkHeaderSetHttpStatus sr mkClientForbidden)
  else (mkPluginRetContinue, sr)

/-- The hook has the connection closed. -/
def Refused (rules : List Bytes) (sr : SessionRequest) : Prop := (mkpStage20 rules sr).1 = mkPluginRetCloseConx

/-- A request that comes to stage 20. -/
structure Stage20Request (sr : SessionRequest) : Prop where
  uri : RequestUri sr.uri
  processed : sr.uriProcessed = processedUri sr.uri
  root : (uriText sr.uri).head? = some 0x2f

/-- A text contains that of a rule, in whatever case. -/
def Contains (criteria text : Bytes) : Prop := (cstr criteria).map toupper <:+: text.map toupper

/-- Whatever the other rules, two spellings of a path are decided alike, and refused if
the path contains the text of this rule. -/
def SpellingProof (criteria : Bytes) : Prop :=
  ∀ rules, criteria ∈ rules → ∀ sr₁ sr₂, Stage20Request sr₁ → Stage20Request sr₂ →
    uriText sr₁.uri = uriText sr₂.uri →
      (Refused rules sr₁ ↔ Refused rules sr₂) ∧ (Contains criteria (uriText sr₁.uri) → Refused rules sr₁)

/-! ## the search -/

theorem refused_iff {rules : List Bytes} {sr : SessionRequest} :
    Refused rules sr ↔ ∃ criteria ∈ rules, mkSecurityUrlTest sr.uri criteria = true := by
  rw [Refused, mkpStage20, mkSecurityCheckUrl, ← List.any_eq_true]
  by_cases hany : rules.any (mkSecurityUrlTest sr.uri) = true
  · rw [if_pos hany]
    exact iff_of_true rfl hany
  · rw [if_neg hany]
    exact iff_of_false (by decide : mkPluginRetContinue ≠ mkPluginRetCloseConx) hany

theorem refused_singleton {criteria : Bytes} {sr : SessionRequest} :
    Refused [criteria] sr ↔ mkSecurityUrlTest sr.uri criteria = true := by
  rw [refused_iff]
  simp

theorem mkStringSearchLoop_sound {search s : Bytes} {len i p : Nat}
    (h : mkStringSearchLoop .insensitive search len s i = some p) :
    search.map toupper <:+: s.map toupper := by
  induction s generalizing i with
  | nil =>
      rw [mkStringSearchLoop] at h
      split at h
      · next hnil => rw [hnil]
      · contradiction
  | cons c s ih =>
      rw [mkStringSearchLoop_cons] at h
      split at h
      · next hpre => exact (List.isPrefixOf_iff_prefix.mp hpre).isInfix
      · split at h
        · contradiction
        · split at h
          · contradiction
          · exact (ih h).trans (List.suffix_cons _ _).isInfix

/-- What is found is in the string. -/
theorem mkStringSearchN_sound {hay needle : Bytes} {len : Int} (h : 0 ≤ mkStringSearchN hay needle len) :
    needle.map toupper <:+: hay.map toupper := by
  unfold mkStringSearchN at h
  split at h
  · unfold mkStringSearchI strcasestr at h
    cases hfound : findSub (needle.map toupper) ((cstr hay).map toupper) with
    | none =>
        rw [hfound] at h
        exact absurd h (by decide)
    | some p =>
        have hpre := findSub_sound hfound
        have hcstr : (cstr hay).map toupper <:+: hay.map toupper :=
          ((List.takeWhile_prefix _).map toupper).isInfix
        exact (hpre.isInfix.trans (List.drop_suffix _ _).isInfix).trans hcstr
  · cases hfound : mkStringSearchLoop .insensitive needle len.toNat hay 0 with
    | none =>
        rw [hfound] at h
        exact absurd h (by decide)
    | some p => exact mkStringSearchLoop_sound hfound

theorem mkStringSearchLoop_complete {search a b : Bytes} {len i : Nat} (hnul : 0 ∉ a)
    (hpre : search.map toupper <+: b.map toupper) (hlen : i + a.length < len) :
    (mkStringSearchLoop .insensitive search len (a ++ b) i).isSome := by
  induction a generalizing i with
  | nil =>
      cases b with
      | nil =>
          have hnil : search = [] := by simpa using hpre
          simp [mkStringSearchLoop, hnil]
      | cons c b =>
          rw [List.nil_append, mkStringSearchLoop_cons, if_pos (List.isPrefixOf_iff_prefix.mpr hpre)]
          rfl
  | cons c a ih =>
      obtain ⟨hc, hnul⟩ := not_or.mp fun h => hnul (List.mem_cons.mpr h)
      rw [List.length_cons] at hlen
      rw [List.cons_append, mkStringSearchLoop_cons]
      split
      · rfl
      · rw [if_neg (by omega), if_neg (Ne.symm hc)]
        exact ih hnul (by omega)

/-- What is in the text is found, where the length is that of the text or none to the search. -/
theorem mkStringSearchN_complete {text rest needle : Bytes} {len : Int} (hnul : 0 ∉ text) (hne : needle ≠ [])
    (h : needle.map toupper <:+: text.map toupper) (hlen : len = text.length ∨ len ≤ 0) :
    0 ≤ mkStringSearchN (text ++ rest) needle len := by
  obtain ⟨s, t, hst⟩ := h
  have hsplit : text = text.take s.length ++ text.drop s.length := (List.take_append_drop ..).symm
  have hslen : s.length + needle.length ≤ text.length := by
    have := congrArg List.length hst
    simp only [List.length_append, List.length_map] at this
    omega
  have hpos := List.length_pos_iff.mpr hne
  have hpre : needle.map toupper <+: (text.drop s.length).map toupper := by
    rw [List.map_drop, ← hst, List.append_assoc, List.drop_left]
    exact List.prefix_append ..
  unfold mkStringSearchN
  by_cases hfast : len ≤ 0
  · rw [if_pos hfast, mkStringSearchI, strcasestr, cstr_append hnul]
    have hdrop : needle.map toupper <+: ((text ++ cstr rest).map toupper).drop s.length := by
      rw [← List.map_drop, List.drop_append_of_le_length (by omega), List.map_append]
      exact hpre.trans (List.prefix_append ..)
    obtain ⟨p, hp, -⟩ := findSub_of_prefix_drop hdrop (by rw [List.length_map, List.length_append]; omega)
    rw [hp]
    exact Int.natCast_nonneg p
  · rw [if_neg hfast, hlen.resolve_right hfast, Int.toNat_natCast]
    have hsome := @mkStringSearchLoop_complete needle (text.take s.length) (text.drop s.length ++ rest)
      text.length 0 (fun h0 => hnul (List.mem_of_mem_take h0)) ?_ ?_
    · rw [← List.append_assoc, List.take_append_drop] at hsome
      obtain ⟨p, hp⟩ := Option.isSome_iff_exists.mp hsome
      rw [hp]
      exact Int.natCast_nonneg p
    · rw [List.map_append]
      exact hpre.trans (List.prefix_append ..)
    · rw [List.length_take]
      omega

/-- The empty text is found. -/
theorem mkStringSearchN_nil (hay : Bytes) (len : Int) : 0 ≤ mkStringSearchN hay [] len := by
  unfold mkStringSearchN
  split
  · unfold mkStringSearchI strcasestr
    obtain ⟨p, hp, -⟩ := @findSub_of_prefix_drop [] ((cstr hay).map toupper) 0 List.nil_prefix
      (Nat.zero_le _)
    rw [List.map_nil, hp]
    exact Int.natCast_nonneg p
  · cases hay with
    | nil => exact le_rfl
    | cons c hay => exact le_rfl

/-! ## parts of an encoded text -/

/-- A byte that is not in it separates a text. -/
theorem infix_of_separated {q a b : Bytes} {c : UInt8} (hc : c ∉ q) (h : q <:+: a ++ c :: b) : q <:+: a ∨ q <:+: b := by
  rcases List.infix_append_iff.mp h with h | h | ⟨l₁, l₂, rfl, h₁, h₂⟩
  · exact .inl h
  · rcases List.infix_cons_iff.mp h with h | h
    · rcases List.prefix_cons_iff.mp h with rfl | ⟨t, rfl, -⟩
      · exact .inl List.nil_infix
      · exact absurd List.mem_cons_self hc
    · exact .inr h
  · rcases List.prefix_cons_iff.mp h₂ with rfl | ⟨t, rfl, -⟩
    · rw [List.append_nil]
      exact .inl h₁.isInfix
    · exact absurd (List.mem_append_right _ List.mem_cons_self) hc

/-- Bytes behind a text that are not in it. -/
theorem infix_of_outside {q a b : Bytes} (hb : ∀ c ∈ b, c ∉ q) (h : q <:+: a ++ b) : q <:+: a := by
  have hnil : ∀ l : Bytes, (∀ c ∈ l, c ∈ q) → (∀ c ∈ l, c ∈ b) → l = [] := by
    intro l hq hl
    cases l with
    | nil => rfl
    | cons c l => exact absurd (hq c List.mem_cons_self) (hb c (hl c List.mem_cons_self))
  rcases List.infix_append_iff.mp h with h | h | ⟨l₁, l₂, rfl, h₁, h₂⟩
  · exact h
  · rw [hnil q (fun _ hc => hc) fun _ hc => h.subset hc]
    exact List.nil_infix
  · rw [hnil l₂ (fun _ hc => List.mem_append_right _ hc) fun _ hc => h₂.subset hc, List.append_nil]
    exact h₁.isInfix

theorem notMem_of_infix_percentEncode {q s : Bytes} {c : UInt8} (h : q <:+: percentEncode s)
    (hc : c ≠ 0x25 ∧ ∀ n < 16, c ≠ hexDigit n) : c ∉ q := by
  intro hmem
  rcases mem_percentEncode (h.subset hmem) with heq | ⟨n, hn, heq⟩
  · exact hc.1 heq
  · exact hc.2 n hn heq

/-- A start of an encoded text lies in the code of a few bytes. -/
theorem prefix_percentEncode {b s : Bytes} (h : b <+: percentEncode s) :
    ∃ t, t <+: s ∧ b <+: percentEncode t ∧ 3 * t.length ≤ b.length + 2 := by
  refine ⟨s.take ((b.length + 2) / 3), List.take_prefix _ _, ?_, ?_⟩
  · obtain ⟨rest, hrest⟩ := h
    by_cases hlong : (b.length + 2) / 3 ≤ s.length
    · have hcut : percentEncode s = percentEncode (s.take ((b.length + 2) / 3)) ++
          percentEncode (s.drop ((b.length + 2) / 3)) := by
        rw [percentEncode, percentEncode, percentEncode, ← List.flatMap_append, List.take_append_drop]
      refine List.prefix_of_prefix_length_le ⟨rest, hrest⟩ ⟨_, hcut.symm⟩ ?_
      rw [length_percentEncode, List.length_take]
      omega
    · rw [List.take_of_length_le (by omega)]
      exact ⟨rest, hrest⟩
  · have := List.length_take_le ((b.length + 2) / 3) s
    omega

/-- Any part lies in the code of a few bytes. -/
theorem infix_percentEncode {q s : Bytes} (hne : q ≠ []) (h : q <:+: percentEncode s) :
    ∃ t, t <:+: s ∧ q <:+: percentEncode t ∧ 3 * t.length ≤ q.length + 4 := by
  have hpos := List.length_pos_iff.mpr hne
  induction s with
  | nil => exact absurd (List.infix_nil.mp h) hne
  | cons c s ih =>
      rw [show percentEncode (c :: s) = percentByte c ++ percentEncode s from rfl] at h
      rcases List.infix_append_iff_ne_nil.mp h with h | h | ⟨a, b, ha, -, rfl, hsuf, hpre⟩
      · refine ⟨[c], ⟨[], s, rfl⟩, ?_, ?_⟩
        · rwa [show percentEncode [c] = percentByte c from List.append_nil _]
        · rw [List.length_singleton]
          omega
      · obtain ⟨t, ht, hq, hlen⟩ := ih h
        exact ⟨t, ht.trans (List.suffix_cons c s).isInfix, hq, hlen⟩
      · obtain ⟨t, ht, hb, hlen⟩ := prefix_percentEncode hpre
        have hapos := List.length_pos_iff.mpr ha
        refine ⟨c :: t, (List.prefix_cons_inj c |>.mpr ht).isInfix, ?_, ?_⟩
        · obtain ⟨a', ha'⟩ := hsuf
          obtain ⟨b', hb'⟩ := hb
          refine ⟨a', b', ?_⟩
          rw [show percentEncode (c :: t) = percentByte c ++ percentEncode t from rfl, ← ha', ← hb']
          simp
        · rw [List.length_cons, List.length_append]
          omega

/-- Nothing changes in an encoded text when letters are made capitals. -/
theorem map_toupper_percentEncode (s : Bytes) : (percentEncode s).map toupper = percentEncode s := by
  have hdigits : ∀ n < 16, toupper (hexDigit n) = hexDigit n := by decide
  conv_rhs => rw [← List.map_id (percentEncode s)]
  refine List.map_congr_left fun c hc => ?_
  rcases mem_percentEncode hc with rfl | ⟨n, hn, rfl⟩
  · rfl
  · exact hdigits n hn

/-! ## two spellings -/

/-- A request for a URI. -/
def urlRequest (uri : MkPointer) : SessionRequest := { uri := uri, uriProcessed := processedUri uri }

@[simp] theorem urlRequest_uri (uri : MkPointer) : (urlRequest uri).uri = uri := rfl

theorem urlRequest_stage20 {uri : MkPointer} (huri : RequestUri uri) (hroot : (uriText uri).head? = some 0x2f) :
    Stage20Request (urlRequest uri) where
  uri := huri
  processed := by simp only [urlRequest]
  root := hroot

/-- A length from which the search for a `%` and that for a rule take what they need. -/
theorem exists_pad (n : Nat) (hn : 0 < n) :
    ∃ j, ¬ 2 ^ 32 ∣ n + j ∧
      (toInt (3 * (n + j) : Nat) = (3 * (n + j) : Nat) ∨ toInt (3 * (n + j) : Nat) ≤ 0) := by
  by_cases hsmall : 3 * n < 2 ^ 31
  · refine ⟨0, ?_, .inl (toInt_eq_self (by omega) (by omega))⟩
    rw [Nat.add_zero]
    exact Nat.not_dvd_of_pos_of_lt hn (by omega)
  · -- three times as many is below zero as an `int`
    obtain ⟨j, hj⟩ : ∃ j, (n + j) % 2 ^ 32 = 2 ^ 30 := by
      refine ⟨2 ^ 30 + (2 ^ 32 - n % 2 ^ 32), ?_⟩
      omega
    refine ⟨j, ?_, .inr ?_⟩
    · omega
    · have hmod : ((3 * (n + j) : Nat) : Int) % 2 ^ 32 = 3 * 2 ^ 30 := by omega
      have hneg : toInt (3 * (n + j) : Nat) = 3 * 2 ^ 30 - 2 ^ 32 := by
        rw [toInt, Int.bmod_def]
        omega
      rw [hneg]
      decide

section

variable {criteria : Bytes}

/-- A rule found in an encoded URI is a part of it, or ends behind it. -/
theorem mkSecurityUrlTest_percentUri {s : Bytes} {c : UInt8} (h : mkSecurityUrlTest (percentUri s [c]) criteria = true) :
    (cstr criteria).map toupper <:+ percentEncode s ++ [toupper c] ∨
      (cstr criteria).map toupper <:+: percentEncode s := by
  have hinfix := mkStringSearchN_sound (of_decide_eq_true h)
  rw [percentUri, Option.getD_some, List.map_append, map_toupper_percentEncode] at hinfix
  exact List.infix_concat_iff.mp hinfix

/-- **The rule is a part of a code**: refused with a blank behind the URI and with a `?`,
its own text in code contains it. -/
theorem SpellingProof.part_of_code (h : SpellingProof criteria) (hne : cstr criteria ≠ []) :
    ∃ s, 0 ∉ s ∧ (cstr criteria).map toupper <:+: percentEncode s := by
  obtain ⟨j, hlen, -⟩ := exists_pad ((cstr criteria).length + 1) (Nat.succ_pos _)
  obtain ⟨text, htext⟩ : ∃ text, text = 0x2f :: (cstr criteria ++ List.replicate j 0x78) := ⟨_, rfl⟩
  have hnul : 0 ∉ text := by
    rw [htext, List.mem_cons, List.mem_append, not_or, not_or]
    exact ⟨by decide, zero_notMem_cstr criteria, fun h0 => absurd (List.eq_of_mem_replicate h0) (by decide)⟩
  have hlength : text.length = (cstr criteria).length + 1 + j := by
    rw [htext, List.length_cons, List.length_append, List.length_replicate]
    omega
  rw [← hlength] at hlen
  have huri : ∀ c, uriText (percentUri text [c]) = text := fun _ => uriText_percentUri hnul hlen
  have hcontains : Contains criteria text := by
    rw [Contains, htext, List.map_cons, List.map_append]
    exact (List.prefix_append ..).isInfix.trans (List.suffix_cons _ _).isInfix
  have hfound : ∀ c, c = 0x20 ∨ c = 0x3f →
      (cstr criteria).map toupper <:+ percentEncode text ++ [toupper c] ∨
        (cstr criteria).map toupper <:+: percentEncode text := by
    intro c hc
    have hsr : Stage20Request (urlRequest (percentUri text [c])) := by
      refine urlRequest_stage20 (percentUri_request text [] hc) ?_
      rw [huri c, htext, List.head?_cons]
    have hboth := h [criteria] List.mem_cons_self _ _ hsr hsr (by rw [urlRequest_uri])
    rw [urlRequest_uri, huri c] at hboth
    have htest := refused_singleton.mp (hboth.2 hcontains)
    rw [urlRequest_uri] at htest
    exact mkSecurityUrlTest_percentUri htest
  have hlast : ∀ d : UInt8, (cstr criteria).map toupper <:+ percentEncode text ++ [d] →
      ((cstr criteria).map toupper).getLast? = some d := by
    rintro d ⟨r, hr⟩
    have hget := congrArg List.getLast? hr
    rw [List.getLast?_append, List.getLast?_append] at hget
    cases hq : ((cstr criteria).map toupper).getLast? with
    | none => exact absurd (List.map_eq_nil_iff.mp (List.getLast?_eq_none_iff.mp hq)) hne
    | some e =>
        rw [hq] at hget
        exact hget
  refine ⟨text, hnul, ?_⟩
  rcases hfound 0x20 (.inl rfl) with hblank | hinside
  · rcases hfound 0x3f (.inr rfl) with hmark | hinside
    · exact absurd ((hlast _ hblank).symm.trans (hlast _ hmark)) (by decide)
    · exact hinside
  · exact hinside

/-- **As it is**: a rule that is a part of a code is a part of the text, or a `%`. -/
theorem SpellingProof.plain (h : SpellingProof criteria) (hne : cstr criteria ≠ []) {t : Bytes} (hnul : 0 ∉ t)
    (hcode : (cstr criteria).map toupper <:+: percentEncode t) :
    (cstr criteria).map toupper <:+: [0x25] ∨ (cstr criteria).map toupper <:+: t.map toupper := by
  obtain ⟨j, hlen, hint⟩ := exists_pad (t.length + 4) (Nat.succ_pos _)
  obtain ⟨tail, htail⟩ : ∃ tail, tail = t ++ List.replicate j 0x78 := ⟨_, rfl⟩
  have hnul' : 0 ∉ tail := by
    rw [htail, List.mem_append, not_or]
    exact ⟨hnul, fun h0 => absurd (List.eq_of_mem_replicate h0) (by decide)⟩
  have hnuls : 0 ∉ undecodable ++ tail := by
    rw [List.mem_append, not_or]
    exact ⟨by decide, hnul'⟩
  have hlength : (undecodable ++ tail).length = t.length + 4 + j := by
    rw [htail, List.length_append, List.length_append, List.length_replicate]
    show 4 + (t.length + j) = t.length + 4 + j
    omega
  rw [← hlength] at hlen hint
  have hcoded : uriText (percentUri (undecodable ++ tail) [0x20]) = undecodable ++ tail :=
    uriText_percentUri hnuls hlen
  have hplain : uriText (plainUri tail [0x20]) = undecodable ++ tail := uriText_plainUri tail _
  have hcodedsr : Stage20Request (urlRequest (percentUri (undecodable ++ tail) [0x20])) := by
    refine urlRequest_stage20 (percentUri_request _ [] (.inl rfl)) ?_
    rw [hcoded]
    rfl
  have hplainsr : Stage20Request (urlRequest (plainUri tail [0x20])) := by
    refine urlRequest_stage20 (plainUri_request [] hnul' (.inl rfl)) ?_
    rw [hplain]
    rfl
  have hsame := (h [criteria] List.mem_cons_self _ _ hcodedsr hplainsr (hcoded.trans hplain.symm)).1
  rw [refused_singleton, refused_singleton, urlRequest_uri, urlRequest_uri] at hsame
  have hfound : mkSecurityUrlTest (percentUri (undecodable ++ tail) [0x20]) criteria = true := by
    refine decide_eq_true (mkStringSearchN_complete (zero_notMem_percentEncode _) hne ?_ ?_)
    · rw [map_toupper_percentEncode, htail, percentEncode, List.flatMap_append, List.flatMap_append]
      exact (hcode.trans (List.prefix_append ..).isInfix).trans (List.suffix_append ..).isInfix
    · rw [length_percentEncode]
      exact hint
  -- what is found in the text as it is lies between bytes that no code has
  have hsound := mkStringSearchN_sound (of_decide_eq_true (hsame.mp hfound))
  have hout : ∀ {c : UInt8}, c ≠ 0x25 ∧ (∀ n < 16, c ≠ hexDigit n) → c ∉ (cstr criteria).map toupper :=
    fun hc => notMem_of_infix_percentEncode hcode hc
  have hshape : ((plainUri tail [0x20]).data.getD []).map toupper =
      ([0x2f] ++ [0x25]) ++ 0x5a :: ([] ++ 0x5a :: (t.map toupper ++ (List.replicate j 0x58 ++ [0x20]))) := by
    have hstart : undecodable.map toupper = [0x2f, 0x25, 0x5a, 0x5a] := by decide
    have hpad : toupper 0x78 = 0x58 := by decide
    rw [plainUri, Option.getD_some, htail, List.map_append, List.map_append, List.map_append, List.map_replicate,
      hstart, hpad, List.append_assoc, List.append_assoc]
    rfl
  rw [hshape] at hsound
  rcases infix_of_separated (hout (by decide)) hsound with hstart | hrest
  · rcases infix_of_separated (a := []) (hout (by decide)) hstart with hnil | hpercent
    · exact .inl (hnil.trans (List.nil_infix))
    · exact .inl hpercent
  · rcases infix_of_separated (hout (by decide)) hrest with hnil | htext
    · exact .inl (hnil.trans (List.nil_infix))
    · refine .inr (infix_of_outside ?_ htext)
      intro c hc
      rcases List.mem_append.mp hc with hc | hc
      · rw [List.eq_of_mem_replicate hc]
        exact hout (by decide)
      · rw [List.mem_singleton.mp hc]
        exact hout (by decide)

/-- No text is a single digit of a code, and no `%`. -/
theorem SpellingProof.not_singleton (h : SpellingProof criteria) {a : UInt8}
    (ha : (cstr criteria).map toupper = [a]) {s : Bytes} (hcode : [a] <:+: percentEncode s) : a = 0x25 := by
  have hne : cstr criteria ≠ [] := by
    intro hnil
    rw [hnil] at ha
    contradiction
  rcases mem_percentEncode (hcode.subset List.mem_cons_self) with heq | ⟨n, hn, rfl⟩
  · exact heq
  · -- the digit is the second of the code of a byte that is no digit
    have hall : ∀ n < 16, 0 ∉ [UInt8.ofNat (0x10 + n)] ∧
        [hexDigit n] <:+: percentEncode [UInt8.ofNat (0x10 + n)] ∧ ¬ [hexDigit n] <:+: [0x25] ∧
          ¬ [hexDigit n] <:+: [UInt8.ofNat (0x10 + n)].map toupper := by decide
    obtain ⟨hnul, hpart, hpercent, htext⟩ := hall n hn
    rw [← ha] at hpart hpercent htext
    rcases h.plain hne hnul hpart with hin | hin
    · exact absurd hin hpercent
    · exact absurd hin htext

/-- A rule `%` refuses `/` in code only. -/
theorem SpellingProof.ne_percent (h : SpellingProof criteria) : (cstr criteria).map toupper ≠ [0x25] := by
  intro hpercent
  have hne : cstr criteria ≠ [] := by
    intro hnil
    rw [hnil] at hpercent
    contradiction
  have hcoded : uriText (percentUri [0x2f] [0x20]) = [0x2f] := uriText_percentUri (by decide) (by decide)
  have hraw : uriText ⟨some [0x2f, 0x20], 1⟩ = [0x2f] := by decide
  have hcodedsr : Stage20Request (urlRequest (percentUri [0x2f] [0x20])) := by
    refine urlRequest_stage20 (percentUri_request _ [] (.inl rfl)) ?_
    rw [hcoded]
    rfl
  have hrawsr : Stage20Request (urlRequest ⟨some [0x2f, 0x20], 1⟩) := by
    refine urlRequest_stage20 ⟨by decide, 0x20, [], rfl, .inl rfl⟩ ?_
    rw [hraw]
    rfl
  have hsame := (h [criteria] List.mem_cons_self _ _ hcodedsr hrawsr
    (by rw [urlRequest_uri, urlRequest_uri, hcoded, hraw])).1
  rw [refused_singleton, refused_singleton, urlRequest_uri, urlRequest_uri] at hsame
  have hfound : mkSecurityUrlTest (percentUri [0x2f] [0x20]) criteria = true := by
    refine decide_eq_true (mkStringSearchN_complete (zero_notMem_percentEncode _) hne ?_ ?_)
    · rw [hpercent]
      decide
    · exact .inl (by decide)
  have hsound := mkStringSearchN_sound (of_decide_eq_true (hsame.mp hfound))
  rw [hpercent] at hsound
  exact absurd hsound (by decide)

/-- No text is two bytes of a code. -/
theorem SpellingProof.length_ne_two (h : SpellingProof criteria) {s : Bytes} (hnul : 0 ∉ s)
    (hcode : (cstr criteria).map toupper <:+: percentEncode s) : ((cstr criteria).map toupper).length ≠ 2 := by
  intro htwo
  have hne : cstr criteria ≠ [] := by
    intro hnil
    rw [hnil] at htwo
    contradiction
  -- a text shorter than the rule does not contain it
  have hshort : ∀ t : Bytes, 0 ∉ t → (cstr criteria).map toupper <:+: percentEncode t → 2 ≤ t.length := by
    intro t hnult ht
    rcases h.plain hne hnult ht with hin | hin
    · have := hin.length_le
      rw [htwo] at this
      exact absurd this (by decide)
    · have := hin.length_le
      rwa [htwo, List.length_map] at this
  obtain ⟨t, hts, ht, hlen⟩ := infix_percentEncode (fun hnil => hne (List.map_eq_nil_iff.mp hnil)) hcode
  rw [htwo] at hlen
  have hnult : 0 ∉ t := fun h0 => hnul (hts.subset h0)
  have hlong := hshort t hnult ht
  obtain ⟨c, d, rfl⟩ := List.length_eq_two.mp (show t.length = 2 by omega)
  have hc : 0 ∉ [c] := fun h0 => hnult (List.mem_cons.mpr (.inl (List.mem_singleton.mp h0)))
  have hd : 0 ∉ [d] := fun h0 => hnult (List.mem_cons_of_mem _ h0)
  rw [show percentEncode [c, d] = percentByte c ++ percentEncode [d] from rfl] at ht
  rcases List.infix_append_iff_ne_nil.mp ht with hin | hin | ⟨a, b, ha, hb, hab, hsuf, hpre⟩
  · exact absurd (hshort [c] hc (hin.trans (List.prefix_append ..).isInfix)) (by simp)
  · exact absurd (hshort [d] hd hin) (by simp)
  · -- the last digit of one code and the `%` of the next
    have hsum := congrArg List.length hab
    rw [htwo, List.length_append] at hsum
    have hapos := List.length_pos_iff.mpr ha
    have hbpos := List.length_pos_iff.mpr hb
    have hpercent : b = [0x25] := by
      rcases List.prefix_cons_iff.mp hpre with hnil | ⟨b', rfl, -⟩
      · exact absurd hnil hb
      · rw [List.length_cons] at hsum
        rw [List.eq_nil_of_length_eq_zero (show b'.length = 0 by omega)]
    have hnul₁ : 0 ∉ [c, 0x01] := by
      rw [List.mem_cons, not_or]
      exact ⟨fun h0 => hc (List.mem_singleton.mpr h0), by decide⟩
    have hpart : (cstr criteria).map toupper <:+: percentEncode [c, 0x01] := by
      obtain ⟨r, hr⟩ := hsuf
      rw [hab, hpercent]
      refine ⟨r, [hexDigit 0, hexDigit 1], ?_⟩
      rw [show percentEncode [c, 0x01] = percentByte c ++ [0x25, hexDigit 0, hexDigit 1] from rfl, ← hr]
      simp
    rcases h.plain hne hnul₁ hpart with hin | hin
    · have := hin.length_le
      rw [htwo] at this
      exact absurd this (by decide)
    · have hone : (0x01 : UInt8) ∉ (cstr criteria).map toupper := notMem_of_infix_percentEncode hcode (by decide)
      have hsingle := infix_of_outside (a := [toupper c]) (b := [0x01])
        (fun e he => by rw [List.mem_singleton.mp he]; exact hone) hin
      have := hsingle.length_le
      rw [htwo] at this
      exact absurd this (by simp)

/-- **Spellings.**  A rule is proof against other spellings exactly if it is empty. -/
theorem spellingProof_iff : SpellingProof criteria ↔ cstr criteria = [] := by
  constructor
  · intro h
    by_contra hne
    obtain ⟨s, hnul, hcode⟩ := h.part_of_code hne
    obtain ⟨t, hts, ht, hlen⟩ :=
      infix_percentEncode (fun hnil => hne (List.map_eq_nil_iff.mp hnil)) hcode
    have htwo := h.length_ne_two hnul hcode
    have hpos : 0 < ((cstr criteria).map toupper).length :=
      List.length_pos_iff.mpr fun hnil => hne (List.map_eq_nil_iff.mp hnil)
    have hone : ((cstr criteria).map toupper).length ≠ 1 := by
      intro hone
      obtain ⟨a, ha⟩ := List.length_eq_one_iff.mp hone
      obtain rfl := h.not_singleton ha (ha ▸ hcode)
      exact h.ne_percent ha
    -- a longer rule is longer than a text that has it in its code
    rcases h.plain hne (fun h0 => hnul (hts.subset h0)) ht with hin | hin
    · have := hin.length_le
      rw [List.length_singleton] at this
      omega
    · have := hin.length_le
      have hmap : (t.map toupper).length = t.length := List.length_map _
      omega
  · rintro hnil rules hmem sr₁ sr₂ - - -
    have hrefused : ∀ sr, Refused rules sr := by
      intro sr
      refine refused_iff.mpr ⟨criteria, hmem, ?_⟩
      rw [mkSecurityUrlTest, hnil]
      exact decide_eq_true (mkStringSearchN_nil _ _)
    exact ⟨iff_of_true (hrefused sr₁) (hrefused sr₂), fun _ => hrefused sr₁⟩

end

/-- A letter in code passes the rule `/secret`. -/
theorem not_spellingProof_secret : ∃ sr₁ sr₂, Stage20Request sr₁ ∧ Stage20Request sr₂ ∧
    uriText sr₁.uri = uriText sr₂.uri ∧ Contains (ascii "/secret".toList) (uriText sr₁.uri) ∧
      ¬ Refused [ascii "/secret".toList] sr₁ ∧ Refused [ascii "/secret".toList] sr₂ := by
  have hcoded : uriText ⟨some (ascii "/%73ecret HTTP/1.1\r\n".toList), 9⟩ = ascii "/secret".toList := by decide
  have hraw : uriText ⟨some (ascii "/secret HTTP/1.1\r\n".toList), 7⟩ = ascii "/secret".toList := by decide
  refine ⟨urlRequest ⟨some (ascii "/%73ecret HTTP/1.1\r\n".toList), 9⟩,
    urlRequest ⟨some (ascii "/secret HTTP/1.1\r\n".toList), 7⟩, urlRequest_stage20 ⟨by decide, ?_⟩ ?_,
    urlRequest_stage20 ⟨by decide, ?_⟩ ?_, ?_, ?_, ?_, ?_⟩
  · exact ⟨0x20, ascii "HTTP/1.1\r\n".toList, by decide, .inl rfl⟩
  · rw [hcoded]
    decide
  · exact ⟨0x20, ascii "HTTP/1.1\r\n".toList, by decide, .inl rfl⟩
  · rw [hraw]
    decide
  · rw [urlRequest_uri, urlRequest_uri, hcoded, hraw]
  · rw [urlRequest_uri, hcoded, Contains]
    decide
  · rw [refused_singleton, urlRequest_uri]
    decide
  · rw [refused_singleton, urlRequest_uri]
    decide

end Monkey.Mandril
