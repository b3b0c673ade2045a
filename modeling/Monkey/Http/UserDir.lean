import Monkey.Http.Init
import Monkey.Lib.Block
import Monkey.Lib.Tokens

/-!
# Monkey.Http.UserDir

How `mk_user_init` takes the URI of a user's directory apart.  The search for the slash
behind the name starts at the name but is as long as the whole URI: without a slash it
reads two bytes of what follows the URI, and takes a slash there for the end of the name.
-/

namespace Monkey

/-! ## copying a string -/

/-- `strncpy`; a negative length is a very large one. -/
def strncpyTo (buf src : Bytes) (n : Int) : Option Bytes :=
  if n < 0 then none else writeAt buf 0 (strncpyText src n.toNat)

/-- The bytes that `strncpy` reads. -/
def strncpyReach (src : Bytes) (n : Int) : Nat := min n.toNat (strlen src + 1)

/-- The bytes that `memchr` reads. -/
def memchrReach (s : Bytes) (c : UInt8) (len : Nat) : Nat := (memchr s c len).elim len (· + 1)

/-- `strncpy`, and the NUL that is stored behind it. -/
def copyText (buf src : Bytes) (n : Int) : Option Bytes :=
  (strncpyTo buf src n).bind fun buf => writeAt buf n.toNat [0]

/-- A copy that fits is the string. -/
theorem copyText_eq {buf src : Bytes} {n : Nat} (h : n < buf.length) :
    ∃ buf', copyText buf src n = some buf' ∧ cstr buf' = cstr (src.take n) := by
  have hlen := length_strncpyText src n
  have hcopy : strncpyTo buf src n = some (fillAt buf 0 (strncpyText src n)) := by
    rw [strncpyTo, if_neg (by omega), Int.toNat_natCast, writeAt_of_le (by omega)]
  have hroom : (fillAt buf 0 (strncpyText src n)).length = buf.length := length_fillAt (by omega)
  refine ⟨fillAt (fillAt buf 0 (strncpyText src n)) n [0], ?_, ?_⟩
  · rw [copyText, hcopy, Option.bind_some, Int.toNat_natCast, writeAt_of_le (by simp [hroom]; omega)]
  · have hstart : (fillAt buf 0 (strncpyText src n)).take n = strncpyText src n := by
      have htake := take_fillAt (Nat.zero_le buf.length) (strncpyText src n)
      rwa [hlen, Nat.zero_add, List.take_zero, List.nil_append] at htake
    rw [fillAt, hstart, List.append_assoc, List.singleton_append, cstr_append_nul, cstr_strncpyText]

/-! ## the home directory of a user -/

/-- What `mk_user_init` does: the end of the bytes of the URI that it reads, the name that it asks
`getpwnam` for, and its result, unless it writes outside a buffer. -/
structure UserRun where
  reach : Nat := 0
  name : Option Bytes := none
  res : Option Res

/-- `user_len`. -/
def userLen : Nat := 255

/-- `mk_user_init` with its buffers. -/
def mkUserInitRun (junk : Nat → UInt8) (ctx : Ctx) (sr : SessionRequest) : UserRun :=
  let data := sr.uriProcessed.data.getD []
  let len : Int := sr.uriProcessed.len
  if len ≤ 2 then { res := some ⟨-1, sr, []⟩ }
  else
    let slash := mkStringCharSearch (data.drop 2) 0x2f (toInt len)
    let reach := 2 + memchrReach (data.drop 2) 0x2f (toInt len).toNat
    let limit := if slash = -1 then toInt (len - 2) else slash
    if limit + 2 ≥ userLen then { reach, res := some ⟨-1, sr, []⟩ }
    else
      let reach := max reach (2 + strncpyReach (data.drop 2) limit)
      match copyText (newBuffer junk userLen) (data.drop 2) limit with
      | none => { reach, res := none }
      | some user =>
          match ctx.sys.getpwnam (cstr user) with
          | none =>
              let e := mkRequestError ctx mkClientNotFound sr
              { reach, name := some (cstr user), res := some ⟨-1, e.sr, e.out⟩ }
          | some pwDir =>
              let home := pwDir ++ [0x2f] ++ ctx.cfg.userDir.getD []
              if len > 2 + limit then
                let rest := data.drop (limit.toNat + 2)
                { reach := max reach (limit.toNat + 2 + strncpyReach rest (len - 2 - limit))
                  name := some (cstr user)
                  res := (copyText (newBuffer junk sr.uriProcessed.len) rest (len - 2 - limit)).map fun userUri =>
                    ⟨0, { sr with realPath := home ++ cstr userUri, userHome := true }, []⟩ }
              else
                { reach, name := some (cstr user)
                  res := some ⟨0, { sr with realPath := home, userHome := true }, []⟩ }

/-- The text between `/~` and the next slash. -/
def homeUserText (text : Bytes) : Bytes := text.takeWhile (· ≠ 0x2f)

/-- The rest of the URI from that slash on. -/
def homeRest (text : Bytes) : Bytes := text.dropWhile (· ≠ 0x2f)

/-- What is expected of the URI `/~` with `text` behind it. -/
structure HomeOk (ctx : Ctx) (text : Bytes) (run : UserRun) : Prop where
  reads : run.reach ≤ text.length + 2
  name : ∀ name ∈ run.name, name = homeUserText text
  path : ∀ r ∈ run.res, r.ret = 0 → ∃ pwDir, ctx.sys.getpwnam (homeUserText text) = some pwDir ∧
    r.sr.realPath = pwDir ++ [0x2f] ++ ctx.cfg.userDir.getD [] ++ homeRest text
  writes : run.res.isSome = true

section
variable {junk : Nat → UInt8} {ctx : Ctx} {sr : SessionRequest}

theorem neg_one_le_position (p : Option Nat) : -1 ≤ position p := by
  cases p with
  | none => exact le_rfl
  | some k => exact (by decide : (-1 : Int) ≤ 0).trans (Int.natCast_nonneg k)

/-- The buffers are never left, and the result is that of `mkUserInit`. -/
theorem mkUserInitRun_res (hlen : sr.uriProcessed.len < 2 ^ 31) :
    (mkUserInitRun junk ctx sr).res = some (mkUserInit ctx sr) := by
  unfold mkUserInitRun mkUserInit
  simp only
  split
  · rfl
  · next hlong =>
      have hsearch : -1 ≤ mkStringCharSearch ((sr.uriProcessed.data.getD []).drop 2) 0x2f (toInt sr.uriProcessed.len) :=
        neg_one_le_position _
      generalize mkStringCharSearch ((sr.uriProcessed.data.getD []).drop 2) 0x2f (toInt sr.uriProcessed.len) = slash
        at hsearch
      have hrest : toInt ((sr.uriProcessed.len : Int) - 2) = sr.uriProcessed.len - 2 := toInt_eq_self (by omega) (by omega)
      obtain ⟨limit, hlimit⟩ : ∃ limit : Nat, (if slash = -1 then toInt ((sr.uriProcessed.len : Int) - 2) else slash) = limit := by
        refine ⟨_, (Int.toNat_of_nonneg ?_).symm⟩
        split <;> omega
      rw [hlimit]
      split
      · next hfar => rw [if_pos (by unfold userLen at hfar; omega)]
      · next hnear =>
          have hroom : limit < (newBuffer junk userLen).length := by
            rw [length_newBuffer]
            omega
          rw [if_neg (by unfold userLen at hnear; omega)]
          obtain ⟨user, hcopy, huser⟩ :
              ∃ user, copyText (newBuffer junk userLen) ((sr.uriProcessed.data.getD []).drop 2) limit = some user ∧
                cstr user = cstr (((sr.uriProcessed.data.getD []).drop 2).take limit) := copyText_eq hroom
          simp only [hcopy, huser, Int.toNat_natCast]
          cases ctx.sys.getpwnam (cstr (((sr.uriProcessed.data.getD []).drop 2).take limit)) with
          | none => rfl
          | some pwDir =>
              simp only
              split
              · next hmore =>
                  obtain ⟨n, hn⟩ : ∃ n : Nat, (sr.uriProcessed.len : Int) - 2 - limit = n :=
                    ⟨_, (Int.toNat_of_nonneg (by omega)).symm⟩
                  have hroom' : n < (newBuffer junk sr.uriProcessed.len).length := by
                    rw [length_newBuffer]
                    omega
                  obtain ⟨userUri, hcopy', huserUri⟩ :
                      ∃ userUri, copyText (newBuffer junk sr.uriProcessed.len)
                          ((sr.uriProcessed.data.getD []).drop (limit + 2)) n = some userUri ∧
                        cstr userUri = cstr (((sr.uriProcessed.data.getD []).drop (limit + 2)).take n) :=
                    copyText_eq hroom'
                  simp only [hn, hcopy', Option.map_some, huserUri, Int.toNat_natCast]
              · simp only [List.append_nil]

/-- The URI `/~` with `text` behind it, in front of `tail`. -/
def homeUri (text tail : Bytes) : MkPointer :=
  { data := some (0x2f :: 0x7e :: (text ++ tail)), len := text.length + 2 }

variable {text tail s t : Bytes}

theorem memchr_home (hs : 0x2f ∉ s) (tail : Bytes) (hlen : (s ++ 0x2f :: t).length + 2 < 2 ^ 31) :
    memchr (s ++ 0x2f :: t ++ tail) 0x2f (toInt ((s ++ 0x2f :: t).length + 2 : Nat)).toNat = some s.length := by
  rw [toInt_eq_self (by omega) (by omega), Int.toNat_natCast, List.append_assoc, List.cons_append]
  exact memchr_append_cons hs _ (by rw [List.length_append]; omega)

theorem mkStringCharSearch_home (hs : 0x2f ∉ s) (tail : Bytes) (hlen : (s ++ 0x2f :: t).length + 2 < 2 ^ 31) :
    mkStringCharSearch (s ++ 0x2f :: t ++ tail) 0x2f (toInt ((s ++ 0x2f :: t).length + 2 : Nat)) = s.length := by
  rw [mkStringCharSearch, if_neg (by rw [toInt_eq_self (by omega) (by omega)]; omega), memchr_home hs tail hlen]
  rfl

/-- The URI with a slash behind the name. -/
theorem mkUserInitRun_slash (hs : 0x2f ∉ s) (hsr : sr.uriProcessed = homeUri (s ++ 0x2f :: t) tail)
    (hlen : (s ++ 0x2f :: t).length + 2 < 2 ^ 31) :
    (mkUserInitRun junk ctx sr).reach ≤ (s ++ 0x2f :: t).length + 2 ∧
      (mkUserInitRun junk ctx sr).name = if 253 ≤ s.length then none else some (cstr s) := by
  have hfound := memchr_home hs tail hlen
  have hsearch := mkStringCharSearch_home hs tail hlen
  have hlonger : s.length + 1 ≤ (s ++ 0x2f :: t).length := by simp
  have hname : (s ++ 0x2f :: t ++ tail).take s.length = s := by
    rw [List.append_assoc, List.take_left]
  generalize hn : (s ++ 0x2f :: t).length = n at hfound hsearch hlonger hlen hsr ⊢
  unfold mkUserInitRun
  rw [hsr]
  have hne : ¬ (s.length : Int) = -1 := by omega
  simp only [homeUri, hn, Option.getD_some, List.drop_succ_cons, List.drop_zero, hsearch, memchrReach, hfound,
    Option.elim_some, hne, if_false, Int.toNat_natCast]
  rw [if_neg (by omega)]
  by_cases hfar : 253 ≤ s.length
  · rw [if_pos (by unfold userLen; omega), if_pos hfar]
    exact ⟨by dsimp only; omega, rfl⟩
  · have hroom : s.length < (newBuffer junk userLen).length := by
      rw [length_newBuffer, userLen]
      omega
    obtain ⟨user, hcopy, huser⟩ :
        ∃ user, copyText (newBuffer junk userLen) (s ++ 0x2f :: t ++ tail) s.length = some user ∧
          cstr user = cstr ((s ++ 0x2f :: t ++ tail).take s.length) := copyText_eq hroom
    rw [hname] at huser
    rw [if_neg (by unfold userLen; omega), if_neg hfar]
    simp only [hcopy, huser]
    have hread : strncpyReach (s ++ 0x2f :: t ++ tail) s.length ≤ s.length := min_le_left _ _
    cases ctx.sys.getpwnam (cstr s) with
    | none => exact ⟨by dsimp only; omega, rfl⟩
    | some pwDir =>
        simp only
        split
        · have hrest : ∀ src, strncpyReach src (((n + 2 : Nat) : Int) - 2 - s.length) ≤ n - s.length :=
            fun src => (min_le_left _ _).trans (by omega)
          refine ⟨max_le (by omega) ?_, rfl⟩
          exact (Nat.add_le_add_left (hrest _) _).trans (by omega)
        · exact ⟨by dsimp only; omega, rfl⟩

/-- The result with a slash behind the name. -/
theorem mkUserInit_slash (hs : 0x2f ∉ s) (hsr : sr.uriProcessed = homeUri (s ++ 0x2f :: t) tail)
    (hlen : (s ++ 0x2f :: t).length + 2 < 2 ^ 31) :
    mkUserInit ctx sr =
      if 253 ≤ s.length then ⟨-1, sr, []⟩
      else
        match ctx.sys.getpwnam (cstr s) with
        | none => { mkRequestError ctx mkClientNotFound sr with ret := -1 }
        | some pwDir =>
            ⟨0, { sr with
              realPath := pwDir ++ [0x2f] ++ ctx.cfg.userDir.getD [] ++ cstr (0x2f :: t), userHome := true }, []⟩ := by
  have hsearch := mkStringCharSearch_home hs tail hlen
  have hne : ¬ (s.length : Int) = -1 := by omega
  have hname : (s ++ 0x2f :: t ++ tail).take s.length = s := by
    rw [List.append_assoc, List.take_left]
  have hmore : (2 + s.length : Int) < ((s ++ 0x2f :: t).length + 2 : Nat) := by
    rw [List.length_append, List.length_cons]
    omega
  have hrest : (((s ++ 0x2f :: t ++ tail).drop s.length).take
      (((s ++ 0x2f :: t).length + 2 : Nat) - 2 - s.length : Int).toNat) = 0x2f :: t := by
    rw [List.append_assoc, List.drop_left]
    exact List.take_left' (by simp)
  unfold mkUserInit
  rw [hsr]
  simp only [homeUri, Option.getD_some, List.drop_succ_cons, List.drop_zero, hsearch, hne, if_false,
    Int.toNat_natCast, hname, hrest]
  rw [if_neg (by omega)]
  by_cases hfar : 253 ≤ s.length
  · rw [if_pos (show (s.length : Int) + 2 ≥ 255 by omega), if_pos hfar]
  · rw [if_neg (show ¬ (s.length : Int) + 2 ≥ 255 by omega), if_neg hfar]
    cases ctx.sys.getpwnam (cstr s) with
    | none => rfl
    | some pwDir => rw [if_pos hmore]

/-- Without a slash behind the name the search leaves the URI. -/
theorem mkUserInitRun_open (hne : text ≠ []) (hs : 0x2f ∉ text) (hsr : sr.uriProcessed = homeUri text tail)
    (hlen : text.length + 2 < 2 ^ 31) : text.length + 2 < (mkUserInitRun junk ctx sr).reach := by
  have hpos := List.length_pos_iff.mpr hne
  have hsearch : text.length + 1 ≤ memchrReach (text ++ tail) 0x2f (toInt (text.length + 2 : Nat)).toNat := by
    rw [toInt_eq_self (by omega) (by omega), Int.toNat_natCast, memchrReach]
    cases hfound : memchr (text ++ tail) 0x2f (text.length + 2) with
    | none => simp
    | some k =>
        have hslash := memchr_getElem? hfound
        by_contra hlt
        rw [Option.elim_some, Nat.not_le, Nat.add_lt_add_iff_right] at hlt
        rw [List.getElem?_append_left hlt] at hslash
        exact hs (List.mem_of_getElem? hslash)
  unfold mkUserInitRun
  rw [hsr]
  simp only [homeUri, Option.getD_some, List.drop_succ_cons, List.drop_zero]
  generalize memchrReach (text ++ tail) 0x2f (toInt (text.length + 2 : Nat)).toNat = reach at hsearch ⊢
  rw [if_neg (by omega)]
  generalize (if mkStringCharSearch _ _ _ = -1 then _ else _ : Int) = limit
  have hleave : text.length + 2 < 2 + reach := by omega
  -- what is copied later only adds to the bytes that are read
  by_cases hfar : limit + 2 ≥ userLen
  · rw [if_pos hfar]
    exact hleave
  · rw [if_neg hfar]
    split
    · exact lt_max_of_lt_left hleave
    · split
      · exact lt_max_of_lt_left hleave
      · split
        · exact lt_max_of_lt_left (lt_max_of_lt_left hleave)
        · exact lt_max_of_lt_left hleave

theorem homeUserText_slash (hs : 0x2f ∉ s) : homeUserText (s ++ 0x2f :: t) = s := takeWhile_append_cons hs t

theorem homeRest_slash (hs : 0x2f ∉ s) : homeRest (s ++ 0x2f :: t) = 0x2f :: t := dropWhile_append_cons hs t

/-- Nothing is read of `/~`. -/
theorem homeOk_nil (hsr : sr.uriProcessed = homeUri [] tail) : HomeOk ctx [] (mkUserInitRun junk ctx sr) := by
  have hrun : mkUserInitRun junk ctx sr = { res := some ⟨-1, sr, []⟩ } := by
    unfold mkUserInitRun
    rw [hsr]
    exact if_pos (by simp [homeUri])
  rw [hrun]
  exact ⟨Nat.zero_le _, by simp, by simp, rfl⟩

/-- With a slash behind the name only a NUL can be in the way. -/
theorem homeOk_slash_iff (hs : 0x2f ∉ s) (hsr : sr.uriProcessed = homeUri (s ++ 0x2f :: t) tail)
    (hlen : (s ++ 0x2f :: t).length + 2 < 2 ^ 31) :
    HomeOk ctx (s ++ 0x2f :: t) (mkUserInitRun junk ctx sr) ↔
      253 ≤ s.length ∨ (0 ∉ s ∧ (0 ∈ (0x2f :: t : Bytes) → ctx.sys.getpwnam s = none)) := by
  have hres : (mkUserInitRun junk ctx sr).res = some (mkUserInit ctx sr) :=
    mkUserInitRun_res (by rw [hsr]; exact hlen)
  have hrun : (mkUserInitRun junk ctx sr).reach ≤ (s ++ 0x2f :: t).length + 2 ∧ (mkUserInitRun junk ctx sr).name =
      if 253 ≤ s.length then none else some (cstr s) := mkUserInitRun_slash hs hsr hlen
  rw [mkUserInit_slash hs hsr hlen] at hres
  by_cases hfar : 253 ≤ s.length
  · rw [if_pos hfar] at hrun hres
    refine iff_of_true ⟨hrun.1, ?_, ?_, by rw [hres]; rfl⟩ (.inl hfar)
    · rw [hrun.2]
      simp
    · rw [hres]
      simp
  rw [if_neg hfar] at hrun hres
  rw [or_iff_right hfar]
  constructor
  · intro hok
    have hname : cstr s = s := by
      have heq := hok.name (cstr s) (by rw [hrun.2]; rfl)
      rwa [homeUserText_slash hs] at heq
    refine ⟨hname ▸ zero_notMem_cstr s, fun hzero => ?_⟩
    rw [hname] at hres
    cases hpw : ctx.sys.getpwnam s with
    | none => rfl
    | some pwDir =>
        -- the path ends at the NUL
        rw [hpw] at hres
        obtain ⟨pwDir', hpw', hpath⟩ := hok.path _ hres rfl
        rw [homeUserText_slash hs, hpw] at hpw'
        obtain rfl := Option.some.inj hpw'
        rw [homeRest_slash hs] at hpath
        exact absurd (List.append_cancel_left hpath ▸ hzero) (zero_notMem_cstr _)
  · rintro ⟨hname, hrest⟩
    rw [cstr_eq_self hname] at hrun hres
    refine ⟨hrun.1, ?_, fun r hr hret => ?_, by rw [hres]; rfl⟩
    · rw [hrun.2, homeUserText_slash hs]
      simp
    · rw [hres] at hr
      obtain rfl := Option.some.inj hr
      rw [homeUserText_slash hs, homeRest_slash hs]
      cases hpw : ctx.sys.getpwnam s with
      | none =>
          rw [hpw] at hret
          contradiction
      | some pwDir =>
          have hzero : 0 ∉ (0x2f :: t : Bytes) := by
            intro hzero
            rw [hrest hzero] at hpw
            contradiction
          exact ⟨pwDir, rfl, by rw [cstr_eq_self hzero]⟩

/-- **When the URI of a home directory is taken apart as expected**: when there is nothing behind
`/~`, or a slash behind the name and no NUL. -/
theorem mkUserInitRun_iff (junk : Nat → UInt8) (ctx : Ctx) {sr : SessionRequest} {text tail : Bytes}
    (hsr : sr.uriProcessed = homeUri text tail) (hlen : text.length + 2 < 2 ^ 31) :
    HomeOk ctx text (mkUserInitRun junk ctx sr) ↔
      text = [] ∨
        (0x2f ∈ text ∧
          (253 ≤ (homeUserText text).length ∨
            (0 ∉ homeUserText text ∧ (0 ∈ homeRest text → ctx.sys.getpwnam (homeUserText text) = none)))) := by
  by_cases hnil : text = []
  · subst hnil
    exact iff_of_true (homeOk_nil hsr) (.inl rfl)
  rw [or_iff_right hnil]
  by_cases hslash : 0x2f ∈ text
  · obtain ⟨s, t, rfl, hs⟩ := List.eq_append_cons_of_mem hslash
    rw [homeOk_slash_iff hs hsr hlen, homeUserText_slash hs, homeRest_slash hs, and_iff_right hslash]
  · refine iff_of_false (fun hok => ?_) fun h => hslash h.1
    exact absurd hok.reads (Nat.not_le.mpr (mkUserInitRun_open hnil hslash hsr hlen))

end

/-- A server with one user. -/
def homeCtx : Ctx :=
  { sampleCtx with
    cfg := { sampleConfig with userDir := some (ascii "www".toList) }
    sys := { sampleSys with
      getpwnam := fun user => if user = ascii "ab".toList then some (ascii "/home/ab".toList) else none } }

theorem mkUserInitRun_iff_user :
    HomeOk homeCtx (ascii "ab/x".toList)
      (mkUserInitRun (fun _ => 0) homeCtx { uriProcessed := homeUri (ascii "ab/x".toList) (ascii " HTTP/1.1".toList) }) :=
  (mkUserInitRun_iff _ _ rfl (by decide)).mpr (.inr ⟨by decide, .inr ⟨by decide, fun h => absurd h (by decide)⟩⟩)

/-- In `GET /~ab?/x HTTP/1.1` the query begins with a slash: the user that is looked up is `ab?`. -/
theorem mkUserInitRun_query :
    let run := mkUserInitRun (fun _ => 0) homeCtx
      { uriProcessed := homeUri (ascii "ab".toList) (ascii "?/x HTTP/1.1\r\n".toList) }
    run.reach = 6 ∧ run.name = some (ascii "ab?".toList) ∧ ¬ HomeOk homeCtx (ascii "ab".toList) run := by
  refine ⟨by decide +kernel, by decide +kernel, fun hok => ?_⟩
  exact absurd hok.reads (by decide +kernel)

end Monkey
