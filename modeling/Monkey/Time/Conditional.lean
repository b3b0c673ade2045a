import Monkey.Time.Gmt
import Monkey.Http.Init

/-!
# Monkey.Time.Conditional

`mk_utils_gmt2utime`: the way back from a date in the format of RFC 1123, for a conditional
GET.  The date is in UTC, but `mktime` takes it for a local time, with the daylight-saving
flag that the stack happens to hold.

`strptime` and `mktime` are modelled as they are documented, for the formats and the ranges that occur
here.  The zone is any pair of offsets with a rule that says when the second one is in force.
-/

namespace Monkey.Time

/-! ## reading a date -/

/-- The conversions of `strptime` that `GMT_DATEFORMAT` uses. -/
inductive Conversion
  | wday | mday | mon | year | hour | min | sec
  | space
  | lit (c : UInt8)
deriving DecidableEq, Repr

/-- `GMT_DATEFORMAT`: `"%a, %d %b %Y %H:%M:%S GMT\r\n"`. -/
def gmtDateformat : List Conversion :=
  [.wday, .lit 0x2c, .space, .mday, .space, .mon, .space, .year, .space, .hour, .lit 0x3a, .min, .lit 0x3a,
    .sec, .space, .lit 0x47, .lit 0x4d, .lit 0x54, .space, .space]

def fullDays : List Bytes :=
  ["Sunday", "Monday", "Tuesday", "Wednesday", "Thursday", "Friday", "Saturday"].map fun s => ascii s.toList

def fullMonths : List Bytes :=
  ["January", "February", "March", "April", "May", "June", "July", "August", "September", "October",
    "November", "December"].map fun s => ascii s.toList

/-- A name in full or abbreviated, in any letter case: its number, and what follows it. -/
def getName (full abbr : List Bytes) (s : Bytes) : Option (Nat × Bytes) :=
  (List.range full.length).findSome? fun i =>
    let name := full.getD i []
    let short := abbr.getD i []
    if strncasecmp s name name.length then some (i, s.drop name.length)
    else if strncasecmp s short short.length then some (i, s.drop short.length)
    else none

/-- A number of at most `k` digits between `lo` and `hi`, and what follows it. -/
def getNumber (lo hi k : Nat) (s : Bytes) : Option (Nat × Bytes) :=
  let s := s.dropWhile (· == 0x20)
  let ds := (s.take k).takeWhile isdigit
  if ds ≠ [] ∧ lo ≤ digits 0 ds ∧ digits 0 ds ≤ hi then some (digits 0 ds, s.drop ds.length) else none

/-- One conversion; the fields it does not set keep what they hold. -/
def strptimeOne (tm : Tm) (s : Bytes) : Conversion → Option (Tm × Bytes)
  | .wday => (getName fullDays dayNames s).map fun (n, s) => ({ tm with wday := n }, s)
  | .mday => (getNumber 1 31 2 s).map fun (n, s) => ({ tm with mday := n }, s)
  | .mon => (getName fullMonths monthNames s).map fun (n, s) => ({ tm with mon := n }, s)
  | .year => (getNumber 0 9999 4 s).map fun (n, s) => ({ tm with year := (n : Int) - 1900 }, s)
  | .hour => (getNumber 0 23 2 s).map fun (n, s) => ({ tm with hour := n }, s)
  | .min => (getNumber 0 59 2 s).map fun (n, s) => ({ tm with min := n }, s)
  | .sec => (getNumber 0 60 2 s).map fun (n, s) => ({ tm with sec := n }, s)
  | .space => some (tm, s.dropWhile isspace)
  | .lit c => if s.head? = some c then some (tm, s.tail) else none

/-- `strptime`. -/
def strptime (tm : Tm) (s : Bytes) : List Conversion → Option Tm
  | [] => some tm
  | c :: cs => do
      let (tm, s) ← strptimeOne tm s c
      strptime tm s cs

/-! ## the time zone -/

/-- The time zone of the process: at a local time, the seconds that its standard time and its
daylight-saving time are ahead of UTC, and whether the latter is in force. -/
structure TimeZone where
  std : Int → Int
  dst : Int → Int
  daylight : Int → Bool

/-- What `mktime` corrects a local time by: a flag of zero or above says which time it is, a
negative one leaves it to the zone. -/
def TimeZone.correction (tz : TimeZone) (secs isdst : Int) : Int :=
  if isdst > 0 then tz.dst secs
  else if isdst = 0 then tz.std secs
  else if tz.daylight secs then tz.dst secs
  else tz.std secs

/-- The seconds since the epoch of a date in UTC. -/
def secondsOf (tm : Tm) : Int :=
  (dayNumber { year := tm.year + 1900, mon := tm.mon, mday := tm.mday } - epochDay) * 86400 +
    tm.hour * 3600 + tm.min * 60 + tm.sec

/-- `mktime` of a date in the ranges that `strptime` accepts. -/
def mktime (tz : TimeZone) (tm : Tm) : Int := secondsOf tm - tz.correction (secondsOf tm) tm.isdst

/-- `mk_utils_gmt2utime`; `tData` is what the uninitialised `t_data` holds. -/
def mkUtilsGmt2utime (tz : TimeZone) (tData : Tm) (date : Bytes) : Int :=
  match strptime tData date gmtDateformat with
  | none => -1
  | some tm => mktime tz tm

/-! ## reading the text back -/

theorem getName_day {w : Nat} (h : w < 7) (s : Bytes) :
    getName fullDays dayNames (dayNames.getD w [] ++ 0x2c :: s) = some (w, 0x2c :: s) := by
  interval_cases w <;> rfl

theorem getName_month {m : Nat} (h : m < 12) (s : Bytes) :
    getName fullMonths monthNames (monthNames.getD m [] ++ 0x20 :: s) = some (m, 0x20 :: s) := by
  interval_cases m <;> rfl

theorem getNumber_zeroPadded {lo hi k n : Nat} (hn : n < 10 ^ (k + 1)) (hlo : lo ≤ n) (hhi : n ≤ hi) (s : Bytes) :
    getNumber lo hi (k + 1) (zeroPadded (k + 1) n ++ s) = some (n, s) := by
  have hlen := length_zeroPadded hn
  have hdigits := @isdigit_of_mem_zeroPadded (k + 1) n
  have hblank : (zeroPadded (k + 1) n ++ s).dropWhile (· == 0x20) = zeroPadded (k + 1) n ++ s := by
    obtain ⟨c, ds, hds⟩ := List.exists_cons_of_ne_nil (List.ne_nil_of_length_eq_add_one hlen)
    rw [hds] at hdigits ⊢
    refine List.dropWhile_cons_of_neg fun hc => ?_
    have := hdigits c List.mem_cons_self
    rw [beq_iff_eq.mp hc] at this
    contradiction
  have htake : ((zeroPadded (k + 1) n ++ s).take (k + 1)).takeWhile isdigit = zeroPadded (k + 1) n := by
    rw [List.take_left' hlen, List.takeWhile_eq_self_iff.mpr hdigits]
  rw [getNumber, hblank]
  simp only [htake, digits_zeroPadded]
  rw [if_pos ⟨List.ne_nil_of_length_eq_add_one hlen, hlo, hhi⟩, List.drop_left]

/-- White space in front of a text. -/
theorem dropWhile_blank {c : UInt8} (hc : isspace c = false) (s : Bytes) :
    (0x20 :: c :: s).dropWhile isspace = c :: s := by
  rw [List.dropWhile_cons_of_pos (by rfl), List.dropWhile_cons_of_neg (by simp [hc])]

theorem dropWhile_blank_zeroPadded {k n : Nat} (hn : n < 10 ^ (k + 1)) (s : Bytes) :
    (0x20 :: (zeroPadded (k + 1) n ++ s)).dropWhile isspace = zeroPadded (k + 1) n ++ s := by
  have hlen := length_zeroPadded hn
  have hdigits := @isdigit_of_mem_zeroPadded (k + 1) n
  obtain ⟨c, ds, hds⟩ := List.exists_cons_of_ne_nil (List.ne_nil_of_length_eq_add_one hlen)
  rw [hds] at hdigits ⊢
  exact dropWhile_blank (isspace_eq_false_of_isdigit (hdigits c List.mem_cons_self)) _

theorem dropWhile_blank_month {m : Nat} (h : m < 12) (s : Bytes) :
    (0x20 :: (monthNames.getD m [] ++ s)).dropWhile isspace = monthNames.getD m [] ++ s := by
  interval_cases m <;> rfl

/-- The broken-down time that is read: the fields of the date, and the flag as it was. -/
def readTm (t : Int) (tData : Tm) : Tm where
  sec := utcSecs t % 60
  min := utcSecs t / 60 % 60
  hour := utcSecs t / 3600
  mday := (utcDate t).mday
  mon := (utcDate t).mon
  year := (utcDate t).year - 1900
  wday := weekday (t / 86400 + epochDay)
  isdst := tData.isdst

theorem strptime_cons {tm tm' : Tm} {s s' : Bytes} {c : Conversion} {cs : List Conversion}
    (h : strptimeOne tm s c = some (tm', s')) : strptime tm s (c :: cs) = strptime tm' s' cs := by
  rw [strptime, h]
  rfl

theorem strptime_lit (tm : Tm) (c : UInt8) (s : Bytes) (cs : List Conversion) :
    strptime tm (c :: s) (.lit c :: cs) = strptime tm s cs :=
  strptime_cons (by rw [strptimeOne, List.head?_cons, if_pos rfl, List.tail_cons])

theorem strptime_space (tm : Tm) {s s' : Bytes} (h : s.dropWhile isspace = s') (cs : List Conversion) :
    strptime tm s (.space :: cs) = strptime tm s' cs :=
  strptime_cons (by rw [strptimeOne, h])

/-- The text of a date is read back, whatever follows it. -/
theorem strptime_rfc1123 {t : Int} (h : InRange t) (tData : Tm) (tail : Bytes) :
    strptime tData (rfc1123 t ++ tail) gmtDateformat = some (readTm t tData) := by
  have hf := h.fields
  have hsecs := hf.secs
  have hmday : 1 ≤ (utcDate t).mday := (dateOf_spec (t / 86400 + epochDay)).1.mday_pos
  have hmday' := hf.mday
  have hyear : ((utcDate t).year.toNat : Int) = (utcDate t).year := Int.toNat_of_nonneg (by have := hf.year; omega)
  have hyear' : (utcDate t).year.toNat < 10000 := by have := hf.year; omega
  have htext : rfc1123 t ++ tail = dayNames.getD (weekday (t / 86400 + epochDay)) [] ++ 0x2c :: (0x20 ::
      (zeroPadded 2 (utcDate t).mday ++ 0x20 :: (monthNames.getD (utcDate t).mon [] ++ 0x20 ::
        (zeroPadded 4 (utcDate t).year.toNat ++ 0x20 :: (zeroPadded 2 (utcSecs t / 3600) ++ 0x3a ::
          (zeroPadded 2 (utcSecs t / 60 % 60) ++ 0x3a :: (zeroPadded 2 (utcSecs t % 60) ++
            0x20 :: 0x47 :: 0x4d :: 0x54 :: tail))))))) := by
    have hcomma : ascii ", ".toList = [0x2c, 0x20] := rfl
    have hgmt : ascii " GMT".toList = [0x20, 0x47, 0x4d, 0x54] := rfl
    rw [rfc1123, hcomma, hgmt]
    simp only [List.append_assoc, List.cons_append, List.nil_append]
  have hmon : ∀ s, (0x20 :: (monthNames.getD (utcDate t).mon [] ++ s)).dropWhile isspace =
      monthNames.getD (utcDate t).mon [] ++ s := fun s => dropWhile_blank_month hf.mon s
  rw [htext, gmtDateformat]
  -- the day and the month by their names
  rw [strptime_cons (by rw [strptimeOne, getName_day hf.wday, Option.map_some]), strptime_lit,
    strptime_space _ (dropWhile_blank_zeroPadded (by omega) _),
    strptime_cons (by rw [strptimeOne, getNumber_zeroPadded (by omega) hmday (by omega), Option.map_some]),
    strptime_space _ (hmon _),
    strptime_cons (by rw [strptimeOne, getName_month hf.mon, Option.map_some])]
  -- the year and the time of day
  rw [strptime_space _ (dropWhile_blank_zeroPadded (by omega) _),
    strptime_cons (by rw [strptimeOne, getNumber_zeroPadded (by omega) (by omega) (by omega), Option.map_some]),
    strptime_space _ (dropWhile_blank_zeroPadded (by omega) _),
    strptime_cons (by rw [strptimeOne, getNumber_zeroPadded (by omega) (by omega) (by omega), Option.map_some]),
    strptime_lit,
    strptime_cons (by rw [strptimeOne, getNumber_zeroPadded (by omega) (by omega) (by omega), Option.map_some]),
    strptime_lit,
    strptime_cons (by rw [strptimeOne, getNumber_zeroPadded (by omega) (by omega) (by omega), Option.map_some])]
  -- the zone, which is only compared
  rw [strptime_space _ (dropWhile_blank rfl _), strptime_lit, strptime_lit, strptime_lit, strptime_space _ rfl,
    strptime_space _ rfl, strptime, readTm, hyear]

theorem secondsOf_readTm (t : Int) (tData : Tm) : secondsOf (readTm t tData) = t := by
  have hday : dayNumber (utcDate t) = t / 86400 + epochDay := (dateOf_spec _).2
  have hdate : ({ year := (readTm t tData).year + 1900, mon := (readTm t tData).mon
                  mday := (readTm t tData).mday } : Date) = utcDate t := by
    simp only [readTm, sub_add_cancel]
  have hsecs : (utcSecs t : Int) = t % 86400 := Int.toNat_of_nonneg (by omega)
  rw [secondsOf, hdate, hday]
  simp only [readTm]
  omega

/-- What is read is ahead of the date by the correction of the zone. -/
theorem mkUtilsGmt2utime_rfc1123 {t : Int} (h : InRange t) (tz : TimeZone) (tData : Tm) (tail : Bytes) :
    mkUtilsGmt2utime tz tData (rfc1123 t ++ tail) = t - tz.correction t tData.isdst := by
  rw [mkUtilsGmt2utime, strptime_rfc1123 h]
  simp only [mktime, secondsOf_readTm]
  rfl

/-! ## conditional requests -/

/-- Whatever the cache holds, the text that is written for a date is read as that date. -/
def RoundTrips (tz : TimeZone) (tData : Tm) (t : Int) : Prop :=
  ∀ (now : Int) (gcache : List GmtCache) (data : Bytes), CacheOk gcache → 32 ≤ data.length →
    ∃ text gcache', mkUtilsUtime2gmt now gcache data t = some (31, text, gcache') ∧
      mkUtilsGmt2utime tz tData text = t

/-- A GET for a readable file of the date `t` that carries that date as `If-Modified-Since`. -/
structure Echoes (t : Int) (sr : SessionRequest) : Prop where
  method : sr.method = .get
  readAccess : sr.fileInfo.readAccess = true
  isDirectory : sr.fileInfo.isDirectory = false
  size : 0 ≤ sr.fileInfo.size
  lastModification : sr.fileInfo.lastModification = t
  ifModifiedSince : ∃ tail, sr.ifModifiedSince.data = some (rfc1123 t ++ tail)

/-- Every such request is answered with a 304 when the clock of the server is at `now`. -/
def AnswersNotModified (tz : TimeZone) (tData : Tm) (now t : Int) : Prop :=
  ∀ (ctx : Ctx) (sr : SessionRequest), ctx.sys.gmt2utime = mkUtilsGmt2utime tz tData →
    ctx.sys.logCurrentUtime = now → Echoes t sr →
      ∃ b, (mkHttpInitServe ctx sr).out = [.header b] ∧ b.status = mkNotModified

theorem roundTrips_iff {t : Int} (h : InRange t) (tz : TimeZone) (tData : Tm) :
    RoundTrips tz tData t ↔ tz.correction t tData.isdst = 0 := by
  have hwrite : ∀ data : Bytes, fillAt data 0 (rfc1123Line t) =
      rfc1123 t ++ ([0x0d, 0x0a, 0] ++ data.drop (rfc1123Line t).length) := by
    intro data
    rw [fillAt, List.take_zero, List.nil_append, Nat.zero_add, rfc1123Line, List.append_assoc]
  constructor
  · intro hround
    have hroom : 32 ≤ (List.replicate 32 (0 : UInt8)).length := by simp
    obtain ⟨text, gcache', heq, hread⟩ := hround 0 GmtCache.init _ .init hroom
    obtain ⟨gcache₀, heq₀, -⟩ := mkUtilsUtime2gmt_eq .init 0 hroom h
    rw [heq₀] at heq
    obtain ⟨-, htext⟩ := Prod.mk.inj (Option.some.inj heq)
    obtain ⟨rfl, -⟩ := Prod.mk.inj htext
    rw [hwrite, mkUtilsGmt2utime_rfc1123 h] at hread
    omega
  · intro hzero now gcache data hok hdata
    obtain ⟨gcache', heq, -⟩ := mkUtilsUtime2gmt_eq hok now hdata h
    refine ⟨_, gcache', heq, ?_⟩
    rw [hwrite, mkUtilsGmt2utime_rfc1123 h, hzero, sub_zero]

/-- A request that carries the date of its file, when that date is found. -/
theorem echoes_out {ctx : Ctx} {sr : SessionRequest} {t : Int} (h : Echoes t sr)
    (hmod : notModified ctx.sys sr = true) :
    ∃ b, (mkHttpInitServe ctx sr).out = [.header b] ∧ b.status = mkNotModified := by
  have hmod' : notModified ctx.sys { sr with headers := { sr.headers with
      lastModified := sr.fileInfo.lastModification } } = true := hmod
  rw [mkHttpInitServe, if_neg (by rw [h.method]; decide), if_neg (by rw [h.readAccess]; decide),
    if_neg (by rw [h.isDirectory]; decide), if_neg (not_lt.mpr h.size)]
  refine ⟨headerBlock ctx { sr with headers := { sr.headers with
    lastModified := sr.fileInfo.lastModification, status := mkNotModified } }, ?_, rfl⟩
  exact (congrArg Res.out (if_pos hmod')).trans rfl

theorem notModified_echoes {sys : Sys} {sr : SessionRequest} {t : Int} (ht : InRange t) (h : Echoes t sr)
    {tz : TimeZone} {tData : Tm} (hsys : sys.gmt2utime = mkUtilsGmt2utime tz tData)
    (hzero : tz.correction t tData.isdst = 0) (hnow : t ≤ sys.logCurrentUtime) : notModified sys sr = true := by
  obtain ⟨tail, hdata⟩ := h.ifModifiedSince
  rw [notModified, hdata]
  simp only [hsys, mkUtilsGmt2utime_rfc1123 ht, hzero, sub_zero, h.method, h.lastModification, le_refl, true_and,
    beq_self_eq_true, Bool.true_and, decide_eq_true_eq]
  exact ⟨ht.1, hnow⟩

/-- An empty file of the date `t`, asked for with that date. -/
def emptyFile (t : Int) : SessionRequest where
  method := .get
  fileInfo := { size := 0, lastModification := t, readAccess := true }
  ifModifiedSince := { data := some (rfc1123 t), len := 29 }

theorem Echoes.emptyFile (t : Int) : Echoes t (emptyFile t) :=
  ⟨rfl, rfl, rfl, le_rfl, rfl, [], by simp [Time.emptyFile]⟩

/-- A server whose clock is at `now`. -/
def clockCtx (tz : TimeZone) (tData : Tm) (now : Int) : Ctx :=
  { sampleCtx with sys := { sampleSys with gmt2utime := mkUtilsGmt2utime tz tData, logCurrentUtime := now } }

theorem clockCtx_sends {tz : TimeZone} {tData : Tm} {now t : Int}
    (h : notModified (clockCtx tz tData now).sys (emptyFile t) = false) :
    ∃ b, (mkHttpInitServe (clockCtx tz tData now) (emptyFile t)).out = [.header b] ∧ b.status = mkHttpOk := by
  have h' : notModified (clockCtx tz tData now).sys { emptyFile t with headers := { (emptyFile t).headers with
      lastModified := (emptyFile t).fileInfo.lastModification } } = false := h
  unfold mkHttpInitServe
  simp only [h']
  exact ⟨_, rfl, rfl⟩

/-- A file whose date is not found is sent. -/
theorem not_answersNotModified {tz : TimeZone} {tData : Tm} {now t : Int}
    (h : notModified (clockCtx tz tData now).sys (emptyFile t) = false) : ¬ AnswersNotModified tz tData now t := by
  intro hanswers
  obtain ⟨b, hb, hstatus⟩ := hanswers (clockCtx tz tData now) (emptyFile t) rfl rfl (.emptyFile t)
  obtain ⟨b', hb', hstatus'⟩ := clockCtx_sends h
  obtain rfl : b = b' := by simpa [hb] using hb'
  exact absurd (hstatus.symm.trans hstatus') (by decide)

/-- **When a date comes back**: the text of a date is read as that date, and a client that echoes
it gets a 304, exactly when the zone has no correction for it and the clock is not behind it. -/
theorem conditional_get_iff {t : Int} (h : InRange t) (tz : TimeZone) (tData : Tm) (now : Int) :
    (RoundTrips tz tData t ∧ AnswersNotModified tz tData now t) ↔
      tz.correction t tData.isdst = 0 ∧ t ≤ now := by
  rw [roundTrips_iff h]
  refine and_congr_right fun hzero => ⟨fun hanswers => ?_, fun hnow ctx sr hsys hclock hecho => ?_⟩
  · by_contra hlate
    have hmod : notModified (clockCtx tz tData now).sys (emptyFile t) = false := by
      have hread := mkUtilsGmt2utime_rfc1123 h tz tData []
      rw [List.append_nil, hzero, sub_zero] at hread
      rw [notModified]
      simp only [emptyFile, clockCtx, hread, Bool.and_eq_false_iff, decide_eq_false_iff_not]
      exact .inr fun hle => hlate hle.2.2
    exact not_answersNotModified hmod hanswers
  · exact echoes_out hecho (notModified_echoes h hecho hsys hzero (hclock ▸ hnow))

/-- A zone whose clocks always show UTC. -/
def utc : TimeZone := ⟨fun _ => 0, fun _ => 0, fun _ => false⟩

/-- A zone one hour ahead of UTC, and two in summer. -/
def centralEurope : TimeZone := ⟨fun _ => 3600, fun _ => 7200, fun _ => false⟩

/-- What a stack of zeros holds. -/
def zeroTm : Tm := { sec := 0, min := 0, hour := 0, mday := 0, mon := 0, year := 0, wday := 0 }

theorem conditional_get_iff_utc :
    RoundTrips utc zeroTm 1000000000 ∧ AnswersNotModified utc zeroTm 1000000001 1000000000 :=
  (conditional_get_iff (by decide) utc zeroTm 1000000001).mpr (by decide)

/-- One hour east of Greenwich, `Fri, 02 Jan 1970 00:00:00 GMT` is read as 23:00 of the day before,
and the file is sent again. -/
theorem conditional_get_fails :
    InRange 86400 ∧
      (mkUtilsUtime2gmt 0 GmtCache.init (List.replicate 32 0) 86400).map
          (fun r => mkUtilsGmt2utime centralEurope zeroTm r.2.1) = some 82800 ∧
      ¬ RoundTrips centralEurope zeroTm 86400 ∧
      ¬ AnswersNotModified centralEurope zeroTm 1000000 86400 := by
  have hmod : notModified (clockCtx centralEurope zeroTm 1000000).sys (emptyFile 86400) = false := by
    decide +kernel
  refine ⟨by decide, by decide +kernel, fun hround => ?_, not_answersNotModified hmod⟩
  exact absurd ((roundTrips_iff (by decide) centralEurope zeroTm).mp hround) (by decide)

end Monkey.Time
