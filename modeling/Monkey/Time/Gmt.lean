import Monkey.Lib.Block
import Monkey.Lib.Calendar
import Monkey.Lib.Decimal

/-!
# Monkey.Time.Gmt

`mk_utils_utime2gmt`: the date of a point in time as RFC 1123 writes it, with a cache of
the texts of the last dates in each thread.

The text is composed byte by byte as in the source, with `gmtime_r` computed by the calendar of
`Monkey.Lib.Calendar`.  The cache belongs to one thread; after any calls, a call returns what it would
with an empty one.
-/

namespace Monkey.Time

/-- The fields of `struct tm` that are used. -/
structure Tm where
  sec : Nat
  min : Nat
  hour : Nat
  mday : Nat
  mon : Nat
  year : Int
  wday : Nat
  isdst : Int := 0
deriving DecidableEq, Repr

/-- The number of 1 January 1970. -/
def epochDay : Int := 719162

/-- The calendar date in UTC. -/
def utcDate (t : Int) : Date := dateOf (t / 86400 + epochDay)

/-- The seconds since midnight. -/
def utcSecs (t : Int) : Nat := (t % 86400).toNat

/-- `gmtime_r`: fails when the year is no `int`. -/
def gmtimeR (t : Int) : Option Tm :=
  let date := utcDate t
  let secs := utcSecs t
  if -2 ^ 31 ≤ date.year - 1900 ∧ date.year - 1900 < 2 ^ 31 then
    some {
      sec := secs % 60, min := secs / 60 % 60, hour := secs / 3600, mday := date.mday, mon := date.mon,
      year := date.year - 1900, wday := weekday (t / 86400 + epochDay) }
  else none

/-! ## the text -/

/-- `mk_date_wd`. -/
def mkDateWd : List Bytes :=
  ["Sun, ", "Mon, ", "Tue, ", "Wed, ", "Thu, ", "Fri, ", "Sat, "].map fun s => ascii s.toList

/-- `mk_date_ym`. -/
def mkDateYm : List Bytes :=
  ["Jan ", "Feb ", "Mar ", "Apr ", "May ", "Jun ", "Jul ", "Aug ", "Sep ", "Oct ", "Nov ", "Dec "].map
    fun s => ascii s.toList

/-- `'0' + n` in a `char`. -/
def digitChar (n : Nat) : UInt8 := UInt8.ofNat (48 + n)

/-- The bytes that `mk_utils_utime2gmt` composes, in the order in which it stores them. -/
def gmtText (gtm : Tm) : Bytes :=
  -- the fields are kept in unsigned shorts
  let year := ((gtm.year + 1900) % 2 ^ 16).toNat
  let mday := gtm.mday % 2 ^ 16
  let hour := gtm.hour % 2 ^ 16
  let min := gtm.min % 2 ^ 16
  let sec := gtm.sec % 2 ^ 16
  (mkDateWd.getD gtm.wday []).take 5 ++
    [digitChar (mday / 10), digitChar (mday % 10), 0x20] ++
    (mkDateYm.getD gtm.mon []).take 4 ++
    [digitChar (year / 1000 % 10), digitChar (year / 100 % 10), digitChar (year / 10 % 10),
      digitChar (year % 10), 0x20] ++
    [digitChar (hour / 10), digitChar (hour % 10), 0x3a] ++
    [digitChar (min / 10), digitChar (min % 10), 0x3a] ++
    [digitChar (sec / 10), digitChar (sec % 10)] ++
    (ascii " GMT\r\n".toList ++ [0])

/-! ## the cache -/

/-- `struct mk_gmt_cache`. -/
structure GmtCache where
  time : Int := 0
  text : Bytes := List.replicate 32 0
  hits : UInt64 := 0
deriving DecidableEq, Repr

/-- `MK_GMT_CACHES`. -/
def mkGmtCaches : Nat := 10

/-- The cache of a new thread, filled with zeros. -/
def GmtCache.init : List GmtCache := List.replicate mkGmtCaches {}

/-- `mk_utils_gmt_cache_get`: the text of the first entry of the date. -/
def mkUtilsGmtCacheGet : List GmtCache → Int → Option (Bytes × List GmtCache)
  | [], _ => none
  | e :: es, date =>
      if date = e.time then some (e.text, { e with hits := e.hits + 1 } :: es)
      else (mkUtilsGmtCacheGet es date).map fun (text, es) => (text, e :: es)

/-- The first entry with the fewest hits. -/
def gmtCacheMin (gcache : List GmtCache) : Nat :=
  let hits (i : Nat) := (gcache.getD i {}).hits
  (List.range' 1 (gcache.length - 1)).foldl (fun min i => if hits i < hits min then i else min) 0

/-- `mk_utils_gmt_cache_add`. -/
def mkUtilsGmtCacheAdd (gcache : List GmtCache) (data : Bytes) (time : Int) : List GmtCache :=
  gcache.set (gmtCacheMin gcache) { time := time, text := data, hits := 1 }

/-! ## the conversion -/

/-- A call that has not found the date: the result, the buffer and the cache. -/
def utime2gmtConvert (gcache : List GmtCache) (data : Bytes) (date : Int) :
    Option (Int × Bytes × List GmtCache) :=
  match gmtimeR date with
  | none => some (-1, data, gcache)
  | some gtm => do
      let data ← writeAt data 0 (gmtText gtm)
      let text ← readAt data 0 32
      some (31, data, mkUtilsGmtCacheAdd gcache text date)

/-- `mk_utils_utime2gmt` on the buffer `data`; `now` is what `time` returns. -/
def mkUtilsUtime2gmt (now : Int) (gcache : List GmtCache) (data : Bytes) (date : Int) :
    Option (Int × Bytes × List GmtCache) :=
  if date = 0 then
    if now = -1 then some (-1, data, gcache) else utime2gmtConvert gcache data now
  else
    match mkUtilsGmtCacheGet gcache date with
    | some (text, gcache) => (writeAt data 0 text).map fun data => (31, data, gcache)
    | none => utime2gmtConvert gcache data date

/-! ## RFC 1123 -/

def dayNames : List Bytes := ["Sun", "Mon", "Tue", "Wed", "Thu", "Fri", "Sat"].map fun s => ascii s.toList

def monthNames : List Bytes :=
  ["Jan", "Feb", "Mar", "Apr", "May", "Jun", "Jul", "Aug", "Sep", "Oct", "Nov", "Dec"].map fun s => ascii s.toList

/-- The date of a point in time in the format of RFC 1123. -/
def rfc1123 (t : Int) : Bytes :=
  dayNames.getD (weekday (t / 86400 + epochDay)) [] ++ ascii ", ".toList ++
    zeroPadded 2 (utcDate t).mday ++ [0x20] ++ monthNames.getD (utcDate t).mon [] ++ [0x20] ++
    zeroPadded 4 (utcDate t).year.toNat ++ [0x20] ++
    zeroPadded 2 (utcSecs t / 3600) ++ [0x3a] ++ zeroPadded 2 (utcSecs t / 60 % 60) ++ [0x3a] ++
    zeroPadded 2 (utcSecs t % 60) ++ ascii " GMT".toList

/-- The text with its CRLF and the terminating NUL. -/
def rfc1123Line (t : Int) : Bytes := rfc1123 t ++ [0x0d, 0x0a, 0]

/-- A point in time after the epoch and before the year 10000. -/
def InRange (t : Int) : Prop := 0 < t ∧ t < 253402300800
deriving Decidable

theorem zeroPadded_two {n : Nat} (h : n < 100) :
    zeroPadded 2 n = [digitChar (n / 10), digitChar (n % 10)] := by
  rw [zeroPadded_succ le_rfl, zeroPadded_one (by omega)]
  rfl

theorem zeroPadded_four {n : Nat} (h : n < 10000) :
    zeroPadded 4 n = [digitChar (n / 1000 % 10), digitChar (n / 100 % 10), digitChar (n / 10 % 10),
      digitChar (n % 10)] := by
  rw [zeroPadded_succ (by decide), zeroPadded_succ (by decide), zeroPadded_succ le_rfl,
    zeroPadded_one (by omega), show n / 1000 % 10 = n / 10 / 10 / 10 by omega,
    show n / 100 % 10 = n / 10 / 10 % 10 by omega]
  rfl

theorem mkDateWd_eq {w : Nat} (h : w < 7) :
    (mkDateWd.getD w []).take 5 = dayNames.getD w [] ++ ascii ", ".toList ∧ (dayNames.getD w []).length = 3 := by
  have hall : ∀ w < 7, (mkDateWd.getD w []).take 5 = dayNames.getD w [] ++ ascii ", ".toList ∧
      (dayNames.getD w []).length = 3 := by decide +kernel
  exact hall w h

theorem mkDateYm_eq {m : Nat} (h : m < 12) :
    (mkDateYm.getD m []).take 4 = monthNames.getD m [] ++ [0x20] ∧ (monthNames.getD m []).length = 3 := by
  have hall : ∀ m < 12, (mkDateYm.getD m []).take 4 = monthNames.getD m [] ++ [0x20] ∧
      (monthNames.getD m []).length = 3 := by decide +kernel
  exact hall m h

/-- The fields of a date in the range. -/
structure Fields (t : Int) : Prop where
  secs : utcSecs t < 86400
  mday : (utcDate t).mday < 32
  mon : (utcDate t).mon < 12
  wday : weekday (t / 86400 + epochDay) < 7
  year : 1 ≤ (utcDate t).year ∧ (utcDate t).year < 10000

theorem InRange.fields {t : Int} (h : InRange t) : Fields t := by
  obtain ⟨hvalid, -⟩ := dateOf_spec (t / 86400 + epochDay)
  obtain ⟨h0, ht⟩ := h
  have hmonth : ∀ leap, ∀ m < 12, (monthLengths leap).getD m 0 ≤ 31 := by decide
  have hmday := hvalid.mday_le.trans (hmonth _ _ hvalid.mon)
  refine ⟨?_, Nat.lt_succ_of_le hmday, hvalid.mon, ?_, year_dateOf ?_ ?_⟩
  · unfold utcSecs
    omega
  · unfold weekday
    omega
  · unfold epochDay
    omega
  · unfold epochDay
    omega

/-- What is composed is the text of RFC 1123. -/
theorem gmtText_eq {t : Int} (h : InRange t) : ∃ gtm, gmtimeR t = some gtm ∧ gmtText gtm = rfc1123Line t := by
  have hf := h.fields
  have hyear : -2 ^ 31 ≤ (utcDate t).year - 1900 ∧ (utcDate t).year - 1900 < 2 ^ 31 := by
    have := hf.year
    omega
  refine ⟨_, if_pos hyear, ?_⟩
  have hwrap : (((utcDate t).year - 1900 + 1900) % 2 ^ 16).toNat = (utcDate t).year.toNat := by
    have := hf.year
    omega
  have hsmall : ∀ n < 100, n % 2 ^ 16 = n := by omega
  have hsecs := hf.secs
  have hmday : (utcDate t).mday < 100 := hf.mday.trans (by decide)
  have hhour : utcSecs t / 3600 < 100 := by omega
  have hmin : utcSecs t / 60 % 60 < 100 := by omega
  have hsec : utcSecs t % 60 < 100 := by omega
  have hnyear : (utcDate t).year.toNat < 10000 := by
    have := hf.year
    omega
  have hend : ascii " GMT\r\n".toList ++ [0] = ascii " GMT".toList ++ [0x0d, 0x0a, 0] := rfl
  simp only [gmtText, hwrap, hsmall _ hhour, hsmall _ hmin, hsmall _ hsec, hsmall _ hmday,
    (mkDateWd_eq hf.wday).1, (mkDateYm_eq hf.mon).1, hend]
  rw [rfc1123Line, rfc1123, zeroPadded_two hmday, zeroPadded_two hhour, zeroPadded_two hmin,
    zeroPadded_two hsec, zeroPadded_four hnyear]
  simp only [List.append_assoc, List.cons_append, List.nil_append]

theorem length_rfc1123Line {t : Int} (h : InRange t) : (rfc1123Line t).length = 32 := by
  have hf := h.fields
  have hsecs := hf.secs
  have hmday := hf.mday
  have hpad : ∀ n < 100, (zeroPadded 2 n).length = 2 := fun n hn => length_zeroPadded hn
  have hyear : (zeroPadded 4 (utcDate t).year.toNat).length = 4 := by
    have := hf.year
    exact length_zeroPadded (by omega)
  simp only [rfc1123Line, rfc1123, List.length_append, (mkDateWd_eq hf.wday).2, (mkDateYm_eq hf.mon).2, hyear,
    hpad _ (show (utcDate t).mday < 100 by omega), hpad _ (show utcSecs t / 3600 < 100 by omega),
    hpad _ (show utcSecs t / 60 % 60 < 100 by omega), hpad _ (show utcSecs t % 60 < 100 by omega)]
  rfl

/-- Sunday, the ninth of September 2001. -/
example : rfc1123 1000000000 = ascii "Sun, 09 Sep 2001 01:46:40 GMT".toList := by decide +kernel

/-! ## calls of one thread -/

/-- An entry that is in use holds the text of its date. -/
structure CacheOk (gcache : List GmtCache) : Prop where
  length : gcache.length = mkGmtCaches
  text : ∀ e ∈ gcache, e.time ≠ 0 → InRange e.time → e.text = rfc1123Line e.time

theorem CacheOk.init : CacheOk GmtCache.init where
  length := rfl
  text e he hne := by
    have hzero : e.time = 0 := by rw [List.eq_of_mem_replicate he]
    exact absurd hzero hne

/-- A date that is found has its text, and only the hits of its entry change. -/
theorem mkUtilsGmtCacheGet_spec {gcache gcache' : List GmtCache} {date : Int} {text : Bytes}
    (h : mkUtilsGmtCacheGet gcache date = some (text, gcache')) :
    (∃ e ∈ gcache, e.time = date ∧ e.text = text) ∧
      gcache'.map (fun e => (e.time, e.text)) = gcache.map fun e => (e.time, e.text) := by
  induction gcache generalizing gcache' with
  | nil => contradiction
  | cons e es ih =>
      rw [mkUtilsGmtCacheGet] at h
      split at h
      · next heq =>
          obtain ⟨rfl, rfl⟩ := Prod.mk.inj (Option.some.inj h)
          exact ⟨⟨e, List.mem_cons_self, heq.symm, rfl⟩, rfl⟩
      · obtain ⟨⟨text', es'⟩, hes, heq⟩ := Option.map_eq_some_iff.mp h
        obtain ⟨rfl, rfl⟩ := Prod.mk.inj heq
        obtain ⟨⟨e', he', htime, htext⟩, hmap⟩ := ih hes
        exact ⟨⟨e', List.mem_cons_of_mem _ he', htime, htext⟩, by rw [List.map_cons, List.map_cons, hmap]⟩

theorem CacheOk.get {gcache gcache' : List GmtCache} {date : Int} {text : Bytes} (h : CacheOk gcache)
    (hdate : InRange date) (hget : mkUtilsGmtCacheGet gcache date = some (text, gcache')) :
    text = rfc1123Line date ∧ CacheOk gcache' := by
  obtain ⟨⟨e, he, rfl, rfl⟩, hmap⟩ := mkUtilsGmtCacheGet_spec hget
  refine ⟨h.text e he hdate.1.ne' hdate, ?_, fun e' he' hne hrange => ?_⟩
  · have hlen := congrArg List.length hmap
    rw [List.length_map, List.length_map] at hlen
    rw [hlen, h.length]
  · -- an entry with its time and text was there before
    have hmem : (e'.time, e'.text) ∈ gcache.map fun e => (e.time, e.text) := by
      rw [← hmap]
      exact List.mem_map_of_mem he'
    obtain ⟨e₀, he₀, heq⟩ := List.mem_map.mp hmem
    obtain ⟨htime, htext⟩ := Prod.mk.inj heq
    rw [← htext, ← htime]
    exact h.text e₀ he₀ (htime ▸ hne) (htime ▸ hrange)

theorem CacheOk.add {gcache : List GmtCache} {date : Int} (h : CacheOk gcache) :
    CacheOk (mkUtilsGmtCacheAdd gcache (rfc1123Line date) date) := by
  refine ⟨by rw [mkUtilsGmtCacheAdd, List.length_set, h.length], fun e he hne hrange => ?_⟩
  rcases List.mem_or_eq_of_mem_set he with hmem | rfl
  · exact h.text e hmem hne hrange
  · rfl

/-- **One call**: the text of the date, whatever the cache holds. -/
theorem mkUtilsUtime2gmt_eq {gcache : List GmtCache} (h : CacheOk gcache) (now : Int) {data : Bytes}
    (hdata : 32 ≤ data.length) {date : Int} (hdate : InRange date) :
    ∃ gcache', mkUtilsUtime2gmt now gcache data date =
        some (31, fillAt data 0 (rfc1123Line date), gcache') ∧ CacheOk gcache' := by
  have hlen := length_rfc1123Line hdate
  have hwrite : writeAt data 0 (rfc1123Line date) = some (fillAt data 0 (rfc1123Line date)) :=
    writeAt_of_le (by omega)
  rw [mkUtilsUtime2gmt, if_neg hdate.1.ne']
  cases hget : mkUtilsGmtCacheGet gcache date with
  | some found =>
      obtain ⟨text, gcache'⟩ := found
      have hgot := h.get hdate hget
      exact ⟨gcache', by simp only [hgot.1, hwrite, Option.map_some], hgot.2⟩
  | none =>
      obtain ⟨gtm, hgtm, htext⟩ := gmtText_eq hdate
      have hread : readAt (fillAt data 0 (rfc1123Line date)) 0 32 = some (rfc1123Line date) := by
        have htake := @take_fillAt data 0 (Nat.zero_le _) (rfc1123Line date)
        have hroom := @length_fillAt data 0 (rfc1123Line date) (by omega)
        rw [hlen, Nat.zero_add, List.take_zero, List.nil_append] at htake
        rw [readAt, if_pos (by omega), List.drop_zero, htake]
      refine ⟨mkUtilsGmtCacheAdd gcache (rfc1123Line date) date, ?_, h.add⟩
      simp only [utime2gmtConvert, hgtm, htext, hwrite, hread, Option.bind_eq_bind, Option.bind_some]

/-- The calls of one thread, each with its buffer: what they return and write. -/
def utime2gmtCalls (now : Int) : List GmtCache → List (Bytes × Int) → Option (List (Int × Bytes))
  | _, [] => some []
  | gcache, (data, date) :: calls => do
      let (ret, data, gcache) ← mkUtilsUtime2gmt now gcache data date
      let rest ← utime2gmtCalls now gcache calls
      some ((ret, data) :: rest)

theorem CacheOk.calls {gcache : List GmtCache} (h : CacheOk gcache) (now : Int) {calls : List (Bytes × Int)}
    (hcalls : ∀ c ∈ calls, 32 ≤ c.1.length ∧ InRange c.2) :
    utime2gmtCalls now gcache calls = some (calls.map fun c => (31, fillAt c.1 0 (rfc1123Line c.2))) := by
  induction calls generalizing gcache with
  | nil => rfl
  | cons c calls ih =>
      obtain ⟨⟨hdata, hdate⟩, hcalls⟩ := List.forall_mem_cons.mp hcalls
      obtain ⟨gcache', heq, hok⟩ := mkUtilsUtime2gmt_eq h now hdata hdate
      rw [utime2gmtCalls, heq]
      simp only [Option.bind_eq_bind, Option.bind_some, ih hok hcalls, List.map_cons]

/-- **The cache is not seen**: in any sequence of calls each one writes the text of its own date
with CRLF and NUL, returns 31, and does as it would with an empty cache. -/
theorem utime2gmtCalls_eq (now : Int) {calls : List (Bytes × Int)}
    (hcalls : ∀ c ∈ calls, 32 ≤ c.1.length ∧ InRange c.2) :
    utime2gmtCalls now GmtCache.init calls =
        some (calls.map fun c => (31, fillAt c.1 0 (rfc1123Line c.2))) ∧
      ∀ c ∈ calls, (mkUtilsUtime2gmt now GmtCache.init c.1 c.2).map (fun r => (r.1, r.2.1)) =
        some (31, fillAt c.1 0 (rfc1123Line c.2)) := by
  refine ⟨CacheOk.init.calls now hcalls, fun c hc => ?_⟩
  obtain ⟨gcache', heq, -⟩ := mkUtilsUtime2gmt_eq .init now (hcalls c hc).1 (hcalls c hc).2
  rw [heq]
  rfl

/-- The same date twice, and another one. -/
theorem utime2gmtCalls_eq_twice :
    utime2gmtCalls 0 GmtCache.init
        [(List.replicate 32 0, 86400), (List.replicate 32 1, 86400), (List.replicate 32 0, 1)] =
      some [(31, ascii "Fri, 02 Jan 1970 00:00:00 GMT\r\n".toList ++ [0]),
        (31, ascii "Fri, 02 Jan 1970 00:00:00 GMT\r\n".toList ++ [0]),
        (31, ascii "Thu, 01 Jan 1970 00:00:01 GMT\r\n".toList ++ [0])] := by
  rw [(utime2gmtCalls_eq 0 (by simp [InRange])).1]
  decide +kernel

end Monkey.Time
