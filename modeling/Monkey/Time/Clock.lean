import Monkey.Lib.DoubleBuffer
import Monkey.Lib.IsoWeek
import Monkey.Time.Gmt

/-!
# Monkey.Time.Clock

The clock thread (`mk_clock.c`): once a second it writes the date of the responses and that of
the access log, each into the one of two buffers that is not in use.

The workers copy the dates without a lock.  What they copy is one date.  That of the log has
the year of the week in it (`%G`), which is another one around New Year.

A second is a number, and the broken-down time is computed from it by the calendar of
`Monkey.Lib.Calendar`; the zone is a number of seconds that does not change while the clock runs.  A
reader copies byte by byte, and between two bytes the clock may do anything.
-/

namespace Monkey.Time

/-! ## the texts -/

/-- `struct tm` for `strftime`: the day, the seconds since midnight, and `tm_gmtoff`. -/
structure BrokenTime where
  day : Int
  secs : Nat
  gmtoff : Int

/-- `gmtime_r`. -/
def gmTime (t : Int) : BrokenTime := ⟨t / 86400 + epochDay, utcSecs t, 0⟩

/-- `localtime_r` in a zone which is `gmtoff` seconds ahead of UTC. -/
def localTime (gmtoff t : Int) : BrokenTime := ⟨(t + gmtoff) / 86400 + epochDay, utcSecs (t + gmtoff), gmtoff⟩

/-- The sign of `%z`. -/
def zoneSign (gmtoff : Int) : UInt8 := if gmtoff < 0 then 0x2d else 0x2b

/-- The conversions of the two formats; `%T` is `%H:%M:%S`. -/
def strftimeField (tm : BrokenTime) (c : UInt8) : Bytes :=
  let date := dateOf tm.day
  let hour := zeroPadded 2 (tm.secs / 3600)
  let min := zeroPadded 2 (tm.secs / 60 % 60)
  let sec := zeroPadded 2 (tm.secs % 60)
  if c = 0x61 then dayNames.getD (weekday tm.day) []
  else if c = 0x62 then monthNames.getD date.mon []
  else if c = 0x64 then zeroPadded 2 date.mday
  else if c = 0x59 then decimalInt date.year
  else if c = 0x47 then decimalInt (isoYear tm.day)
  else if c = 0x48 then hour
  else if c = 0x4d then min
  else if c = 0x53 then sec
  else if c = 0x54 then hour ++ [0x3a] ++ min ++ [0x3a] ++ sec
  else if c = 0x7a then
    zoneSign tm.gmtoff :: zeroPadded 4 (tm.gmtoff.natAbs / 3600 * 100 + tm.gmtoff.natAbs / 60 % 60)
  else []

/-- The text of a format. -/
def strftimeText (tm : BrokenTime) : Bytes → Bytes
  | 0x25 :: c :: format => strftimeField tm c ++ strftimeText tm format
  | c :: format => c :: strftimeText tm format
  | [] => []

/-- `strftime`: the bytes it leaves in the buffer; a text that does not fit leaves it in no
particular state. -/
def strftime (max : Nat) (format : Bytes) (tm : BrokenTime) : Option Bytes :=
  let text := strftimeText tm format ++ [0]
  if text.length ≤ max then some text else none

def headerTimeBufferSize : Nat := 32
def logTimeBufferSize : Nat := 30

/-- The text of `mk_clock_header_set_time`. -/
def headerTime (utime : Int) : Option Bytes :=
  strftime headerTimeBufferSize (ascii "%a, %d %b %Y %H:%M:%S GMT\r\n".toList) (gmTime utime)

/-- The text of `mk_clock_log_set_time`. -/
def logTime (gmtoff utime : Int) : Option Bytes :=
  strftime logTimeBufferSize (ascii "[%d/%b/%G %T %z]".toList) (localTime gmtoff utime)

/-- `header_current_time.len`. -/
def headerTimeLen : Nat := headerTimeBufferSize - 1

/-- `log_current_time.len`. -/
def logTimeLen : Nat := logTimeBufferSize - 2

/-! ## the date of a response -/

/-- A year of four digits. -/
theorem zeroPadded_year {y : Nat} (hlow : 1000 ≤ y) (hhigh : y < 10000) : zeroPadded 4 y = decimal y := by
  have hlen : (decimal y).length = 4 := by
    rw [decimal_of_le (by omega), decimal_of_le (by omega), decimal_of_le (by omega), decimal_of_lt (by omega)]
    rfl
  rw [zeroPadded, hlen]
  rfl

/-- The years since the epoch. -/
theorem year_range {n : Int} (hlow : epochDay ≤ n) (hhigh : n < 3652059) :
    1970 ≤ (dateOf n).year ∧ (dateOf n).year < 10000 := by
  have hyear := (year_eq_iff (n := n)).mp rfl
  rw [← daysBeforeYear_succ] at hyear
  have h1970 : daysBeforeYear 1970 = epochDay := by decide
  have h10000 : daysBeforeYear 10000 = 3652059 := by decide
  constructor
  · by_contra hearly
    have := daysBeforeYear_mono (show (dateOf n).year + 1 ≤ 1970 by omega)
    omega
  · by_contra hlate
    have := daysBeforeYear_mono (show 10000 ≤ (dateOf n).year by omega)
    omega

theorem InRange.day {t : Int} (h : InRange t) : epochDay ≤ t / 86400 + epochDay ∧ t / 86400 + epochDay < 3652059 := by
  have := h.1
  have := h.2
  unfold epochDay
  omega

theorem decimalInt_year {y : Int} (hlow : 1000 ≤ y) (hhigh : y < 10000) : decimalInt y = zeroPadded 4 y.toNat := by
  rw [zeroPadded_year (by omega) (by omega), decimalInt, if_neg (by omega)]
  congr 1
  omega

theorem strftimeText_field (tm : BrokenTime) (c : UInt8) (format : Bytes) :
    strftimeText tm (0x25 :: c :: format) = strftimeField tm c ++ strftimeText tm format := rfl

theorem strftimeText_char (tm : BrokenTime) {c : UInt8} (hc : c ≠ 0x25) (format : Bytes) :
    strftimeText tm (c :: format) = c :: strftimeText tm format := by
  rw [strftimeText]
  rintro _ _ rfl
  exact absurd rfl hc

/-- The date of the responses is that of RFC 1123. -/
theorem headerTime_eq {t : Int} (h : InRange t) : headerTime t = some (rfc1123Line t) := by
  have hyear : 1970 ≤ (utcDate t).year ∧ (utcDate t).year < 10000 := year_range h.day.1 h.day.2
  have hdecimal := decimalInt_year (show 1000 ≤ (utcDate t).year by omega) hyear.2
  have htext : strftimeText (gmTime t) (ascii "%a, %d %b %Y %H:%M:%S GMT\r\n".toList) ++ [0] = rfc1123Line t := by
    have hformat : ascii "%a, %d %b %Y %H:%M:%S GMT\r\n".toList =
        [0x25, 0x61, 0x2c, 0x20, 0x25, 0x64, 0x20, 0x25, 0x62, 0x20, 0x25, 0x59, 0x20, 0x25, 0x48, 0x3a, 0x25, 0x4d,
          0x3a, 0x25, 0x53, 0x20, 0x47, 0x4d, 0x54, 0x0d, 0x0a] := by decide
    have hwday : strftimeField (gmTime t) 0x61 = dayNames.getD (weekday (t / 86400 + epochDay)) [] := rfl
    have hmday : strftimeField (gmTime t) 0x64 = zeroPadded 2 (utcDate t).mday := rfl
    have hmon : strftimeField (gmTime t) 0x62 = monthNames.getD (utcDate t).mon [] := rfl
    have hyear : strftimeField (gmTime t) 0x59 = decimalInt (utcDate t).year := rfl
    have hhour : strftimeField (gmTime t) 0x48 = zeroPadded 2 (utcSecs t / 3600) := rfl
    have hmin : strftimeField (gmTime t) 0x4d = zeroPadded 2 (utcSecs t / 60 % 60) := rfl
    have hsec : strftimeField (gmTime t) 0x53 = zeroPadded 2 (utcSecs t % 60) := rfl
    rw [hformat]
    simp (disch := decide) only [strftimeText_field, strftimeText_char, hwday, hmday, hmon, hyear, hhour, hmin, hsec,
      hdecimal]
    simp [strftimeText, rfc1123Line, rfc1123, ascii]
  unfold headerTime strftime
  simp only [htext]
  rw [if_pos (show (rfc1123Line t).length ≤ headerTimeBufferSize from (length_rfc1123Line h).le)]

/-! ## the date of the log -/

/-- The date of the access log, with a year. -/
def logStamp (year : Int) (tm : BrokenTime) : Bytes :=
  [0x5b] ++ zeroPadded 2 (dateOf tm.day).mday ++ [0x2f] ++ monthNames.getD (dateOf tm.day).mon [] ++ [0x2f] ++
    zeroPadded 4 year.toNat ++ [0x20] ++ zeroPadded 2 (tm.secs / 3600) ++ [0x3a] ++
    zeroPadded 2 (tm.secs / 60 % 60) ++ [0x3a] ++ zeroPadded 2 (tm.secs % 60) ++ [0x20] ++
    [zoneSign tm.gmtoff] ++ zeroPadded 4 (tm.gmtoff.natAbs / 3600 * 100 + tm.gmtoff.natAbs / 60 % 60) ++ [0x5d]

/-- A zone less than 100 hours from UTC. -/
def IsZone (gmtoff : Int) : Prop := gmtoff.natAbs < 360000

section

variable {gmtoff t : Int}

theorem length_logStamp {year : Int} (h : InRange (t + gmtoff)) (hzone : IsZone gmtoff) (hyear : 0 ≤ year)
    (hyear' : year < 10000) : (logStamp year (localTime gmtoff t)).length = logTimeLen := by
  have hf := h.fields
  have hsecs := hf.secs
  have hmday := hf.mday
  have hpad : ∀ n < 100, (zeroPadded 2 n).length = 2 := fun n hn => length_zeroPadded hn
  have hlong : ∀ n < 10000, (zeroPadded 4 n).length = 4 := fun n hn => length_zeroPadded hn
  have hmon := (mkDateYm_eq hf.mon).2
  have hoff : gmtoff.natAbs / 3600 * 100 + gmtoff.natAbs / 60 % 60 < 10000 := by
    unfold IsZone at hzone
    omega
  simp only [logStamp, localTime, List.length_append, hpad _ (show (dateOf _).mday < 100 from hmday.trans (by decide)),
    hpad _ (show utcSecs (t + gmtoff) / 3600 < 100 by omega), hpad _ (show utcSecs (t + gmtoff) / 60 % 60 < 100 by omega),
    hpad _ (show utcSecs (t + gmtoff) % 60 < 100 by omega), hlong _ (show year.toNat < 10000 by omega),
    hlong _ hoff, show (monthNames.getD (dateOf ((t + gmtoff) / 86400 + epochDay)).mon []).length = 3 from hmon]
  rfl

/-- The year of the week has four digits. -/
theorem isoYear_range (h : InRange (t + gmtoff)) :
    1970 ≤ isoYear (localTime gmtoff t).day ∧ isoYear (localTime gmtoff t).day < 10000 := by
  have hday := h.day
  have hrange := @year_range ((t + gmtoff) / 86400 + epochDay - sinceMonday ((t + gmtoff) / 86400 + epochDay) + 3)
    (by unfold epochDay sinceMonday at *; omega) (by unfold epochDay sinceMonday at *; omega)
  have hyear : isoYear (localTime gmtoff t).day =
      (dateOf ((t + gmtoff) / 86400 + epochDay - sinceMonday ((t + gmtoff) / 86400 + epochDay) + 3)).year := rfl
  rw [hyear]
  exact hrange

/-- **The date of the log** has the year of the week in it. -/
theorem logTime_eq (h : InRange (t + gmtoff)) (hzone : IsZone gmtoff) :
    logTime gmtoff t = some (logStamp (isoYear (localTime gmtoff t).day) (localTime gmtoff t) ++ [0]) := by
  have hyear := isoYear_range h
  have hdecimal := decimalInt_year (show 1000 ≤ isoYear (localTime gmtoff t).day by omega) hyear.2
  have hlength := length_logStamp h hzone (show 0 ≤ isoYear (localTime gmtoff t).day by omega) hyear.2
  unfold logTime
  generalize localTime gmtoff t = tm at hdecimal hlength ⊢
  have htext : strftimeText tm (ascii "[%d/%b/%G %T %z]".toList) = logStamp (isoYear tm.day) tm := by
    have hformat : ascii "[%d/%b/%G %T %z]".toList =
        [0x5b, 0x25, 0x64, 0x2f, 0x25, 0x62, 0x2f, 0x25, 0x47, 0x20, 0x25, 0x54, 0x20, 0x25, 0x7a, 0x5d] := by decide
    have hmday : strftimeField tm 0x64 = zeroPadded 2 (dateOf tm.day).mday := rfl
    have hmon : strftimeField tm 0x62 = monthNames.getD (dateOf tm.day).mon [] := rfl
    have hyear : strftimeField tm 0x47 = decimalInt (isoYear tm.day) := rfl
    have htime : strftimeField tm 0x54 = zeroPadded 2 (tm.secs / 3600) ++ [0x3a] ++
        zeroPadded 2 (tm.secs / 60 % 60) ++ [0x3a] ++ zeroPadded 2 (tm.secs % 60) := rfl
    have hzone : strftimeField tm 0x7a = zoneSign tm.gmtoff ::
        zeroPadded 4 (tm.gmtoff.natAbs / 3600 * 100 + tm.gmtoff.natAbs / 60 % 60) := rfl
    rw [hformat]
    simp (disch := decide) only [strftimeText_field, strftimeText_char, hmday, hmon, hyear, htime, hzone, hdecimal]
    simp [strftimeText, logStamp]
  have hfits : (logStamp (isoYear tm.day) tm ++ [0]).length ≤ logTimeBufferSize := by
    rw [List.length_append, hlength]
    decide
  unfold strftime
  simp only [htext]
  rw [if_pos hfits]

/-- The stamps with two years differ. -/
theorem logStamp_inj {year year' : Int} {tm : BrokenTime} (hyear : 0 ≤ year) (hyear' : 0 ≤ year') :
    logStamp year tm = logStamp year' tm ↔ year = year' := by
  constructor
  · intro h
    simp only [logStamp, List.append_left_inj, List.append_right_inj] at h
    have hdigits := congrArg (digits 0) h
    rw [digits_zeroPadded, digits_zeroPadded] at hdigits
    omega
  · rintro rfl
    rfl

/-- A stamp is of one line. -/
theorem newline_logStamp {year : Int} {tm : BrokenTime} : 0x0a ∉ logStamp year tm := by
  have hpad : ∀ k n, 0x0a ∉ zeroPadded k n :=
    fun k n hmem => absurd (isdigit_of_mem_zeroPadded _ hmem) (by decide)
  have hmonth : ∀ m, 0x0a ∉ monthNames.getD m [] := by
    intro m
    by_cases hm : m < 12
    · have hall : ∀ m < 12, (0x0a : UInt8) ∉ monthNames.getD m [] := by decide
      exact hall m hm
    · have hnone : monthNames[m]? = none := List.getElem?_eq_none (by simpa [monthNames] using hm)
      rw [List.getD_eq_getElem?_getD, hnone]
      exact List.not_mem_nil
  have hsign : (0x0a : UInt8) ≠ zoneSign tm.gmtoff := by
    unfold zoneSign
    split <;> decide
  simp only [logStamp, List.mem_append, List.mem_singleton, not_or, hpad, hmonth, hsign, not_false_eq_true, and_true]
  decide

end

/-! ## what a worker copies -/

/-- What `mk_clock_sequential_init` leaves: the text of a first second in the buffer in use. -/
structure Started (time : Int → Option Bytes) (ts : Set Int) (s : DoubleBuffer UInt8) : Prop where
  text : ∃ t ∈ ts, time t = some s.text
  holds : Holds (s.mem s.cur) s.text
  idle : s.writing = none
  reader : s.reader = none

/-- The seconds that the clock thread writes. -/
def Ticks (time : Int → Option Bytes) (ts : Set Int) (as : List (BufferAct UInt8)) : Prop :=
  ∀ text, .start text ∈ as → ∃ t ∈ ts, time t = some text

section

variable {time : Int → Option Bytes} {ts : Set Int} {s s' : DoubleBuffer UInt8} {as : List (BufferAct UInt8)}
  {r : Reader UInt8} {gmtoff : Int}

/-- A worker whose copy overlaps with at most one update has copied the text of one second. -/
theorem copied_text (h : Run BufferStep s as s') (hs : Started time ts s) (hticks : Ticks time ts as)
    (hr : s'.reader = some r) (hone : r.overlap ≤ 1) :
    ∃ t ∈ ts, ∃ text, time t = some text ∧ r.got.take text.length = text.take r.got.length := by
  obtain ⟨⟨t, ht, htext⟩, hgot⟩ := whole_of_run (P := fun text => ∃ t ∈ ts, time t = some text) h hs.holds hs.idle
    hs.reader hs.text hticks hr hone
  exact ⟨t, ht, r.text, htext, hgot⟩

/-- **The date of a response**: copied while at most one update is made, it is the date of one
second. -/
theorem header_date_whole (h : Run BufferStep s as s') (hs : Started headerTime ts s)
    (hticks : Ticks headerTime ts as) (hrange : ∀ t ∈ ts, InRange t) (hr : s'.reader = some r)
    (hone : r.overlap ≤ 1) (hall : r.got.length = headerTimeLen) :
    ∃ t ∈ ts, r.got = rfc1123 t ++ [0x0d, 0x0a] := by
  obtain ⟨t, ht, text, htext, hgot⟩ := copied_text h hs hticks hr hone
  rw [headerTime_eq (hrange t ht)] at htext
  obtain rfl := Option.some.inj htext
  have hlength := length_rfc1123Line (hrange t ht)
  have hfront : rfc1123Line t = (rfc1123 t ++ [0x0d, 0x0a]) ++ [0] := by
    rw [rfc1123Line, List.append_assoc]
    rfl
  have hlen : (rfc1123 t ++ [0x0d, 0x0a]).length = headerTimeLen := by
    rw [hfront, List.length_append] at hlength
    exact Nat.succ.inj hlength
  have hcopy : r.got.length ≤ (rfc1123Line t).length := by
    rw [hall, hlength]
    decide
  rw [List.take_of_length_le hcopy, hall, hfront, ← hlen, List.take_left] at hgot
  exact ⟨t, ht, hgot⟩

/-- **The date of a log record**: copied while at most one update is made, it is the stamp of
one second, on one line; its year is that of the calendar except around New Year. -/
theorem log_date_whole (h : Run BufferStep s as s') (hs : Started (logTime gmtoff) ts s)
    (hticks : Ticks (logTime gmtoff) ts as) (hzone : IsZone gmtoff) (hrange : ∀ t ∈ ts, InRange (t + gmtoff))
    (hr : s'.reader = some r) (hone : r.overlap ≤ 1) (hall : r.got.length = logTimeLen) :
    0x0a ∉ r.got ∧ ∃ t ∈ ts, r.got = logStamp (isoYear (localTime gmtoff t).day) (localTime gmtoff t) ∧
      (r.got = logStamp (dateOf (localTime gmtoff t).day).year (localTime gmtoff t) ↔
        ¬ InOverlap (localTime gmtoff t).day) := by
  obtain ⟨t, ht, text, htext, hgot⟩ := copied_text h hs hticks hr hone
  have hlocal := hrange t ht
  have hiso := isoYear_range hlocal
  have hyear : 1970 ≤ (dateOf (localTime gmtoff t).day).year := (year_range hlocal.day.1 hlocal.day.2).1
  rw [logTime_eq hlocal hzone] at htext
  obtain rfl := Option.some.inj htext
  have hlength := length_logStamp hlocal hzone (show 0 ≤ isoYear (localTime gmtoff t).day by omega) hiso.2
  have hstamp : r.got = logStamp (isoYear (localTime gmtoff t).day) (localTime gmtoff t) := by
    have hcopy : r.got.length ≤ (logStamp (isoYear (localTime gmtoff t).day) (localTime gmtoff t) ++ [0]).length := by
      rw [hall, List.length_append, hlength]
      exact Nat.le_succ _
    rwa [List.take_of_length_le hcopy, hall, ← hlength, List.take_left] at hgot
  refine ⟨hstamp ▸ newline_logStamp, t, ht, hstamp, ?_⟩
  rw [hstamp, logStamp_inj (by omega) (by omega), isoYear_eq_iff]

end

/-- The buffers with one text in them. -/
def showing (text : Bytes) : DoubleBuffer UInt8 := { mem := fun _ i => text.getD i 0, cur := false, text := text }

theorem holds_showing (text : Bytes) : Holds (fun i => text.getD i 0) text := by
  intro i hi
  show text.getD i 0 = text[i]
  rw [List.getD_eq_getElem?_getD, List.getElem?_eq_getElem hi, Option.getD_some]

theorem started_showing {time : Int → Option Bytes} {ts : Set Int} {t : Int} (ht : t ∈ ts) {text : Bytes}
    (h : time t = some text) : Started time ts (showing text) where
  text := ⟨t, ht, h⟩
  holds := holds_showing text
  idle := rfl
  reader := rfl

/-- A copy of `n` bytes and, behind an update to a text, of `m` more. -/
def copyAcross (n m : Nat) (text : Bytes) : List (BufferAct UInt8) :=
  .load :: (List.replicate n .get ++
    ([.start text, .scribble fun i => text.getD i 0, .publish] ++ List.replicate m .get))

/-- A worker copies across an update. -/
theorem copy_showing (text text' : Bytes) (n m : Nat) : ∃ s' r,
    Run BufferStep (showing text) (copyAcross n m text') s' ∧ s'.reader = some r ∧ r.got.length = n + m ∧
      r.overlap = 1 := by
  obtain ⟨r₁, hrun₁, hlen₁, hoverlap₁⟩ :=
    @read_on _ { showing text with reader := some ⟨false, [], text, 0⟩ } _ rfl n
  obtain ⟨s₂, r₂, hrun₂, hr₂, hgot₂, hoverlap₂⟩ :=
    @update_on _ { showing text with reader := some r₁ } r₁ rfl rfl text' _ (holds_showing text')
  obtain ⟨r₃, hrun₃, hlen₃, hoverlap₃⟩ := read_on hr₂ m
  refine ⟨_, r₃, .cons .load (hrun₁.append (hrun₂.append hrun₃)), rfl, ?_, ?_⟩
  · rw [hlen₃, hgot₂, hlen₁]
    exact congrArg (· + m) (Nat.zero_add n)
  · rw [hoverlap₃, hoverlap₂, hoverlap₁]

theorem ticks_copyAcross {time : Int → Option Bytes} {ts : Set Int} {t : Int} (ht : t ∈ ts) {text : Bytes}
    (h : time t = some text) (n m : Nat) : Ticks time ts (copyAcross n m text) := by
  intro text' hmem
  obtain rfl : text' = text := by simpa [copyAcross] using hmem
  exact ⟨t, ht, h⟩

/-- Sunday, the ninth of September 2001: a second goes by while the date is copied. -/
theorem header_date_whole_sunday : ∃ s' r,
    Run BufferStep (showing (rfc1123Line 1000000000)) (copyAcross 20 11 (rfc1123Line 1000000001)) s' ∧
      s'.reader = some r ∧ r.overlap = 1 ∧
      ∃ t ∈ ({1000000000, 1000000001} : Set Int), r.got = rfc1123 t ++ [0x0d, 0x0a] := by
  have hrange : ∀ t ∈ ({1000000000, 1000000001} : Set Int), InRange t := by
    rintro t (rfl | rfl) <;> decide
  have hfirst := headerTime_eq (hrange 1000000000 (.inl rfl))
  have hsecond := headerTime_eq (hrange 1000000001 (.inr rfl))
  obtain ⟨s', r, hrun, hr, hlen, hone⟩ := copy_showing (rfc1123Line 1000000000) (rfc1123Line 1000000001) 20 11
  exact ⟨s', r, hrun, hr, hone, header_date_whole hrun (started_showing (.inl rfl) hfirst)
    (ticks_copyAcross (.inr rfl) hsecond 20 11) hrange hr hone.le hlen⟩

/-- The stamp of a second in Paris, in winter. -/
def winterLine (t : Int) : Bytes := logStamp (isoYear (localTime 3600 t).day) (localTime 3600 t) ++ [0]

/-- New Year's Day 2010, a Friday, is logged with the year 2009. -/
theorem log_date_whole_friday : ∃ s' r,
    Run BufferStep (showing (winterLine 1262304000)) (copyAcross 10 18 (winterLine 1262304001)) s' ∧
      s'.reader = some r ∧ r.overlap = 1 ∧
      ∃ t ∈ ({1262304000, 1262304001} : Set Int), (dateOf (localTime 3600 t).day).year = 2010 ∧
        r.got = logStamp 2009 (localTime 3600 t) := by
  have hzone : IsZone 3600 := by
    unfold IsZone
    decide
  have hrange : ∀ t ∈ ({1262304000, 1262304001} : Set Int), InRange (t + 3600) := by
    rintro t (rfl | rfl) <;> decide
  have hfirst := logTime_eq (hrange 1262304000 (.inl rfl)) hzone
  have hsecond := logTime_eq (hrange 1262304001 (.inr rfl)) hzone
  obtain ⟨s', r, hrun, hr, hlen, hone⟩ := copy_showing (winterLine 1262304000) (winterLine 1262304001) 10 18
  obtain ⟨-, t, ht, hgot, -⟩ := log_date_whole hrun (started_showing (.inl rfl) hfirst)
    (ticks_copyAcross (.inr rfl) hsecond 10 18) hzone hrange hr hone.le hlen
  have hyears : (dateOf (localTime 3600 t).day).year = 2010 ∧ isoYear (localTime 3600 t).day = 2009 := by
    rcases ht with rfl | rfl <;> decide +kernel
  exact ⟨s', r, hrun, hr, hone, t, ht, hyears.1, by rw [hgot, hyears.2]⟩

end Monkey.Time
