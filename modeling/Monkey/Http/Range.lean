import Monkey.Strings

/-!
# Monkey.Http.Range

`mk_http_range_parse` and `mk_http_range_set`: from the text of a `Range` header
to the two `int` bounds and the `Content-Length` of the response header, and from
the bounds to the window of the file that is sent.  The two functions are run at
different times, the first before the response header is written and the second
after it.
-/

namespace Monkey

/-- `abs` on an `int`, wrapping on `INT_MIN`. -/
def cAbs (x : Int) : Int := toInt |x|

/-- The `Bytes` unit name. -/
def rangeUnit : Bytes := ascii ['B', 'y', 't', 'e', 's']

/-- `(unsigned long) atol(..)` stored in an `int`. -/
def rangeNumber (s : Bytes) : Int := toInt (strtol s)

/-- `mk_http_range_parse` once the length of the text and the positions of `=` and
`-` in it are known; a failed parse may leave bounds behind. -/
def mkHttpRangeParseAt (data : Bytes) (len eqPos sepPos : Int) (sr : SessionRequest) :
    Int × SessionRequest :=
  if eqPos < 0 then (-1, sr)
  else if strncasecmp data rangeUnit eqPos.toNat = false then (-1, sr)
  else if sepPos < 0 then (-1, sr)
  -- =-xxx
  else if eqPos + 1 = sepPos then
    let last := rangeNumber (data.drop (sepPos.toNat + 1))
    let sr := { sr with headers := { sr.headers with ranges0 := -1, ranges1 := last } }
    if last ≤ 0 then (-1, sr)
    else (0, { sr with headers := { sr.headers with contentLength := last } })
  -- =yyy-xxx
  else if len > sepPos + 1 then
    let first := rangeNumber ((mkStringCopySubstr data (eqPos + 1) sepPos).getD [])
    let last := rangeNumber ((mkStringCopySubstr data (sepPos + 1) len).getD [])
    let sr := { sr with headers := { sr.headers with ranges0 := first, ranges1 := last } }
    if last ≤ 0 ∨ first > last then (-1, sr)
    else
      (0, { sr with
        headers := { sr.headers with contentLength := toInt (cAbs (toInt (last - first)) + 1) } })
  -- =yyy-
  else if len = sepPos + 1 then
    let first := rangeNumber ((mkStringCopySubstr data (eqPos + 1) len).getD [])
    (0, { sr with
      headers := { sr.headers with
        ranges0 := first, contentLength := sr.headers.contentLength - first } })
  else (-1, sr)

/-- `mk_http_range_parse`. -/
def mkHttpRangeParse (sr : SessionRequest) : Int × SessionRequest :=
  match sr.range.data with
  | none => (-1, sr)
  | some data =>
      mkHttpRangeParseAt data (toInt sr.range.len)
        (mkStringCharSearch data 0x3d (toInt sr.range.len))
        (mkStringCharSearch data 0x2d (toInt sr.range.len)) sr

/-- The window of the file a range asks for, offset and count; the three forms
exclude each other. -/
def rangeWindow (fileSize r0 r1 : Int) : Int × Int :=
  -- yyy-
  if r0 ≥ 0 ∧ r1 = -1 then (r0, fileSize - r0)
  -- yyy-xxx
  else if r0 ≥ 0 ∧ r1 ≥ 0 then (r0, |toInt (r1 - r0)| + 1)
  -- -xxx
  else if r0 = -1 ∧ r1 > 0 then (fileSize - r1, r1)
  else (0, fileSize)

/-- `mk_http_range_set`: the window of the file to send, refused when its start
or its length exceeds the size of the file. -/
def mkHttpRangeSet (cfg : Config) (fileSize : Int) (sr : SessionRequest) : Int × SessionRequest :=
  if cfg.resume = true ∧ sr.range.data.isSome then
    match rangeWindow fileSize sr.headers.ranges0 sr.headers.ranges1 with
    | (offset, count) =>
        (if offset > fileSize ∨ count > fileSize then -1 else 0,
          { sr with bytesOffset := offset, bytesToSend := count })
  else (0, { sr with bytesOffset := 0, bytesToSend := fileSize })

end Monkey
