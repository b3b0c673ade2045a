import Monkey.Types

/-!
# Monkey.Strings

`mk_string.c` and the byte-level helpers of `mk_utils.c`: character and
substring searches with C's `int` results, substring copies, and the
percent-decoding of a URI.  A position that was not found is `-1`.

A `char *` is the list of the bytes from the pointer on.  A search stops at the end of the
list or at a NUL in it, as the source stops at the NUL that ends the string; what it reads
where there is none is asked in the modules about a buffer (`Monkey.Request.Touches`,
`Monkey.Http.UserDir`).  That memory is short is left out, so a copy is never null.
-/

namespace Monkey

/-- A search result as the `int` the C functions return. -/
def position (p : Option Nat) : Int := p.elim (-1) Int.ofNat

/-- `mk_string_char_search`: a negative length means the whole string. -/
def mkStringCharSearch (string : Bytes) (c : UInt8) (len : Int) : Int :=
  position (memchr string c (if len < 0 then strlen string else len.toNat))

/-- `mk_string_char_search_r`: a length of zero or less means the whole
string. -/
def mkStringCharSearchR (string : Bytes) (c : UInt8) (len : Int) : Int :=
  position (memrchr string c (if len ≤ 0 then strlen string else len.toNat))

/-- `mk_string_search` with `MK_STR_SENSITIVE`. -/
def mkStringSearch (haystack needle : Bytes) : Int := position (strstr haystack needle)

/-- `strcasestr`. -/
def strcasestr (hay needle : Bytes) : Option Nat :=
  findSub (needle.map toupper) ((cstr hay).map toupper)

/-- `mk_string_search` with `MK_STR_INSENSITIVE`. -/
def mkStringSearchI (haystack needle : Bytes) : Int := position (strcasestr haystack needle)

/-- `MK_STR_SENSITIVE` and `MK_STR_INSENSITIVE`. -/
inductive Sensitivity
  | sensitive | insensitive
deriving DecidableEq, Repr

/-- What is compared of a byte. -/
def Sensitivity.fold : Sensitivity → UInt8 → UInt8
  | .sensitive => id
  | .insensitive => toupper

/-- The `do … while (*p++)` loop of `_mk_string_search` at position `i`, where `s` are the bytes
from there on: a match may start at any position below `len`, and is compared to its own end,
past `len` or not. -/
def mkStringSearchLoop (mode : Sensitivity) (search : Bytes) (len : Nat) : Bytes → Nat → Option Nat
  | [], i => if search = [] then some i else none
  | c :: s, i =>
      if (search.map mode.fold).isPrefixOf ((c :: s).map mode.fold) then some i
      else if i + 1 ≥ len then none
      else if c = 0 then none
      else mkStringSearchLoop mode search len s (i + 1)

theorem mkStringSearchLoop_cons (search : Bytes) (len : Nat) (c : UInt8) (s : Bytes) (i : Nat) :
    mkStringSearchLoop .insensitive search len (c :: s) i =
      if (search.map toupper).isPrefixOf ((c :: s).map toupper) then some i
      else if i + 1 ≥ len then none
      else if c = 0 then none
      else mkStringSearchLoop .insensitive search len s (i + 1) := rfl

/-- `mk_string_search_n` with `MK_STR_INSENSITIVE`. -/
def mkStringSearchN (haystack needle : Bytes) (len : Int) : Int :=
  if len ≤ 0 then mkStringSearchI haystack needle
  else position (mkStringSearchLoop .insensitive needle len.toNat haystack 0)

/-- `mk_string_copy_substr`: the copy ends at `pos_end`, or is `NULL` when the
positions are reversed; `atol` then reads it up to a NUL. -/
def mkStringCopySubstr (string : Bytes) (posInit posEnd : Int) : Option Bytes :=
  if posInit > posEnd then none
  else some ((string.drop posInit.toNat).take (posEnd - posInit).toNat)

/-! ## percent-decoding -/

/-- `mk_utils_hex2int` on at most two characters, `-1` on a bad digit. -/
def mkUtilsHex2int : Bytes → Int → Int
  | [], res => res
  | c :: s, res =>
      if 0x61 ≤ c ∧ c ≤ 0x66 then mkUtilsHex2int s (res * 16 + (c.toNat - 0x57))
      else if 0x41 ≤ c ∧ c ≤ 0x46 then mkUtilsHex2int s (res * 16 + (c.toNat - 0x37))
      else if 0x30 ≤ c ∧ c ≤ 0x39 then mkUtilsHex2int s (res * 16 + (c.toNat - 0x30))
      else -1

/-- The decoding loop of `mk_utils_url_decode` over the bytes of the URI: a `%`
with two more bytes after it must be followed by two hexadecimal digits. -/
def mkUtilsUrlDecodeLoop : Bytes → Option Bytes
  | [] => some []
  | [c] => some [c]
  | [c, d] => some [c, d]
  | c :: d :: e :: s =>
      if c = 0x25 then
        let hex := mkUtilsHex2int (cstr [d, e]) 0
        if hex = -1 then none
        else (mkUtilsUrlDecodeLoop s).map (UInt8.ofNat hex.toNat :: ·)
      else (mkUtilsUrlDecodeLoop (d :: e :: s)).map (c :: ·)

/-- `mk_utils_url_decode`: `NULL` when nothing is to be decoded or a sequence is
malformed, else the decoded bytes in a zeroed buffer of `uri.len` bytes. -/
def mkUtilsUrlDecode (uri : MkPointer) : Option Bytes :=
  if mkStringCharSearch (uri.data.getD []) 0x25 (toInt uri.len) < 0 then none
  else (mkUtilsUrlDecodeLoop uri.text).map fun buf =>
    buf ++ List.replicate (uri.len - buf.length) 0

end Monkey
