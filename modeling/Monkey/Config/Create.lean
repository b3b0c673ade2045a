import Monkey.Lib.Fgets
import Monkey.Strings
import Mathlib.Data.List.DropRight

/-!
# Monkey.Config.Create

`mk_config_create`: the reader of the configuration files.  A file has sections,
`[name]` in the first column, each with entries `key value` behind an indentation that
is learnt from the first line that is neither empty, a comment nor a header.

The text of a line is the C string in the buffer after `fgets`, without the newline: its
length is `len`, and the end of the list is the terminating NUL.
-/

namespace Monkey.Config

/-- `struct mk_config_entry`. -/
structure ConfigEntry where
  key : Bytes
  val : Bytes
deriving DecidableEq, Repr

/-- `struct mk_config_section`. -/
structure ConfigSection where
  name : Bytes
  entries : List ConfigEntry := []
deriving DecidableEq, Repr

/-- What stops the reader: `mk_config_error`, which exits, or an entry in front of every
section, which `mk_config_entry_add` reports before it takes the list head as the section. -/
inductive ConfigError
  | schema (line : Nat) (msg : String)
  | noSections
deriving DecidableEq, Repr

/-- What is registered with `mk_config_section_add` and `mk_config_entry_add`. -/
inductive ConfigCall
  | sectionAdd (name : Bytes)
  | entryAdd (key val : Bytes)
deriving DecidableEq, Repr

/-- A substring copied out of the line buffer: the bytes read, from `start` up to `stop`, and
the length of the line. -/
structure Copy where
  start : Int
  stop : Int
  len : Nat
deriving DecidableEq, Repr

/-- The locals of the loop; `current` is whether there is a current section.  It is the last one of
the list, so no pointer to it is kept.  `indent` is the indentation of the first entry of the file,
with which each later line that is indented has to begin, and have no blank behind it. -/
structure ConfigState where
  line : Nat := 0
  indent : Option Bytes := none
  nKeys : Nat := 0
  current : Bool := false
  sections : List ConfigSection := []
deriving DecidableEq, Repr

/-- What the reader does with some lines: the copies it takes, what it registers (with the
place in the file of the line), and the state after them. -/
structure ConfigRun where
  copies : List Copy := []
  calls : List (Nat × ConfigCall) := []
  next : Except ConfigError ConfigState

/-! ## strings -/

def isblank (c : UInt8) : Bool := c == 0x20 || c == 0x09

/-- `mk_string_trim`. -/
def mkStringTrim (str : Bytes) : Bytes :=
  let left := str.dropWhile isspace
  left.rdropWhile isspace

/-- The byte at an index of the line, which ends with a NUL. -/
def byteAt (buf : Bytes) (i : Nat) : UInt8 := buf.getD i 0

/-- The bytes that `mk_string_copy_substr(buf + off, pos_init, pos_end)` reads. -/
def substrReads (buf : Bytes) (off posInit posEnd : Int) : Copy :=
  { start := off + posInit, stop := off + max posInit posEnd, len := buf.length }

/-! ## one line -/

/-- The text that `fgets` leaves in the buffer, without its newline. -/
def lineBuf (piece : Bytes) : Bytes :=
  let buf := cstr piece
  if buf.getLast? = some 0x0a then
    let buf := buf.dropLast
    if buf.getLast? = some 0x0d then buf.dropLast else buf
  else buf

/-- `mk_config_section_add`. -/
def mkConfigSectionAdd (sections : List ConfigSection) (name : Bytes) : List ConfigSection :=
  sections ++ [{ name := name }]

/-- `mk_config_entry_add`, to the last section. -/
def mkConfigEntryAdd (sections : List ConfigSection) (key val : Bytes) : Option (List ConfigSection) :=
  sections.getLast?.map fun sec =>
    sections.dropLast ++ [{ sec with entries := sec.entries ++ [{ key := key, val := val }] }]

/-- The end of the indentation that is learnt: one byte, and the blanks after it. -/
def indentEnd (buf : Bytes) : Nat := 1 + ((buf.drop 1).takeWhile isblank).length

/-- The registration of an entry after the copies taken for it. -/
def registerEntry (s : ConfigState) (off : Nat) (copies : List Copy) (key val : Bytes) : ConfigRun :=
  match mkConfigEntryAdd s.sections key val with
  | none => { copies, next := .error .noSections }
  | some sections =>
      { copies, calls := [(off, .entryAdd key val)],
        next := .ok { s with sections := sections, nKeys := s.nKeys + 1 } }

/-- The key and the value of the line at `off`. -/
def configKeyVal (s : ConfigState) (off indentLen : Nat) (buf : Bytes) : ConfigRun :=
  let len := buf.length
  let i := mkStringCharSearch (buf.drop indentLen) 0x20 (len - indentLen)
  let key := mkStringCopySubstr (buf.drop indentLen) 0 i
  let val := mkStringCopySubstr (buf.drop (indentLen + i).toNat) 1 (len - indentLen)
  let copies := [substrReads buf indentLen 0 i, substrReads buf (indentLen + i) 1 (len - indentLen)]
  match key, val with
  | some key, some val =>
      if i < 0 then { copies, next := .error (.schema s.line "Each key must have a value") }
      else registerEntry s off copies (mkStringTrim key) (mkStringTrim val)
  | _, _ => { copies, next := .error (.schema s.line "Each key must have a value") }

/-- The line at `off` once the indentation is known. -/
def configEntry (s : ConfigState) (off : Nat) (indent buf : Bytes) : ConfigRun :=
  let len := buf.length
  let indentLen := strlen indent
  if strncmp buf indent indentLen = false ∨ isblank (byteAt buf indentLen) then
    { next := .error (.schema s.line "Invalid indentation level") }
  else if byteAt buf indentLen = 0x23 ∨ indentLen = len then { next := .ok s }
  else configKeyVal s off indentLen buf

/-- A section definition. -/
def configHeader (s : ConfigState) (off : Nat) (buf : Bytes) : ConfigRun :=
  let last := mkStringCharSearch buf 0x5d buf.length
  if last > 0 then
    if s.current = true ∧ s.nKeys = 0 then
      { next := .error (.schema s.line "Previous section did not have keys") }
    else
      match mkStringCopySubstr buf 1 last with
      | some name =>
          { copies := [substrReads buf 0 1 last], calls := [(off, .sectionAdd name)],
            next := .ok { s with
              sections := mkConfigSectionAdd s.sections name, current := true, nKeys := 0 } }
      | none => { next := .error (.schema s.line "Bad header definition") }
  else { next := .error (.schema s.line "Bad header definition") }

/-- One turn of the loop, on the line at `off`. -/
def configLine (s : ConfigState) (off : Nat) (buf : Bytes) : ConfigRun :=
  let s := { s with line := s.line + 1 }
  if buf = [] then { next := .ok s }
  else if buf.head? = some 0x23 then { next := .ok s }
  else if buf.head? = some 0x5b then configHeader s off buf
  else
    match s.indent with
    | some indent => configEntry s off indent buf
    | none =>
        -- no separator defined
        let i := indentEnd buf
        let indent := (mkStringCopySubstr buf 0 i).getD []
        let s := { s with indent := some indent }
        let copy := substrReads buf 0 0 i
        if i = buf.length then { copies := [copy], next := .ok s }
        else
          let run := configEntry s off indent buf
          { run with copies := copy :: run.copies }

/-! ## the file -/

/-- The loop of `mk_config_create` over what `fgets` returns. -/
def configLines (s : ConfigState) (off : Nat) : List Bytes → ConfigRun
  | [] => { next := .ok s }
  | piece :: pieces =>
      let run := configLine s off (lineBuf piece)
      match run.next with
      | .error e => { run with next := .error e }
      | .ok s =>
          let rest := configLines s (off + piece.length) pieces
          { copies := run.copies ++ rest.copies, calls := run.calls ++ rest.calls, next := rest.next }

/-- The size of `buf`. -/
def configBufSize : Nat := 255

/-- The loop on a whole file. -/
def configRun (file : Bytes) : ConfigRun := configLines {} 0 (fgetsAll configBufSize file)

/-- `mk_config_create` on the content of a file that can be opened. -/
def mkConfigCreate (file : Bytes) : Except ConfigError (List ConfigSection) :=
  match (configRun file).next with
  | .error e => .error e
  | .ok s => if s.nKeys = 0 then .error (.schema s.line "Section do not have keys") else .ok s.sections

/-- A section with two entries, and a comment. -/
example : mkConfigCreate (ascii "[S]\n\tkey a b \n\t# no\n\n\tx y\n".toList) =
    .ok [{ name := [0x53], entries := [{ key := ascii "key".toList, val := ascii "a b".toList },
      { key := [0x78], val := [0x79] }] }] := by
  decide +kernel

end Monkey.Config
