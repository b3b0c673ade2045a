import Monkey.Types

/-!
# Monkey.Dirlisting.Directory

The entries of a directory (`mk_dirhtml_create_list`), as `readdir` gives them.

`readdir` returns a place in the buffer of the stream, and what stands there may be
overwritten by a later call.  An entry of the list keeps the place and not the name, so
the name it has when the list is sorted and sent is read from the buffer as the last call
has left it.
-/

namespace Monkey.Dirlisting

/-! ## the stream -/

/-- What a call of `readdir` leaves: the buffer of the stream, and in it an entry with the
place of its name. -/
structure Dirent where
  buffer : Bytes
  dName : Nat
  dType : Nat
deriving DecidableEq, Repr

/-- A directory stream that was opened: the calls that return an entry, and the buffer behind
the last one, which returns none.  Any call may fill the buffer anew. -/
structure Dir where
  calls : List Dirent
  buffer : Bytes
deriving DecidableEq, Repr

/-- The string at a place of the buffer. -/
def stringAt (buffer : Bytes) (place : Nat) : Bytes := cstr (buffer.drop place)

/-- `DT_UNKNOWN`, `DT_DIR`, `DT_REG` and `DT_LNK`. -/
def dtUnknown : Nat := 0
def dtDir : Nat := 4
def dtReg : Nat := 8
def dtLnk : Nat := 10

/-! ## the list -/

/-- `struct mk_f_list`.  The name is a place in the buffer of the stream, or the bytes that are
read there. -/
structure MkFList (Name : Type) where
  name : Name
  ftModif : Bytes
  size : Bytes
  type : Nat
deriving DecidableEq, Repr

/-- An entry with the name that stands in the buffer. -/
def MkFList.read (buffer : Bytes) (e : MkFList Nat) : MkFList Bytes where
  name := stringAt buffer e.name
  ftModif := e.ftModif
  size := e.size
  type := e.type

/-- `MK_DIRHTML_SIZE_DIR`. -/
def sizeDir : Bytes := ascii ['-']

/-- What an entry is filled with besides its name: the information of a file, the date as
`localtime` and `strftime` write it in the zone of the server, and the size in words, which
`mk_dirhtml_human_readable_size` prints from a `float`. -/
structure FileCalls where
  fileGetInfo : Bytes → Option FileInfo
  strftime : Int → Option Bytes
  humanReadableSize : Int → Bytes

section list

variable (calls : FileCalls)

/-- `mk_dirhtml_create_element`: without the information of the file or its date there is none. -/
def mkDirhtmlCreateElement (file type : Nat) (fullPath : Bytes) : Option (MkFList Nat) :=
  (calls.fileGetInfo fullPath).bind fun info =>
    (calls.strftime info.lastModification).map fun ftModif =>
      { name := file, type := type, ftModif := ftModif
        size := if type ≠ dtDir then calls.humanReadableSize info.size else sizeDir }

/-- The body of the loop of `mk_dirhtml_create_list`: hidden names are left out, all but the
parent, and so is what is no file, directory or link. -/
def listElement (path : Bytes) (ent : Dirent) : Option (MkFList Nat) :=
  let name := stringAt ent.buffer ent.dName
  if name.head? = some 0x2e ∧ name ≠ ascii ['.', '.'] then none
  else if ent.dType ≠ dtReg ∧ ent.dType ≠ dtDir ∧ ent.dType ≠ dtLnk ∧ ent.dType ≠ dtUnknown then none
  else mkDirhtmlCreateElement calls ent.dName ent.dType (cstr path ++ name)

/-- `mk_dirhtml_create_list`. -/
def mkDirhtmlCreateList (path : Bytes) (dir : Dir) : List (MkFList Nat) :=
  dir.calls.filterMap (listElement calls path)

/-! ## the names -/

/-- The entries of the directory: each with the name it has when `readdir` returns it. -/
def entriesRead (path : Bytes) (dir : Dir) : List (MkFList Bytes) :=
  dir.calls.filterMap fun ent => (listElement calls path ent).map (MkFList.read ent.buffer)

/-- The entries of the list: each with the name that stands at its place behind the last call. -/
def entriesKept (path : Bytes) (dir : Dir) : List (MkFList Bytes) :=
  (mkDirhtmlCreateList calls path dir).map (MkFList.read dir.buffer)

/-- No name in the list is overwritten by a later call. -/
def NamesKept (path : Bytes) (dir : Dir) : Prop :=
  ∀ ent ∈ dir.calls, ∀ e, listElement calls path ent = some e →
    stringAt dir.buffer e.name = stringAt ent.buffer e.name

end list

section list

variable {calls : FileCalls} {path : Bytes} {dir : Dir}

theorem entriesKept_eq_filterMap : entriesKept calls path dir =
    dir.calls.filterMap fun ent => (listElement calls path ent).map (MkFList.read dir.buffer) := by
  rw [entriesKept, mkDirhtmlCreateList, List.map_filterMap]

/-- None is lost. -/
theorem length_entriesKept : (entriesKept calls path dir).length = (entriesRead calls path dir).length := by
  rw [entriesKept_eq_filterMap, entriesRead, List.length_filterMap_eq_countP, List.length_filterMap_eq_countP]
  simp

/-- Names that are kept are those of the directory. -/
theorem NamesKept.entries_eq (h : NamesKept calls path dir) :
    entriesKept calls path dir = entriesRead calls path dir := by
  rw [entriesKept_eq_filterMap, entriesRead]
  refine List.filterMap_congr fun ent hent => ?_
  cases he : listElement calls path ent with
  | none => rfl
  | some e =>
      rw [Option.map_some, Option.map_some, MkFList.read, MkFList.read, h ent hent e he]

end list

end Monkey.Dirlisting
