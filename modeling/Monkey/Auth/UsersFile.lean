import Mathlib.Data.List.ReduceOption
import Monkey.Auth.Decode
import Monkey.Lib.CInt

/-!
# Monkey.Auth.UsersFile

`mk_auth_conf_add_users`: a users file is read line by line into a list of users.

The name of a user is copied with the position of its line added to its length, so that
only a short file stays inside `struct user`.  An empty line makes a negative length, and
the last line needs its newline.
-/

namespace Monkey.Auth

/-! ## the reader -/

/-- Where `passwd_raw` starts in `struct user`. -/
def passwdRawOffset : Nat := 128

/-- The size of `struct user`, with its pointer and the two links of its list. -/
def sizeofUser : Nat := 408

/-- A pointer into the buffer of the file, up to the NUL behind it. -/
def bufferAt (buf : Bytes) (offset : Int) : Option Bytes :=
  if 0 ≤ offset ∧ offset ≤ buf.length then some (buf.drop offset.toNat) else none

/-- `strncpy` into a structure; a negative length is a very large one. -/
def strncpyInto (block : Bytes) (i : Nat) (src : Bytes) (n : Int) : Option Bytes :=
  if n < 0 then none else writeAt block i (strncpyText src n.toNat)

/-- A NUL at an index of an array in a structure. -/
def terminateAt (block : Bytes) (i : Nat) (k : Int) : Option Bytes :=
  if k < 0 then none else writeAt block (i + k.toNat) [0]

/-- The locals of `mk_auth_conf_add_users` that live from one line to the next. -/
structure AddState where
  offset : Nat := 0
  users : List User := []
deriving DecidableEq, Repr

section junk

variable (junk : Nat → UInt8)

/-- The end of a line at `i`.  There is no result where it reads outside the buffer or
writes outside the structure. -/
def addUser (buf : Bytes) (i : Nat) (st : AddState) : Option AddState :=
  let src := buf.drop st.offset
  let sep := toInt (mkStringSearchI src [0x3a])
  let offset := st.offset + sep + 1 + 5
  (strncpyInto (newBuffer junk sizeofUser) 0 src (st.offset + sep)).bind fun cred =>
    (terminateAt cred 0 sep).bind fun cred =>
      (bufferAt buf offset).bind fun src =>
        (strncpyInto cred passwdRawOffset src (i - offset)).bind fun cred =>
          (terminateAt cred passwdRawOffset (i - offset)).map fun cred =>
            match base64Decode (cstr (cred.drop passwdRawOffset)) with
            | none => { st with offset := i + 1 }
            | some decoded =>
                { offset := i + 1, users := st.users ++ [{ user := cstr cred, passwdDecoded := decoded }] }

/-- The loop over the bytes of the file. -/
def addUsersLoop (buf : Bytes) (len : Nat) : Bytes → Nat → AddState → Option AddState
  | [], _, st => some st
  | c :: s, i, st =>
      if c = 0x0a ∨ i = len - 1 then (addUser junk buf i st).bind (addUsersLoop buf len s (i + 1))
      else addUsersLoop buf len s (i + 1) st

/-- The users of a buffer; `len` is an `int`. -/
def addUsers (buf : Bytes) : Option AddState :=
  let len := (toInt (strlen buf)).toNat
  addUsersLoop junk buf len (buf.take len) 0 {}

/-- `struct users_file`. -/
structure UsersFile where
  lastUpdated : Int
  path : Bytes
  users : List User
deriving DecidableEq, Repr

/-- `mk_file_to_buffer`: nothing is read of an empty file. -/
def mkFileToBuffer (content : Option Bytes) : Option Bytes := content.filter (· ≠ [])

/-- `mk_auth_conf_add_users`: the node of a users file, and the list of these files;
`content` is what can be read of the file. -/
def mkAuthConfAddUsers (usersFileList : List UsersFile) (usersPath : Bytes) (finfo : Option FileInfo)
    (content : Option Bytes) : Option (Option UsersFile × List UsersFile) :=
  match usersFileList.find? fun entry => cstr entry.path = cstr usersPath with
  | some entry => some (some entry, usersFileList)
  | none =>
      match finfo with
      | none => some (none, usersFileList)
      | some finfo =>
          if finfo.isDirectory then some (none, usersFileList)
          else if ¬ finfo.readAccess then some (none, usersFileList)
          else
            match mkFileToBuffer content with
            | none => some (none, usersFileList)
            | some buf =>
                (addUsers junk buf).map fun st =>
                  let entry : UsersFile := ⟨finfo.lastModification, usersPath, st.users⟩
                  (some entry, usersFileList ++ [entry])

end junk

/-! ## the files -/

/-- A line of a users file. -/
structure UserLine where
  name : Bytes
  digest : Bytes
  name_ne : name ≠ []
  name_le : name.length ≤ 127
  no_colon : 0x3a ∉ name
  no_newline : 0x0a ∉ name
  digest_length : digest.length = 20

namespace UserLine

def text (l : UserLine) : Bytes := l.name ++ (0x3a :: (ascii "{SHA1}".toList ++ base64 l.digest))

/-- The user of a line. -/
def user (l : UserLine) : User := { user := l.name, passwdDecoded := l.digest }

end UserLine

/-- A line that may be empty, with its newline. -/
def lineText (l : Option UserLine) : Bytes := l.elim [] UserLine.text ++ [0x0a]

/-- The lines of a file, and a last one without newline. -/
def usersText (lines : List (Option UserLine)) (last : Option UserLine) : Bytes :=
  lines.flatMap lineText ++ last.elim [] UserLine.text

/-- The users of a file. -/
def listed (lines : List (Option UserLine)) (last : Option UserLine) : List User :=
  (lines.reduceOption ++ last.toList).map UserLine.user

/-- The lines from a position on have names without NUL, which stay inside the structure
with their position added. -/
def EntriesFit : Nat → List UserLine → Prop
  | _, [] => True
  | o, l :: ls => 0 ∉ l.name ∧ o + l.name.length ≤ sizeofUser ∧ EntriesFit (o + (lineText (some l)).length) ls

/-- The loop ends behind the last line with a user, from a position on. -/
def LoopEnds (o len : Nat) (lines : List (Option UserLine)) (last : Option UserLine) : Prop :=
  last = none ∧ ∃ entries m, lines = entries.map some ++ List.replicate m none ∧ EntriesFit o entries ∧
    len = o + (usersText (entries.map some) none).length

/-- The files that are read as they are: there is a line, every line has its newline and a
user whose name fits, and the loop ends with the last of them.  It runs over empty lines
unless the length of the file is no `int`. -/
def WellKept (lines : List (Option UserLine)) (last : Option UserLine) : Prop :=
  usersText lines last ≠ [] ∧ LoopEnds 0 (toInt (strlen (usersText lines last))).toNat lines last

/-! ## the search for the colon -/

/-- A search for one byte. -/
theorem findSub_singleton (x : UInt8) (s : Bytes) : findSub [x] s = s.findIdx? (· == x) := by
  induction s with
  | nil => rfl
  | cons c s ih =>
      rw [findSub, List.findIdx?_cons, ih]
      by_cases hc : c = x
      · subst hc
        simp [List.isPrefixOf]
      · rw [if_neg (by simp [List.isPrefixOf, Ne.symm hc]), if_neg (by simpa using hc)]

/-- The colon is the first one of the string. -/
theorem mkStringSearchI_colon (s : Bytes) :
    mkStringSearchI s [0x3a] = position ((cstr s).findIdx? (· == 0x3a)) := by
  have hcolon : ∀ c : UInt8, toupper c == 0x3a ↔ c == 0x3a := by
    intro c
    rw [beq_iff_eq, beq_iff_eq]
    constructor
    · exact fun h => eq_of_toupper_eq h (by decide)
    · rintro rfl
      rfl
  have hneedle : [(0x3a : UInt8)].map toupper = [0x3a] := rfl
  rw [mkStringSearchI, strcasestr, hneedle, findSub_singleton, List.findIdx?_map]
  congr 2
  funext c
  exact Bool.eq_iff_iff.mpr (hcolon c)

/-- Behind a name without NUL the colon is found. -/
theorem mkStringSearchI_name {name : Bytes} (h0 : 0 ∉ name) (hcolon : 0x3a ∉ name) (s : Bytes) :
    mkStringSearchI (name ++ 0x3a :: s) [0x3a] = name.length := by
  have hrest : cstr (0x3a :: s) = 0x3a :: cstr s := rfl
  have hnone : name.findIdx? (· == 0x3a) = none :=
    List.findIdx?_eq_none_iff.mpr fun c hc => beq_false_of_ne fun h => hcolon (h ▸ hc)
  rw [mkStringSearchI_colon, cstr_append h0, hrest, List.findIdx?_append, hnone, List.findIdx?_cons]
  simp [position]

/-- A NUL in the name hides the colon. -/
theorem mkStringSearchI_nul {name : Bytes} (h0 : 0 ∈ name) (hcolon : 0x3a ∉ name) (s : Bytes) :
    mkStringSearchI (name ++ s) [0x3a] = -1 := by
  obtain ⟨u, w, rfl, hu⟩ := List.eq_append_cons_of_mem h0
  have hnone : u.findIdx? (· == 0x3a) = none :=
    List.findIdx?_eq_none_iff.mpr fun c hc => beq_false_of_ne fun h => hcolon (h ▸ List.mem_append_left _ hc)
  rw [mkStringSearchI_colon, List.append_assoc, List.cons_append, cstr_append_nul, cstr_eq_self hu, hnone]
  rfl

/-! ## the end of a line -/

section line

variable {junk : Nat → UInt8} {buf : Bytes} {i o : Nat} {us : List User}

/-- Without a colon the NUL goes before the name. -/
theorem addUser_no_colon (hsep : toInt (mkStringSearchI (buf.drop o) [0x3a]) < 0) :
    addUser junk buf i { offset := o, users := us } = none := by
  have hnul : ∀ cred, terminateAt cred 0 (toInt (mkStringSearchI (buf.drop o) [0x3a])) = none :=
    fun cred => if_pos hsep
  unfold addUser
  simp only [hnul, Option.bind_none]
  exact Option.bind_fun_none _

/-- Before the brace, what is left for the password is less than nothing. -/
theorem addUser_short (hshort : (i : Int) < o + toInt (mkStringSearchI (buf.drop o) [0x3a]) + 6) :
    addUser junk buf i { offset := o, users := us } = none := by
  have hcopy : ∀ cred src, strncpyInto cred passwdRawOffset src
      (i - (o + toInt (mkStringSearchI (buf.drop o) [0x3a]) + 1 + 5)) = none :=
    fun cred src => if_pos (by omega)
  unfold addUser
  simp only [hcopy, Option.bind_none, Option.bind_fun_none]

/-- An empty line. -/
theorem addUser_empty : addUser junk buf o { offset := o, users := us } = none := by
  by_cases hsep : toInt (mkStringSearchI (buf.drop o) [0x3a]) < 0
  · exact addUser_no_colon hsep
  · exact addUser_short (by omega)

/-- The user that a password text makes, or none. -/
def decodedUser (name raw : Bytes) : List User :=
  ((base64Decode (cstr raw)).map fun decoded => { user := name, passwdDecoded := decoded : User }).toList

theorem strncpyInto_of_le {block src : Bytes} {i n : Nat} (h : i + n ≤ block.length) :
    strncpyInto block i src n = some (fillAt block i (strncpyText src n)) := by
  rw [strncpyInto, if_neg (by omega), Int.toNat_natCast, writeAt_of_le (by rw [length_strncpyText]; exact h)]

theorem terminateAt_of_lt {block : Bytes} {i k : Nat} (h : i + k < block.length) :
    terminateAt block i k = some (fillAt block (i + k) [0]) := by
  rw [terminateAt, if_neg (by omega), Int.toNat_natCast, writeAt_of_le (by simpa using h)]

/-- What lies before the bytes that are stored stays. -/
theorem isPrefix_fillAt {u block : Bytes} (hu : u <+: block) {i : Nat} (hi : u.length ≤ i) (bs : Bytes) :
    u <+: fillAt block i bs := by
  rw [fillAt, List.append_assoc]
  exact (List.prefix_take_iff.mpr ⟨hu, hi⟩).trans (List.prefix_append _ _)

/-- The structure that a line fills: the name and the password end at their NULs. -/
theorem copyUser_spec {name src : Bytes} {n k : Nat} (h0 : 0 ∉ name) (hname : name.length ≤ 127)
    (hn : name.length ≤ n) (hfit : n ≤ sizeofUser) (hk : k ≤ 29) (w : Bytes) :
    ∃ c₁ c₂ c₃ c₄, strncpyInto (newBuffer junk sizeofUser) 0 (name ++ w) n = some c₁ ∧
      terminateAt c₁ 0 name.length = some c₂ ∧ strncpyInto c₂ passwdRawOffset src k = some c₃ ∧
      terminateAt c₃ passwdRawOffset k = some c₄ ∧ cstr c₄ = name ∧
      cstr (c₄.drop passwdRawOffset) = cstr (src.take k) := by
  have hl₀ : (newBuffer junk sizeofUser).length = 408 := length_newBuffer ..
  have hn' : n ≤ 408 := hfit
  let c₁ := fillAt (newBuffer junk sizeofUser) 0 (strncpyText (name ++ w) n)
  let c₂ := fillAt c₁ (0 + name.length) [0]
  let c₃ := fillAt c₂ passwdRawOffset (strncpyText src k)
  have hraw : passwdRawOffset = 128 := rfl
  have hl₁ : c₁.length = 408 := (length_fillAt (by rw [length_strncpyText]; omega)).trans hl₀
  have hl₂ : c₂.length = 408 := (length_fillAt (by rw [List.length_singleton]; omega)).trans hl₁
  have hl₃ : c₃.length = 408 := (length_fillAt (by rw [length_strncpyText]; omega)).trans hl₂
  have hstart : name <+: c₁ := by
    refine (isPrefix_strncpyText h0 w hn).trans ?_
    show _ <+: fillAt _ _ _
    rw [fillAt, List.take_zero, List.nil_append]
    exact List.prefix_append _ _
  have hnul : name ++ [0] <+: c₂ := by
    obtain ⟨v, hv⟩ := hstart
    show _ <+: fillAt _ _ _
    rw [fillAt, ← hv, Nat.zero_add, List.take_left]
    exact List.prefix_append _ _
  have hlen : (name ++ [0]).length ≤ 128 := by
    rw [List.length_append, List.length_singleton]
    omega
  refine ⟨c₁, c₂, c₃, fillAt c₃ (passwdRawOffset + k) [0], strncpyInto_of_le (by omega),
    terminateAt_of_lt (by omega), strncpyInto_of_le (by omega), terminateAt_of_lt (by omega), ?_,
    cstr_copied (by omega)⟩
  obtain ⟨v, hv⟩ := isPrefix_fillAt (isPrefix_fillAt hnul (i := passwdRawOffset) hlen (strncpyText src k))
    (i := passwdRawOffset + k) (by omega) [0]
  show cstr (fillAt (fillAt _ _ _) _ _) = name
  rw [← hv, List.append_assoc, List.singleton_append, cstr_append_nul, cstr_eq_self h0]

/-- **The end of a line**, or of a part of it that has the colon and the brace: the name is
copied with its position, and what follows up to here is the password. -/
theorem addUser_line {l : UserLine} {pre post : Bytes} {k : Nat} (hbuf : buf = pre ++ (l.text ++ post))
    (h0 : 0 ∉ l.name) (hk : k ≤ 29) :
    addUser junk buf (pre.length + l.name.length + 6 + k) { offset := pre.length, users := us } =
      if pre.length + l.name.length ≤ sizeofUser then
        some { offset := pre.length + l.name.length + 6 + k + 1
               users := us ++ decodedUser l.name ((0x7d :: base64 l.digest ++ post).take k) }
      else none := by
  have hname := l.name_le
  have hsrc : buf.drop pre.length = l.text ++ post := by rw [hbuf, List.drop_left]
  have hsep : toInt (mkStringSearchI (l.text ++ post) [0x3a]) = l.name.length := by
    rw [UserLine.text, List.append_assoc, List.cons_append, mkStringSearchI_name h0 l.no_colon]
    exact toInt_eq_self (by omega) (by omega)
  have hraw : bufferAt buf (pre.length + l.name.length + 1 + 5) = some (0x7d :: base64 l.digest ++ post) := by
    have hpos : (pre ++ l.name ++ ascii ":\x7bSHA1".toList).length = pre.length + l.name.length + 6 := by
      simp only [List.length_append]
      rfl
    have hshape : buf = (pre ++ l.name ++ ascii ":\x7bSHA1".toList) ++ (0x7d :: base64 l.digest ++ post) := by
      rw [hbuf, UserLine.text]
      simp [ascii]
    have hnat : ((pre.length : Int) + l.name.length + 1 + 5).toNat = pre.length + l.name.length + 6 := by omega
    rw [bufferAt, hnat, ← hpos, if_pos, hshape, List.drop_left]
    rw [hshape, List.length_append, hpos]
    omega
  have hrest : ((pre.length + l.name.length + 6 + k : Nat) : Int) - (pre.length + l.name.length + 1 + 5) = k := by
    omega
  unfold addUser
  simp only [hsrc, hsep, hraw, hrest]
  by_cases hfit : pre.length + l.name.length ≤ sizeofUser
  · rw [if_pos hfit]
    obtain ⟨c₁, c₂, c₃, c₄, h₁, h₂, h₃, h₄, huser, hpasswd⟩ :=
      @copyUser_spec junk l.name (0x7d :: base64 l.digest ++ post) (pre.length + l.name.length) k h0 hname
        (by omega) hfit hk (0x3a :: (ascii "{SHA1}".toList ++ base64 l.digest) ++ post)
    rw [← List.append_assoc, ← UserLine.text] at h₁
    push_cast at h₁
    simp only [h₁, h₂, h₃, h₄, Option.bind_some, Option.map_some, hpasswd, decodedUser]
    cases base64Decode (cstr ((0x7d :: base64 l.digest ++ post).take k)) with
    | none => simp
    | some decoded => simp [huser]
  · have hcopy : strncpyInto (newBuffer junk sizeofUser) 0 (l.text ++ post) (pre.length + l.name.length) = none := by
      rw [strncpyInto, if_neg (by omega)]
      refine if_neg ?_
      rw [length_strncpyText, length_newBuffer]
      omega
    rw [hcopy, if_neg hfit, Option.bind_none]

/-- A decoded text has at most three bytes for four characters. -/
theorem base64Decode_length_le {src text : Bytes} (h : base64Decode src = some text) :
    text.length ≤ src.length / 4 * 3 := by
  obtain ⟨out, -, hlen, htext⟩ := base64DecodeBuffer_spec (fun _ => 0) src
  have hle := (htext text h).1
  have hchars : (base64Chars src).length ≤ src.length := List.length_filter_le _ _
  omega

/-- The brace is skipped. -/
theorem base64Decode_brace (s : Bytes) : base64Decode (0x7d :: s) = base64Decode s := by
  have hbrace : dtable 0x7d = 0x80 := by decide
  simp only [base64Decode, List.filter_cons, hbrace, ne_eq, not_true_eq_false, decide_false, Bool.false_eq_true,
    if_false]

/-- Neither a NUL nor a newline is a character of base64. -/
theorem mem_base64 {d : Bytes} {c : UInt8} (hc : c ∈ base64 d) : c ≠ 0 ∧ c ≠ 0x0a := by
  have hskip : dtable c ≠ 0x80 := by
    have hmem := filter_base64 d ▸ hc
    exact of_decide_eq_true (List.mem_filter.mp hmem).2
  constructor
  all_goals
    rintro rfl
    exact hskip (by decide)

/-- A whole line gives its user. -/
theorem decodedUser_line (l : UserLine) (post : Bytes) :
    decodedUser l.name ((0x7d :: base64 l.digest ++ post).take 29) = [l.user] := by
  have hlen : (base64 l.digest).length = 28 := by rw [base64_length, l.digest_length]
  have hraw : (0x7d :: base64 l.digest ++ post).take 29 = 0x7d :: base64 l.digest :=
    List.take_left' (by rw [List.length_cons, hlen])
  have h0 : 0 ∉ 0x7d :: base64 l.digest := by
    intro h
    rcases List.mem_cons.mp h with h | h
    · contradiction
    · exact (mem_base64 h).1 rfl
  have hne : l.digest ≠ [] := by
    intro h
    have := l.digest_length
    simp [h] at this
  rw [decodedUser, hraw, cstr_eq_self h0, base64Decode_brace, base64Decode_base64 hne]
  rfl

/-- A part of a line gives no digest of that length. -/
theorem decodedUser_cut {name s : Bytes} {k : Nat} (hk : k ≤ 28) :
    ∀ u ∈ decodedUser name ((0x7d :: s).take k), u.passwdDecoded.length < 20 := by
  intro u hu
  obtain ⟨text, htext, rfl⟩ : ∃ text, base64Decode (cstr ((0x7d :: s).take k)) = some text ∧
      { user := name, passwdDecoded := text } = u := by
    simpa [decodedUser] using hu
  cases k with
  | zero => contradiction
  | succ k =>
      have hcstr : cstr ((0x7d :: s).take (k + 1)) = 0x7d :: cstr (s.take k) := rfl
      rw [hcstr, base64Decode_brace] at htext
      have hle := base64Decode_length_le htext
      have hcut := (cstr_length_le (s.take k)).trans (List.length_take_le k s)
      show text.length < 20
      omega

end line

/-! ## the loop -/

section loop

variable {junk : Nat → UInt8} {buf : Bytes} {len : Nat}

/-- Inside a line nothing happens. -/
theorem addUsersLoop_skip {l : Bytes} (hl : 0x0a ∉ l) (s : Bytes) {i : Nat} (hi : i + l.length < len) (st : AddState) :
    addUsersLoop junk buf len (l ++ s) i st = addUsersLoop junk buf len s (i + l.length) st := by
  induction l generalizing i with
  | nil => rfl
  | cons c l ih =>
      obtain ⟨hc, hl⟩ := not_or.mp fun h => hl (List.mem_cons.mpr h)
      rw [List.length_cons] at hi
      have hmid : ¬ (c = 0x0a ∨ i = len - 1) := by
        rintro (h | h)
        · exact hc h.symm
        · omega
      rw [List.cons_append, addUsersLoop, if_neg hmid, ih hl (by omega), List.length_cons]
      congr 1
      omega

/-- The end of a line, at its newline or at the end of the file. -/
theorem addUsersLoop_stop {c : UInt8} {i : Nat} (h : c = 0x0a ∨ i = len - 1) (s : Bytes) (st : AddState) :
    addUsersLoop junk buf len (c :: s) i st =
      (addUser junk buf i st).bind (addUsersLoop junk buf len s (i + 1)) := by
  rw [addUsersLoop, if_pos h]

variable {pre post : Bytes} {us : List User}

/-- What is left of a file at a line of which the loop sees all. -/
theorem rest_line {a b : Bytes} (hbuf : buf = pre ++ a ++ b) (hlen : pre.length + a.length ≤ len) :
    (buf.take len).drop pre.length = a ++ (buf.take len).drop (pre.length + a.length) := by
  subst hbuf
  rw [← List.length_append] at hlen
  have htake : (pre ++ a ++ b).take len = pre ++ a ++ b.take (len - (pre ++ a).length) := by
    rw [List.take_append, List.take_of_length_le hlen]
  rw [htake, ← List.length_append, List.drop_left, List.append_assoc, List.drop_left]

/-- What is left of a file at a line that the loop sees a part of. -/
theorem rest_cut {a b : Bytes} (hbuf : buf = pre ++ a ++ b) (hlen : len ≤ pre.length + a.length) :
    (buf.take len).drop pre.length = a.take (len - pre.length) := by
  subst hbuf
  rw [List.append_assoc, List.drop_take, List.drop_left, List.take_append_of_le_length (by omega)]

theorem UserLine.newline_notMem_text (l : UserLine) : 0x0a ∉ l.text := by
  intro h
  rcases List.mem_append.mp h with h | h
  · exact l.no_newline h
  · rcases List.mem_cons.mp h with h | h
    · contradiction
    · rcases List.mem_append.mp h with h | h
      · exact absurd h (by decide)
      · exact (mem_base64 h).2 rfl

theorem UserLine.length_text (l : UserLine) : l.text.length = l.name.length + 35 := by
  have hbrace : (ascii "{SHA1}".toList).length = 6 := rfl
  rw [UserLine.text, List.length_append, List.length_cons, List.length_append, hbrace, base64_length,
    l.digest_length]

theorem length_lineText (l : UserLine) : (lineText (some l)).length = l.name.length + 36 := by
  rw [lineText, Option.elim_some, List.length_append, List.length_singleton, l.length_text]

/-- **A whole line**: its user is added where the name fits. -/
theorem addUsersLoop_line {l : UserLine} (hbuf : buf = pre ++ lineText (some l) ++ post) (h0 : 0 ∉ l.name)
    (hlen : pre.length + (lineText (some l)).length ≤ len) :
    addUsersLoop junk buf len ((buf.take len).drop pre.length) pre.length { offset := pre.length, users := us } =
      if pre.length + l.name.length ≤ sizeofUser then
        addUsersLoop junk buf len ((buf.take len).drop (pre.length + (lineText (some l)).length))
          (pre.length + (lineText (some l)).length)
          { offset := pre.length + (lineText (some l)).length, users := us ++ [l.user] }
      else none := by
  have htext := l.length_text
  have hline := length_lineText l
  have hshape : lineText (some l) = l.text ++ [0x0a] := rfl
  have hbuf' : buf = pre ++ (l.text ++ (0x0a :: post)) := by
    rw [hbuf, hshape]
    simp
  rw [rest_line hbuf hlen]
  generalize (buf.take len).drop (pre.length + (lineText (some l)).length) = rest
  rw [hline] at hlen
  have hat : pre.length + l.text.length = pre.length + l.name.length + 6 + 29 := by omega
  rw [hshape, List.append_assoc, addUsersLoop_skip l.newline_notMem_text _ (by omega), List.singleton_append,
    addUsersLoop_stop (.inl rfl), hat, addUser_line hbuf' h0 (by omega), decodedUser_line]
  split
  · rw [Option.bind_some, ← hshape, hline]
    rfl
  · rfl

/-- An empty line. -/
theorem addUsersLoop_empty (hbuf : buf = pre ++ lineText none ++ post) (hlen : pre.length < len) :
    addUsersLoop junk buf len ((buf.take len).drop pre.length) pre.length { offset := pre.length, users := us } =
      none := by
  have hone : (lineText none).length = 1 := rfl
  have hshape : lineText none = [0x0a] := rfl
  rw [rest_line hbuf (by omega), hshape, List.singleton_append, addUsersLoop_stop (.inl rfl), addUser_empty,
    Option.bind_none]

/-- **A part of a line**: no user is added, or one with another digest. -/
theorem addUsersLoop_cut {l : UserLine} (hbuf : buf = pre ++ l.text ++ post) (hlo : pre.length < len)
    (hhi : len ≤ pre.length + l.text.length) {st : AddState}
    (h : addUsersLoop junk buf len ((buf.take len).drop pre.length) pre.length
      { offset := pre.length, users := us } = some st) (tail : List User) : st.users ≠ us ++ l.user :: tail := by
  have htext := l.length_text
  have hname := l.name_le
  have hsrc : buf.drop pre.length = l.text ++ post := by rw [hbuf, List.append_assoc, List.drop_left]
  have hbuf' : buf = pre ++ (l.text ++ post) := by rw [hbuf, List.append_assoc]
  obtain ⟨b, rfl⟩ : ∃ b, len = pre.length + (b + 1) := ⟨len - pre.length - 1, by omega⟩
  have hlast : l.text.take (b + 1) = l.text.take b ++ [l.text.get ⟨b, by omega⟩] := by
    rw [List.take_succ_eq_append_getElem (by omega)]
    rfl
  have htake : (l.text.take b).length = b := List.length_take_of_le (by omega)
  have hno : 0x0a ∉ l.text.take b := fun hmem => l.newline_notMem_text (List.mem_of_mem_take hmem)
  rw [rest_cut hbuf hhi, Nat.add_sub_cancel_left, hlast, addUsersLoop_skip hno _ (by omega), htake,
    addUsersLoop_stop (.inr (by omega))] at h
  obtain ⟨st', hst, hrun⟩ := Option.bind_eq_some_iff.mp h
  obtain rfl : st' = st := Option.some.inj hrun
  by_cases h0 : 0 ∈ l.name
  · have hsep : toInt (mkStringSearchI (buf.drop pre.length) [0x3a]) < 0 := by
      rw [hsrc, UserLine.text, List.append_assoc, mkStringSearchI_nul h0 l.no_colon]
      decide
    rw [addUser_no_colon hsep] at hst
    contradiction
  · by_cases hbrace : b < l.name.length + 6
    · have hsep : toInt (mkStringSearchI (buf.drop pre.length) [0x3a]) = l.name.length := by
        rw [hsrc, UserLine.text, List.append_assoc, List.cons_append, mkStringSearchI_name h0 l.no_colon]
        exact toInt_eq_self (by omega) (by omega)
      rw [addUser_short (by rw [hsep]; omega)] at hst
      contradiction
    · obtain ⟨k, rfl⟩ : ∃ k, b = l.name.length + 6 + k := ⟨b - (l.name.length + 6), by omega⟩
      rw [show pre.length + (l.name.length + 6 + k) = pre.length + l.name.length + 6 + k by omega,
        addUser_line hbuf' h0 (by omega)] at hst
      split at hst
      · obtain rfl := Option.some.inj hst
        intro heq
        have hmem : l.user ∈ decodedUser l.name ((0x7d :: base64 l.digest ++ post).take k) := by
          rw [List.append_cancel_left heq]
          exact List.mem_cons_self
        have hdigest := decodedUser_cut (show k ≤ 28 by omega) _ hmem
        rw [UserLine.user, l.digest_length] at hdigest
        omega
      · contradiction

end loop

/-! ## where the loop ends -/

theorem usersText_cons (x : Option UserLine) (lines : List (Option UserLine)) (last : Option UserLine) :
    usersText (x :: lines) last = lineText x ++ usersText lines last := by
  rw [usersText, List.flatMap_cons, List.append_assoc]
  rfl

theorem listed_cons_some (l : UserLine) (lines : List (Option UserLine)) (last : Option UserLine) :
    listed (some l :: lines) last = l.user :: listed lines last := by
  simp [listed, List.reduceOption_cons_of_some]

theorem listed_cons_none (lines : List (Option UserLine)) (last : Option UserLine) :
    listed (none :: lines) last = listed lines last := by
  simp [listed, List.reduceOption_cons_of_none]

section ends

variable {o len : Nat} {lines : List (Option UserLine)} {last : Option UserLine}

theorem LoopEnds.le (h : LoopEnds o len lines last) : o ≤ len := by
  obtain ⟨-, entries, m, -, -, rfl⟩ := h
  exact Nat.le_add_right _ _

/-- Behind a line with a user. -/
theorem loopEnds_cons_some {l : UserLine} : LoopEnds o len (some l :: lines) last ↔
    0 ∉ l.name ∧ o + l.name.length ≤ sizeofUser ∧ LoopEnds (o + (lineText (some l)).length) len lines last := by
  constructor
  · rintro ⟨hlast, entries, m, hlines, hfit, hlen⟩
    cases entries with
    | nil => cases m <;> simp [List.replicate_succ] at hlines
    | cons e entries =>
        simp only [List.map_cons, List.cons_append, List.cons.injEq, Option.some.injEq] at hlines
        obtain ⟨rfl, rfl⟩ := hlines
        refine ⟨hfit.1, hfit.2.1, hlast, entries, m, rfl, hfit.2.2, ?_⟩
        rw [hlen, List.map_cons, usersText_cons, List.length_append, Nat.add_assoc]
  · rintro ⟨h0, hname, hlast, entries, m, rfl, hfit, rfl⟩
    refine ⟨hlast, l :: entries, m, rfl, ⟨h0, hname, hfit⟩, ?_⟩
    rw [List.map_cons, usersText_cons, List.length_append, Nat.add_assoc]

/-- At an empty line. -/
theorem LoopEnds.of_cons_none (h : LoopEnds o len (none :: lines) last) : len = o := by
  obtain ⟨-, entries, m, hlines, -, rfl⟩ := h
  cases entries with
  | nil => rfl
  | cons e entries => simp at hlines

theorem LoopEnds.of_nil (h : LoopEnds o len [] last) : len = o := by
  obtain ⟨-, entries, m, hlines, -, rfl⟩ := h
  obtain rfl : entries = [] := List.map_eq_nil_iff.mp (List.append_eq_nil_iff.mp hlines.symm).1
  rfl

/-- The loop is over where no user is left. -/
theorem loopEnds_self_iff : LoopEnds o o lines last ↔ listed lines last = [] := by
  induction lines with
  | nil =>
      cases last with
      | none => exact iff_of_true ⟨rfl, [], 0, rfl, trivial, rfl⟩ rfl
      | some l => exact iff_of_false (fun h => Option.some_ne_none l h.1) (List.cons_ne_nil _ _)
  | cons x lines ih =>
      cases x with
      | some l =>
          refine iff_of_false (fun h => ?_) (by rw [listed_cons_some]; exact List.cons_ne_nil _ _)
          have hle := (loopEnds_cons_some.mp h).2.2.le
          have hline := length_lineText l
          omega
      | none =>
          rw [listed_cons_none, ← ih]
          constructor
          · rintro ⟨hlast, entries, m, hlines, hfit, hlen⟩
            cases entries with
            | cons e entries => simp at hlines
            | nil =>
                cases m with
                | zero => simp at hlines
                | succ m =>
                    rw [List.map_nil, List.nil_append, List.replicate_succ, List.cons.injEq] at hlines
                    exact ⟨hlast, [], m, hlines.2, hfit, hlen⟩
          · rintro ⟨hlast, entries, m, rfl, hfit, hlen⟩
            cases entries with
            | nil => exact ⟨hlast, [], m + 1, rfl, hfit, hlen⟩
            | cons e entries =>
                rw [List.map_cons, usersText_cons, List.length_append, length_lineText] at hlen
                omega

end ends

section loop

variable {junk : Nat → UInt8} {buf pre : Bytes} {len : Nat} {us : List User} {last : Option UserLine}

/-- A NUL in the part of a file before `b` hides the rest. -/
theorem strlen_le_of_mem {a : Bytes} (h0 : 0 ∈ a) (b : Bytes) : strlen (a ++ b) ≤ a.length := by
  obtain ⟨u, w, rfl, -⟩ := List.eq_append_cons_of_mem h0
  rw [strlen, List.append_assoc, List.cons_append, cstr_append_nul, List.length_append]
  exact (cstr_length_le u).trans (Nat.le_add_right _ _)

/-- The loop at the end of what it sees. -/
theorem addUsersLoop_over {lines : List (Option UserLine)} (heq : pre.length = len) :
    (∃ st, addUsersLoop junk buf len ((buf.take len).drop pre.length) pre.length
        { offset := pre.length, users := us } = some st ∧ st.users = us ++ listed lines last) ↔
      LoopEnds pre.length len lines last := by
  have hrest : (buf.take len).drop pre.length = [] := List.drop_eq_nil_of_le (by rw [List.length_take]; omega)
  rw [hrest, ← heq, loopEnds_self_iff]
  constructor
  · rintro ⟨st, hst, husers⟩
    obtain rfl := Option.some.inj hst
    exact List.self_eq_append_right.mp husers
  · intro hnil
    exact ⟨_, rfl, by rw [hnil, List.append_nil]⟩

/-- A name that the length of the string goes beyond. -/
theorem noNul_of_lt_strlen {l : UserLine} {post : Bytes} (hbuf : buf = pre ++ l.text ++ post)
    (hlt : pre.length + l.name.length < strlen buf) : 0 ∉ l.name := by
  intro hmem
  have hshort := strlen_le_of_mem (List.mem_append_right pre hmem) (0x3a :: (ascii "{SHA1}".toList ++ base64 l.digest) ++ post)
  rw [List.append_assoc, ← List.append_assoc l.name, ← UserLine.text, ← List.append_assoc, ← hbuf,
    List.length_append] at hshort
  omega

/-- **The loop over the lines that are left**, by the line at which it stands. -/
theorem addUsersLoop_iff {lines : List (Option UserLine)} (hbuf : buf = pre ++ usersText lines last)
    (hlo : pre.length ≤ len) (hhi : len ≤ strlen buf) :
    (∃ st, addUsersLoop junk buf len ((buf.take len).drop pre.length) pre.length
        { offset := pre.length, users := us } = some st ∧ st.users = us ++ listed lines last) ↔
      LoopEnds pre.length len lines last := by
  have hle : len ≤ buf.length := hhi.trans (cstr_length_le buf)
  induction lines generalizing pre us with
  | nil =>
      rcases hlo.eq_or_lt with heq | hlt
      · exact addUsersLoop_over heq
      · refine iff_of_false ?_ fun h => hlt.ne' h.of_nil
        rintro ⟨st, hst, husers⟩
        have hcut : buf = pre ++ last.elim [] UserLine.text ++ [] := by rw [hbuf, usersText, List.append_nil]; rfl
        rw [hcut, List.append_nil, List.length_append] at hle
        cases last with
        | none => exact absurd hle (by simpa using hlt)
        | some l => exact addUsersLoop_cut hcut hlt hle hst [] husers
  | cons x lines ih =>
      rcases hlo.eq_or_lt with heq | hlt
      · exact addUsersLoop_over heq
      · rw [usersText_cons, ← List.append_assoc] at hbuf
        cases x with
        | none =>
            refine iff_of_false ?_ fun h => hlt.ne' h.of_cons_none
            rintro ⟨st, hst, -⟩
            rw [addUsersLoop_empty hbuf hlt] at hst
            contradiction
        | some l =>
            have htext := l.length_text
            have hline := length_lineText l
            have hcutbuf : buf = pre ++ l.text ++ ([0x0a] ++ usersText lines last) := by
              rw [hbuf, lineText]
              simp
            rw [listed_cons_some, loopEnds_cons_some]
            by_cases hcut : len ≤ pre.length + l.text.length
            · refine iff_of_false ?_ ?_
              · rintro ⟨st, hst, husers⟩
                exact addUsersLoop_cut hcutbuf hlt hcut hst _ husers
              · rintro ⟨-, -, hends⟩
                have := hends.le
                omega
            · have h0 : 0 ∉ l.name := noNul_of_lt_strlen hcutbuf (by omega)
              rw [addUsersLoop_line hbuf h0 (by omega), and_iff_right h0]
              by_cases hfit : pre.length + l.name.length ≤ sizeofUser
              · have hnext := @ih (pre ++ lineText (some l)) (us ++ [l.user]) hbuf
                  (by rw [List.length_append]; omega)
                rw [List.length_append] at hnext
                rw [if_pos hfit, and_iff_right hfit]
                refine Iff.trans ?_ hnext
                rw [List.append_assoc, List.singleton_append]
              · rw [if_neg hfit]
                simp [hfit]

end loop

/-! ## a users file -/

/-- **A users file.**  The users of a new file are exactly its lines, and are read inside
the memory, exactly where the file is well kept. -/
theorem addUsers_exact_iff (junk : Nat → UInt8) {usersFileList : List UsersFile} {usersPath : Bytes}
    {finfo : FileInfo} (hnew : ∀ entry ∈ usersFileList, cstr entry.path ≠ cstr usersPath)
    (hfile : finfo.isDirectory = false) (hread : finfo.readAccess = true) (lines : List (Option UserLine))
    (last : Option UserLine) :
    (∃ entry, mkAuthConfAddUsers junk usersFileList usersPath (some finfo) (some (usersText lines last)) =
        some (some entry, usersFileList ++ [entry]) ∧ entry.users = listed lines last) ↔ WellKept lines last := by
  have hfind : (usersFileList.find? fun entry => cstr entry.path = cstr usersPath) = none :=
    List.find?_eq_none.mpr fun entry he => by simpa using hnew entry he
  have hle : (toInt (strlen (usersText lines last))).toNat ≤ strlen (usersText lines last) := by
    have := @toInt_le (strlen (usersText lines last)) (by omega)
    omega
  have hloop := @addUsersLoop_iff junk (usersText lines last) [] _ [] last lines rfl (Nat.zero_le _) hle
  simp only [List.length_nil, List.drop_zero, List.nil_append] at hloop
  unfold mkAuthConfAddUsers WellKept
  rw [hfind, ← hloop]
  simp only [hfile, hread, not_true_eq_false, if_false, Bool.false_eq_true]
  by_cases hempty : usersText lines last = []
  · have hnone : mkFileToBuffer (some (usersText lines last)) = none := by rw [hempty]; rfl
    rw [hnone]
    simp [hempty]
  · have hbuf : mkFileToBuffer (some (usersText lines last)) = some (usersText lines last) := by
      simp [mkFileToBuffer, hempty]
    rw [hbuf, and_iff_right hempty]
    simp only [Option.map_eq_some_iff, Prod.mk.injEq, addUsers]
    constructor
    · rintro ⟨entry, ⟨st, hst, hentry, -⟩, husers⟩
      obtain rfl := Option.some.inj hentry
      exact ⟨st, hst, husers⟩
    · rintro ⟨st, hst, husers⟩
      exact ⟨_, ⟨st, hst, rfl, rfl⟩, husers⟩

/-- The line `a:{SHA1}…`. -/
def lineOfA : UserLine where
  name := ascii "a".toList
  digest := digestPw
  name_ne := by decide
  name_le := by decide
  no_colon := by decide
  no_newline := by decide
  digest_length := by decide

/-- A second user with the same password. -/
def lineOfBob : UserLine where
  name := ascii "bob".toList
  digest := digestPw
  name_ne := by decide
  name_le := by decide
  no_colon := by decide
  no_newline := by decide
  digest_length := by decide

/-- With their newlines, both are read. -/
theorem addUsers_exact_two : ∃ entry,
    mkAuthConfAddUsers (fun _ => 0) [] (ascii "users".toList) (some { readAccess := true })
        (some (usersText [some lineOfA, some lineOfBob] none)) = some (some entry, [] ++ [entry]) ∧
      entry.users = listed [some lineOfA, some lineOfBob] none := by
  refine (addUsers_exact_iff (fun _ => 0) (by simp) rfl rfl [some lineOfA, some lineOfBob] none).mpr ?_
  exact ⟨by decide, rfl, [lineOfA, lineOfBob], 0, rfl, ⟨by decide, by decide, by decide, by decide, trivial⟩,
    by decide +kernel⟩

/-- Without a newline, the one line of a file has no user. -/
theorem addUsers_cut_of_a : ¬ ∀ (junk : Nat → UInt8) (usersFileList : List UsersFile) (usersPath : Bytes)
    (finfo : FileInfo), (∀ entry ∈ usersFileList, cstr entry.path ≠ cstr usersPath) → finfo.isDirectory = false →
      finfo.readAccess = true → ∀ lines last, ∃ entry,
        mkAuthConfAddUsers junk usersFileList usersPath (some finfo) (some (usersText lines last)) =
          some (some entry, usersFileList ++ [entry]) ∧ entry.users = listed lines last := by
  intro h
  obtain ⟨entry, hentry, husers⟩ :=
    h (fun _ => 0) [] (ascii "users".toList) { readAccess := true } (by simp) rfl rfl [] (some lineOfA)
  have hread : mkAuthConfAddUsers (fun _ => 0) [] (ascii "users".toList) (some { readAccess := true })
      (some (usersText [] (some lineOfA))) =
        some (some ⟨0, ascii "users".toList, []⟩, [⟨0, ascii "users".toList, []⟩]) := by decide +kernel
  rw [hread] at hentry
  obtain rfl : (⟨0, ascii "users".toList, []⟩ : UsersFile) = entry := by simpa using hentry
  simp [listed] at husers

end Monkey.Auth
