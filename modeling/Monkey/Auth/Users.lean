import Monkey.Auth.Base64
import Monkey.Lib.Tokens
import Monkey.Strings

/-!
# Monkey.Auth.Users

`mk_auth_validate_user`: the credentials of a request against a list of users.

A name is compared as far as the credentials go, and the first user who agrees that far
decides.

The hash is a parameter: a password agrees when its digest is the one kept for the user.  The hash
of the source is the subject of `Monkey.Auth.Sha1Stream`.
-/

namespace Monkey.Auth

/-- `struct user`: the name of a user, and the digest stored for the password. -/
structure User where
  user : Bytes
  passwdDecoded : Bytes
deriving DecidableEq, Repr

/-- `MK_AUTH_HEADER_BASIC`. -/
def authHeaderBasic : Bytes := ascii "Basic ".toList

/-- The loop over the users: the first one whose name agrees with the `sep` bytes of the
credentials decides. -/
def validateLoop (decoded : Bytes) (sep : Nat) (digest : Bytes) : List User → Int
  | [] => -1
  | entry :: users =>
      if strncmp entry.user decoded sep then if entry.passwdDecoded.take 20 = digest then 0 else -1
      else validateLoop decoded sep digest users

section sha1

variable (sha1 : Bytes → Bytes)

/-- `mk_auth_validate_user`; there is no result where the credentials cannot be decoded,
which is not checked. -/
def mkAuthValidateUser (users : List User) (credentials : Bytes) : Option Int :=
  if credentials.length ≤ authHeaderBasic.length + 1 then some (-1)
  else if strncmp credentials authHeaderBasic authHeaderBasic.length = false then some (-1)
  else
    (base64Decode (credentials.drop authHeaderBasic.length)).map fun decoded =>
      if decoded.length ≤ 3 then -1
      else
        let sep := mkStringSearchN (decoded ++ [0]) [0x3a] decoded.length
        if sep = -1 ∨ sep = 0 ∨ sep = decoded.length - 1 then -1
        else validateLoop decoded sep.toNat (sha1 (decoded.drop (sep.toNat + 1))) users

/-- What a client sends. -/
def credentials (user password : Bytes) : Bytes := authHeaderBasic ++ base64 (user ++ 0x3a :: password)

/-! ## who is let in -/

/-- A user of this name has this digest. -/
def Registered (users : List User) (user digest : Bytes) : Prop :=
  ∃ e ∈ users, cstr e.user = user ∧ e.passwdDecoded.take 20 = digest

/-- The first user whose name starts like this. -/
def firstStarting (users : List User) (user : Bytes) : Option User :=
  users.find? fun e => user.isPrefixOf (cstr e.user)

/-- The decision of the list is that of its exact entries: no name of one letter with a
password of one letter is registered, and otherwise the first user whose name starts like
the one given has the digest exactly when a user of this name has. -/
def Decided (users : List User) (user password digest : Bytes) : Prop :=
  if user.length + password.length = 2 then ¬ Registered users user digest
  else ∀ e ∈ firstStarting users user, (e.passwdDecoded.take 20 = digest ↔ Registered users user digest)

end sha1

/-! ## the separator -/

/-- The separator is found behind the name, if no NUL comes before. -/
theorem mkStringSearchLoop_colon {user : Bytes} (hcolon : 0x3a ∉ user) (s : Bytes) {len i : Nat}
    (hlen : i + user.length < len) :
    mkStringSearchLoop .insensitive [0x3a] len (user ++ 0x3a :: s) i =
      if 0 ∈ user then none else some (i + user.length) := by
  induction user generalizing i with
  | nil => rfl
  | cons c user ih =>
      obtain ⟨hc, hcolon⟩ := not_or.mp fun h => hcolon (List.mem_cons.mpr h)
      have hno : ([0x3a].map toupper).isPrefixOf ((c :: (user ++ 0x3a :: s)).map toupper) = false := by
        rw [Bool.eq_false_iff]
        intro hpre
        obtain ⟨hhead, -⟩ := List.cons_prefix_cons.mp (List.isPrefixOf_iff_prefix.mp hpre)
        exact hc (eq_of_toupper_eq hhead.symm (by decide)).symm
      rw [List.length_cons] at hlen
      rw [List.cons_append, mkStringSearchLoop_cons, hno, if_neg Bool.false_ne_true, if_neg (by omega)]
      by_cases h0 : c = 0
      · subst h0
        simp
      · rw [if_neg h0, ih hcolon (by omega), List.length_cons]
        have hmem : (0 ∈ c :: user) ↔ 0 ∈ user := by simp [Ne.symm h0]
        simp only [hmem]
        split
        · rfl
        · congr 1
          omega

/-! ## the loop -/

/-- A name starts with bytes that are no NUL where the text of the name does. -/
theorem isPrefix_cstr_iff {user name : Bytes} (hnul : 0 ∉ user) : user <+: cstr name ↔ user <+: name := by
  constructor
  · exact fun h => h.trans (List.takeWhile_prefix _)
  · rintro ⟨t, rfl⟩
    rw [cstr_append hnul]
    exact List.prefix_append ..

/-- **The loop** asks the first user whose name starts like this. -/
theorem validateLoop_eq {user : Bytes} (hnul : 0 ∉ user) (rest digest : Bytes) (users : List User) :
    validateLoop (user ++ rest) user.length digest users =
      match firstStarting users user with
      | some e => if e.passwdDecoded.take 20 = digest then 0 else -1
      | none => -1 := by
  induction users with
  | nil => rfl
  | cons e users ih =>
      have hmatch : strncmp e.user (user ++ rest) user.length = true ↔ user.isPrefixOf (cstr e.user) = true := by
        rw [strncmp, strncmpWith_append_right, ← strncmp, strncmp_iff_isPrefix hnul, List.isPrefixOf_iff_prefix,
          isPrefix_cstr_iff hnul]
      unfold validateLoop firstStarting
      by_cases hpre : user.isPrefixOf (cstr e.user) = true
      · rw [if_pos (hmatch.mpr hpre), List.find?_cons_of_pos (by exact hpre)]
      · rw [if_neg fun h => hpre (hmatch.mp h), List.find?_cons_of_neg (by exact hpre), ih]
        rfl

/-- Only a name without NUL starts a name. -/
theorem firstStarting_some {users : List User} {user : Bytes} {e : User} (h : firstStarting users user = some e) :
    0 ∉ user := by
  unfold firstStarting at h
  have hfound := List.find?_some h
  have hpre := List.isPrefixOf_iff_prefix.mp hfound
  exact fun h0 => zero_notMem_cstr e.user (hpre.subset h0)

theorem Registered.starting {users : List User} {user digest : Bytes} (h : Registered users user digest) :
    ∃ e, firstStarting users user = some e := by
  obtain ⟨e, he, rfl, -⟩ := h
  refine Option.isSome_iff_exists.mp (List.find?_isSome.mpr ⟨e, he, ?_⟩)
  exact List.isPrefixOf_iff_prefix.mpr List.prefix_rfl

/-! ## the decision -/

section sha1

variable {sha1 : Bytes → Bytes} {users : List User} {user password : Bytes}

/-- **Who is let in**: with three bytes or more, whom the first user whose name starts
like the one given has the digest of. -/
theorem mkAuthValidateUser_eq_zero (huser : user ≠ []) (hcolon : 0x3a ∉ user) (hpassword : password ≠ []) :
    mkAuthValidateUser sha1 users (credentials user password) = some 0 ↔
      user.length + password.length ≠ 2 ∧
        ∃ e ∈ firstStarting users user, e.passwdDecoded.take 20 = sha1 password := by
  have hlu : 0 < user.length := List.length_pos_iff.mpr huser
  have hlp : 0 < password.length := List.length_pos_iff.mpr hpassword
  have hdrop : (credentials user password).drop authHeaderBasic.length = base64 (user ++ 0x3a :: password) :=
    List.drop_left
  have hbasic : strncmp (credentials user password) authHeaderBasic authHeaderBasic.length = true :=
    (strncmp_iff_isPrefix (by decide)).mpr (List.prefix_append ..)
  have hlong : ¬ (credentials user password).length ≤ authHeaderBasic.length + 1 := by
    rw [credentials, List.length_append, base64_length, List.length_append, List.length_cons]
    show ¬ 6 + (user.length + (password.length + 1) + 2) / 3 * 4 ≤ 6 + 1
    omega
  have hlen : (user ++ 0x3a :: password).length = user.length + (password.length + 1) := by simp
  have hsep : mkStringSearchN (user ++ 0x3a :: password ++ [0]) [0x3a] ↑(user.length + (password.length + 1)) =
      position (if 0 ∈ user then none else some user.length) := by
    rw [mkStringSearchN, if_neg (by omega), List.append_assoc, List.cons_append, Int.toNat_natCast,
      mkStringSearchLoop_colon hcolon _ (by omega), Nat.zero_add]
  rw [mkAuthValidateUser, if_neg hlong, hbasic, if_neg (by simp), hdrop, base64Decode_base64 (by simp),
    Option.map_some, Option.some_inj]
  dsimp only
  rw [hlen, hsep]
  by_cases hshort : user.length + password.length = 2
  · rw [if_pos (by omega)]
    simp [hshort]
  · rw [if_neg (by omega), and_iff_right hshort]
    by_cases hnul : 0 ∈ user
    · rw [if_pos hnul, position, Option.elim_none, if_pos (.inl rfl)]
      refine iff_of_false (by decide) ?_
      rintro ⟨e, he, -⟩
      exact firstStarting_some he hnul
    · rw [if_neg hnul, position, Option.elim_some, Int.ofNat_eq_natCast, if_neg (by omega)]
      have htail : (user ++ 0x3a :: password).drop (user.length + 1) = password := by simp
      rw [Int.toNat_natCast, htail, validateLoop_eq hnul]
      cases firstStarting users user with
      | none => simp
      | some e => simp

/-- **Exact names.**  The credentials are accepted exactly when a user of this name has the
digest of the password, exactly where the list decides so. -/
theorem validate_exact_iff (huser : user ≠ []) (hcolon : 0x3a ∉ user) (hpassword : password ≠ []) :
    (mkAuthValidateUser sha1 users (credentials user password) = some 0 ↔
      Registered users user (sha1 password)) ↔ Decided users user password (sha1 password) := by
  rw [mkAuthValidateUser_eq_zero huser hcolon hpassword]
  unfold Decided
  by_cases hshort : user.length + password.length = 2
  · simp [hshort]
  · rw [if_neg hshort]
    simp only [ne_eq, hshort, not_false_eq_true, true_and]
    cases hfirst : firstStarting users user with
    | none =>
        have hno : ¬ Registered users user (sha1 password) := by
          intro h
          obtain ⟨e, he⟩ := h.starting
          rw [hfirst] at he
          contradiction
        simp [hno]
    | some e => simp

end sha1

/-! ## a list of two users -/

/-- The digest of the password `pw`. -/
def digestPw : Bytes :=
  [0x1a, 0x91, 0xd6, 0x2f, 0x7c, 0xa6, 0x73, 0x99, 0x62, 0x5a, 0x43, 0x68, 0xa6, 0xab, 0x5d, 0x4a, 0x3b, 0xaa,
    0x60, 0x73]

def twoUsers : List User :=
  [{ user := ascii "bob".toList, passwdDecoded := digestPw }, { user := ascii "al".toList, passwdDecoded := digestPw }]

/-- `al` is let in. -/
theorem validate_exact_al : mkAuthValidateUser (fun _ => digestPw) twoUsers
      (credentials (ascii "al".toList) (ascii "pw".toList)) = some 0 ↔
    Registered twoUsers (ascii "al".toList) digestPw := by
  refine (@validate_exact_iff (fun _ => digestPw) twoUsers (ascii "al".toList) (ascii "pw".toList)
    (by decide) (by decide) (by decide)).mpr ?_
  have hfirst : firstStarting twoUsers (ascii "al".toList) =
      some { user := ascii "al".toList, passwdDecoded := digestPw } := by decide +kernel
  rw [Decided, if_neg (by decide), hfirst]
  rintro e ⟨⟩
  exact iff_of_true rfl ⟨_, List.mem_cons_of_mem _ List.mem_cons_self, rfl, rfl⟩

/-- So is `bo`, who is not in the list. -/
theorem validate_prefix_bo : ∃ users user password digest,
    mkAuthValidateUser (fun _ => digest) users (credentials user password) = some 0 ∧
      user ≠ [] ∧ 0x3a ∉ user ∧ password ≠ [] ∧ ¬ Registered users user digest := by
  refine ⟨twoUsers, ascii "bo".toList, ascii "pw".toList, digestPw, by decide +kernel, by decide, by decide,
    by decide, ?_⟩
  rintro ⟨e, he, hname, -⟩
  have hall : ∀ e ∈ twoUsers, cstr e.user ≠ ascii "bo".toList := by decide
  exact hall e he hname

end Monkey.Auth
