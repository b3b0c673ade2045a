import Monkey.Cgi.Rules
import Monkey.Lib.Environ
import Monkey.Logger.Record

/-!
# Monkey.Cgi.Environ

The environment that `do_cgi` gives to a script: every variable is printed into a buffer of its
own, of `SHORTLEN` or `PATHLEN` bytes, and is cut off where that ends.

`CONTENT_TYPE` is printed from a pointer into the request, so what follows the field in the buffer
is printed as well.

The variables are texts in the order of the array, and the lookup is that of `getenv` in the
script: the first text with the name decides.  How the script is started is left out.
-/

namespace Monkey.Cgi

def shortLen : Nat := 36
def inet6AddrStrLen : Nat := 46

/-- A variable of the fixed part, whole. -/
def fixedVar (name value : String) : EnvText :=
  ⟨ascii name.toList, ascii value.toList, name.toList.length + value.toList.length + 2⟩

/-- A variable in a buffer of its own. -/
def envVar (name : String) (value : Bytes) (room : Nat) : EnvText := ⟨ascii name.toList, value, room⟩

/-- What `%s` prints for the method; that of an unknown one is a null pointer. -/
def requestMethod (sr : SessionRequest) : Bytes :=
  if sr.method = .unknown then ascii "(null)".toList else Logger.mkHttpMethodCheckStr sr.method

/-- The URL of `_mkp_stage_30`, with the query behind it if there is one. -/
def requestUri (url : Bytes) (sr : SessionRequest) : Bytes :=
  if sr.queryString.len ≠ 0 then cstr url ++ ascii "?".toList ++ cstr sr.queryString.text else url

/-- The variables of `do_cgi`, in their order: the signature of the host, the address of the client
if there is one, the file and the URL. -/
def doCgiVars (hostSignature : Bytes) (addr : Option Bytes) (file url : Bytes) (sr : SessionRequest) :
    List EnvText :=
  [fixedVar "PATH_INFO" "", fixedVar "GATEWAY_INTERFACE" "CGI/1.1", fixedVar "REDIRECT_STATUS" "200",
    envVar "REQUEST_METHOD" (requestMethod sr) shortLen,
    envVar "SERVER_SOFTWARE" hostSignature shortLen,
    envVar "HTTP_HOST" sr.host.text shortLen,
    envVar "SERVER_PROTOCOL" (ascii (if sr.protocol = .http11 then "HTTP/1.1" else "HTTP/1.0").toList) shortLen,
    envVar "REQUEST_URI" (requestUri url sr) pathLen,
    envVar "SCRIPT_FILENAME" file pathLen,
    envVar "SCRIPT_NAME" url pathLen] ++
  (if sr.queryString.len ≠ 0 then [envVar "QUERY_STRING" sr.queryString.text pathLen] else []) ++
  [envVar "REMOTE_ADDR" (addr.getD []) (inet6AddrStrLen + shortLen),
    envVar "REMOTE_PORT" (decimalInt sr.port) shortLen] ++
  (if sr.data.len ≠ 0 then [envVar "CONTENT_LENGTH" (decimal sr.data.len) shortLen] else []) ++
  (if sr.contentType.len ≠ 0 then [envVar "CONTENT_TYPE" (sr.contentType.data.getD []) shortLen] else [])

/-- The array `env`, without the `NULL` at its end. -/
def doCgiEnv (hostSignature : Bytes) (addr : Option Bytes) (file url : Bytes) (sr : SessionRequest) : List Bytes :=
  (doCgiVars hostSignature addr file url sr).map EnvText.entry

/-- The size of the array. -/
def envSize : Nat := 30

/-- The names a variable can have, with the room for it. -/
def envNames : List (Bytes × Nat) :=
  [(ascii "PATH_INFO".toList, 11), (ascii "GATEWAY_INTERFACE".toList, 26), (ascii "REDIRECT_STATUS".toList, 20),
    (ascii "REQUEST_METHOD".toList, shortLen), (ascii "SERVER_SOFTWARE".toList, shortLen),
    (ascii "HTTP_HOST".toList, shortLen), (ascii "SERVER_PROTOCOL".toList, shortLen),
    (ascii "REQUEST_URI".toList, pathLen), (ascii "SCRIPT_FILENAME".toList, pathLen),
    (ascii "SCRIPT_NAME".toList, pathLen), (ascii "QUERY_STRING".toList, pathLen),
    (ascii "REMOTE_ADDR".toList, inet6AddrStrLen + shortLen), (ascii "REMOTE_PORT".toList, shortLen),
    (ascii "CONTENT_LENGTH".toList, shortLen), (ascii "CONTENT_TYPE".toList, shortLen)]

section

variable (hostSignature : Bytes) (addr : Option Bytes) (file url : Bytes) (sr : SessionRequest)

theorem doCgiVars_sublist :
    ((doCgiVars hostSignature addr file url sr).map fun v => (v.name, v.room)).Sublist envNames := by
  have hopt : ∀ (p : Prop) [Decidable p] (v : EnvText),
      ((if p then [v] else []).map fun v => (v.name, v.room)).Sublist [(v.name, v.room)] := by
    intro p _ v
    split
    · exact .refl _
    · exact List.nil_sublist _
  simp only [doCgiVars, List.map_append]
  exact ((((List.Sublist.refl _).append (hopt _ _)).append (.refl _)).append (hopt _ _)).append (hopt _ _)

/-- **What a script reads**: each variable up to the end of its buffer, and no other; the array has
room for all of them and its end. -/
theorem doCgiEnv_getenv :
    (∀ v ∈ doCgiVars hostSignature addr file url sr,
        getenv (doCgiEnv hostSignature addr file url sr) v.name = some v.read) ∧
      (∀ name ∉ (doCgiVars hostSignature addr file url sr).map EnvText.name,
        getenv (doCgiEnv hostSignature addr file url sr) name = none) ∧
      (doCgiEnv hostSignature addr file url sr).length < envSize ∧
      ∀ v ∈ doCgiVars hostSignature addr file url sr, v.entry.length < v.room ∧ 0 ∉ v.entry := by
  have hsub := doCgiVars_sublist hostSignature addr file url sr
  have hnodup : ((doCgiVars hostSignature addr file url sr).map EnvText.name).Nodup := by
    have hnames := hsub.map Prod.fst
    rw [List.map_map] at hnames
    exact hnames.nodup (by decide)
  have hnamed : ∀ v ∈ doCgiVars hostSignature addr file url sr, v.Named := by
    have hall : ∀ e ∈ envNames, (0x3d ∉ e.1 ∧ 0 ∉ e.1) ∧ e.1.length + 2 ≤ e.2 := by decide
    intro v hv
    have hv' := hall _ (hsub.subset (List.mem_map_of_mem hv))
    exact ⟨hv'.1, hv'.2⟩
  refine ⟨fun v hv => getenv_entry hnodup hnamed hv, fun name hname => getenv_none hnamed hname, ?_, fun v hv => ?_⟩
  · have hlen := hsub.length_le
    rw [List.length_map] at hlen
    rw [doCgiEnv, List.length_map]
    exact lt_of_le_of_lt hlen (by decide)
  · have hroom := (hnamed v hv).room
    exact ⟨EnvText.entry_length_lt (by omega), (hnamed v hv).zero_not_mem⟩

variable {hostSignature addr file url sr}

/-- **`CONTENT_TYPE`** is the value of the field, which ends with its line, exactly if that has 22
bytes: what is shorter has the line behind it, and what is longer is cut off. -/
theorem doCgiEnv_contentType {value rest : Bytes} (hdata : sr.contentType.data = some (value ++ 0x0d :: rest))
    (hlen : sr.contentType.len = value.length) (hne : value ≠ []) (hnul : 0 ∉ value) :
    getenv (doCgiEnv hostSignature addr file url sr) (ascii "CONTENT_TYPE".toList) = some value ↔
      value.length = 22 := by
  have hlen' : sr.contentType.len ≠ 0 := by
    rw [hlen]
    exact fun h => hne (List.length_eq_zero_iff.mp h)
  have hmem : envVar "CONTENT_TYPE" (sr.contentType.data.getD []) shortLen ∈
      doCgiVars hostSignature addr file url sr := by
    rw [doCgiVars, if_pos hlen']
    exact List.mem_append_right _ (List.mem_singleton_self _)
  have hread : getenv (doCgiEnv hostSignature addr file url sr) (ascii "CONTENT_TYPE".toList) = _ :=
    (doCgiEnv_getenv hostSignature addr file url sr).1 _ hmem
  have hcstr : cstr (value ++ 0x0d :: rest) = value ++ 0x0d :: cstr rest := by
    rw [cstr_append hnul]
    rfl
  have hroom : shortLen - 2 - (ascii "CONTENT_TYPE".toList).length = 22 := by decide
  rw [hread, EnvText.read, envVar, hdata, Option.getD_some, hcstr, hroom, Option.some_inj]
  constructor
  · intro heq
    have hsame := congrArg List.length heq
    rw [List.length_take, List.length_append, List.length_cons] at hsame
    omega
  · intro h22
    rw [← h22]
    exact List.take_left

/-- A type of 22 bytes. -/
theorem doCgiEnv_contentType_patch :
    getenv (doCgiEnv [] none [] [] { contentType := ⟨some (ascii "application/json-patch\r\n".toList), 22⟩ })
      (ascii "CONTENT_TYPE".toList) = some (ascii "application/json-patch".toList) :=
  (@doCgiEnv_contentType _ _ _ _ _ _ [0x0a] (by decide) (by decide) (by decide) (by decide)).mpr (by decide)

end

end Monkey.Cgi
