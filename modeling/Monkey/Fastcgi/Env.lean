import Monkey.Fastcgi.Request
import Monkey.Fastcgi.Protocol

/-!
# Monkey.Fastcgi.Env

The environment of a request as FastCGI parameters (`fcgi_env.c`).

The parameters are written one behind the other.  The space is checked before each
of them, and the first one that does not fit ends the writing without an error: the
caller gets the length of what was written.

The texts are those of the request as the core has parsed it.  The value of a row is taken to start
two places behind its name, so a row without a value has a length below zero, and is a very long one
where it is copied.
-/

namespace Monkey.Fastcgi

/-- A parameter with the length the code computed for its value: a `size_t`, taken
here before it wraps. -/
structure EnvVar where
  key : Bytes
  value : Bytes
  len : Int := value.length
deriving DecidableEq, Repr

/-- A parameter with a known name and a text of known length. -/
def envVar (key : String) (value : Bytes) : EnvVar := { key := ascii key.toList, value := value }

/-- `snprintf(buffer, 128, "%d", n)`. -/
def printInt (n : Int) : Bytes := ascii (toString n).toList

/-- `REQUEST_URI`: with a query both texts are printed, up to a NUL of theirs, into a
new buffer, and its last byte is passed on as well. -/
def requestUri (tmpuri : Nat → UInt8) (cr : ClientRequest) : Bytes :=
  if cr.queryString.length > 0 then
    let len := cr.uri.length + cr.queryString.length + 2
    let text := cstr cr.uri ++ ascii ['?'] ++ cstr cr.queryString ++ [0]
    text ++ (List.range' text.length (len - text.length)).map tmpuri
  else cr.uri

/-- `HTTP_` and the name of a header row up to its colon. -/
def headerKey (row : Bytes) : Bytes :=
  ascii ['H', 'T', 'T', 'P', '_'] ++
    (row.takeWhile (· ≠ 0x3a)).map fun c => if c ≠ 0x2d then toupper c else 0x5f

/-- The parameter of a header row: the value starts two places behind the name. -/
def headerVar (row : Bytes) : EnvVar :=
  let j := (row.takeWhile (· ≠ 0x3a)).length
  { key := headerKey row
    value := row.drop (j + 2)
    len := row.length - j - 2 }

/-- The address and the port of one end of the client's socket. -/
def addrVars (addr port : String) : Option (Bytes × UInt16) → List EnvVar
  | some (text, n) => [envVar addr text, envVar port (printInt n.toNat)]
  | none => []

/-- The parameters of a request, in the order they are written. -/
def fcgiEnvVars (tmpuri : Nat → UInt8) (cr : ClientRequest) : List EnvVar :=
  [envVar "PATH_INFO" [],
   envVar "GATEWAY_INTERFACE" (ascii "CGI/1.1".toList),
   envVar "REDIRECT_STATUS" (ascii "200".toList),
   envVar "SERVER_SOFTWARE" cr.hostSignature,
   envVar "DOCUMENT_ROOT" cr.documentroot,
   envVar "SERVER_PROTOCOL" cr.protocol,
   envVar "SERVER_NAME" cr.hostAlias] ++
  addrVars "SERVER_ADDR" "SERVER_PORT" cr.sockname ++
  [envVar "SCRIPT_FILENAME" cr.realPath,
   envVar "SCRIPT_NAME" cr.uriProcessed,
   envVar "REQUEST_METHOD" cr.method] ++
  addrVars "REMOTE_ADDR" "REMOTE_PORT" cr.peername ++
  [envVar "REQUEST_URI" (requestUri tmpuri cr),
   envVar "QUERY_STRING" cr.queryString,
   envVar "CONTENT_TYPE" cr.contentType,
   envVar "CONTENT_LENGTH" (printInt cr.contentLength)] ++
  cr.headersToc.map headerVar

/-- The environment: all parameters, one behind the other. -/
def envBytes (vars : List EnvVar) : Bytes := vars.flatMap fun v => fcgiParamWrite v.key v.value

/-- The size of the buffer for the name of a header. -/
def nameBuffer : Nat := 128

/-- `fcgi_env_write` from position `pos` on.  The sum of a check is not negative, so
it is what the `size_t` sum wraps to.  There is no result when the name of a header
runs over its buffer, or when a value of negative length is copied. -/
def fcgiEnvWrite (len : Nat) : List EnvVar → Nat → Option Bytes
  | [], _ => some []
  | v :: vars, pos =>
      if v.key.length > nameBuffer then none
      else if ((len - pos : Nat) : Int) > 8 + v.key.length + v.len then
        if v.len = v.value.length then
          let param := fcgiParamWrite v.key v.value
          (fcgiEnvWrite len vars (pos + param.length)).map (param ++ ·)
        else none
      else some []

/-- Every parameter has a value and passes the check of the space left for it. -/
def EnvFits (len : Nat) : List EnvVar → Nat → Prop
  | [], _ => True
  | v :: vars, pos =>
      ((len - pos : Nat) : Int) > 8 + v.key.length + v.value.length ∧ 0 ≤ v.len ∧
        EnvFits len vars (pos + (fcgiParamWrite v.key v.value).length)

instance EnvFits.decidable (len : Nat) :
    ∀ (vars : List EnvVar) (pos : Nat), Decidable (EnvFits len vars pos)
  | [], _ => .isTrue trivial
  | _ :: vars, _ => @instDecidableAnd _ _ _ (@instDecidableAnd _ _ _ (EnvFits.decidable len vars _))

/-! ## what is written -/

theorem fcgiParamWrite_ne_nil (key value : Bytes) : fcgiParamWrite key value ≠ [] := by
  unfold fcgiParamWrite writeLength
  split <;> simp

/-- Every length computed is that of the value, unless it is negative. -/
theorem len_of_mem_fcgiEnvVars {tmpuri : Nat → UInt8} {cr : ClientRequest} {v : EnvVar}
    (h : v ∈ fcgiEnvVars tmpuri cr) (hlen : 0 ≤ v.len) : v.len = v.value.length := by
  have haddr : ∀ {a p : String} {o : Option (Bytes × UInt16)}, v ∈ addrVars a p o →
      v.len = v.value.length := by
    intro a p o ho
    unfold addrVars at ho
    split at ho
    · simp only [List.mem_cons, List.not_mem_nil, or_false] at ho
      obtain rfl | rfl := ho <;> rfl
    · simp at ho
  simp only [fcgiEnvVars, List.mem_append, List.mem_cons, List.not_mem_nil, or_false,
    List.mem_map] at h
  obtain ((((h | h) | h) | h) | h) | ⟨row, -, rfl⟩ := h
  · obtain rfl | rfl | rfl | rfl | rfl | rfl | rfl := h <;> rfl
  · exact haddr h
  · obtain rfl | rfl | rfl := h <;> rfl
  · exact haddr h
  · obtain rfl | rfl | rfl | rfl := h <;> rfl
  · simp only [headerVar, List.length_drop] at hlen ⊢
    omega

/-- What is written stays in the buffer. -/
theorem fcgiEnvWrite_length {len pos : Nat} {vars : List EnvVar} {out : Bytes}
    (h : fcgiEnvWrite len vars pos = some out) (hpos : pos ≤ len) : pos + out.length ≤ len := by
  induction vars generalizing pos out with
  | nil =>
      obtain rfl : [] = out := by simpa [fcgiEnvWrite] using h
      simpa using hpos
  | cons v vars ih =>
      unfold fcgiEnvWrite at h
      split at h
      · contradiction
      split at h
      · next hspace =>
          split at h
          · next hlen =>
              obtain ⟨rest, hrest, rfl⟩ := Option.map_eq_some_iff.mp h
              have hparam := length_fcgiParamWrite_le v.key v.value
              have := ih hrest (by omega)
              rw [List.length_append]
              omega
          · contradiction
      · obtain rfl := Option.some.inj h
        simpa using hpos

/-- What is written is the environment when every parameter fits, and shorter than it
otherwise. -/
theorem fcgiEnvWrite_spec {len pos : Nat} {vars : List EnvVar} {out : Bytes}
    (hvars : ∀ v ∈ vars, 0 ≤ v.len → v.len = v.value.length)
    (h : fcgiEnvWrite len vars pos = some out) :
    if EnvFits len vars pos then out = envBytes vars else out.length < (envBytes vars).length := by
  induction vars generalizing pos out with
  | nil =>
      obtain rfl : [] = out := by simpa [fcgiEnvWrite] using h
      simp [EnvFits, envBytes]
  | cons v vars ih =>
      have hcons : envBytes (v :: vars) = fcgiParamWrite v.key v.value ++ envBytes vars := rfl
      have hparam : 0 < (fcgiParamWrite v.key v.value).length :=
        List.length_pos_of_ne_nil (fcgiParamWrite_ne_nil _ _)
      unfold fcgiEnvWrite at h
      split at h
      · contradiction
      split at h
      · next hspace =>
          split at h
          · next hlen =>
              obtain ⟨rest, hrest, rfl⟩ := Option.map_eq_some_iff.mp h
              have hih := ih (fun w hw => hvars w (List.mem_cons_of_mem _ hw)) hrest
              have hhead : ((len - pos : Nat) : Int) > 8 + v.key.length + v.value.length ∧ 0 ≤ v.len := by
                omega
              by_cases hfits : EnvFits len vars (pos + (fcgiParamWrite v.key v.value).length)
              · rw [if_pos ⟨hhead.1, hhead.2, hfits⟩, hcons]
                rw [if_pos hfits] at hih
                rw [hih]
              · rw [if_neg fun hf => hfits hf.2.2, hcons, List.length_append, List.length_append]
                rw [if_neg hfits] at hih
                omega
          · contradiction
      · next hspace =>
          obtain rfl := Option.some.inj h
          have hnot : ¬ EnvFits len (v :: vars) pos := by
            intro hf
            have := hvars v List.mem_cons_self hf.2.1
            have := hf.1
            omega
          rw [if_neg hnot, hcons, List.length_append, List.length_nil]
          omega

/-- **The environment is written whole exactly when every parameter fits.** -/
theorem fcgiEnvWrite_eq_envBytes_iff {len pos : Nat} {vars : List EnvVar} {out : Bytes}
    (hvars : ∀ v ∈ vars, 0 ≤ v.len → v.len = v.value.length)
    (h : fcgiEnvWrite len vars pos = some out) : out = envBytes vars ↔ EnvFits len vars pos := by
  have hspec := fcgiEnvWrite_spec hvars h
  split at hspec
  · next hfits => exact ⟨fun _ => hfits, fun _ => hspec⟩
  · next hfits =>
      constructor
      · rintro rfl
        exact absurd hspec (lt_irrefl _)
      · intro hf
        exact absurd hf hfits

/-- The environment is written whole exactly when the names fit their buffer and every
parameter passes its check. -/
theorem fcgiEnvWrite_whole_iff {len pos : Nat} {vars : List EnvVar}
    (hvars : ∀ v ∈ vars, 0 ≤ v.len → v.len = v.value.length) :
    fcgiEnvWrite len vars pos = some (envBytes vars) ↔
      EnvFits len vars pos ∧ ∀ v ∈ vars, v.key.length ≤ nameBuffer := by
  induction vars generalizing pos with
  | nil => simp [fcgiEnvWrite, envBytes, EnvFits]
  | cons v vars ih =>
      obtain ⟨hhead, hrest⟩ := List.forall_mem_cons.mp hvars
      have hcons : envBytes (v :: vars) = fcgiParamWrite v.key v.value ++ envBytes vars := rfl
      rw [List.forall_mem_cons]
      constructor
      · intro h
        have hfits := (fcgiEnvWrite_eq_envBytes_iff hvars h).mp rfl
        refine ⟨hfits, ?_⟩
        unfold fcgiEnvWrite at h
        split at h
        · contradiction
        next hname =>
          have hlen := hhead hfits.2.1
          rw [if_pos (by have := hfits.1; omega), if_pos hlen, hcons] at h
          obtain ⟨rest, hwrite, heq⟩ := Option.map_eq_some_iff.mp h
          rw [List.append_cancel_left heq] at hwrite
          exact ⟨not_lt.mp hname, ((ih hrest).mp hwrite).2⟩
      · rintro ⟨⟨hspace, hpos, hfits⟩, hname, hnames⟩
        have hlen := hhead hpos
        unfold fcgiEnvWrite
        rw [if_neg (not_lt.mpr hname), if_pos (by omega), if_pos hlen]
        simp only [(ih hrest).mpr ⟨hfits, hnames⟩, hcons, Option.map_some]

end Monkey.Fastcgi
