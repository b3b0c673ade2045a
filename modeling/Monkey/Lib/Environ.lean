import Monkey.Lib.CString
import Monkey.Lib.Keyed

/-!
# Monkey.Lib.Environ

The environment of a process: texts with a name, an equals sign and a value, and the lookup of
a name.

A text printed into a buffer of fixed size is cut off at its end.  As long as the buffer has room
for the name, what is read under it is the value up to where it was cut off (`getenv_entry`).
-/

namespace Monkey

/-- The name of an entry. -/
def envName (entry : Bytes) : Bytes := entry.takeWhile (· ≠ 0x3d)

/-- `getenv`: what is behind the equals sign of the first entry with the name. -/
def getenv (env : List Bytes) (name : Bytes) : Option Bytes :=
  (env.find? (envName · == name)).map fun entry => entry.drop (name.length + 1)

/-- A variable that is printed with `"name=%s"` into a buffer of some size. -/
structure EnvText where
  name : Bytes
  value : Bytes
  room : Nat

/-- What the buffer holds, up to its NUL. -/
def EnvText.entry (v : EnvText) : Bytes := (v.name ++ 0x3d :: cstr v.value).take (v.room - 1)

/-- What is read under the name. -/
def EnvText.read (v : EnvText) : Bytes := (cstr v.value).take (v.room - 2 - v.name.length)

/-- A name without an equals sign or a NUL, which the buffer has room for. -/
structure EnvText.Named (v : EnvText) : Prop where
  name : 0x3d ∉ v.name ∧ 0 ∉ v.name
  room : v.name.length + 2 ≤ v.room

theorem EnvText.Named.entry_eq {v : EnvText} (h : v.Named) : v.entry = v.name ++ 0x3d :: v.read := by
  have hroom := h.room
  obtain ⟨n, hn⟩ : ∃ n, v.room = v.name.length + (n + 2) := ⟨v.room - v.name.length - 2, by omega⟩
  have htake : v.room - 1 = v.name.length + (n + 1) := by omega
  have hleft : v.room - 2 - v.name.length = n := by omega
  rw [EnvText.entry, EnvText.read, htake, hleft, List.take_length_add_append, List.take_succ_cons]

theorem EnvText.Named.envName_entry {v : EnvText} (h : v.Named) : envName v.entry = v.name := by
  have hname : ∀ c ∈ v.name, decide (c ≠ 0x3d) = true := by
    intro c hc
    rw [decide_eq_true_eq]
    rintro rfl
    exact h.name.1 hc
  rw [envName, h.entry_eq, List.takeWhile_append_of_pos hname, List.takeWhile_cons_of_neg (by decide), List.append_nil]

/-- An entry is a string of C. -/
theorem EnvText.Named.zero_not_mem {v : EnvText} (h : v.Named) : 0 ∉ v.entry := by
  rw [h.entry_eq, List.mem_append, List.mem_cons, not_or, not_or]
  exact ⟨h.name.2, by decide, fun hmem => zero_notMem_cstr v.value (List.mem_of_mem_take hmem)⟩

theorem EnvText.entry_length_lt {v : EnvText} (h : 0 < v.room) : v.entry.length < v.room := by
  have hlen := List.length_take_le (v.room - 1) (v.name ++ 0x3d :: cstr v.value)
  rw [EnvText.entry]
  omega

variable {vars : List EnvText}

theorem map_envName (hnamed : ∀ v ∈ vars, v.Named) :
    (vars.map EnvText.entry).map envName = vars.map EnvText.name := by
  rw [List.map_map]
  exact List.map_congr_left fun w hw => (hnamed w hw).envName_entry

/-- **A variable is read** as far as its buffer goes. -/
theorem getenv_entry (hnodup : (vars.map EnvText.name).Nodup) (hnamed : ∀ v ∈ vars, v.Named) {v : EnvText}
    (hv : v ∈ vars) : getenv (vars.map EnvText.entry) v.name = some v.read := by
  have hentries : ((vars.map EnvText.entry).map envName).Nodup := by rwa [map_envName hnamed]
  have hfind := find?_key_of_mem hentries (List.mem_map_of_mem (f := EnvText.entry) hv)
  rw [(hnamed v hv).envName_entry] at hfind
  rw [getenv, hfind, Option.map_some, (hnamed v hv).entry_eq, List.drop_length_add_append, List.drop_succ_cons,
    List.drop_zero]

theorem getenv_none (hnamed : ∀ v ∈ vars, v.Named) {name : Bytes} (hname : name ∉ vars.map EnvText.name) :
    getenv (vars.map EnvText.entry) name = none := by
  rwa [getenv, Option.map_eq_none_iff, find?_key_eq_none, map_envName hnamed]

end Monkey
