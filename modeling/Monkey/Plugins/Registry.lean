import Monkey.Http.Init

/-!
# Monkey.Plugins.Registry

The plugins that the server loads (`mk_plugin_read_config`), the map of its stages
(`mk_plugin_register_stagemap`), and a run of a stage (`mk_plugin_stage_run`).

The plugins are those of the `Load` lines that can be opened and pass the checks, in the order
of the file, and a stage asks those of them that name it in their hooks, in that order.  The
stages 20 and 30 of the core are runs of the map.

A library is what `dlopen` finds under a name: some values and functions over a state that belongs to
nobody here.  A stage is a chain of the plugins that have its bit, and the value that a function returns
decides whether the next one is asked.
-/

namespace Monkey.Plugins

/-! ## plugins -/

inductive Stage
  | s10 | s20 | s30 | s40 | s50
deriving DecidableEq, Repr

/-- `MK_PLUGIN_STAGE_10` to `MK_PLUGIN_STAGE_50`. -/
def Stage.bit : Stage → UInt32
  | .s10 => 4
  | .s20 => 8
  | .s30 => 16
  | .s40 => 32
  | .s50 => 64

def mkPluginNetworkIo : UInt32 := 128

def mkPluginRetNotMe : Int := -1
def mkPluginRetContinue : Int := 100
def mkPluginRetEnd : Int := 200
def mkPluginRetCloseConx : Int := 300

/-- `struct plugin`, as `mk_plugin_alloc` fills it from the symbols of a library: what `init`
returns, whether there is an `exit`, and the functions of the stages, over what they may see
and change. -/
structure LoadedPlugin (σ : Type*) where
  shortname : Bytes
  name : Option Bytes
  version : Option Bytes
  hooks : UInt32
  init : Option Int
  exit : Bool
  stage : Stage → Option (σ → Int × σ)

/-- The plugin has a bit of the hooks. -/
def LoadedPlugin.has {σ : Type*} (p : LoadedPlugin σ) (bit : UInt32) : Bool := p.hooks &&& bit ≠ 0

/-- `config->plugins`, `plg_stagemap` and `plg_netiomap`. -/
structure Registry (σ : Type*) where
  plugins : List (LoadedPlugin σ) := []
  stagemap : Stage → List (LoadedPlugin σ) := fun _ => []
  netiomap : Option (LoadedPlugin σ) := none

section registry

variable {σ : Type*}

/-- `mk_plugin_register_stagemap_add`: at the end of the chain. -/
def mkPluginRegisterStagemapAdd : List (LoadedPlugin σ) → LoadedPlugin σ → List (LoadedPlugin σ)
  | [], p => [p]
  | q :: list, p => q :: mkPluginRegisterStagemapAdd list p

/-- `mk_plugin_register_stagemap`. -/
def mkPluginRegisterStagemap (stagemap : Stage → List (LoadedPlugin σ)) (p : LoadedPlugin σ) :
    Stage → List (LoadedPlugin σ) :=
  fun st => if p.has st.bit then mkPluginRegisterStagemapAdd (stagemap st) p else stagemap st

/-- The plugin is the transport layer of the configuration. -/
def LoadedPlugin.transports (transportLayer : Option Bytes) (p : LoadedPlugin σ) : Bool :=
  p.has mkPluginNetworkIo ∧ transportLayer = some p.shortname

/-- `mk_plugin_register`: a plugin without a name, a version, hooks or one of the two functions
is left out. -/
def mkPluginRegister (transportLayer : Option Bytes) (reg : Registry σ) (p : LoadedPlugin σ) : Registry σ :=
  if p.name = none ∨ p.version = none ∨ p.hooks = 0 then reg
  else if p.init = none ∨ p.exit = false then reg
  else
    { plugins := reg.plugins ++ [p]
      stagemap := mkPluginRegisterStagemap reg.stagemap p
      netiomap := if p.transports transportLayer then some p else reg.netiomap }

/-- An entry of the `PLUGINS` section: what `dlopen` finds under the value, and what
`mk_plugin_alloc` makes of it. -/
structure LoadEntry (σ : Type*) where
  key : Bytes
  opened : Option (Option (LoadedPlugin σ))

/-- The loop over the entries: a plugin without `init` is a call of a null pointer. -/
def loadEntries (transportLayer : Option Bytes) : List (LoadEntry σ) → Registry σ → Option (Registry σ)
  | [], reg => some reg
  | e :: entries, reg =>
      if strcasecmp e.key (ascii "Load".toList) then
        match e.opened with
        | some (some p) =>
            match p.init with
            | none => none
            | some ret =>
                if ret < 0 then loadEntries transportLayer entries reg
                else loadEntries transportLayer entries (mkPluginRegister transportLayer reg p)
        | _ => loadEntries transportLayer entries reg
      else loadEntries transportLayer entries reg

/-- How `mk_plugin_read_config` ends. -/
inductive ReadConfig (σ : Type*)
  | crash
  | exit
  | loaded (reg : Registry σ)

/-- `mk_plugin_read_config`: without its transport layer the server does not start. -/
def mkPluginReadConfig (transportLayer : Option Bytes) (entries : List (LoadEntry σ)) : ReadConfig σ :=
  match loadEntries transportLayer entries {} with
  | none => .crash
  | some reg => if reg.netiomap.isNone then .exit else .loaded reg

/-! ## the registry -/

/-- The plugin of an entry. -/
def LoadEntry.plugin (e : LoadEntry σ) : Option (LoadedPlugin σ) :=
  if strcasecmp e.key (ascii "Load".toList) then e.opened.join else none

/-- The checks on a plugin whose `init` has run. -/
def LoadedPlugin.accepted (p : LoadedPlugin σ) : Bool :=
  p.init.any (0 ≤ ·) ∧ p.name.isSome ∧ p.version.isSome ∧ p.hooks ≠ 0 ∧ p.exit

/-- The plugins that are accepted, in the order of the file. -/
def acceptedPlugins (entries : List (LoadEntry σ)) : List (LoadedPlugin σ) :=
  (entries.filterMap LoadEntry.plugin).filter LoadedPlugin.accepted

/-- The registry that holds some plugins. -/
def registryOf (transportLayer : Option Bytes) (plugins : List (LoadedPlugin σ)) : Registry σ where
  plugins := plugins
  stagemap := fun st => plugins.filter (·.has st.bit)
  netiomap := (plugins.filter (·.transports transportLayer)).getLast?

theorem mkPluginRegisterStagemapAdd_eq (list : List (LoadedPlugin σ)) (p : LoadedPlugin σ) :
    mkPluginRegisterStagemapAdd list p = list ++ [p] := by
  induction list with
  | nil => rfl
  | cons q list ih => rw [mkPluginRegisterStagemapAdd, ih, List.cons_append]

variable {transportLayer : Option Bytes}

theorem mkPluginRegister_registryOf (plugins : List (LoadedPlugin σ)) {p : LoadedPlugin σ} {ret : Int}
    (hinit : p.init = some ret) (hret : 0 ≤ ret) :
    mkPluginRegister transportLayer (registryOf transportLayer plugins) p =
      registryOf transportLayer (plugins ++ [p].filter LoadedPlugin.accepted) := by
  by_cases haccepted : p.accepted = true
  · have hall := of_decide_eq_true haccepted
    have hfirst : ¬ (p.name = none ∨ p.version = none ∨ p.hooks = 0) := by
      rintro (hname | hversion | hhooks)
      · simp [hname] at hall
      · simp [hversion] at hall
      · exact hall.2.2.2.1 hhooks
    have hsecond : ¬ (p.init = none ∨ p.exit = false) := by
      rintro (hnone | hexit)
      · rw [hinit] at hnone
        cases hnone
      · simp [hexit] at hall
    rw [mkPluginRegister, if_neg hfirst, if_neg hsecond, List.filter_cons_of_pos haccepted, List.filter_nil]
    simp only [registryOf, Registry.mk.injEq, true_and]
    refine ⟨funext fun st => ?_, ?_⟩
    · rw [mkPluginRegisterStagemap, mkPluginRegisterStagemapAdd_eq, List.filter_append]
      by_cases hbit : p.has st.bit = true <;> simp [hbit]
    · rw [List.filter_append]
      by_cases htransports : p.transports transportLayer = true <;> simp [htransports]
  · have hreturns : mkPluginRegister transportLayer (registryOf transportLayer plugins) p =
        registryOf transportLayer plugins := by
      by_cases hfirst : p.name = none ∨ p.version = none ∨ p.hooks = 0
      · rw [mkPluginRegister, if_pos hfirst]
      · have hsecond : p.init = none ∨ p.exit = false := by
          by_contra hsecond
          refine haccepted (decide_eq_true ?_)
          simp only [not_or, ← Ne.eq_def, Option.ne_none_iff_isSome] at hfirst hsecond
          exact ⟨by simp [hinit, hret], hfirst.1, hfirst.2.1, hfirst.2.2, by simpa using hsecond.2⟩
        rw [mkPluginRegister, if_neg hfirst, if_pos hsecond]
    rw [hreturns, List.filter_cons_of_neg haccepted, List.filter_nil, List.append_nil]

theorem loadEntries_skip {e : LoadEntry σ} (h : e.plugin = none) (entries : List (LoadEntry σ)) (reg : Registry σ) :
    loadEntries transportLayer (e :: entries) reg = loadEntries transportLayer entries reg := by
  rw [LoadEntry.plugin] at h
  rw [loadEntries]
  split at h
  · rw [if_pos ‹_›]
    rcases hopened : e.opened with _ | _ | p
    · rfl
    · rfl
    · rw [hopened] at h
      cases h
  · rw [if_neg ‹_›]

theorem loadEntries_load {e : LoadEntry σ} {p : LoadedPlugin σ} (h : e.plugin = some p) (entries : List (LoadEntry σ))
    (reg : Registry σ) :
    loadEntries transportLayer (e :: entries) reg =
      match p.init with
      | none => none
      | some ret =>
          if ret < 0 then loadEntries transportLayer entries reg
          else loadEntries transportLayer entries (mkPluginRegister transportLayer reg p) := by
  have hload : strcasecmp e.key (ascii "Load".toList) = true ∧ e.opened = some (some p) := by
    rw [LoadEntry.plugin] at h
    split at h
    · exact ⟨‹_›, by simpa [Option.join_eq_some_iff] using h⟩
    · cases h
  rw [loadEntries, if_pos hload.1, hload.2]

theorem acceptedPlugins_cons {e : LoadEntry σ} {p : LoadedPlugin σ} (h : e.plugin = some p)
    (entries : List (LoadEntry σ)) :
    acceptedPlugins (e :: entries) = [p].filter LoadedPlugin.accepted ++ acceptedPlugins entries := by
  rw [acceptedPlugins, List.filterMap_cons_some h, ← List.singleton_append, List.filter_append]
  rfl

/-- The loop keeps to the registry of what was accepted. -/
theorem loadEntries_eq (entries : List (LoadEntry σ)) (plugins : List (LoadedPlugin σ)) :
    loadEntries transportLayer entries (registryOf transportLayer plugins) =
      if ∃ p ∈ entries.filterMap LoadEntry.plugin, p.init = none then none
      else some (registryOf transportLayer (plugins ++ acceptedPlugins entries)) := by
  induction entries generalizing plugins with
  | nil => simp [loadEntries, acceptedPlugins]
  | cons e entries ih =>
      rcases hplugin : e.plugin with _ | p
      · rw [loadEntries_skip hplugin, ih, acceptedPlugins, acceptedPlugins, List.filterMap_cons_none hplugin]
      · rw [loadEntries_load hplugin, acceptedPlugins_cons hplugin, List.filterMap_cons_some hplugin]
        rcases hinit : p.init with _ | ret
        · simp [hinit]
        · have hexists : (∃ q ∈ p :: entries.filterMap LoadEntry.plugin, q.init = none) ↔
              ∃ q ∈ entries.filterMap LoadEntry.plugin, q.init = none := by
            simp [hinit]
          simp only [hexists]
          by_cases hret : ret < 0
          · have hrefused : p.accepted = false := by
              rw [LoadedPlugin.accepted, decide_eq_false_iff_not, hinit]
              rintro ⟨hpos, -⟩
              exact absurd (of_decide_eq_true hpos) (by omega)
            rw [if_pos hret, ih, List.filter_cons_of_neg (by simp [hrefused]), List.filter_nil, List.nil_append]
          · rw [if_neg hret, mkPluginRegister_registryOf plugins hinit (by omega), ih, List.append_assoc]

/-- **What the server loads**: the plugins accepted, in the order of the file, each on the chain of
every stage of its hooks, and the last of them that is the transport layer.  Without one the
server does not start, and a library without `init` is a call of a null pointer. -/
theorem mkPluginReadConfig_eq (transportLayer : Option Bytes) (entries : List (LoadEntry σ)) :
    mkPluginReadConfig transportLayer entries =
      if ∃ p ∈ entries.filterMap LoadEntry.plugin, p.init = none then .crash
      else if ∃ p ∈ acceptedPlugins entries, p.transports transportLayer then
        .loaded (registryOf transportLayer (acceptedPlugins entries))
      else .exit := by
  have hload : loadEntries transportLayer entries {} = _ := loadEntries_eq entries []
  rw [mkPluginReadConfig, hload]
  by_cases hcrash : ∃ p ∈ entries.filterMap LoadEntry.plugin, p.init = none
  · rw [if_pos hcrash, if_pos hcrash]
  · rw [if_neg hcrash, if_neg hcrash, List.nil_append]
    have hnone : (registryOf transportLayer (acceptedPlugins entries)).netiomap.isNone = true ↔
        ¬ ∃ p ∈ acceptedPlugins entries, p.transports transportLayer := by
      simp [registryOf]
    by_cases htransport : ∃ p ∈ acceptedPlugins entries, p.transports transportLayer
    · simp only [if_pos htransport, if_neg (fun h => hnone.mp h htransport)]
    · simp only [if_neg htransport, if_pos (hnone.mpr htransport)]

/-! ## a run of a stage -/

/-- What the loop of a stage makes of a return value: the next plugin is asked, the value is
returned, or the process ends. -/
inductive Verdict
  | next
  | ret (r : Int)
  | exit
deriving DecidableEq, Repr

/-- The `switch` of each stage. -/
def Stage.verdict : Stage → Int → Verdict
  | .s10, r | .s20, r => if r = mkPluginRetCloseConx then .ret r else .next
  | .s30, r =>
      if r = mkPluginRetNotMe then .next
      else if r = mkPluginRetEnd ∨ r = mkPluginRetCloseConx ∨ r = mkPluginRetContinue then .ret r
      else .exit
  | .s40, _ => .next
  | .s50, r => if r = mkPluginRetContinue then .ret r else .next

/-- How a stage ends; a hook that the library does not define is a call of a null pointer. -/
inductive StageEnd
  | passed
  | ret (r : Int)
  | exit
  | crash
deriving DecidableEq, Repr

/-- The loop over the chain of a stage. -/
def stageLoop (st : Stage) : List (LoadedPlugin σ) → σ → StageEnd × σ
  | [], s => (.passed, s)
  | p :: stm, s =>
      match p.stage st with
      | none => (.crash, s)
      | some hook =>
          match st.verdict (hook s).1 with
          | .next => stageLoop st stm (hook s).2
          | .ret r => (.ret r, (hook s).2)
          | .exit => (.exit, (hook s).2)

/-- The stages of a run, one after the other; a request already taken is not offered again. -/
def runStages (stagemap : Stage → List (LoadedPlugin σ)) (handledBy : σ → Bool) (hook : UInt32) :
    List Stage → σ → StageEnd × σ
  | [], s => (.ret (-1), s)
  | st :: stages, s =>
      if hook &&& st.bit ≠ 0 ∧ ¬(st = .s30 ∧ handledBy s) then
        match stageLoop st (stagemap st) s with
        | (.passed, s) => runStages stagemap handledBy hook stages s
        | ended => ended
      else runStages stagemap handledBy hook stages s

/-- `mk_plugin_stage_run`. -/
def mkPluginStageRun (reg : Registry σ) (handledBy : σ → Bool) (hook : UInt32) (s : σ) : StageEnd × σ :=
  runStages reg.stagemap handledBy hook [.s10, .s20, .s30, .s40, .s50] s

/-- The plugins pass, one after the other, and take a state to another. -/
def Passes (st : Stage) : List (LoadedPlugin σ) → σ → σ → Prop
  | [], s, s' => s = s'
  | p :: ps, s, s' => ∃ hook, p.stage st = some hook ∧ st.verdict (hook s).1 = .next ∧ Passes st ps (hook s).2 s'

/-- How a plugin that does not pass ends the stage. -/
inductive Ends (st : Stage) (p : LoadedPlugin σ) (s : σ) : StageEnd → σ → Prop
  | crash (h : p.stage st = none) : Ends st p s .crash s
  | ret {hook : σ → Int × σ} {r : Int} (h : p.stage st = some hook) (hret : st.verdict (hook s).1 = .ret r) :
      Ends st p s (.ret r) (hook s).2
  | exit {hook : σ → Int × σ} (h : p.stage st = some hook) (hexit : st.verdict (hook s).1 = .exit) :
      Ends st p s .exit (hook s).2

/-- The first plugin of the chain that does not pass ends the stage, and no other is asked. -/
theorem stageLoop_iff {st : Stage} {chain : List (LoadedPlugin σ)} {s s' : σ} {e : StageEnd} :
    stageLoop st chain s = (e, s') ↔ (e = .passed ∧ Passes st chain s s') ∨
      ∃ before p after t, chain = before ++ p :: after ∧ Passes st before s t ∧ Ends st p t e s' := by
  induction chain generalizing s with
  | nil =>
      constructor
      · intro h
        cases h
        exact .inl ⟨rfl, rfl⟩
      · rintro (⟨rfl, h⟩ | ⟨before, p, after, t, h, -⟩)
        · exact congrArg (Prod.mk StageEnd.passed) h
        · simp at h
  | cons p stm ih =>
      constructor
      · intro h
        rw [stageLoop] at h
        rcases hstage : p.stage st with _ | hook
        · rw [hstage] at h
          cases h
          exact .inr ⟨[], p, stm, _, rfl, rfl, .crash hstage⟩
        · rw [hstage] at h
          simp only at h
          rcases hverdict : st.verdict (hook s).1 with _ | r | _
          · rw [hverdict] at h
            rcases ih.mp h with ⟨rfl, hpasses⟩ | ⟨before, q, after, t, rfl, hpasses, hends⟩
            · exact .inl ⟨rfl, hook, hstage, hverdict, hpasses⟩
            · exact .inr ⟨p :: before, q, after, t, rfl, ⟨hook, hstage, hverdict, hpasses⟩, hends⟩
          · rw [hverdict] at h
            cases h
            exact .inr ⟨[], p, stm, s, rfl, rfl, .ret hstage hverdict⟩
          · rw [hverdict] at h
            cases h
            exact .inr ⟨[], p, stm, s, rfl, rfl, .exit hstage hverdict⟩
      · rintro (⟨rfl, hook, hstage, hverdict, hpasses⟩ | ⟨before, q, after, t, hchain, hpasses, hends⟩)
        · rw [stageLoop, hstage]
          simp only [hverdict]
          exact ih.mpr (.inl ⟨rfl, hpasses⟩)
        · rcases before with _ | ⟨b, before⟩
          · obtain ⟨rfl, rfl⟩ := List.cons.inj hchain
            obtain rfl : s = t := hpasses
            rw [stageLoop]
            cases hends with
            | crash h => rw [h]
            | ret h hret => simp only [h, hret]
            | exit h hexit => simp only [h, hexit]
          · obtain ⟨rfl, rfl⟩ := List.cons.inj hchain
            obtain ⟨hook, hstage, hverdict, hrest⟩ := hpasses
            rw [stageLoop, hstage]
            simp only [hverdict]
            exact ih.mpr (.inr ⟨before, q, after, t, rfl, hrest, hends⟩)

/-- What a run returns after its last stage: `-1` if every plugin has passed. -/
def stageRet : StageEnd × σ → StageEnd × σ
  | (.passed, s) => (.ret (-1), s)
  | ended => ended

theorem Stage.bit_and (st st' : Stage) : st.bit &&& st'.bit ≠ 0 ↔ st = st' := by
  cases st <;> cases st' <;> decide

/-- A run of one stage. -/
theorem mkPluginStageRun_bit (reg : Registry σ) (handledBy : σ → Bool) (st : Stage) (s : σ) :
    mkPluginStageRun reg handledBy st.bit s =
      if st = .s30 ∧ handledBy s then (.ret (-1), s) else stageRet (stageLoop st (reg.stagemap st) s) := by
  cases st with
  | s30 =>
      simp only [mkPluginStageRun, runStages, Stage.bit_and]
      cases handledBy s
      · simp only [reduceCtorEq, false_and, true_and, and_false, not_false_eq_true, if_true, if_false, Bool.false_eq_true]
        rfl
      · simp
  | _ =>
      simp only [mkPluginStageRun, runStages, Stage.bit_and, reduceCtorEq, false_and, and_true, not_false_eq_true,
        if_true, if_false]
      rfl

theorem mkPluginReadConfig_loaded {entries : List (LoadEntry σ)} {reg : Registry σ}
    (h : mkPluginReadConfig transportLayer entries = .loaded reg) :
    registryOf transportLayer (acceptedPlugins entries) = reg := by
  rw [mkPluginReadConfig_eq] at h
  split at h
  · cases h
  · split at h
    · cases h
      rfl
    · cases h

/-- **Who a stage asks**: the plugins that the server has accepted and that name the stage, in the
order of the file, up to the first one that does not pass; each finds what those before it have
left, and none behind it is asked.  A request already taken is offered to nobody in stage 30. -/
theorem mkPluginStageRun_iff {entries : List (LoadEntry σ)} {reg : Registry σ}
    (hreg : mkPluginReadConfig transportLayer entries = .loaded reg) (handledBy : σ → Bool) (st : Stage)
    {s s' : σ} {e : StageEnd} (hs : ¬ (st = .s30 ∧ handledBy s = true)) :
    mkPluginStageRun reg handledBy st.bit s = (e, s') ↔
      (e = .ret (-1) ∧ Passes st ((acceptedPlugins entries).filter (·.has st.bit)) s s') ∨
        ∃ before p after t, (acceptedPlugins entries).filter (·.has st.bit) = before ++ p :: after ∧
          Passes st before s t ∧ Ends st p t e s' := by
  have hchain : reg.stagemap st = (acceptedPlugins entries).filter (·.has st.bit) := by
    rw [← mkPluginReadConfig_loaded hreg]
    rfl
  rw [mkPluginStageRun_bit, if_neg hs, hchain]
  obtain ⟨⟨e₀, s₀⟩, hloop⟩ : ∃ r, stageLoop st ((acceptedPlugins entries).filter (·.has st.bit)) s = r := ⟨_, rfl⟩
  have hiff := fun e s' => @stageLoop_iff σ st ((acceptedPlugins entries).filter (·.has st.bit)) s s' e
  rw [hloop]
  constructor
  · intro h
    rcases (hiff e₀ s₀).mp hloop with ⟨rfl, hpasses⟩ | hends
    · cases h
      exact .inl ⟨rfl, hpasses⟩
    · obtain ⟨before, p, after, t, hsplit, hpasses, hend⟩ := hends
      have hkeeps : (e₀, s₀) = (e, s') := by
        cases hend <;> exact h
      cases hkeeps
      exact .inr ⟨before, p, after, t, hsplit, hpasses, hend⟩
  · rintro (⟨rfl, hpasses⟩ | ⟨before, p, after, t, hsplit, hpasses, hend⟩)
    · have hpassed := (hiff .passed s').mpr (.inl ⟨rfl, hpasses⟩)
      rw [hloop] at hpassed
      rw [hpassed]
      rfl
    · have hended := (hiff e s').mpr (.inr ⟨before, p, after, t, hsplit, hpasses, hend⟩)
      rw [hloop] at hended
      rw [hended]
      cases hend <;> rfl

end registry

/-- A plugin that leaves its name to whoever is asked next, and returns a value. -/
def namedPlugin (name : Bytes) (hooks : UInt32) (ret : Int) : LoadedPlugin (List Bytes) where
  shortname := name
  name := some name
  version := some (ascii "1.0".toList)
  hooks := hooks
  init := some 0
  exit := true
  stage := fun _ => some fun asked => (ret, asked ++ [name])

/-- The `Load` lines of four plugins. -/
def loadLines : List (LoadEntry (List Bytes)) :=
  [namedPlugin (ascii "liana".toList) mkPluginNetworkIo mkPluginRetNotMe,
    namedPlugin (ascii "auth".toList) Stage.s30.bit mkPluginRetNotMe,
    namedPlugin (ascii "cgi".toList) Stage.s30.bit mkPluginRetContinue,
    namedPlugin (ascii "fastcgi".toList) Stage.s30.bit mkPluginRetContinue].map
      fun p => ⟨ascii "Load".toList, some (some p)⟩

theorem loadLines_loaded : mkPluginReadConfig (some (ascii "liana".toList)) loadLines =
    .loaded (registryOf (some (ascii "liana".toList)) (acceptedPlugins loadLines)) := by
  have hinit : ¬ ∃ p ∈ loadLines.filterMap LoadEntry.plugin, p.init = none := by
    rintro ⟨p, hp, hnone⟩
    obtain ⟨e, he, hplugin⟩ := List.mem_filterMap.mp hp
    simp only [loadLines, List.map_cons, List.map_nil, List.mem_cons, List.not_mem_nil, or_false] at he
    rcases he with rfl | rfl | rfl | rfl <;> cases hplugin <;> cases hnone
  have hliana : ∃ p ∈ acceptedPlugins loadLines, p.transports (some (ascii "liana".toList)) :=
    ⟨_, List.mem_cons_self, by decide⟩
  rw [mkPluginReadConfig_eq, if_neg hinit, if_pos hliana]

/-- `auth` passes and `cgi` takes the request; `fastcgi` is not asked. -/
theorem mkPluginStageRun_iff_cgi :
    mkPluginStageRun (registryOf (some (ascii "liana".toList)) (acceptedPlugins loadLines)) (fun _ => false)
        Stage.s30.bit [] =
      (.ret mkPluginRetContinue, [ascii "auth".toList, ascii "cgi".toList]) :=
  (mkPluginStageRun_iff loadLines_loaded (fun _ => false) .s30 (by simp)).mpr
    (.inr ⟨[namedPlugin (ascii "auth".toList) Stage.s30.bit mkPluginRetNotMe],
      namedPlugin (ascii "cgi".toList) Stage.s30.bit mkPluginRetContinue,
      [namedPlugin (ascii "fastcgi".toList) Stage.s30.bit mkPluginRetContinue], [ascii "auth".toList], rfl,
      ⟨_, rfl, rfl, rfl⟩,
      @Ends.ret _ _ _ _ (fun asked => (mkPluginRetContinue, asked ++ [ascii "cgi".toList])) _ rfl rfl⟩)

/-! ## the stages of the core -/

/-- The value of a stage 30 hook. -/
def stage30Code : Stage30Ret → Int
  | .notMe => mkPluginRetNotMe
  | .finish => mkPluginRetEnd
  | .closeConx => mkPluginRetCloseConx
  | .continue => mkPluginRetContinue

theorem verdict_stage30Code (ret : Stage30Ret) :
    Stage.verdict .s30 (stage30Code ret) = if ret = .notMe then .next else .ret (stage30Code ret) := by
  cases ret <;> decide

theorem stageLoop_stage30 {chain : List (LoadedPlugin SessionRequest)}
    {answers : LoadedPlugin SessionRequest → SessionRequest → Stage30Answer}
    (h : ∀ p ∈ chain, p.stage .s30 =
      some fun sr => (stage30Code (answers p sr).ret, (answers p sr).apply sr)) (sr : SessionRequest) :
    stageRet (stageLoop .s30 chain sr) =
      (.ret (stage30Code (stage30Loop (chain.map answers) sr).1), (stage30Loop (chain.map answers) sr).2) := by
  induction chain generalizing sr with
  | nil => rfl
  | cons p chain ih =>
      have hp := h p List.mem_cons_self
      have hrest := ih (fun q hq => h q (List.mem_cons_of_mem p hq)) ((answers p sr).apply sr)
      rw [List.map_cons, stageLoop, stage30Loop, hp]
      simp only [verdict_stage30Code]
      rcases hret : (answers p sr).ret with _ | _ | _ | _
      · exact hrest
      all_goals rfl

theorem stageLoop_stage20 {chain : List (LoadedPlugin SessionRequest)}
    {closes : LoadedPlugin SessionRequest → SessionRequest → Bool}
    (h : ∀ p ∈ chain, ∃ code, code ≠ mkPluginRetCloseConx ∧ p.stage .s20 =
      some fun sr => (if closes p sr then mkPluginRetCloseConx else code, sr)) (sr : SessionRequest) :
    stageRet (stageLoop .s20 chain sr) =
      (.ret (if (chain.map closes).any (· sr) then mkPluginRetCloseConx else -1), sr) := by
  induction chain with
  | nil => rfl
  | cons p chain ih =>
      obtain ⟨code, hcode, hp⟩ := h p List.mem_cons_self
      have hrest := ih fun q hq => h q (List.mem_cons_of_mem p hq)
      rw [List.map_cons, List.any_cons, stageLoop, hp]
      rcases hcloses : closes p sr with _ | _
      · simpa [Stage.verdict, hcloses, hcode] using hrest
      · simp [Stage.verdict, hcloses, stageRet]

/-- **The stages of the core** are runs of the map: with the hooks of the plugins that the server has
accepted, in the order of the file, stage 20 closes if one of them does, and stage 30 goes on to
the next one as long as they pass. -/
theorem mkPluginStageRun_core {transportLayer : Option Bytes} {entries : List (LoadEntry SessionRequest)}
    {reg : Registry SessionRequest} (hreg : mkPluginReadConfig transportLayer entries = .loaded reg) {sys : Sys}
    {closes : LoadedPlugin SessionRequest → SessionRequest → Bool}
    {answers : LoadedPlugin SessionRequest → SessionRequest → Stage30Answer}
    (hcloses : ∀ p ∈ acceptedPlugins entries, p.has Stage.s20.bit → ∃ code, code ≠ mkPluginRetCloseConx ∧
      p.stage .s20 = some fun sr => (if closes p sr then mkPluginRetCloseConx else code, sr))
    (hanswers : ∀ p ∈ acceptedPlugins entries, p.has Stage.s30.bit →
      p.stage .s30 = some fun sr => (stage30Code (answers p sr).ret, (answers p sr).apply sr))
    (hstage20 : sys.stage20 = ((acceptedPlugins entries).filter (·.has Stage.s20.bit)).map closes)
    (hstage30 : sys.stage30 = ((acceptedPlugins entries).filter (·.has Stage.s30.bit)).map answers)
    (sr : SessionRequest) :
    mkPluginStageRun reg (·.handledBy) Stage.s20.bit sr =
        (.ret (if mkPluginStage20 sys sr then mkPluginRetCloseConx else -1), sr) ∧
      mkPluginStageRun reg (·.handledBy) Stage.s30.bit sr =
        (.ret (stage30Code (mkPluginStage30 sys sr).1), (mkPluginStage30 sys sr).2) := by
  obtain rfl := mkPluginReadConfig_loaded hreg
  have hmem : ∀ bit, ∀ p ∈ (acceptedPlugins entries).filter (·.has bit), p ∈ acceptedPlugins entries ∧ p.has bit :=
    fun bit p hp => List.mem_filter.mp hp
  refine ⟨?_, ?_⟩
  · rw [mkPluginStageRun_bit, if_neg (by simp), mkPluginStage20, hstage20]
    exact stageLoop_stage20 (fun p hp => hcloses p (hmem _ p hp).1 (hmem _ p hp).2) sr
  · rw [mkPluginStageRun_bit, mkPluginStage30, hstage30]
    by_cases hhandled : sr.handledBy = true
    · rw [if_pos ⟨rfl, hhandled⟩, if_pos hhandled]
      rfl
    · rw [if_neg fun h => hhandled h.2, if_neg hhandled]
      exact stageLoop_stage30 (fun p hp => hanswers p (hmem _ p hp).1 (hmem _ p hp).2) sr

/-- A server with its transport layer and a plugin that refuses every request. -/
def refusing : List (LoadEntry SessionRequest) :=
  [⟨ascii "Load".toList, some (some {
      shortname := ascii "liana".toList, name := some (ascii "Liana".toList), version := some (ascii "0.1".toList)
      hooks := mkPluginNetworkIo, init := some 0, exit := true, stage := fun _ => none })⟩,
    ⟨ascii "Load".toList, some (some {
      shortname := ascii "auth".toList, name := some (ascii "Auth".toList), version := some (ascii "0.1".toList)
      hooks := Stage.s30.bit, init := some 0, exit := true
      stage := fun _ => some fun sr =>
        (mkPluginRetCloseConx, ({ ret := .closeConx, blocked := true } : Stage30Answer).apply sr) })⟩]

theorem mkPluginStageRun_core_refusing : ∃ reg,
    mkPluginReadConfig (some (ascii "liana".toList)) refusing = .loaded reg ∧
      mkPluginStageRun reg (·.handledBy) Stage.s30.bit ({} : SessionRequest) =
        (.ret mkPluginRetCloseConx, ({ ret := .closeConx, blocked := true } : Stage30Answer).apply {}) := by
  have hmem : ∀ p ∈ acceptedPlugins refusing, p.has Stage.s20.bit = false ∧
      (p.has Stage.s30.bit = true → p.stage .s30 = some fun sr =>
        (mkPluginRetCloseConx, ({ ret := .closeConx, blocked := true } : Stage30Answer).apply sr)) := by
    intro p hp
    rcases List.mem_cons.mp hp with rfl | hp
    · exact ⟨by decide, fun h => absurd h (by decide)⟩
    · obtain rfl := List.mem_singleton.mp hp
      exact ⟨by decide, fun _ => rfl⟩
  refine ⟨_, rfl, ?_⟩
  exact (@mkPluginStageRun_core (some (ascii "liana".toList)) refusing _ rfl
    { sampleCtx.sys with stage20 := [], stage30 := [fun _ => { ret := .closeConx, blocked := true }] }
    (fun _ _ => false) (fun _ _ => { ret := .closeConx, blocked := true })
    (fun p hp hbit => absurd hbit (by simp [(hmem p hp).1])) (fun p hp => (hmem p hp).2) rfl rfl {}).2

end Monkey.Plugins
