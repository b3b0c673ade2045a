import Mathlib.Data.List.GetD
import Monkey.Strings
import Monkey.Lib.Extent

/-!
# Monkey.Dirlisting.Template

`mk_dirhtml_template_create`: the text of a theme file is taken apart into pieces of text
and tags.

A tag is looked for from each `%_` on, and taken to start there wherever it is found in
the next bytes.  Behind a `%_` of no tag the scan goes on one byte further, and what lies
before it is lost.

A template is what has been read, cut at its tags, and a value is put in for a tag later.  Reading
back puts the tags into their places again, so a template is right when its text comes back.
-/

namespace Monkey.Dirlisting

/-! ## tags -/

/-- The two tables of tags. -/
inductive Tags
  | global
  | entry
deriving DecidableEq, Repr

/-- `_tags_global`. -/
def tagsGlobal : List Bytes := [ascii "%_html_title_%".toList, ascii "%_theme_path_%".toList]

/-- `_tags_entry`. -/
def tagsEntry : List Bytes :=
  [ascii "%_target_title_%".toList, ascii "%_target_url_%".toList, ascii "%_target_name_%".toList,
    ascii "%_target_time_%".toList, ascii "%_target_size_%".toList]

def Tags.table : Tags → List Bytes
  | .global => tagsGlobal
  | .entry => tagsEntry

/-- The text of a tag. -/
def tagText (tags : Tags) (tagId : Nat) : Bytes := tags.table.getD tagId []

/-- `MK_DIRHTML_TAG_INIT`. -/
def tagInit : Bytes := ascii "%_".toList

/-- `mk_dirhtml_theme_match_tag`: the first tag of the table that is found from a position
below its own length. -/
def mkDirhtmlThemeMatchTag (content : Bytes) (tpl : List Bytes) : Option Nat :=
  tpl.findIdx? fun tag => 0 ≤ mkStringSearchN content tag tag.length

/-- The global tags, then those of an entry. -/
def matchTag (content : Bytes) : Option (Tags × Nat) :=
  ((mkDirhtmlThemeMatchTag content tagsGlobal).map (Tags.global, ·)).or
    ((mkDirhtmlThemeMatchTag content tagsEntry).map (Tags.entry, ·))

/-! ## templates -/

/-- `struct dirhtml_template`: a piece of text, or a tag that a value is put in for. -/
inductive TemplateNode
  | text (buf : Bytes)
  | tag (tags : Tags) (tagId : Nat)
deriving DecidableEq, Repr

/-- The loop of `mk_dirhtml_template_create` over what is left of the text: the nodes it
adds, and what it leaves. -/
def templateLoop : Nat → Bytes → List TemplateNode × Bytes
  | 0, s => ([], s)
  | fuel + 1, s =>
      let pos := mkStringSearchI s tagInit
      if pos < 0 then ([], s)
      else
        match matchTag (s.drop pos.toNat) with
        | some (tags, tagId) =>
            let (nodes, rest) := templateLoop fuel (s.drop (pos.toNat + (tagText tags tagId).length))
            (.text (s.take pos.toNat) :: .tag tags tagId :: nodes, rest)
        | none => templateLoop fuel (s.drop 1)

/-- `mk_dirhtml_template_create`: the loop, and what it leaves as a last piece. -/
def mkDirhtmlTemplateCreate (content : Bytes) : List TemplateNode :=
  if strlen content = 0 then []
  else
    let (nodes, rest) := templateLoop (strlen content) (cstr content)
    nodes ++ [.text rest]

/-! ## reading a template back -/

/-- The nodes are a text, with each tag in its place up to the case of letters. -/
def ReadsBack : List TemplateNode → Bytes → Prop
  | [], s => s = []
  | .text buf :: nodes, s => ∃ t, s = buf ++ t ∧ ReadsBack nodes t
  | .tag tags tagId :: nodes, s =>
      ∃ u t, s = u ++ t ∧ u.map toupper = (tagText tags tagId).map toupper ∧ ReadsBack nodes t

/-- Each `%_` at which the scan of a text stops starts the tag that is found from it. -/
inductive TagsInPlace : Bytes → Prop
  | done {s : Bytes} (h : mkStringSearchI s tagInit < 0) : TagsInPlace s
  | tag {s : Bytes} {pos : Nat} {tags : Tags} {tagId : Nat} (hpos : mkStringSearchI s tagInit = pos)
      (hmatch : matchTag (s.drop pos) = some (tags, tagId))
      (hstart : (tagText tags tagId).map toupper <+: (s.drop pos).map toupper)
      (hrest : TagsInPlace (s.drop (pos + (tagText tags tagId).length))) : TagsInPlace s

/-! ## searches -/

/-- What is found lies in the text. -/
theorem mkStringSearchLoop_fits {search s : Bytes} {len i p : Nat}
    (h : mkStringSearchLoop .insensitive search len s i = some p) : search.length ≤ s.length := by
  induction s generalizing i with
  | nil =>
      rw [mkStringSearchLoop] at h
      split at h
      · next hnil => simp [hnil]
      · contradiction
  | cons c s ih =>
      rw [mkStringSearchLoop_cons] at h
      split at h
      · next hpre =>
        have hle := (List.isPrefixOf_iff_prefix.mp hpre).length_le
        rwa [List.length_map, List.length_map] at hle
      · split at h
        · contradiction
        · split at h
          · contradiction
          · exact (ih h).trans (Nat.le_succ _)

theorem tag_length_pos : ∀ tag ∈ tagsGlobal ++ tagsEntry, 0 < tag.length := by decide

theorem tag_of_mkDirhtmlThemeMatchTag {content : Bytes} {tpl : List Bytes} {tagId : Nat}
    (hpos : ∀ tag ∈ tpl, 0 < tag.length) (h : mkDirhtmlThemeMatchTag content tpl = some tagId) :
    0 < (tpl.getD tagId []).length ∧ (tpl.getD tagId []).length ≤ content.length := by
  obtain ⟨hlt, hfound, -⟩ := List.findIdx?_eq_some_iff_getElem.mp h
  have hlen := hpos _ (List.getElem_mem hlt)
  rw [List.getD_eq_getElem _ _ hlt]
  refine ⟨hlen, ?_⟩
  rw [decide_eq_true_eq, mkStringSearchN, if_neg (by omega), Int.toNat_natCast] at hfound
  cases hscan : mkStringSearchLoop .insensitive tpl[tagId] tpl[tagId].length content 0 with
  | none => simp [hscan, position] at hfound
  | some p => exact mkStringSearchLoop_fits hscan

/-- A tag that is found lies in the text. -/
theorem matchTag_fits {content : Bytes} {tags : Tags} {tagId : Nat} (h : matchTag content = some (tags, tagId)) :
    0 < (tagText tags tagId).length ∧ (tagText tags tagId).length ≤ content.length := by
  have hpos := tag_length_pos
  unfold matchTag at h
  rcases Option.or_eq_some_iff.mp h with h | ⟨-, h⟩
  all_goals
    obtain ⟨i, hi, heq⟩ := Option.map_eq_some_iff.mp h
    obtain ⟨rfl, rfl⟩ := Prod.mk.inj heq
  · exact tag_of_mkDirhtmlThemeMatchTag (fun tag ht => hpos tag (List.mem_append_left _ ht)) hi
  · exact tag_of_mkDirhtmlThemeMatchTag (fun tag ht => hpos tag (List.mem_append_right _ ht)) hi

/-- A `%_` that is found lies in the text. -/
theorem mark_lt {s : Bytes} (h : ¬ mkStringSearchI s tagInit < 0) :
    (mkStringSearchI s tagInit).toNat < s.length := by
  unfold mkStringSearchI at h ⊢
  cases hfound : strcasestr s tagInit with
  | none => simp [hfound, position] at h
  | some p =>
      have hpre := (findSub_sound hfound).length_le
      have hcstr := cstr_length_le s
      have hinit : (tagInit.map toupper).length = 2 := rfl
      rw [hinit, List.length_drop, List.length_map] at hpre
      show p < s.length
      omega

/-! ## the length of a template -/

/-- The bytes that a node stands for. -/
def TemplateNode.size : TemplateNode → Nat
  | .text buf => buf.length
  | .tag tags tagId => (tagText tags tagId).length

theorem ReadsBack.length {nodes : List TemplateNode} {s : Bytes} (h : ReadsBack nodes s) :
    s.length = (nodes.map TemplateNode.size).sum := by
  induction nodes generalizing s with
  | nil => exact congrArg List.length h
  | cons node nodes ih =>
      rw [List.map_cons, List.sum_cons]
      cases node with
      | text buf =>
          obtain ⟨t, rfl, ht⟩ := h
          rw [List.length_append, ih ht]
          rfl
      | tag tags tagId =>
          obtain ⟨u, t, rfl, hu, ht⟩ := h
          have hlen := congrArg List.length hu
          rw [List.length_map, List.length_map] at hlen
          rw [List.length_append, ih ht, hlen]
          rfl

/-- The nodes and the rest are no longer than the text. -/
theorem templateLoop_length (fuel : Nat) (s : Bytes) :
    ((templateLoop fuel s).1.map TemplateNode.size).sum + (templateLoop fuel s).2.length ≤ s.length := by
  induction fuel generalizing s with
  | zero => simp [templateLoop]
  | succ fuel ih =>
      unfold templateLoop
      dsimp only
      split
      · simp
      · next hmark =>
        have hlt := mark_lt hmark
        cases hmatch : matchTag (s.drop (mkStringSearchI s tagInit).toNat) with
        | none =>
            have := ih (s.drop 1)
            rw [List.length_drop] at this
            exact this.trans (Nat.sub_le _ _)
        | some found =>
            obtain ⟨tags, tagId⟩ := found
            obtain ⟨-, hfits⟩ := matchTag_fits hmatch
            have := ih (s.drop ((mkStringSearchI s tagInit).toNat + (tagText tags tagId).length))
            rw [List.length_drop] at this hfits
            simp only [List.map_cons, List.sum_cons, TemplateNode.size, List.length_take]
            omega

/-! ## the reconstruction -/

theorem readsBack_text {buf : Bytes} {nodes : List TemplateNode} {s : Bytes} :
    ReadsBack (.text buf :: nodes) (buf ++ s) ↔ ReadsBack nodes s := by
  constructor
  · rintro ⟨t, heq, ht⟩
    rwa [List.append_cancel_left heq]
  · exact fun h => ⟨s, rfl, h⟩

/-- A tag is read where it starts. -/
theorem readsBack_tag {tags : Tags} {tagId : Nat} {nodes : List TemplateNode} {s : Bytes} :
    ReadsBack (.tag tags tagId :: nodes) s ↔
      (tagText tags tagId).map toupper <+: s.map toupper ∧ ReadsBack nodes (s.drop (tagText tags tagId).length) := by
  constructor
  · rintro ⟨u, t, rfl, hu, ht⟩
    have hlen := congrArg List.length hu
    rw [List.length_map, List.length_map] at hlen
    rw [← hu, List.map_append, ← hlen, List.drop_left]
    exact ⟨List.prefix_append _ _, ht⟩
  · rintro ⟨hstart, ht⟩
    refine ⟨s.take (tagText tags tagId).length, s.drop (tagText tags tagId).length,
      (List.take_append_drop ..).symm, ?_, ht⟩
    rw [List.map_take]
    have htake := List.prefix_iff_eq_take.mp hstart
    rw [List.length_map] at htake
    exact htake.symm

/-- **The scan** keeps every byte exactly where each `%_` starts its tag. -/
theorem templateLoop_readsBack_iff {fuel : Nat} {s : Bytes} (hfuel : s.length ≤ fuel) :
    ReadsBack ((templateLoop fuel s).1 ++ [.text (templateLoop fuel s).2]) s ↔ TagsInPlace s := by
  induction fuel generalizing s with
  | zero =>
      obtain rfl : s = [] := List.eq_nil_of_length_eq_zero (Nat.le_zero.mp hfuel)
      exact iff_of_true ⟨[], rfl, rfl⟩ (.done (by decide))
  | succ fuel ih =>
      by_cases hmark : mkStringSearchI s tagInit < 0
      · rw [templateLoop]
        simp only [if_pos hmark, List.nil_append]
        exact iff_of_true ⟨[], (List.append_nil s).symm, rfl⟩ (.done hmark)
      · have hlt := mark_lt hmark
        obtain ⟨pos, hpos⟩ : ∃ pos : Nat, mkStringSearchI s tagInit = pos := ⟨_, (Int.toNat_of_nonneg (not_lt.mp hmark)).symm⟩
        rw [templateLoop]
        simp only [if_neg hmark]
        rw [hpos, Int.toNat_natCast] at hlt ⊢
        cases hmatch : matchTag (s.drop pos) with
        | none =>
            -- the byte that is skipped is missing
            refine iff_of_false (fun hread => ?_) ?_
            · have hlen := hread.length
              have hle := templateLoop_length fuel (s.drop 1)
              rw [List.length_drop] at hle
              simp only [List.map_append, List.sum_append, List.map_cons, List.map_nil, List.sum_cons, List.sum_nil,
                TemplateNode.size] at hlen
              omega
            · rintro (h | ⟨hpos', hmatch', -, -⟩)
              · exact hmark h
              · rw [hpos] at hpos'
                obtain rfl := Int.ofNat.inj hpos'
                rw [hmatch] at hmatch'
                contradiction
        | some found =>
            obtain ⟨tags, tagId⟩ := found
            have hpositive := (matchTag_fits hmatch).1
            have hnext := @ih (s.drop (pos + (tagText tags tagId).length)) (by rw [List.length_drop]; omega)
            simp only [List.cons_append]
            have htext : ∀ nodes, ReadsBack (.text (s.take pos) :: nodes) s ↔ ReadsBack nodes (s.drop pos) := by
              intro nodes
              have hread := @readsBack_text (s.take pos) nodes (s.drop pos)
              rwa [List.take_append_drop] at hread
            rw [htext, readsBack_tag, List.drop_drop, hnext]
            constructor
            · rintro ⟨hstart, hrest⟩
              exact .tag hpos hmatch hstart hrest
            · rintro (h | ⟨hpos', hmatch', hstart, hrest⟩)
              · exact absurd h hmark
              · rw [hpos] at hpos'
                obtain rfl := Int.ofNat.inj hpos'
                rw [hmatch] at hmatch'
                obtain ⟨rfl, rfl⟩ := Prod.mk.inj (Option.some.inj hmatch')
                exact ⟨hstart, hrest⟩

/-- A template is no longer than the text of its file up to a NUL. -/
theorem mkDirhtmlTemplateCreate_length (content : Bytes) :
    ((mkDirhtmlTemplateCreate content).map TemplateNode.size).sum ≤ strlen content := by
  unfold mkDirhtmlTemplateCreate
  split
  · exact Nat.zero_le _
  · have hle := templateLoop_length (strlen content) (cstr content)
    simp only [List.map_append, List.sum_append, List.map_cons, List.map_nil, List.sum_cons, List.sum_nil,
      TemplateNode.size]
    exact hle

/-- **Reconstruction.**  A template gives back the content of its theme file, up to the case of
letters in tags, exactly when the file has no NUL and each `%_` where the scan stops starts
the tag that is found from it. -/
theorem template_readsBack_iff (content : Bytes) :
    ReadsBack (mkDirhtmlTemplateCreate content) content ↔ 0 ∉ content ∧ TagsInPlace content := by
  by_cases h0 : 0 ∈ content
  · refine iff_of_false (fun hread => ?_) fun h => h.1 h0
    have hlen := hread.length
    have hle := mkDirhtmlTemplateCreate_length content
    obtain ⟨u, w, rfl, hu⟩ := List.eq_append_cons_of_mem h0
    rw [strlen, cstr_append_nul, cstr_eq_self hu] at hle
    rw [List.length_append, List.length_cons] at hlen
    omega
  · have hcstr : cstr content = content := cstr_eq_self h0
    rw [and_iff_right h0]
    unfold mkDirhtmlTemplateCreate
    rw [strlen, hcstr]
    by_cases hnil : content = []
    · subst hnil
      exact iff_of_true rfl (.done (by decide))
    · rw [if_neg (by simpa using hnil)]
      exact templateLoop_readsBack_iff le_rfl

/-- Before a `%_` of no tag a byte is lost. -/
theorem template_lost_byte : ¬ ∀ content, ReadsBack (mkDirhtmlTemplateCreate content) content := by
  intro h
  have hnodes : mkDirhtmlTemplateCreate (ascii "5%_b".toList) = [.text (ascii "_b".toList)] := by decide +kernel
  have hread := h (ascii "5%_b".toList)
  rw [hnodes] at hread
  have hlen := hread.length
  exact absurd hlen (by decide)

end Monkey.Dirlisting
