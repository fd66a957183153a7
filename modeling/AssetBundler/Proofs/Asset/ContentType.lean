import AssetBundler.Encoding.Percent
import AssetBundler.Proofs.Asset.Body
import AssetBundler.Proofs.Asset.Name
import AssetBundler.Proofs.Manifest.Lookup
import AssetBundler.Proofs.Text.Extension

/-!
# Content types of published names

The type of a name is that of its first extension that has one. A development name swaps that extension
for its target if the name ends in it, and keeps its other extensions; a production name keeps nothing
behind its first dot, and ends in the target. If the extensions are plain and each target has the type of
its source, both have the type of the file (`Asset.contentType_published`).
-/

namespace AssetBundler

open AssetBundler.Action

/-- An extension proper: one dot, at the beginning, and at least one character after it, all in ASCII. A
lone dot is none: what follows a dot at the end of a name is not an extension of it. -/
structure IsExtension (ext : String) : Prop where
  starts : ext.toList.head? = some '.'
  more : ext.toList.drop 1 ≠ []
  single : '.' ∉ ext.toList.drop 1
  ascii : ∀ c ∈ ext.toList, c.toNat < 128

theorem IsExtension.exists_eq {ext : String} (h : IsExtension ext) :
    ∃ x : List Char, ext.toList = '.' :: x ∧ x ≠ [] ∧ '.' ∉ x := by
  have hmore := h.more
  have hsingle := h.single
  obtain ⟨x, hx⟩ := List.head?_eq_some_iff.1 h.starts
  rw [hx, List.drop_one, List.tail_cons] at hmore hsingle
  exact ⟨x, hx, hmore, hsingle⟩

/-- An extension in its normal form is the normal form of what follows its dot. -/
theorem normalizeExtension_rest {ext : String} {x : List Char} (hext : ext.toList = '.' :: x)
    (hdot : '.' ∉ x) (hnormal : normalizeExtension ext = ext) :
    normalizeExtension (String.ofList x) = ext := by
  have hlowered : ∀ c ∈ x, Text.IsLowered c := by
    intro c hc
    have hmem : c ∈ (normalizeExtension ext).toList := by
      rw [hnormal, hext]
      exact List.mem_cons_of_mem _ hc
    rcases normalizeExtension_eq_or ext with heq | heq
    · rw [heq] at hmem
      exact Text.isLowered_of_mem_lower hmem
    · rw [heq, String.toList_append, List.mem_append] at hmem
      refine hmem.elim (fun hhead ↦ ?_) Text.isLowered_of_mem_lower
      rw [List.mem_singleton.1 hhead] at hc
      exact absurd hc hdot
  have hlower : Text.lower (String.ofList x) = String.ofList x := by
    apply Text.lower_of_isLowered
    rwa [String.toList_ofList]
  have hhead : (String.ofList x).toList.head? ≠ some '.' := by
    rw [String.toList_ofList]
    exact fun h ↦ hdot (List.mem_of_head? h)
  unfold normalizeExtension
  rw [hlower, if_neg hhead, ← String.toList_inj, hext]
  simp

namespace Config

theorem isExtension_of_mem_default {ext : String} (h : ext ∈ default.contentTypes.keys) : IsExtension ext := by
  have hmem : ext ∈ [".css", ".less", ".js", ".jpeg", ".jpg", ".png", ".gif", ".svg"] := h
  simp only [List.mem_cons, List.not_mem_nil, or_false] at hmem
  rcases hmem with rfl | rfl | rfl | rfl | rfl | rfl | rfl | rfl
  all_goals exact ⟨by decide, by decide, by decide, by simp⟩

/-- All targets are in lower case and start with a dot. -/
def HasNormalTargets (c : Config) : Prop :=
  ∀ source target, c.targetExtensions.get? source = some target → normalizeExtension target = target

theorem hasNormalTargets_setTargetExtensions {c c' : Config} {v : Value}
    (h : setTargetExtensions c v = .ok c') : c'.HasNormalTargets := by
  obtain ⟨fields, -, h⟩ := except_bind_eq_ok.1 h
  cases h
  intro source target hget
  change (Table.ofEntries (fields.map fun f ↦
    (normalizeExtension f.1.display, normalizeExtension f.2.display))).get? source = some target at hget
  rw [Table.ofEntries, Table.get?_foldl_insert, Table.get?_nil, Option.or_none] at hget
  obtain ⟨f, -, hf⟩ := List.mem_map.1 (Table.exists_of_last? hget)
  rw [← (Prod.mk.inj hf).2]
  exact normalizeExtension_normalizeExtension _

theorem hasNormalTargets_of_mem_settings {s : String × (Config → Value → Except Failure Config)}
    (hs : s ∈ settings) {c c' : Config} {v : Value} (hc : c.HasNormalTargets) (h : s.2 c v = .ok c') :
    c'.HasNormalTargets := by
  simp only [settings, List.mem_cons, List.not_mem_nil, or_false] at hs
  rcases hs with rfl | rfl | rfl | rfl | rfl | rfl | rfl | rfl | rfl | rfl | rfl
  case inr.inr.inl => exact hasNormalTargets_setTargetExtensions h
  all_goals
    first
      | exact Except.ok.inj h ▸ hc
      | obtain ⟨_, -, h⟩ := except_bind_eq_ok.1 h
        exact Except.ok.inj h ▸ hc

theorem hasNormalTargets_of_ofFields {fields : Value.Fields} {c : Config} (h : ofFields fields = .ok c) :
    c.HasNormalTargets := by
  refine except_foldlM_preserves (P := HasNormalTargets) (fun b c s hs hb hset ↦ ?_) ?_ h
  · unfold setting at hset
    split at hset
    · exact Except.ok.inj hset ▸ hb
    · exact hasNormalTargets_of_mem_settings hs hb hset
  · have htable : ∀ e ∈ default.targetExtensions, normalizeExtension e.2 = e.2 := by decide +kernel
    exact fun source target hget ↦ htable (source, target) (Table.mem_of_get? hget)

end Config

namespace Pipeline

variable {p : Pipeline} {ext type : String} {front x : List Char}

/-- The type of the files of that name. -/
def typeOf (p : Pipeline) (name : String) : Option String := p.config.contentTypes.get? (p.formatOf name)

/-- The first extension that has a type. -/
def known? (p : Pipeline) (name : String) : Option String :=
  (extensionsOf name).find? p.config.contentTypes.keys.contains

theorem formatOf_eq (p : Pipeline) (name : String) : p.formatOf name = (p.known? name).getD "" := rfl

/-- An extension that gives names their type. -/
structure Marks (p : Pipeline) (ext type : String) : Prop where
  proper : IsExtension ext
  normal : normalizeExtension ext = ext
  typed : p.config.contentTypes.get? ext = some type

theorem known?_append_of_some {e : String} (hfront : front ≠ []) (hx : x ≠ []) (hdot : '.' ∉ x)
    (h : p.known? (String.ofList front) = some e) : p.known? (String.ofList (front ++ '.' :: x)) = some e := by
  unfold known? at h ⊢
  rw [extensionsOf_append hfront hx hdot, List.find?_append, h, Option.some_or]

/-- Behind extensions without a type, an extension that has one gives the type. -/
theorem typeOf_append (hmarks : p.Marks ext type) (hfront : front ≠ [])
    (h : p.known? (String.ofList front) = none) : p.typeOf (String.ofList front ++ ext) = some type := by
  obtain ⟨x, hext, hx, hdot⟩ := hmarks.proper.exists_eq
  have hname : String.ofList front ++ ext = String.ofList (front ++ '.' :: x) := by
    rw [← String.toList_inj, String.toList_append, String.toList_ofList, String.toList_ofList, hext]
  have hmem : p.config.contentTypes.keys.contains ext = true :=
    List.contains_iff_mem.2 (Table.mem_keys_of_get? hmarks.typed)
  have hlast : [ext].find? p.config.contentTypes.keys.contains = some ext := List.find?_cons_of_pos hmem
  have hknown : p.known? (String.ofList front ++ ext) = some ext := by
    unfold known? at h ⊢
    rw [hname, extensionsOf_append hfront hx hdot, List.find?_append, h, Option.none_or,
      normalizeExtension_rest hext hdot hmarks.normal, hlast]
  rw [typeOf, formatOf_eq, hknown]
  exact hmarks.typed

end Pipeline

namespace Asset

variable {p : Pipeline} {a : Asset} {type : String}

theorem typeOf_outputName (hformat : IsExtension (a.format p))
    (hmarks : p.Marks (a.targetExtension p) type) (htype : a.contentType p = some type) :
    p.typeOf (a.outputName p) = some type := by
  unfold outputName
  by_cases hswap : a.format p ≠ a.targetExtension p ∧ a.endsInFormat p
  swap
  · rw [if_neg hswap]
    exact htype
  rw [if_pos hswap]
  obtain ⟨x, hx, hne, hdot⟩ := hformat.exists_eq
  have hmark : '\u0307' ∉ (a.format p).toList := fun h ↦
    absurd (hformat.ascii _ h) (by decide)
  obtain ⟨ending, ⟨front, hfront⟩, hsame⟩ :=
    Text.exists_suffix_of_lower hmark (List.isSuffixOf_iff_suffix.1 hswap.2)
  have hlength : ending.length = (a.format p).length := by
    rw [hsame.length_eq, String.length_toList]
  have htake : a.basename.toList.take (a.basename.length - (a.format p).length) = front := by
    rw [← String.length_toList, ← hfront, List.length_append, hlength, Nat.add_sub_cancel, List.take_left]
  rw [htake]
  rw [hx] at hsame
  obtain ⟨c, y, hc, hrest, rfl⟩ := List.forall₂_cons_right_iff.1 hsame
  obtain rfl : c = '.' := hc.2 rfl
  have hydot : '.' ∉ y := Text.not_mem_of_sameDot hrest hdot
  have hyne : y ≠ [] := by
    rintro rfl
    exact hne (List.forall₂_nil_left_iff.1 hrest)
  have hname : a.basename = String.ofList (front ++ '.' :: y) := by
    rw [hfront, String.ofList_toList]
  by_cases hempty : front = []
  · -- a dot at the beginning of a name starts no extension
    have hnone : extensionsOf a.basename = [] := by
      apply extensionsOf_of_not_mem
      rwa [hname, hempty, String.toList_ofList]
    have hblank : a.format p = "" := by
      change (p.known? a.basename).getD "" = ""
      rw [Pipeline.known?, hnone]
      rfl
    rw [hblank] at hx
    cases hx
  · cases hfind : p.known? (String.ofList front) with
    | none => exact Pipeline.typeOf_append hmarks hempty hfind
    | some e =>
      obtain ⟨z, hz, hzne, hzdot⟩ := hmarks.proper.exists_eq
      have hold : p.known? a.basename = some e := by
        rw [hname]
        exact Pipeline.known?_append_of_some hempty hyne hydot hfind
      have hnew : p.known? (String.ofList front ++ a.targetExtension p) = some e := by
        have hchars : String.ofList front ++ a.targetExtension p = String.ofList (front ++ '.' :: z) := by
          rw [← String.toList_inj, String.toList_append, String.toList_ofList, String.toList_ofList, hz]
        rw [hchars]
        exact Pipeline.known?_append_of_some hempty hzne hzdot hfind
      have hsame : p.typeOf (String.ofList front ++ a.targetExtension p) = p.typeOf a.basename := by
        rw [Pipeline.typeOf, Pipeline.typeOf, Pipeline.formatOf_eq, Pipeline.formatOf_eq, hold, hnew]
      exact hsame.trans htype

theorem typeOf_hashedTargetName (hmarks : p.Marks (a.targetExtension p) type) {digest : String}
    (hdigest : '.' ∉ digest.toList) : p.typeOf (a.hashedTargetName p digest) = some type := by
  have hstem : p.known? (String.ofList (a.hashedStem digest).toList) = none := by
    rw [String.ofList_toList, Pipeline.known?,
      extensionsOf_of_not_mem (a.not_mem_drop_hashedStem_of_not_mem hdigest)]
    rfl
  have hne : (a.hashedStem digest).toList ≠ [] := by
    rw [ne_eq, String.toList_eq_nil_iff]
    exact a.hashedStem_ne_empty digest
  have htype := Pipeline.typeOf_append hmarks hne hstem
  rwa [String.ofList_toList, ← hashedTargetName_eq] at htype

/-- Forty hexadecimal digits, of either case. -/
def IsHexDigest (digest : String) : Prop :=
  digest.length = 40 ∧ ∀ c ∈ digest.toList, (Percent.digit? c).isSome

/-- What is known of the target of a file with a type. -/
theorem marks_targetExtension (htargets : p.config.HasNormalTargets)
    (hext : ∀ ext ∈ p.config.contentTypes.keys, IsExtension ext)
    (hkept : ∀ source target, p.config.targetExtensions.get? source = some target →
      ∀ type, p.config.contentTypes.get? source = some type →
        p.config.contentTypes.get? target = some type)
    (htype : a.contentType p = some type) : p.Marks (a.targetExtension p) type := by
  have hformat : IsExtension (a.format p) := hext _ (Table.mem_keys_of_get? htype)
  unfold targetExtension
  cases htarget : p.config.targetExtensions.get? (a.format p) with
  | some target =>
    have htyped := hkept _ _ htarget type htype
    exact ⟨hext _ (Table.mem_keys_of_get? htyped), htargets _ _ htarget, htyped⟩
  | none =>
    refine ⟨hformat, ?_, htype⟩
    change normalizeExtension ((p.known? a.basename).getD "") = (p.known? a.basename).getD ""
    cases hknown : p.known? a.basename with
    | some ext => exact normalizeExtension_of_mem_extensionsOf (List.mem_of_find?_eq_some hknown)
    | none =>
      have hblank : a.format p = "" := congrArg (Option.getD · "") hknown
      exact absurd hformat.starts (by rw [hblank]; decide)

/-- In a configuration as it is loaded, with proper extensions and targets of the type of their sources,
a file with a type is published under names of that type, in development and, whatever the digest, in
production. -/
theorem contentType_published {fields : Value.Fields} (hloaded : Config.ofFields fields = .ok p.config)
    (hext : ∀ ext ∈ p.config.contentTypes.keys, IsExtension ext)
    (hkept : ∀ source target, p.config.targetExtensions.get? source = some target →
      ∀ type, p.config.contentTypes.get? source = some type →
        p.config.contentTypes.get? target = some type)
    (htype : a.contentType p = some type) :
    p.typeOf (a.outputName p) = some type ∧
      ∀ digest, IsHexDigest digest → p.typeOf (a.hashedTargetName p digest) = some type := by
  have hmarks := marks_targetExtension (Config.hasNormalTargets_of_ofFields hloaded) hext hkept htype
  refine ⟨typeOf_outputName (hext _ (Table.mem_keys_of_get? htype)) hmarks htype, fun digest hdigest ↦ ?_⟩
  refine typeOf_hashedTargetName hmarks fun hdot ↦ ?_
  exact absurd (hdigest.2 '.' hdot) (by decide)

/-- A hidden stylesheet source with dots and letters of both cases. -/
theorem contentType_published_hidden :
    let config : Config := { Config.default with paths := ["src"] }
    let p := (Site.sample "production" [] []).pipeline
    let a := Asset.ofFile (.absolute ["src", ".Theme..v2.LESS"]) none
    Config.ofFields [(.text "paths", .text "src")] = .ok config ∧ p.config = config ∧
      (∀ ext ∈ p.config.contentTypes.keys, IsExtension ext) ∧
      a.outputName p = ".Theme..v2.css" ∧ p.typeOf (a.outputName p) = some "text/css" ∧
      ∀ digest, IsHexDigest digest → p.typeOf (a.hashedTargetName p digest) = some "text/css" := by
  intro config p a
  have hloaded : Config.ofFields [(.text "paths", .text "src")] = .ok config := rfl
  have hkept : ∀ source target, p.config.targetExtensions.get? source = some target →
      ∀ type, p.config.contentTypes.get? source = some type →
        p.config.contentTypes.get? target = some type := by
    intro source target htarget type htype
    have hmem : (source, target) = (".less", ".css") := List.mem_singleton.1 (Table.mem_of_get? htarget)
    obtain ⟨rfl, rfl⟩ := Prod.mk.inj hmem
    exact htype
  have htype : a.contentType p = some "text/css" := by decide +kernel
  have hext : ∀ ext ∈ p.config.contentTypes.keys, IsExtension ext := fun _ ↦ Config.isExtension_of_mem_default
  exact ⟨hloaded, rfl, hext, by decide +kernel, contentType_published hloaded hext hkept htype⟩

end Asset

end AssetBundler
