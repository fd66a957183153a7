import AssetBundler.Asset.Content
import AssetBundler.Proofs.Path.Resolution
import Mathlib.Data.List.TakeWhile

/-!
# Published names

A fingerprinted name is a stem, a hyphen, a digest and the target extension, below the folder of the
logical path. With a plain extension the stem and the digest are all that stands before the first dot,
so the digest can be read off the name (`digestIn_hashedTargetName`); and such a name is never the name
of a temporary file beside another one, nor that of the manifest.
-/

namespace AssetBundler

/-- An extension in the proper sense: nothing, or a dot and what follows it in one name, which is not
the extension of temporary files. -/
structure IsPlainExtension (ext : String) : Prop where
  starts : ext = "" ∨ ext.toList.head? = some '.'
  no_slash : '/' ∉ ext.toList
  not_temporary : ¬ ".tmp".toList <:+ ext.toList

instance (ext : String) : Decidable (IsPlainExtension ext) :=
  decidable_of_iff ((ext = "" ∨ ext.toList.head? = some '.') ∧ '/' ∉ ext.toList ∧
      ¬ ".tmp".toList <:+ ext.toList)
    ⟨fun h ↦ ⟨h.1, h.2.1, h.2.2⟩, fun h ↦ ⟨h.starts, h.no_slash, h.not_temporary⟩⟩

/-- All files are published with plain extensions. -/
def Pipeline.HasPlainTargets (p : Pipeline) : Prop :=
  ∀ a : Asset, IsPlainExtension (a.targetExtension p)

theorem formatExtension_mem (known : List String) (name : String) :
    formatExtension known name ∈ "" :: known := by
  unfold formatExtension
  cases hfound : (extensionsOf name).find? known.contains with
  | none => exact List.mem_cons_self ..
  | some e =>
    have hmem := List.find?_some hfound
    exact List.mem_cons_of_mem _ (List.contains_iff_mem.1 hmem)

/-- It is enough to look at the extensions that have a content type, and at no extension. -/
theorem Pipeline.hasPlainTargets_of_all {p : Pipeline}
    (h : ∀ e ∈ "" :: p.config.contentTypes.keys,
      IsPlainExtension ((p.config.targetExtensions.get? e).getD e)) : p.HasPlainTargets :=
  fun a ↦ h _ (formatExtension_mem p.config.contentTypes.keys a.path.name)

/-- What stands before the first dot after the beginning, up to the last forty characters, is the stem
of a published name; these are its digest. -/
def digestIn (name : String) : String :=
  String.ofList ((stemOf name).toList.drop ((stemOf name).length - 40))

/-- Forty lower-case hexadecimal digits. -/
structure IsDigest (digest : String) : Prop where
  length : digest.length = 40
  digits : ∀ c ∈ digest.toList, c ∈ "0123456789abcdef".toList

theorem hexDigit_mem {n : Nat} (h : n < 16) : Sha1.hexDigit n ∈ "0123456789abcdef".toList := by
  have hall : ∀ i : Fin 16, Sha1.hexDigit i ∈ "0123456789abcdef".toList := by decide
  exact hall ⟨n, h⟩

theorem isDigest_hex (bytes : ByteArray) : IsDigest (Sha1.hex bytes) where
  length := Sha1.length_hex bytes
  digits c hc := by
    unfold Sha1.hex at hc
    rw [String.toList_ofList] at hc
    obtain ⟨w, -, hc⟩ := List.mem_flatMap.1 hc
    obtain ⟨i, -, rfl⟩ := List.mem_map.1 hc
    exact hexDigit_mem (Nat.mod_lt _ (by decide))

theorem IsDigest.not_mem {digest : String} (h : IsDigest digest) :
    '.' ∉ digest.toList ∧ '/' ∉ digest.toList :=
  ⟨fun hmem ↦ absurd (h.digits _ hmem) (by decide), fun hmem ↦ absurd (h.digits _ hmem) (by decide)⟩

theorem not_mem_digestOf (text : String) :
    '.' ∉ (Asset.digestOf text).toList ∧ '/' ∉ (Asset.digestOf text).toList :=
  (isDigest_hex text.toUTF8).not_mem

theorem length_digestOf (text : String) : (Asset.digestOf text).length = 40 :=
  Sha1.length_hex text.toUTF8

theorem toList_stemOf (name : String) :
    (stemOf name).toList = name.toList.take 1 ++ (name.toList.drop 1).takeWhile (· ≠ '.') := by
  unfold stemOf
  cases name.toList with
  | nil => rfl
  | cons c cs => simp

/-- Only the first character of a stem can be a dot. -/
theorem not_mem_drop_stemOf (name : String) : '.' ∉ (stemOf name).toList.drop 1 := by
  unfold stemOf
  cases name.toList with
  | nil => simp
  | cons c cs =>
    rw [String.toList_ofList, List.drop_one, List.tail_cons]
    intro h
    have hne := List.mem_takeWhile_imp h
    simp at hne

theorem mem_of_mem_stemOf {name : String} {c : Char} (h : c ∈ (stemOf name).toList) :
    c ∈ name.toList := by
  rw [toList_stemOf] at h
  rcases List.mem_append.1 h with h | h
  · exact List.mem_of_mem_take h
  · exact List.mem_of_mem_drop ((List.takeWhile_sublist _).subset h)

theorem takeWhile_append_of_head {cs ext : List Char} (h : '.' ∉ cs)
    (hext : ext = [] ∨ ext.head? = some '.') : (cs ++ ext).takeWhile (· ≠ '.') = cs := by
  rw [List.takeWhile_append_of_pos]
  · rcases hext with rfl | hext
    · simp
    · obtain ⟨rest, rfl⟩ := List.head?_eq_some_iff.1 hext
      simp
  · intro c hc
    simp only [ne_eq, decide_eq_true_eq]
    rintro rfl
    exact h hc

/-- A stem followed by a plain extension is found again. -/
theorem stemOf_append {head ext : String} (hne : head ≠ "") (hdot : '.' ∉ head.toList.drop 1)
    (hext : ext = "" ∨ ext.toList.head? = some '.') : stemOf (head ++ ext) = head := by
  rw [← String.toList_inj, toList_stemOf, String.toList_append]
  cases hhead : head.toList with
  | nil => exact absurd (String.toList_eq_nil_iff.1 hhead) hne
  | cons c cs =>
    rw [hhead] at hdot
    have hext' : ext.toList = [] ∨ ext.toList.head? = some '.' := by
      rcases hext with rfl | hext
      · exact .inl rfl
      · exact .inr hext
    simpa using takeWhile_append_of_head hdot hext'

namespace Asset

variable {p : Pipeline} {a : Asset}

/-- The part of a hashed name before the extension. -/
def hashedStem (a : Asset) (digest : String) : String := a.stem ++ "-" ++ digest

theorem hashedTargetName_eq (p : Pipeline) (a : Asset) (digest : String) :
    a.hashedTargetName p digest = a.hashedStem digest ++ a.targetExtension p := rfl

theorem hashedStem_ne_empty (a : Asset) (digest : String) : a.hashedStem digest ≠ "" := by
  intro h
  have hlist := congrArg String.toList h
  simp [hashedStem] at hlist

theorem not_mem_drop_hashedStem_of_not_mem (a : Asset) {digest : String} (hdigest : '.' ∉ digest.toList) :
    '.' ∉ (a.hashedStem digest).toList.drop 1 := by
  have hstem : '.' ∉ a.stem.toList.drop 1 := not_mem_drop_stemOf a.path.name
  unfold hashedStem
  rw [String.toList_append, String.toList_append]
  cases hs : a.stem.toList with
  | nil => simpa using hdigest
  | cons c cs =>
    rw [hs] at hstem
    have hhyphen : '.' ∉ "-".toList := by decide
    simp only [List.cons_append, List.drop_one, List.tail_cons, List.mem_append, not_or] at hstem ⊢
    exact ⟨⟨hstem, hhyphen⟩, hdigest⟩

theorem not_mem_drop_hashedStem (a : Asset) (text : String) :
    '.' ∉ (a.hashedStem (digestOf text)).toList.drop 1 :=
  a.not_mem_drop_hashedStem_of_not_mem (not_mem_digestOf text).1

theorem stemOf_hashedTargetName (hp : p.HasPlainTargets) (a : Asset) (text : String) :
    stemOf (a.hashedTargetName p (digestOf text)) = a.hashedStem (digestOf text) := by
  rw [hashedTargetName_eq]
  exact stemOf_append (a.hashedStem_ne_empty _) (a.not_mem_drop_hashedStem text) (hp a).starts

theorem digestIn_hashedTargetName (hp : p.HasPlainTargets) (a : Asset) (text : String) :
    digestIn (a.hashedTargetName p (digestOf text)) = digestOf text := by
  have hlength : (a.hashedStem (digestOf text)).length - 40 = (a.stem ++ "-").toList.length := by
    unfold hashedStem
    rw [String.length_append, length_digestOf, Nat.add_sub_cancel, String.length_toList]
  have hlist : (a.hashedStem (digestOf text)).toList =
      (a.stem ++ "-").toList ++ (digestOf text).toList := String.toList_append
  calc
    digestIn (a.hashedTargetName p (digestOf text))
      = String.ofList ((a.hashedStem (digestOf text)).toList.drop
          ((a.hashedStem (digestOf text)).length - 40)) := by
        rw [digestIn, stemOf_hashedTargetName hp]
    _ = String.ofList (((a.stem ++ "-").toList ++ (digestOf text).toList).drop
          (a.stem ++ "-").toList.length) := by
        rw [hlength, hlist]
    _ = digestOf text := by rw [List.drop_left, String.ofList_toList]

/-- A hashed name is not that of the temporary file beside another one. -/
theorem hashedTargetName_ne_temporary (hp : p.HasPlainTargets) (a b : Asset) (text other : String) :
    a.hashedTargetName p (digestOf text) ≠ b.hashedTargetName p (digestOf other) ++ ".tmp" := by
  intro heq
  have htmp : b.targetExtension p ++ ".tmp" = "" ∨
      (b.targetExtension p ++ ".tmp").toList.head? = some '.' := by
    right
    rw [String.toList_append]
    rcases (hp b).starts with h | h
    · rw [h]
      decide
    · rw [List.head?_append, h]
      rfl
  have hstem := congrArg stemOf heq
  rw [stemOf_hashedTargetName hp, hashedTargetName_eq, String.append_assoc,
    stemOf_append (b.hashedStem_ne_empty _) (b.not_mem_drop_hashedStem other) htmp] at hstem
  rw [hashedTargetName_eq, hashedTargetName_eq, String.append_assoc, hstem, String.append_right_inj]
    at heq
  apply (hp a).not_temporary
  rw [heq, String.toList_append]
  exact List.suffix_append ..

theorem length_hashedTargetName (p : Pipeline) (a : Asset) (text : String) :
    41 ≤ (a.hashedTargetName p (digestOf text)).length := by
  have hlen := length_digestOf text
  have hhyphen : "-".length = 1 := by decide
  rw [hashedTargetName_eq, hashedStem, String.length_append, String.length_append,
    String.length_append, hlen, hhyphen]
  omega

theorem hashedTargetName_ne {s : String} (hs : s.length < 41) (p : Pipeline) (a : Asset)
    (text : String) : a.hashedTargetName p (digestOf text) ≠ s := by
  intro heq
  have hlen := length_hashedTargetName p a text
  rw [heq] at hlen
  omega

theorem isName_hashedTargetName_of_no_slash (hext : '/' ∉ (a.targetExtension p).toList)
    (ha : '/' ∉ a.path.name.toList) (text : String) :
    Path.IsName (a.hashedTargetName p (digestOf text)) where
  ne_empty := hashedTargetName_ne (by decide) p a text
  ne_dot := hashedTargetName_ne (by decide) p a text
  no_slash := by
    have hstem : '/' ∉ a.stem.toList := fun h ↦ ha (mem_of_mem_stemOf h)
    have hhyphen : '/' ∉ "-".toList := by decide
    have hdigest := (not_mem_digestOf text).2
    rw [hashedTargetName_eq, hashedStem, String.toList_append, String.toList_append,
      String.toList_append]
    simp only [List.mem_append, not_or]
    exact ⟨⟨⟨hstem, hhyphen⟩, hdigest⟩, hext⟩

/-- The names of the folder of the logical path, none if there is no such folder. -/
def folderNames (a : Asset) : List String := (a.logicalFolder.map Path.namesOf).getD []

/-- A relative path does not start with a slash when its separators are written as such. -/
theorem head_toSlashes {s : String} (h : isAbsolute s = false) :
    (toSlashes s).toList.head? ≠ some '/' := by
  unfold toSlashes Text.replaceChar
  rw [String.toList_ofList, List.head?_map]
  unfold isAbsolute at h
  rcases hs : s.toList with _ | ⟨c, _ | ⟨d, _ | ⟨e, cs⟩⟩⟩
  · simp
  all_goals
    have hsep : isSeparator c = false := by
      rw [hs] at h
      simp only [Bool.or_eq_false_iff] at h
      first
        | exact h
        | exact h.1
    simp only [isSeparator, Bool.or_eq_false_iff, beq_eq_false_iff_ne] at hsep
    simp [hsep.1, hsep.2]

theorem head_of_logicalFolder {folder : String} (h : a.logicalFolder = some folder) :
    ∃ c, folder.toList.head? = some c ∧ c ≠ '/' := by
  unfold logicalFolder at h
  cases hlogical : a.logical with
  | none => simp [hlogical] at h
  | some logical =>
    by_cases hrelative : logical = "" ∨ isAbsolute logical
    · simp [hlogical, hrelative] at h
    · simp only [hlogical, hrelative, if_false, Option.ite_none_left_eq_some, Option.some.injEq] at h
      obtain ⟨hdot, rfl⟩ := h
      simp only [not_or, Bool.not_eq_true] at hrelative
      exact Path.exists_head_parent_text (head_toSlashes hrelative.2) hdot

/-- A published name leads to a name in the folder of the logical path below the target. -/
theorem join_digestName_of_no_slash (hext : '/' ∉ (a.targetExtension p).toList)
    (ha : '/' ∉ a.path.name.toList) (target : Path) (text : String) :
    target.join (a.digestName p (digestOf text)) =
      ⟨target.anchor, target.names ++ (a.folderNames ++ [a.hashedTargetName p (digestOf text)])⟩ := by
  have hleaf := isName_hashedTargetName_of_no_slash hext ha text
  unfold digestName folderNames
  cases hfolder : a.logicalFolder with
  | none => exact Path.join_of_isName hleaf
  | some folder =>
    have hhead : (folder ++ "/" ++ a.hashedTargetName p (digestOf text)).toList.head? ≠ some '/' := by
      obtain ⟨c, hc, hslash⟩ := head_of_logicalFolder hfolder
      simpa [List.head?_append, hc] using hslash
    rw [Path.join_of_head hhead, Path.namesOf_append_slash, Path.namesOf_of_isName hleaf]
    rfl

theorem join_digestName (hp : p.HasPlainTargets) (ha : '/' ∉ a.path.name.toList) (target : Path)
    (text : String) : target.join (a.digestName p (digestOf text)) =
      ⟨target.anchor, target.names ++ (a.folderNames ++ [a.hashedTargetName p (digestOf text)])⟩ :=
  join_digestName_of_no_slash (hp a).no_slash ha target text

end Asset

end AssetBundler
