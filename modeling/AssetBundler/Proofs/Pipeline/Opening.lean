import AssetBundler.Config.File
import AssetBundler.Proofs.Asset.Containment
import AssetBundler.Proofs.Manifest.Reload
import AssetBundler.Proofs.Processor.Reference
import AssetBundler.Proofs.Session.Chain

/-!
# Opening a pipeline

What is wrong with a configuration, a processor entry or a manifest is reported. A pipeline still cannot
be opened if a file of the project cannot be read, or if code outside the pipeline raises something: the
package that reads the configuration, or a module that an entry names. Main statements: the failures of
opening (`Site.failsOnly_openPipeline`) and the pipelines that it makes (`Site.opened_of_openPipeline`).
-/

namespace AssetBundler

open AssetBundler.Action

namespace Config

/-- The processor entries that a configuration adds. -/
def entries (c : Config) : List Value := (c.postprocessors ++ c.compressors).flatMap Prod.snd

theorem failsOnly_fieldsOf (key expected : String) (v : Value) :
    FailsOnly (·.isReported = true) (fieldsOf key expected v) := by
  unfold fieldsOf
  split
  · exact .ok _
  · split
    · exact .error rfl
    · exact .ok []

theorem failsOnly_processorTable (key : String) (v : Value) :
    FailsOnly (·.isReported = true) (processorTable key v) := by
  unfold processorTable
  split
  · exact .ok _
  · exact .ok _
  · exact .error rfl

theorem failsOnly_ofValue (v : Value) :
    FailsOnly (·.isReported = true) (AssetDir.ofValue v) := by
  unfold AssetDir.ofValue
  split
  · exact .ok _
  · exact .ok _
  · exact .ok _
  · exact .error rfl

/-- Every setting reports what it refuses. -/
theorem failsOnly_of_mem_settings {s : String × (Config → Value → Except Failure Config)}
    (hs : s ∈ settings) (c : Config) (v : Value) : FailsOnly (·.isReported = true) (s.2 c v) := by
  simp only [settings, List.mem_cons, List.not_mem_nil, or_false] at hs
  rcases hs with rfl | rfl | rfl | rfl | rfl | rfl | rfl | rfl | rfl | rfl | rfl
  · exact .ok _
  · exact (failsOnly_fieldsOf _ _ v).bind fun _ ↦ .ok _
  · exact (failsOnly_fieldsOf _ _ v).bind fun _ ↦ .ok _
  · exact (failsOnly_processorTable _ v).bind fun _ ↦ .ok _
  · exact (failsOnly_processorTable _ v).bind fun _ ↦ .ok _
  · exact .ok _
  · exact (failsOnly_ofValue v).bind fun _ ↦ .ok _
  · exact .ok _
  · exact .ok _
  · exact (failsOnly_fieldsOf _ _ v).bind fun _ ↦ .ok _
  · exact .ok _

theorem failsOnly_ofFields (fields : Value.Fields) :
    FailsOnly (·.isReported = true) (ofFields fields) := by
  refine FailsOnly.foldlM (fun c s hs ↦ ?_) default
  unfold setting
  split
  · exact .ok c
  · exact failsOnly_of_mem_settings hs c _

theorem failsOnly_fieldsOfValue (path : Path) (v? : Option Value) :
    FailsOnly (·.isReported = true) (fieldsOfValue path v?) := by
  unfold fieldsOfValue
  split
  · exact .error rfl
  · exact .ok _
  · split
    · exact .error rfl
    · exact .ok _

end Config

/-- A failure that is reported, or is about what cannot be read. -/
def Failure.IsOrdinary (d : Disk) (e : Failure) : Prop := e.isReported = true ∨ e.IsUnreadable d

/-- The failure to read a manifest with an integer that is too long to be converted. -/
def Failure.IsLongInteger (d : Disk) : Failure → Prop
  | .notText p => ∃ text, d.readText p = .ok text ∧ Json.read text = .error .longInteger
  | _ => False

namespace Config

/-- The text of the file is there, and the package that reads it raises something. -/
def Unparsed (packages : Packages) (d : Disk) (root : Path) (e : Failure) : Prop :=
  ∃ text, d.readText (d.resolve (root.join fileName)) = .ok text ∧
    ∃ raised, packages.parseYaml text = .error raised ∧ raised.1 = e

theorem failsOnly_load (packages : Packages) (d : Disk) (root : Path) :
    FailsOnly (fun e ↦ e.IsOrdinary d ∨ Unparsed packages d root e) (load d root packages) := by
  have hisFile := failsOnly_orFail d (Disk.failsOnly_isFile d (d.resolve (root.join fileName)))
  refine (hisFile.mono fun _ ↦ .inl ∘ .inr).bind_of_eq_ok fun isFile hfile ↦ ?_
  cases isFile with
  | false => exact .ok default
  | true =>
    have hread := Disk.failsOnly_readText (Disk.orFail_eq_ok.1 hfile)
    refine (hread.mono fun _ ↦ .inl ∘ .inr).bind_of_eq_ok fun text htext ↦ ?_
    refine FailsOnly.bind (fun e he ↦ .inr ⟨text, htext, orRaise_eq_error.1 he⟩) fun v? ↦ ?_
    exact ((failsOnly_fieldsOfValue _ v?).mono fun _ ↦ .inl ∘ .inl).bind fun fields ↦
      (failsOnly_ofFields fields).mono fun _ ↦ .inl ∘ .inl

end Config

/-- An entry of a configuration is refused, or stopped by code outside the pipeline. -/
theorem Spec.failsOnly_ofEntry {library : Library} (entry : Value) (options : Value.Fields) :
    FailsOnly (fun e ↦ e.isReported = true ∨ (Entry.ofValue entry).Stops library e)
      (ofEntry library entry options) := by
  refine FailsOnly.bind (fun e he ↦ (Entry.coerce_error he).imp_left ?_) fun _ ↦ .ok _
  rintro ⟨fault, rfl⟩
  rfl

namespace Pipeline

variable {library : Library} {r : Registry} {spec : Spec}

theorem mem_of_mem_insert {t : Registry} {contentType : String} {specs : List Spec}
    (h : spec ∈ (t.insert contentType specs).flatMap Prod.snd) :
    spec ∈ specs ∨ spec ∈ t.flatMap Prod.snd := by
  induction t with
  | nil =>
    rw [Table.insert, List.flatMap_singleton] at h
    exact .inl h
  | cons e rest ih =>
    rw [Table.insert] at h
    rw [List.flatMap_cons, List.mem_append]
    split at h
    · rw [List.flatMap_cons, List.mem_append] at h
      exact h.imp_right .inr
    · rw [List.flatMap_cons, List.mem_append] at h
      rcases h with h | h
      · exact .inr (.inl h)
      · exact (ih h).imp_right .inr

theorem mem_of_mem_add {contentType : String} {new : Spec}
    (h : spec ∈ (r.add contentType new).flatMap Prod.snd) : spec ∈ r.flatMap Prod.snd ∨ spec = new := by
  rcases mem_of_mem_insert h with h | h
  · rcases List.mem_append.1 h with h | h
    · left
      cases hget : Table.get? r contentType with
      | none =>
        rw [hget] at h
        cases h
      | some specs =>
        rw [hget] at h
        exact List.mem_flatMap.2 ⟨_, Table.mem_of_get? hget, h⟩
    · exact .inr (List.mem_singleton.1 h)
  · exact .inl h

theorem failsOnly_registerAll (library : Library) (r : Registry) (table : Table String (List Value)) :
    FailsOnly (fun e ↦ e.isReported = true ∨
      ∃ entry ∈ table.flatMap Prod.snd, (Entry.ofValue entry).Stops library e)
      (registerAll library r table) := by
  refine FailsOnly.foldlM (fun r e he ↦ FailsOnly.foldlM (fun r entry hentry ↦ ?_) r) r
  refine ((Spec.failsOnly_ofEntry entry []).mono fun e' ↦ Or.imp_right ?_).bind fun _ ↦ .ok _
  exact fun hstops ↦ ⟨entry, List.mem_flatMap.2 ⟨e, he, hentry⟩, hstops⟩

/-- What is registered was there before or is made of an entry. -/
def IsMadeOf (library : Library) (entries : List Value) (r r' : Registry) : Prop :=
  ∀ spec ∈ r'.flatMap Prod.snd,
    spec ∈ r.flatMap Prod.snd ∨ ∃ entry ∈ entries, Spec.ofEntry library entry [] = .ok spec

theorem isMadeOf_registerAll {table : Table String (List Value)} {r' : Registry}
    (h : registerAll library r table = .ok r') :
    IsMadeOf library (table.flatMap Prod.snd) r r' := by
  refine except_foldlM_preserves (P := IsMadeOf library (table.flatMap Prod.snd) r)
    (fun r₁ r₂ e he hr₁ hfold ↦ ?_) (fun _ ↦ .inl) h
  refine except_foldlM_preserves (P := IsMadeOf library (table.flatMap Prod.snd) r)
    (fun r₁ r₂ entry hentry hr₁ hregister ↦ ?_) hr₁ hfold
  obtain ⟨new, hnew, hr₂⟩ := except_bind_eq_ok.1 hregister
  cases hr₂
  intro spec hspec
  rcases mem_of_mem_add hspec with hspec | rfl
  · exact hr₁ spec hspec
  · exact .inr ⟨entry, List.mem_flatMap.2 ⟨e, he, hentry⟩, hnew⟩

/-- The processors of the pipeline's own. -/
def standardSpecs : List Spec := (standardPreprocessors ++ standardPostprocessors).flatMap Prod.snd

/-- A pipeline as it is assembled, in whichever environment and with whichever manifest. -/
structure IsAssembled (p : Pipeline) : Prop where
  directives : p.directives = .default
  specs : ∀ spec ∈ p.specs,
    spec ∈ standardSpecs ∨ ∃ entry ∈ p.config.entries, Spec.ofEntry p.library entry [] = .ok spec
  root : p.root.IsCanonical
  roots : ∀ root ∈ p.searchPath.roots, root.IsCanonical

variable {here : List String} {root : Path} {config : Config}

theorem failsOnly_assemble : FailsOnly (fun e ↦ e.isReported = true ∨
      ∃ entry ∈ config.entries, (Entry.ofValue entry).Stops library e)
    (assemble library here root config) := by
  have hentries : ∀ e,
      (∃ entry ∈ config.postprocessors.flatMap Prod.snd, (Entry.ofValue entry).Stops library e) ∨
      (∃ entry ∈ config.compressors.flatMap Prod.snd, (Entry.ofValue entry).Stops library e) →
      ∃ entry ∈ config.entries, (Entry.ofValue entry).Stops library e := by
    unfold Config.entries
    rw [List.flatMap_append]
    rintro e (⟨entry, hentry, he⟩ | ⟨entry, hentry, he⟩)
    · exact ⟨entry, List.mem_append_left _ hentry, he⟩
    · exact ⟨entry, List.mem_append_right _ hentry, he⟩
  have hpost := (failsOnly_registerAll library standardPostprocessors config.postprocessors).mono
    fun e ↦ Or.imp_right fun h ↦ hentries e (.inl h)
  have hcompressors := (failsOnly_registerAll library [] config.compressors).mono
    fun e ↦ Or.imp_right fun h ↦ hentries e (.inr h)
  exact hpost.bind fun _ ↦ hcompressors.bind fun _ ↦ .ok _

theorem assembled_of_assemble {p : Pipeline} (hhere : ∀ name ∈ here, Path.IsName name ∧ name ≠ "..")
    (hroot : root.IsProper) (h : assemble library here root config = .ok p) :
    p.IsAssembled ∧ p.config = config ∧ p.library = library := by
  have hroots := isCanonical_of_assemble hhere hroot h
  unfold assemble at h
  obtain ⟨post, hpost, h⟩ := except_bind_eq_ok.1 h
  obtain ⟨compressors, hcompressors, h⟩ := except_bind_eq_ok.1 h
  rw [← Except.ok.inj h] at hroots ⊢
  refine ⟨⟨rfl, fun spec hspec ↦ ?_, Path.isCanonical_resolve hroot hhere, hroots⟩, rfl, rfl⟩
  have hentries : ∀ entry, entry ∈ config.postprocessors.flatMap Prod.snd ∨
      entry ∈ config.compressors.flatMap Prod.snd → entry ∈ config.entries := by
    unfold Config.entries
    rw [List.flatMap_append]
    exact fun _ ↦ List.mem_append.2
  unfold specs at hspec
  unfold standardSpecs
  rw [List.flatMap_append, List.flatMap_append] at hspec
  rw [List.flatMap_append]
  rcases List.mem_append.1 hspec with hspec | hspec
  · rcases List.mem_append.1 hspec with hspec | hspec
    · exact .inl (List.mem_append_left _ hspec)
    · refine (isMadeOf_registerAll hpost spec hspec).imp (List.mem_append_right _) ?_
      rintro ⟨entry, hentry, hmade⟩
      exact ⟨entry, hentries entry (.inl hentry), hmade⟩
  · rcases isMadeOf_registerAll hcompressors spec hspec with hspec | ⟨entry, hentry, hmade⟩
    · cases hspec
    · exact .inr ⟨entry, hentries entry (.inr hentry), hmade⟩

/-- A pipeline as it is opened or has turned to production. -/
structure IsOpened (p : Pipeline) : Prop extends IsAssembled p where
  manifest : p.manifest.path = some p.manifestPath

end Pipeline

namespace Manifest

theorem failsOnly_entriesOf (path : Path) (text : String) :
    FailsOnly (fun e ↦ e.isReported = true ∨
      e = .notText path ∧ Json.read text = .error .longInteger) (entriesOf path text) := by
  unfold entriesOf
  split
  · exact .error (.inl rfl)
  · next hlong => exact .error (.inr ⟨rfl, hlong⟩)
  · exact .ok _
  · exact .error (.inl rfl)

theorem failsOnly_readEntries (d : Disk) (path : Path) :
    FailsOnly (fun e ↦ e.IsOrdinary d ∨ e.IsLongInteger d) (readEntries d path) := by
  have hisFile := failsOnly_orFail d (Disk.failsOnly_isFile d path)
  refine (hisFile.mono fun _ ↦ .inl ∘ .inr).bind_of_eq_ok fun isFile hfile ↦ ?_
  cases isFile with
  | false => exact .ok []
  | true =>
    have hread := Disk.failsOnly_readText (Disk.orFail_eq_ok.1 hfile)
    refine (hread.mono fun _ ↦ .inl ∘ .inr).bind_of_eq_ok fun text htext ↦ ?_
    refine (failsOnly_entriesOf path text).mono fun e he ↦ he.imp .inl ?_
    rintro ⟨rfl, hlong⟩
    exact ⟨text, htext, hlong⟩

end Manifest

namespace Site

theorem load_of_ok {folder : Path} {s : Site} {entries : Table String String}
    (h : Manifest.readEntries s.disk (folder.join Manifest.fileName) = .ok entries) :
    ofManifest (Manifest.load folder) s = .ok () { s with pipeline := { s.pipeline with
      manifest := ⟨some (folder.join Manifest.fileName), entries⟩ } } := by
  unfold ofManifest
  rw [Manifest.load_eq]
  simp only [h]

theorem load_of_error {folder : Path} {s : Site} {e : Failure}
    (h : Manifest.readEntries s.disk (folder.join Manifest.fileName) = .error e) :
    ofManifest (Manifest.load folder) s = .error e { s with pipeline := { s.pipeline with
      manifest := ⟨some (folder.join Manifest.fileName), []⟩ } } := by
  unfold ofManifest
  rw [Manifest.load_eq]
  simp only [h]

/-- Turning to the manifest of a folder changes nothing on the disk. -/
theorem load_cases (folder : Path) (s : Site) :
    (∃ entries, ofManifest (Manifest.load folder) s = .ok () { s with
      pipeline := { s.pipeline with manifest := ⟨some (folder.join Manifest.fileName), entries⟩ } }) ∨
    ∃ e t, ofManifest (Manifest.load folder) s = .error e t ∧ t.disk = s.disk ∧
      (e.IsOrdinary s.disk ∨ e.IsLongInteger s.disk) := by
  rcases hread : Manifest.readEntries s.disk (folder.join Manifest.fileName) with e | entries
  · exact .inr ⟨e, _, load_of_error hread, rfl, Manifest.failsOnly_readEntries _ _ e hread⟩
  · exact .inl ⟨entries, load_of_ok hread⟩

theorem setEnvironment_cases (environment : String) (s : Site) :
    (∃ manifest, manifest.path = some { s.pipeline with environment }.manifestPath ∧
      setEnvironment environment s =
        .ok () { s with pipeline := { s.pipeline with environment, manifest } }) ∨
    ∃ e t, setEnvironment environment s = .error e t ∧ t.disk = s.disk ∧
      (e.IsOrdinary s.disk ∨ e.IsLongInteger s.disk) := by
  rcases load_cases { s.pipeline with environment }.targetPath
    { s with pipeline := { s.pipeline with environment } } with ⟨entries, hload⟩ | hfails
  · exact .inl ⟨⟨some _, entries⟩, rfl, hload⟩
  · exact .inr hfails

variable {library : Library} {disk : Disk} {root : Path} {config : Config} {environment : String}

theorem failsOnly_openPipeline : FailsOnly (fun e ↦ (e.IsOrdinary disk ∨ e.IsLongInteger disk) ∨
      ∃ entry ∈ config.entries, (Entry.ofValue entry).Stops library e)
    (openPipeline library disk root config environment) := by
  unfold openPipeline
  refine (Pipeline.failsOnly_assemble.mono fun e ↦ Or.imp_left (.inl ∘ .inl)).bind fun p ↦ ?_
  rcases setEnvironment_cases environment ⟨disk, p, [], []⟩ with
    ⟨manifest, -, hset⟩ | ⟨e, t, hset, -, he⟩
  · rw [hset]
    exact .ok _
  · rw [hset]
    exact .error (.inl he)

theorem opened_of_openPipeline (hhere : ∀ name ∈ disk.here, Path.IsName name ∧ name ≠ "..")
    (hroot : root.IsProper) {p : Pipeline}
    (h : openPipeline library disk root config environment = .ok p) :
    p.IsOpened ∧ p.config = config ∧ p.library = library := by
  have hmanifest := manifestPath_of_open h
  unfold openPipeline at h
  obtain ⟨assembled, hassemble, h⟩ := except_bind_eq_ok.1 h
  obtain ⟨hassembled, hconfig, hlibrary⟩ := Pipeline.assembled_of_assemble hhere hroot hassemble
  rcases setEnvironment_cases environment ⟨disk, assembled, [], []⟩ with
    ⟨manifest, -, hset⟩ | ⟨e, t, hset, -⟩
  · rw [hset] at h
    cases h
    exact ⟨⟨⟨hassembled.directives, hassembled.specs, hassembled.root, hassembled.roots⟩, hmanifest⟩,
      hconfig, hlibrary⟩
  · rw [hset] at h
    cases h

end Site

end AssetBundler
