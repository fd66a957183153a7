import AssetBundler.Proofs.Asset.Address
import AssetBundler.Proofs.Asset.Outcome
import AssetBundler.Proofs.Asset.Stored

/-!
# Where published files lie

Publishing an asset touches its file, the file of the manifest and the temporary files beside the two.
In development the file lies in the target folder itself; in production it lies in the folder of the
logical path as seen from the target, so it stays below the target exactly if that folder does. Double
dots of the logical path are kept in the URL. Main statement: `Asset.containment_exact`.
-/

namespace AssetBundler

open AssetBundler.Action

namespace Path

/-- One place lies below another one. -/
def IsBelow (top place : List String) : Prop := top <+: place ∧ top ≠ place

instance (top place : List String) : Decidable (IsBelow top place) :=
  inferInstanceAs (Decidable (_ ∧ _))

theorem isBelow_concat {top above : List String} {name : String} :
    IsBelow top (above ++ [name]) ↔ top <+: above := by
  unfold IsBelow
  rw [List.prefix_concat_iff]
  constructor
  · rintro ⟨heq | hle, hne⟩
    · exact absurd heq hne
    · exact hle
  · refine fun hle ↦ ⟨.inr hle, fun heq ↦ ?_⟩
    have hlength := hle.length_le
    rw [heq, List.length_append, List.length_singleton] at hlength
    omega

theorem namesOf_of_no_slash {s : String} (h : '/' ∉ s.toList) :
    namesOf s = if s = "" ∨ s = "." then [] else [s] := by
  by_cases hname : s = "" ∨ s = "."
  · rw [if_pos hname]
    rcases hname with rfl | rfl <;> decide
  · rw [not_or] at hname
    rw [if_neg (not_or.2 hname), namesOf_of_isName ⟨hname.1, hname.2, h⟩]

theorem head_of_no_slash {s : String} (h : '/' ∉ s.toList) : s.toList.head? ≠ some '/' :=
  fun hhead ↦ h (List.mem_of_mem_head? hhead)

end Path

/-- A path to a file does not end in a double dot. -/
theorem Disk.getLast?_ne_up_of_readBytes {d : Disk} {p : Path} {bytes : ByteArray}
    (h : d.readBytes p = .ok bytes) : p.names.getLast? ≠ some ".." := by
  obtain ⟨place, hlocate, hkind⟩ := readBytes_eq_ok.1 h
  exact getLast?_ne_up_of_locate hlocate (by simp [hkind])

/-- The temporary file lies where its target does. -/
theorem Disk.isBelow_temporary {p : Path} {name : String} (hlast : p.names.getLast? = some name)
    (hup : name ≠ "..") (top here : List String) :
    Path.IsBelow top ((temporary p).place here) ↔ Path.IsBelow top (p.place here) := by
  rw [place_eq_append hlast hup, place_eq_append (getLast?_temporary p) (temporaryName_ne_up p),
    parent_temporary, Path.isBelow_concat, Path.isBelow_concat]

theorem Pipeline.place_manifestPath (p : Pipeline) (here : List String) :
    p.manifestPath.place here = p.targetPath.place here ++ [".manifest.json"] := by
  have hparent : p.manifestPath.parent = p.targetPath := by
    have hname : Path.IsName Manifest.fileName := ⟨by decide, by decide, by decide⟩
    unfold manifestPath
    rw [Path.join_of_isName hname]
    unfold Path.parent
    rw [List.dropLast_concat]
  have hlast : p.manifestPath.names.getLast? = some ".manifest.json" := by
    rw [p.names_manifestPath, List.getLast?_concat]
  rw [Disk.place_eq_append hlast (by decide), hparent]

/-- The place of the target folder. -/
def Site.targetPlace (s : Site) : List String := s.pipeline.targetPath.place s.disk.here

/-- A new pipeline keeps its manifest below its target folder. -/
theorem Site.manifestPath_of_open {library : Library} {disk : Disk} {root : Path} {config : Config}
    {environment : String} {p : Pipeline}
    (h : openPipeline library disk root config environment = .ok p) :
    p.manifest.path = some p.manifestPath := by
  unfold openPipeline at h
  obtain ⟨assembled, -, h⟩ := except_bind_eq_ok.1 h
  rcases hset : setEnvironment environment ⟨disk, assembled, [], []⟩ with ⟨_, s⟩ | ⟨e, s⟩
  · rw [hset] at h
    cases h
    unfold setEnvironment at hset
    rw [bind_of_ok (modify_apply _ _), bind_of_ok (get_apply _)] at hset
    unfold ofManifest at hset
    have hpath := Manifest.path_load { assembled with environment }.targetPath
      ⟨disk, assembled.manifest⟩
    rcases hload : Manifest.load { assembled with environment }.targetPath
      ⟨disk, assembled.manifest⟩ with ⟨_, store⟩ | ⟨e, store⟩
    · rw [hload] at hset hpath
      cases hset
      exact hpath
    · rw [hload] at hset
      cases hset
  · rw [hset] at h
    cases h

namespace Asset

/-- The name of the file that a publication makes is a name in the folder of the target, as far as the
environment, the asset and the target folder tell. -/
def Stays (p : Pipeline) (target : List String) (a : Asset) : Prop :=
  if p.inProduction then target <+: Path.follow target a.folderNames
  else a.outputName p ≠ "" ∧ a.outputName p ≠ "." ∧ a.outputName p ≠ ".."

instance (p : Pipeline) (target : List String) (a : Asset) : Decidable (a.Stays p target) := by
  unfold Stays
  infer_instance

/-- What publishing an asset may touch. -/
def touchedFiles (s : State) (text : String) : List Path :=
  [Disk.temporary (filePath s text), filePath s text,
    Disk.temporary s.site.pipeline.manifestPath, s.site.pipeline.manifestPath]

variable {s : State}

section Names

variable {p : Pipeline} {a : Asset}

theorem no_slash_outputName (ha : '/' ∉ a.path.name.toList)
    (hext : '/' ∉ (a.targetExtension p).toList) : '/' ∉ (a.outputName p).toList := by
  have hbasename : '/' ∉ a.basename.toList := ha
  unfold outputName
  by_cases hswap : a.format p ≠ a.targetExtension p ∧ a.endsInFormat p
  · rw [if_pos hswap, String.toList_append, String.toList_ofList, List.mem_append, not_or]
    exact ⟨fun h ↦ hbasename (List.mem_of_mem_take h), hext⟩
  · rw [if_neg hswap]
    exact hbasename

end Names

section File

variable (ha : '/' ∉ s.asset.path.name.toList)
  (hext : '/' ∉ (s.asset.targetExtension s.site.pipeline).toList)

include ha hext

theorem place_filePath_of_production (hprod : s.site.pipeline.inProduction = true) (text : String)
    (here : List String) : (filePath s text).place here =
      Path.follow (s.site.pipeline.targetPath.place here) s.asset.folderNames ++
        [s.asset.hashedTargetName s.site.pipeline (digestOf text)] := by
  have hup : s.asset.hashedTargetName s.site.pipeline (digestOf text) ≠ ".." :=
    hashedTargetName_ne (by decide) _ _ _
  unfold filePath
  rw [fileName_of_production hprod, fingerprintedName, join_digestName_of_no_slash hext ha]
  unfold Path.place
  dsimp only
  rw [Path.follow_append, Path.follow_append, Path.follow_of_no_up (by simpa using hup.symm)]

/-- Whether a file lies below the target folder is a matter of names. -/
theorem isBelow_filePath_iff (text : String) (here : List String) :
    Path.IsBelow (s.site.pipeline.targetPath.place here) ((filePath s text).place here) ↔
      s.asset.Stays s.site.pipeline (s.site.pipeline.targetPath.place here) := by
  unfold Stays
  cases hprod : s.site.pipeline.inProduction with
  | true => rw [place_filePath_of_production ha hext hprod, Path.isBelow_concat, if_pos rfl]
  | false =>
    have hslash := no_slash_outputName ha hext
    have hplace : (filePath s text).place here =
        Path.follow (s.site.pipeline.targetPath.place here)
          (Path.namesOf (s.asset.outputName s.site.pipeline)) := by
      unfold filePath
      rw [fileName_of_development hprod, Path.join_of_head (Path.head_of_no_slash hslash)]
      unfold Path.place
      exact Path.follow_append ..
    rw [hplace, Path.namesOf_of_no_slash hslash]
    simp only [Bool.false_eq_true, if_false]
    by_cases hempty : s.asset.outputName s.site.pipeline = "" ∨
        s.asset.outputName s.site.pipeline = "."
    · rw [if_pos hempty]
      exact iff_of_false (fun h ↦ h.2 rfl) (by tauto)
    · rw [if_neg hempty]
      by_cases hup : s.asset.outputName s.site.pipeline = ".."
      · refine iff_of_false (fun h ↦ ?_) (fun h ↦ h.2.2 hup)
        have hdrop : Path.follow (s.site.pipeline.targetPath.place here)
            [s.asset.outputName s.site.pipeline] =
              (s.site.pipeline.targetPath.place here).dropLast := by
          simp [Path.follow, hup]
        rw [hdrop] at h
        exact h.2 (h.1.eq_of_length_le (by simp))
      · rw [Path.follow_of_no_up (by simpa using fun h ↦ hup h.symm), Path.isBelow_concat]
        exact iff_of_true (List.prefix_refl _) (by tauto)

theorem exists_last_filePath {here : List String}
    (hstays : s.asset.Stays s.site.pipeline (s.site.pipeline.targetPath.place here))
    (text : String) : ∃ name, (filePath s text).names.getLast? = some name ∧ name ≠ ".." := by
  unfold filePath
  unfold Stays at hstays
  cases hprod : s.site.pipeline.inProduction with
  | true =>
    rw [fileName_of_production hprod, fingerprintedName, join_digestName_of_no_slash hext ha]
    refine ⟨s.asset.hashedTargetName s.site.pipeline (digestOf text), ?_,
      hashedTargetName_ne (by decide) _ _ _⟩
    simp
  | false =>
    simp only [hprod, Bool.false_eq_true, if_false] at hstays
    obtain ⟨hempty, hdot, hup⟩ := hstays
    rw [fileName_of_development hprod,
      Path.join_of_isName ⟨hempty, hdot, no_slash_outputName ha hext⟩]
    exact ⟨_, List.getLast?_concat, hup⟩

/-- All that may be touched lies below the target if the file of the asset does. -/
theorem isBelow_touchedFiles {here : List String}
    (hstays : s.asset.Stays s.site.pipeline (s.site.pipeline.targetPath.place here))
    (text : String) : ∀ q ∈ touchedFiles s text,
      Path.IsBelow (s.site.pipeline.targetPath.place here) (q.place here) := by
  have hfile := (isBelow_filePath_iff ha hext text here).2 hstays
  obtain ⟨name, hlast, hup⟩ := exists_last_filePath ha hext hstays text
  have hmanifest : Path.IsBelow (s.site.pipeline.targetPath.place here)
      (s.site.pipeline.manifestPath.place here) := by
    rw [Pipeline.place_manifestPath]
    exact Path.isBelow_concat.2 (List.prefix_refl _)
  have hmanifestLast : s.site.pipeline.manifestPath.names.getLast? = some ".manifest.json" := by
    rw [Pipeline.names_manifestPath, List.getLast?_concat]
  intro q hq
  simp only [touchedFiles, List.mem_cons, List.not_mem_nil, or_false] at hq
  rcases hq with rfl | rfl | rfl | rfl
  · exact (Disk.isBelow_temporary hlast hup _ here).2 hfile
  · exact hfile
  · exact (Disk.isBelow_temporary hmanifestLast (by decide) _ here).2 hmanifest
  · exact hmanifest

/-- The manifest is saved beside the published file. -/
theorem readBytes_after_save (hprod : s.site.pipeline.inProduction = true) {text : String}
    {disk : Disk} {store : Manifest.Store}
    (hmanifest : s.site.pipeline.manifest.path = some s.site.pipeline.manifestPath)
    (hwrite : Disk.writeText (filePath s text) text s.site.disk = .ok () disk)
    (hadd : Manifest.add s.asset.basename (fileName s text) ⟨disk, s.site.pipeline.manifest⟩ =
      .ok () store) : store.disk.readBytes (filePath s text) = .ok text.toUTF8 := by
  obtain ⟨-, place, name, hlast, hup, hslot, hbytes⟩ := Disk.writeText_ok hwrite
  have hsave := (Manifest.add_moves s.asset.basename (fileName s text)
    ⟨disk, s.site.pipeline.manifest⟩ hmanifest).2
  rw [hadd] at hsave
  have hname : name = s.asset.hashedTargetName s.site.pipeline (digestOf text) := by
    unfold filePath at hlast
    rw [fileName_of_production hprod, fingerprintedName, join_digestName_of_no_slash hext ha] at hlast
    simpa using hlast.symm
  have hkept := hsave.bytesAt_of_name hlast hup
    (hname ▸ manifest_apart s.site.pipeline s.asset text)
  rw [← Disk.slot_eq_place hslot, hbytes] at hkept
  exact Disk.readBytes_of_bytesAt hsave.here_eq hsave.folder hlast hup hslot hkept

/-- What a publication that ends well returns, and what it found or left on the disk. -/
theorem published_of_outcome {r : Published} {t : State} (h : Outcome s (.ok r t))
    (hmanifest : s.site.pipeline.manifest.path = some s.site.pipeline.manifestPath) :
    (r = publishedAs s r.filename false true ∧ s.site.pipeline.inProduction = true ∧
      s.site.pipeline.manifest.get? s.asset.basename = some r.filename ∧ t = s) ∨
    ∃ text, r = publishedAs s (fileName s text) r.isWritten false ∧ t.asset.builtBody = some text ∧
      (r.isWritten = false → s.site.pipeline.inProduction = false ∧ t.site.disk = s.site.disk ∧
        ReadsAs s.site.disk (filePath s text) text) ∧
      (r.isWritten = true → t.site.disk.readBytes (filePath s text) = .ok text.toUTF8) := by
  cases h with
  | recorded file hprod hfile hne => exact .inl ⟨rfl, hprod, hfile, rfl⟩
  | kept text t hdev hbuilt hheld h =>
    exact .inr ⟨text, rfl, hbuilt, fun _ ↦ ⟨hdev, h.disk, hheld⟩, Bool.noConfusion⟩
  | stored text disk t hdev hbuilt hwrite h =>
    refine .inr ⟨text, rfl, hbuilt, Bool.noConfusion, fun _ ↦ ?_⟩
    obtain ⟨-, place, name, hlast, hup, hslot, hbytes⟩ := Disk.writeText_ok hwrite
    rw [h.disk]
    exact Disk.readBytes_of_bytesAt rfl (fun _ hk ↦ hk) hlast hup hslot hbytes
  | saved text disk store t hprod hbuilt hwrite hadd h =>
    refine .inr ⟨text, rfl, hbuilt, Bool.noConfusion, fun _ ↦ ?_⟩
    rw [h.disk]
    exact readBytes_after_save ha hext hprod hmanifest hwrite hadd

omit ha hext in
/-- Publishing an asset touches its file and the manifest only, however it ends. -/
theorem leavesBut_of_outcome {r : EStateM.Result Failure State Published} (h : Outcome s r)
    (hmanifest : s.site.pipeline.manifest.path = some s.site.pipeline.manifestPath) :
    ∃ text, s.site.disk.LeavesBut (touchedFiles s text) (finalState r).site.disk := by
  have hstays : ∀ {t : State}, s.LeadsTo s.store t →
      ∃ text, s.site.disk.LeavesBut (touchedFiles s text) t.site.disk := by
    intro t h
    rw [h.disk]
    exact ⟨"", .refl _ _⟩
  have hadded : ∀ {text disk} {t : State} {result},
      Disk.writeText (filePath s text) text s.site.disk = .ok () disk →
      Manifest.add s.asset.basename (fileName s text) ⟨disk, s.site.pipeline.manifest⟩ = result →
      s.LeadsTo (finalState result) t →
      s.site.disk.LeavesBut (touchedFiles s text) t.site.disk := by
    intro text disk t result hwrite hadd h
    have hsave := (Manifest.add_moves s.asset.basename (fileName s text)
      ⟨disk, s.site.pipeline.manifest⟩ hmanifest).2
    rw [hadd, ← h.disk] at hsave
    exact ((Disk.writeText_ok hwrite).1.mono (by simp [touchedFiles])).trans
      (hsave.mono (by simp [touchedFiles]))
  cases h with
  | recorded => exact ⟨"", .refl _ _⟩
  | unbuilt e t h => exact hstays h
  | kept text t hdev hbuilt hheld h => exact hstays h
  | unwritten text why disk t hwrite h =>
    have hdisk : t.site.disk = disk := h.disk
    subst hdisk
    exact ⟨text, (Disk.writeText_error hwrite).mono (by simp [touchedFiles])⟩
  | stored text disk t hdev hbuilt hwrite h =>
    have hdisk : t.site.disk = disk := h.disk
    subst hdisk
    exact ⟨text, (Disk.writeText_ok hwrite).1.mono (by simp [touchedFiles])⟩
  | saved text disk store t hprod hbuilt hwrite hadd h => exact ⟨text, hadded hwrite hadd h⟩
  | unsaved text disk store e t hprod hwrite hadd h => exact ⟨text, hadded hwrite hadd h⟩

end File

/-! ## Double dots -/

theorem up_mem_namesOf_publishedUrl (p : Pipeline) (filename : String) :
    ".." ∈ Path.namesOf (p.publishedUrl filename) ↔
      ".." ∈ Path.namesOf p.assetDir ∨ ".." ∈ Path.namesOf filename := by
  unfold Pipeline.publishedUrl
  rw [Pipeline.namesOf_slashed]
  simp [Pipeline.namesOf_dropLeadingSlashes]

/-- The last name of a fingerprinted file is never a double dot. -/
theorem up_mem_namesOf_digestName {a : Asset} {p : Pipeline} (ha : '/' ∉ a.path.name.toList)
    (hext : '/' ∉ (a.targetExtension p).toList) (text : String) :
    ".." ∈ Path.namesOf (a.digestName p (digestOf text)) ↔ ".." ∈ a.folderNames := by
  have hup : ".." ≠ a.hashedTargetName p (digestOf text) :=
    (hashedTargetName_ne (by decide) p a text).symm
  have hleaf := isName_hashedTargetName_of_no_slash hext ha text
  unfold digestName folderNames
  cases a.logicalFolder with
  | none => simp [Path.namesOf_of_isName hleaf, hup]
  | some folder => simp [Path.namesOf_append_slash, Path.namesOf_of_isName hleaf, hup]

/-- A plain file that was found or written has a name that is no double dot. -/
theorem up_not_mem_namesOf_outputName (hdev : s.site.pipeline.inProduction = false)
    (ha : '/' ∉ s.asset.path.name.toList)
    (hext : '/' ∉ (s.asset.targetExtension s.site.pipeline).toList) {text : String} {d : Disk}
    {bytes : ByteArray} (h : d.readBytes (filePath s text) = .ok bytes) :
    ".." ∉ Path.namesOf (s.asset.outputName s.site.pipeline) := by
  have hslash := no_slash_outputName ha hext
  have hlast := Disk.getLast?_ne_up_of_readBytes h
  intro hmem
  have hname : s.asset.outputName s.site.pipeline = ".." := by
    rw [Path.namesOf_of_no_slash hslash] at hmem
    split at hmem
    · cases hmem
    · exact (List.mem_singleton.1 hmem).symm
  unfold filePath at hlast
  rw [fileName_of_development hdev, hname,
    Path.join_of_isName ⟨by decide, by decide, by decide⟩] at hlast
  exact hlast List.getLast?_concat

/-! ## The law of places -/

/-- Publishing an asset touches files below the target folder only if its own file lies there, which is a
matter of the folder of the logical path; a file that was written is that file; and a double dot in the URL
comes from the asset folder, from a recorded name, or in production from the logical path. -/
theorem containment_exact {site : Site} (hs : site.IsProper) {logical : String} {a : Asset}
    (ha : site.getAsset logical = .ok a) {s : State} (hpath : s.asset.path = a.path)
    (hlogical : s.asset.logical = a.logical) (hfits : s.asset.DigestFits)
    (hmanifest : s.site.pipeline.manifest.path = some s.site.pipeline.manifestPath)
    (hext : '/' ∉ (a.targetExtension s.site.pipeline).toList) :
    (∃ touched, s.site.disk.LeavesBut touched (finalState (publish s)).site.disk ∧
      (a.Stays s.site.pipeline s.site.targetPlace →
        ∀ q ∈ touched, Path.IsBelow s.site.targetPlace (q.place s.site.disk.here))) ∧
    ∀ r t, publish s = .ok r t →
      (r.isWritten = false → t.site.disk = s.site.disk) ∧
      (r.isWritten = true →
        (∃ text, t.asset.builtBody = some text ∧
          t.site.disk.readBytes r.path = .ok text.toUTF8) ∧
        (Path.IsBelow s.site.targetPlace (r.path.place s.site.disk.here) ↔
          a.Stays s.site.pipeline s.site.targetPlace)) ∧
      (".." ∈ Path.namesOf r.url ↔ ".." ∈ Path.namesOf s.site.pipeline.assetDir ∨
        if r.isFromManifest then ".." ∈ Path.namesOf r.filename
        else s.site.pipeline.inProduction = true ∧ ".." ∈ a.folderNames) := by
  obtain ⟨path, hfound, hmade⟩ := except_bind_eq_ok.1 ha
  have hslash : '/' ∉ s.asset.path.name.toList := by
    rw [hpath, ← Except.ok.inj hmade]
    exact (Site.isCanonical_of_getFile hs hfound).no_slash_name
  have hext' : '/' ∉ (s.asset.targetExtension s.site.pipeline).toList := by
    unfold targetExtension format at hext ⊢
    rwa [hpath]
  have hfolder : s.asset.folderNames = a.folderNames := by
    unfold folderNames logicalFolder
    rw [hlogical]
  have hstays : s.asset.Stays s.site.pipeline s.site.targetPlace ↔
      a.Stays s.site.pipeline s.site.targetPlace := by
    unfold Stays outputName endsInFormat targetExtension format basename
    rw [hfolder, hpath]
  have houtcome : Outcome s (publish s) := outcome_of_publish hfits
  refine ⟨?_, fun r t hr ↦ ?_⟩
  · obtain ⟨text, htouched⟩ := leavesBut_of_outcome houtcome hmanifest
    exact ⟨_, htouched, fun h ↦ isBelow_touchedFiles hslash hext' (hstays.2 h) text⟩
  rw [hr] at houtcome
  rcases published_of_outcome hslash hext' houtcome hmanifest with
    ⟨hmade, hprod, hfile, rfl⟩ | ⟨text, hmade, hbuilt, hkept, hwritten⟩
  · have hwritten : r.isWritten = false := congrArg Published.isWritten hmade
    have hfrom : r.isFromManifest = true := congrArg Published.isFromManifest hmade
    have hurl : r.url = t.site.pipeline.publishedUrl r.filename := congrArg Published.url hmade
    rw [hwritten, hfrom, hurl, up_mem_namesOf_publishedUrl]
    exact ⟨fun _ ↦ rfl, Bool.noConfusion, by simp⟩
  · have hfrom : r.isFromManifest = false := congrArg Published.isFromManifest hmade
    have hurl : r.url = s.site.pipeline.publishedUrl (fileName s text) :=
      congrArg Published.url hmade
    have hpath : r.path = filePath s text := congrArg Published.path hmade
    have hread : ∃ (d : Disk) (bytes : ByteArray), s.site.pipeline.inProduction = false →
        d.readBytes (filePath s text) = .ok bytes := by
      cases hw : r.isWritten with
      | true => exact ⟨_, _, fun _ ↦ hwritten hw⟩
      | false =>
        obtain ⟨-, -, time, held, hfind, -⟩ := hkept hw
        exact ⟨_, _, fun _ ↦ Disk.readBytes_of_find hfind⟩
    refine ⟨fun hw ↦ (hkept hw).2.1, fun hw ↦ ⟨⟨text, hbuilt, hpath ▸ hwritten hw⟩, ?_⟩, ?_⟩
    · rw [hpath, ← hstays]
      exact isBelow_filePath_iff hslash hext' text _
    · rw [hurl, hfrom, up_mem_namesOf_publishedUrl, ← hfolder]
      cases hprod : s.site.pipeline.inProduction with
      | true =>
        rw [fileName_of_production hprod, fingerprintedName, up_mem_namesOf_digestName hslash hext']
        simp
      | false =>
        obtain ⟨d, bytes, hbytes⟩ := hread
        rw [fileName_of_development hprod]
        have hup := up_not_mem_namesOf_outputName hprod hslash hext' (hbytes hprod)
        simp [hup]

/-- A production site with a script in its source folder and one beside it. -/
def annex (logical : String) (place : List String) : State :=
  let site := Site.sample "production" [("app.js", .file "A();\n".toUTF8 1)] []
  ⟨{ site with disk := site.disk.attach ["lib"] (.folder 0 [("x.js", .file "A();\n".toUTF8 1)]) },
    .ofFile (.absolute place) (some logical)⟩

theorem isProper_annex (logical : String) (place : List String) :
    (annex logical place).site.IsProper :=
  ⟨List.forall_mem_nil _, (Site.isProper_sample "production" [] []).roots⟩

theorem annex_stays_inside :
    ∃ r t, publish (annex "app.js" ["src", "app.js"]) = .ok r t ∧ r.isWritten = true ∧
      Path.IsBelow (annex "app.js" ["src", "app.js"]).site.targetPlace
        (r.path.place (annex "app.js" ["src", "app.js"]).site.disk.here) ∧
      ".." ∉ Path.namesOf r.url := by
  have hpublish := eq_ok_of_result? (show result? (publish (annex "app.js" ["src", "app.js"])) =
    some ⟨.absolute ["public", "assets", "app-989e96d8c5668ad41693d47ba511a827b5a1aaad.js"],
      "/assets/app-989e96d8c5668ad41693d47ba511a827b5a1aaad.js",
      "app-989e96d8c5668ad41693d47ba511a827b5a1aaad.js", true, false⟩ by decide +kernel)
  have ha : (annex "app.js" ["src", "app.js"]).site.getAsset "app.js" =
      .ok (.ofFile (.absolute ["src", "app.js"]) (some "app.js")) :=
    eq_ok_of_toOption (by decide +kernel)
  obtain ⟨-, hresult⟩ := containment_exact (isProper_annex _ _) ha
    (s := annex "app.js" ["src", "app.js"]) rfl rfl (digestFits_ofFile _ _) (by decide)
    (by decide +kernel)
  obtain ⟨-, hwritten, hurl⟩ := hresult _ _ hpublish
  refine ⟨_, _, hpublish, rfl, (hwritten rfl).2.2 (by decide +kernel), ?_⟩
  rw [hurl]
  decide +kernel

/-- A logical path that leads out of the source folder leads out of the target folder too. -/
theorem annex_leads_outside :
    ∃ r t, (annex "../lib/x.js" ["lib", "x.js"]).site.getAsset "../lib/x.js" =
        .ok (annex "../lib/x.js" ["lib", "x.js"]).asset ∧
      publish (annex "../lib/x.js" ["lib", "x.js"]) = .ok r t ∧ r.isWritten = true ∧
      r.path.place [] = ["public", "lib", "x-989e96d8c5668ad41693d47ba511a827b5a1aaad.js"] ∧
      ¬Path.IsBelow ["public", "assets"] (r.path.place []) ∧
      r.url = "/assets/../lib/x-989e96d8c5668ad41693d47ba511a827b5a1aaad.js" ∧
      t.site.disk.isFile r.path = .ok true := by
  have hpublish := eq_ok_of_result? (show result? (publish (annex "../lib/x.js" ["lib", "x.js"])) =
    some ⟨.absolute ["public", "assets", "..", "lib", "x-989e96d8c5668ad41693d47ba511a827b5a1aaad.js"],
      "/assets/../lib/x-989e96d8c5668ad41693d47ba511a827b5a1aaad.js",
      "../lib/x-989e96d8c5668ad41693d47ba511a827b5a1aaad.js", true, false⟩ by decide +kernel)
  refine ⟨_, _, eq_ok_of_toOption (by decide +kernel), hpublish, rfl, by decide, by decide, rfl, ?_⟩
  exact eq_ok_of_toOption (by decide +kernel)

end Asset

end AssetBundler
