import AssetBundler.Proofs.Asset.Outcome
import AssetBundler.Proofs.Asset.Stored
import AssetBundler.Proofs.Disk.Copying
import AssetBundler.Proofs.Disk.Existence
import AssetBundler.Proofs.Static.Address
import AssetBundler.Proofs.Static.Walk

/-!
# Where published names lead

The manifest keeps names below the target folder, those of static files with a slash in front. A name
leads to the target with the names that it spells. Main statements: this is where the program puts a copy
(`Pipeline.copyTarget_eq`), if its destination and its path there are relative, and the file of an asset
(`Asset.filePath_eq`); and on a proper disk the path of a static file is relative.
-/

namespace AssetBundler

open AssetBundler.Action

namespace Pipeline

variable {p : Pipeline}

/-- The path that a published name stands for. -/
def publishedPath (p : Pipeline) (name : String) : Path := p.targetPath.join (dropLeadingSlashes name)

theorem publishedPath_eq (p : Pipeline) (name : String) : p.publishedPath name =
    ⟨p.targetPath.anchor, p.targetPath.names ++ Path.namesOf name⟩ := by
  unfold publishedPath
  rw [Path.join_of_head (head_dropLeadingSlashes name), namesOf_dropLeadingSlashes]

theorem copyTarget_eq {destination filename : String} (hdestination : destination.toList.head? ≠ some '/')
    (hfilename : filename.toList.head? ≠ some '/') :
    p.copyTarget destination filename = p.publishedPath (slashed [destination, filename]) := by
  rw [publishedPath_eq, namesOf_slashed]
  unfold copyTarget
  by_cases hempty : destination = ""
  · rw [if_pos hempty, Path.join_of_head hfilename, hempty]
    simp [show Path.namesOf "" = [] by decide]
  · rw [if_neg hempty, Path.join_of_head hdestination, Path.join_of_head hfilename]
    simp

/-- The key that a static file is recorded under starts with a slash. -/
theorem head_toSlashes_slashed (parts : List String) :
    (toSlashes (slashed parts)).toList.head? = some '/' := by
  unfold toSlashes slashed Text.replaceChar
  simp

theorem isProper_targetPath (hroot : p.root.IsProper) : p.targetPath.IsProper :=
  (hroot.join _).join _

theorem isProper_manifestPath (hroot : p.root.IsProper) : p.manifestPath.IsProper :=
  (isProper_targetPath hroot).join _

theorem isProper_copyTarget (hroot : p.root.IsProper) (destination filename : String) :
    (p.copyTarget destination filename).IsProper := by
  unfold copyTarget
  split
  · exact (isProper_targetPath hroot).join _
  · exact ((isProper_targetPath hroot).join _).join _

/-- A name without double dots leads to a place at or below the target. -/
theorem isPrefix_place_publishedPath {name : String} (hup : ".." ∉ Path.namesOf name)
    (here : List String) : p.targetPath.place here <+: (p.publishedPath name).place here := by
  rw [publishedPath_eq]
  unfold Path.place
  dsimp only
  rw [Path.follow_append, Path.follow_of_no_up hup]
  exact List.prefix_append ..

end Pipeline

theorem names_join_ne_nil {p : Path} {s : String} (h : Path.namesOf s ≠ []) : (p.join s).names ≠ [] := by
  unfold Path.join
  extract_lets q
  split
  · exact fun hnil ↦ h (List.append_eq_nil_iff.1 hnil).2
  · exact h

/-- A copy with a digest in its name has a name. -/
theorem Pipeline.names_copyTarget_ne_nil (p : Pipeline) (destination rel digest : String) :
    (p.copyTarget destination (fingerprintedName rel digest)).names ≠ [] := by
  have hdash : '-' ∈ (fingerprintedName rel digest).toList := by
    unfold fingerprintedName
    extract_lets p suffix stem name
    have hname : '-' ∈ name.toList := by simp [name]
    split
    · exact hname
    · simp [hname]
  have hnames := Path.namesOf_ne_nil hdash (by decide) (by decide)
  unfold copyTarget
  split <;> exact names_join_ne_nil hnames

namespace Asset

/-- The name of a published asset is relative. -/
theorem head_digestName {a : Asset} (ha : '/' ∉ a.path.name.toList) (p : Pipeline) (digest : String) :
    (a.digestName p digest).toList.head? ≠ some '/' := by
  have hstem : a.stem.toList.head? ≠ some '/' := fun hhead ↦
    ha (mem_of_mem_stemOf (List.mem_of_mem_head? hhead))
  have hname : (a.hashedTargetName p digest).toList.head? ≠ some '/' := by
    unfold hashedTargetName
    rw [String.append_assoc, String.append_assoc]
    refine head_append_ne hstem ?_
    rw [head_append_of_ne_empty (by decide)]
    decide
  unfold digestName
  cases hfolder : a.logicalFolder with
  | none => exact hname
  | some folder =>
    obtain ⟨c, hc, hslash⟩ := head_of_logicalFolder hfolder
    have hne : folder ≠ "" := by
      rintro rfl
      cases hc
    change (folder ++ "/" ++ a.hashedTargetName p digest).toList.head? ≠ some '/'
    rw [String.append_assoc, head_append_of_ne_empty hne, hc, ne_eq, Option.some.injEq]
    exact hslash

theorem filePath_eq {s : State} (hprod : s.site.pipeline.inProduction = true)
    (ha : '/' ∉ s.asset.path.name.toList) (text : String) :
    filePath s text = s.site.pipeline.publishedPath (fileName s text) := by
  have hhead : (fileName s text).toList.head? ≠ some '/' := by
    rw [fileName_of_production hprod]
    exact head_digestName ha _ _
  unfold filePath
  rw [Pipeline.publishedPath_eq, Path.join_of_head hhead]

end Asset

namespace Static

/-- On a proper disk the path of a static file from its source is relative. -/
theorem head_rel_of_mem {d : Disk} (hd : d.IsProper) {p : Path} (hp : p.IsProper)
    {files : List Source} (h : sourcesAt d p = .ok (some files)) {f : Source} (hf : f ∈ files) :
    f.rel.toList.head? ≠ some '/' := by
  obtain rfl | ⟨place, hnames, rfl⟩ := eq_or_exists_place hd h hf
  · exact fun hhead ↦ hp.no_slash_name (List.mem_of_mem_head? hhead)
  · rw [sourceAt_nil_lead]
    exact Path.head_intercalate hnames

end Static

end AssetBundler
