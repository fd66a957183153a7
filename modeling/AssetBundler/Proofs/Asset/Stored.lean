import AssetBundler.Proofs.Asset.Name
import AssetBundler.Proofs.Asset.Production

/-!
# Published files

A published file is stored if it holds the body of one of some assets, one whose digest is that in its
name. With plain extensions a file stays stored whatever else is written: temporary files and the
manifest have other names, and a publication that hits the same file has the same digest.
-/

namespace AssetBundler

open AssetBundler.Action

/-- The file of the manifest. -/
def Pipeline.manifestPath (p : Pipeline) : Path := p.targetPath.join Manifest.fileName

theorem Pipeline.names_manifestPath (p : Pipeline) :
    p.manifestPath.names = p.targetPath.names ++ [".manifest.json"] := by
  have hname : Path.IsName Manifest.fileName := ⟨by decide, by decide, by decide⟩
  unfold manifestPath
  rw [Path.join_of_isName hname]
  rfl

namespace Asset

/-- The file that a body of an asset is published in. -/
def publishedPath (p : Pipeline) (a : Asset) (text : String) : Path :=
  p.targetPath.join (a.digestName p (digestOf text))

section Names

variable {p : Pipeline} {a b : Asset} (hp : p.HasPlainTargets) (ha : '/' ∉ a.path.name.toList)

include hp ha

theorem getLast?_publishedPath (text : String) : (a.publishedPath p text).names.getLast? =
    some (a.hashedTargetName p (digestOf text)) := by
  unfold publishedPath
  rw [join_digestName hp ha]
  simp

theorem name_publishedPath (text : String) :
    (a.publishedPath p text).name = a.hashedTargetName p (digestOf text) := by
  unfold Path.name
  rw [List.getLastD_eq_getLast?, getLast?_publishedPath hp ha]
  rfl

/-- Bodies that are published in one place have one digest. -/
theorem digest_eq_of_place_eq (hb : '/' ∉ b.path.name.toList) {text other : String}
    {here : List String}
    (h : (a.publishedPath p text).place here = (b.publishedPath p other).place here) :
    digestOf text = digestOf other := by
  rw [Disk.place_eq_append (getLast?_publishedPath hp ha text)
      (hashedTargetName_ne (by decide) p a text),
    Disk.place_eq_append (getLast?_publishedPath hp hb other)
      (hashedTargetName_ne (by decide) p b other)] at h
  have hname : a.hashedTargetName p (digestOf text) = b.hashedTargetName p (digestOf other) :=
    eq_of_concat_eq h
  calc
    digestOf text = digestIn (a.hashedTargetName p (digestOf text)) :=
      (digestIn_hashedTargetName hp a text).symm
    _ = digestIn (b.hashedTargetName p (digestOf other)) := by rw [hname]
    _ = digestOf other := digestIn_hashedTargetName hp b other

omit ha in
/-- The temporary file beside a published one is not a published file. -/
theorem temporary_apart (hb : '/' ∉ b.path.name.toList) (text other : String) :
    ∃ name, (Disk.temporary (b.publishedPath p other)).names.getLast? = some name ∧ name ≠ ".." ∧
      name ≠ a.hashedTargetName p (digestOf text) := by
  refine ⟨_, Disk.getLast?_temporary _, Disk.temporaryName_ne_up _, ?_⟩
  rw [name_publishedPath hp hb]
  exact (hashedTargetName_ne_temporary hp a b text other).symm

end Names

/-- Neither the manifest nor the temporary file beside it is a published file. -/
theorem manifest_apart (p : Pipeline) (a : Asset) (text : String) :
    ∀ q ∈ [Disk.temporary p.manifestPath, p.manifestPath], ∃ name, q.names.getLast? = some name ∧
      name ≠ ".." ∧ name ≠ a.hashedTargetName p (digestOf text) := by
  intro q hq
  have hname : p.manifestPath.name = ".manifest.json" := by
    unfold Path.name
    rw [p.names_manifestPath, List.getLastD_concat]
  rcases List.mem_cons.1 hq with rfl | hq
  · refine ⟨_, Disk.getLast?_temporary _, Disk.temporaryName_ne_up _, ?_⟩
    rw [hname]
    exact (hashedTargetName_ne (by decide) p a text).symm
  · rw [List.mem_singleton.1 hq]
    refine ⟨".manifest.json", ?_, by decide, (hashedTargetName_ne (by decide) p a text).symm⟩
    rw [p.names_manifestPath, List.getLast?_concat]

/-- The published file holds the body of one of the assets, and that body has the given digest. -/
def Stored (s : Site) (assets : List Asset) (d : Disk) (file : Path) (made : String) : Prop :=
  ∃ w ∈ assets, ∃ text place, s.bodyOf w.path = .ok text ∧ digestOf text = made ∧
    d.slot file = .ok place ∧ d.bytesAt place = some text.toUTF8

namespace Stored

variable {s : Site} {assets more : List Asset} {d e : Disk} {file : Path} {made : String}

theorem mono (h : Stored s assets d file made) (hsub : ∀ a ∈ assets, a ∈ more) :
    Stored s more d file made := by
  obtain ⟨w, hw, hrest⟩ := h
  exact ⟨w, hsub w hw, hrest⟩

theorem of_bytesAt_eq {touched : List Path} {name : String} (h : Stored s assets d file made)
    (hd : d.LeavesBut touched e) (hlast : file.names.getLast? = some name) (hup : name ≠ "..")
    (hbytes : e.bytesAt (file.place d.here) = d.bytesAt (file.place d.here)) :
    Stored s assets e file made := by
  obtain ⟨w, hw, text, place, hbody, hmade, hslot, hheld⟩ := h
  refine ⟨w, hw, text, place, hbody, hmade, ?_, ?_⟩
  · exact Disk.slot_persists hd.here_eq hd.folder hlast hup hslot
  · rw [Disk.slot_eq_place hslot] at hheld ⊢
    rw [hbytes, hheld]

/-- A stored file is read as the body of one of the assets. -/
theorem readBytes {name : String} (h : Stored s assets d file made)
    (hlast : file.names.getLast? = some name) (hup : name ≠ "..") :
    ∃ w ∈ assets, ∃ text, s.bodyOf w.path = .ok text ∧ digestOf text = made ∧
      d.readBytes file = .ok text.toUTF8 := by
  obtain ⟨w, hw, text, place, hbody, hmade, hslot, hheld⟩ := h
  exact ⟨w, hw, text, hbody, hmade,
    Disk.readBytes_of_bytesAt rfl (fun _ hk ↦ hk) hlast hup hslot hheld⟩

end Stored

section Write

variable {s : Site} {assets : List Asset} {a b : Asset} {c d e : Disk} {text other made : String}
  (hp : s.pipeline.HasPlainTargets) (ha : '/' ∉ a.path.name.toList)

include hp ha

/-- A stored file stays stored when the manifest is written. -/
theorem stored_after_manifest (h : Stored s assets d (a.publishedPath s.pipeline text) made)
    (hd : d.LeavesBut [Disk.temporary s.pipeline.manifestPath, s.pipeline.manifestPath] e) :
    Stored s assets e (a.publishedPath s.pipeline text) made :=
  h.of_bytesAt_eq hd (getLast?_publishedPath hp ha text) (hashedTargetName_ne (by decide) _ a text)
    (hd.bytesAt_of_name (getLast?_publishedPath hp ha text)
      (hashedTargetName_ne (by decide) _ a text) (manifest_apart s.pipeline a text))

/-- A stored file stays stored when another publication fails in writing. -/
theorem stored_after_failure (hb : '/' ∉ b.path.name.toList)
    (h : Stored s assets d (a.publishedPath s.pipeline text) made) {why : Disk.Error}
    (hwrite : Disk.writeText (b.publishedPath s.pipeline other) other d = .error why e) :
    Stored s assets e (a.publishedPath s.pipeline text) made := by
  have hd := Disk.writeText_error hwrite
  refine h.of_bytesAt_eq hd (getLast?_publishedPath hp ha text)
    (hashedTargetName_ne (by decide) _ a text)
    (hd.bytesAt_of_name (getLast?_publishedPath hp ha text)
      (hashedTargetName_ne (by decide) _ a text) ?_)
  intro q hq
  rw [List.mem_singleton.1 hq]
  exact temporary_apart (a := a) hp hb text other

/-- A stored file stays stored when a body is written, in another place or over it. -/
theorem stored_after_write (hb : '/' ∉ b.path.name.toList) (hmem : b ∈ assets)
    (hbody : s.bodyOf b.path = .ok other)
    (h : Stored s assets d (a.publishedPath s.pipeline text) (digestOf text))
    (hwrite : Disk.writeText (b.publishedPath s.pipeline other) other d = .ok () e) :
    Stored s assets e (a.publishedPath s.pipeline text) (digestOf text) := by
  obtain ⟨hd, place, name, hlast, hup, hslot, hheld⟩ := Disk.writeText_ok hwrite
  by_cases hplace : (a.publishedPath s.pipeline text).place d.here =
      (b.publishedPath s.pipeline other).place d.here
  · obtain ⟨w, hw, old, goal, -, -, hgoal, -⟩ := h
    refine ⟨b, hmem, other, goal, hbody, (digest_eq_of_place_eq hp ha hb hplace).symm, ?_, ?_⟩
    · exact Disk.slot_persists hd.here_eq hd.folder (getLast?_publishedPath hp ha text)
        (hashedTargetName_ne (by decide) _ a text) hgoal
    · rw [Disk.slot_eq_place hgoal, hplace, ← hd.here_eq, ← Disk.slot_eq_place hslot]
      exact hheld
  · refine h.of_bytesAt_eq hd (getLast?_publishedPath hp ha text)
      (hashedTargetName_ne (by decide) _ a text) (hd.bytes _ ?_)
    intro q hq
    rcases List.mem_cons.1 hq with rfl | hq
    · obtain ⟨name', hlast', hup', hne⟩ := temporary_apart (a := a) hp hb text other
      rw [Disk.place_eq_append (getLast?_publishedPath hp ha text)
        (hashedTargetName_ne (by decide) _ a text), Disk.place_eq_append hlast' hup']
      intro heq
      exact hne (eq_of_concat_eq heq).symm
    · rw [List.mem_singleton.1 hq]
      exact hplace

omit hp ha in
/-- A file that was just written is stored. -/
theorem stored_of_write (hmem : b ∈ assets) (hbody : s.bodyOf b.path = .ok other)
    (hwrite : Disk.writeText (b.publishedPath s.pipeline other) other d = .ok () e) :
    Stored s assets e (b.publishedPath s.pipeline other) (digestOf other) := by
  obtain ⟨-, place, name, -, -, hslot, hheld⟩ := Disk.writeText_ok hwrite
  exact ⟨b, hmem, other, place, hbody, rfl, hslot, hheld⟩

end Write

end Asset

end AssetBundler
