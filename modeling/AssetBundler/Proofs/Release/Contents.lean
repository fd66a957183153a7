import AssetBundler.Proofs.Asset.Containment
import AssetBundler.Proofs.Manifest.Reload
import AssetBundler.Proofs.Release.Made
import AssetBundler.Proofs.Release.Step

/-!
# What lies below the target after a release

A release empties its target, so what lies below it afterwards is what the writes of the release leave,
one after the other. A write can undo an earlier one in three ways: a text takes away what was published
under the name of its temporary file, a copy goes into a folder that stands at its path, and the manifest
replaces a file that was published under its name. Main statement: `Site.release_exact`; without the first
two the files are those of the URLs, those of the compiled assets and the manifest if it has entries, and
each holds the bytes that were written to it last.
-/

namespace AssetBundler

open AssetBundler.Action

theorem Path.anchor_join_ne {p : Path} (h : p.anchor ≠ .none) (s : String) :
    (p.join s).anchor ≠ .none := by
  unfold join
  extract_lets q
  split
  · exact h
  · assumption

namespace Pipeline

theorem anchor_targetPath_ne {p : Pipeline} (h : p.root.anchor ≠ .none) :
    p.targetPath.anchor ≠ .none := Path.anchor_join_ne (Path.anchor_join_ne h _) _

theorem anchor_copyTarget_ne {p : Pipeline} (h : p.root.anchor ≠ .none)
    (destination filename : String) : (p.copyTarget destination filename).anchor ≠ .none := by
  have htarget := anchor_targetPath_ne h
  unfold copyTarget
  split
  · exact Path.anchor_join_ne htarget _
  · exact Path.anchor_join_ne (Path.anchor_join_ne htarget _) _

theorem isBelow_manifestPath (p : Pipeline) (here : List String) :
    Path.IsBelow (p.targetPath.place here) (p.manifestPath.place here) := by
  rw [p.place_manifestPath, Path.isBelow_concat]

end Pipeline

/-- No text goes through the place of the manifest. -/
theorem Disk.place_temporary_ne_manifestPath (p : Pipeline) (path : Path) (here : List String) :
    (temporary path).place here ≠ p.manifestPath.place here := by
  rw [p.place_manifestPath, place_eq_append (getLast?_temporary path) (temporaryName_ne_up path)]
  intro heq
  have hchars := congrArg (List.reverse ∘ String.toList) (eq_of_concat_eq heq)
  simp [String.toList_append] at hchars

/-- A write elsewhere leaves the manifest alone. -/
theorem Disk.Write.apply_manifestPath {p : Pipeline} {here : List String} {w : Disk.Write}
    {held : List String → Option ByteArray} (hgoal : w.goal here ≠ p.manifestPath.place here) :
    w.apply here held (p.manifestPath.place here) = held (p.manifestPath.place here) := by
  rw [apply_of_ne hgoal, if_neg fun hand ↦ place_temporary_ne_manifestPath p w.path here hand.2]

/-- What stays when the target is emptied. -/
def Disk.outside (d : Disk) (top : List String) (place : List String) : Option ByteArray :=
  if Path.IsBelow top place then none else d.bytesAt place

/-- Without double dots and names that are too long a path leads to a folder or has nothing below it. -/
theorem Disk.leadsToFolder_or_empty {d : Disk} {path : Path} (hup : ".." ∉ path.names)
    (hlong : ∀ name ∈ path.names, isTooLong name = false) : d.leadsToFolder path = true ∨
      ∀ place, Path.IsBelow (path.place d.here) place → d.bytesAt place = none := by
  have hplace : path.place d.here = (if path.anchor = .none then d.here else []) ++ path.names :=
    Path.follow_of_no_up hup
  by_cases hfolder : d.kindAt (path.place d.here) = some none
  · refine .inl (leadsToFolder_eq_true.2 ⟨path.place d.here, ?_, hfolder⟩)
    unfold locate
    rw [hplace] at hfolder ⊢
    exact foldlM_enter_of_no_up hup hlong (by simp [hfolder])
  · right
    rintro place ⟨⟨rest, rfl⟩, hne⟩
    cases rest with
    | nil => exact absurd (List.append_nil _).symm hne
    | cons name rest =>
      have hnone : d.node? (path.place d.here ++ name :: rest) = none := by
        rw [node?_append]
        rcases hnode : d.node? (path.place d.here) with _ | ⟨bytes, t⟩ | ⟨t, entries⟩
        · rfl
        · rfl
        · exact absurd (kindAt_eq_folder.2 ⟨t, entries, hnode⟩) hfolder
      unfold bytesAt
      rw [kindAt_eq_none.2 hnone]
      rfl

namespace Made

/-- Nothing else is published under the name of the manifest. -/
def SparesIndex (p : Pipeline) (here : List String) (made : Made) : Prop :=
  (∀ c ∈ made.copied, c.write.goal here ≠ p.manifestPath.place here) ∧
    ∀ b ∈ made.built, ∀ w, b.write? = some w → w.goal here ≠ p.manifestPath.place here

/-- Each copy went to the path of its URL, everything below the target, and nothing beside a text. -/
structure IsUndisturbed (p : Pipeline) (here : List String) (made : Made) : Prop where
  goal : ∀ c ∈ made.copied, c.goal = p.publishedPath c.url
  below : ∀ w ∈ made.writes p, Path.IsBelow (p.targetPath.place here) (w.goal here)
  apart : ∀ w ∈ made.writes p, ∀ v ∈ made.writes p, v.isText = true → w.goal here ≠ v.beside here

theorem isUndisturbed_iff {p : Pipeline} {here : List String} {made : Made} :
    made.IsUndisturbed p here ↔ (∀ c ∈ made.copied, c.goal = p.publishedPath c.url) ∧
      (∀ w ∈ made.writes p, Path.IsBelow (p.targetPath.place here) (w.goal here)) ∧
      ∀ w ∈ made.writes p, ∀ v ∈ made.writes p, v.isText = true → w.goal here ≠ v.beside here :=
  ⟨fun h ↦ ⟨h.goal, h.below, h.apart⟩, fun ⟨hgoal, hbelow, hapart⟩ ↦ ⟨hgoal, hbelow, hapart⟩⟩

instance (p : Pipeline) (here : List String) (made : Made) : Decidable (made.IsUndisturbed p here) :=
  decidable_of_iff' _ isUndisturbed_iff

end Made

namespace Manifest.Store

variable {p : Pipeline} {here : List String} {held : List String → Option ByteArray} {made : Made}
  {ws : List Disk.Write} {m : Store}

/-- The disk holds what the writes leave of what was held, and assets are recorded with their files. -/
structure Replayed (p : Pipeline) (here : List String) (held : List String → Option ByteArray)
    (ws : List Disk.Write) (m : Store) : Prop where
  here_eq : m.disk.here = here
  path : m.manifest.path = some p.manifestPath
  bytes : m.disk.bytesAt = Disk.replay here held ws
  /-- A text has a name. -/
  name : ∀ w ∈ ws, w.isText = true → ∃ name, w.path.names.getLast? = some name ∧ name ≠ ".."
  entry : ∀ key value, m.manifest.get? key = some value → key.toList.head? ≠ some '/' →
    ∃ w ∈ ws, w.path = p.targetPath.join value

/-- What is known of the products of the writes. -/
structure Stocked (p : Pipeline) (here : List String) (held : List String → Option ByteArray)
    (made : Made) (ws : List Disk.Write) (m : Store) : Prop extends m.Replayed p here held ws where
  index : made.SparesIndex p here → m.disk.bytesAt (p.manifestPath.place here) =
    if m.manifest.entries = [] then none else some (render m.manifest.entries).toUTF8
  built : ∀ b ∈ made.built, held (b.published.path.place here) = none →
    ∃ w ∈ ws, w.goal here = b.published.path.place here
  source : ∀ c ∈ made.copied, (∀ w ∈ ws, Path.IsBelow (p.targetPath.place here) (w.goal here)) →
    ¬Path.IsBelow (p.targetPath.place here) (c.source.place here) →
    held (c.source.place here) = some c.bytes

namespace Replayed

variable (h : m.Replayed p here held ws)

include h

/-- Outside the target nothing changes as long as all writes go below it. -/
theorem outside (hbelow : ∀ w ∈ ws, Path.IsBelow (p.targetPath.place here) (w.goal here))
    {place : List String} (hplace : ¬Path.IsBelow (p.targetPath.place here) place) :
    m.disk.bytesAt place = held place := by
  rw [h.bytes]
  refine Disk.replay_of_untouched fun w hw ↦ ⟨?_, fun htext ↦ ?_⟩
  · rintro rfl
    exact hplace (hbelow w hw)
  · rintro rfl
    obtain ⟨name, hlast, hup⟩ := h.name w hw htext
    exact hplace ((Disk.isBelow_temporary hlast hup _ here).2 (hbelow w hw))

/-- One more write. -/
theorem write {disk : Disk} {w : Disk.Write} (hhere : disk.here = m.disk.here)
    (hbytes : disk.bytesAt = w.apply m.disk.here m.disk.bytesAt)
    (hname : w.isText = true → ∃ name, w.path.names.getLast? = some name ∧ name ≠ "..") :
    Replayed p here held (ws ++ [w]) ⟨disk, m.manifest⟩ where
  here_eq := hhere.trans h.here_eq
  path := h.path
  bytes := by
    rw [Disk.replay_concat, ← h.bytes, ← h.here_eq]
    exact hbytes
  name := by
    rw [List.forall_mem_append, List.forall_mem_singleton]
    exact ⟨h.name, hname⟩
  entry key value hget hkey := by
    obtain ⟨v, hv, hpath⟩ := h.entry key value hget hkey
    exact ⟨v, List.mem_append_left _ hv, hpath⟩

/-- One more entry, that of a static file or of an asset that is written. -/
theorem record {name value : String} (hentry : (toSlashes name).toList.head? = some '/' ∨
    ∃ w ∈ ws, w.path = p.targetPath.join value) :
    Replayed p here held ws ⟨m.disk, m.manifest.recording name value⟩ where
  here_eq := h.here_eq
  path := h.path
  bytes := h.bytes
  name := h.name
  entry key file hget hkey := by
    change (m.manifest.recording name value).get? key = some file at hget
    rw [Manifest.get?_recording] at hget
    by_cases hname : toSlashes name = key
    · rw [if_pos hname, Option.some.injEq] at hget
      subst hname hget
      exact hentry.resolve_left hkey
    · rw [if_neg hname] at hget
      exact h.entry key file hget hkey

end Replayed

theorem entries_recording_ne_nil (manifest : Manifest) (name value : String) :
    (manifest.recording name value).entries ≠ [] := by
  intro hnil
  have hget := manifest.get?_recording name value (toSlashes name)
  rw [if_pos rfl] at hget
  unfold Manifest.get? at hget
  rw [hnil] at hget
  cases hget

namespace Stocked

section Append

variable (h : m.Stocked p here held made ws) (vs : List Disk.Write)

include h

theorem built_append : ∀ b ∈ made.built, held (b.published.path.place here) = none →
    ∃ w ∈ ws ++ vs, w.goal here = b.published.path.place here := by
  intro b hb hheld
  obtain ⟨w, hw, hplace⟩ := h.built b hb hheld
  exact ⟨w, List.mem_append_left _ hw, hplace⟩

theorem source_append : ∀ c ∈ made.copied,
    (∀ w ∈ ws ++ vs, Path.IsBelow (p.targetPath.place here) (w.goal here)) →
    ¬Path.IsBelow (p.targetPath.place here) (c.source.place here) →
    held (c.source.place here) = some c.bytes :=
  fun c hc hbelow ↦ h.source c hc fun w hw ↦ hbelow w (List.mem_append_left _ hw)

end Append

/-- Recording a name saves the manifest. -/
theorem add (h : m.Stocked p here held made ws) {name value : String} {t : Store}
    (hentry : (toSlashes name).toList.head? = some '/' ∨ ∃ w ∈ ws, w.path = p.targetPath.join value)
    (hadd : Manifest.add name value m = .ok () t) :
    t.Stocked p here held made (ws ++ [p.indexWrite (render t.manifest.entries)]) := by
  rw [add_eq h.path] at hadd
  rcases hwrite : Disk.writeText p.manifestPath (render (m.manifest.recording name value).entries)
    m.disk with ⟨_, disk⟩ | ⟨why, disk⟩
  · rw [hwrite] at hadd
    cases hadd
    have hwritten := Disk.written_of_ok hwrite
    have hreplayed := (h.toReplayed.record hentry).write
      (w := p.indexWrite (render (m.manifest.recording name value).entries))
      hwritten.changes.here_eq hwritten.bytesAt fun _ ↦ hwritten.name
    refine ⟨hreplayed, fun _ ↦ ?_, h.built_append _, h.source_append _⟩
    rw [if_neg (entries_recording_ne_nil m.manifest name value), ← h.here_eq]
    exact hwritten.holds
  · rw [hwrite] at hadd
    cases hadd

variable {cs : List Static.Deposit} {bs : List Asset.Build}

/-- A copy that succeeds is one more write. -/
theorem copy {source target : Path} (h : m.Stocked p here held ⟨cs, bs⟩ ws)
    (hanchor : target.anchor ≠ .none) {disk : Disk}
    (hcopy : Disk.copy source target m.disk = .ok () disk) (url : String) (index : Option String) :
    let c : Static.Deposit := {
      url
      source
      goal := m.disk.copyEnd source target
      bytes := (m.disk.bytesAt (source.place m.disk.here)).getD .empty
      index }
    Stocked p here held ⟨cs ++ [c], bs⟩ (ws ++ [c.write]) ⟨disk, m.manifest⟩ := by
  intro c
  obtain ⟨hhere, bytes, hsource, hbytes⟩ := Disk.bytesAt_copy hanchor hcopy
  have hc : c.bytes = bytes := by
    change (m.disk.bytesAt (source.place m.disk.here)).getD .empty = bytes
    rw [hsource]
    rfl
  have hwrite : disk.bytesAt = c.write.apply m.disk.here m.disk.bytesAt := by
    rw [hbytes, ← hc]
    rfl
  refine ⟨h.toReplayed.write hhere hwrite (fun htext ↦ nomatch htext), fun hspares ↦ ?_,
    h.built_append _, fun d hd hbelow ↦ ?_⟩
  · obtain ⟨hcopied, hbuilt⟩ := hspares
    have hgoal := hcopied c (List.mem_append_right _ (List.mem_singleton_self c))
    change disk.bytesAt _ = _
    rw [hwrite, h.here_eq, Disk.Write.apply_manifestPath hgoal]
    exact h.index ⟨fun d hd ↦ hcopied d (List.mem_append_left _ hd), hbuilt⟩
  · rcases List.mem_append.1 hd with hd | hd
    · exact h.source_append _ d hd hbelow
    · obtain rfl := List.mem_singleton.1 hd
      intro hplace
      rw [← h.outside (fun w hw ↦ hbelow w (List.mem_append_left _ hw)) hplace, hc, ← h.here_eq]
      exact hsource

/-- An asset that is written is one more write. -/
theorem build {b : Asset.Build} {text : String} (h : m.Stocked p here held ⟨cs, bs⟩ ws)
    (hb : b.write? = some ⟨b.published.path, text.toUTF8, true⟩) {disk : Disk}
    (hwrite : Disk.writeText b.published.path text m.disk = .ok () disk) :
    Stocked p here held ⟨cs, bs ++ [b]⟩ (ws ++ b.write?.toList) ⟨disk, m.manifest⟩ := by
  have hwritten := Disk.written_of_ok hwrite
  rw [hb, Option.toList_some]
  refine ⟨h.toReplayed.write hwritten.changes.here_eq hwritten.bytesAt fun _ ↦ hwritten.name,
    fun hspares ↦ ?_, fun a ha hheld ↦ ?_, h.source_append _⟩
  · obtain ⟨hcopied, hbuilt⟩ := hspares
    have hgoal := hbuilt b (List.mem_append_right _ (List.mem_singleton_self b)) _ hb
    change disk.bytesAt _ = _
    rw [hwritten.bytesAt, h.here_eq, Disk.Write.apply_manifestPath hgoal]
    exact h.index ⟨hcopied, fun a ha ↦ hbuilt a (List.mem_append_left _ ha)⟩
  · rcases List.mem_append.1 ha with ha | ha
    · exact h.built_append _ a ha hheld
    · obtain rfl := List.mem_singleton.1 ha
      exact ⟨_, List.mem_append_right _ (List.mem_singleton_self _), rfl⟩

/-- An asset whose file is there already is no write. -/
theorem reuse {b : Asset.Build} (h : m.Stocked p here held ⟨cs, bs⟩ ws)
    (hfile : held (b.published.path.place here) = none →
      ∃ w ∈ ws, w.goal here = b.published.path.place here) :
    m.Stocked p here held ⟨cs, bs ++ [b]⟩ ws where
  toReplayed := h.toReplayed
  index hspares := h.index ⟨hspares.1, fun a ha ↦ hspares.2 a (List.mem_append_left _ ha)⟩
  built a ha := by
    rcases List.mem_append.1 ha with ha | ha
    · exact h.built a ha
    · rw [List.mem_singleton.1 ha]
      exact hfile
  source := h.source

end Stocked

/-- The manifest is empty and so is the target, if it is a folder; all else is as it was. -/
structure Swept (p : Pipeline) (d : Disk) (m : Store) : Prop where
  here_eq : m.disk.here = d.here
  path : m.manifest.path = some p.manifestPath
  empty : m.manifest.entries = []
  bytes : m.disk.bytesAt = d.outside (p.targetPath.place d.here)

theorem Swept.stocked {d : Disk} (h : m.Swept p d) :
    m.Stocked p d.here (d.outside (p.targetPath.place d.here)) ⟨[], []⟩ [] where
  here_eq := h.here_eq
  path := h.path
  bytes := h.bytes
  name := List.forall_mem_nil _
  entry key value hget _ := by
    unfold Manifest.get? at hget
    rw [h.empty] at hget
    cases hget
  index _ := by
    rw [h.bytes, if_pos h.empty]
    exact if_pos (p.isBelow_manifestPath d.here)
  built := List.forall_mem_nil _
  source := List.forall_mem_nil _

end Manifest.Store

namespace Site

open Manifest.Store

variable {p : Pipeline} {here : List String} {held : List String → Option ByteArray}
  {cs : List Static.Deposit} {bs : List Asset.Build} {ws : List Disk.Write}

/-- A failure is not looked at. -/
def Fails (_ : Failure) (_ : Site) : Prop := True

/-! ## Static files -/

theorem ensures_index (destination : String) (source : Static.Source) :
    Ensures (Framed p (Stocked p here held ⟨cs, bs⟩ ws)) (staticName destination source)
      (fun _ ↦ Framed p fun m ↦ m.Stocked p here held ⟨cs, bs⟩ (ws ++ p.indexWrites
        (if p.fingerprintsCopies then some (Manifest.render m.manifest.entries) else none)))
      Fails := by
  refine Ensures.bind Ensures.get fun s ↦ ?_
  rintro t ⟨rfl, ht⟩
  rw [ht.fingerprintsCopies]
  cases p.fingerprintsCopies with
  | false =>
    refine ht.mono fun m hm ↦ ?_
    change m.Stocked p here held ⟨cs, bs⟩ (ws ++ [])
    rwa [List.append_nil]
  | true =>
    have hadd : ∀ key value, Ensures (Stocked p here held ⟨cs, bs⟩ ws)
        (Manifest.add (Pipeline.slashed [destination, key]) value)
        (fun _ m ↦ m.Stocked p here held ⟨cs, bs⟩
          (ws ++ [p.indexWrite (Manifest.render m.manifest.entries)])) fun _ _ ↦ True := by
      intro key value m hm
      cases hadded : Manifest.add (Pipeline.slashed [destination, key]) value m with
      | ok x e => exact hm.add (.inl (Pipeline.head_toSlashes_slashed _)) hadded
      | error why e => trivial
    have hnamed : Ensures (Framed p (Stocked p here held ⟨cs, bs⟩ ws))
        (do
          let bytes ← ask fun s ↦ Disk.orFail (s.disk.readBytes source.path)
          let filename := fingerprintedName source.rel (Sha1.hex bytes)
          ofManifest (Manifest.add (Pipeline.slashed [destination, source.rel])
            (Pipeline.slashed [destination, filename]))
          return filename)
        (fun _ ↦ Framed p fun m ↦ m.Stocked p here held ⟨cs, bs⟩
          (ws ++ [p.indexWrite (Manifest.render m.manifest.entries)])) Fails := by
      refine Ensures.bind (ensures_ask fun _ _ _ _ ↦ trivial) fun bytes ↦ ?_
      have hsaved : Ensures (Framed p (Stocked p here held ⟨cs, bs⟩ ws))
          (ofManifest (Manifest.add (Pipeline.slashed [destination, source.rel])
            (Pipeline.slashed [destination, fingerprintedName source.rel (Sha1.hex bytes)])))
          (fun _ ↦ Framed p fun m ↦ m.Stocked p here held ⟨cs, bs⟩
            (ws ++ [p.indexWrite (Manifest.render m.manifest.entries)])) Fails :=
        (ensures_ofManifest (hadd source.rel _)).failing fun _ _ _ ↦ trivial
      refine Ensures.bind (hsaved.pre fun _ hs ↦ hs.1) fun _ ↦ ?_
      exact Ensures.pure _ fun _ hs ↦ hs
    exact hnamed t ht

theorem ensures_deposit (hroot : p.root.anchor ≠ .none) (destination : String)
    (source : Static.Source) :
    Ensures (Framed p (Stocked p here held ⟨cs, []⟩ ((Made.mk cs []).writes p)))
      (deposit destination source)
      (fun c ↦ Framed p (Stocked p here held ⟨cs ++ [c], []⟩ ((Made.mk (cs ++ [c]) []).writes p)))
      Fails := by
  refine Ensures.bind (ensures_index destination source) fun filename ↦ ?_
  refine Ensures.bind Ensures.get fun s ↦ ?_
  have hcopy : Ensures (fun t ↦ t = s ∧ t.Framed p fun m ↦ m.Stocked p here held ⟨cs, []⟩
        ((Made.mk cs []).writes p ++ p.indexWrites
          (if p.fingerprintsCopies then some (Manifest.render m.manifest.entries) else none)))
      (ofDisk (Disk.copy source.path (s.pipeline.copyTarget destination filename))
        (.notWritten (s.pipeline.copyTarget destination filename)))
      (fun _ ↦ Framed p (Stocked p here held ⟨cs ++ [s.depositOf destination filename source], []⟩
        ((Made.mk (cs ++ [s.depositOf destination filename source]) []).writes p))) Fails := by
    rintro t ⟨rfl, ht⟩
    have hanchor : (t.pipeline.copyTarget destination filename).anchor ≠ .none := by
      rw [ht.copyTarget]
      exact Pipeline.anchor_copyTarget_ne hroot destination filename
    unfold ofDisk
    cases hcopy : Disk.copy source.path (t.pipeline.copyTarget destination filename) t.disk with
    | ok x disk =>
      refine ⟨ht.pipeline, ?_⟩
      have hstocked := ht.store.copy hanchor hcopy (Pipeline.slashed [destination, filename])
        (if t.pipeline.fingerprintsCopies then some (Manifest.render t.pipeline.manifest.entries)
          else none)
      rw [← ht.fingerprintsCopies] at hstocked
      rw [Made.writes_copied, Static.Deposit.writes, ← List.append_assoc]
      exact hstocked
    | error why disk => trivial
  refine Ensures.bind hcopy fun _ ↦ Ensures.bind (ensures_say _ _) fun _ ↦ ?_
  exact Ensures.pure _ fun _ ht ↦ ht

/-! ## Assets -/

/-- Publishing an asset writes its file, and in production the manifest, or finds the file there. -/
theorem stocked_publish {s t : Asset.State} {r : Published}
    (hs : s.site.Framed p (Stocked p here held ⟨cs, bs⟩ ws)) (hfits : s.asset.DigestFits)
    (hslash : '/' ∉ s.asset.path.name.toList) (hpublish : Asset.publish s = .ok r t) (name : String) :
    t.site.Framed p (Stocked p here held ⟨cs, bs ++ [t.site.buildOf name r t.asset]⟩
      (ws ++ (t.site.buildOf name r t.asset).writes p)) := by
  have hwrite? : ∀ {text file}, t.asset.builtBody = some text →
      (t.site.buildOf name (Asset.publishedAs s file true false) t.asset).write? =
        some ⟨s.site.pipeline.targetPath.join file, text.toUTF8, true⟩ := by
    intro text file hbuilt
    unfold Asset.Build.write? buildOf
    rw [hbuilt]
    rfl
  have houtcome := Asset.outcome_of_publish hfits
  rw [hpublish] at houtcome
  cases houtcome with
  | recorded file hprod hfile hne =>
    have hself : s.LeadsTo s.store s := ⟨rfl, rfl, rfl, rfl⟩
    refine hs.leadsTo hself ?_
    obtain ⟨w, hw, hpath⟩ := hs.store.entry s.asset.basename file hfile (Path.head_of_no_slash hslash)
    have hnone : (s.site.buildOf name (Asset.publishedAs s file false true) s.asset).writes p = [] := rfl
    rw [hnone, List.append_nil]
    refine hs.store.reuse fun _ ↦ ⟨w, hw, ?_⟩
    unfold Disk.Write.goal
    rw [hpath, ← hs.targetPath]
    rfl
  | kept text t hdev hbuilt hheld h =>
    refine hs.leadsTo h ?_
    have hnone : (t.site.buildOf name (Asset.publishedAs s (Asset.fileName s text) false false)
      t.asset).writes p = [] := rfl
    rw [hnone, List.append_nil]
    refine hs.store.reuse fun hempty ↦ Disk.exists_of_replay_ne_none hempty ?_
    obtain ⟨time, read, hfind, -⟩ := hheld
    have hbytes := Disk.bytesAt_of_readBytes (Disk.readBytes_of_find hfind)
    rw [hs.store.bytes, hs.store.here_eq] at hbytes
    exact ne_of_eq_of_ne hbytes (Option.some_ne_none _)
  | stored text disk t hdev hbuilt hwrite h =>
    refine hs.leadsTo h ?_
    have hdev' : t.site.pipeline.inProduction = false := by
      rw [h.pipeline]
      exact hdev
    have hnone : (t.site.buildOf name (Asset.publishedAs s (Asset.fileName s text) true false)
        t.asset).index = none := by
      unfold buildOf
      rw [hdev']
      rfl
    rw [Asset.Build.writes, hnone, ← List.append_assoc]
    exact (List.append_nil _).symm ▸ hs.store.build (hwrite? hbuilt) hwrite
  | saved text disk store t hprod hbuilt hwrite hadd h =>
    refine hs.leadsTo h ?_
    have hprod' : t.site.pipeline.inProduction = true := by
      rw [h.pipeline]
      exact hprod
    have hindex : (t.site.buildOf name (Asset.publishedAs s (Asset.fileName s text) true false)
        t.asset).index = some (Manifest.render store.manifest.entries) := by
      unfold buildOf
      rw [hprod', h.pipeline]
      rfl
    have hbuild := hs.store.build (hwrite? hbuilt) hwrite
    rw [Asset.Build.writes, hindex, ← List.append_assoc]
    refine hbuild.add (.inr ⟨_, List.mem_append_right _ (Option.mem_toList.2 (hwrite? hbuilt)), ?_⟩) hadd
    rw [hs.targetPath]

theorem ensures_produce (hhere : ∀ name ∈ here, Path.IsName name ∧ name ≠ "..")
    (hroots : ∀ root ∈ p.searchPath.roots, root.IsProper) (name : String) :
    Ensures (Framed p (Stocked p here held ⟨cs, bs⟩ ((Made.mk cs bs).writes p))) (produce name)
      (fun b ↦ Framed p (Stocked p here held ⟨cs, bs ++ [b]⟩ ((Made.mk cs (bs ++ [b])).writes p)))
      Fails := by
  refine Ensures.bind (ensures_say _ _) fun _ ↦ ?_
  refine Ensures.bind (ensures_ask fun _ _ _ _ ↦ trivial) fun a ↦ ?_
  have hrun : Ensures (fun s ↦ s.Framed p (Stocked p here held ⟨cs, bs⟩ ((Made.mk cs bs).writes p)) ∧
        s.getAsset name = .ok a) (Asset.runOn a Asset.publish)
      (fun made t ↦ t.Framed p (Stocked p here held ⟨cs, bs ++ [t.buildOf name made.1 made.2]⟩
        ((Made.mk cs (bs ++ [t.buildOf name made.1 made.2])).writes p))) Fails := by
    rintro s ⟨hs, ha⟩
    obtain ⟨hfits, hslash⟩ :=
      fits_of_getAsset (hs.isProper (hs.store.here_eq.symm ▸ hhere) hroots) ha
    unfold Asset.runOn
    cases hpublish : Asset.publish ⟨s, a⟩ with
    | ok r t =>
      dsimp only
      rw [Made.writes_built]
      exact stocked_publish (s := ⟨s, a⟩) hs hfits hslash hpublish name
    | error e t => trivial
  refine Ensures.bind hrun fun made ↦ Ensures.bind Ensures.get fun s ↦ ?_
  refine Ensures.pure _ ?_
  rintro t ⟨rfl, ht⟩
  exact ht

/-! ## The whole release -/

/-- A site with a target, which is a folder or has nothing below it. -/
structure IsReady (s : Site) : Prop where
  anchored : s.pipeline.root.anchor ≠ .none
  proper : s.IsProper
  manifest : s.pipeline.manifest.path = some s.pipeline.manifestPath
  target : s.disk.leadsToFolder s.pipeline.targetPath = true ∨
    ∀ place, Path.IsBelow s.targetPlace place → s.disk.bytesAt place = none

/-- Forgetting the manifest takes at most its file away. -/
theorem ensures_forget {d : Disk} {manifest : Manifest} (hpath : manifest.path = some p.manifestPath) :
    Ensures (fun m : Manifest.Store ↦ m = ⟨d, manifest⟩) Manifest.delete
      (fun _ m ↦ (Disk.ChangesOnly [] [p.manifestPath] d m.disk ∧
        ∀ place, d.bytesAt place = none → m.disk.bytesAt place = none) ∧
        m.manifest = { manifest with entries := [] }) fun _ _ ↦ True := by
  rintro m rfl
  rw [Manifest.delete_eq hpath]
  have hlast : p.manifestPath.names.getLast? = some Manifest.fileName := by
    rw [p.names_manifestPath, List.getLast?_concat]
    rfl
  rcases Disk.remove_cases p.manifestPath d with
    ⟨hremove, -⟩ | ⟨place, bytes, hlocate, hkind, hremove⟩ | ⟨hremove, -⟩ | ⟨hremove, -⟩
  · rw [hremove]
    exact ⟨⟨.refl _ _ d, fun _ hnone ↦ hnone⟩, rfl⟩
  · rw [hremove]
    have hdetach := Disk.kindAt_detach_of_locate hlast (by decide) hlocate hkind
    refine ⟨⟨.of_file (by simp) (by simp) hdetach (by simp [hkind]) (by simp)
      ⟨_, List.mem_singleton_self _, Disk.locate_eq_place hlocate⟩, fun other hnone ↦ ?_⟩, rfl⟩
    change ((d.detach place).kindAt other).join = none
    rw [hdetach]
    by_cases hother : other = place
    · rw [hother, Function.update_self]
      rfl
    · rw [Function.update_of_ne hother]
      exact hnone
  · rw [hremove]
    trivial
  · rw [hremove]
    trivial

/-- Clearing a folder, or what has nothing below it, leaves what is not below. -/
theorem bytesAt_clear {path : Path} {d e : Disk} {x : Unit} (h : Disk.clear path d = .ok x e)
    (htarget : d.leadsToFolder path = true ∨
      ∀ place, Path.IsBelow (path.place d.here) place → d.bytesAt place = none) :
    e.here = d.here ∧ e.bytesAt = d.outside (path.place d.here) := by
  rcases Disk.clear_cases path d with
    ⟨hclear, hfile⟩ | ⟨place, f, hlocate, hkind, hclear, hhere, -, hafter⟩ | ⟨hclear, -⟩
  · rw [hclear] at h
    cases h
    refine ⟨rfl, funext fun place ↦ ?_⟩
    unfold Disk.outside
    split
    case isTrue hbelow =>
      refine htarget.resolve_left (fun hfolder ↦ ?_) place hbelow
      rw [Disk.isFolder_of_leadsToFolder hfolder] at hfile
      cases hfile
    case isFalse => rfl
  · rw [hclear] at h
    cases h
    refine ⟨hhere, funext fun other ↦ ?_⟩
    rw [Disk.locate_eq_place hlocate] at hafter
    unfold Disk.outside Disk.bytesAt
    rw [hafter]
    change (if Path.IsBelow (path.place d.here) other then none else d.kindAt other).join = _
    split
    · rfl
    · rfl
  · rw [hclear] at h
    cases h

/-- Emptying the target leaves nothing below it. -/
theorem ensures_sweep {s : Site} (hs : s.IsReady) :
    Ensures (Framed s.pipeline (· = ⟨s.disk, s.pipeline.manifest⟩)) clearTarget
      (fun _ ↦ Framed s.pipeline (Swept s.pipeline s.disk)) Fails := by
  have hclear : ∀ manifest, Ensures
      (fun d ↦ (Disk.ChangesOnly [] [s.pipeline.manifestPath] s.disk d ∧
        ∀ place, s.disk.bytesAt place = none → d.bytesAt place = none) ∧
        manifest = { s.pipeline.manifest with entries := [] })
      (Disk.clear s.pipeline.targetPath) (fun _ d ↦ Swept s.pipeline s.disk ⟨d, manifest⟩)
      fun _ _ ↦ True := by
    rintro manifest d ⟨⟨hd, hnone⟩, rfl⟩
    have hout : ∀ place, ¬Path.IsBelow s.targetPlace place → d.bytesAt place = s.disk.bytesAt place := by
      intro place hplace
      refine hd.bytesAt ?_
      rintro ⟨q, hq, rfl⟩
      rw [List.mem_singleton.1 hq] at hplace
      exact hplace (s.pipeline.isBelow_manifestPath s.disk.here)
    have htarget : d.leadsToFolder s.pipeline.targetPath = true ∨
        ∀ place, Path.IsBelow (s.pipeline.targetPath.place d.here) place → d.bytesAt place = none := by
      rw [hd.here_eq]
      exact hs.target.imp (Disk.leadsToFolder_persists hd.here_eq fun _ ↦ hd.folder)
        fun hempty place hbelow ↦ hnone place (hempty place hbelow)
    cases hcleared : Disk.clear s.pipeline.targetPath d with
    | error why e => trivial
    | ok x e =>
      obtain ⟨hhere, hbytes⟩ := bytesAt_clear hcleared htarget
      rw [hd.here_eq] at hhere hbytes
      refine ⟨hhere, hs.manifest, rfl, ?_⟩
      rw [hbytes]
      funext place
      unfold Disk.outside
      split
      case isTrue => rfl
      case isFalse hplace => exact hout place hplace
  refine Ensures.bind (ensures_say _ _) fun _ ↦ ?_
  refine Ensures.bind ((ensures_ofManifest (ensures_forget hs.manifest)).failing fun _ _ _ ↦ trivial)
    fun _ ↦ ?_
  refine Ensures.bind Ensures.get fun t ↦ ?_
  rintro t ⟨rfl, ht⟩
  rw [ht.targetPath]
  exact (ensures_ofDisk (F := fun _ _ ↦ True) hclear).failing (fun _ _ _ ↦ trivial) t ht

theorem ensures_makeRelease {s : Site} (hs : s.IsReady) (compiles : Bool) :
    Ensures (Framed s.pipeline (· = ⟨s.disk, s.pipeline.manifest⟩)) (makeRelease compiles)
      (fun made ↦ Framed s.pipeline (Stocked s.pipeline s.disk.here (s.disk.outside s.targetPlace)
        made (made.writes s.pipeline))) Fails := by
  refine Ensures.bind (ensures_ask fun _ _ _ _ ↦ trivial) fun skips ↦ ?_
  refine Ensures.bind (ensures_announce.pre fun _ ht ↦ ht.1) fun _ ↦ ?_
  refine Ensures.bind (ensures_sweep hs) fun _ ↦ ?_
  have hcopy : Ensures (Framed s.pipeline (Swept s.pipeline s.disk)) (copyAllBy deposit skips)
      (fun cs ↦ Framed s.pipeline (Stocked s.pipeline s.disk.here (s.disk.outside s.targetPlace)
        ⟨cs, []⟩ ((Made.mk cs []).writes s.pipeline))) Fails := by
    refine (ensures_copyAllBy (I := fun cs ↦ Stocked s.pipeline s.disk.here
      (s.disk.outside s.targetPlace) ⟨cs, []⟩ ((Made.mk cs []).writes s.pipeline))
      (fun _ _ _ _ _ ↦ trivial) (fun made entry _ f _ ↦ ?_) skips).pre
      fun _ ht ↦ ht.mono fun _ hm ↦ hm.stocked
    exact ensures_deposit hs.anchored entry.1 f
  refine Ensures.bind hcopy fun cs ↦ ?_
  cases compiles with
  | false => exact Ensures.pure _ fun _ ht ↦ ht
  | true =>
    refine Ensures.bind (ensures_compileAllBy (I := fun bs ↦ Stocked s.pipeline s.disk.here
      (s.disk.outside s.targetPlace) ⟨cs, bs⟩ ((Made.mk cs bs).writes s.pipeline))
      (fun _ _ _ _ _ ↦ trivial) fun made name ↦ ?_) fun bs ↦ Ensures.pure _ fun _ ht ↦ ht
    exact ensures_produce hs.proper.here hs.proper.roots name

/-- The place of a copied URL or of a compiled asset. -/
def IsProduct (s : Site) (made : Made) (place : List String) : Prop :=
  (∃ url ∈ (made.report s.pipeline).copied, place = (s.pipeline.publishedPath url).place s.disk.here) ∨
    ∃ b ∈ made.built, place = b.published.path.place s.disk.here

/-- What a release leaves below its target: the files of the URLs, those of the compiled assets and the
manifest, each with the bytes that were written there last. -/
structure Filled (s : Site) (made : Made) (t : Site) : Prop where
  bytes : ∀ place, Path.IsBelow s.targetPlace place →
    t.disk.bytesAt place = Disk.latest s.disk.here (made.writes s.pipeline) place
  file : ∀ place, Path.IsBelow s.targetPlace place → (t.disk.bytesAt place ≠ none ↔
    IsProduct s made place ∨
      place = s.pipeline.manifestPath.place s.disk.here ∧ t.pipeline.manifest.entries ≠ [])
  index : made.SparesIndex s.pipeline s.disk.here →
    t.disk.bytesAt (s.pipeline.manifestPath.place s.disk.here) =
      if t.pipeline.manifest.entries = [] then none
      else some (Manifest.render t.pipeline.manifest.entries).toUTF8
  source : ∀ c ∈ made.copied, ¬Path.IsBelow s.targetPlace (c.source.place s.disk.here) →
    s.disk.bytesAt (c.source.place s.disk.here) = some c.bytes

theorem filled_of_stocked {s t : Site} {made : Made}
    (h : t.Framed s.pipeline (Stocked s.pipeline s.disk.here (s.disk.outside s.targetPlace) made
      (made.writes s.pipeline))) (hmade : made.IsUndisturbed s.pipeline s.disk.here) :
    Filled s made t := by
  have hempty : ∀ place, Path.IsBelow s.targetPlace place →
      s.disk.outside s.targetPlace place = none := fun _ hbelow ↦ if_pos hbelow
  have hbytes : ∀ place, Path.IsBelow s.targetPlace place →
      t.disk.bytesAt place = Disk.latest s.disk.here (made.writes s.pipeline) place := by
    intro place hbelow
    rw [h.store.bytes]
    exact Disk.replay_eq_latest (hempty place hbelow) hmade.apart
  have hwritten : ∀ place, Path.IsBelow s.targetPlace place → (t.disk.bytesAt place ≠ none ↔
      ∃ w ∈ made.writes s.pipeline, w.goal s.disk.here = place) := by
    intro place hbelow
    rw [hbytes place hbelow, Disk.latest_ne_none]
  have hurl : ∀ c ∈ made.copied, c.write.goal s.disk.here =
      (s.pipeline.publishedPath c.url).place s.disk.here := by
    intro c hc
    rw [← hmade.goal c hc]
    rfl
  have hproduct : ∀ place, Path.IsBelow s.targetPlace place → IsProduct s made place →
      ∃ w ∈ made.writes s.pipeline, w.goal s.disk.here = place := by
    rintro place hbelow (⟨url, hmem, rfl⟩ | ⟨b, hb, rfl⟩)
    · obtain ⟨c, hc, rfl⟩ := List.mem_map.1 hmem
      exact ⟨c.write, Made.mem_writes_of_copied hc, hurl c hc⟩
    · exact h.store.built b hb (hempty _ hbelow)
  have hindex := s.pipeline.isBelow_manifestPath s.disk.here
  have hspares : made.SparesIndex s.pipeline s.disk.here ∨
      IsProduct s made (s.pipeline.manifestPath.place s.disk.here) := by
    rw [or_iff_not_imp_right]
    refine fun hnot ↦ ⟨fun c hc heq ↦ hnot (.inl ?_), fun b hb w hw heq ↦ hnot (.inr ⟨b, hb, ?_⟩)⟩
    · exact ⟨c.url, List.mem_map_of_mem hc, heq.symm.trans (hurl c hc)⟩
    · exact heq.symm.trans (Asset.Build.goal_of_write hw _)
  refine ⟨hbytes, fun place hbelow ↦ ?_, h.store.index, fun c hc hout ↦ ?_⟩
  · constructor
    · intro hfile
      obtain ⟨w, hw, rfl⟩ := (hwritten place hbelow).1 hfile
      rcases Made.mem_writes hw with ⟨c, hc, rfl⟩ | ⟨b, hb, hw'⟩ | ⟨text, rfl⟩
      · exact .inl (.inl ⟨c.url, List.mem_map_of_mem hc, hurl c hc⟩)
      · exact .inl (.inr ⟨b, hb, Asset.Build.goal_of_write hw' _⟩)
      · refine hspares.symm.imp_right fun hs ↦ ⟨rfl, fun hnil ↦ hfile ?_⟩
        exact (h.store.index hs).trans (if_pos hnil)
    · rintro (hmade | ⟨rfl, hne⟩)
      · exact (hwritten place hbelow).2 (hproduct place hbelow hmade)
      · rcases hspares with hs | hmade
        · rw [h.store.index hs, if_neg hne]
          exact Option.some_ne_none _
        · exact (hwritten _ hindex).2 (hproduct _ hindex hmade)
  · rw [← h.store.source c hc hmade.below hout]
    exact (if_neg hout).symm

/-- A release that returns is the one that keeps its products. Its writes decide what every place holds,
and unless they disturb one another the target is filled by the products. -/
theorem release_exact {s t : Site} (hs : s.IsReady) {compiles : Bool} {report : Report}
    (h : release compiles s = .ok report t) :
    ∃ made, makeRelease compiles s = .ok made t ∧ report = made.report s.pipeline ∧
      t.disk.bytesAt = Disk.replay s.disk.here (s.disk.outside s.targetPlace)
        (made.writes s.pipeline) ∧
      (made.IsUndisturbed s.pipeline s.disk.here → Filled s made t) := by
  rw [release_eq, map_eq_pure_bind] at h
  obtain ⟨made, u, hmade, hreport⟩ := bind_eq_ok.1 h
  cases hreport
  have hstocked := (ensures_makeRelease hs compiles).ok ⟨rfl, rfl⟩ hmade
  exact ⟨made, hmade, rfl, hstocked.store.bytes, filled_of_stocked hstocked⟩

/-- A site with a script and a folder with one static file. -/
def porch (file : String) : Site :=
  let site := Site.sample "local" [("app.js", .file "A();\n".toUTF8 1)] []
  { site with
    disk := site.disk.attach ["static"] (.folder 0 [(file, .file "S".toUTF8 1)])
    pipeline := { site.pipeline with
      config := { site.pipeline.config with staticFiles := [("", ["static"])] } } }

theorem isReady_porch (file : String) : (porch file).IsReady where
  anchored := (by decide : (porch "").pipeline.root.anchor ≠ .none)
  proper := ⟨List.forall_mem_nil _, (isProper_sample "local" [] []).roots⟩
  manifest := (by decide : (porch "").pipeline.manifest.path = some (porch "").pipeline.manifestPath)
  target := Disk.leadsToFolder_or_empty (by decide : ".." ∉ (porch "").pipeline.targetPath.names)
    (by decide : ∀ name ∈ (porch "").pipeline.targetPath.names, Disk.isTooLong name = false)

theorem porch_filled :
    ∃ made t, makeRelease true (porch "a.txt") = .ok made t ∧ Filled (porch "a.txt") made t ∧
      (made.report (porch "a.txt").pipeline).copied = ["/a.txt"] ∧
      (made.report (porch "a.txt").pipeline).compiled = ["app.js"] := by
  have hrelease := eq_ok_of_result? (show result? (release true (porch "a.txt")) =
    some ⟨false, .absolute ["public", "assets"], ["/a.txt"], ["app.js"]⟩ by decide +kernel)
  have hundisturbed : (result? (makeRelease true (porch "a.txt"))).all fun made ↦
      decide (made.IsUndisturbed (porch "a.txt").pipeline []) := by decide +kernel
  obtain ⟨made, hmade, hreport, -, hfilled⟩ := release_exact (isReady_porch "a.txt") hrelease
  rw [hmade] at hundisturbed
  exact ⟨made, _, hmade, hfilled (of_decide_eq_true hundisturbed), by rw [← hreport], by rw [← hreport]⟩

/-- A static file named like the temporary file of a script is gone once the script is compiled. -/
theorem porch_swallowed :
    (porch "app.js.tmp").IsReady ∧
      ¬Path.IsBelow (porch "app.js.tmp").targetPlace ["static", "app.js.tmp"] ∧
      ¬Path.IsBelow (porch "app.js.tmp").targetPlace ["src", "app.js"] ∧
      result? (release true (porch "app.js.tmp")) =
        some ⟨false, .absolute ["public", "assets"], ["/app.js.tmp"], ["app.js"]⟩ ∧
      (porch "app.js.tmp").pipeline.publishedPath "/app.js.tmp" =
        .absolute ["public", "assets", "app.js.tmp"] ∧
      ((finalState (release true (porch "app.js.tmp"))).disk.exists?
        (.absolute ["public", "assets", "app.js.tmp"])).toOption = some false :=
  ⟨isReady_porch _, by decide, by decide, by decide +kernel, by decide, by decide +kernel⟩

end Site

end AssetBundler
