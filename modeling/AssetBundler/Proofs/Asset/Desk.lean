import AssetBundler.Proofs.Asset.Stored
import AssetBundler.Proofs.Disk.Reading

/-!
# Publishing one asset after another

A desk is a site with the assets that were looked up on it and what came of publishing them. On a desk
that starts in production with an empty manifest, and as long as every asset builds to the body that it
had at the start, each publication names a stored file: it holds a body with the digest in its name. The
manifest is kept by the name of the file alone, so that body is the asset's own exactly if the asset that
was recorded under the name has it too. Main statement: which file a publication names and what it
holds after any number of further calls, and a condition under which every publication is faithful.
-/

namespace AssetBundler

open AssetBundler.Action

/-- An asset as it was looked up, without anything known of its body. -/
def Asset.bare (a : Asset) : Asset := .ofFile a.path a.logical

structure Desk where
  site : Site
  assets : List Asset
  /-- The publications that ended well, with the assets they were returned for. -/
  results : List (Asset × Published)

namespace Desk

inductive Call where
  | obtain (logical : String)
  | write (index : Nat)

def start (s : Site) : Desk := ⟨s, [], []⟩

/-- The assets that were looked up so far. -/
def obtained (d : Desk) : List Asset := d.assets.map Asset.bare

/-- What a publication of the asset at a position leaves on the desk. -/
def settle (d : Desk) (index : Nat) (a : Asset) : EStateM.Result Failure Asset.State Published → Desk
  | .ok made s => ⟨s.site, d.assets.set index s.asset, d.results ++ [(a.bare, made)]⟩
  | .error _ s => ⟨s.site, d.assets.set index s.asset, d.results⟩

/-- One call; one that fails keeps what it did before. -/
def step (d : Desk) : Call → Desk
  | .obtain logical =>
    match d.site.getAsset logical with
    | .ok a => { d with assets := d.assets ++ [a] }
    | .error _ => d
  | .write index =>
    match d.assets[index]? with
    | some a => d.settle index a (Asset.publish ⟨d.site, a⟩)
    | none => d

/-- Every asset on the desk builds to the body that it had at the start. -/
def SameBodies (s : Site) (d : Desk) : Prop :=
  ∀ a ∈ d.assets, d.site.bodyOf a.path = s.bodyOf a.path

def run (s : Site) (calls : List Call) : Desk := calls.foldl step (start s)

/-- The sources stay as they are, as far as the bodies of assets are concerned, before each call. -/
def Undisturbed (s : Site) (calls : List Call) : Prop :=
  ∀ count, SameBodies s (run s (calls.take count))

/-- A production site that has published nothing yet. -/
structure IsFresh (s : Site) : Prop where
  production : s.pipeline.inProduction = true
  manifest : s.pipeline.manifest = ⟨some s.pipeline.manifestPath, []⟩
  proper : s.IsProper
  plain : s.pipeline.HasPlainTargets

/-- A publication is what it promises: its file lies in the target folder and holds the body of the
asset, whose digest is in the name. -/
structure Faithful (s : Site) (d : Desk) (a : Asset) (r : Published) : Prop where
  inside : s.pipeline.targetPath.place s.disk.here <+: r.path.place s.disk.here
  holds : ∃ text, s.bodyOf a.path = .ok text ∧ d.site.disk.readBytes r.path = .ok text.toUTF8 ∧
    digestIn r.path.name = Sha1.hex text.toUTF8

/-- Assets are told apart by the names of their files and their bodies by their digests, and no logical
path leaves the target folder. -/
structure Unambiguous (s : Site) (assets : List Asset) : Prop where
  body_eq : ∀ a ∈ assets, ∀ q ∈ assets, toSlashes q.basename = a.basename →
    s.bodyOf a.path = s.bodyOf q.path
  digest_inj : ∀ a ∈ assets, ∀ q ∈ assets, ∀ text other, s.bodyOf a.path = .ok text →
    s.bodyOf q.path = .ok other → Asset.digestOf text = Asset.digestOf other → text = other
  stays : ∀ a ∈ assets, ".." ∉ a.folderNames

/-- The file is stored under the name that the body of `q` has. -/
def IsPublished (s : Site) (d : Desk) (q : Asset) (file : String) : Prop :=
  q ∈ d.obtained ∧ ∃ text, s.bodyOf q.path = .ok text ∧
    file = q.digestName s.pipeline (Asset.digestOf text) ∧
    Asset.Stored s d.obtained d.site.disk (q.publishedPath s.pipeline text) (Asset.digestOf text)

/-- The asset whose file is named: the one that was recorded under the name of the file, or the asset
itself if it was written. -/
def IsSource (a : Asset) (r : Published) (q : Asset) : Prop :=
  if r.isFromManifest then toSlashes q.basename = a.basename else q = a

structure Consistent (s : Site) (d : Desk) : Prop where
  pipeline : d.site.pipeline = { s.pipeline with manifest := d.site.pipeline.manifest }
  manifest : d.site.pipeline.manifest.path = some s.pipeline.manifestPath
  here : d.site.disk.here = s.disk.here
  noSlash : ∀ a ∈ d.assets, '/' ∉ a.path.name.toList
  knows : ∀ a ∈ d.assets, a.Knows (s.bodyOf a.path)
  recorded : ∀ name file, d.site.pipeline.manifest.get? name = some file →
    ∃ q, toSlashes q.basename = name ∧ IsPublished s d q file
  results : ∀ a r, (a, r) ∈ d.results → a ∈ d.obtained ∧
    r.path = s.pipeline.targetPath.join r.filename ∧
    ∃ q, IsSource a r q ∧ IsPublished s d q r.filename

theorem consistent_start {s : Site} (hs : IsFresh s) : Consistent s (start s) where
  pipeline := rfl
  manifest := by
    change s.pipeline.manifest.path = _
    rw [hs.manifest]
  here := rfl
  noSlash := fun _ ha ↦ nomatch ha
  knows := fun _ ha ↦ nomatch ha
  recorded := by
    intro name file h
    change s.pipeline.manifest.get? name = some file at h
    rw [hs.manifest] at h
    cases h
  results := fun _ _ hr ↦ nomatch hr

theorem Consistent.isProper {s : Site} {d : Desk} (h : Consistent s d) (hs : IsFresh s) :
    d.site.IsProper where
  here := by
    rw [h.here]
    exact hs.proper.here
  roots := by
    rw [h.pipeline]
    exact hs.proper.roots

theorem IsPublished.mono {s : Site} {d e : Desk} {q : Asset} {file : String}
    (h : IsPublished s d q file) (hsite : e.site.disk = d.site.disk)
    (hsub : ∀ a ∈ d.obtained, a ∈ e.obtained) : IsPublished s e q file := by
  obtain ⟨hq, text, hbody, hfile, hstored⟩ := h
  rw [← hsite] at hstored
  exact ⟨hsub q hq, text, hbody, hfile, hstored.mono hsub⟩

theorem consistent_obtain {s : Site} {d : Desk} (hs : IsFresh s) (h : Consistent s d)
    (logical : String) : Consistent s (d.step (.obtain logical)) := by
  cases hasset : d.site.getAsset logical with
  | error e =>
    have hstep : d.step (.obtain logical) = d := by
      simp only [step, hasset]
    rw [hstep]
    exact h
  | ok a =>
    have hstep : d.step (.obtain logical) = { d with assets := d.assets ++ [a] } := by
      simp only [step, hasset]
    rw [hstep]
    obtain ⟨path, hpath, hmade⟩ := except_bind_eq_ok.1 hasset
    have ha : a = Asset.ofFile path (some logical) := (Except.ok.inj hmade).symm
    have hcanonical : path.IsCanonical := Site.isCanonical_of_getFile (h.isProper hs) hpath
    have hsub : ∀ q ∈ d.obtained, q ∈ obtained { d with assets := d.assets ++ [a] } := by
      intro q hq
      unfold obtained
      rw [List.map_append]
      exact List.mem_append_left _ hq
    refine ⟨h.pipeline, h.manifest, h.here, ?_, ?_, ?_, ?_⟩
    · intro b hb
      rcases List.mem_append.1 hb with hb | hb
      · exact h.noSlash b hb
      · rw [List.mem_singleton.1 hb, ha]
        exact hcanonical.no_slash_name
    · intro b hb
      rcases List.mem_append.1 hb with hb | hb
      · exact h.knows b hb
      · rw [List.mem_singleton.1 hb, ha]
        exact Asset.knows_ofFile _ _ _
    · intro name file hfile
      obtain ⟨q, hq, hpublished⟩ := h.recorded name file hfile
      exact ⟨q, hq, hpublished.mono rfl hsub⟩
    · intro b r hr
      obtain ⟨hb, hpath, q, hq, hpublished⟩ := h.results b r hr
      exact ⟨hsub b hb, hpath, q, hq, hpublished.mono rfl hsub⟩

theorem obtained_set {d : Desk} {index : Nat} {a b : Asset} (ha : d.assets[index]? = some a)
    (hb : b.bare = a.bare) : (d.assets.set index b).map Asset.bare = d.obtained := by
  unfold obtained
  rw [List.map_set, hb]
  apply List.ext_getElem?
  intro i
  rw [List.getElem?_set]
  by_cases hi : index = i
  · subst hi
    obtain ⟨hlt, hget⟩ := List.getElem?_eq_some_iff.1 ha
    simp [hlt, hget]
  · simp [hi]

section Settle

variable {s : Site} {d : Desk} {index : Nat} {a : Asset} {t : Asset.State} {m : Manifest}

theorem obtained_settled {outcome : Except Failure String} (ha : d.assets[index]? = some a)
    (hsame : Asset.State.SameAsset ⟨d.site, a⟩ t m outcome) (results : List (Asset × Published)) :
    obtained ⟨t.site, d.assets.set index t.asset, results⟩ = d.obtained := by
  apply obtained_set ha
  unfold Asset.bare
  rw [hsame.path, hsame.logical]

/-- A new state of the site and of the asset that keeps every stored file and has nothing recorded that
is not published. -/
theorem consistent_settle (h : Consistent s d) (ha : d.assets[index]? = some a)
    (hsame : Asset.State.SameAsset ⟨d.site, a⟩ t m (s.bodyOf a.path))
    (hm : m.path = some s.pipeline.manifestPath) (hhere : t.site.disk.here = d.site.disk.here)
    (hstored : ∀ q ∈ d.obtained, ∀ text,
      Asset.Stored s d.obtained d.site.disk (q.publishedPath s.pipeline text)
        (Asset.digestOf text) →
      Asset.Stored s d.obtained t.site.disk (q.publishedPath s.pipeline text)
        (Asset.digestOf text))
    (results : List (Asset × Published))
    (hrecorded : ∀ name file, m.get? name = some file →
      d.site.pipeline.manifest.get? name = some file ∨ toSlashes a.basename = name ∧
        IsPublished s ⟨t.site, d.assets.set index t.asset, results⟩ a.bare file)
    (hresults : ∀ b r, (b, r) ∈ results → (b, r) ∈ d.results ∨ b = a.bare ∧
      r.path = s.pipeline.targetPath.join r.filename ∧
      ∃ q, IsSource a.bare r q ∧ IsPublished s ⟨t.site, d.assets.set index t.asset, results⟩ q r.filename) :
    Consistent s ⟨t.site, d.assets.set index t.asset, results⟩ := by
  have hobtained := obtained_settled ha hsame results
  have hmem : a ∈ d.assets := List.mem_of_getElem? ha
  have hkeep : ∀ q file, IsPublished s d q file →
      IsPublished s ⟨t.site, d.assets.set index t.asset, results⟩ q file := by
    rintro q file ⟨hq, text, hbody, hfile, hold⟩
    unfold IsPublished
    rw [hobtained]
    exact ⟨hq, text, hbody, hfile, hstored q hq text hold⟩
  have hmanifest : t.site.pipeline.manifest = m := by
    rw [hsame.pipeline]
  refine ⟨?_, ?_, hhere.trans h.here, ?_, ?_, ?_, ?_⟩
  · change t.site.pipeline = { s.pipeline with manifest := t.site.pipeline.manifest }
    rw [hmanifest, hsame.pipeline]
    change { d.site.pipeline with manifest := m } = _
    rw [h.pipeline]
  · change t.site.pipeline.manifest.path = _
    rw [hmanifest, hm]
  · intro b hb
    rcases List.mem_or_eq_of_mem_set hb with hb | rfl
    · exact h.noSlash b hb
    · rw [hsame.path]
      exact h.noSlash a hmem
  · intro b hb
    rcases List.mem_or_eq_of_mem_set hb with hb | rfl
    · exact h.knows b hb
    · rw [hsame.path]
      exact hsame.knows
  · intro name file hfile
    change t.site.pipeline.manifest.get? name = some file at hfile
    rw [hmanifest] at hfile
    rcases hrecorded name file hfile with hold | ⟨hname, hnew⟩
    · obtain ⟨q, hq, hpublished⟩ := h.recorded name file hold
      exact ⟨q, hq, hkeep q file hpublished⟩
    · exact ⟨a.bare, hname, hnew⟩
  · intro b r hr
    rw [hobtained]
    rcases hresults b r hr with hold | ⟨rfl, hpath, q, hq, hnew⟩
    · obtain ⟨hb, hpath, q, hq, hpublished⟩ := h.results b r hold
      exact ⟨hb, hpath, q, hq, hkeep q _ hpublished⟩
    · exact ⟨List.mem_map_of_mem hmem, hpath, q, hq, hnew⟩

end Settle

theorem noSlash_of_obtained {s : Site} {d : Desk} (h : Consistent s d) {q : Asset}
    (hq : q ∈ d.obtained) : '/' ∉ q.path.name.toList := by
  obtain ⟨b, hb, rfl⟩ := List.mem_map.1 hq
  exact h.noSlash b hb

/-- The published path of an asset, as its publication spells it. -/
theorem publishedPath_eq {s : Site} {d : Desk} (h : Consistent s d) (a : Asset) (text : String) :
    d.site.pipeline.targetPath.join (Asset.fingerprintedName ⟨d.site, a⟩ text) =
      a.bare.publishedPath s.pipeline text := by
  change d.site.pipeline.targetPath.join (a.digestName d.site.pipeline (Asset.digestOf text)) = _
  rw [h.pipeline]
  rfl

theorem fingerprintedName_eq {s : Site} {d : Desk} (h : Consistent s d) (a : Asset)
    (text : String) : Asset.fingerprintedName ⟨d.site, a⟩ text =
      a.bare.digestName s.pipeline (Asset.digestOf text) := by
  change a.digestName d.site.pipeline (Asset.digestOf text) = _
  rw [h.pipeline]
  rfl

theorem targetPath_eq {s : Site} {d : Desk} (h : Consistent s d) :
    d.site.pipeline.targetPath = s.pipeline.targetPath := by
  rw [h.pipeline]
  rfl

theorem settle_eq (d : Desk) (index : Nat) (a : Asset)
    (r : EStateM.Result Failure Asset.State Published) : d.settle index a r =
      ⟨(finalState r).site, d.assets.set index (finalState r).asset,
        d.results ++ ((result? r).map fun made ↦ (a.bare, made)).toList⟩ := by
  cases r with
  | ok made t => rfl
  | error e t =>
    unfold settle
    simp [result?]

theorem mem_results_settle {d : Desk} {a b : Asset} {made : Published}
    {r : EStateM.Result Failure Asset.State Published}
    (h : (b, made) ∈ d.results ++ ((result? r).map fun made ↦ (a.bare, made)).toList) :
    (b, made) ∈ d.results ∨ b = a.bare ∧ result? r = some made := by
  rcases List.mem_append.1 h with h | h
  · exact .inl h
  · rw [Option.mem_toList, Option.map_eq_some_iff] at h
    obtain ⟨other, hother, heq⟩ := h
    obtain ⟨rfl, rfl⟩ := Prod.mk.inj heq
    exact .inr ⟨rfl, hother⟩

section Cases

variable {s : Site} {d : Desk} {index : Nat} {a : Asset}
  {r : EStateM.Result Failure Asset.State Published} (hs : IsFresh s) (h : Consistent s d)
  (ha : d.assets[index]? = some a)

include h ha

/-- A publication that records nothing and returns nothing new. -/
theorem consistent_failed
    (hsame : Asset.State.SameAsset ⟨d.site, a⟩ (finalState r) d.site.pipeline.manifest
      (s.bodyOf a.path))
    (hhere : (finalState r).site.disk.here = d.site.disk.here)
    (hstored : ∀ q ∈ d.obtained, ∀ text,
      Asset.Stored s d.obtained d.site.disk (q.publishedPath s.pipeline text)
        (Asset.digestOf text) →
      Asset.Stored s d.obtained (finalState r).site.disk (q.publishedPath s.pipeline text)
        (Asset.digestOf text))
    (hresult : result? r = none) : Consistent s (d.settle index a r) := by
  rw [settle_eq]
  refine consistent_settle h ha hsame h.manifest hhere hstored _ (fun _ _ hfile ↦ .inl hfile) ?_
  intro b made hmade
  rcases mem_results_settle hmade with hold | ⟨-, hnew⟩
  · exact .inl hold
  · rw [hresult] at hnew
    cases hnew

theorem consistent_recorded {file : String}
    (hfile : d.site.pipeline.manifest.get? a.basename = some file) :
    Consistent s (d.settle index a
      (.ok (Asset.publishedAs ⟨d.site, a⟩ file false true) ⟨d.site, a⟩)) := by
  have hmem : a ∈ d.assets := List.mem_of_getElem? ha
  rw [settle_eq]
  refine consistent_settle h ha ⟨rfl, rfl, rfl, h.knows a hmem⟩ h.manifest rfl
    (fun _ _ _ hold ↦ hold) _ (fun _ _ hfile ↦ .inl hfile) ?_
  intro b made hmade
  rcases mem_results_settle hmade with hold | ⟨rfl, hnew⟩
  · exact .inl hold
  · right
    rw [← Option.some.inj hnew]
    obtain ⟨q, hq, hpublished⟩ := h.recorded a.basename file hfile
    refine ⟨rfl, ?_, q, hq, hpublished.mono rfl ?_⟩
    · change d.site.pipeline.targetPath.join file = _
      rw [targetPath_eq h]
      rfl
    · intro b hb
      change b ∈ (d.assets.set index a).map Asset.bare
      rw [obtained_set ha rfl]
      exact hb

include hs

theorem consistent_written {text : String} {disk : Disk} (hbody : s.bodyOf a.path = .ok text)
    (hwrite : Disk.writeText (a.bare.publishedPath s.pipeline text) text d.site.disk = .ok () disk)
    (hsave : disk.LeavesBut [Disk.temporary s.pipeline.manifestPath, s.pipeline.manifestPath]
      (finalState r).site.disk)
    (hsame : Asset.State.SameAsset ⟨d.site, a⟩ (finalState r)
      (d.site.pipeline.manifest.recording a.basename (Asset.fingerprintedName ⟨d.site, a⟩ text))
      (s.bodyOf a.path))
    (hresult : ∀ made, result? r = some made →
      made = Asset.publishedAs ⟨d.site, a⟩ (Asset.fingerprintedName ⟨d.site, a⟩ text) true false) :
    Consistent s (d.settle index a r) := by
  have hmem : a.bare ∈ d.obtained := List.mem_map_of_mem (List.mem_of_getElem? ha)
  have hslash := noSlash_of_obtained h hmem
  have hpublished : ∀ results, IsPublished s
      ⟨(finalState r).site, d.assets.set index (finalState r).asset, results⟩ a.bare
      (Asset.fingerprintedName ⟨d.site, a⟩ text) := by
    intro results
    unfold IsPublished
    rw [obtained_settled ha hsame results]
    exact ⟨hmem, text, hbody, fingerprintedName_eq h a text, Asset.stored_after_manifest hs.plain
      hslash (Asset.stored_of_write hmem hbody hwrite) hsave⟩
  rw [settle_eq]
  refine consistent_settle h ha hsame h.manifest ?_ ?_ _ ?_ ?_
  · exact hsave.here_eq.trans (Disk.writeText_ok hwrite).1.here_eq
  · intro q hq other hold
    have hqslash := noSlash_of_obtained h hq
    exact Asset.stored_after_manifest hs.plain hqslash
      (Asset.stored_after_write hs.plain hqslash hslash hmem hbody hold hwrite) hsave
  · intro name file hfile
    rw [Manifest.get?_recording] at hfile
    by_cases hname : toSlashes a.basename = name
    · rw [if_pos hname, Option.some.injEq] at hfile
      rw [← hfile]
      exact .inr ⟨hname, hpublished _⟩
    · rw [if_neg hname] at hfile
      exact .inl hfile
  · intro b made hmade
    rcases mem_results_settle hmade with hold | ⟨rfl, hnew⟩
    · exact .inl hold
    · right
      rw [hresult made hnew]
      refine ⟨rfl, ?_, a.bare, rfl, hpublished _⟩
      change d.site.pipeline.targetPath.join _ = _
      rw [targetPath_eq h]
      rfl

end Cases

theorem consistent_write {s : Site} {d : Desk} (hs : IsFresh s) (h : Consistent s d)
    (hsame : SameBodies s d) (index : Nat) : Consistent s (d.step (.write index)) := by
  cases ha : d.assets[index]? with
  | none =>
    have hstep : d.step (.write index) = d := by
      simp only [step, ha]
    rw [hstep]
    exact h
  | some a =>
    have hstep : d.step (.write index) = d.settle index a (Asset.publish ⟨d.site, a⟩) := by
      simp only [step, ha]
    rw [hstep]
    have hmem : a ∈ d.assets := List.mem_of_getElem? ha
    have hslash := noSlash_of_obtained h (List.mem_map_of_mem hmem)
    have hprod : d.site.pipeline.inProduction = true := by
      rw [h.pipeline]
      exact hs.production
    have hcases := Asset.publication_of_production (s := ⟨d.site, a⟩) hprod (h.knows a hmem)
      (hsame a hmem) h.manifest
    generalize Asset.publish ⟨d.site, a⟩ = r at hcases
    cases hcases with
    | recorded file hfile hne => exact consistent_recorded h ha hfile
    | unbuilt e t hdisk hasset =>
      exact consistent_failed h ha hasset (congrArg Disk.here hdisk)
        (fun _ _ _ hold ↦ hdisk ▸ hold) rfl
    | unwritten text why e t hbody hwrite hasset =>
      rw [publishedPath_eq h] at hwrite
      refine consistent_failed h ha hasset (Disk.writeText_error hwrite).here_eq ?_ rfl
      intro q hq other hold
      exact Asset.stored_after_failure hs.plain (noSlash_of_obtained h hq) hslash hold hwrite
    | written text disk r hbody hwrite hsave hasset hresult =>
      rw [publishedPath_eq h] at hwrite
      exact consistent_written hs h ha hbody hwrite hsave hasset hresult

theorem run_concat (s : Site) (calls : List Call) (c : Call) :
    run s (calls ++ [c]) = (run s calls).step c := by
  unfold run
  rw [List.foldl_append]
  rfl

theorem consistent_run {s : Site} (hs : IsFresh s) {calls : List Call} (h : Undisturbed s calls) :
    Consistent s (run s calls) := by
  induction calls using List.reverseRecOn with
  | nil => exact consistent_start hs
  | append_singleton calls c ih =>
    have hbefore : Undisturbed s calls := by
      intro count
      have hcount := h (min count calls.length)
      rwa [List.take_append_of_le_length (Nat.min_le_right ..), ← List.take_eq_take_min] at hcount
    have hsame : SameBodies s (run s calls) := by
      have hall := hbefore calls.length
      rwa [List.take_length] at hall
    rw [run_concat]
    cases c with
    | obtain logical => exact consistent_obtain hs (ih hbefore) logical
    | write index => exact consistent_write hs (ih hbefore) hsame index

/-! ## What a publication names -/

/-- A path of names without double dots below another path leads to a place below its place. -/
theorem place_isPrefix {here names : List String} {p q : Path} (hanchor : q.anchor = p.anchor)
    (hnames : q.names = p.names ++ names) (hup : ".." ∉ names) : p.place here <+: q.place here := by
  unfold Path.place
  rw [hanchor, hnames, Path.follow_append, Path.follow_of_no_up hup]
  exact List.prefix_append ..

theorem faithful_iff {s : Site} {d : Desk} {a : Asset} {r : Published} {text : String}
    (hread : d.site.disk.readBytes r.path = .ok text.toUTF8)
    (hdigest : digestIn r.path.name = Sha1.hex text.toUTF8) :
    Faithful s d a r ↔ s.bodyOf a.path = .ok text ∧
      s.pipeline.targetPath.place s.disk.here <+: r.path.place s.disk.here := by
  constructor
  · rintro ⟨hinside, other, hbody, hother, -⟩
    rw [hread, Except.ok.injEq, toUTF8_inj] at hother
    rw [hother]
    exact ⟨hbody, hinside⟩
  · rintro ⟨hbody, hinside⟩
    exact ⟨hinside, text, hbody, hread, hdigest⟩

/-- The file that a publication names: it is where the body of its source is published, and it holds a
body of one of the assets with the digest that is in the name. -/
structure Names (s : Site) (d : Desk) (a : Asset) (r : Published) (q : Asset) (text : String) :
    Prop where
  source : IsSource a r q
  mem : q ∈ d.obtained
  path : ∃ body, s.bodyOf q.path = .ok body ∧ r.path = q.publishedPath s.pipeline body ∧
    Asset.digestOf body = Asset.digestOf text
  author : ∃ w ∈ d.obtained, s.bodyOf w.path = .ok text
  read : d.site.disk.readBytes r.path = .ok text.toUTF8
  digest : digestIn r.path.name = Sha1.hex text.toUTF8

theorem names_of_consistent {s : Site} {d : Desk} (hs : IsFresh s) (h : Consistent s d) {a : Asset}
    {r : Published} (hr : (a, r) ∈ d.results) : ∃ q text, Names s d a r q text := by
  obtain ⟨-, hpath, q, hsource, hq, body, hbody, hfile, hstored⟩ := h.results a r hr
  have hslash := noSlash_of_obtained h hq
  have hpath' : r.path = q.publishedPath s.pipeline body := by
    rw [hpath, hfile]
    rfl
  obtain ⟨w, hw, text, htext, hdigest, hread⟩ := hstored.readBytes
    (Asset.getLast?_publishedPath hs.plain hslash body)
    (Asset.hashedTargetName_ne (by decide) _ q body)
  rw [← hpath'] at hread
  refine ⟨q, text, hsource, hq, ⟨body, hbody, hpath', hdigest.symm⟩, ⟨w, hw, htext⟩, hread, ?_⟩
  rw [hpath', Asset.name_publishedPath hs.plain hslash, Asset.digestIn_hashedTargetName hs.plain,
    ← hdigest]
  rfl

theorem faithful_of_unambiguous {s : Site} {d : Desk} (hs : IsFresh s) (h : Consistent s d)
    (hunambiguous : Unambiguous s d.obtained) {a : Asset} {r : Published}
    (hr : (a, r) ∈ d.results) : Faithful s d a r := by
  obtain ⟨q, text, hnames⟩ := names_of_consistent hs h hr
  obtain ⟨body, hbody, hpath, hdigest⟩ := hnames.path
  obtain ⟨w, hw, htext⟩ := hnames.author
  have heq : body = text := hunambiguous.digest_inj q hnames.mem w hw body text hbody htext hdigest
  rw [faithful_iff hnames.read hnames.digest]
  constructor
  · have hsource := hnames.source
    unfold IsSource at hsource
    by_cases hmanifest : r.isFromManifest = true
    · rw [if_pos hmanifest] at hsource
      rw [hunambiguous.body_eq a (h.results a r hr).1 q hnames.mem hsource, hbody, heq]
    · rw [if_neg hmanifest] at hsource
      rw [← hsource, hbody, heq]
  · rw [hpath, Asset.publishedPath, Asset.join_digestName hs.plain
      (noSlash_of_obtained h hnames.mem)]
    refine place_isPrefix rfl rfl ?_
    rw [List.mem_append, not_or, List.mem_singleton]
    exact ⟨hunambiguous.stays q hnames.mem, (Asset.hashedTargetName_ne (by decide) _ q body).symm⟩

/-- Which file a publication names, what the file holds after all calls, and when that is what was to
be published. -/
theorem published_exact {s : Site} (hs : IsFresh s) {calls : List Call}
    (h : Undisturbed s calls) :
    (∀ a r, (a, r) ∈ (run s calls).results → ∃ q text, Names s (run s calls) a r q text ∧
      (Faithful s (run s calls) a r ↔ s.bodyOf a.path = .ok text ∧
        s.pipeline.targetPath.place s.disk.here <+: r.path.place s.disk.here)) ∧
    (Unambiguous s (run s calls).obtained →
      ∀ a r, (a, r) ∈ (run s calls).results → Faithful s (run s calls) a r) := by
  have hconsistent := consistent_run hs h
  constructor
  · intro a r hr
    obtain ⟨q, text, hnames⟩ := names_of_consistent hs hconsistent hr
    exact ⟨q, text, hnames, faithful_iff hnames.read hnames.digest⟩
  · intro hunambiguous a r hr
    exact faithful_of_unambiguous hs hconsistent hunambiguous hr

/-! ## Two scripts of one name -/

/-- A production site with two scripts of one name in two folders. -/
def twins : Site := .sample "production"
  [("a", .folder 0 [("app.js", .file "A();\n".toUTF8 1)]),
    ("b", .folder 0 [("app.js", .file "B();\n".toUTF8 1)])] []

theorem isFresh_twins : IsFresh twins where
  production := by decide
  manifest := by decide
  proper := Site.isProper_sample ..
  plain := Pipeline.hasPlainTargets_of_all (by decide)

theorem undisturbed_of_all {s : Site} {calls : List Call}
    (h : ∀ count ∈ List.range (calls.length + 1), ∀ a ∈ (run s (calls.take count)).assets,
      ((run s (calls.take count)).site.bodyOf a.path).toOption.isSome ∧
        ((run s (calls.take count)).site.bodyOf a.path).toOption = (s.bodyOf a.path).toOption) :
    Undisturbed s calls := by
  intro count a ha
  have htake : calls.take count = calls.take (min count calls.length) := List.take_eq_take_min
  rw [htake] at ha ⊢
  obtain ⟨hsome, heq⟩ := h (min count calls.length)
    (List.mem_range.2 (by omega)) a ha
  obtain ⟨text, htext⟩ := Option.isSome_iff_exists.1 hsome
  rw [eq_ok_of_toOption htext, eq_ok_of_toOption (heq.symm.trans htext)]

theorem published_twice_faithful :
    (run twins [.obtain "a/app.js", .write 0, .write 0]).results.length = 2 ∧
      ∀ a r, (a, r) ∈ (run twins [.obtain "a/app.js", .write 0, .write 0]).results →
        Faithful twins (run twins [.obtain "a/app.js", .write 0, .write 0]) a r := by
  have hobtained : (run twins [.obtain "a/app.js", .write 0, .write 0]).obtained =
      [.ofFile (.absolute ["src", "a", "app.js"]) (some "a/app.js")] := by decide +kernel
  refine ⟨by decide +kernel, (published_exact isFresh_twins
    (undisturbed_of_all (by decide +kernel))).2 ⟨?_, ?_, ?_⟩⟩
  · intro a ha q hq _
    rw [hobtained] at ha hq
    rw [List.mem_singleton.1 ha, List.mem_singleton.1 hq]
  · intro a ha q hq text other htext hother _
    rw [hobtained] at ha hq
    rw [List.mem_singleton.1 ha] at htext
    rw [List.mem_singleton.1 hq, htext] at hother
    exact Except.ok.inj hother
  · intro a ha
    rw [hobtained] at ha
    rw [List.mem_singleton.1 ha]
    decide +kernel

/-- Both scripts are looked up and written. -/
def twinCalls : List Call := [.obtain "a/app.js", .write 0, .obtain "b/app.js", .write 1]

/-- What the second publication returns. -/
def twinPublished : Published where
  path := .absolute ["public", "assets", "a", "app-989e96d8c5668ad41693d47ba511a827b5a1aaad.js"]
  url := "/assets/a/app-989e96d8c5668ad41693d47ba511a827b5a1aaad.js"
  filename := "a/app-989e96d8c5668ad41693d47ba511a827b5a1aaad.js"
  isWritten := false
  isFromManifest := true

/-- Of two assets with one file name the second is given the file of the first. -/
theorem twins_share_a_file :
    IsFresh twins ∧ Undisturbed twins twinCalls ∧
      (Asset.ofFile (.absolute ["src", "b", "app.js"]) (some "b/app.js"), twinPublished) ∈
        (run twins twinCalls).results ∧
      twins.bodyOf (.absolute ["src", "b", "app.js"]) = .ok "B();" ∧
      (run twins twinCalls).site.disk.readBytes twinPublished.path = .ok "A();".toUTF8 ∧
      ¬ Faithful twins (run twins twinCalls)
        (.ofFile (.absolute ["src", "b", "app.js"]) (some "b/app.js")) twinPublished := by
  have hbody : twins.bodyOf (.absolute ["src", "b", "app.js"]) = .ok "B();" :=
    eq_ok_of_toOption (by decide +kernel)
  have hread : (run twins twinCalls).site.disk.readBytes twinPublished.path =
      .ok "A();".toUTF8 := eq_ok_of_toOption (by decide +kernel)
  refine ⟨isFresh_twins, undisturbed_of_all (by decide +kernel), by decide +kernel, hbody, hread, ?_⟩
  rintro ⟨-, text, htext, hheld, -⟩
  have hown : text = "B();" := Except.ok.inj (htext.symm.trans hbody)
  rw [hread, Except.ok.injEq, hown] at hheld
  exact absurd hheld (by decide +kernel)

end Desk

end AssetBundler
