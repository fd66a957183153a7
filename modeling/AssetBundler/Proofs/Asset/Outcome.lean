import AssetBundler.Proofs.Asset.Freshness
import AssetBundler.Proofs.Asset.Production
import AssetBundler.Proofs.Disk.Refusal

/-!
# What publishing an asset comes to

A publication ends in one of seven ways (`Asset.Outcome`), in production and out of it: a recorded name
is used, the body cannot be built, a fresh file is kept, the file cannot be written, it is written, or it
is written and its name is recorded with or without success. Each way says what it leaves of the disk and
of the manifest; of a site nothing else that counts is changed.
-/

namespace AssetBundler

open AssetBundler.Action

namespace Asset

/-- A digest that is known is that of the body that is known. -/
def DigestFits (a : Asset) : Prop :=
  ∀ made, a.builtDigest = some made → ∃ text, a.builtBody = some text ∧ made = digestOf text

theorem digestFits_ofFile (path : Path) (logical : Option String) :
    (Asset.ofFile path logical).DigestFits := fun _ h ↦ nomatch h

/-- The disk and the manifest. -/
def State.store (s : State) : Manifest.Store := ⟨s.site.disk, s.site.pipeline.manifest⟩

/-- A later state of the same asset with the given disk and manifest. -/
structure State.LeadsTo (s : State) (store : Manifest.Store) (t : State) : Prop where
  disk : t.site.disk = store.disk
  pipeline : t.site.pipeline = { s.site.pipeline with manifest := store.manifest }
  path : t.asset.path = s.asset.path
  logical : t.asset.logical = s.asset.logical

theorem State.SameSource.leadsTo {s t : State} (h : s.SameSource t) : s.LeadsTo s.store t :=
  ⟨h.disk, h.pipeline, h.path, h.logical⟩

/-- The name that the body is published under. -/
def fileName (s : State) (text : String) : String :=
  if s.site.pipeline.inProduction then fingerprintedName s text
  else s.asset.outputName s.site.pipeline

/-- The file that the body is published in. -/
def filePath (s : State) (text : String) : Path :=
  s.site.pipeline.targetPath.join (fileName s text)

/-- The file holds UTF-8 that reads as the text. -/
def ReadsAs (d : Disk) (file : Path) (text : String) : Prop :=
  ∃ (time : Nat) (held : String), d.find file = .ok (.file held.toUTF8 time) ∧
    unifyNewlines held = text

/-- Everything that publishing an asset can do. -/
inductive Outcome (s : State) : EStateM.Result Failure State Published → Prop where
  | recorded (file : String) (hprod : s.site.pipeline.inProduction = true)
      (hfile : s.site.pipeline.manifest.get? s.asset.basename = some file) (hne : file ≠ "") :
      Outcome s (.ok (publishedAs s file false true) s)
  | unbuilt (e : Failure) (t : State) (h : s.LeadsTo s.store t) : Outcome s (.error e t)
  | kept (text : String) (t : State) (hdev : s.site.pipeline.inProduction = false)
      (hbuilt : t.asset.builtBody = some text)
      (hheld : ReadsAs s.site.disk (filePath s text) text) (h : s.LeadsTo s.store t) :
      Outcome s (.ok (publishedAs s (fileName s text) false false) t)
  | unwritten (text : String) (why : Disk.Error) (disk : Disk) (t : State)
      (hwrite : Disk.writeText (filePath s text) text s.site.disk = .error why disk)
      (h : s.LeadsTo ⟨disk, s.site.pipeline.manifest⟩ t) :
      Outcome s (.error (.notWritten (filePath s text) why) t)
  | stored (text : String) (disk : Disk) (t : State)
      (hdev : s.site.pipeline.inProduction = false) (hbuilt : t.asset.builtBody = some text)
      (hwrite : Disk.writeText (filePath s text) text s.site.disk = .ok () disk)
      (h : s.LeadsTo ⟨disk, s.site.pipeline.manifest⟩ t) :
      Outcome s (.ok (publishedAs s (fileName s text) true false) t)
  | saved (text : String) (disk : Disk) (store : Manifest.Store) (t : State)
      (hprod : s.site.pipeline.inProduction = true) (hbuilt : t.asset.builtBody = some text)
      (hwrite : Disk.writeText (filePath s text) text s.site.disk = .ok () disk)
      (hadd : Manifest.add s.asset.basename (fileName s text) ⟨disk, s.site.pipeline.manifest⟩ =
        .ok () store) (h : s.LeadsTo store t) :
      Outcome s (.ok (publishedAs s (fileName s text) true false) t)
  | unsaved (text : String) (disk : Disk) (store : Manifest.Store) (e : Failure) (t : State)
      (hprod : s.site.pipeline.inProduction = true)
      (hwrite : Disk.writeText (filePath s text) text s.site.disk = .ok () disk)
      (hadd : Manifest.add s.asset.basename (fileName s text) ⟨disk, s.site.pipeline.manifest⟩ =
        .error e store) (h : s.LeadsTo store t) : Outcome s (.error e t)

variable {s t u : State}

theorem digest_fits (hfits : s.asset.DigestFits) {made : String} (h : digest s = .ok made t) :
    ∃ text, t.asset.builtBody = some text ∧ made = digestOf text := by
  cases h ▸ digestOutcome s with
  | known hknown => exact hfits made hknown
  | @made text _ _ hbody =>
    have hbuilt := builtBody_of_body hbody
    exact ⟨text, hbuilt, rfl⟩

/-- If the digest is that of the body before, it is so afterwards. -/
def State.KeepsDigest (s t : State) : Prop := s.asset.DigestFits → t.asset.DigestFits

instance : IsPreorder State State.KeepsDigest where
  refl _ h := h
  trans _ _ _ h h' := fun hs ↦ h' (h hs)

theorem keepsDigest_of_asset_eq {α : Type} {x : Action α} (h : ∀ s, (finalState (x s)).asset = s.asset) :
    MovesAlong State.KeepsDigest x := by
  intro s hs
  rwa [h s]

theorem keepsDigest_body : MovesAlong State.KeepsDigest body := by
  intro s hs
  have houtcome := bodyOutcome s
  generalize body s = r at houtcome ⊢
  cases houtcome with
  | known => exact hs
  | built hnew =>
    intro made hmade
    obtain ⟨text, htext, -⟩ := hs made hmade
    cases hnew.symm.trans htext
  | failed => exact hs

theorem keepsDigest_digest : MovesAlong State.KeepsDigest digest := by
  intro s hs
  have houtcome := digestOutcome s
  generalize digest s = r at houtcome ⊢
  cases houtcome with
  | known => exact hs
  | @made text _ _ hbody =>
    have hbuilt := builtBody_of_body hbody
    exact fun _ hother ↦ ⟨text, hbuilt, (Option.some.inj hother).symm⟩
  | unbuilt _ hbody => exact keepsDigest_body.error hbody hs

theorem asset_onSite {α : Type} (action : Site.Action α) (s : State) :
    (finalState (onSite action s)).asset = s.asset := by
  unfold onSite
  cases action s.site <;> rfl

/-- Publishing in production keeps the digest that of the body. -/
theorem keepsDigest_publishFingerprinted : MovesAlong State.KeepsDigest publishFingerprinted := by
  have hget : MovesAlong State.KeepsDigest (get : Action State) := MovesAlong.of_stays fun _ ↦ rfl
  have hpath : ∀ name, MovesAlong State.KeepsDigest (outputPath name) := fun name ↦
    MovesAlong.bind hget fun _ ↦ MovesAlong.pure _
  refine MovesAlong.bind (MovesAlong.bind keepsDigest_digest fun _ ↦ MovesAlong.bind hget fun _ ↦
    MovesAlong.pure _) fun filename ↦ ?_
  refine MovesAlong.bind (hpath filename) fun target ↦ MovesAlong.bind keepsDigest_body fun text ↦ ?_
  refine MovesAlong.bind (keepsDigest_of_asset_eq (asset_onSite _)) fun _ ↦ ?_
  refine MovesAlong.bind hget fun _ ↦ ?_
  refine MovesAlong.bind (keepsDigest_of_asset_eq (asset_onSite _)) fun _ ↦ ?_
  exact MovesAlong.bind (hpath filename) fun _ ↦ MovesAlong.bind hget fun _ ↦ MovesAlong.pure _

theorem digestFits_publish (hprod : s.site.pipeline.inProduction = true) (hfits : s.asset.DigestFits) :
    (finalState (publish s)).asset.DigestFits := by
  rw [publish_of_inProduction hprod]
  split
  · exact hfits
  · exact keepsDigest_publishFingerprinted s hfits

theorem ask_eq_ok {α : Type} {question : State → Except Failure α} {a : α}
    (h : ask question s = .ok a t) : question s = .ok a ∧ t = s := by
  cases hquestion : question s with
  | ok b =>
    rw [ask_of_ok hquestion] at h
    cases h
    exact ⟨rfl, rfl⟩
  | error e =>
    rw [ask_of_error hquestion] at h
    cases h

/-- Nothing changes once the body is known. -/
def State.Rests (text : String) (s t : State) : Prop := s.asset.builtBody = some text → t = s

instance (text : String) : IsPreorder State (State.Rests text) where
  refl _ _ := rfl
  trans s t u hst htu hbuilt := by
    obtain rfl := hst hbuilt
    exact htu hbuilt

theorem rests_body (text : String) : MovesAlong (State.Rests text) body := by
  intro s hbuilt
  rw [body_of_built hbuilt]
  rfl

/-- Asking whether a file is fresh changes nothing but what building the body changes. -/
theorem movesAlong_isFresh {R : State → State → Prop} [IsPreorder State R] (hbody : MovesAlong R body)
    (target : Path) : MovesAlong R (isFresh target) := by
  have hask : ∀ {α : Type} (question : State → Except Failure α), MovesAlong R (ask question) :=
    fun question ↦ MovesAlong.of_stays (finalState_ask question)
  apply MovesAlong.bind (hask _)
  intro isFile
  cases isFile with
  | false => exact MovesAlong.pure false
  | true =>
    refine MovesAlong.bind (hask _) fun written ↦ ?_
    refine MovesAlong.bind (MovesAlong.bind hbody fun _ ↦ hask _) fun latest ↦ ?_
    by_cases holder : written < latest
    · simp only [holder, if_true]
      exact MovesAlong.pure false
    · simp only [holder, if_false]
      exact MovesAlong.bind (hask _) fun _ ↦ MovesAlong.bind hbody fun _ ↦ MovesAlong.pure _

theorem rests_isFresh (text : String) (target : Path) :
    MovesAlong (State.Rests text) (isFresh target) := movesAlong_isFresh (rests_body text) target

/-- A fresh file reads as the body. -/
theorem readsAs_of_isFresh {text : String} {target : Path} (hbody : body s = .ok text t)
    (h : isFresh target t = .ok true u) : ReadsAs s.site.disk target text := by
  have hagain : body t = .ok text t := body_again hbody
  obtain ⟨isFile, v, hask, hrest⟩ := bind_eq_ok.1 h
  obtain ⟨hfile, rfl⟩ := ask_eq_ok hask
  cases isFile with
  | false => cases hrest
  | true =>
    obtain ⟨bytes, time, hfind⟩ := Disk.find_of_isFile (isFile_eq_ok.1 hfile)
    have hlater := h
    rw [isFresh_of_file hfind] at hlater
    obtain ⟨latest, w, hlatest, -⟩ := bind_eq_ok.1 hlater
    obtain rfl : w = v := by
      have hfinal := finalState_lastModified hagain
      rwa [hlatest] at hfinal
    obtain rfl : u = w := (rests_isFresh text target).ok h (builtBody_of_body hbody)
    obtain ⟨-, held, rfl, hread⟩ := (isFresh_eq_true_iff hagain hlatest hfind).1 h
    rw [(movesAlong_body.ok hbody).disk] at hfind
    exact ⟨time, held, hfind, hread⟩

/-- The state with another disk and another manifest. -/
def State.withStore (s : State) (store : Manifest.Store) : State :=
  ⟨{ s.site with disk := store.disk, pipeline := { s.site.pipeline with manifest := store.manifest } },
    s.asset⟩

theorem State.LeadsTo.withStore {store : Manifest.Store} (h : s.LeadsTo store t)
    (next : Manifest.Store) : s.LeadsTo next (t.withStore next) where
  disk := rfl
  pipeline := by
    unfold State.withStore
    simp only [h.pipeline]
  path := h.path
  logical := h.logical

theorem record_eq (name : String) (t : State) :
    record name t = match Manifest.add t.asset.basename name t.store with
      | .ok _ store => .ok (publishedAs t name true false) (t.withStore store)
      | .error e store => .error e (t.withStore store) := by
  unfold record
  rw [bind_of_ok (get_apply t)]
  rcases hadd : Manifest.add t.asset.basename name t.store with ⟨_, store⟩ | ⟨e, store⟩
  · have hon : onSite (Site.ofManifest (Manifest.add t.asset.basename name)) t =
        .ok () (t.withStore store) := by
      unfold onSite Site.ofManifest
      rw [show Manifest.Store.mk t.site.disk t.site.pipeline.manifest = t.store from rfl, hadd]
      rfl
    rw [bind_of_ok hon]
    rfl
  · have hon : onSite (Site.ofManifest (Manifest.add t.asset.basename name)) t =
        .error e (t.withStore store) := by
      unfold onSite Site.ofManifest
      rw [show Manifest.Store.mk t.site.disk t.site.pipeline.manifest = t.store from rfl, hadd]
      rfl
    rw [bind_of_error hon]

theorem writeFile_eq (target : Path) (text : String) (t : State) :
    writeFile target text t = match Disk.writeText target text t.site.disk with
      | .ok _ disk => .ok () (t.withStore ⟨disk, t.site.pipeline.manifest⟩)
      | .error why disk =>
        .error (.notWritten target why) (t.withStore ⟨disk, t.site.pipeline.manifest⟩) := by
  rcases hwrite : Disk.writeText target text t.site.disk with ⟨_, disk⟩ | ⟨why, disk⟩
  · exact writeFile_of_ok hwrite
  · exact writeFile_of_error hwrite

theorem fileName_of_production (hprod : s.site.pipeline.inProduction = true) (text : String) :
    fileName s text = fingerprintedName s text := if_pos hprod

theorem fileName_of_development (hdev : s.site.pipeline.inProduction = false) (text : String) :
    fileName s text = s.asset.outputName s.site.pipeline := if_neg (by simp [hdev])

theorem publishedAs_of_pipeline {p : Pipeline} {manifest : Manifest} (hp : s.site.pipeline = p)
    (ht : t.site.pipeline = { p with manifest }) (name : String) (isWritten isFromManifest : Bool) :
    publishedAs t name isWritten isFromManifest = publishedAs s name isWritten isFromManifest := by
  unfold publishedAs
  rw [ht, hp]
  rfl

theorem publish_of_body_error (hdev : s.site.pipeline.inProduction = false) {e : Failure}
    (h : body s = .error e t) : publish s = .error e t := by
  have htarget : outputPath (s.asset.outputName s.site.pipeline) s = .ok (plainTarget s) s := rfl
  rw [publish_eq_publishPlain hdev]
  unfold publishPlain
  rw [bind_of_ok (get_apply s), bind_of_ok htarget]
  exact bind_of_error h

theorem outcome_of_fingerprint (hprod : s.site.pipeline.inProduction = true)
    (hfits : s.asset.DigestFits) : Outcome s (publishFingerprinted s) := by
  rcases hdigest : digest s with ⟨made, t⟩ | ⟨e, t⟩
  · obtain ⟨text, hbuilt, rfl⟩ := digest_fits hfits hdigest
    have hsame : s.SameSource t := movesAlong_digest.ok hdigest
    have hfile : s.site.pipeline.targetPath.join (fingerprintedName s text) = filePath s text := by
      unfold filePath
      rw [fileName_of_production hprod]
    rw [publishFingerprinted_of_digest hdigest hbuilt, hfile, ← fileName_of_production hprod text]
    have hwriteFile := writeFile_eq (filePath s text) text t
    rw [hsame.disk, hsame.pipeline] at hwriteFile
    rcases hwrite : Disk.writeText (filePath s text) text s.site.disk with ⟨_, disk⟩ | ⟨why, disk⟩
    · rw [hwrite] at hwriteFile
      rw [bind_of_ok hwriteFile, record_eq]
      have hbasename : (t.withStore ⟨disk, s.site.pipeline.manifest⟩).asset.basename =
          s.asset.basename := congrArg Path.name hsame.path
      rw [hbasename, show (t.withStore ⟨disk, s.site.pipeline.manifest⟩).store =
        ⟨disk, s.site.pipeline.manifest⟩ from rfl]
      have hleads := hsame.leadsTo.withStore ⟨disk, s.site.pipeline.manifest⟩
      rcases hadd : Manifest.add s.asset.basename (fileName s text)
        ⟨disk, s.site.pipeline.manifest⟩ with ⟨_, store⟩ | ⟨e, store⟩
      · rw [publishedAs_of_pipeline rfl hleads.pipeline]
        exact .saved text disk store _ hprod hbuilt hwrite hadd (hleads.withStore store)
      · exact .unsaved text disk store e _ hprod hwrite hadd (hleads.withStore store)
    · rw [hwrite] at hwriteFile
      rw [bind_of_error hwriteFile]
      exact .unwritten text why disk _ hwrite (hsame.leadsTo.withStore _)
  · rw [publishFingerprinted_of_digest_error hdigest]
    exact .unbuilt e t (movesAlong_digest.error hdigest).leadsTo

theorem outcome_of_development (hdev : s.site.pipeline.inProduction = false) :
    Outcome s (publish s) := by
  rcases hbody : body s with ⟨text, t⟩ | ⟨e, t⟩
  · have hsame : s.SameSource t := movesAlong_body.ok hbody
    have hfile : plainTarget s = filePath s text := by
      unfold filePath
      rw [fileName_of_development hdev]
      rfl
    rw [publish_of_development hdev hbody, hfile, ← fileName_of_development hdev text]
    have hbuilt : t.asset.builtBody = some text := builtBody_of_body hbody
    rcases hfresh : isFresh (filePath s text) t with ⟨fresh, u⟩ | ⟨e, u⟩
    · obtain rfl : u = t := (rests_isFresh text _).ok hfresh hbuilt
      rw [bind_of_ok hfresh]
      cases fresh with
      | true =>
        change Outcome s (.ok (publishedAs u (fileName s text) false false) u)
        rw [publishedAs_of_pipeline rfl hsame.leadsTo.pipeline]
        exact .kept text u hdev hbuilt (readsAs_of_isFresh hbody hfresh) hsame.leadsTo
      | false =>
        change Outcome s ((writeFile (filePath s text) text >>= fun _ ↦
          published (fileName s text) true false) u)
        have hwriteFile := writeFile_eq (filePath s text) text u
        rw [hsame.disk, hsame.pipeline] at hwriteFile
        have hleads := fun disk ↦ hsame.leadsTo.withStore ⟨disk, s.site.pipeline.manifest⟩
        rcases hwrite : Disk.writeText (filePath s text) text s.site.disk with
          ⟨_, disk⟩ | ⟨why, disk⟩
        · rw [hwrite] at hwriteFile
          rw [bind_of_ok hwriteFile]
          change Outcome s (.ok (publishedAs (u.withStore _) (fileName s text) true false) _)
          rw [publishedAs_of_pipeline rfl (hleads disk).pipeline]
          exact .stored text disk _ hdev hbuilt hwrite (hleads disk)
        · rw [hwrite] at hwriteFile
          rw [bind_of_error hwriteFile]
          exact .unwritten text why disk _ hwrite (hleads disk)
    · rw [bind_of_error hfresh]
      obtain rfl : u = t := (rests_isFresh text _).error hfresh hbuilt
      exact .unbuilt e u hsame.leadsTo
  · rw [publish_of_body_error hdev hbody]
    exact .unbuilt e t (movesAlong_body.error hbody).leadsTo

theorem outcome_of_publish (hfits : s.asset.DigestFits) : Outcome s (publish s) := by
  cases hprod : s.site.pipeline.inProduction with
  | false => exact outcome_of_development hprod
  | true =>
    rw [publish_of_inProduction hprod]
    cases hfile : (s.site.pipeline.manifest.get? s.asset.basename).filter (· ≠ "") with
    | some file =>
      rw [Option.filter_eq_some_iff] at hfile
      exact .recorded file hprod hfile.1 (by simpa using hfile.2)
    | none => exact outcome_of_fingerprint hprod hfits

theorem path_publish (hfits : s.asset.DigestFits) :
    (finalState (publish s)).asset.path = s.asset.path := by
  have houtcome := outcome_of_publish hfits
  generalize publish s = r at houtcome
  cases houtcome with
  | recorded => rfl
  | unbuilt _ _ h => exact h.path
  | kept _ _ _ _ _ h => exact h.path
  | unwritten _ _ _ _ _ h => exact h.path
  | stored _ _ _ _ _ _ h => exact h.path
  | saved _ _ _ _ _ _ _ _ h => exact h.path
  | unsaved _ _ _ _ _ _ _ _ h => exact h.path

end Asset

end AssetBundler
