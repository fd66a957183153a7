import AssetBundler.Proofs.Disk.Contents
import AssetBundler.Proofs.Session.Expansion

/-!
# What a build reads

A build looks at the layout of the disk and at the bytes of the files that it counts, and at nothing else:
on a disk with the same layout a build goes on the same way, as long as the files that it counts in the end
are read as before (`Follows`). Every file is counted before it is read, so it is enough to look at what an
action counts when it has ended well. Main statement: `build_of_sameLayout`.
-/

namespace AssetBundler

/-- The same site with another disk. -/
def Site.onDisk (s : Site) (e : Disk) : Site := { s with disk := e }

namespace SearchPath

variable {s : SearchPath} {d e : Disk}

theorem findIndex_of_sameLayout (h : d.SameLayout e) : s.findIndex e = s.findIndex d := by
  funext folder preferred
  unfold findIndex
  rw [h.isFile]

theorem withIndex_of_sameLayout (h : d.SameLayout e) : s.withIndex e = s.withIndex d := by
  funext found preferred index
  unfold withIndex
  rw [h.isFolder, findIndex_of_sameLayout h]

theorem resolve_eq_of_sameLayout (h : d.SameLayout e) : e.resolve = d.resolve := by
  funext p
  unfold Disk.resolve
  rw [h.here]

theorem resolveIn_of_sameLayout (h : d.SameLayout e) : s.resolveIn e = s.resolveIn d := by
  funext base name preferred index
  unfold resolveIn
  rw [h.exists?, withIndex_of_sameLayout h, resolve_eq_of_sameLayout h]

theorem resolve_of_sameLayout (h : d.SameLayout e) : s.resolve e = s.resolve d := by
  funext logical preferred index
  have hroots : ∀ roots : List Path, s.resolveInRoots e logical preferred index roots =
      s.resolveInRoots d logical preferred index roots := by
    intro roots
    induction roots with
    | nil => rfl
    | cons root roots ih =>
      unfold resolveInRoots
      rw [resolveIn_of_sameLayout h, ih]
  unfold resolve
  rw [withIndex_of_sameLayout h, resolve_eq_of_sameLayout h, hroots]

end SearchPath

namespace Session

open AssetBundler.Action

section Layout

variable {site : Site} {e : Disk} (h : site.disk.SameLayout e)

include h

theorem isFile_onDisk (p : Path) : (site.onDisk e).isFile p = site.isFile p := by
  change Disk.orFail (e.isFile p) = Disk.orFail (site.disk.isFile p)
  rw [h.isFile]

theorem resolve_onDisk (v : Viewpoint) (name : String) (index : Bool) :
    v.resolve (site.onDisk e) name index = v.resolve site name index := by
  unfold Viewpoint.resolve
  have hroots : site.pipeline.searchPath.resolve e name v.preferred index =
      site.pipeline.searchPath.resolve site.disk name v.preferred index := by
    rw [SearchPath.resolve_of_sameLayout h]
  cases isRelativeMarker name with
  | false => exact congrArg Disk.orFail hroots
  | true =>
    cases v.path with
    | none => exact congrArg Disk.orFail hroots
    | some current =>
      have hin : site.pipeline.searchPath.resolveIn e current.parent name v.preferred index =
          site.pipeline.searchPath.resolveIn site.disk current.parent name v.preferred index := by
        rw [SearchPath.resolveIn_of_sameLayout h]
      exact congrArg Disk.orFail hin

theorem require_onDisk (v : Viewpoint) (name : String) (index : Bool) :
    v.require (site.onDisk e) name index = v.require site name index := by
  unfold Viewpoint.require
  rw [resolve_onDisk h]

theorem requireFile_onDisk (v : Viewpoint) (name : String) :
    v.requireFile (site.onDisk e) name = v.requireFile site name := by
  unfold Viewpoint.requireFile
  rw [require_onDisk h]
  simp only [isFile_onDisk h]

theorem isSelected_onDisk (v : Viewpoint) (entry : Disk.Listed) :
    isSelected (site.onDisk e) v entry = isSelected site v entry := by
  have hresolve : (site.onDisk e).disk.resolve = site.disk.resolve :=
    SearchPath.resolve_eq_of_sameLayout h
  have hindex : (site.onDisk e).pipeline.searchPath.findIndex (site.onDisk e).disk =
      site.pipeline.searchPath.findIndex site.disk := SearchPath.findIndex_of_sameLayout h
  unfold isSelected
  rw [hresolve, hindex]

theorem depthBound_onDisk : depthBound (site.onDisk e) = depthBound site :=
  congrArg (2 * · + 4) h.fileCount

end Layout

/-- Where the first action ends well, it has not counted less than before, and the second one ends in the
same way if all that is counted then looks the same. -/
def Follows (same : Path → Prop) {α : Type} (x y : Action α) (s : Session) : Prop :=
  ∀ a t, x s = .ok a t → s.dependencies ⊆ t.dependencies ∧
    ((∀ q ∈ t.dependencies, same q) → y s = .ok a t)

namespace Follows

variable {same : Path → Prop} {α β : Type} {s : Session}

protected theorem pure (a : α) : Follows same (pure a) (pure a) s := by
  rintro _ t ⟨⟩
  exact ⟨List.Subset.refl _, fun _ ↦ rfl⟩

theorem throw {y : Action α} (e : Failure) : Follows same (throw e) y s := by
  rintro a t ⟨⟩

theorem bind {x y : Action α} {f g : α → Action β} (hx : Follows same x y s)
    (hf : ∀ a t, x s = .ok a t → s.dependencies ⊆ t.dependencies → Follows same (f a) (g a) t) :
    Follows same (x >>= f) (y >>= g) s := by
  intro b t h
  obtain ⟨a, u, ha, hb⟩ := bind_eq_ok.1 h
  obtain ⟨hbefore, hsame⟩ := hx a u ha
  obtain ⟨hafter, hsame'⟩ := hf a u ha hbefore b t hb
  refine ⟨List.Subset.trans hbefore hafter, fun hall ↦ ?_⟩
  rw [bind_of_ok (hsame fun q hq ↦ hall q (hafter hq))]
  exact hsame' hall

theorem ofExcept_bind {x y : Except Failure α} {f g : α → Action β} (hxy : y = x)
    (hf : ∀ a, x = .ok a → Follows same (f a) (g a) s) :
    Follows same (ofExcept x >>= f) (ofExcept y >>= g) s := by
  rw [hxy]
  intro b t h
  obtain ⟨a, u, ha, hb⟩ := bind_eq_ok.1 h
  obtain ⟨hx, rfl⟩ := ofExcept_eq_ok.1 ha
  obtain ⟨hsub, hsame⟩ := hf a hx b t hb
  refine ⟨hsub, fun hall ↦ ?_⟩
  rw [bind_of_ok (ofExcept_ok hx u)]
  exact hsame hall

/-- A question about a path that is counted already. -/
theorem ofExcept_of_counted {x y : Except Failure α} {q : Path} (hq : q ∈ s.dependencies)
    (hxy : same q → y = x) : Follows same (ofExcept x) (ofExcept y) s := by
  intro a t h
  obtain ⟨hx, rfl⟩ := ofExcept_eq_ok.1 h
  refine ⟨List.Subset.refl _, fun hall ↦ ?_⟩
  rw [hxy (hall q hq)]
  exact ofExcept_ok hx t

theorem addDependency (q : Path) :
    Follows same (addDependency q) (Session.addDependency q) s := by
  rintro _ t ⟨⟩
  exact ⟨List.subset_append_left .., fun _ ↦ rfl⟩

theorem forM {xs : List α} {f g : α → Action Unit}
    (h : ∀ x ∈ xs, ∀ t, Follows same (f x) (g x) t) :
    Follows same (xs.forM f) (xs.forM g) s := by
  induction xs generalizing s with
  | nil => exact .pure ()
  | cons x xs ih =>
    exact (h x (List.mem_cons_self ..) s).bind fun _ _ _ _ ↦
      ih fun y hy ↦ h y (List.mem_cons_of_mem _ hy)

theorem mapM {xs : List α} {f g : α → Action β} (h : ∀ x ∈ xs, ∀ t, Follows same (f x) (g x) t) :
    Follows same (xs.mapM f) (xs.mapM g) s := by
  induction xs generalizing s with
  | nil => exact .pure []
  | cons x xs ih =>
    rw [List.mapM_cons, List.mapM_cons]
    refine (h x (List.mem_cons_self ..) s).bind fun _ _ _ _ ↦ .bind ?_ fun _ _ _ _ ↦ .pure _
    exact ih fun y hy ↦ h y (List.mem_cons_of_mem _ hy)

theorem foldlM {xs : List α} {f g : β → α → Action β} {b : β}
    (h : ∀ x ∈ xs, ∀ b t, Follows same (f b x) (g b x) t) :
    Follows same (xs.foldlM f b) (xs.foldlM g b) s := by
  induction xs generalizing s b with
  | nil => exact .pure b
  | cons x xs ih =>
    rw [List.foldlM_cons, List.foldlM_cons]
    exact (h x (List.mem_cons_self ..) b s).bind fun _ _ _ _ ↦
      ih fun y hy ↦ h y (List.mem_cons_of_mem _ hy)

theorem nested {path : Path} {x y : Action α} (h : Follows same x y (entered path s)) :
    Follows same (nested path x) (Session.nested path y) s := by
  intro a t hx
  obtain ⟨u, hu, rfl⟩ := nested_ok hx
  obtain ⟨-, hsame⟩ := h a u hu
  refine ⟨List.subset_append_left .., fun hall ↦ nested_of_ok ?_⟩
  exact hsame fun q hq ↦ hall q (List.mem_append_right _ hq)

end Follows

/-! ## What can be asked for -/

/-- A file is read on both disks alike. -/
def ReadsAlike (d e : Disk) (q : Path) : Prop := e.readBytes q = d.readBytes q

/-- The second evaluator follows the first one on every file that is counted already. -/
def EvalFollows (same : Path → Prop) (eval eval' : Evaluator) : Prop :=
  ∀ v k specs s, k.IsProper → k ∈ s.dependencies →
    Follows same (eval v k none specs) (eval' v k none specs) s

section Requests

variable {eval eval' : Evaluator} {site : Site} {e : Disk} {v : Viewpoint} {path : Path} {s : Session}

theorem follows_requireAsset (hs : site.IsProper) (h : site.disk.SameLayout e)
    (heval : EvalFollows (ReadsAlike site.disk e) eval eval')
    (hv : ∀ p, v.path = some p → p.IsProper) (name : String) :
    Follows (ReadsAlike site.disk e) (requireAsset eval site v name)
      (requireAsset eval' (site.onDisk e) v name) s := by
  refine Follows.ofExcept_bind (require_onDisk h v name true) fun k hk ↦ ?_
  intro a t hrun
  rw [bind_of_ok (get_apply s)] at hrun ⊢
  rcases hmark : s.marks.get? k with _ | _ | _
  · have hvisit : Follows (ReadsAlike site.disk e)
        (eval v k none (chainOf site k) >>= fun text ↦ addText text >>= fun _ ↦ setMark k .done)
        (eval' v k none (chainOf site k) >>= fun text ↦ addText text >>= fun _ ↦ setMark k .done)
        (begun k s) := by
      refine (heval v k _ _ (isCanonical_of_require hs hv hk).proper ?_).bind fun text u _ _ ↦ ?_
      · exact List.mem_append_right _ (List.mem_singleton_self k)
      · rintro _ w ⟨⟩
        exact ⟨List.Subset.refl _, fun _ ↦ rfl⟩
    simp only [hmark] at hrun ⊢
    obtain ⟨hsub, hsame⟩ := hvisit a t hrun
    exact ⟨List.Subset.trans (List.subset_append_left ..) hsub, hsame⟩
  · simp only [hmark] at hrun
    rw [bind_of_ok (get_apply s)] at hrun
    cases hrun
  · simp only [hmark] at hrun ⊢
    cases hrun
    exact ⟨List.Subset.refl _, fun _ ↦ rfl⟩

theorem follows_dependOn (h : site.disk.SameLayout e) (name : String) :
    Follows (ReadsAlike site.disk e) (dependOn site v name) (dependOn (site.onDisk e) v name) s :=
  Follows.ofExcept_bind (require_onDisk h v name true) fun k _ ↦ .addDependency k

theorem follows_requireEntries (hs : site.IsProper) (h : site.disk.SameLayout e)
    (heval : EvalFollows (ReadsAlike site.disk e) eval eval')
    (hv : ∀ p, v.path = some p → p.IsProper) (entries : List Disk.Listed) :
    Follows (ReadsAlike site.disk e) (requireEntries eval site v entries)
      (requireEntries eval' (site.onDisk e) v entries) s := by
  induction entries generalizing s with
  | nil => exact .pure ()
  | cons entry entries ih =>
    refine Follows.ofExcept_bind (isSelected_onDisk h v entry) fun selected _ ↦ ?_
    cases selected with
    | false => exact ih
    | true =>
      have hresolve : (site.onDisk e).disk.resolve = site.disk.resolve :=
        SearchPath.resolve_eq_of_sameLayout h
      rw [hresolve]
      exact (follows_requireAsset hs h heval hv _).bind fun _ _ _ _ ↦ ih

theorem follows_requireTree (hs : site.IsProper) (h : site.disk.SameLayout e)
    (heval : EvalFollows (ReadsAlike site.disk e) eval eval')
    (hv : ∀ p, v.path = some p → p.IsProper) (name : String) :
    Follows (ReadsAlike site.disk e) (requireTree eval site v name)
      (requireTree eval' (site.onDisk e) v name) s := by
  refine Follows.ofExcept_bind (resolve_onDisk h v name false) fun found? _ ↦ ?_
  cases found? with
  | none => exact .throw _
  | some folder =>
    have hfolder : (site.onDisk e).disk.isFolder = site.disk.isFolder := h.isFolder
    have hlist : (site.onDisk e).disk.list = site.disk.list := h.list
    refine Follows.ofExcept_bind (by rw [hfolder]) fun isFolder _ ↦ ?_
    cases isFolder with
    | false => exact .throw _
    | true =>
      refine (Follows.addDependency folder).bind fun _ _ _ _ ↦ ?_
      exact Follows.ofExcept_bind (by rw [hlist]) fun entries _ ↦
        follows_requireEntries hs h heval hv entries

theorem follows_dataUri (h : site.disk.SameLayout e) (name : String) :
    Follows (ReadsAlike site.disk e) (dataUri site v name) (dataUri (site.onDisk e) v name) s := by
  refine Follows.ofExcept_bind (requireFile_onDisk h v name) fun found _ ↦ ?_
  refine (Follows.addDependency found).bind fun _ t ht _ ↦ ?_
  have hfound : found ∈ t.dependencies := by
    cases ht
    exact List.mem_append_right _ (List.mem_singleton_self found)
  refine (Follows.ofExcept_of_counted hfound fun hsame ↦ ?_).bind fun bytes _ _ _ ↦ .pure _
  exact congrArg Disk.orFail hsame

theorem follows_noteField (h : site.disk.SameLayout e) (field : NoteField) :
    Follows (ReadsAlike site.disk e) (noteField site (some v) field)
      (noteField (site.onDisk e) (some v) field) s := by
  cases field with
  | text s => exact .pure _
  | currentName => exact .pure _
  | dataUri name => exact (follows_dataUri h name).bind fun _ _ _ _ ↦ .pure _
  | contentType name => exact Follows.ofExcept_bind (requireFile_onDisk h v name) fun _ _ ↦ .pure _

theorem follows_fulfil (hs : site.IsProper) (h : site.disk.SameLayout e)
    (heval : EvalFollows (ReadsAlike site.disk e) eval eval')
    (hv : ∀ p, v.path = some p → p.IsProper) (request : Request) :
    Follows (ReadsAlike site.disk e) (fulfil eval site (some v) request)
      (fulfil eval' (site.onDisk e) (some v) request) s := by
  cases request with
  | require name => exact follows_requireAsset hs h heval hv name
  | dependOn name => exact follows_dependOn h name
  | requireTree name => exact follows_requireTree hs h heval hv name
  | note fields =>
    refine (Follows.mapM fun field _ _ ↦ follows_noteField h field).bind fun note u _ _ ↦ ?_
    rintro _ t ⟨⟩
    exact ⟨List.Subset.refl _, fun _ ↦ rfl⟩

theorem follows_runDirectives (hs : site.IsProper) (h : site.disk.SameLayout e)
    (heval : EvalFollows (ReadsAlike site.disk e) eval eval')
    (hv : ∀ p, v.path = some p → p.IsProper) (own : Option DirectiveTable) (source : Option Path)
    (data : String) :
    Follows (ReadsAlike site.disk e) (runDirectives eval site (some v) own source data)
      (runDirectives eval' (site.onDisk e) (some v) own source data) s := by
  refine Follows.ofExcept_bind rfl fun parsed _ ↦ .bind ?_ fun _ _ _ _ ↦ .pure _
  refine Follows.forM fun d _ t ↦ Follows.ofExcept_bind rfl fun requests _ ↦ ?_
  exact Follows.forM fun request _ _ ↦ follows_fulfil hs h heval hv request

theorem follows_expandImport (hs : site.IsProper) (h : site.disk.SameLayout e)
    (heval : EvalFollows (ReadsAlike site.disk e) eval eval') (hpath : path.IsProper)
    (name : String) (source : List Char) :
    Follows (ReadsAlike site.disk e) (expandImport eval site ⟨some path⟩ name source)
      (expandImport eval' (site.onDisk e) ⟨some path⟩ name source) s := by
  have htarget : importTarget (site.onDisk e) path name = importTarget site path name := by
    unfold importTarget
    rw [resolve_onDisk h]
    simp only [isFile_onDisk h]
  rw [expandImport_eq, expandImport_eq]
  refine Follows.ofExcept_bind htarget fun found? hfound? ↦ ?_
  cases found? with
  | none => exact .pure source
  | some found =>
    obtain ⟨hfound, hfile⟩ := importTarget_eq_some.1 hfound?
    have hcanonical : found.IsCanonical :=
      Viewpoint.isCanonical_of_resolve hs (fun p hp ↦ Option.some.inj hp ▸ hpath) hfound
    have hrequire := Viewpoint.require_of_isFile (v := ⟨some path⟩) hcanonical hfile
    intro out t hrun
    change includeFile eval site ⟨some path⟩ found s = .ok out t at hrun
    change _ ∧ (_ → includeFile eval' (site.onDisk e) ⟨some path⟩ found s = .ok out t)
    unfold includeFile at hrun ⊢
    rw [bind_of_ok (get_apply s)] at hrun ⊢
    by_cases hchain : s.chain.contains found = true
    · rw [if_pos hchain] at hrun
      cases hrun
    · rw [if_neg hchain] at hrun ⊢
      refine (Follows.bind (follows_dependOn h found.text) fun _ u hu _ ↦ .bind ?_
        fun _ _ _ _ ↦ .pure _) out t hrun
      refine heval _ found _ u hcanonical.proper ?_
      obtain ⟨k, w, hfirst, hcounted⟩ := bind_eq_ok.1 hu
      obtain ⟨hk, rfl⟩ := ofExcept_eq_ok.1 hfirst
      cases hrequire.symm.trans hk
      cases hcounted
      exact List.mem_append_right _ (List.mem_singleton_self found)

theorem follows_expandImports (hs : site.IsProper) (h : site.disk.SameLayout e)
    (heval : EvalFollows (ReadsAlike site.disk e) eval eval') (hpath : path.IsProper)
    (data : String) :
    Follows (ReadsAlike site.disk e) (expandImports eval site ⟨some path⟩ data)
      (expandImports eval' (site.onDisk e) ⟨some path⟩ data) s := by
  refine (Follows.mapM fun piece _ t ↦ ?_).bind fun _ _ _ _ ↦ .pure _
  cases piece with
  | plain c => exact .pure [c]
  | found name source => exact follows_expandImport hs h heval hpath name source

end Requests

/-! ## Processors and evaluations -/

section Processors

variable {eval eval' : Evaluator} {site : Site} {e : Disk} {path : Path} {s : Session}

theorem follows_fragmentText (h : site.disk.SameLayout e) (v : Viewpoint) (fragment : Fragment) :
    Follows (ReadsAlike site.disk e) (fragmentText site (some v) fragment)
      (fragmentText (site.onDisk e) (some v) fragment) s := by
  cases fragment with
  | text s => exact .pure s
  | dataUri name => exact follows_dataUri h name
  | raised e => exact .throw _

theorem follows_compileNested {same : Path → Prop} (packages : Packages) (minified : Bool)
    (data : String) : Follows same (compileNested packages minified (some path) data)
      (compileNested packages minified (some path) data) s := by
  obtain ⟨r, hr⟩ := compileNested_leaves packages path minified data
  intro a t hrun
  refine ⟨?_, fun _ ↦ hrun⟩
  rw [hr] at hrun
  rw [(ofExcept_eq_ok.1 hrun).2]
  exact List.Subset.refl _

theorem follows_runSpec (hs : site.IsProper) (h : site.disk.SameLayout e)
    (heval : EvalFollows (ReadsAlike site.disk e) eval eval') (hpath : path.IsProper) (spec : Spec)
    (data : String) :
    Follows (ReadsAlike site.disk e) (runSpec eval site (some ⟨some path⟩) (some path) spec data)
      (runSpec eval' (site.onDisk e) (some ⟨some path⟩) (some path) spec data) s := by
  unfold runSpec
  cases spec.processor.step with
  | keep => exact .pure _
  | directives own =>
    exact Follows.ofExcept_bind rfl fun _ _ ↦
      follows_runDirectives hs h heval (fun p hp ↦ Option.some.inj hp ▸ hpath) own _ data
  | expandImports => exact follows_expandImports hs h heval hpath data
  | terminateScript => exact .pure _
  | compactStylesheet => exact .pure _
  | compactScript => exact .pure _
  | publishReferences => exact .pure _
  | compileNested => exact follows_compileNested _ _ data
  | callOption => exact .throw _
  | custom run =>
    exact (Follows.mapM fun fragment _ _ ↦ follows_fragmentText h _ fragment).bind
      fun _ _ _ _ ↦ .pure _

theorem follows_evaluateWithin (hs : site.IsProper) (h : site.disk.SameLayout e) (depth : Nat) :
    EvalFollows (ReadsAlike site.disk e) (evaluateWithin site depth)
      (evaluateWithin (site.onDisk e) depth) := by
  induction depth with
  | zero => exact fun _ _ _ _ _ _ ↦ .throw _
  | succ depth ih =>
    intro v k specs s hk hcounted
    unfold evaluateWithin
    refine (Follows.ofExcept_of_counted hcounted fun hsame ↦ ?_).bind fun data _ _ _ ↦
      .nested (.foldlM fun spec _ data _ ↦ follows_runSpec hs h ih hk spec data)
    unfold contentOf
    rw [isFile_onDisk h, show (site.onDisk e).disk.readText k = site.disk.readText k from
      Disk.readText_of_readBytes hsame]

end Processors

/-- A build goes the same way on a disk with the same layout if its own file and all that it counts look
the same. -/
theorem build_of_sameLayout {site : Site} {e : Disk} (hs : site.IsProper)
    (h : site.disk.SameLayout e) {path : Path} (hpath : path.IsCanonical) {own : String}
    {t : Session} (hbuild : site.build path = .ok own t)
    (hsame : ∀ q ∈ path :: t.dependencies, ReadsAlike site.disk e q) :
    (site.onDisk e).build path = .ok own t := by
  obtain ⟨hown, hcounted⟩ := List.forall_mem_cons.1 hsame
  have hdepth : depthBound (site.onDisk e) = 2 * site.disk.fileCount + 3 + 1 := depthBound_onDisk h
  obtain ⟨data, u, hread, hrun⟩ := bind_eq_ok.1 hbuild
  obtain ⟨hdata, rfl⟩ := ofExcept_eq_ok.1 hread
  have hread' : (site.onDisk e).disk.readText path = .ok data :=
    (Disk.readText_of_readBytes hown).trans hdata
  have hnested : Follows (ReadsAlike site.disk e)
      (nested path (runSpecs (evaluateWithin site (2 * site.disk.fileCount + 3)) site path data
        (chainOf site path)))
      (nested path (runSpecs (evaluateWithin (site.onDisk e) (2 * site.disk.fileCount + 3))
        (site.onDisk e) path data (chainOf site path))) (forAsset path) :=
    .nested (.foldlM fun spec _ data _ ↦ follows_runSpec hs h
      (follows_evaluateWithin hs h _) hpath.proper spec data)
  have hrun' := (hnested own t hrun).2 hcounted
  refine bind_eq_ok.2 ⟨data, _, ofExcept_ok hread' _, ?_⟩
  unfold evaluate
  rw [hdepth]
  exact hrun'

end Session

end AssetBundler
