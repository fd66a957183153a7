import AssetBundler.Proofs.Asset.Freshness
import AssetBundler.Proofs.Disk.Existence
import AssetBundler.Proofs.Session.Dependencies

/-!
# The existence of dependencies

Everything that a build counts was found, and what is found exists unless it was asked for by an absolute
path: files that are required or imported are read, folders that are required are listed, bytes that are
inlined are those of a file. A dependency that is only counted is taken as it is if its path is absolute
(`CountsAbsolute`). Main statement: all dependencies exist exactly if the ones of this kind do; then the
latest time is known and freshness fails about the target alone, and otherwise both fail about a
dependency that is missing (`dependencies_exist_iff`).
-/

namespace AssetBundler

namespace Session

open AssetBundler.Action Relation

/-- A file counts a path that its directives spell in absolute form. -/
def CountsAbsolute (site : Site) (p q : Path) : Prop :=
  ∃ data spec text name, site.disk.readText p = .ok data ∧
    Receives site p (chainOf site p) data spec text ∧ Asks site p spec text (.dependOn name) ∧
    isAbsolute name = true ∧ Viewpoint.require ⟨some p⟩ site name true = .ok q

section Existence

variable {site : Site} {path p q : Path} {own : String} {t : Session}

theorem counts_of_countsAbsolute (h : CountsAbsolute site p q) : Counts site p q := by
  obtain ⟨data, spec, text, name, hdata, hreceives, hasks, -, hq⟩ := h
  exact ⟨data, hdata, spec, text, hreceives, .asked hasks (.dependOn hq)⟩

/-- What a file counts exists or was spelled in absolute form. -/
theorem exists_of_counts (hs : site.IsProper)
    (hroots : ∀ root ∈ site.pipeline.searchPath.roots, root.IsCanonical) (hp : p.IsCanonical)
    (h : Counts site p q) : site.disk.Exists q ∨ CountsAbsolute site p q := by
  have hview : ∀ r, some p = some r → r.IsCanonical := fun _ h ↦ Option.some.inj h ▸ hp
  obtain ⟨data, hdata, spec, text, hreceives, hcounts⟩ := h
  cases hcounts with
  | asked hasks hq =>
    cases hq with
    | @dependOn name _ hq =>
      by_cases hname : isAbsolute name = true
      · exact .inr ⟨data, spec, text, name, hdata, hreceives, hasks, hname, hq⟩
      · obtain ⟨found?, hfound, hq⟩ := except_bind_eq_ok.1 hq
        cases found? with
        | none => cases hq
        | some found =>
          cases hq
          exact .inl (Viewpoint.exists_of_resolve hroots hview (Bool.not_eq_true _ ▸ hname) hfound)
    | requireTree _ hfolder => exact .inl (Disk.exists_of_isFolder (Disk.orFail_eq_ok.1 hfolder))
    | note _ hq => exact .inl (Viewpoint.exists_of_requireFile hq)
  | imported _ _ htarget hreach =>
    obtain ⟨hfound, hfile⟩ := importTarget_eq_some.1 htarget
    have hfirst := Viewpoint.isCanonical_of_resolve hs (fun _ h ↦ (hview _ h).proper) hfound
    have hlast := (isCanonical_and_isFile_of_reached hs hfirst hfile hreach).2
    exact .inl (Disk.exists_of_isFile (Disk.orFail_eq_ok.1 hlast))
  | inlined _ _ hq => exact .inl (Viewpoint.exists_of_requireFile hq)

/-- Every dependency of a build exists, or was spelled in absolute form in a file of the build. -/
theorem exists_of_mem_dependencies (hs : site.IsProper)
    (hroots : ∀ root ∈ site.pipeline.searchPath.roots, root.IsCanonical) (hpath : path.IsCanonical)
    (h : site.build path = .ok own t) (hq : q ∈ t.dependencies) : site.disk.Exists q ∨
      ∃ p, ReflTransGen (Requires site) path p ∧ CountsAbsolute site p q := by
  rcases (mem_dependencies_of_build hs hpath h q).1 hq with hreach | ⟨p, hreach, hcounts⟩
  · obtain ⟨data, hdata⟩ := (gathers_build hs hpath h).read q ((done_iff_of_build hs hpath h q).2 hreach)
    exact .inl (Disk.exists_of_readText hdata)
  · have hp := isCanonical_of_requires_reached hs hpath hreach
    rcases exists_of_counts hs hroots hp hcounts with hexists | habsolute
    · exact .inl hexists
    · exact .inr ⟨p, hreach, habsolute⟩

end Existence

end Session

namespace Asset

open AssetBundler.Action AssetBundler.Session Relation

/-- The latest of some times is known if all paths exist, and asking for it fails about one of the paths
that do not. -/
theorem latestTime_cases (d : Disk) (latest : Nat) (ps : List Path) :
    (∃ time, latestTime d latest ps = .ok time) ∧ (∀ p ∈ ps, d.Exists p) ∨
      ∃ p ∈ ps, ∃ why, d.find p = .error why ∧ latestTime d latest ps = .error (.refused why p) := by
  induction ps generalizing latest with
  | nil => exact .inl ⟨⟨latest, rfl⟩, List.forall_mem_nil _⟩
  | cons p ps ih =>
    rcases hfind : d.find p with why | n
    · refine .inr ⟨p, List.mem_cons_self .., why, hfind, ?_⟩
      unfold latestTime Disk.time
      rw [hfind]
      rfl
    · have hstep : latestTime d latest (p :: ps) = latestTime d (max latest n.time) ps :=
        congrArg (· >>= fun time ↦ latestTime d (max latest time) ps) (Disk.time_of_find hfind)
      rw [hstep]
      rcases ih (max latest n.time) with ⟨hok, hall⟩ | ⟨q, hq, why, hmissing, herror⟩
      · exact .inl ⟨hok, List.forall_mem_cons.2 ⟨⟨n, hfind⟩, hall⟩⟩
      · exact .inr ⟨q, List.mem_cons_of_mem _ hq, why, hmissing, herror⟩

section Times

variable {s t : State} {text : String} (hbuilt : body t = .ok text t)

include hbuilt

theorem lastModified_of_built : lastModified t =
    ask (fun s ↦ Disk.orFail (latestTime s.site.disk 0 (s.asset.path :: s.asset.dependencies))) t := by
  unfold lastModified
  exact bind_of_ok hbuilt

/-- If the latest time is known, freshness fails about the target only. -/
theorem isFresh_error_of_lastModified {latest : Nat} (hlatest : lastModified t = .ok latest t)
    {target : Path} {e : Failure} {u : State} (h : isFresh target t = .error e u) :
    t.site.isFile target = .error e ∨ t.site.disk.readText target = .error e := by
  rcases hfile : t.site.isFile target with e' | isFile
  · unfold isFresh at h
    rw [bind_of_error (ask_of_error hfile)] at h
    cases h
    exact .inl rfl
  · cases isFile with
    | false =>
      rw [isFresh_of_no_file hfile] at h
      cases h
    | true =>
      obtain ⟨bytes, time, hfind⟩ := Disk.find_of_isFile (isFile_eq_ok.1 hfile)
      rw [isFresh_of_file hfind, bind_of_ok hlatest] at h
      by_cases htime : time < latest
      · rw [if_pos htime] at h
        cases h
      · rw [if_neg htime] at h
        rcases hread : t.site.disk.readText target with e' | read
        · rw [bind_of_error (ask_of_error hread)] at h
          cases h
          exact .inr rfl
        · rw [bind_of_ok (ask_of_ok hread), bind_of_ok hbuilt] at h
          cases h

end Times

/-- All dependencies of an asset that was built exist exactly if those exist that directives spell in
absolute form. Then the latest time is known and freshness fails about the target alone; otherwise both
fail about a dependency that is missing, freshness for every target that is a file. -/
theorem dependencies_exist_iff {site : Site} (hs : site.IsProper)
    (hroots : ∀ root ∈ site.pipeline.searchPath.roots, root.IsCanonical) {logical : String} {a : Asset}
    (ha : site.getAsset logical = .ok a) {text : String} {t : State}
    (hbody : body ⟨site, a⟩ = .ok text t) :
    ((∀ q ∈ t.asset.dependencies, t.site.disk.Exists q) ↔
      ∀ p q, ReflTransGen (Requires site) a.path p → CountsAbsolute site p q → site.disk.Exists q) ∧
    ((∀ q ∈ t.asset.dependencies, t.site.disk.Exists q) →
      (∃ latest, lastModified t = .ok latest t) ∧ ∀ target e u, isFresh target t = .error e u →
        t.site.isFile target = .error e ∨ t.site.disk.readText target = .error e) ∧
    (¬(∀ q ∈ t.asset.dependencies, t.site.disk.Exists q) →
      ∃ q ∈ t.asset.dependencies, ∃ why, t.site.disk.find q = .error why ∧
        lastModified t = .error (.disk (.refused why q)) t ∧ ∀ target,
          t.site.isFile target = .ok true → isFresh target t = .error (.disk (.refused why q)) t) := by
  obtain ⟨path, hpath, hmade⟩ := except_bind_eq_ok.1 ha
  have hasset : a = Asset.ofFile path (some logical) := (Except.ok.inj hmade).symm
  subst hasset
  have hcanonical := Site.isCanonical_of_getFile hs hpath
  rcases hbuild : site.build path with ⟨own, u⟩ | ⟨e, u⟩
  · have hagain := body_again hbody
    cases hbody.symm.trans (body_of_build_ok (s := ⟨site, .ofFile path (some logical)⟩) rfl hbuild)
    have hpathExists : site.disk.Exists path := by
      obtain ⟨data, _, hread, -⟩ := bind_eq_ok.1 hbuild
      exact Disk.exists_of_readText (ofExcept_eq_ok.1 hread).1
    have hlast := lastModified_of_built hagain
    refine ⟨⟨fun hall p q hreach habsolute ↦ ?_, fun hall q hq ↦ ?_⟩, fun hall ↦ ?_, fun hnot ↦ ?_⟩
    · exact hall q ((mem_dependencies_of_build hs hcanonical hbuild q).2
        (.inr ⟨p, hreach, counts_of_countsAbsolute habsolute⟩))
    · rcases exists_of_mem_dependencies hs hroots hcanonical hbuild hq with hexists | ⟨p, hreach, hp⟩
      · exact hexists
      · exact hall p q hreach hp
    · rcases latestTime_cases site.disk 0 (path :: u.dependencies) with
        ⟨⟨latest, hlatest⟩, -⟩ | ⟨q, hq, why, hmissing, -⟩
      · have hlatest' := hlast.trans (ask_of_ok (Disk.orFail_eq_ok.2 hlatest))
        exact ⟨⟨latest, hlatest'⟩, fun target e u ↦ isFresh_error_of_lastModified hagain hlatest'⟩
      · obtain ⟨n, hn⟩ := List.forall_mem_cons.2 ⟨hpathExists, hall⟩ q hq
        cases hmissing.symm.trans hn
    · rcases latestTime_cases site.disk 0 (path :: u.dependencies) with
        ⟨-, hall⟩ | ⟨q, hq, why, hmissing, herror⟩
      · exact absurd (List.forall_mem_cons.1 hall).2 hnot
      · have hmem : q ∈ u.dependencies := by
          rcases List.mem_cons.1 hq with rfl | hmem
          · obtain ⟨n, hn⟩ := hpathExists
            cases hmissing.symm.trans hn
          · exact hmem
        have hfails := hlast.trans (ask_of_error (e := .disk (.refused why q)) (by
          change Disk.orFail (latestTime site.disk 0 (path :: u.dependencies)) = _
          rw [herror]
          rfl))
        refine ⟨q, hmem, why, hmissing, hfails, fun target hfile ↦ ?_⟩
        obtain ⟨bytes, time, hfind⟩ := Disk.find_of_isFile (isFile_eq_ok.1 hfile)
        exact isFresh_of_time_error hfind hfails
  · cases hbody.symm.trans (body_of_build_error (s := ⟨site, .ofFile path (some logical)⟩) rfl hbuild)

/-- A script that counts a path. -/
def pledge (target : String) : State :=
  ⟨Site.sample "local" [("a.js", .file ("//= depend_on " ++ target ++ "\nA();\n").toUTF8 1),
    ("b.js", .file "B();\n".toUTF8 2)] [], .ofFile (.absolute ["src", "a.js"]) (some "a.js")⟩

theorem pledge_is_kept : ∃ t, body (pledge "/src/b.js") = .ok "\nA();\n" t ∧
    t.asset.dependencies = [.absolute ["src", "b.js"]] ∧
    (∀ q ∈ t.asset.dependencies, t.site.disk.Exists q) ∧ ∃ latest, lastModified t = .ok latest t := by
  have hbody := eq_ok_of_result? (show result? (body (pledge "/src/b.js")) = some "\nA();\n" by
    decide +kernel)
  have hcounted : (finalState (body (pledge "/src/b.js"))).asset.dependencies =
      [.absolute ["src", "b.js"]] := by decide +kernel
  have ha : (pledge "/src/b.js").site.getAsset "a.js" = .ok (pledge "/src/b.js").asset :=
    eq_ok_of_toOption (by decide +kernel)
  have hs : (pledge "/src/b.js").site.IsProper := Site.isProper_sample ..
  have hroots : ∀ root ∈ (pledge "/src/b.js").site.pipeline.searchPath.roots, root.IsCanonical :=
    List.forall_mem_singleton.2 ⟨rfl, hs.roots _ (List.mem_singleton_self _), by decide⟩
  have hall : ∀ q ∈ (finalState (body (pledge "/src/b.js"))).asset.dependencies,
      (finalState (body (pledge "/src/b.js"))).site.disk.Exists q := by
    rw [hcounted, (movesAlong_body.ok hbody).disk]
    exact List.forall_mem_singleton.2 ⟨_, rfl⟩
  exact ⟨_, hbody, hcounted, hall, ((dependencies_exist_iff hs hroots ha hbody).2.1 hall).1⟩

/-- The body of a script that counts an absolute path is built although nothing is there, and the latest
time is not known then. -/
theorem pledge_is_broken : ∃ t, body (pledge "/nowhere/x.js") = .ok "\nA();\n" t ∧
    t.asset.dependencies = [.absolute ["nowhere", "x.js"]] ∧
    ¬t.site.disk.Exists (.absolute ["nowhere", "x.js"]) ∧
    lastModified t = .error (.disk (.refused .notFound (.absolute ["nowhere", "x.js"]))) t := by
  have hbody := eq_ok_of_result? (show result? (body (pledge "/nowhere/x.js")) =
    some "\nA();\n" by decide +kernel)
  have hcounted : (finalState (body (pledge "/nowhere/x.js"))).asset.dependencies =
      [.absolute ["nowhere", "x.js"]] := by decide +kernel
  have hdisk := (movesAlong_body.ok hbody).disk
  have hpath : (finalState (body (pledge "/nowhere/x.js"))).asset.path =
      .absolute ["src", "a.js"] := (movesAlong_body.ok hbody).path
  refine ⟨_, hbody, hcounted, ?_, ?_⟩
  · rw [hdisk]
    rintro ⟨n, hn⟩
    cases hn
  · refine (lastModified_of_built (body_again hbody)).trans (ask_of_error ?_)
    rw [hdisk, hpath, hcounted]
    rfl

end Asset

end AssetBundler
