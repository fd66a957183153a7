import AssetBundler.Proofs.Session.Cycle
import AssetBundler.Proofs.Session.ImportGraph

/-!
# The expansion of imports

A run that fails has met a file of its own chain, which closes a cycle of imports, or was refused an
answer; the files of a chain are different, so that evaluations are never nested too deep. Main
statement: where everything that is reached is answered, expanding fails as circular exactly if a cycle
is reached and gives the recursive expansion if none is. A name that is too long to exist is not answered
and ends the expansion, although it names no file (`expanded_exact`).
-/

namespace AssetBundler.Session

open AssetBundler.Action Relation
open Stylesheet (IsStatement)

/-- How an expansion ends that a root asks for: well, in a cycle, or with a refusal. -/
def EndsExpanding {α : Type} (site : Site) (root : Path) : EStateM.Result Failure Session α → Prop
  | .ok .. => True
  | .error e _ => (∃ chain, e = .circular chain) ∧ ReachesImportCycle site root ∨
      e.IsRefusal ∧ ¬AllAnswered site root

/-- The files on a chain of evaluations import one another, from a root on, and are all different. -/
structure ImportWalk (site : Site) (root : Path) (walk : List Path) : Prop where
  starts : walk.head? = some root
  edges : walk.IsChain (ImportEdge site)
  nodup : walk.Nodup

section Runs

variable {site : Site} {root path k : Path} {walk : List Path} {eval : Evaluator} {s : Session}

namespace ImportWalk

theorem reached (h : ImportWalk site root walk) (hk : k ∈ walk) :
    ReflTransGen (ImportEdge site) root k := reached_of_isChain h.starts h.edges hk

theorem edges_concat (h : ImportWalk site root walk) (hlast : walk.getLast? = some path)
    (hedge : ImportEdge site path k) : (walk ++ [k]).IsChain (ImportEdge site) := by
  refine List.isChain_append.2 ⟨h.edges, List.isChain_singleton k, fun p hp q hq ↦ ?_⟩
  cases hlast.symm.trans hp
  cases hq
  exact hedge

/-- A file that the chain comes back to lies on a cycle. -/
theorem reachesImportCycle (h : ImportWalk site root walk) (hlast : walk.getLast? = some path)
    (hedge : ImportEdge site path k) (hk : k ∈ walk) : ReachesImportCycle site root :=
  ⟨k, h.reached hk, transGen_of_isChain (h.edges_concat hlast hedge) hk⟩

theorem concat (h : ImportWalk site root walk) (hlast : walk.getLast? = some path)
    (hedge : ImportEdge site path k) (hk : k ∉ walk) : ImportWalk site root (walk ++ [k]) where
  starts := by
    rw [List.head?_append, h.starts]
    rfl
  edges := h.edges_concat hlast hedge
  nodup := h.nodup.append (List.nodup_singleton k) (List.disjoint_singleton.2 hk)

/-- A walk has no more files than there are on the disk. -/
theorem length_le (hs : site.IsProper) (hroot : root.IsCanonical)
    (hfile : site.isFile root = .ok true) (h : ImportWalk site root walk) :
    walk.length ≤ site.disk.fileCount + 1 := by
  have hreached := fun p (hp : p ∈ walk) ↦
    isCanonical_and_isFile_of_reached hs hroot hfile (h.reached hp)
  refine Disk.length_le_fileCount h.nodup (fun p hp ↦ (hreached p hp).1) fun p hp ↦ ?_
  obtain ⟨bytes, t, hfind⟩ := Disk.find_of_isFile (Disk.orFail_eq_ok.1 (hreached p hp).2)
  exact ⟨bytes, Disk.readBytes_of_find hfind⟩

end ImportWalk

theorem failsOnly_importTarget (path : Path) (name : String) :
    FailsOnly (Failure.IsUnreadable site.disk) (importTarget site path name) := by
  refine (Viewpoint.failsOnly_resolve name).bind fun found? ↦ ?_
  cases found? with
  | none => exact .ok none
  | some found => exact (site.failsOnly_isFile found).bind fun _ ↦ .ok _

/-- A file of which it is not known what an import names is not answered. -/
theorem not_allAnswered_of_importTarget {text name : String} {e : Failure}
    (hpath : ReflTransGen (ImportEdge site) root path) (htext : site.disk.readText path = .ok text)
    (hname : name ∈ importedNames text) (h : importTarget site path name = .error e) :
    ¬AllAnswered site root := by
  intro hall
  obtain ⟨text', htext', hanswers⟩ := hall path hpath
  cases htext.symm.trans htext'
  obtain ⟨found?, hfound⟩ := hanswers name hname
  cases h.symm.trans hfound

theorem expandImport_eq (path : Path) (name : String) (source : List Char) :
    expandImport eval site ⟨some path⟩ name source = (do
      match ← ofExcept (importTarget site path name) with
      | none => return source
      | some found => includeFile eval site ⟨some path⟩ found) := by
  funext s
  unfold expandImport importTarget
  rcases Viewpoint.resolve ⟨some path⟩ site name true with e | _ | found
  · rfl
  · rfl
  · change (ofExcept (site.isFile found) >>= _) s = (ofExcept (site.isFile found >>= fun isFile ↦
      pure (if isFile = true then some found else none)) >>= _) s
    rcases site.isFile found with e | _ | _ <;> rfl

theorem EndsExpanding.bind {α β : Type} {x : Action α} {f : α → Action β}
    (hx : EndsExpanding site root (x s))
    (hf : ∀ a t, x s = .ok a t → EndsExpanding site root (f a t)) :
    EndsExpanding site root ((x >>= f) s) := by
  rcases h : x s with ⟨a, t⟩ | ⟨e, t⟩
  · rw [bind_of_ok h]
    exact hf a t h
  · rw [h] at hx
    rw [bind_of_error h]
    exact hx

theorem EndsExpanding.nested {α : Type} {inner : Action α}
    (h : EndsExpanding site root (inner (entered path s))) :
    EndsExpanding site root (nested path inner s) := by
  rcases hinner : inner (entered path s) with ⟨a, t⟩ | ⟨e, t⟩
  · rw [nested_of_ok hinner]
    trivial
  · rw [hinner] at h
    rw [nested_of_error hinner]
    exact h

/-- The evaluator ends so for every file that makes a walk longer. -/
def EndsBelow (site : Site) (root : Path) (walk : List Path) (eval : Evaluator) : Prop :=
  ∀ v k t, t.chain = walk → ImportWalk site root (walk ++ [k]) →
    EndsExpanding site root (eval v k none [⟨.imports, []⟩] t)

theorem endsExpanding_includeFile (hs : site.IsProper) (hroot : root.IsCanonical)
    (hfile : site.isFile root = .ok true) (hwalk : ImportWalk site root s.chain)
    (hlast : s.chain.getLast? = some path) (heval : EndsBelow site root s.chain eval)
    (v : Viewpoint) (hedge : ImportEdge site path k) :
    EndsExpanding site root (includeFile eval site v k s) := by
  unfold includeFile
  rw [bind_of_ok (get_apply s)]
  by_cases hk : k ∈ s.chain
  · rw [if_pos (List.contains_iff_mem.2 hk)]
    exact .inl ⟨⟨_, rfl⟩, hwalk.reachesImportCycle hlast hedge hk⟩
  · have hreach := (hwalk.reached (List.mem_of_getLast? hlast)).tail hedge
    obtain ⟨hcanonical, hfound⟩ := isCanonical_and_isFile_of_reached hs hroot hfile hreach
    have hcounted : dependOn site v k.text s =
        .ok () { s with dependencies := s.dependencies ++ [k] } :=
      bind_of_ok (ofExcept_ok (Viewpoint.require_of_isFile hcanonical hfound) s)
    rw [if_neg (hk ∘ List.contains_iff_mem.1)]
    refine EndsExpanding.bind (by rw [hcounted]; trivial) fun _ t ht ↦ ?_
    cases hcounted.symm.trans ht
    exact EndsExpanding.bind (heval v k _ rfl (hwalk.concat hlast hedge hk)) fun _ _ _ ↦ trivial

theorem endsExpanding_expandImport (hs : site.IsProper) (hroot : root.IsCanonical)
    (hfile : site.isFile root = .ok true) (hwalk : ImportWalk site root s.chain)
    (hlast : s.chain.getLast? = some path) (heval : EndsBelow site root s.chain eval)
    {text name : String} (htext : site.disk.readText path = .ok text)
    (hname : name ∈ importedNames text) (source : List Char) :
    EndsExpanding site root (expandImport eval site ⟨some path⟩ name source s) := by
  rw [expandImport_eq]
  rcases htarget : importTarget site path name with e | _ | k
  · exact .inr ⟨(failsOnly_importTarget path name e htarget).isRefusal, not_allAnswered_of_importTarget
      (hwalk.reached (List.mem_of_getLast? hlast)) htext hname htarget⟩
  · trivial
  · exact endsExpanding_includeFile hs hroot hfile hwalk hlast heval _ ⟨text, htext, name, hname, htarget⟩

theorem endsExpanding_expandPieces (hs : site.IsProper) (hroot : root.IsCanonical)
    (hfile : site.isFile root = .ok true) (hwalk : ImportWalk site root s.chain)
    (hlast : s.chain.getLast? = some path) (heval : EndsBelow site root s.chain eval)
    (hexpands : ExpandsImports site eval) {text : String}
    (htext : site.disk.readText path = .ok text) {pieces : List (Text.Piece String)}
    (hpieces : pieces ⊆ Stylesheet.imports text) :
    EndsExpanding site root (pieces.mapM (expandPiece eval site ⟨some path⟩) s) := by
  induction pieces generalizing s with
  | nil => trivial
  | cons piece pieces ih =>
    obtain ⟨hpiece, hpieces⟩ := List.cons_subset.1 hpieces
    rw [List.mapM_cons]
    refine .bind ?_ fun out t hout ↦ .bind ?_ fun _ _ _ ↦ trivial
    · cases piece with
      | plain c => trivial
      | found name source =>
        exact endsExpanding_expandImport hs hroot hfile hwalk hlast heval htext
          (mem_importedNames.2 ⟨source, hpiece⟩) source
    · have hchain : t.chain = s.chain := by
        cases piece with
        | plain c =>
          cases hout
          rfl
        | found name source => exact (expandImport_ok hexpands hout (.nil path)).1.chain
      rw [← hchain] at hwalk hlast heval
      exact ih hwalk hlast heval hpieces

/-! ## Evaluations inside evaluations -/

theorem endsExpanding_evaluateWithin (hs : site.IsProper) (hroot : root.IsCanonical)
    (hfile : site.isFile root = .ok true) (depth : Nat) {v : Viewpoint} {content : Option String}
    (hcontent : contentOf site v path content = site.disk.readText path)
    (hwalk : ImportWalk site root (s.chain ++ [path]))
    (hdepth : site.disk.fileCount + 1 ≤ depth + s.chain.length) :
    EndsExpanding site root (evaluateWithin site depth v path content [⟨.imports, []⟩] s) := by
  induction depth generalizing v path content s with
  | zero =>
    have hlength := hwalk.length_le hs hroot hfile
    rw [List.length_append, List.length_singleton] at hlength
    omega
  | succ depth ih =>
    have hlast : (s.chain ++ [path]).getLast? = some path := List.getLast?_concat
    have hisFile := fun {k : Path} (hk : ReflTransGen (ImportEdge site) root k) ↦
      (isCanonical_and_isFile_of_reached hs hroot hfile hk).2
    have hreach := hwalk.reached (List.mem_of_getLast? hlast)
    have hbelow : EndsBelow site root (entered path s).chain (evaluateWithin site depth) := by
      rintro w k t hchain hlonger
      rw [← hchain] at hlonger
      have hk := hisFile (hlonger.reached (List.mem_append_right _ (List.mem_singleton_self k)))
      refine ih (by rw [contentOf, hk]; rfl) hlonger ?_
      rw [hchain]
      change _ ≤ depth + (s.chain ++ [path]).length
      rw [List.length_append, List.length_singleton]
      omega
    unfold evaluateWithin
    rw [hcontent]
    rcases htext : site.disk.readText path with e | text
    · refine .inr ⟨(Disk.failsOnly_readText (Disk.orFail_eq_ok.1 (hisFile hreach)) e htext).isRefusal,
        fun hall ↦ ?_⟩
      obtain ⟨text, htext', -⟩ := hall path hreach
      cases htext.symm.trans htext'
    · refine EndsExpanding.nested (.bind ?_ fun _ _ _ ↦ trivial)
      refine .bind ?_ fun _ _ _ ↦ trivial
      exact endsExpanding_expandPieces hs hroot hfile hwalk hlast hbelow
        (expandsImports_evaluateWithin site depth) htext (List.Subset.refl _)

end Runs

/-! ## The expansion of an asset -/

/-- What the processor of imports makes of a file as an asset of its own. -/
def expanded (site : Site) (path : Path) : Except Failure String :=
  match Asset.evaluation site path [⟨.imports, []⟩] (forAsset path) with
  | .ok text _ => .ok text
  | .error e _ => .error e

/-- Expanding a file fails as circular if a cycle of imports is reached, and gives the recursive
expansion of its text if none is. -/
structure ExpandsOrIsCircular (site : Site) (path : Path) : Prop where
  circular : (∃ chain, expanded site path = .error (.circular chain)) ↔ ReachesImportCycle site path
  expansion : ¬ReachesImportCycle site path → ∃ text out, site.disk.readText path = .ok text ∧
    Expansion site path text.toList out ∧ expanded site path = .ok (String.ofList out)

section Expanded

variable {site : Site} {path : Path}

theorem expanded_eq_ok {out : String} (h : expanded site path = .ok out) :
    IsSettled site path ∧ ∃ text, site.disk.readText path = .ok text ∧
      Expansion site path text.toList out.toList := by
  unfold expanded at h
  rcases hrun : Asset.evaluation site path [⟨.imports, []⟩] (forAsset path) with ⟨made, t⟩ | ⟨e, t⟩
  · rw [hrun] at h
    cases h
    obtain ⟨text, _, hread, hevaluate⟩ := bind_eq_ok.1 hrun
    obtain ⟨htext, rfl⟩ := ofExcept_eq_ok.1 hread
    let depth := 2 * site.disk.fileCount + 3
    change nested path (runSpecs (evaluateWithin site depth) site path text [⟨.imports, []⟩])
      (forAsset path) = .ok out t at hevaluate
    obtain ⟨u, hspecs, -⟩ := nested_ok hevaluate
    unfold runSpecs at hspecs
    rw [List.foldlM_cons] at hspecs
    obtain ⟨_, w, hspec, hrest⟩ := bind_eq_ok.1 hspecs
    cases hrest
    obtain ⟨-, pieces, hexpands, rfl⟩ :=
      expandImports_ok (expandsImports_evaluateWithin site depth) hspec
    refine ⟨isSettled_of_targets htext fun name hname ↦ ?_, text, htext, ?_⟩
    · obtain ⟨source, hsource⟩ := mem_importedNames.1 hname
      exact settled_of_expands hexpands name source hsource
    · rw [String.toList_ofList]
      exact expansion_of_expands hexpands rfl
  · rw [hrun] at h
    cases h

theorem expanded_eq_error (hs : site.IsProper) (hpath : path.IsCanonical)
    (hfile : site.isFile path = .ok true) {e : Failure} (h : expanded site path = .error e) :
    (∃ chain, e = .circular chain) ∧ ReachesImportCycle site path ∨
      e.IsRefusal ∧ ¬AllAnswered site path := by
  have hends : EndsExpanding site path
      (Asset.evaluation site path [⟨.imports, []⟩] (forAsset path)) := by
    refine EndsExpanding.bind ?_ fun text t ht ↦ ?_
    · rcases htext : site.disk.readText path with e | text
      · refine .inr ⟨(Disk.failsOnly_readText (Disk.orFail_eq_ok.1 hfile) e htext).isRefusal,
          fun hall ↦ ?_⟩
        obtain ⟨text, htext', -⟩ := hall path .refl
        cases htext.symm.trans htext'
      · trivial
    · obtain ⟨htext, rfl⟩ := ofExcept_eq_ok.1 ht
      refine endsExpanding_evaluateWithin hs hpath hfile (depthBound site) htext.symm ?_ ?_
      · exact ⟨rfl, List.isChain_singleton path, List.nodup_singleton path⟩
      · unfold depthBound
        omega
  unfold expanded at h
  rcases hrun : Asset.evaluation site path [⟨.imports, []⟩] (forAsset path) with ⟨made, t⟩ | ⟨e, t⟩
  · rw [hrun] at h
    cases h
  · rw [hrun] at h hends
    cases h
    exact hends

/-- A file whose imports cannot be expanded has no body if it is a stylesheet. -/
theorem build_of_expanded_error {rest : List Spec} {e : Failure}
    (hchain : chainOf site path = ⟨.imports, []⟩ :: rest) (h : expanded site path = .error e) :
    ∃ t, site.build path = .error e t := by
  have hbuild : site.build path =
      Asset.evaluation site path (⟨.imports, []⟩ :: rest) (forAsset path) := by
    rw [← hchain]
    rfl
  rw [hbuild]
  unfold expanded at h
  unfold Asset.evaluation at h ⊢
  rcases hread : (ofExcept (site.disk.readText path) : Action String) (forAsset path) with
    ⟨text, u⟩ | ⟨e', u⟩
  · rw [bind_of_ok hread] at h ⊢
    let eval := evaluateWithin site (2 * site.disk.fileCount + 3)
    change (match nested path (runSpecs eval site path text [⟨.imports, []⟩]) u with
      | .ok text _ => .ok text
      | .error e _ => .error e : Except Failure String) = .error e at h
    change ∃ t, nested path (runSpecs eval site path text (⟨.imports, []⟩ :: rest)) u = .error e t
    rcases hspec : runSpec eval site (some ⟨some path⟩) (some path) ⟨.imports, []⟩ text
        (entered path u) with ⟨out, w⟩ | ⟨e', w⟩
    · have hall : runSpecs eval site path text [⟨.imports, []⟩] (entered path u) = .ok out w :=
        bind_of_ok hspec
      rw [nested_of_ok hall] at h
      cases h
    · have hall : ∀ specs, runSpecs eval site path text (⟨.imports, []⟩ :: specs) (entered path u) =
          .error e' w := fun _ ↦ bind_of_error hspec
      rw [nested_of_error (hall [])] at h
      cases h
      exact ⟨_, nested_of_error (hall rest)⟩
  · rw [bind_of_error hread] at h ⊢
    cases h
    exact ⟨u, rfl⟩

end Expanded

/-- Expanding the imports of an asset ends well exactly if no cycle is reached and everything is answered,
and gives the recursive expansion then. It fails as circular only if a cycle is reached, and else with a
refusal only if something is not answered; then the body of a stylesheet fails as well. So the law holds
where everything is answered, and where no cycle is reached it holds nowhere else. -/
theorem expanded_exact {site : Site} (hs : site.IsProper) {logical : String} {a : Asset}
    (ha : site.getAsset logical = .ok a) :
    (∀ out, expanded site a.path = .ok out ↔
      ¬ReachesImportCycle site a.path ∧ AllAnswered site a.path ∧
        ∃ text, site.disk.readText a.path = .ok text ∧
          Expansion site a.path text.toList out.toList) ∧
      (∀ e, expanded site a.path = .error e →
        ((∃ chain, e = .circular chain) ∧ ReachesImportCycle site a.path ∨
          e.IsRefusal ∧ ¬AllAnswered site a.path) ∧
        ∀ rest, chainOf site a.path = ⟨.imports, []⟩ :: rest →
          ∃ t, Asset.body ⟨site, a⟩ = .error e t) ∧
      (AllAnswered site a.path → ExpandsOrIsCircular site a.path) ∧
      (¬ReachesImportCycle site a.path →
        (ExpandsOrIsCircular site a.path ↔ AllAnswered site a.path)) := by
  obtain ⟨path, hpath, hmade⟩ := except_bind_eq_ok.1 ha
  have hasset : a = Asset.ofFile path (some logical) := (Except.ok.inj hmade).symm
  rw [hasset]
  have hcanonical := Site.isCanonical_of_getFile hs hpath
  have hfile := (Site.resolves_of_getFile hpath).2
  change (∀ out, expanded site path = .ok out ↔ _) ∧ (∀ e, expanded site path = .error e → _) ∧
    (AllAnswered site path → ExpandsOrIsCircular site path) ∧
    (¬ReachesImportCycle site path → (ExpandsOrIsCircular site path ↔ AllAnswered site path))
  have hlaw : AllAnswered site path → ExpandsOrIsCircular site path := by
    intro hall
    rcases hend : expanded site path with e | out
    · obtain ⟨⟨chain, rfl⟩, hcycle⟩ | ⟨-, hnot⟩ := expanded_eq_error hs hcanonical hfile hend
      · exact ⟨iff_of_true ⟨chain, hend⟩ hcycle, fun hnot ↦ absurd hcycle hnot⟩
      · exact absurd hall hnot
    · obtain ⟨hsettled, text, htext, hout⟩ := expanded_eq_ok hend
      refine ⟨iff_of_false ?_ hsettled.acyclic, fun _ ↦ ⟨text, out.toList, htext, hout, ?_⟩⟩
      · rintro ⟨chain, hfailed⟩
        cases hend.symm.trans hfailed
      · rw [hend, String.ofList_toList]
  refine ⟨fun out ↦ ⟨fun hok ↦ ?_, ?_⟩, fun e hfailed ↦ ⟨?_, fun rest hchain ↦ ?_⟩, hlaw,
    fun hnot ↦ ⟨fun h ↦ ?_, hlaw⟩⟩
  · obtain ⟨hsettled, hout⟩ := expanded_eq_ok hok
    exact ⟨hsettled.acyclic, hsettled.answered, hout⟩
  · rintro ⟨hnot, hall, text, htext, hout⟩
    obtain ⟨text', made, htext', hmade, hok⟩ := (hlaw hall).expansion hnot
    cases htext.symm.trans htext'
    rw [hok, hmade.unique hout, String.ofList_toList]
  · exact expanded_eq_error hs hcanonical hfile hfailed
  · obtain ⟨t, hbuild⟩ := build_of_expanded_error hchain hfailed
    exact ⟨_, Asset.body_of_build_error (s := ⟨site, .ofFile path (some logical)⟩) rfl hbuild⟩
  · obtain ⟨text, out, -, -, hok⟩ := h.expansion hnot
    exact (expanded_eq_ok hok).1.answered

/-- A stylesheet that imports another one twice, once over a third in its folder, and one that is not
there. -/
def atlasText : String :=
  "@import \"parts/sizes\";\nmain;\n@import url('parts/hues.css');\n@import \"none.css\";\n"

def atlas : Site :=
  Site.sample "local" [
    ("main.css", .file atlasText.toUTF8 1),
    ("parts", .folder 1 [
      ("sizes.css", .file "@import \"./hues.css\"; sizes;\n".toUTF8 1),
      ("hues.css", .file "hues;\n".toUTF8 1)])] []

theorem atlas_is_expanded : ∃ a, atlas.getAsset "main.css" = .ok a ∧
    ¬ReachesImportCycle atlas a.path ∧ AllAnswered atlas a.path ∧
    Expansion atlas a.path atlasText.toList
      "hues;\n\n sizes;\n\n\nmain;\nhues;\n\n\n@import \"none.css\";\n".toList := by
  have ha : atlas.getAsset "main.css" =
      .ok (.ofFile (.absolute ["src", "main.css"]) (some "main.css")) :=
    eq_ok_of_toOption (by decide +kernel)
  have hread : atlas.disk.readText (.absolute ["src", "main.css"]) = .ok atlasText :=
    eq_ok_of_toOption (by decide +kernel)
  have hexpanded : expanded atlas (.absolute ["src", "main.css"]) =
      .ok "hues;\n\n sizes;\n\n\nmain;\nhues;\n\n\n@import \"none.css\";\n" :=
    eq_ok_of_toOption (by decide +kernel)
  obtain ⟨hnot, hall, text, htext, hexpansion⟩ :=
    ((expanded_exact (Site.isProper_sample ..) ha).1 _).1 hexpanded
  cases hread.symm.trans htext
  exact ⟨_, ha, hnot, hall, hexpansion⟩

/-- A stylesheet with data in the place of a path: one name of more than 255 bytes. -/
def sealTarget : List Char := 'd' :: ("ata:;base64,".toList ++ List.replicate 255 'A' ++ ['A'])

/-- The shortest statement with a target in parentheses. -/
def importOf (target : List Char) : List Char :=
  "@import".toList ++ ([] ++ "url(".toList ++ ([] ++ [] ++ target ++
    ([] ++ [] ++ ')' :: ([] ++ [';']))))

def sealText : String := String.ofList (importOf sealTarget ++ "\nmain;\n".toList)

def sealed : Site := Site.sample "local" [("main.css", .file sealText.toUTF8 1)] []

theorem mem_sealTarget {c : Char} (h : c ∈ sealTarget) : c ∈ "data:;base64,A".toList := by
  have hpart : c = 'd' ∨ (c ∈ "ata:;base64,".toList ∨ c = 'A') ∨ c = 'A' := by
    rw [sealTarget, List.mem_cons, List.mem_append, List.mem_append, List.mem_singleton] at h
    exact h.imp_right (.imp_left (.imp_right List.eq_of_mem_replicate))
  have htail : "ata:;base64,".toList ⊆ "data:;base64,A".toList := by decide
  obtain rfl | (hmem | rfl) | rfl := hpart
  · decide
  · exact htail hmem
  · decide
  · decide

theorem isStatement_seal : IsStatement sealTarget (importOf sealTarget) := by
  have htrim : Text.trim sealTarget = sealTarget := Text.trim_of_ends (by decide) (by decide)
  have hchars : "data:;base64,A".toList.all Stylesheet.isTargetChar = true := by decide
  have hstatement : IsStatement (Text.trim sealTarget) (importOf sealTarget) :=
    .url (List.forall_mem_nil _) (List.forall_mem_nil _) (.inl rfl) (List.cons_ne_nil _ _)
      (fun c hc ↦ List.all_eq_true.1 hchars c (mem_sealTarget hc)) (.inl rfl) (List.forall_mem_nil _)
      (List.forall_mem_nil _)
  rwa [htrim] at hstatement

theorem importedNames_seal : importedNames sealText = [String.ofList sealTarget] := by
  have hrest : (Text.pieces Stylesheet.Import.recognise "\nmain;\n".toList).filterMap importedName? =
      [] := by decide +kernel
  unfold importedNames Stylesheet.imports sealText
  rw [String.toList_ofList, Stylesheet.pieces_statement isStatement_seal]
  exact congrArg (String.ofList sealTarget :: ·) hrest

theorem readText_seal : sealed.disk.readText (.absolute ["src", "main.css"]) = .ok sealText := by
  have hfind : sealed.disk.find (.absolute ["src", "main.css"]) = .ok (.file sealText.toUTF8 1) := rfl
  have hfeeds : '\r' ∉ sealText.toList := by
    intro h
    rw [sealText, String.toList_ofList] at h
    unfold importOf at h
    simp only [List.mem_append] at h
    obtain (h | (h | h) | (((h | h) | h) | (h | h) | h)) | h := h
    case inl.inr.inr.inl.inr => exact absurd (mem_sealTarget h) (by decide)
    all_goals exact absurd h (by decide)
  rw [Disk.readText_of_find hfind, fromUTF8?_eq_some.2 rfl]
  exact congrArg Except.ok (unifyNewlines_eq_self_iff.2 hfeeds)

/-- The disk is asked about the data as the name of a file. -/
theorem importTarget_seal (path : Path) : ∃ e,
    importTarget sealed path (String.ofList sealTarget) = .error e := by
  have hchars : (String.ofList sealTarget).toList = sealTarget := String.toList_ofList
  have hname : Path.IsName (String.ofList sealTarget) := by
    refine ⟨fun h ↦ ?_, fun h ↦ ?_, ?_⟩
    · have hnil := congrArg String.toList h
      rw [hchars] at hnil
      cases hnil
    · have hdot := congrArg String.toList h
      rw [hchars] at hdot
      cases hdot
    · rw [hchars]
      exact fun h ↦ absurd (mem_sealTarget h) (by decide)
  have hlong : Disk.isTooLong (String.ofList sealTarget) = true := by
    refine Disk.isTooLong_of_length ?_
    rw [hchars, sealTarget, List.length_cons, List.length_append, List.length_append,
      List.length_replicate]
    decide
  have hrelative : isRelativeMarker (String.ofList sealTarget) = false := by
    rw [isRelativeMarker, hchars]
    rfl
  have habsolute : isAbsolute (String.ofList sealTarget) = false := by
    rw [isAbsolute, hchars]
    rfl
  have hlookup : Viewpoint.resolve ⟨some path⟩ sealed (String.ofList sealTarget) true = _ :=
    Viewpoint.resolve_of_isTooLong rfl
      (rfl : sealed.disk.locate (.absolute ["src"]) = .ok ["src"]) rfl hname hlong hrelative habsolute
  unfold importTarget
  rw [hlookup]
  exact ⟨_, rfl⟩

/-- A statement that names no file is not left untouched but ends the expansion. -/
theorem seal_is_refused :
    sealed.disk.readText (.absolute ["src", "main.css"]) = .ok sealText ∧
      ¬ReachesImportCycle sealed (.absolute ["src", "main.css"]) ∧
      Expansion sealed (.absolute ["src", "main.css"]) sealText.toList sealText.toList ∧
      (∃ e, expanded sealed (.absolute ["src", "main.css"]) = .error e) ∧
      ¬ExpandsOrIsCircular sealed (.absolute ["src", "main.css"]) := by
  have hnone : ∀ name ∈ importedNames sealText, ∀ q,
      importTarget sealed (.absolute ["src", "main.css"]) name ≠ .ok (some q) := by
    intro name hname q htarget
    rw [importedNames_seal, List.mem_singleton] at hname
    obtain ⟨e, he⟩ := importTarget_seal (.absolute ["src", "main.css"])
    rw [hname, he] at htarget
    cases htarget
  have hedge : ∀ q, ¬ImportEdge sealed (.absolute ["src", "main.css"]) q := by
    rintro q ⟨text, htext, name, hname, htarget⟩
    rw [← Except.ok.inj (readText_seal.symm.trans htext)] at hname
    exact hnone name hname q htarget
  have hnot : ¬ReachesImportCycle sealed (.absolute ["src", "main.css"]) := by
    rintro ⟨p, hreach, hcycle⟩
    obtain rfl | ⟨q, hfirst, -⟩ := hreach.cases_head
    · obtain ⟨q, hfirst, -⟩ := TransGen.head'_iff.1 hcycle
      exact hedge q hfirst
    · exact hedge q hfirst
  have hfails : ∃ e, expanded sealed (.absolute ["src", "main.css"]) = .error e := by
    rcases hend : expanded sealed (.absolute ["src", "main.css"]) with e | out
    · exact ⟨e, rfl⟩
    · obtain ⟨text, htext, hanswers⟩ := (expanded_eq_ok hend).1.answered _ .refl
      rw [← Except.ok.inj (readText_seal.symm.trans htext), importedNames_seal] at hanswers
      obtain ⟨found?, hfound⟩ := hanswers _ (List.mem_singleton_self _)
      obtain ⟨e, he⟩ := importTarget_seal (.absolute ["src", "main.css"])
      cases he.symm.trans hfound
  refine ⟨readText_seal, hnot, expansion_of_kept fun name source hmem ↦ ?_, hfails, fun hlaw ↦ ?_⟩
  · exact hnone name (mem_importedNames.2 ⟨source, hmem⟩)
  · obtain ⟨text, out, -, -, hok⟩ := hlaw.expansion hnot
    obtain ⟨e, he⟩ := hfails
    cases he.symm.trans hok

end AssetBundler.Session
