import AssetBundler.Proofs.Asset.Body
import AssetBundler.Proofs.Disk.Listing
import AssetBundler.Proofs.Disk.Proper
import AssetBundler.Proofs.Path.Descent
import AssetBundler.Proofs.Path.Idempotence
import AssetBundler.Session.Evaluation

/-!
# Requiring a folder

To require a folder is to require some of its entries, in the order of their names: the files and the
folders with an index file, without dot files and without the file that asks. Each of them leads to a file.
The file that asks is left out as an entry of its own only: it is required, by itself, exactly if it is the
index file of a folder among the entries (`Session.requireTree_exact`).
-/

namespace AssetBundler

open AssetBundler.Action AssetBundler.Path

namespace Session

variable {site : Site} {v : Viewpoint} {folder f : Path} {name : String}

/-- An entry of a folder that is required with the folder: no dot file, not the file that asks, and a file
or a folder with an index file. -/
structure TakesPart (site : Site) (v : Viewpoint) (folder : Path) (name : String) : Prop where
  isName : IsName name
  undotted : name.toList.head? ≠ some '.'
  other : v.path ≠ some (folder.join name)
  holds : site.disk.HoldsFile (folder.join name) ∨ site.disk.HoldsFolder (folder.join name) ∧
    ∃ x ∈ site.pipeline.searchPath.order v.preferred,
      site.disk.HoldsFile ((folder.join name).join ("index" ++ x))

/-- No name is too long that a session asks about when it requires a folder. -/
structure IsShortBelow (site : Site) (v : Viewpoint) (folder : Path) : Prop where
  entries : ∀ name, site.disk.kindAt (folder.names ++ [name]) ≠ none → Disk.isTooLong name = false
  index : ∀ x ∈ site.pipeline.searchPath.order v.preferred, ∀ n ∈ namesOf ("index" ++ x),
    Disk.isTooLong n = false

theorem join_entry (hfolder : folder.IsCanonical) (hname : IsName name) :
    folder.join name = ⟨.slash, folder.names ++ [name]⟩ := by
  rw [join_of_isName hname, hfolder.anchored]

theorem isCanonical_entry (hfolder : folder.IsCanonical) (hname : IsName name)
    (hdot : name.toList.head? ≠ some '.') : (folder.join name).IsCanonical := by
  rw [join_entry hfolder hname]
  refine ⟨rfl, List.forall_mem_append.2 ⟨hfolder.proper, List.forall_mem_singleton.2 hname⟩, ?_⟩
  rw [List.mem_append, List.mem_singleton, not_or]
  refine ⟨hfolder.no_up, ?_⟩
  rintro rfl
  exact hdot rfl

/-- A name below the root of a proper disk is a name. -/
theorem isName_of_node? {d : Disk} (hd : d.IsProper) {place : List String} {n : Node}
    (h : d.node? (place ++ [name]) = some n) : IsName name := by
  have hmem := Node.mem_descendants h (List.concat_ne_nil name place)
  exact (Node.isName_of_mem_descendants hd.top _ hmem).2 name
    (List.mem_append_right _ (List.mem_singleton_self _))

/-- An entry without a leading dot, as a session finds it below its folder. -/
structure IsShown (site : Site) (v : Viewpoint) (folder : Path) (name : String) (n : Node) : Prop where
  isName : IsName name
  undotted : name.toList.head? ≠ some '.'
  canonical : (folder.join name).IsCanonical
  find : site.disk.find (folder.join name) = .ok n
  answers : ∀ x ∈ site.pipeline.searchPath.order v.preferred,
    site.disk.Answers ((folder.join name).join ("index" ++ x))

theorem isShown_of_node? (hfolder : folder.IsCanonical) (hholds : site.disk.HoldsFolder folder)
    (hshort : IsShortBelow site v folder) (hname : IsName name) (hdot : name.toList.head? ≠ some '.')
    {n : Node} (hn : site.disk.node? (folder.names ++ [name]) = some n) : IsShown site v folder name n := by
  have hcanonical := isCanonical_entry hfolder hname hdot
  have hjoin := join_entry hfolder hname
  have hnames : ∀ n ∈ (folder.join name).names, Disk.isTooLong n = false := by
    obtain ⟨t, entries, hfind⟩ := hholds
    obtain ⟨place, hplace, -⟩ := Disk.find_eq_ok.1 hfind
    have hkind : site.disk.kindAt (folder.names ++ [name]) ≠ none := Disk.kindAt_ne_none.2 ⟨n, hn⟩
    rw [hjoin]
    exact List.forall_mem_append.2 ⟨Disk.not_isTooLong_of_foldlM_enter hfolder.no_up hplace,
      List.forall_mem_singleton.2 (hshort.entries name hkind)⟩
  refine ⟨hname, hdot, hcanonical, ?_, fun x hx ↦ Disk.answers_of_short ?_⟩
  · rw [Disk.find_eq_ok_iff_node? ⟨hcanonical.anchor_ne, hcanonical.no_up, hnames⟩, hjoin]
    exact hn
  · rw [SearchPath.join_index]
    exact List.forall_mem_append.2 ⟨hnames, hshort.index x hx⟩

theorem node?_of_find (hfolder : folder.IsCanonical) (hname : IsName name)
    (hdot : name.toList.head? ≠ some '.') {n : Node} (h : site.disk.find (folder.join name) = .ok n) :
    site.disk.node? (folder.names ++ [name]) = some n := by
  obtain ⟨place, hplace, hnode⟩ := Disk.find_eq_ok.1 h
  rw [Disk.locate_eq_place hplace, (isCanonical_entry hfolder hname hdot).place_eq,
    join_entry hfolder hname] at hnode
  exact hnode

/-- A folder has an index file or none. -/
theorem IsShown.exists_findIndex {n : Node} (h : IsShown site v folder name n) : ∃ found,
    site.pipeline.searchPath.findIndex site.disk (folder.join name) v.preferred = .ok found ∧
    (found.isSome = true ↔ ∃ x ∈ site.pipeline.searchPath.order v.preferred,
      site.disk.HoldsFile ((folder.join name).join ("index" ++ x))) := by
  by_cases hindex : ∃ x ∈ site.pipeline.searchPath.order v.preferred,
      site.disk.HoldsFile ((folder.join name).join ("index" ++ x))
  · obtain ⟨x, hx⟩ := exists_isFirst hindex
    exact ⟨_, (SearchPath.findIndex_eq_some_iff (fun _ ↦ rfl) h.answers).2 ⟨x, hx, rfl⟩,
      iff_of_true rfl hindex⟩
  · refine ⟨none, (SearchPath.findIndex_eq_none_iff (fun _ ↦ rfl) h.answers).2 fun x hx hfile ↦ ?_,
      iff_of_false Bool.false_ne_true hindex⟩
    exact hindex ⟨x, hx, hfile⟩

open Classical in
/-- An entry is selected if it takes part. -/
theorem isSelected_eq {l : Disk.Listed} (hpath : l.path = folder.join l.name) {n : Node}
    (hkind : l.isFolder = n.isFolder)
    (h : l.name.toList.head? ≠ some '.' → IsShown site v folder l.name n) :
    isSelected site v l = .ok (decide (TakesPart site v folder l.name)) := by
  by_cases hdot : l.name.toList.head? = some '.'
  · rw [decide_eq_false fun htakes : TakesPart site v folder l.name ↦ htakes.undotted hdot]
    unfold isSelected
    rw [if_pos hdot]
    rfl
  · have hshown := h hdot
    have hself : site.disk.resolve l.path = folder.join l.name := by
      rw [hpath]
      exact hshown.canonical.resolve_eq site.disk.here
    unfold isSelected
    rw [if_neg hdot, hself]
    by_cases hother : v.path = some (folder.join l.name)
    · rw [if_pos hother, decide_eq_false fun htakes : TakesPart site v folder l.name ↦ htakes.other hother]
      rfl
    · rw [if_neg hother, hkind]
      cases n with
      | file bytes t =>
        have htakes : TakesPart site v folder l.name :=
          ⟨hshown.isName, hdot, hother, .inl ⟨bytes, t, hshown.find⟩⟩
        rw [decide_eq_true htakes]
        rfl
      | folder t entries =>
        have hholds : site.disk.HoldsFolder (folder.join l.name) := ⟨t, entries, hshown.find⟩
        obtain ⟨found, hfound, hsome⟩ := hshown.exists_findIndex
        have htakes : TakesPart site v folder l.name ↔ found.isSome = true := by
          rw [hsome]
          constructor
          · intro htakes
            exact (htakes.holds.resolve_left fun hfile ↦ hfile.not_holdsFolder hholds).2
          · exact fun hindex ↦ ⟨hshown.isName, hdot, hother, .inr ⟨hholds, hindex⟩⟩
        rw [hfound, Bool.eq_iff_iff.2 (decide_eq_true_iff.trans htakes)]
        rfl

/-- The selected entries are required one after another. -/
theorem requireEntries_eq_forM (eval : Evaluator) {listed : List Disk.Listed} {takes : String → Bool}
    (h : ∀ l ∈ listed, isSelected site v l = .ok (takes l.name) ∧
      (takes l.name = true → site.disk.resolve l.path = folder.join l.name)) :
    requireEntries eval site v listed = ((listed.map Disk.Listed.name).filter takes).forM
      fun name ↦ requireAsset eval site v (folder.join name).text := by
  induction listed with
  | nil => rfl
  | cons l listed ih =>
    rw [List.forall_mem_cons] at h
    obtain ⟨⟨hselected, hself⟩, hrest⟩ := h
    rw [requireEntries, hselected, ih hrest, List.map_cons]
    cases htakes : takes l.name with
    | false =>
      rw [List.filter_cons_of_neg (by simp [htakes])]
      rfl
    | true =>
      rw [List.filter_cons_of_pos htakes, hself htakes]
      rfl

/-- A folder that is found is counted, and its entries are gone through. -/
theorem requireTree_of_list {eval : Evaluator} {path : String} {listed : List Disk.Listed}
    (hresolve : v.resolve site path false = .ok (some folder))
    (hfolder : site.disk.isFolder folder = .ok true) (hlist : site.disk.list folder = .ok listed) :
    requireTree eval site v path = (do
      addDependency folder
      requireEntries eval site v listed) := by
  unfold requireTree
  rw [hresolve]
  change (do
    if ← ofExcept (Disk.orFail (site.disk.isFolder folder)) then
      addDependency folder
      requireEntries eval site v (← ofExcept (Disk.orFail (site.disk.list folder)))
    else throw (Failure.assetNotFound path v.path)) = _
  rw [hfolder, hlist]
  rfl

/-! ## What the entries lead to -/

/-- The text of a canonical path is looked up by the index rule alone. -/
theorem require_text_eq_ok_iff {p q : Path} (hp : p.IsCanonical) :
    v.require site p.text true = .ok q ↔ ∃ found,
      site.pipeline.searchPath.withIndex site.disk p v.preferred true = .ok found ∧
      q = site.disk.resolve found := by
  have hresolve : v.resolve site p.text true = .ok (some q) ↔
      site.pipeline.searchPath.resolve site.disk p.text v.preferred true = .ok (some q) := by
    unfold Viewpoint.resolve
    rw [hp.isRelativeMarker_text, Disk.orFail_eq_ok]
  have hrequire : v.require site p.text true = .ok q ↔ v.resolve site p.text true = .ok (some q) := by
    unfold Viewpoint.require
    rcases v.resolve site p.text true with e | _ | found <;> simp [bind, Except.bind, pure, Except.pure]
  rw [hrequire, hresolve, SearchPath.resolve_eq_some_of_isAbsolute hp.isAbsolute_text, hp.ofText_text]

/-- What is required for an entry is what it stands for. -/
theorem IsShown.require_eq_ok_iff {n : Node} (h : IsShown site v folder name n) :
    v.require site (folder.join name).text true = .ok f ↔ ∃ found,
      SearchPath.StandsFor site.disk (site.pipeline.searchPath.order v.preferred) true (folder.join name) found ∧
      f = site.disk.resolve found := by
  have hentry : site.disk.Answers (folder.join name) := by
    unfold Disk.Answers
    rw [h.find]
    exact nofun
  rw [require_text_eq_ok_iff h.canonical]
  exact exists_congr fun found ↦
    and_congr_left fun _ ↦ SearchPath.withIndex_eq_ok_iff (fun _ ↦ rfl) hentry h.answers

/-- The file is the first index file of the folder. -/
def IsIndexOf (site : Site) (v : Viewpoint) (folder file : Path) : Prop :=
  site.disk.HoldsFolder folder ∧ ∃ x,
    IsFirst (fun x ↦ site.disk.HoldsFile (folder.join ("index" ++ x)))
      (site.pipeline.searchPath.order v.preferred) x ∧
    file = site.disk.resolve (folder.join ("index" ++ x))

/-- An entry that takes part leads to itself, or to its first index file. -/
theorem require_iff_of_takesPart {n : Node} (hshown : IsShown site v folder name n)
    (h : TakesPart site v folder name) : v.require site (folder.join name).text true = .ok f ↔
      site.disk.HoldsFile (folder.join name) ∧ f = folder.join name ∨
      IsIndexOf site v (folder.join name) f := by
  have hself : site.disk.resolve (folder.join name) = folder.join name :=
    hshown.canonical.resolve_eq site.disk.here
  rw [hshown.require_eq_ok_iff]
  constructor
  · rintro ⟨found, hfound, hf⟩
    cases hfound with
    | itself hnot =>
      have hfile := h.holds.resolve_right fun hfolder ↦ hnot.resolve_left (by decide) hfolder.1
      exact .inl ⟨hfile, hf.trans hself⟩
    | folder hfolder hnone =>
      obtain ⟨x, hx, hfile⟩ := (h.holds.resolve_left fun hfile ↦ hfile.not_holdsFolder hfolder).2
      exact absurd hfile (hnone x hx)
    | indexFile _ hfolder hx => exact .inr ⟨hfolder, _, hx, hf⟩
  · rintro (⟨hfile, hf⟩ | ⟨hfolder, x, hx, hf⟩)
    · exact ⟨_, .itself (.inr hfile.not_holdsFolder), hf.trans hself.symm⟩
    · exact ⟨_, .indexFile rfl hfolder hx, hf⟩

theorem IsIndexOf.holdsFile (hfolder : folder.anchor ≠ .none) (h : IsIndexOf site v folder f) :
    site.disk.HoldsFile f := by
  obtain ⟨-, x, hx, rfl⟩ := h
  obtain ⟨bytes, t, hfile⟩ := hx.holds
  have hanchor : (folder.join ("index" ++ x)).anchor ≠ .none := by
    rw [SearchPath.join_index]
    exact hfolder
  exact ⟨bytes, t, (Disk.find_resolve hanchor ⟨_, hfile⟩).trans hfile⟩

/-- A folder with an index file takes part, unless its name has a leading dot. -/
theorem takesPart_of_isIndexOf (hfolder : folder.IsCanonical) (hname : IsName name)
    (hdot : name.toList.head? ≠ some '.') (hv : v.path = some f)
    (h : IsIndexOf site v (folder.join name) f) : TakesPart site v folder name := by
  have hfile := h.holdsFile (isCanonical_entry hfolder hname hdot).anchor_ne
  obtain ⟨hholds, x, hx, -⟩ := h
  refine ⟨hname, hdot, fun hself ↦ ?_, .inr ⟨hholds, x, hx.mem, hx.holds⟩⟩
  rw [hv, Option.some.injEq] at hself
  exact hfile.not_holdsFolder (hself ▸ hholds)

theorem TakesPart.exists_node? (h : TakesPart site v folder name) (hfolder : folder.IsCanonical) :
    ∃ n, site.disk.node? (folder.names ++ [name]) = some n := by
  rcases h.holds with ⟨bytes, t, hfind⟩ | ⟨⟨t, entries, hfind⟩, -⟩
  · exact ⟨_, node?_of_find hfolder h.isName h.undotted hfind⟩
  · exact ⟨_, node?_of_find hfolder h.isName h.undotted hfind⟩

/-- An entry that takes part leads to a file. -/
theorem exists_require {n : Node} (hshown : IsShown site v folder name n)
    (h : TakesPart site v folder name) :
    ∃ q, v.require site (folder.join name).text true = .ok q ∧ site.isFile q = .ok true := by
  have hleads : ∃ q, v.require site (folder.join name).text true = .ok q ∧ site.disk.HoldsFile q := by
    rcases h.holds with hfile | ⟨hholds, hindex⟩
    · exact ⟨_, (require_iff_of_takesPart hshown h).2 (.inl ⟨hfile, rfl⟩), hfile⟩
    · obtain ⟨x, hx⟩ := exists_isFirst hindex
      have hof : IsIndexOf site v (folder.join name)
          (site.disk.resolve ((folder.join name).join ("index" ++ x))) := ⟨hholds, x, hx, rfl⟩
      exact ⟨_, (require_iff_of_takesPart hshown h).2 (.inr hof), hof.holdsFile hshown.canonical.anchor_ne⟩
  obtain ⟨q, hq, bytes, t, hfind⟩ := hleads
  exact ⟨q, hq, Disk.orFail_eq_ok.2 (Disk.isFile_of_find hfind)⟩

/-- The file that asks is required with a folder exactly if it is the index file of one of the entries. -/
theorem requires_self_iff (hfolder : folder.IsCanonical) (hv : v.path = some f)
    (hshown : ∀ name, TakesPart site v folder name → ∃ n, IsShown site v folder name n) :
    (∃ name, TakesPart site v folder name ∧ v.require site (folder.join name).text true = .ok f) ↔
      ∃ name, IsName name ∧ name.toList.head? ≠ some '.' ∧ IsIndexOf site v (folder.join name) f := by
  constructor
  · rintro ⟨name, htakes, hrequire⟩
    obtain ⟨n, hn⟩ := hshown name htakes
    rcases (require_iff_of_takesPart hn htakes).1 hrequire with ⟨-, hself⟩ | hindex
    · exact absurd (hv.trans (congrArg some hself)) htakes.other
    · exact ⟨name, htakes.isName, htakes.undotted, hindex⟩
  · rintro ⟨name, hname, hdot, hindex⟩
    have htakes := takesPart_of_isIndexOf hfolder hname hdot hv hindex
    obtain ⟨n, hn⟩ := hshown name htakes
    exact ⟨name, htakes, (require_iff_of_takesPart hn htakes).2 (.inr hindex)⟩

/-- To require a folder is to require the entries that take part, in the order of names, and each of them leads
to a file. The file that asks is required exactly if it is the index file of a folder among the entries. -/
theorem requireTree_exact {path : String} (hs : site.IsProper) (hproper : site.disk.IsProper)
    (hsound : site.disk.IsSound) (hv : ∀ p, v.path = some p → p.IsProper)
    (hresolve : v.resolve site path false = .ok (some folder))
    (hfolder : site.disk.isFolder folder = .ok true) (hshort : IsShortBelow site v folder) :
    ∃ names : List String, names.Pairwise (· < ·) ∧
      (∀ name, name ∈ names ↔ TakesPart site v folder name) ∧
      (∀ eval, requireTree eval site v path = do
        addDependency folder
        names.forM fun name ↦ requireAsset eval site v (folder.join name).text) ∧
      (∀ name ∈ names, ∃ q, v.require site (folder.join name).text true = .ok q ∧
        site.isFile q = .ok true) ∧
      ∀ f, v.path = some f →
        ((∃ name ∈ names, v.require site (folder.join name).text true = .ok f) ↔
          ∃ name, IsName name ∧ name.toList.head? ≠ some '.' ∧
            IsIndexOf site v (folder.join name) f) := by
  have hcanonical : folder.IsCanonical := Viewpoint.isCanonical_of_resolve hs hv hresolve
  have hholds : site.disk.HoldsFolder folder := Disk.holdsFolder_of_isFolder hfolder
  obtain ⟨listed, hlist, hsorted, hentries, hall⟩ := Disk.exists_list hsound hcanonical hholds
  classical
  let names := (listed.map Disk.Listed.name).filter fun name ↦ decide (TakesPart site v folder name)
  have hshown : ∀ name n, name.toList.head? ≠ some '.' →
      site.disk.node? (folder.names ++ [name]) = some n → IsShown site v folder name n :=
    fun name n hdot hn ↦ isShown_of_node? hcanonical hholds hshort (isName_of_node? hproper hn) hdot hn
  have hfound : ∀ name, TakesPart site v folder name → ∃ n, IsShown site v folder name n := by
    intro name htakes
    obtain ⟨n, hn⟩ := htakes.exists_node? hcanonical
    exact ⟨n, hshown name n htakes.undotted hn⟩
  have hmem : ∀ name, name ∈ names ↔ TakesPart site v folder name := by
    intro name
    rw [List.mem_filter, decide_eq_true_eq]
    refine and_iff_right_of_imp fun htakes ↦ ?_
    obtain ⟨n, hn⟩ := htakes.exists_node? hcanonical
    apply hall
    rw [hn]
    exact Option.some_ne_none n
  refine ⟨names, hsorted.filter _, hmem, fun eval ↦ ?_, fun name hname ↦ ?_, fun f hf ↦ ?_⟩
  · have hselected : requireEntries eval site v listed = names.forM
        fun name ↦ requireAsset eval site v (folder.join name).text := by
      refine requireEntries_eq_forM eval fun l hl ↦ ?_
      obtain ⟨hpath, n, hn, hkind⟩ := hentries l hl
      refine ⟨isSelected_eq hpath hkind fun hdot ↦ hshown l.name n hdot hn, fun htakes ↦ ?_⟩
      have htakes' : TakesPart site v folder l.name := of_decide_eq_true htakes
      rw [hpath]
      exact (isCanonical_entry hcanonical htakes'.isName htakes'.undotted).resolve_eq site.disk.here
    rw [requireTree_of_list hresolve hfolder hlist, hselected]
  · have htakes := (hmem name).1 hname
    obtain ⟨n, hn⟩ := hfound name htakes
    exact exists_require hn htakes
  · rw [← requires_self_iff hcanonical hf hfound]
    exact exists_congr fun name ↦ and_congr_left' (hmem name)

/-- A script beside a folder, which holds a script, a dot file and a folder with an index file. -/
def cabinet : Site :=
  Site.sample "local" [("main.js", .file "//= require_tree ./lib\n".toUTF8 1),
    ("lib", .folder 1 [("widget", .folder 1 [("index.js", .file "W();\n".toUTF8 1)]),
      (".hidden.js", .file "H();\n".toUTF8 1), ("a.js", .file "A();\n".toUTF8 1)])] []

theorem isShortBelow_cabinet (v : Viewpoint)
    (hv : ∀ x ∈ cabinet.pipeline.searchPath.order v.preferred, ∀ n ∈ namesOf ("index" ++ x),
      Disk.isTooLong n = false) : IsShortBelow cabinet v (.absolute ["src", "lib"]) := by
  refine ⟨fun name hname ↦ ?_, hv⟩
  have hnode : ∃ t entries, cabinet.disk.node? ["src", "lib"] = some (.folder t entries) ∧
      ∀ e ∈ entries, Disk.isTooLong e.1 = false := ⟨_, _, rfl, by decide⟩
  obtain ⟨t, entries, hnode, hshort⟩ := hnode
  obtain ⟨n, hn⟩ := Disk.kindAt_ne_none.1 hname
  rw [Disk.node?_entry (p := .absolute ["src", "lib"]) hnode] at hn
  exact hshort _ (Node.mem_of_get? hn)

/-- The script requires the script and the folder. -/
theorem requireTree_beside :
    let v : Viewpoint := ⟨some (.absolute ["src", "main.js"])⟩
    let folder := Path.absolute ["src", "lib"]
    cabinet.IsProper ∧ cabinet.disk.IsProper ∧ cabinet.disk.IsSound ∧
    v.resolve cabinet "./lib" false = .ok (some folder) ∧ cabinet.disk.isFolder folder = .ok true ∧
    IsShortBelow cabinet v folder ∧
    ∃ names : List String, names.Pairwise (· < ·) ∧ "a.js" ∈ names ∧ "widget" ∈ names ∧
      ".hidden.js" ∉ names ∧
      ∀ name ∈ names, ∃ q, v.require cabinet (folder.join name).text true = .ok q ∧
        cabinet.isFile q = .ok true := by
  intro v folder
  have hs : cabinet.IsProper := Site.isProper_sample ..
  have hproper : cabinet.disk.IsProper := ⟨List.forall_mem_nil _, by decide⟩
  have hsound : cabinet.disk.IsSound := ⟨rfl, by decide⟩
  have hresolve : v.resolve cabinet "./lib" false = .ok (some folder) := eq_ok_of_toOption (by decide +kernel)
  have hfolder : cabinet.disk.isFolder folder = .ok true := eq_ok_of_toOption (by decide +kernel)
  have hshort : IsShortBelow cabinet v folder := isShortBelow_cabinet v (by decide +kernel)
  have hv : ∀ p, v.path = some p → p.IsProper := by
    rintro p ⟨⟩
    unfold Path.IsProper
    decide
  obtain ⟨names, hsorted, hmem, -, hfiles, -⟩ :=
    requireTree_exact hs hproper hsound hv hresolve hfolder hshort
  refine ⟨hs, hproper, hsound, hresolve, hfolder, hshort, names, hsorted, ?_, ?_, ?_, hfiles⟩
  · have hfile : cabinet.disk.isFile (folder.join "a.js") = .ok true := eq_ok_of_toOption (by decide +kernel)
    exact (hmem _).2 ⟨by decide, by decide, by decide, .inl (Disk.holdsFile_of_isFile hfile)⟩
  · have hholds : cabinet.disk.isFolder (folder.join "widget") = .ok true :=
      eq_ok_of_toOption (by decide +kernel)
    have hindex : cabinet.disk.isFile ((folder.join "widget").join ("index" ++ ".js")) = .ok true :=
      eq_ok_of_toOption (by decide +kernel)
    exact (hmem _).2 ⟨by decide, by decide, by decide, .inr ⟨Disk.holdsFolder_of_isFolder hholds,
      ".js", by decide +kernel, Disk.holdsFile_of_isFile hindex⟩⟩
  · exact fun hhidden ↦ ((hmem _).1 hhidden).undotted (by decide)

/-- A folder whose index file requires the folder above it. -/
def alcove : Site :=
  Site.sample "local" [("lib", .folder 1
    [("widget", .folder 1 [("index.js", .file "//= require_tree ../\nW();\n".toUTF8 1)])])] []

/-- The index file is required by itself, and its build fails. -/
theorem requireTree_of_index :
    let f := Path.absolute ["src", "lib", "widget", "index.js"]
    let v : Viewpoint := ⟨some f⟩
    v.resolve alcove "../" false = .ok (some (.absolute ["src", "lib"])) ∧
    v.require alcove "/src/lib/widget" true = .ok f ∧
    ∃ e, alcove.bodyOf f = .error e ∧ e.message =
      "Circular asset dependency: /src/lib/widget/index.js -> /src/lib/widget/index.js" := by
  intro f v
  have hmessage : (failure? (alcove.build f)).map Failure.message = some
      "Circular asset dependency: /src/lib/widget/index.js -> /src/lib/widget/index.js" := by
    decide +kernel
  obtain ⟨e, he, hmessage⟩ := Option.map_eq_some_iff.1 hmessage
  refine ⟨eq_ok_of_toOption (by decide +kernel), eq_ok_of_toOption (by decide +kernel), e, ?_, hmessage⟩
  unfold Site.bodyOf
  rw [eq_error_of_failure? he]

end Session

end AssetBundler
