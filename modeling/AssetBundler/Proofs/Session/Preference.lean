import AssetBundler.Proofs.Asset.Body
import AssetBundler.Proofs.Path.Search
import AssetBundler.Proofs.Text.Extension

/-!
# The preferred extension

A file looks names up with its first extension in front of all others. That is the extension of its own
format if the table of types knows it, and then a name leads to a file of that format wherever the first
folder with a candidate has one. Behind another first extension the format has no such place: it is found
exactly if no extension in front of it leads anywhere (`Viewpoint.preference_exact`).
-/

namespace AssetBundler

open AssetBundler.Action

/-- The extensions of a table are tried by the search path. -/
def Pipeline.TriesTypes (p : Pipeline) : Prop :=
  ∀ ext ∈ p.config.contentTypes.keys, normalizeExtension ext ∈ p.searchPath.extensions

theorem Pipeline.triesTypes_of_assemble {library : Library} {here : List String} {root : Path}
    {config : Config} {p : Pipeline} (h : assemble library here root config = .ok p) : p.TriesTypes := by
  unfold assemble at h
  obtain ⟨post, -, h⟩ := except_bind_eq_ok.1 h
  obtain ⟨compressors, -, h⟩ := except_bind_eq_ok.1 h
  rw [← Except.ok.inj h]
  exact fun ext hext ↦ SearchPath.mem_addExtensions hext

namespace SearchPath

variable {s : SearchPath} {d : Disk} {name : String} {index : Bool} {base q : Path}

theorem order_singleton {ext : String} (hnormal : normalizeExtension ext = ext) (hne : ext ≠ "") :
    s.order [ext] = ext :: s.extensions.filter fun e ↦ !([ext].contains e) := by
  unfold order
  rw [List.filter_cons_of_pos (by simpa using hne), List.filter_nil, List.map_singleton, hnormal]
  rfl

/-- Of the paths that the extensions lead to, the first that passes a test is that of `ext`, or another
spelling of it. -/
def Prefers (d : Disk) (test : Path → Except Disk.Error Bool) (make : String → Path) (exts : List String)
    (ext : String) : Prop :=
  ∃ front x back, exts = front ++ x :: back ∧ (∀ y ∈ front, test (make y) = .ok false) ∧
    test (make x) = .ok true ∧ d.resolve (make ext) = d.resolve (make x)

theorem prefers_head {test : Path → Except Disk.Error Bool} {make : String → Path} {exts : List String}
    {ext : String} (h : test (make ext) = .ok true) : Prefers d test make (ext :: exts) ext :=
  ⟨[], ext, exts, rfl, List.forall_mem_nil _, h, rfl⟩

variable {preferred : List String} {ext : String}

theorem resolveIn_ne_none {x : String} (hx : x ∈ "" :: s.order preferred)
    (h : d.exists? (base.join (name ++ x)) = .ok true) :
    s.resolveIn d base name preferred index ≠ .ok none := by
  intro hnone
  have hno := resolveIn_eq_none.1 hnone x hx
  rw [h] at hno
  cases hno

/-- Where the name alone leads nowhere, the extensions decide. -/
theorem resolveIn_false_eq_some_iff (hname : d.exists? (base.join name) = .ok false) :
    s.resolveIn d base name preferred false = .ok (some (d.resolve (base.join (name ++ ext)))) ↔
      Prefers d d.exists? (fun x ↦ base.join (name ++ x)) (s.order preferred) ext := by
  rw [resolveIn_eq_some]
  constructor
  · rintro ⟨front, x, back, found, hsplit, hfront, hx, hfound, hq⟩
    cases hfound
    cases front with
    | nil =>
      rw [← (List.cons.inj hsplit).1, String.append_empty, hname] at hx
      cases hx
    | cons first front =>
      rw [List.forall_mem_cons] at hfront
      exact ⟨front, x, back, (List.cons.inj hsplit).2, hfront.2, hx, hq⟩
  · rintro ⟨front, x, back, hsplit, hfront, hx, hq⟩
    refine ⟨"" :: front, x, back, _, by rw [hsplit, List.cons_append], ?_, hx, rfl, hq⟩
    rw [List.forall_mem_cons, String.append_empty]
    exact ⟨hname, hfront⟩

/-- In the place of a folder that is found, the extensions of its index files decide. -/
theorem resolveIn_true_eq_some_iff {hit : Path}
    (hhit : firstSuch d.exists? (s.candidates base name preferred) = .ok (some hit))
    (hfolder : d.isFolder hit = .ok true) (hext : ext ∈ s.order preferred)
    (hindex : d.isFile (hit.join ("index" ++ ext)) = .ok true) :
    s.resolveIn d base name preferred true = .ok (some (d.resolve (hit.join ("index" ++ ext)))) ↔
      Prefers d d.isFile (fun x ↦ hit.join ("index" ++ x)) (s.order preferred) ext := by
  rw [resolveIn_eq_some_iff_firstSuch]
  constructor
  · rintro ⟨p, found, hp, hfound, hq⟩
    rw [hhit] at hp
    cases hp
    rcases withIndex_true_eq_ok.1 hfound with ⟨hno, -⟩ | ⟨-, ⟨hnone, -⟩ | hsome⟩
    · rw [hfolder] at hno
      cases hno
    · have hno := findIndex_eq_none.1 hnone ext hext
      rw [hindex] at hno
      cases hno
    · obtain ⟨front, x, back, hsplit, hfront, hx, rfl⟩ := findIndex_eq_some.1 hsome
      exact ⟨front, x, back, hsplit, hfront, hx, hq⟩
  · rintro ⟨front, x, back, hsplit, hfront, hx, hq⟩
    refine ⟨hit, hit.join ("index" ++ x), hhit, withIndex_true_eq_ok.2 (.inr ⟨hfolder, .inr ?_⟩), hq⟩
    exact findIndex_eq_some.2 ⟨front, x, back, hsplit, hfront, hx, rfl⟩

end SearchPath

namespace Viewpoint

variable {v : Viewpoint} {site : Site} {name : String} {index : Bool} {q : Path}

/-- The folders in which a relative name is looked up, in order. -/
def places (v : Viewpoint) (site : Site) (name : String) : List Path :=
  match isRelativeMarker name, v.path with
  | true, some current => [current.parent]
  | _, _ => site.pipeline.searchPath.roots

theorem resolve_eq_ok_iff (hname : isAbsolute name = false) {found : Option Path} :
    v.resolve site name index = .ok found ↔ site.pipeline.searchPath.resolveInRoots site.disk name
      v.preferred index (v.places site name) = .ok found := by
  unfold resolve places
  rw [Disk.orFail_eq_ok]
  cases isRelativeMarker name with
  | false => rw [SearchPath.resolve_of_relative hname]
  | true =>
    cases v.path with
    | none => rw [SearchPath.resolve_of_relative hname]
    | some current => rw [SearchPath.resolveInRoots_singleton]

/-- The first folder with a candidate decides. -/
theorem resolve_eq_some_iff (hname : isAbsolute name = false) {before after : List Path} {base : Path}
    (hplaces : v.places site name = before ++ base :: after)
    (hbefore : ∀ place ∈ before,
      site.pipeline.searchPath.resolveIn site.disk place name v.preferred index = .ok none)
    (hbase : site.pipeline.searchPath.resolveIn site.disk base name v.preferred index ≠ .ok none) :
    v.resolve site name index = .ok (some q) ↔
      site.pipeline.searchPath.resolveIn site.disk base name v.preferred index = .ok (some q) := by
  rw [resolve_eq_ok_iff hname, hplaces, SearchPath.resolveInRoots_append hbefore,
    SearchPath.resolveInRoots_cons_of_ne_none hbase]

/-- The extension of the format is tried. -/
theorem mem_order_of_formatOf {ext : String} {file : String} (htypes : site.pipeline.TriesTypes)
    (hformat : site.pipeline.formatOf file = ext) (hne : ext ≠ "") (preferred : List String) :
    ext ∈ site.pipeline.searchPath.order preferred := by
  unfold Pipeline.formatOf formatExtension at hformat
  cases hfind : (extensionsOf file).find? site.pipeline.config.contentTypes.keys.contains with
  | none =>
    rw [hfind] at hformat
    exact absurd hformat.symm hne
  | some found =>
    rw [hfind] at hformat
    have hfound : found = ext := hformat
    subst hfound
    have hkey := htypes found (List.contains_iff_mem.1 (List.find?_some hfind))
    rw [normalizeExtension_of_mem_extensionsOf (List.mem_of_find?_eq_some hfind)] at hkey
    unfold SearchPath.order
    by_cases hfirst : found ∈ (preferred.filter fun e ↦ e ≠ "").map normalizeExtension
    · exact List.mem_append_left _ hfirst
    · exact List.mem_append_right _ (List.mem_filter.2 ⟨hkey, by simpa using hfirst⟩)

/-- A name that a file looks up leads to a file of its own format, where the first folder with a candidate has
one, exactly if no other extension comes first there; and so does the folder that a name leads to, for its
index files. The first extension of a file comes first everywhere. -/
theorem preference_exact {f base : Path} {ext : String} {before after : List Path}
    (hpath : v.path = some f) (hformat : site.pipeline.formatOf f.name = ext) (hne : ext ≠ "")
    (htypes : site.pipeline.TriesTypes) (hname : isAbsolute name = false)
    (hplaces : v.places site name = before ++ base :: after)
    (hbefore : ∀ place ∈ before, ∀ x ∈ "" :: site.pipeline.searchPath.order v.preferred,
      site.disk.exists? (place.join (name ++ x)) = .ok false) :
    (site.disk.exists? (base.join name) = .ok false →
      site.disk.exists? (base.join (name ++ ext)) = .ok true →
      (v.resolve site name false = .ok (some (site.disk.resolve (base.join (name ++ ext)))) ↔
        SearchPath.Prefers site.disk site.disk.exists? (fun x ↦ base.join (name ++ x))
          (site.pipeline.searchPath.order v.preferred) ext)) ∧
    (∀ hit, SearchPath.firstSuch site.disk.exists?
        (site.pipeline.searchPath.candidates base name v.preferred) = .ok (some hit) →
      site.disk.isFolder hit = .ok true → site.disk.isFile (hit.join ("index" ++ ext)) = .ok true →
      (v.resolve site name true = .ok (some (site.disk.resolve (hit.join ("index" ++ ext)))) ↔
        SearchPath.Prefers site.disk site.disk.isFile (fun x ↦ hit.join ("index" ++ x))
          (site.pipeline.searchPath.order v.preferred) ext)) ∧
    ((extensionsOf f.name).head? = some ext → ∀ test make, test (make ext) = .ok true →
      SearchPath.Prefers site.disk test make (site.pipeline.searchPath.order v.preferred) ext) := by
  have hext := mem_order_of_formatOf htypes hformat hne v.preferred
  have hbefore' : ∀ index, ∀ place ∈ before,
      site.pipeline.searchPath.resolveIn site.disk place name v.preferred index = .ok none :=
    fun index place hplace ↦ SearchPath.resolveIn_eq_none.2 (hbefore place hplace)
  refine ⟨fun hliteral hown ↦ ?_, fun hit hhit hfolder hindex ↦ ?_, fun hhead test make hown ↦ ?_⟩
  · have hbase : site.pipeline.searchPath.resolveIn site.disk base name v.preferred false ≠ .ok none :=
      SearchPath.resolveIn_ne_none (List.mem_cons_of_mem _ hext) hown
    rw [resolve_eq_some_iff hname hplaces (hbefore' false) hbase,
      SearchPath.resolveIn_false_eq_some_iff hliteral]
  · have hbase : site.pipeline.searchPath.resolveIn site.disk base name v.preferred true ≠ .ok none := by
      rw [ne_eq, SearchPath.resolveIn_eq_none_iff_firstSuch, hhit]
      exact nofun
    rw [resolve_eq_some_iff hname hplaces (hbefore' true) hbase,
      SearchPath.resolveIn_true_eq_some_iff hhit hfolder hext hindex]
  · obtain ⟨rest, hexts⟩ := List.head?_eq_some_iff.1 hhead
    have hnormal : normalizeExtension ext = ext :=
      normalizeExtension_of_mem_extensionsOf (hexts ▸ List.mem_cons_self)
    have hpreferred : v.preferred = [ext] := by
      unfold preferred
      rw [hpath]
      change (extensionsOf f.name).take 1 = [ext]
      rw [hexts]
      rfl
    rw [hpreferred, SearchPath.order_singleton hnormal hne]
    exact SearchPath.prefers_head hown

/-- Two scripts that can name a theme, which is there as a stylesheet and as a script. -/
def wardrobe : Site :=
  Site.sample "local" [("app.js", .file "//= require theme\n".toUTF8 1),
    ("app.min.js", .file "//= require theme\n".toUTF8 1),
    ("theme.css", .file "body {}\n".toUTF8 1), ("theme.js", .file "T();\n".toUTF8 1)] []

theorem triesTypes_wardrobe : wardrobe.pipeline.TriesTypes := by
  unfold Pipeline.TriesTypes
  decide +kernel

/-- A script with one extension finds the script. -/
theorem preference_single :
    let v : Viewpoint := ⟨some (.absolute ["src", "app.js"])⟩
    wardrobe.pipeline.formatOf "app.js" = ".js" ∧ wardrobe.pipeline.TriesTypes ∧
    isAbsolute "theme" = false ∧ v.places wardrobe "theme" = [] ++ .absolute ["src"] :: [] ∧
    v.resolve wardrobe "theme" false = .ok (some (.absolute ["src", "theme.js"])) := by
  intro v
  have hformat : wardrobe.pipeline.formatOf (Path.absolute ["src", "app.js"]).name = ".js" := by
    decide +kernel
  have hplaces : v.places wardrobe "theme" = [] ++ .absolute ["src"] :: [] := rfl
  have hliteral : wardrobe.disk.exists? ((Path.absolute ["src"]).join "theme") = .ok false :=
    eq_ok_of_toOption (by decide +kernel)
  have hown : wardrobe.disk.exists? ((Path.absolute ["src"]).join ("theme" ++ ".js")) = .ok true :=
    eq_ok_of_toOption (by decide +kernel)
  obtain ⟨hfile, -, hfirst⟩ := preference_exact rfl hformat (by decide) triesTypes_wardrobe (by decide)
    hplaces (List.forall_mem_nil _)
  refine ⟨hformat, triesTypes_wardrobe, by decide, hplaces, ?_⟩
  exact (hfile hliteral hown).2 (hfirst (by decide +kernel) _ _ hown)

/-- A script with two extensions finds the stylesheet, though the script is there. -/
theorem preference_of_two :
    let v : Viewpoint := ⟨some (.absolute ["src", "app.min.js"])⟩
    wardrobe.pipeline.formatOf "app.min.js" = ".js" ∧
    v.places wardrobe "theme" = [.absolute ["src"]] ∧
    wardrobe.disk.exists? (.absolute ["src", "theme"]) = .ok false ∧
    wardrobe.disk.exists? (.absolute ["src", "theme.js"]) = .ok true ∧
    v.resolve wardrobe "theme" false = .ok (some (.absolute ["src", "theme.css"])) := by
  refine ⟨by decide +kernel, rfl, ?_, ?_, ?_⟩
  all_goals exact eq_ok_of_toOption (by decide +kernel)

end Viewpoint

end AssetBundler
