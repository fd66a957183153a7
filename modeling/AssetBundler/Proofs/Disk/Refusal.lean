import AssetBundler.Proofs.Disk.Reading
import Mathlib.Data.String.Basic

/-!
# What is not answered

Whether something stands at a path is not answered if a name in the path is too long to exist; every
other path is answered, also where it leads nowhere. A lookup asks about one path after another, so it
fails for a name that is too long and for nothing else (`Viewpoint.failsOnly_resolve`).
-/

namespace AssetBundler

open AssetBundler.Action

/-- The error is about a path with a name that is too long to exist. -/
def Disk.Error.IsTooLong (e : Disk.Error) : Prop :=
  ∃ p, e = .refused .nameTooLong p ∧ ∃ name ∈ p.names, Disk.isTooLong name = true

/-- The disk was asked about a name that is too long, or a file is no text. -/
def Failure.IsRefusal : Failure → Prop
  | .disk why => why.IsTooLong
  | .notText _ => True
  | _ => False

/-- A file that is there holds no text. -/
def Disk.HoldsNoText (d : Disk) (p : Path) : Prop :=
  ∃ bytes, d.readBytes p = .ok bytes ∧ String.fromUTF8? bytes = none

/-- The disk was asked about a name that is too long, or about the text of a file that holds none. -/
def Failure.IsUnreadable (d : Disk) : Failure → Prop
  | .disk why => why.IsTooLong
  | .notText p => d.HoldsNoText p
  | _ => False

theorem Failure.IsUnreadable.isRefusal {d : Disk} {e : Failure} (h : e.IsUnreadable d) :
    e.IsRefusal := by
  cases e with
  | disk why => exact h
  | notText p => trivial
  | _ => exact h

namespace Disk

variable {d : Disk} {p : Path}

theorem enter_eq_tooLong {place : List String} {name : String} :
    d.enter place name = .error .nameTooLong ↔
      d.kindAt place = some none ∧ name ≠ ".." ∧ isTooLong name = true := by
  unfold enter
  rw [kindAt_eq_folder]
  rcases d.node? place with _ | ⟨bytes, t⟩ | ⟨t, entries⟩
  · simp
  · simp
  · by_cases hup : name = ".."
    · simp [hup]
    · by_cases hlong : isTooLong name = true
      · simp [hup, hlong]
      · have hentry : ∀ found : Bool, (if found then Except.ok (place ++ [name])
            else .error Refusal.notFound) ≠ .error Refusal.nameTooLong := by
          intro found
          cases found <;> simp
        simp only [if_neg hup, if_neg hlong]
        exact iff_of_false (hentry _) fun h ↦ hlong h.2.2

/-- A path is refused at the first name that is too long, in a folder. -/
theorem foldlM_enter_eq_tooLong {names start : List String} :
    names.foldlM d.enter start = .error .nameTooLong ↔
      ∃ front name rest place, names = front ++ name :: rest ∧
        front.foldlM d.enter start = .ok place ∧ d.enter place name = .error .nameTooLong := by
  constructor
  · intro h
    induction names generalizing start with
    | nil => cases h
    | cons name names ih =>
      rw [List.foldlM_cons] at h
      cases hnext : d.enter start name with
      | error why =>
        rw [hnext] at h
        cases h
        exact ⟨[], name, names, start, rfl, rfl, hnext⟩
      | ok next =>
        rw [hnext] at h
        obtain ⟨front, long, rest, place, rfl, hfront, hlong⟩ := ih h
        refine ⟨name :: front, long, rest, place, rfl, ?_, hlong⟩
        rw [List.foldlM_cons, hnext]
        exact hfront
  · rintro ⟨front, name, rest, place, rfl, hfront, hlong⟩
    rw [List.foldlM_append, hfront]
    change (name :: rest).foldlM d.enter place = _
    rw [List.foldlM_cons, hlong]
    rfl

theorem exists_of_foldlM_enter {start names : List String}
    (h : names.foldlM d.enter start = .error .nameTooLong) :
    ∃ name ∈ names, isTooLong name = true := by
  obtain ⟨front, name, rest, place, rfl, -, hlong⟩ := foldlM_enter_eq_tooLong.1 h
  exact ⟨name, List.mem_append_right _ (List.mem_cons_self ..), (enter_eq_tooLong.1 hlong).2.2⟩

theorem failsOnly_find? (d : Disk) (p : Path) : FailsOnly Error.IsTooLong (d.find? p) := by
  intro e h
  have hfind : d.find p = .error .nameTooLong ∧ e = .refused .nameTooLong p := by
    unfold find? at h
    split at h
    · cases h
    · rename_i hfind
      cases h
      exact ⟨hfind, rfl⟩
    · cases h
  refine ⟨p, hfind.2, ?_⟩
  have hlocate : d.locate p = .error .nameTooLong := by
    have hlong := hfind.1
    unfold find at hlong
    cases hplace : d.locate p with
    | error why =>
      rw [hplace] at hlong
      cases hlong
      rfl
    | ok place =>
      rcases hnode : d.node? place with _ | n <;>
        simp [hplace, bind, Except.bind, hnode] at hlong
  exact exists_of_foldlM_enter hlocate

theorem failsOnly_exists? (d : Disk) (p : Path) : FailsOnly Error.IsTooLong (d.exists? p) :=
  (failsOnly_find? d p).bind fun _ ↦ .ok _

theorem failsOnly_isFile (d : Disk) (p : Path) : FailsOnly Error.IsTooLong (d.isFile p) :=
  (failsOnly_find? d p).bind fun _ ↦ .ok _

theorem failsOnly_isFolder (d : Disk) (p : Path) : FailsOnly Error.IsTooLong (d.isFolder p) :=
  (failsOnly_find? d p).bind fun _ ↦ .ok _

theorem find_of_isFile (h : d.isFile p = .ok true) : ∃ bytes t, d.find p = .ok (.file bytes t) := by
  unfold isFile at h
  obtain ⟨n?, hn, h⟩ := except_bind_eq_ok.1 h
  unfold find? at hn
  rcases hfind : d.find p with why | ⟨bytes, t⟩ | ⟨t, entries⟩
  · rw [hfind] at hn
    cases why
    case nameTooLong => cases hn
    all_goals
      cases hn
      cases h
  · exact ⟨bytes, t, rfl⟩
  · rw [hfind] at hn
    cases hn
    cases h

/-- No character takes less than a byte. -/
theorem isTooLong_of_length {name : String} (h : 255 < name.toList.length) :
    isTooLong name = true := by
  have hbytes : ∀ cs : List Char, cs.length ≤ String.utf8Len cs := by
    intro cs
    induction cs with
    | nil => exact Nat.zero_le _
    | cons c cs ih =>
      have hpos := c.utf8Size_pos
      rw [List.length_cons, String.utf8Len_cons]
      omega
  have hsize := hbytes name.toList
  rw [String.utf8Len_toList] at hsize
  exact decide_eq_true (h.trans_le hsize)

/-- A name that is too long is refused where there is a folder to hold it. -/
theorem exists?_of_isTooLong {root : Path} {place : List String} {name : String}
    (hroot : d.locate root = .ok place) (hfolder : d.kindAt place = some none)
    (hname : Path.IsName name) (hlong : isTooLong name = true) :
    d.exists? (root.join name) = .error (.refused .nameTooLong (root.join name)) := by
  have hup : name ≠ ".." := by
    rintro rfl
    exact absurd hlong (by decide)
  obtain ⟨t, entries, hnode⟩ := kindAt_eq_folder.1 hfolder
  have henter : d.enter place name = .error .nameTooLong := by
    unfold enter
    rw [hnode]
    simp only
    rw [if_neg hup, if_pos hlong]
  have hlocate : d.locate (root.join name) = .error .nameTooLong := by
    unfold locate at hroot ⊢
    rw [Path.join_of_isName hname]
    simp only
    rw [List.foldlM_append, hroot]
    change [name].foldlM d.enter place = _
    rw [List.foldlM_cons, henter]
    rfl
  have hfind : d.find (root.join name) = .error .nameTooLong := by
    unfold find
    rw [hlocate]
    rfl
  unfold exists? find?
  rw [hfind]
  rfl

/-- A file can be read unless it is no text. -/
theorem failsOnly_readText (hfile : d.isFile p = .ok true) :
    FailsOnly (Failure.IsUnreadable d) (d.readText p) := by
  obtain ⟨bytes, t, hfind⟩ := find_of_isFile hfile
  rw [readText_of_find hfind]
  cases htext : String.fromUTF8? bytes with
  | none => exact .error ⟨bytes, readBytes_of_find hfind, htext⟩
  | some text => exact .ok _

theorem isFolder_of_isFile (h : d.isFile p = .ok true) : d.isFolder p = .ok false := by
  obtain ⟨bytes, t, hfind⟩ := find_of_isFile h
  exact isFolder_of_find hfind

end Disk

namespace SearchPath

variable {s : SearchPath} {d : Disk} {preferred : List String} {index : Bool}

theorem failsOnly_firstSuch {test : Path → Except Disk.Error Bool}
    (h : ∀ p, FailsOnly Disk.Error.IsTooLong (test p)) (ps : List Path) :
    FailsOnly Disk.Error.IsTooLong (firstSuch test ps) := by
  induction ps with
  | nil => exact .ok none
  | cons p ps ih =>
    refine (h p).bind fun found ↦ ?_
    cases found with
    | true => exact .ok _
    | false => exact ih

theorem failsOnly_withIndex (found : Path) :
    FailsOnly Disk.Error.IsTooLong (s.withIndex d found preferred index) := by
  unfold withIndex
  cases index with
  | false => exact .ok found
  | true =>
    refine (Disk.failsOnly_isFolder d found).bind fun isFolder ↦ ?_
    cases isFolder with
    | false => exact .ok found
    | true => exact (failsOnly_firstSuch (Disk.failsOnly_isFile d) _).bind fun _ ↦ .ok _

theorem failsOnly_resolveIn (base : Path) (name : String) :
    FailsOnly Disk.Error.IsTooLong (s.resolveIn d base name preferred index) := by
  refine (failsOnly_firstSuch (Disk.failsOnly_exists? d) _).bind fun found? ↦ ?_
  cases found? with
  | none => exact .ok none
  | some found => exact (failsOnly_withIndex found).bind fun _ ↦ .ok _

theorem failsOnly_resolveInRoots (name : String) (roots : List Path) :
    FailsOnly Disk.Error.IsTooLong (s.resolveInRoots d name preferred index roots) := by
  induction roots with
  | nil => exact .ok none
  | cons root roots ih =>
    refine (failsOnly_resolveIn root name).bind fun found? ↦ ?_
    cases found? with
    | none => exact ih
    | some found => exact .ok _

theorem failsOnly_resolve (logical : String) :
    FailsOnly Disk.Error.IsTooLong (s.resolve d logical preferred index) := by
  unfold resolve
  split
  · exact (failsOnly_withIndex _).bind fun _ ↦ .ok _
  · exact failsOnly_resolveInRoots logical s.roots

end SearchPath

theorem failsOnly_orFail {α : Type} (d : Disk) {x : Except Disk.Error α}
    (h : FailsOnly Disk.Error.IsTooLong x) : FailsOnly (Failure.IsUnreadable d) (Disk.orFail x) := by
  cases x with
  | ok a => exact .ok a
  | error why => exact .error (h why rfl)

theorem Site.failsOnly_isFile (site : Site) (p : Path) :
    FailsOnly (Failure.IsUnreadable site.disk) (site.isFile p) :=
  failsOnly_orFail site.disk (Disk.failsOnly_isFile site.disk p)

namespace Viewpoint

variable {v : Viewpoint} {site : Site} {index : Bool}

/-- A lookup fails for a name that is too long and for nothing else. -/
theorem failsOnly_resolve (path : String) :
    FailsOnly (Failure.IsUnreadable site.disk) (v.resolve site path index) := by
  unfold resolve
  refine failsOnly_orFail site.disk ?_
  split
  · exact SearchPath.failsOnly_resolveIn _ path
  · exact SearchPath.failsOnly_resolve path

/-- One name that is too long is not looked up below the search roots. -/
theorem resolve_of_isTooLong {root : Path} {roots : List Path} {place : List String} {name : String}
    (hroots : site.pipeline.searchPath.roots = root :: roots)
    (hroot : site.disk.locate root = .ok place) (hfolder : site.disk.kindAt place = some none)
    (hname : Path.IsName name) (hlong : Disk.isTooLong name = true)
    (hrelative : isRelativeMarker name = false) (habsolute : isAbsolute name = false) :
    v.resolve site name index = .error (.disk (.refused .nameTooLong (root.join name))) := by
  unfold resolve
  rw [hrelative]
  simp only [SearchPath.resolve, habsolute, hroots, SearchPath.resolveInRoots, SearchPath.resolveIn,
    SearchPath.candidates, SearchPath.firstSuch]
  rw [Disk.exists?_of_isTooLong hroot hfolder hname hlong]
  rfl

/-- The path of a file stands for the file, from wherever it is looked up. -/
theorem require_of_isFile {p : Path} (hp : p.IsCanonical) (hfile : site.isFile p = .ok true) :
    v.require site p.text true = .ok p := by
  have hfolder := Disk.isFolder_of_isFile (Disk.orFail_eq_ok.1 hfile)
  have hindex : site.pipeline.searchPath.withIndex site.disk p v.preferred true = .ok p := by
    unfold SearchPath.withIndex
    rw [hfolder]
    rfl
  have hresolve : v.resolve site p.text true = .ok (some p) := by
    unfold resolve
    rw [hp.isRelativeMarker_text]
    simp only [SearchPath.resolve]
    rw [if_pos hp.isAbsolute_text, hp.ofText_text, hindex]
    exact congrArg (fun q ↦ Except.ok (some q)) (hp.resolve_eq site.disk.here)
  unfold require
  rw [hresolve]
  rfl

end Viewpoint

end AssetBundler
