import AssetBundler.Proofs.Disk.Refusal
import AssetBundler.Proofs.Session.Reading
import AssetBundler.Proofs.Stylesheet.Statement

/-!
# The graph of imports

The graph is read off the files alone: an edge is a statement that names a file as seen from the file it
is in. So is the recursive expansion of a text, which is unique (`Expansion.unique`); a derivation of the
pieces of a text makes it (`expansion_of_expands`) and has visited all files that are reached, none of
them below itself (`settled_of_expands`).
-/

namespace AssetBundler.Session

open AssetBundler.Action Relation
open Stylesheet (IsStatement StartsStatement)

/-- The file that an import names as seen from the file that it is in, if there is one. -/
def importTarget (site : Site) (path : Path) (name : String) : Except Failure (Option Path) := do
  match ← Viewpoint.resolve ⟨some path⟩ site name true with
  | none => return none
  | some found => return if ← site.isFile found then some found else none

def importedName? : Text.Piece String → Option String
  | .plain _ => none
  | .found name _ => some name

/-- The names in the import statements of a text, from left to right. -/
def importedNames (text : String) : List String :=
  (Stylesheet.imports text).filterMap importedName?

def ImportEdge (site : Site) (p q : Path) : Prop :=
  ∃ text, site.disk.readText p = .ok text ∧
    ∃ name ∈ importedNames text, importTarget site p name = .ok (some q)

/-- The file is a text, and it is known which files its imports name. -/
def IsAnswered (site : Site) (p : Path) : Prop :=
  ∃ text, site.disk.readText p = .ok text ∧
    ∀ name ∈ importedNames text, ∃ found?, importTarget site p name = .ok found?

/-- A file that imports itself, if over others, can be reached from a root. -/
def ReachesImportCycle (site : Site) (root : Path) : Prop :=
  ∃ p, ReflTransGen (ImportEdge site) root p ∧ TransGen (ImportEdge site) p p

/-- All files that can be reached from a root are answered. -/
def AllAnswered (site : Site) (root : Path) : Prop :=
  ∀ p, ReflTransGen (ImportEdge site) root p → IsAnswered site p

/-- The recursive expansion of a text as seen from a path: each statement that names a file gives the
expansion of that file with a line feed after it, and everything else stays. -/
inductive Expansion (site : Site) : Path → List Char → List Char → Prop where
  | nil (path : Path) : Expansion site path [] []
  | plain {path : Path} {c : Char} {cs out : List Char} (hstart : ¬StartsStatement (c :: cs))
      (hrest : Expansion site path cs out) : Expansion site path (c :: cs) (c :: out)
  | kept {path : Path} {target source cs out : List Char} (hsource : IsStatement target source)
      (htarget : ∀ q, importTarget site path (String.ofList target) ≠ .ok (some q))
      (hrest : Expansion site path cs out) : Expansion site path (source ++ cs) (source ++ out)
  | file {path found : Path} {target source cs inner out : List Char} {text : String}
      (hsource : IsStatement target source)
      (htarget : importTarget site path (String.ofList target) = .ok (some found))
      (htext : site.disk.readText found = .ok text)
      (hinner : Expansion site found text.toList inner) (hrest : Expansion site path cs out) :
      Expansion site path (source ++ cs) (inner ++ '\n' :: out)

section Graph

variable {site : Site} {p q : Path} {name : String}

theorem mem_importedNames {text : String} :
    name ∈ importedNames text ↔ ∃ source, .found name source ∈ Stylesheet.imports text := by
  constructor
  · intro h
    obtain ⟨piece, hpiece, heq⟩ := List.mem_filterMap.1 h
    cases piece with
    | plain c => cases heq
    | found other source =>
      cases heq
      exact ⟨source, hpiece⟩
  · rintro ⟨source, h⟩
    exact List.mem_filterMap.2 ⟨_, h, rfl⟩

theorem importTarget_eq_some : importTarget site p name = .ok (some q) ↔
    Viewpoint.resolve ⟨some p⟩ site name true = .ok (some q) ∧ site.isFile q = .ok true := by
  unfold importTarget
  rw [except_bind_eq_ok]
  constructor
  · rintro ⟨found?, hfound, h⟩
    cases found? with
    | none => cases h
    | some found =>
      obtain ⟨isFile, hfile, h⟩ := except_bind_eq_ok.1 h
      cases isFile with
      | false => cases h
      | true =>
        cases h
        exact ⟨hfound, hfile⟩
  · rintro ⟨hfound, hfile⟩
    exact ⟨some q, hfound, except_bind_eq_ok.2 ⟨true, hfile, rfl⟩⟩

theorem importTarget_of_missing (h : Viewpoint.resolve ⟨some p⟩ site name true = .ok none) :
    importTarget site p name = .ok none := except_bind_eq_ok.2 ⟨none, h, rfl⟩

theorem importTarget_of_folder (h : Viewpoint.resolve ⟨some p⟩ site name true = .ok (some q))
    (hfile : site.isFile q = .ok false) : importTarget site p name = .ok none :=
  except_bind_eq_ok.2 ⟨some q, h, except_bind_eq_ok.2 ⟨false, hfile, rfl⟩⟩

/-- Files that are reached have canonical paths. -/
theorem isCanonical_and_isFile_of_reached (hs : site.IsProper) (hp : p.IsCanonical)
    (hfile : site.isFile p = .ok true) (h : ReflTransGen (ImportEdge site) p q) :
    q.IsCanonical ∧ site.isFile q = .ok true := by
  induction h with
  | refl => exact ⟨hp, hfile⟩
  | tail _ hedge ih =>
    obtain ⟨_, -, _, -, htarget⟩ := hedge
    obtain ⟨hfound, hfile⟩ := importTarget_eq_some.1 htarget
    exact ⟨Viewpoint.isCanonical_of_resolve hs (fun _ h ↦ Option.some.inj h ▸ ih.1.proper) hfound,
      hfile⟩

/-- A text has one expansion at most. -/
theorem Expansion.unique {cs out other : List Char} (h : Expansion site p cs out)
    (h' : Expansion site p cs other) : out = other := by
  induction h generalizing other with
  | nil path =>
    generalize hcs : ([] : List Char) = cs at h'
    cases h' with
    | nil => rfl
    | plain => cases hcs
    | kept hsource => exact absurd (List.append_eq_nil_iff.1 hcs.symm).1 hsource.ne_nil
    | file hsource => exact absurd (List.append_eq_nil_iff.1 hcs.symm).1 hsource.ne_nil
  | @plain path c cs out hstart _ ih =>
    generalize hcs : c :: cs = text at h'
    cases h' with
    | nil => cases hcs
    | plain _ hrest =>
      cases hcs
      rw [ih hrest]
    | kept hsource => exact absurd ⟨_, _, _, hsource, hcs⟩ hstart
    | file hsource => exact absurd ⟨_, _, _, hsource, hcs⟩ hstart
  | @kept path target source cs out hsource htarget _ ih =>
    generalize hcs : source ++ cs = text at h'
    cases h' with
    | nil => exact absurd (List.append_eq_nil_iff.1 hcs).1 hsource.ne_nil
    | plain hstart => exact absurd ⟨_, _, _, hsource, hcs.symm⟩ hstart
    | kept hsource' _ hrest =>
      obtain ⟨-, rfl, rfl⟩ := hsource.unique hsource' hcs
      rw [ih hrest]
    | file hsource' htarget' =>
      obtain ⟨rfl, -, -⟩ := hsource.unique hsource' hcs
      exact absurd htarget' (htarget _)
  | @file path found target source cs inner out text hsource htarget htext _ _ ihinner ihrest =>
    generalize hcs : source ++ cs = all at h'
    cases h' with
    | nil => exact absurd (List.append_eq_nil_iff.1 hcs).1 hsource.ne_nil
    | plain hstart => exact absurd ⟨_, _, _, hsource, hcs.symm⟩ hstart
    | kept hsource' htarget' =>
      obtain ⟨rfl, -, -⟩ := hsource.unique hsource' hcs
      exact absurd htarget (htarget' _)
    | file hsource' htarget' htext' hinner hrest =>
      obtain ⟨rfl, rfl, rfl⟩ := hsource.unique hsource' hcs
      cases htarget.symm.trans htarget'
      cases htext.symm.trans htext'
      rw [ihinner hinner, ihrest hrest]

/-- Statements that name no file are left untouched. -/
theorem expansion_of_kept {cs : List Char}
    (h : ∀ name source, .found name source ∈ Text.pieces Stylesheet.Import.recognise cs →
      ∀ q, importTarget site p name ≠ .ok (some q)) : Expansion site p cs cs := by
  induction hlength : cs.length using Nat.strong_induction_on generalizing cs with
  | _ n ih =>
    obtain rfl | ⟨target, source, rest, hsource, rfl⟩ | ⟨c, rest, rfl, hstart⟩ :=
      Stylesheet.pieces_cases cs
    · exact .nil p
    · rw [Stylesheet.pieces_statement hsource] at h
      have hpos := List.length_pos_iff.2 hsource.ne_nil
      rw [List.length_append] at hlength
      exact .kept hsource (h _ _ (List.mem_cons_self ..))
        (ih rest.length (by omega) (fun name source hmem ↦
          h name source (List.mem_cons_of_mem _ hmem)) rfl)
    · rw [Stylesheet.pieces_plain hstart] at h
      rw [List.length_cons] at hlength
      exact .plain hstart (ih rest.length (by omega) (fun name source hmem ↦
        h name source (List.mem_cons_of_mem _ hmem)) rfl)

/-- The pieces of a derivation put together are the recursive expansion. -/
theorem expansion_of_expands {pieces : List (Text.Piece String)} {outs : List (List Char)}
    (h : Expands site p pieces outs) {cs : List Char}
    (hcs : Text.pieces Stylesheet.Import.recognise cs = pieces) :
    Expansion site p cs outs.flatten := by
  induction h generalizing cs with
  | nil path =>
    rw [Stylesheet.eq_nil_of_pieces hcs]
    exact .nil path
  | plain c _ ih =>
    obtain ⟨rest, rfl, hstart, hrest⟩ := Stylesheet.plain_of_pieces hcs
    exact .plain hstart (ih hrest)
  | missing name source hfound _ ih =>
    obtain ⟨target, rest, rfl, hsource, rfl, hrest⟩ := Stylesheet.statement_of_pieces hcs
    refine .kept hsource (fun q hq ↦ ?_) (ih hrest)
    cases hq.symm.trans (importTarget_of_missing hfound)
  | folder name source hfound hfile _ ih =>
    obtain ⟨target, rest, rfl, hsource, rfl, hrest⟩ := Stylesheet.statement_of_pieces hcs
    refine .kept hsource (fun q hq ↦ ?_) (ih hrest)
    cases hq.symm.trans (importTarget_of_folder hfound hfile)
  | @file _ name source found data _ inner out hfound hfile hdata _ _ ihinner ihrest =>
    obtain ⟨target, rest, rfl, hsource, rfl, hrest⟩ := Stylesheet.statement_of_pieces hcs
    have htarget := importTarget_eq_some.2 ⟨hfound, hfile⟩
    have hflat : ((inner.flatten ++ ['\n']) :: out).flatten = inner.flatten ++ '\n' :: out.flatten := by
      simp
    rw [hflat]
    exact .file hsource htarget hdata (ihinner rfl) (ihrest hrest)

/-- Everything that is reached from a file is answered and lies on no cycle. -/
structure IsSettled (site : Site) (p : Path) : Prop where
  answered : AllAnswered site p
  acyclic : ¬ReachesImportCycle site p

/-- A file is settled if the files that it imports are. -/
theorem isSettled_of_targets {text : String} (htext : site.disk.readText p = .ok text)
    (h : ∀ name ∈ importedNames text, ∃ found?, importTarget site p name = .ok found? ∧
      ∀ q ∈ found?, IsSettled site q) : IsSettled site p := by
  have hedge : ∀ {q}, ImportEdge site p q → IsSettled site q := by
    rintro q ⟨text', htext', name, hname, htarget⟩
    cases htext.symm.trans htext'
    obtain ⟨found?, hfound, hsettled⟩ := h name hname
    cases htarget.symm.trans hfound
    exact hsettled q rfl
  constructor
  · intro q hreach
    obtain rfl | ⟨r, hfirst, hrest⟩ := hreach.cases_head
    · refine ⟨text, htext, fun name hname ↦ ?_⟩
      obtain ⟨found?, hfound, -⟩ := h name hname
      exact ⟨found?, hfound⟩
    · exact (hedge hfirst).answered q hrest
  · rintro ⟨q, hreach, hcycle⟩
    obtain rfl | ⟨r, hfirst, hrest⟩ := hreach.cases_head
    · obtain ⟨r, hfirst, hback⟩ := TransGen.head'_iff.1 hcycle
      exact (hedge hfirst).acyclic ⟨p, hback, hcycle⟩
    · exact (hedge hfirst).acyclic ⟨q, hrest, hcycle⟩

/-- A derivation has an answer for each of its statements, and the files that they name are settled. -/
theorem settled_of_expands {pieces : List (Text.Piece String)} {outs : List (List Char)}
    (h : Expands site p pieces outs) : ∀ name source, .found name source ∈ pieces →
      ∃ found?, importTarget site p name = .ok found? ∧ ∀ q ∈ found?, IsSettled site q := by
  induction h with
  | nil =>
    intro name source hmem
    cases hmem
  | plain c _ ih =>
    intro name source hmem
    obtain hmem | hmem := List.mem_cons.1 hmem
    · cases hmem
    · exact ih name source hmem
  | missing _ _ hfound _ ih =>
    intro name source hmem
    obtain hmem | hmem := List.mem_cons.1 hmem
    · cases hmem
      exact ⟨none, importTarget_of_missing hfound, by rintro q ⟨⟩⟩
    · exact ih name source hmem
  | folder _ _ hfound hfile _ ih =>
    intro name source hmem
    obtain hmem | hmem := List.mem_cons.1 hmem
    · cases hmem
      exact ⟨none, importTarget_of_folder hfound hfile, by rintro q ⟨⟩⟩
    · exact ih name source hmem
  | @file _ _ _ found data _ _ _ hfound hfile hdata _ _ ihinner ihrest =>
    intro name source hmem
    obtain hmem | hmem := List.mem_cons.1 hmem
    · cases hmem
      refine ⟨some found, importTarget_eq_some.2 ⟨hfound, hfile⟩, ?_⟩
      rintro q ⟨⟩
      refine isSettled_of_targets hdata fun name hname ↦ ?_
      obtain ⟨source, hsource⟩ := mem_importedNames.1 hname
      exact ihinner name source hsource
    · exact ihrest name source hmem

end Graph

end AssetBundler.Session
