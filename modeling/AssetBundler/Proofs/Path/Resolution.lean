import AssetBundler.Proofs.Action
import AssetBundler.Proofs.Path.Text
import AssetBundler.Session.Basic

/-!
# Canonical paths

A canonical path starts at the root and has no dots among its names. Resolving a path of names gives a
canonical one and changes a canonical one no more; so whatever a search path or a session finds is
canonical, provided the search roots and the working directory are made of names.
-/

namespace AssetBundler

namespace Path

/-- A path whose names can be written and read back. -/
def IsProper (p : Path) : Prop := ∀ name ∈ p.names, IsName name

structure IsCanonical (p : Path) : Prop where
  anchored : p.anchor = .slash
  proper : p.IsProper
  no_up : ".." ∉ p.names

theorem isProper_ofText (s : String) : (ofText s).IsProper := fun _ h ↦ isName_of_mem_namesOf h

theorem IsProper.join {p : Path} (h : p.IsProper) (s : String) : (p.join s).IsProper := by
  unfold Path.join
  by_cases ha : (ofText s).anchor = .none
  · simp only [ha, if_true]
    intro name hname
    rcases List.mem_append.1 hname with hn | hn
    · exact h name hn
    · exact isProper_ofText s name hn
  · simp only [ha, if_false]
    exact isProper_ofText s

theorem anchor_parent (p : Path) : p.parent.anchor = p.anchor := rfl

theorem IsProper.parent {p : Path} (h : p.IsProper) : p.parent.IsProper :=
  fun name hname ↦ h name ((List.dropLast_sublist _).subset hname)

theorem IsProper.no_slash_name {p : Path} (h : p.IsProper) : '/' ∉ p.name.toList := by
  unfold name
  rw [List.getLastD_eq_getLast?]
  cases hlast : p.names.getLast? with
  | none => simp
  | some name => exact (h name (List.mem_of_getLast? hlast)).no_slash

/-- The folder of a relative text is relative and not empty. -/
theorem exists_head_parent_text {s : String} (h : s.toList.head? ≠ some '/')
    (hdot : (ofText s).parent.text ≠ ".") :
    ∃ c, (ofText s).parent.text.toList.head? = some c ∧ c ≠ '/' := by
  have hanchor : (ofText s).parent.anchor = .none := anchor_ofText_of_head h
  have hnames : (ofText s).parent.names ≠ [] := by
    intro hnil
    exact hdot (by simp [text, hanchor, hnil])
  have htext := text_eq_append (.inr hnames)
  rw [hanchor, Anchor.text, String.empty_append] at htext
  rw [htext]
  exact exists_head_intercalate (isProper_ofText s).parent hnames

/-- Following names adds no double dot and no name that was not there. -/
theorem mem_follow {start names : List String} {name : String} (h : name ∈ follow start names) :
    name ∈ start ∨ name ∈ names ∧ name ≠ ".." := by
  induction names generalizing start with
  | nil => exact .inl h
  | cons first names ih =>
    have hstep : name ∈ follow (if first = ".." then start.dropLast else start ++ [first]) names := h
    rcases ih hstep with hs | ⟨hn, hup⟩
    · by_cases hfirst : first = ".."
      · rw [if_pos hfirst] at hs
        exact .inl ((List.dropLast_sublist _).subset hs)
      · rw [if_neg hfirst, List.mem_append, List.mem_singleton] at hs
        rcases hs with hs | rfl
        · exact .inl hs
        · exact .inr ⟨List.mem_cons_self .., hfirst⟩
    · exact .inr ⟨List.mem_cons_of_mem _ hn, hup⟩

theorem follow_of_no_up {start names : List String} (h : ".." ∉ names) :
    follow start names = start ++ names := by
  induction names generalizing start with
  | nil => simp [follow]
  | cons first names ih =>
    rw [List.mem_cons, not_or] at h
    have hfirst : first ≠ ".." := fun heq ↦ h.1 heq.symm
    calc
      follow start (first :: names) = follow (start ++ [first]) names := by
        simp [follow, hfirst]
      _ = start ++ first :: names := by rw [ih h.2, List.append_assoc, List.singleton_append]

theorem follow_append (start names more : List String) :
    follow start (names ++ more) = follow (follow start names) more := by
  unfold follow
  exact List.foldl_append

theorem isCanonical_resolve {here : List String} {p : Path} (hp : p.IsProper)
    (hhere : ∀ name ∈ here, IsName name ∧ name ≠ "..") : (p.resolve here).IsCanonical := by
  have hstart : ∀ name ∈ (if p.anchor = .none then here else []), IsName name ∧ name ≠ ".." := by
    intro name hname
    by_cases ha : p.anchor = .none
    · rw [if_pos ha] at hname
      exact hhere name hname
    · rw [if_neg ha] at hname
      simp at hname
  have hall : ∀ name ∈ p.place here, IsName name ∧ name ≠ ".." := by
    intro name hname
    rcases mem_follow hname with hs | ⟨hn, hup⟩
    · exact hstart name hs
    · exact ⟨hp name hn, hup⟩
  exact ⟨rfl, fun name hname ↦ (hall name hname).1, fun hname ↦ (hall _ hname).2 rfl⟩

namespace IsCanonical

variable {p : Path}

theorem eq_absolute (h : p.IsCanonical) : p = absolute p.names := by
  cases p with
  | mk anchor names =>
    have ha : anchor = .slash := h.anchored
    rw [ha]
    rfl

theorem anchor_ne (h : p.IsCanonical) : p.anchor ≠ .none := by
  rw [h.anchored]
  exact Anchor.noConfusion

theorem place_eq (h : p.IsCanonical) (here : List String) : p.place here = p.names := by
  unfold place
  rw [if_neg h.anchor_ne, follow_of_no_up h.no_up, List.nil_append]

theorem resolve_eq (h : p.IsCanonical) (here : List String) : p.resolve here = p := by
  unfold resolve
  rw [h.place_eq here]
  exact h.eq_absolute.symm

theorem ofText_text (h : p.IsCanonical) : ofText p.text = p := Path.ofText_text h.proper

theorem no_slash_name (h : p.IsCanonical) : '/' ∉ p.name.toList := h.proper.no_slash_name

theorem toList_text (h : p.IsCanonical) : p.text.toList = '/' :: ("/".intercalate p.names).toList := by
  rw [text_eq_append (.inl h.anchor_ne), h.anchored, String.toList_append]
  rfl

theorem isAbsolute_text (h : p.IsCanonical) : isAbsolute p.text = true := by
  unfold isAbsolute
  rw [h.toList_text]
  rcases ("/".intercalate p.names).toList with _ | ⟨c, _ | ⟨d, cs⟩⟩ <;> rfl

theorem isRelativeMarker_text (h : p.IsCanonical) : isRelativeMarker p.text = false := by
  unfold isRelativeMarker
  rw [h.toList_text]
  rfl

end IsCanonical

end Path

/-- The working directory and the search roots are made of names. -/
structure Site.IsProper (s : Site) : Prop where
  here : ∀ name ∈ s.disk.here, Path.IsName name ∧ name ≠ ".."
  roots : ∀ root ∈ s.pipeline.searchPath.roots, root.IsProper

/-- The search roots of a new pipeline are canonical. -/
theorem Pipeline.isCanonical_of_assemble {library : Library} {here : List String} {root : Path}
    {config : Config} {p : Pipeline} (hhere : ∀ name ∈ here, Path.IsName name ∧ name ≠ "..")
    (hroot : root.IsProper) (h : assemble library here root config = .ok p) :
    ∀ r ∈ p.searchPath.roots, r.IsCanonical := by
  unfold assemble at h
  obtain ⟨post, -, h⟩ := Action.except_bind_eq_ok.1 h
  obtain ⟨compressors, -, h⟩ := Action.except_bind_eq_ok.1 h
  rw [← Except.ok.inj h]
  intro r hr
  obtain ⟨q, hq, rfl⟩ := List.mem_map.1 hr
  obtain ⟨s, -, rfl⟩ := List.mem_map.1 hq
  have hbase := (Path.isCanonical_resolve hroot hhere).proper
  exact Path.isCanonical_resolve (hbase.join s) hhere

namespace SearchPath

open AssetBundler.Action AssetBundler.Path

variable {s : SearchPath} {d : Disk}

/-- The first path that passes stands behind paths that do not. -/
theorem firstSuch_eq_some {test : Path → Except Disk.Error Bool} {ps : List Path} {p : Path} :
    firstSuch test ps = .ok (some p) ↔ ∃ front back, ps = front ++ p :: back ∧
      (∀ q ∈ front, test q = .ok false) ∧ test p = .ok true := by
  constructor
  · intro h
    induction ps with
    | nil => cases h
    | cons first ps ih =>
      unfold firstSuch at h
      obtain ⟨passes, hpasses, h⟩ := except_bind_eq_ok.1 h
      cases passes with
      | true =>
        cases h
        exact ⟨[], ps, rfl, List.forall_mem_nil _, hpasses⟩
      | false =>
        obtain ⟨front, back, rfl, hfront, hp⟩ := ih h
        exact ⟨first :: front, back, rfl, List.forall_mem_cons.2 ⟨hpasses, hfront⟩, hp⟩
  · rintro ⟨front, back, rfl, hfront, hp⟩
    induction front with
    | nil =>
      rw [List.nil_append, firstSuch, hp]
      rfl
    | cons first front ih =>
      rw [List.forall_mem_cons] at hfront
      rw [List.cons_append, firstSuch, hfront.1]
      exact ih hfront.2

theorem mem_of_firstSuch {test : Path → Except Disk.Error Bool} {ps : List Path} {p : Path}
    (h : firstSuch test ps = .ok (some p)) : p ∈ ps ∧ test p = .ok true := by
  obtain ⟨front, back, rfl, -, hp⟩ := firstSuch_eq_some.1 h
  exact ⟨List.mem_append_right _ (List.mem_cons_self ..), hp⟩

theorem candidates_eq (s : SearchPath) (base : Path) (name : String) (preferred : List String) :
    s.candidates base name preferred =
      ("" :: s.order preferred).map fun x ↦ base.join (name ++ x) := by
  rw [List.map_cons, String.append_empty]
  rfl

theorem exists_of_findIndex {folder found : Path} {preferred : List String}
    (h : s.findIndex d folder preferred = .ok (some found)) :
    ∃ x, found = folder.join ("index" ++ x) ∧ d.isFile found = .ok true := by
  obtain ⟨hmem, hfile⟩ := mem_of_firstSuch h
  obtain ⟨x, -, rfl⟩ := List.mem_map.1 hmem
  exact ⟨x, rfl, hfile⟩

/-- The index rule leaves a path as it is or gives its index file. -/
theorem eq_or_findIndex_of_withIndex {p found : Path} {preferred : List String} {index : Bool}
    (h : s.withIndex d p preferred index = .ok found) :
    found = p ∨ s.findIndex d p preferred = .ok (some found) := by
  unfold withIndex at h
  cases index with
  | false => exact .inl (Except.ok.inj h).symm
  | true =>
    obtain ⟨isFolder, -, h⟩ := except_bind_eq_ok.1 h
    cases isFolder with
    | false => exact .inl (Except.ok.inj h).symm
    | true =>
      obtain ⟨found?, hfound, h⟩ := except_bind_eq_ok.1 h
      cases h
      cases found? with
      | none => exact .inl rfl
      | some q => exact .inr hfound

/-- What is found in a folder is the first candidate that is there or, if asked for, the index file in the
place of a folder. -/
theorem resolveIn_eq_some_iff_firstSuch {base q : Path} {name : String} {preferred : List String}
    {index : Bool} : s.resolveIn d base name preferred index = .ok (some q) ↔ ∃ hit found,
      firstSuch d.exists? (s.candidates base name preferred) = .ok (some hit) ∧
      s.withIndex d hit preferred index = .ok found ∧ q = d.resolve found := by
  constructor
  · intro h
    unfold resolveIn at h
    obtain ⟨hit?, hfirst, h⟩ := except_bind_eq_ok.1 h
    cases hit? with
    | none => cases h
    | some hit =>
      obtain ⟨found, hfound, h⟩ := except_bind_eq_ok.1 h
      cases h
      exact ⟨hit, found, hfirst, hfound, rfl⟩
  · rintro ⟨hit, found, hfirst, hfound, rfl⟩
    exact except_bind_eq_ok.2 ⟨_, hfirst, except_bind_eq_ok.2 ⟨found, hfound, rfl⟩⟩

theorem exists_candidate_of_resolveIn {base q : Path} {name : String} {preferred : List String}
    {index : Bool} (h : s.resolveIn d base name preferred index = .ok (some q)) :
    ∃ x found, d.exists? (base.join (name ++ x)) = .ok true ∧
      s.withIndex d (base.join (name ++ x)) preferred index = .ok found ∧ q = d.resolve found := by
  obtain ⟨hit, found, hhit, hfound, hq⟩ := resolveIn_eq_some_iff_firstSuch.1 h
  rw [candidates_eq] at hhit
  obtain ⟨hmem, hexists⟩ := mem_of_firstSuch hhit
  obtain ⟨x, -, rfl⟩ := List.mem_map.1 hmem
  exact ⟨x, found, hexists, hfound, hq⟩

/-- What is found in one folder after another is found in one of them. -/
theorem exists_root_of_resolveInRoots {found : Path} {name : String} {preferred : List String}
    {index : Bool} {roots : List Path}
    (h : s.resolveInRoots d name preferred index roots = .ok (some found)) :
    ∃ root ∈ roots, s.resolveIn d root name preferred index = .ok (some found) := by
  induction roots with
  | nil => cases h
  | cons root roots ih =>
    unfold resolveInRoots at h
    obtain ⟨hit?, hhit, h⟩ := except_bind_eq_ok.1 h
    cases hit? with
    | some hit =>
      cases h
      exact ⟨root, List.mem_cons_self .., hhit⟩
    | none =>
      obtain ⟨other, hother, hfound⟩ := ih h
      exact ⟨other, List.mem_cons_of_mem _ hother, hfound⟩

theorem isProper_of_withIndex {p found : Path} {preferred : List String} {index : Bool}
    (hp : p.IsProper) (h : s.withIndex d p preferred index = .ok found) : found.IsProper := by
  rcases eq_or_findIndex_of_withIndex h with rfl | hindex
  · exact hp
  · obtain ⟨x, rfl, -⟩ := exists_of_findIndex hindex
    exact hp.join _

theorem isCanonical_of_resolveIn {base found : Path} {name : String} {preferred : List String}
    {index : Bool} (hhere : ∀ name ∈ d.here, IsName name ∧ name ≠ "..") (hbase : base.IsProper)
    (h : s.resolveIn d base name preferred index = .ok (some found)) : found.IsCanonical := by
  obtain ⟨x, q, -, hq, rfl⟩ := exists_candidate_of_resolveIn h
  exact isCanonical_resolve (isProper_of_withIndex (hbase.join _) hq) hhere

theorem isCanonical_of_resolveInRoots {found : Path} {name : String} {preferred : List String}
    {index : Bool} {roots : List Path} (hhere : ∀ name ∈ d.here, IsName name ∧ name ≠ "..")
    (hroots : ∀ root ∈ roots, root.IsProper)
    (h : s.resolveInRoots d name preferred index roots = .ok (some found)) :
    found.IsCanonical := by
  obtain ⟨root, hroot, h⟩ := exists_root_of_resolveInRoots h
  exact isCanonical_of_resolveIn hhere (hroots root hroot) h

theorem isCanonical_of_resolve {found : Path} {logical : String} {preferred : List String}
    {index : Bool} (hhere : ∀ name ∈ d.here, IsName name ∧ name ≠ "..")
    (hroots : ∀ root ∈ s.roots, root.IsProper)
    (h : s.resolve d logical preferred index = .ok (some found)) : found.IsCanonical := by
  unfold resolve at h
  by_cases ha : isAbsolute logical
  · rw [if_pos ha] at h
    obtain ⟨q, hq, h⟩ := except_bind_eq_ok.1 h
    cases h
    exact isCanonical_resolve (isProper_of_withIndex (isProper_ofText logical) hq) hhere
  · rw [if_neg ha] at h
    exact isCanonical_of_resolveInRoots hhere hroots h

end SearchPath

theorem Disk.orFail_eq_ok {α : Type} {x : Except Disk.Error α} {a : α} :
    Disk.orFail x = .ok a ↔ x = .ok a := by
  cases x <;> simp [Disk.orFail]

/-- What a session finds from the viewpoint of a file is canonical. -/
theorem Viewpoint.isCanonical_of_resolve {v : Viewpoint} {s : Site} (hs : s.IsProper)
    (hv : ∀ p, v.path = some p → p.IsProper) {path : String} {index : Bool} {found : Path}
    (h : v.resolve s path index = .ok (some found)) : found.IsCanonical := by
  unfold resolve at h
  rw [Disk.orFail_eq_ok] at h
  split at h
  · rename_i current _ hcurrent
    exact SearchPath.isCanonical_of_resolveIn hs.here (hv current hcurrent).parent h
  · exact SearchPath.isCanonical_of_resolve hs.here hs.roots h

/-- A file that is found under a logical path is what the path resolves to. -/
theorem Site.resolves_of_getFile {s : Site} {logical : String} {p : Path}
    (h : s.getFile logical = .ok p) :
    s.pipeline.searchPath.resolve s.disk logical [] true = .ok (some p) ∧
      s.isFile p = .ok true := by
  unfold getFile findFile at h
  obtain ⟨found?, hfound, h⟩ := Action.except_bind_eq_ok.1 h
  obtain ⟨hit?, hhit, hfound⟩ := Action.except_bind_eq_ok.1 hfound
  cases hit? with
  | none =>
    cases hfound
    cases h
  | some hit =>
    obtain ⟨isFile, hfile, hfound⟩ := Action.except_bind_eq_ok.1 hfound
    cases isFile with
    | false =>
      cases hfound
      cases h
    | true =>
      cases hfound
      cases h
      exact ⟨Disk.orFail_eq_ok.1 hhit, hfile⟩

theorem Site.isCanonical_of_getFile {s : Site} (hs : s.IsProper) {logical : String} {p : Path}
    (h : s.getFile logical = .ok p) : p.IsCanonical :=
  SearchPath.isCanonical_of_resolve hs.here hs.roots (resolves_of_getFile h).1

end AssetBundler
