import AssetBundler.Proofs.Disk.Existence

/-!
# What a search finds

A search asks about its candidates one after another and takes the first that is there; it ends without an
answer where the disk refuses to tell. Main statements: what a lookup in one folder and in one folder after
another finds, and when it finds nothing (`SearchPath.resolveIn_eq_some`, `SearchPath.resolveInRoots_append`,
`SearchPath.resolveIn_eq_none`), and that adding extensions once only does not matter to what is found first
(`SearchPath.find?_order`).
-/

namespace AssetBundler

open AssetBundler.Action

/-- An element of a list with a property, behind elements without it. -/
def IsFirst {α : Type} (P : α → Prop) (xs : List α) (x : α) : Prop :=
  ∃ front back, xs = front ++ x :: back ∧ (∀ y ∈ front, ¬P y) ∧ P x

section IsFirst

variable {α : Type} {P : α → Prop} {xs ys : List α} {x y : α}

theorem isFirst_iff_find? [DecidablePred P] : IsFirst P xs x ↔ xs.find? (P ·) = some x := by
  unfold IsFirst
  rw [List.find?_eq_some_iff_append]
  simp only [decide_eq_true_eq, Bool.not_eq_true', decide_eq_false_iff_not]
  constructor
  · rintro ⟨front, back, hsplit, hfront, hx⟩
    exact ⟨hx, front, back, hsplit, hfront⟩
  · rintro ⟨hx, front, back, hsplit, hfront⟩
    exact ⟨front, back, hsplit, hfront, hx⟩

/-- Lists in which every search ends alike have the same first elements. -/
theorem isFirst_congr (h : ∀ test : α → Bool, xs.find? test = ys.find? test) :
    IsFirst P xs x ↔ IsFirst P ys x := by
  classical
  rw [isFirst_iff_find?, isFirst_iff_find?, h]

theorem mem_congr (h : ∀ test : α → Bool, xs.find? test = ys.find? test) : x ∈ xs ↔ x ∈ ys := by
  classical
  have hfound : ∀ zs : List α, x ∈ zs ↔ (zs.find? (· = x)).isSome = true := by
    intro zs
    rw [List.find?_isSome]
    simp
  rw [hfound, hfound, h]

theorem IsFirst.mem (h : IsFirst P xs x) : x ∈ xs := by
  obtain ⟨front, back, rfl, -, -⟩ := h
  exact List.mem_append_right _ (List.mem_cons_self ..)

theorem IsFirst.holds (h : IsFirst P xs x) : P x := by
  obtain ⟨front, back, -, -, hx⟩ := h
  exact hx

theorem IsFirst.congr {Q : α → Prop} (h : IsFirst P xs x) (hiff : ∀ z ∈ xs, Q z ↔ P z) :
    IsFirst Q xs x := by
  have hx := (hiff x h.mem).2 h.holds
  obtain ⟨front, back, rfl, hfront, -⟩ := h
  exact ⟨front, back, rfl, fun z hz ↦ mt (hiff z (List.mem_append_left _ hz)).1 (hfront z hz), hx⟩

theorem IsFirst.unique (h : IsFirst P xs x) (h' : IsFirst P xs y) : x = y := by
  classical
  exact Option.some.inj ((isFirst_iff_find?.1 h).symm.trans (isFirst_iff_find?.1 h'))

theorem IsFirst.eq_head_or (h : IsFirst P (y :: xs) x) : x = y ∨ ¬P y := by
  obtain ⟨front, back, hsplit, hfront, -⟩ := h
  cases front with
  | nil => exact .inl (List.cons.inj hsplit).1.symm
  | cons first front => exact .inr ((List.cons.inj hsplit).1 ▸ hfront first List.mem_cons_self)

/-- An element stays the first one under a property that others have only along with the old one, or with
the old one of the head. -/
theorem IsFirst.of_head {Q : α → Prop} (h : IsFirst P (y :: xs) x)
    (hQ : ∀ z ∈ y :: xs, Q z → P z ∨ P y) (hx : Q x) : IsFirst Q (y :: xs) x := by
  obtain ⟨front, back, hsplit, hfront, -⟩ := h
  refine ⟨front, back, hsplit, fun z hz hq ↦ ?_, hx⟩
  have hhead : ¬P y := by
    cases front with
    | nil => cases hz
    | cons first front => exact (List.cons.inj hsplit).1 ▸ hfront first List.mem_cons_self
  rcases hQ z (hsplit ▸ List.mem_append_left _ hz) hq with hp | hp
  · exact hfront z hz hp
  · exact hhead hp

theorem exists_isFirst (h : ∃ x ∈ xs, P x) : ∃ x, IsFirst P xs x := by
  classical
  obtain ⟨x, hx, hp⟩ := h
  have hsome : (xs.find? (P ·)).isSome = true :=
    List.find?_isSome.2 ⟨x, hx, decide_eq_true hp⟩
  obtain ⟨first, hfirst⟩ := Option.isSome_iff_exists.1 hsome
  exact ⟨first, isFirst_iff_find?.2 hfirst⟩

end IsFirst

namespace Disk

variable {d : Disk} {p : Path}

def HoldsFile (d : Disk) (p : Path) : Prop := ∃ bytes t, d.find p = .ok (.file bytes t)

def HoldsFolder (d : Disk) (p : Path) : Prop := ∃ t entries, d.find p = .ok (.folder t entries)

/-- The disk tells whether something is at the path. -/
def Answers (d : Disk) (p : Path) : Prop := d.find p ≠ .error .nameTooLong

theorem answers_of_short (h : ∀ name ∈ p.names, isTooLong name = false) : d.Answers p := by
  intro hlong
  have herror : d.find? p = .error (.refused .nameTooLong p) := by
    unfold find?
    rw [hlong]
  obtain ⟨q, hq, name, hname, htoo⟩ := failsOnly_find? d p _ herror
  cases hq
  rw [h name hname] at htoo
  cases htoo

theorem HoldsFile.exists (h : d.HoldsFile p) : d.Exists p := by
  obtain ⟨bytes, t, hfind⟩ := h
  exact ⟨_, hfind⟩

theorem HoldsFile.not_holdsFolder (h : d.HoldsFile p) : ¬d.HoldsFolder p := by
  obtain ⟨bytes, t, hfile⟩ := h
  rintro ⟨u, entries, hfolder⟩
  cases hfile.symm.trans hfolder

theorem exists?_eq_ok {b : Bool} :
    d.exists? p = .ok b ↔ d.Answers p ∧ (b = true ↔ d.Exists p) := by
  unfold exists? find? Answers Exists
  rcases d.find p with (_ | _ | _ | _ | _) | n <;> cases b <;> simp [bind, Except.bind, pure, Except.pure]

theorem isFile_eq_ok {b : Bool} :
    d.isFile p = .ok b ↔ d.Answers p ∧ (b = true ↔ d.HoldsFile p) := by
  unfold isFile find? Answers HoldsFile
  rcases d.find p with (_ | _ | _ | _ | _) | (_ | _) <;> cases b <;>
    simp [bind, Except.bind, pure, Except.pure, Node.isFile]

theorem isFolder_eq_ok {b : Bool} :
    d.isFolder p = .ok b ↔ d.Answers p ∧ (b = true ↔ d.HoldsFolder p) := by
  unfold isFolder find? Answers HoldsFolder
  rcases d.find p with (_ | _ | _ | _ | _) | (_ | _) <;> cases b <;>
    simp [bind, Except.bind, pure, Except.pure, Node.isFolder]

theorem holdsFile_of_isFile (h : d.isFile p = .ok true) : d.HoldsFile p :=
  (isFile_eq_ok.1 h).2.1 rfl

theorem holdsFolder_of_isFolder (h : d.isFolder p = .ok true) : d.HoldsFolder p :=
  (isFolder_eq_ok.1 h).2.1 rfl

namespace Answers

variable {b : Bool}

theorem exists?_eq_ok (h : d.Answers p) : d.exists? p = .ok b ↔ (b = true ↔ d.Exists p) := by
  rw [Disk.exists?_eq_ok, and_iff_right h]

theorem isFile_eq_ok (h : d.Answers p) : d.isFile p = .ok b ↔ (b = true ↔ d.HoldsFile p) := by
  rw [Disk.isFile_eq_ok, and_iff_right h]

theorem isFolder_eq_ok (h : d.Answers p) : d.isFolder p = .ok b ↔ (b = true ↔ d.HoldsFolder p) := by
  rw [Disk.isFolder_eq_ok, and_iff_right h]

end Answers

end Disk

namespace SearchPath

variable {s : SearchPath} {d : Disk} {preferred : List String} {index : Bool} {name : String}
  {base p q : Path}

section FirstSuch

variable {test : Path → Except Disk.Error Bool}

theorem firstSuch_eq_none {ps : List Path} :
    firstSuch test ps = .ok none ↔ ∀ p ∈ ps, test p = .ok false := by
  induction ps with
  | nil => exact iff_of_true rfl (List.forall_mem_nil _)
  | cons first ps ih =>
    rw [List.forall_mem_cons, ← ih, firstSuch]
    rcases test first with e | _ | _
    · exact iff_of_false (by rintro ⟨⟩) (by rintro ⟨⟨⟩, -⟩)
    · exact ⟨fun h ↦ ⟨rfl, h⟩, fun h ↦ h.2⟩
    · exact iff_of_false (by rintro ⟨⟩) (by rintro ⟨⟨⟩, -⟩)

/-- The first path that passes, where the paths are made of other things. -/
theorem firstSuch_map_eq_some {α : Type} {f : α → Path} {xs : List α} :
    firstSuch test (xs.map f) = .ok (some p) ↔ ∃ front x back, xs = front ++ x :: back ∧
      (∀ y ∈ front, test (f y) = .ok false) ∧ test (f x) = .ok true ∧ p = f x := by
  rw [firstSuch_eq_some]
  constructor
  · rintro ⟨front, back, hmap, hfront, hp⟩
    obtain ⟨front', rest, rfl, rfl, hrest⟩ := List.map_eq_append_iff.1 hmap
    obtain ⟨x, back', rfl, rfl, -⟩ := List.map_eq_cons_iff.1 hrest
    exact ⟨front', x, back', rfl, List.forall_mem_map.1 hfront, hp, rfl⟩
  · rintro ⟨front, x, back, rfl, hfront, hx, rfl⟩
    refine ⟨front.map f, back.map f, ?_, List.forall_mem_map.2 hfront, hx⟩
    rw [List.map_append, List.map_cons]

variable {α : Type} {f : α → Path} {xs : List α} {P : α → Prop}

/-- A search that gets answers finds the first path with the property asked for. -/
theorem firstSuch_map_eq_some_iff (h : ∀ x ∈ xs, ∀ b, test (f x) = .ok b ↔ (b = true ↔ P x)) :
    firstSuch test (xs.map f) = .ok (some p) ↔ ∃ x, IsFirst P xs x ∧ p = f x := by
  rw [firstSuch_map_eq_some]
  constructor
  · rintro ⟨front, x, back, rfl, hfront, hx, rfl⟩
    refine ⟨x, ⟨front, back, rfl, fun y hy ↦ ?_, ?_⟩, rfl⟩
    · exact fun hp ↦ Bool.false_ne_true (((h y (List.mem_append_left _ hy) _).1 (hfront y hy)).2 hp)
    · exact ((h x (List.mem_append_right _ (List.mem_cons_self ..)) _).1 hx).1 rfl
  · rintro ⟨x, ⟨front, back, rfl, hfront, hx⟩, rfl⟩
    refine ⟨front, x, back, rfl, fun y hy ↦ ?_, ?_, rfl⟩
    · exact (h y (List.mem_append_left _ hy) _).2 (iff_of_false Bool.false_ne_true (hfront y hy))
    · exact (h x (List.mem_append_right _ (List.mem_cons_self ..)) _).2 (iff_of_true rfl hx)

theorem firstSuch_map_eq_none_iff (h : ∀ x ∈ xs, ∀ b, test (f x) = .ok b ↔ (b = true ↔ P x)) :
    firstSuch test (xs.map f) = .ok none ↔ ∀ x ∈ xs, ¬P x := by
  rw [firstSuch_eq_none, List.forall_mem_map]
  refine forall₂_congr fun x hx ↦ ?_
  rw [h x hx]
  simp

end FirstSuch

theorem head_index (x : String) : ("index" ++ x).toList.head? ≠ some '/' := by
  rw [String.toList_append]
  exact ne_of_beq_false rfl

theorem join_index (p : Path) (x : String) :
    p.join ("index" ++ x) = ⟨p.anchor, p.names ++ Path.namesOf ("index" ++ x)⟩ :=
  Path.join_of_head (head_index x)

/-- The index file of a folder, behind names that are no files. -/
theorem findIndex_eq_some {folder : Path} :
    s.findIndex d folder preferred = .ok (some p) ↔ ∃ front x back,
      s.order preferred = front ++ x :: back ∧
      (∀ y ∈ front, d.isFile (folder.join ("index" ++ y)) = .ok false) ∧
      d.isFile (folder.join ("index" ++ x)) = .ok true ∧ p = folder.join ("index" ++ x) :=
  firstSuch_map_eq_some

theorem findIndex_eq_none {folder : Path} :
    s.findIndex d folder preferred = .ok none ↔
      ∀ x ∈ s.order preferred, d.isFile (folder.join ("index" ++ x)) = .ok false := by
  unfold findIndex indexCandidates
  rw [firstSuch_eq_none, List.forall_mem_map]

theorem withIndex_true_eq_ok :
    s.withIndex d p preferred true = .ok q ↔ d.isFolder p = .ok false ∧ q = p ∨
      d.isFolder p = .ok true ∧ (s.findIndex d p preferred = .ok none ∧ q = p ∨
        s.findIndex d p preferred = .ok (some q)) := by
  unfold withIndex
  rcases d.isFolder p with e | _ | _
  · simp [bind, Except.bind]
  · simp [bind, Except.bind, pure, Except.pure, eq_comm]
  · rcases s.findIndex d p preferred with e | _ | i <;>
      simp [bind, Except.bind, pure, Except.pure, eq_comm]

theorem resolveIn_eq_none_iff_firstSuch : s.resolveIn d base name preferred index = .ok none ↔
    firstSuch d.exists? (s.candidates base name preferred) = .ok none := by
  unfold resolveIn
  rcases firstSuch d.exists? (s.candidates base name preferred) with e | _ | hit
  · exact iff_of_false (by rintro ⟨⟩) (by rintro ⟨⟩)
  · exact iff_of_true rfl rfl
  · refine iff_of_false (fun h ↦ ?_) (by rintro ⟨⟩)
    obtain ⟨_, ⟨⟩, h⟩ := except_bind_eq_ok.1 h
    obtain ⟨found, -, h⟩ := except_bind_eq_ok.1 h
    cases h

theorem resolveIn_eq_none :
    s.resolveIn d base name preferred index = .ok none ↔
      ∀ x ∈ "" :: s.order preferred, d.exists? (base.join (name ++ x)) = .ok false := by
  rw [resolveIn_eq_none_iff_firstSuch, firstSuch_eq_none, candidates_eq, List.forall_mem_map]

/-- The candidate stands behind candidates that are not there. -/
theorem resolveIn_eq_some :
    s.resolveIn d base name preferred index = .ok (some q) ↔ ∃ front x back found,
      "" :: s.order preferred = front ++ x :: back ∧
      (∀ y ∈ front, d.exists? (base.join (name ++ y)) = .ok false) ∧
      d.exists? (base.join (name ++ x)) = .ok true ∧
      s.withIndex d (base.join (name ++ x)) preferred index = .ok found ∧ q = d.resolve found := by
  rw [resolveIn_eq_some_iff_firstSuch, candidates_eq]
  constructor
  · rintro ⟨hit, found, hhit, hfound, hq⟩
    obtain ⟨front, x, back, hsplit, hfront, hx, rfl⟩ := firstSuch_map_eq_some.1 hhit
    exact ⟨front, x, back, found, hsplit, hfront, hx, hfound, hq⟩
  · rintro ⟨front, x, back, found, hsplit, hfront, hx, hfound, hq⟩
    exact ⟨_, found, firstSuch_map_eq_some.2 ⟨front, x, back, hsplit, hfront, hx, rfl⟩, hfound, hq⟩

/-- What a path stands for in a search: itself, or the first index file of a folder if index files are
asked for and there is one. -/
inductive StandsFor (d : Disk) (exts : List String) (index : Bool) (p : Path) : Path → Prop where
  | itself (h : index = false ∨ ¬d.HoldsFolder p) : StandsFor d exts index p p
  | folder (h : d.HoldsFolder p) (hnone : ∀ x ∈ exts, ¬d.HoldsFile (p.join ("index" ++ x))) :
    StandsFor d exts index p p
  | indexFile {x : String} (hindex : index = true) (h : d.HoldsFolder p)
    (hx : IsFirst (fun x ↦ d.HoldsFile (p.join ("index" ++ x))) exts x) :
    StandsFor d exts index p (p.join ("index" ++ x))

section Answers

variable {exts : List String} (hfind : ∀ test : String → Bool, (s.order preferred).find? test = exts.find? test)

include hfind

theorem findIndex_eq_some_iff (h : ∀ x ∈ exts, d.Answers (p.join ("index" ++ x))) :
    s.findIndex d p preferred = .ok (some q) ↔
      ∃ x, IsFirst (fun x ↦ d.HoldsFile (p.join ("index" ++ x))) exts x ∧ q = p.join ("index" ++ x) := by
  unfold findIndex indexCandidates
  rw [firstSuch_map_eq_some_iff fun x hx _ ↦ (h x ((mem_congr hfind).1 hx)).isFile_eq_ok]
  exact exists_congr fun x ↦ and_congr_left fun _ ↦ isFirst_congr hfind

theorem findIndex_eq_none_iff (h : ∀ x ∈ exts, d.Answers (p.join ("index" ++ x))) :
    s.findIndex d p preferred = .ok none ↔ ∀ x ∈ exts, ¬d.HoldsFile (p.join ("index" ++ x)) := by
  unfold findIndex indexCandidates
  rw [firstSuch_map_eq_none_iff fun x hx _ ↦ (h x ((mem_congr hfind).1 hx)).isFile_eq_ok]
  exact forall_congr' fun x ↦ imp_congr (mem_congr hfind) Iff.rfl

/-- A hit is replaced by what it stands for. -/
theorem withIndex_eq_ok_iff (hp : d.Answers p) (h : ∀ x ∈ exts, d.Answers (p.join ("index" ++ x))) :
    s.withIndex d p preferred index = .ok q ↔ StandsFor d exts index p q := by
  cases index with
  | false =>
    constructor
    · rintro ⟨⟩
      exact .itself (.inl rfl)
    · intro hq
      cases hq with
      | itself | folder => rfl
      | indexFile hindex => cases hindex
  | true =>
    rw [withIndex_true_eq_ok, hp.isFolder_eq_ok, hp.isFolder_eq_ok, findIndex_eq_none_iff hfind h,
      findIndex_eq_some_iff hfind h]
    simp only [Bool.false_eq_true, false_iff, true_iff]
    constructor
    · rintro (⟨hfolder, rfl⟩ | ⟨hfolder, ⟨hnone, rfl⟩ | ⟨x, hx, rfl⟩⟩)
      · exact .itself (.inr hfolder)
      · exact .folder hfolder hnone
      · exact .indexFile rfl hfolder hx
    · intro hq
      cases hq with
      | itself hself => exact .inl ⟨hself.resolve_left (by decide), rfl⟩
      | folder hfolder hnone => exact .inr ⟨hfolder, .inl ⟨hnone, rfl⟩⟩
      | indexFile _ hfolder hx => exact .inr ⟨hfolder, .inr ⟨_, hx, rfl⟩⟩

theorem find?_cons_order (test : String → Bool) :
    ("" :: s.order preferred).find? test = ("" :: exts).find? test := by
  rw [List.find?_cons, List.find?_cons, hfind]

theorem resolveIn_eq_none_iff (h : ∀ x ∈ "" :: exts, d.Answers (base.join (name ++ x))) :
    s.resolveIn d base name preferred index = .ok none ↔
      ∀ x ∈ "" :: exts, ¬d.Exists (base.join (name ++ x)) := by
  have hmem := fun x ↦ mem_congr (x := x) (find?_cons_order hfind)
  rw [resolveIn_eq_none]
  refine forall_congr' fun x ↦ imp_congr_ctx (hmem x) fun hx ↦ ?_
  rw [(h x hx).exists?_eq_ok]
  simp

/-- What is found in a folder is what the first candidate stands for that exists. -/
theorem resolveIn_eq_some_iff (h : ∀ x ∈ "" :: exts, d.Answers (base.join (name ++ x)))
    (hindex : ∀ x ∈ "" :: exts, ∀ y ∈ exts, d.Answers ((base.join (name ++ x)).join ("index" ++ y))) :
    s.resolveIn d base name preferred index = .ok (some q) ↔ ∃ x found,
      IsFirst (fun x ↦ d.Exists (base.join (name ++ x))) ("" :: exts) x ∧
      StandsFor d exts index (base.join (name ++ x)) found ∧ q = d.resolve found := by
  have hmem := fun x ↦ mem_congr (x := x) (find?_cons_order hfind)
  rw [resolveIn_eq_some_iff_firstSuch, candidates_eq]
  constructor
  · rintro ⟨hit, found, hhit, hfound, hq⟩
    rw [firstSuch_map_eq_some_iff fun x hx _ ↦ (h x ((hmem x).1 hx)).exists?_eq_ok] at hhit
    obtain ⟨x, hx, rfl⟩ := hhit
    rw [isFirst_congr (find?_cons_order hfind)] at hx
    exact ⟨x, found, hx, (withIndex_eq_ok_iff hfind (h x hx.mem) (hindex x hx.mem)).1 hfound, hq⟩
  · rintro ⟨x, found, hx, hfound, hq⟩
    refine ⟨base.join (name ++ x), found, ?_,
      (withIndex_eq_ok_iff hfind (h x hx.mem) (hindex x hx.mem)).2 hfound, hq⟩
    rw [firstSuch_map_eq_some_iff fun x hx _ ↦ (h x ((hmem x).1 hx)).exists?_eq_ok]
    exact ⟨x, (isFirst_congr (find?_cons_order hfind)).2 hx, rfl⟩

end Answers

/-! ## One folder after another -/

theorem resolveInRoots_singleton :
    s.resolveInRoots d name preferred index [base] = s.resolveIn d base name preferred index := by
  unfold resolveInRoots
  rcases s.resolveIn d base name preferred index with e | _ | found <;> rfl

/-- Folders without a candidate are passed over. -/
theorem resolveInRoots_append {front back : List Path}
    (h : ∀ root ∈ front, s.resolveIn d root name preferred index = .ok none) :
    s.resolveInRoots d name preferred index (front ++ back) =
      s.resolveInRoots d name preferred index back := by
  induction front with
  | nil => rfl
  | cons root front ih =>
    rw [List.forall_mem_cons] at h
    rw [List.cons_append, resolveInRoots, h.1]
    exact ih h.2

/-- The first folder that holds a candidate, or that the disk does not tell about, decides. -/
theorem resolveInRoots_cons_of_ne_none {roots : List Path}
    (h : s.resolveIn d base name preferred index ≠ .ok none) :
    s.resolveInRoots d name preferred index (base :: roots) =
      s.resolveIn d base name preferred index := by
  unfold resolveInRoots
  rcases hin : s.resolveIn d base name preferred index with e | _ | found
  · rfl
  · exact absurd hin h
  · rfl

theorem resolveInRoots_eq_none {roots : List Path} :
    s.resolveInRoots d name preferred index roots = .ok none ↔
      ∀ root ∈ roots, s.resolveIn d root name preferred index = .ok none := by
  induction roots with
  | nil => exact iff_of_true rfl (List.forall_mem_nil _)
  | cons root roots ih =>
    rw [List.forall_mem_cons, ← ih, resolveInRoots]
    rcases s.resolveIn d root name preferred index with e | _ | found
    · exact iff_of_false (by rintro ⟨⟩) (by rintro ⟨⟨⟩, -⟩)
    · exact ⟨fun h ↦ ⟨rfl, h⟩, fun h ↦ h.2⟩
    · exact iff_of_false (by rintro ⟨⟩) (by rintro ⟨⟨⟩, -⟩)

theorem resolve_of_relative (h : isAbsolute name = false) :
    s.resolve d name preferred index = s.resolveInRoots d name preferred index s.roots := by
  unfold resolve
  rw [h, if_neg Bool.false_ne_true]

/-! ## The order of extensions -/

theorem order_nil (s : SearchPath) : s.order [] = s.extensions := by
  unfold order
  simp

theorem find?_append_singleton_of_mem {α : Type} {xs ys : List α} {x : α} (h : x ∈ xs)
    (test : α → Bool) : (xs ++ x :: ys).find? test = (xs ++ ys).find? test := by
  rw [List.find?_append, List.find?_append]
  cases hfind : xs.find? test with
  | some found => rfl
  | none =>
    have hx : ¬test x = true := List.find?_eq_none.1 hfind x h
    rw [List.find?_cons_of_neg hx]

/-- Adding extensions once only changes nothing about the first one with a property. -/
theorem find?_addExtensions (test : String → Bool) (known exts : List String) :
    (addExtensions known exts).find? test =
      (known ++ exts.map normalizeExtension).find? test := by
  induction exts generalizing known with
  | nil => rw [List.map_nil, List.append_nil]; rfl
  | cons e exts ih =>
    by_cases hknown : normalizeExtension e ∈ known
    · calc
        (addExtensions known (e :: exts)).find? test
          = (addExtensions known exts).find? test := by
            simp [addExtensions, hknown]
        _ = (known ++ exts.map normalizeExtension).find? test := ih known
        _ = (known ++ (e :: exts).map normalizeExtension).find? test :=
            (find?_append_singleton_of_mem hknown test).symm
    · calc
        (addExtensions known (e :: exts)).find? test
          = (addExtensions (known ++ [normalizeExtension e]) exts).find? test := by
            simp [addExtensions, hknown]
        _ = (known ++ [normalizeExtension e] ++ exts.map normalizeExtension).find? test := ih _
        _ = (known ++ (e :: exts).map normalizeExtension).find? test := by
            rw [List.append_assoc, List.map_cons, List.singleton_append]

theorem mem_addExtensions {ext : String} {exts : List String} (h : ext ∈ exts) :
    normalizeExtension ext ∈ addExtensions [] exts := by
  have hsearch := fun test ↦ find?_addExtensions test [] exts
  exact (mem_congr hsearch).2 (List.mem_map.2 ⟨ext, h, rfl⟩)

/-- The extensions of a search, preferred ones first, as they are configured: normalised, but each as
often as it is named. -/
def tried (preferred exts : List String) : List String :=
  (preferred.filter (· ≠ "") ++ exts).map normalizeExtension

theorem find?_order (test : String → Bool) (here : List String) (roots : List Path)
    (exts preferred : List String) :
    ((create here roots exts).order preferred).find? test = (tried preferred exts).find? test := by
  let first := (preferred.filter (· ≠ "")).map normalizeExtension
  calc
    ((create here roots exts).order preferred).find? test
      = (first.find? test).or
          (((addExtensions [] exts).filter fun e ↦ !first.contains e).find? test) :=
        List.find?_append
    _ = (first.find? test).or ((addExtensions [] exts).find? test) := by
        cases hfirst : first.find? test with
        | some e => rfl
        | none =>
          rw [List.find?_filter]
          refine congrArg _ (congrArg (List.find? · _) (funext fun e ↦ ?_))
          by_cases he : e ∈ first
          · simp [List.find?_eq_none.1 hfirst e he]
          · simp [he]
    _ = (first.find? test).or ((exts.map normalizeExtension).find? test) := by
        rw [find?_addExtensions, List.nil_append]
    _ = (tried preferred exts).find? test := by
        rw [tried, List.map_append, List.find?_append]

end SearchPath

end AssetBundler
