import AssetBundler.Proofs.Release.Contents

/-!
# Back from a published file to its source

Copying goes through the entries of the configuration and lists what each source stands for; looking a
source up goes through them again, with the path that a file would have below each source. The second
takes the first file that it finds, the copy that is left is the last one. Main statement: which source is
found for the last copy at a place (`Site.assetSource_exact`).
-/

namespace AssetBundler

open AssetBundler.Action

section Rests

variable {folder rest path : String}

theorem below?_append (folder : String) (hrest : rest.toList.head? = some '/') :
    Site.below? folder (folder ++ rest) = some (Pipeline.dropLeadingSlashes rest) := by
  obtain ⟨cs, hcs⟩ := List.head?_eq_some_iff.1 hrest
  have hne : folder ++ rest ≠ folder := by
    intro heq
    have hnil := congrArg String.toList heq
    rw [String.toList_append, hcs] at hnil
    simp at hnil
  have hprefix : (folder ++ "/").toList.isPrefixOf (folder ++ rest).toList = true := by
    rw [List.isPrefixOf_iff_prefix, String.toList_append, String.toList_append, hcs]
    exact ⟨cs, by simp⟩
  unfold Site.below?
  rw [if_neg hne, if_pos hprefix, String.toList_append, ← String.length_toList, List.drop_left,
    String.ofList_toList]

theorem below?_of_head (hfolder : folder.toList.head? = some '/') (hpath : path.toList.head? ≠ some '/') :
    Site.below? folder path = none := by
  have hne : path ≠ folder := by
    rintro rfl
    exact hpath hfolder
  have hprefix : ¬(folder ++ "/").toList.isPrefixOf path.toList = true := by
    rw [List.isPrefixOf_iff_prefix, String.toList_append]
    rintro ⟨cs, hcs⟩
    rw [← hcs, List.head?_append, List.head?_append, hfolder] at hpath
    exact hpath rfl
  unfold Site.below?
  rw [if_neg hne, if_neg hprefix]

theorem dropLeadingSlashes_head (path : String) :
    (Pipeline.dropLeadingSlashes path).toList.head? ≠ some '/' := by
  unfold Pipeline.dropLeadingSlashes
  rw [String.toList_ofList, ← List.find?_not_eq_head?_dropWhile]
  intro hfound
  have htest := List.find?_some hfound
  simp at htest

/-- What stands before the folder of a path is slashes, and so is what stands between it and a rest. -/
theorem dropLeadingSlashes_append_of_ne (hfolder : stripSlashes folder ≠ "") (rest : String) :
    ∃ slashes : List Char, (∀ c ∈ slashes, c = '/') ∧ Pipeline.dropLeadingSlashes (folder ++ rest) =
      stripSlashes folder ++ String.ofList (slashes ++ rest.toList) := by
  unfold stripSlashes at hfolder ⊢
  dsimp only at hfolder ⊢
  generalize hcs : folder.toList.dropWhile (· == '/') = cs at hfolder ⊢
  refine ⟨(cs.reverse.takeWhile (· == '/')).reverse, fun c hc ↦ ?_, ?_⟩
  · simpa using List.mem_takeWhile_imp (List.mem_reverse.1 hc)
  · have hwhole : (cs.reverse.dropWhile (· == '/')).reverse ++
        (cs.reverse.takeWhile (· == '/')).reverse = cs := by
      rw [← List.reverse_append, List.takeWhile_append_dropWhile, List.reverse_reverse]
    have hne : cs ≠ [] := by
      rintro rfl
      exact hfolder rfl
    unfold Pipeline.dropLeadingSlashes
    rw [String.toList_append, List.dropWhile_append, hcs, if_neg (by simpa using hne),
      ← String.ofList_append, ← List.append_assoc, hwhole]

theorem dropLeadingSlashes_append_of_eq (hfolder : stripSlashes folder = "") (rest : String) :
    Pipeline.dropLeadingSlashes (folder ++ rest) = Pipeline.dropLeadingSlashes rest := by
  unfold stripSlashes at hfolder
  dsimp only at hfolder
  have hempty : ((folder.toList.dropWhile (· == '/')).reverse.dropWhile (· == '/')).reverse = [] := by
    have hchars := congrArg String.toList hfolder
    rwa [String.toList_ofList] at hchars
  have hslashes := List.dropWhile_eq_nil_iff.1 (List.reverse_eq_nil_iff.1 hempty)
  have hall : folder.toList.dropWhile (· == '/') = [] := by
    by_contra hne
    have hhead := dropLeadingSlashes_head folder
    unfold Pipeline.dropLeadingSlashes at hhead
    rw [String.toList_ofList, List.head?_eq_some_head hne] at hhead
    refine hhead (congrArg some ?_)
    simpa using hslashes _ (List.mem_reverse.2 (List.head_mem hne))
  unfold Pipeline.dropLeadingSlashes
  rw [String.toList_append, List.dropWhile_append, hall]
  rfl

end Rests

/-- The path that an entry of the configuration gives to the source of a published path. -/
def Pipeline.sourceOf? (p : Pipeline) (rel : String) (pair : String × String) : Option Path :=
  (if pair.1 = "" then some rel else Site.below? pair.1 rel).map fun sub ↦
    (p.root.join pair.2).join sub

namespace Site

variable {s : Site} {rel url : String} {found : Path}

theorem sourceCandidates_eq (s : Site) (rel : String) :
    s.sourceCandidates rel = (staticPairs s.pipeline).filterMap (s.pipeline.sourceOf? rel) := by
  unfold sourceCandidates staticPairs
  rw [List.filterMap_flatMap]
  congr 1
  funext entry
  rw [List.filterMap_map]
  unfold Pipeline.sourceOf?
  cases hsub : (if entry.1 = "" then some rel else below? entry.1 rel) with
  | none => simp [hsub]
  | some sub => simp [hsub]

/-- The first entry that has a file for a published path has this one. -/
def ComesFirst (s : Site) (rel : String) (found : Path) : Prop :=
  ∃ front pair back, staticPairs s.pipeline = front ++ pair :: back ∧
    s.pipeline.sourceOf? rel pair = some found ∧
    ∀ other ∈ front, ∀ path, s.pipeline.sourceOf? rel other = some path → s.isFile path = .ok false

/-- The first element of a kind stands at the head or in the rest behind a head of another kind. -/
theorem exists_first_cons {α : Type} {P Q : α → Prop} {x : α} {xs : List α} :
    (∃ front y back, x :: xs = front ++ y :: back ∧ P y ∧ ∀ z ∈ front, Q z) ↔
      P x ∨ Q x ∧ ∃ front y back, xs = front ++ y :: back ∧ P y ∧ ∀ z ∈ front, Q z := by
  constructor
  · rintro ⟨front, y, back, hsplit, hy, hfront⟩
    cases front with
    | nil =>
      cases hsplit
      exact .inl hy
    | cons z front =>
      cases hsplit
      obtain ⟨hx, hfront⟩ := List.forall_mem_cons.1 hfront
      exact .inr ⟨hx, front, y, back, rfl, hy, hfront⟩
  · rintro (hx | ⟨hx, front, y, back, rfl, hy, hfront⟩)
    · exact ⟨[], x, xs, rfl, hx, List.forall_mem_nil _⟩
    · exact ⟨x :: front, y, back, rfl, hy, List.forall_mem_cons.2 ⟨hx, hfront⟩⟩

theorem firstFile_filterMap_iff {α : Type} (f : α → Option Path) (hfile : s.isFile found = .ok true)
    (xs : List α) : s.firstFile (xs.filterMap f) = .ok (some found) ↔
      ∃ front x back, xs = front ++ x :: back ∧ f x = some found ∧
        ∀ other ∈ front, ∀ path, f other = some path → s.isFile path = .ok false := by
  induction xs with
  | nil => simp [firstFile]
  | cons x xs ih =>
    rw [exists_first_cons, ← ih]
    cases hx : f x with
    | none => simp [List.filterMap_cons_none hx]
    | some path =>
      rw [List.filterMap_cons_some hx, firstFile]
      have hnot : s.isFile path ≠ .ok false →
          ¬∀ other, some path = some other → s.isFile other = .ok false := fun hne hall ↦
        hne (hall path rfl)
      rcases hpath : s.isFile path with why | isFile
      · refine iff_of_false (fun h ↦ nomatch h) ?_
        rintro (heq | ⟨hall, -⟩)
        · rw [Option.some.inj heq, hfile] at hpath
          cases hpath
        · exact hnot (by simp [hpath]) hall
      · cases isFile with
        | false =>
          change s.firstFile _ = _ ↔ _
          constructor
          · exact fun h ↦ .inr ⟨fun other hother ↦ Option.some.inj hother ▸ hpath, h⟩
          · rintro (heq | ⟨-, h⟩)
            · rw [Option.some.inj heq, hfile] at hpath
              cases hpath
            · exact h
        | true =>
          change Except.ok (some path) = _ ↔ _
          constructor
          · exact fun h ↦ .inl (Except.ok.inj h)
          · rintro (heq | ⟨hall, -⟩)
            · rw [heq]
            · exact absurd hall (hnot (by simp [hpath]))

theorem firstFile_candidates_iff (hfile : s.isFile found = .ok true) (rel : String) :
    s.firstFile (s.sourceCandidates rel) = .ok (some found) ↔ s.ComesFirst rel found := by
  rw [sourceCandidates_eq]
  exact firstFile_filterMap_iff _ hfile _

/-- A path that is not at or below the asset folder is looked up as it is. -/
theorem assetSource_of_outside (h : stripSlashes s.pipeline.assetDir ≠ "" →
    below? (stripSlashes s.pipeline.assetDir) (Pipeline.dropLeadingSlashes url) = none) :
    s.assetSource url none = s.firstFile (s.sourceCandidates (Pipeline.dropLeadingSlashes url)) := by
  unfold assetSource
  dsimp only [Option.getD_none]
  split
  case isTrue => rfl
  case isFalse hne => rw [h hne, Option.getD_none]

/-- Behind the asset folder everything is looked up as it is. -/
theorem assetSource_assetDir_append (hurl : url.toList.head? = some '/') :
    s.assetSource ("/" ++ s.pipeline.assetDir ++ url) none =
      s.firstFile (s.sourceCandidates (Pipeline.dropLeadingSlashes url)) := by
  unfold assetSource
  dsimp only [Option.getD_none]
  rw [String.append_assoc, Pipeline.dropLeadingSlashes_slash_append]
  by_cases hne : stripSlashes s.pipeline.assetDir = ""
  · rw [if_pos hne, dropLeadingSlashes_append_of_eq hne]
  · rw [if_neg hne]
    obtain ⟨slashes, hslashes, hrest⟩ := dropLeadingSlashes_append_of_ne hne url
    obtain ⟨cs, hcs⟩ := List.head?_eq_some_iff.1 hurl
    have hhead : (String.ofList (slashes ++ url.toList)).toList.head? = some '/' := by
      rw [String.toList_ofList, hcs]
      cases slashes with
      | nil => rfl
      | cons c slashes => exact congrArg some (hslashes c (List.mem_cons_self ..))
    have hdrop : Pipeline.dropLeadingSlashes (String.ofList (slashes ++ url.toList)) =
        Pipeline.dropLeadingSlashes url := by
      unfold Pipeline.dropLeadingSlashes
      rw [String.toList_ofList, List.dropWhile_append_of_pos fun c hc ↦ by simp [hslashes c hc]]
    rw [hrest, below?_append _ hhead, hdrop, Option.getD_some]

end Site

/-- A copy with the entry of the configuration that it was made for. -/
structure Static.Filed where
  destination : String
  source : String
  file : Static.Source
  deposit : Static.Deposit

namespace Static.Filed

variable {p : Pipeline} {c : Static.Filed}

def url (c : Static.Filed) : String := c.deposit.url

def write (c : Static.Filed) : Disk.Write := c.deposit.write

/-- The copy is published under its own name, and its source is the one of its entry or lies below it. -/
structure IsOf (p : Pipeline) (c : Static.Filed) : Prop where
  entry : (c.destination, c.source) ∈ Site.staticPairs p
  url : c.url = Pipeline.slashed [c.destination, c.file.rel]
  relative : c.file.rel.toList.head? ≠ some '/'
  path : c.file.path = p.root.join c.source ∧ c.file.rel = c.file.path.name ∨
    c.file.path = (p.root.join c.source).join c.file.rel

theorem IsOf.dropLeadingSlashes_url (h : c.IsOf p) :
    Pipeline.dropLeadingSlashes c.url = if c.destination = "" then c.file.rel
      else Pipeline.dropLeadingSlashes
        (c.destination ++ if c.file.rel = "" then "" else "/" ++ c.file.rel) := by
  rw [h.url]
  by_cases hrel : c.file.rel = ""
  · unfold Pipeline.slashed
    by_cases hdestination : c.destination = ""
    · simp [hrel, hdestination, Pipeline.dropLeadingSlashes]
    · simp [hrel, hdestination, Pipeline.dropLeadingSlashes_slash_append]
  · rw [Pipeline.slashed_pair _ hrel]
    by_cases hdestination : c.destination = ""
    · rw [if_pos hdestination, if_pos hdestination, Pipeline.dropLeadingSlashes_slash_append,
        Pipeline.dropLeadingSlashes_of_relative h.relative]
    · rw [if_neg hdestination, if_neg hdestination, if_neg hrel, String.append_assoc,
        String.append_assoc, Pipeline.dropLeadingSlashes_slash_append]

/-- The entry of a copy leads back to its file unless the destination starts with a slash or the file is
itself the source. -/
theorem IsOf.sourceOf?_eq_some_iff (h : c.IsOf p) :
    p.sourceOf? (Pipeline.dropLeadingSlashes c.url) (c.destination, c.source) = some c.file.path ↔
      c.destination.toList.head? ≠ some '/' ∧
        (p.root.join c.source).join c.file.rel = c.file.path := by
  rw [h.dropLeadingSlashes_url]
  unfold Pipeline.sourceOf?
  dsimp only
  by_cases hdestination : c.destination = ""
  · simp [hdestination]
  rw [if_neg hdestination, if_neg hdestination]
  by_cases hslash : c.destination.toList.head? = some '/'
  · rw [below?_of_head hslash (dropLeadingSlashes_head _)]
    simp [hslash]
  · have hrelative : (c.destination ++ if c.file.rel = "" then "" else
        "/" ++ c.file.rel).toList.head? ≠ some '/' := by
      rwa [head_append_of_ne_empty hdestination]
    rw [Pipeline.dropLeadingSlashes_of_relative hrelative]
    have hbelow : Site.below? c.destination (c.destination ++ if c.file.rel = "" then "" else
        "/" ++ c.file.rel) = some c.file.rel := by
      by_cases hrel : c.file.rel = ""
      · simp [hrel, Site.below?]
      · rw [if_neg hrel, below?_append _ (by simp), Pipeline.dropLeadingSlashes_slash_append,
          Pipeline.dropLeadingSlashes_of_relative h.relative]
    rw [hbelow]
    simp [hslash]

end Static.Filed

namespace Site

/-- Copies a file and keeps the copy with its entry. -/
def file (destination source : String) (f : Static.Source) : Action Static.Filed :=
  Static.Filed.mk destination source f <$> deposit destination f

def fileSource (skips : String → Bool) (pair : String × String) : Action (List Static.Filed) :=
  copySourceBy (fun destination f ↦ file destination pair.2 f) skips pair.1 pair.2

def fileAll (skips : String → Bool) : Action (List Static.Filed) := do
  return (← (staticPairs (← get).pipeline).mapM (fileSource skips)).flatten

theorem copySource_eq (skips : String → Bool) (pair : String × String) :
    copySourceBy copyFile skips pair.1 pair.2 =
      List.map Static.Filed.url <$> fileSource skips pair := by
  have hfile : copyFile = fun destination f ↦ Static.Filed.url <$> file destination pair.2 f := by
    rw [copyFile_eq]
    funext destination f
    unfold file
    rw [Functor.map_map]
    rfl
  rw [hfile]
  exact copySourceBy_map _ _ skips pair.1 pair.2

theorem copyAll_eq_fileAll (skips : String → Bool) :
    copyAll skips = List.map Static.Filed.url <$> fileAll skips := by
  rw [copyAll_eq]
  unfold copyAllBy fileAll
  simp only [copySource_eq, map_bind, map_pure, mapM_map, bind_map_left, List.map_flatten]

end Site

/-! ## What copying leaves -/

namespace Disk

/-- A file that is left alone while folders stay is read as before. -/
theorem readBytes_persists {d e : Disk} (hhere : e.here = d.here)
    (hfolder : ∀ place, d.kindAt place = some none → e.kindAt place = some none) {p : Path}
    (hbytes : e.bytesAt (p.place d.here) = d.bytesAt (p.place d.here)) {bytes : ByteArray}
    (h : d.readBytes p = .ok bytes) : e.readBytes p = .ok bytes := by
  obtain ⟨place, hlocate, hkind⟩ := readBytes_eq_ok.1 h
  rw [← locate_eq_place hlocate, bytesAt_eq_some.2 hkind, bytesAt_eq_some] at hbytes
  exact readBytes_eq_ok.2 ⟨place, locate_persists hhere hfolder hlocate (by simp [hbytes]), hbytes⟩

/-- A source that its copy does not overwrite is read as the bytes that were copied. -/
theorem readBytes_of_copy {source target : Path} {d e : Disk}
    (hanchor : target.anchor ≠ .none) (h : copy source target d = .ok () e)
    (hgoal : (d.copyEnd source target).place d.here ≠ source.place d.here) :
    e.readBytes source = .ok ((d.bytesAt (source.place d.here)).getD .empty) := by
  obtain ⟨hhere, bytes, hsource, hbytes⟩ := bytesAt_copy hanchor h
  have hleft : e.bytesAt (source.place d.here) = d.bytesAt (source.place d.here) := by
    rw [hbytes, Write.apply_of_ne (w := ⟨d.copyEnd source target, bytes, false⟩) hgoal,
      if_neg fun hand ↦ Bool.false_ne_true hand.1]
  have houtcome := copyOutcome source target d
  rw [h] at houtcome
  cases houtcome with
  | copied copied time place c b hensure hread hwrite hlocate =>
    have hmade : ChangesOnly target.parent.upTo [] d c := (movesAlong_ensureParent target).ok hensure
    have hsame : c.bytesAt (source.place d.here) = d.bytesAt (source.place d.here) :=
      hmade.bytesAt fun ⟨_, hmem, _⟩ ↦ nomatch hmem
    have hput : ChangesOnly [] [c.copyGoal source target] c
        (b.alter place fun n ↦ n.map (Node.setTime time)) :=
      ((movesAlong_writeBytes (List.mem_singleton_self _) copied).ok hwrite).trans
        (changesOnly_setTime b place time)
    have hcopied := bytesAt_of_readBytes hread
    rw [hmade.here_eq, hsame, hsource] at hcopied
    rw [hsource, Option.getD_some, Option.some.inj hcopied]
    refine readBytes_persists hput.here_eq (fun _ ↦ hput.folder) ?_ hread
    rw [hmade.here_eq, hsame, hleft]

end Disk

namespace Manifest.Store

variable {p : Pipeline} {here : List String} {held : List String → Option ByteArray}
  {cs : List Static.Filed} {m : Store}

/-- The disk holds what the copies leave of what was held; a source that no copy has overwritten still
has the bytes that were copied. -/
structure Shelved (p : Pipeline) (here : List String) (held : List String → Option ByteArray)
    (cs : List Static.Filed) (m : Store) : Prop where
  here_eq : m.disk.here = here
  proper : m.disk.IsProper
  bytes : m.disk.bytesAt = Disk.replay here held (cs.map Static.Filed.write)
  filed : ∀ c ∈ cs, c.IsOf p
  kept : ∀ c ∈ cs, (∀ d ∈ cs, d.deposit.goal.place here ≠ c.file.path.place here) →
    m.disk.readBytes c.file.path = .ok c.deposit.bytes

/-- A copy that succeeds is one more. -/
theorem Shelved.copy (h : m.Shelved p here held cs) {c : Static.Filed} (hc : c.IsOf p) {target : Path}
    (hanchor : target.anchor ≠ .none) (htarget : target.IsProper) {disk : Disk}
    (hcopy : Disk.copy c.file.path target m.disk = .ok () disk)
    (hgoal : c.deposit.goal = m.disk.copyEnd c.file.path target)
    (hbytes : c.deposit.bytes = (m.disk.bytesAt (c.file.path.place m.disk.here)).getD .empty) :
    Shelved p here held (cs ++ [c]) ⟨disk, m.manifest⟩ := by
  obtain ⟨hhere, bytes, hsource, hwrite⟩ := Disk.bytesAt_copy hanchor hcopy
  have hc_write : (⟨m.disk.copyEnd c.file.path target, bytes, false⟩ : Disk.Write) = c.write := by
    unfold Static.Filed.write Static.Deposit.write
    rw [hgoal, hbytes, hsource]
    rfl
  rw [hc_write, h.here_eq] at hwrite
  refine ⟨hhere.trans h.here_eq, (Disk.keepsProper_copy c.file.path htarget).ok hcopy h.proper, ?_, ?_, ?_⟩
  · rw [List.map_append, List.map_singleton, Disk.replay_concat, ← h.bytes]
    exact hwrite
  · exact List.forall_mem_append.2 ⟨h.filed, List.forall_mem_singleton.2 hc⟩
  · intro d hd hapart
    have hapart_c : c.deposit.goal.place here ≠ d.file.path.place here :=
      hapart c (List.mem_append_right _ (List.mem_singleton_self c))
    rcases List.mem_append.1 hd with hd | hd
    · have hkept := h.kept d hd fun e he ↦ hapart e (List.mem_append_left _ he)
      refine Disk.readBytes_persists hhere (((Disk.keepsFiles_copy _ _).ok hcopy).folder) ?_ hkept
      rw [hwrite, h.here_eq, Disk.Write.apply_of_ne (w := c.write) hapart_c,
        if_neg fun hand ↦ Bool.false_ne_true hand.1]
    · rw [List.mem_singleton.1 hd] at hapart_c ⊢
      rw [hbytes]
      refine Disk.readBytes_of_copy hanchor hcopy ?_
      rw [← hgoal, h.here_eq]
      exact hapart_c

end Manifest.Store

namespace Static

/-- A file that is listed for a source is the source itself or lies below it. -/
theorem path_of_mem {d : Disk} (hd : d.IsProper) {p : Path} {files : List Source}
    (h : sourcesAt d p = .ok (some files)) {f : Source} (hf : f ∈ files) :
    f.path = p ∧ f.rel = f.path.name ∨ f.path = p.join f.rel := by
  obtain rfl | ⟨place, hnames, rfl⟩ := eq_or_exists_place hd h hf
  · exact .inl ⟨rfl, rfl⟩
  · refine .inr ?_
    rw [sourceAt_nil_lead, Path.join_of_head (Path.head_intercalate hnames),
      Path.namesOf_intercalate hnames]

end Static

namespace Site

open Manifest.Store

variable {p : Pipeline} {here : List String} {held : List String → Option ByteArray}
  {cs : List Static.Filed}

theorem isOf_of_isListedAt (hroot : p.root.IsProper) {destination source : String}
    (hentry : (destination, source) ∈ staticPairs p) {f : Static.Source}
    (h : IsListedAt p (Shelved p here held) source f) {deposit : Static.Deposit}
    (hurl : deposit.url = Pipeline.slashed [destination, f.rel]) :
    Static.Filed.IsOf p ⟨destination, source, f, deposit⟩ := by
  obtain ⟨made, m, files, hm, hfiles, hf⟩ := h
  exact ⟨hentry, hurl, Static.head_rel_of_mem hm.proper (hroot.join source) hfiles hf,
    Static.path_of_mem hm.proper hfiles hf⟩

theorem ensures_file (hanchor : p.root.anchor ≠ .none) (hroot : p.root.IsProper)
    (hplain : p.fingerprintsCopies = false) {destination source : String}
    (hentry : (destination, source) ∈ staticPairs p) {f : Static.Source}
    (hf : IsListedAt p (Shelved p here held) source f) :
    Ensures (Framed p (Shelved p here held cs)) (file destination source f)
      (fun c ↦ Framed p (Shelved p here held (cs ++ [c]))) Fails := by
  have hdeposit : Ensures (Framed p (Shelved p here held cs)) (deposit destination f)
      (fun d ↦ Framed p (Shelved p here held (cs ++ [⟨destination, source, f, d⟩]))) Fails := by
    intro s hs
    have hname : staticName destination f s = .ok f.rel s := by
      unfold staticName
      rw [bind_of_ok (get_apply s), hs.fingerprintsCopies, hplain]
      rfl
    unfold deposit
    rw [bind_of_ok hname, bind_of_ok (get_apply s)]
    cases hcopy : Disk.copy f.path (s.pipeline.copyTarget destination f.rel) s.disk with
    | error why disk =>
      have hfails : ofDisk (Disk.copy f.path (s.pipeline.copyTarget destination f.rel))
          (.notWritten (s.pipeline.copyTarget destination f.rel)) s =
            .error (.notWritten (s.pipeline.copyTarget destination f.rel) why) { s with disk } := by
        unfold ofDisk
        rw [hcopy]
      rw [bind_of_error hfails]
      trivial
    | ok x disk =>
      have hcopied : ofDisk (Disk.copy f.path (s.pipeline.copyTarget destination f.rel))
          (.notWritten (s.pipeline.copyTarget destination f.rel)) s = .ok x { s with disk } := by
        unfold ofDisk
        rw [hcopy]
      rw [bind_of_ok hcopied]
      have htarget : (p.copyTarget destination f.rel).IsProper :=
        Pipeline.isProper_copyTarget hroot destination f.rel
      rw [← hs.copyTarget] at htarget
      have hanchored := Pipeline.anchor_copyTarget_ne hanchor destination f.rel
      rw [← hs.copyTarget] at hanchored
      have hof : Static.Filed.IsOf p ⟨destination, source, f, s.depositOf destination f.rel f⟩ :=
        isOf_of_isListedAt hroot hentry hf rfl
      have hshelved := hs.store.copy hof hanchored htarget hcopy rfl rfl
      exact ⟨hs.pipeline, hshelved⟩
  unfold file
  rw [map_eq_pure_bind]
  exact Ensures.bind hdeposit fun d ↦ Ensures.pure _ fun _ hs ↦ hs

theorem ensures_fileAll (hanchor : p.root.anchor ≠ .none) (hroot : p.root.IsProper)
    (hplain : p.fingerprintsCopies = false) (skips : String → Bool) :
    Ensures (Framed p (Shelved p here held [])) (fileAll skips)
      (fun cs ↦ Framed p (Shelved p here held cs)) Fails := by
  unfold fileAll
  refine Ensures.bind Ensures.get fun s ↦ ?_
  refine Ensures.bind (Q := fun css ↦ Framed p (Shelved p here held css.flatten)) ?_ fun _ ↦
    Ensures.pure _ fun _ ht ↦ ht
  rintro t ⟨rfl, ht⟩
  refine Ensures.mapM (I := fun css ↦ Framed p (Shelved p here held css.flatten))
    (fun made pair hpair ↦ ?_) [] t ht
  have hentry : (pair.1, pair.2) ∈ staticPairs p := by
    unfold staticPairs at hpair ⊢
    rwa [ht.config] at hpair
  simp only [List.flatten_append, List.flatten_singleton]
  exact ensures_copySourceBy (I := Shelved p here held) (fun _ _ _ _ _ ↦ trivial)
    (fun _ f hf ↦ ensures_file hanchor hroot hplain hentry hf) skips made.flatten

/-! ## The way back -/

/-- What a path that was reported for a place leads back to, if a copy is the last one at that place. The
place holds the bytes of its source, and this source is found, with the asset folder in front or without,
exactly if the first entry that has a file for the path has this one. The entry of the copy itself has it
for the path of the copy unless it stands for a single file or its destination starts with a slash. -/
structure IsTraced (s t : Site) (url : String) (c : Static.Filed) : Prop where
  published : t.disk.bytesAt (c.deposit.goal.place s.disk.here) = some c.deposit.bytes
  source : t.disk.readBytes c.file.path = .ok c.deposit.bytes
  behind : t.assetSource ("/" ++ t.pipeline.assetDir ++ url) none = .ok (some c.file.path) ↔
    t.ComesFirst (Pipeline.dropLeadingSlashes url) c.file.path
  same : (stripSlashes t.pipeline.assetDir ≠ "" →
      below? (stripSlashes t.pipeline.assetDir) (Pipeline.dropLeadingSlashes url) = none) →
    t.assetSource url none = t.assetSource ("/" ++ t.pipeline.assetDir ++ url) none
  entry : (c.destination, c.source) ∈ staticPairs t.pipeline
  leads : t.pipeline.sourceOf? (Pipeline.dropLeadingSlashes c.url) (c.destination, c.source) =
      some c.file.path ↔ c.destination.toList.head? ≠ some '/' ∧
        (t.pipeline.root.join c.source).join c.file.rel = c.file.path

/-- The last of some copies at a place decides what it holds. -/
theorem replay_copies_eq (before : List Static.Filed) {c : Static.Filed} {after : List Static.Filed}
    (hafter : ∀ d ∈ after, d.deposit.goal.place here ≠ c.deposit.goal.place here) :
    Disk.replay here held ((before ++ c :: after).map Static.Filed.write)
      (c.deposit.goal.place here) = some c.deposit.bytes := by
  have hsplit : (before ++ c :: after).map Static.Filed.write =
      (before.map Static.Filed.write ++ [c.write]) ++ after.map Static.Filed.write := by simp
  rw [hsplit, Disk.replay_append, Disk.replay_of_untouched, Disk.replay_concat]
  · exact Disk.Write.apply_goal here _ c.write
  · intro w hw
    obtain ⟨d, hd, rfl⟩ := List.mem_map.1 hw
    exact ⟨hafter d hd, fun htext ↦ nomatch htext⟩

theorem isTraced_of_shelved {s t : Site} {before after : List Static.Filed} {c : Static.Filed}
    (h : t.Framed s.pipeline (Shelved s.pipeline s.disk.here held (before ++ c :: after)))
    (hapart : ∀ d ∈ before ++ c :: after,
      d.deposit.goal.place s.disk.here ≠ c.file.path.place s.disk.here)
    (hafter : ∀ d ∈ after, d.deposit.goal.place s.disk.here ≠ c.deposit.goal.place s.disk.here)
    {d : Static.Filed} (hd : d ∈ before ++ c :: after) : IsTraced s t d.url c := by
  have hmem : c ∈ before ++ c :: after := List.mem_append_right _ (List.mem_cons_self ..)
  have hc := h.store.filed c hmem
  have hread := h.store.kept c hmem hapart
  have hfile : t.isFile c.file.path = .ok true := by
    unfold Site.isFile
    rw [Disk.isFile_of_readBytes hread]
    rfl
  have hhead : d.url.toList.head? = some '/' := by
    rw [(h.store.filed d hd).url]
    unfold Pipeline.slashed
    rw [String.toList_append]
    rfl
  have hpairs : staticPairs t.pipeline = staticPairs s.pipeline := by
    unfold staticPairs
    rw [h.config]
  have hleads := hc.sourceOf?_eq_some_iff
  refine ⟨?_, hread, ?_, fun hout ↦ ?_, hpairs.symm ▸ hc.entry, ?_⟩
  · rw [h.store.bytes]
    exact replay_copies_eq before hafter
  · rw [assetSource_assetDir_append hhead]
    exact firstFile_candidates_iff hfile _
  · rw [assetSource_assetDir_append hhead, assetSource_of_outside hout]
  · have hroot : t.pipeline.sourceOf? = s.pipeline.sourceOf? := by
      unfold Pipeline.sourceOf?
      rw [h.root]
    rw [hroot, h.root]
    exact hleads

/-- Copying without fingerprints answers with the paths of copies. If they all went below the target and
their sources lie outside of it, each path is traced back to the last copy at its place as described. -/
theorem assetSource_exact {s t : Site} (hanchor : s.pipeline.root.anchor ≠ .none)
    (hroot : s.pipeline.root.IsProper) (hdisk : s.disk.IsProper)
    (hplain : s.pipeline.fingerprintsCopies = false) {skips : String → Bool}
    {urls : List String} (h : copyAll skips s = .ok urls t) :
    ∃ copies : List Static.Filed, fileAll skips s = .ok copies t ∧
      urls = copies.map Static.Filed.url ∧
      ((∀ c ∈ copies, Path.IsBelow s.targetPlace (c.deposit.goal.place s.disk.here)) →
        (∀ c ∈ copies, ¬Path.IsBelow s.targetPlace (c.file.path.place s.disk.here)) →
        ∀ before c after, copies = before ++ c :: after →
          (∀ d ∈ after, d.deposit.goal.place s.disk.here ≠ c.deposit.goal.place s.disk.here) →
          ∀ d ∈ copies, d.deposit.goal.place s.disk.here = c.deposit.goal.place s.disk.here →
            IsTraced s t d.url c) := by
  rw [copyAll_eq_fileAll, map_eq_pure_bind] at h
  obtain ⟨copies, u, hcopies, hurls⟩ := bind_eq_ok.1 h
  cases hurls
  have hstart : s.Framed s.pipeline (Shelved s.pipeline s.disk.here s.disk.bytesAt []) :=
    ⟨rfl, rfl, hdisk, rfl, List.forall_mem_nil _, List.forall_mem_nil _⟩
  have hshelved := (ensures_fileAll hanchor hroot hplain skips).ok hstart hcopies
  refine ⟨copies, hcopies, rfl, ?_⟩
  rintro hbelow hout before c after rfl hafter d hd _
  refine isTraced_of_shelved hshelved (fun d hd heq ↦ ?_) hafter hd
  refine hout c (List.mem_append_right _ (List.mem_cons_self ..)) ?_
  rw [← heq]
  exact hbelow d hd

/-- A site that publishes what one source stands for. -/
def kiosk (source : String) : Site :=
  let site := porch "a.txt"
  { site with
    pipeline := { site.pipeline with
      config := { site.pipeline.config with staticFiles := [("", [source])] } } }

/-- A source that is itself a file is published but not found again. -/
theorem kiosk_source_lost :
    ∃ t, copyAll (fun _ ↦ false) (kiosk "static/a.txt") = .ok ["/a.txt"] t ∧
      t.disk.readText (.absolute ["public", "assets", "a.txt"]) = .ok "S" ∧
      ¬Path.IsBelow (kiosk "static/a.txt").targetPlace ["static", "a.txt"] ∧
      t.assetSource "/a.txt" none = .ok none ∧ t.assetSource "/assets/a.txt" none = .ok none :=
  ⟨_, eq_ok_of_result? (by decide +kernel), eq_ok_of_toOption (by decide +kernel), by decide,
    eq_ok_of_toOption (by decide +kernel), eq_ok_of_toOption (by decide +kernel)⟩

/-- Below a folder it is found. -/
theorem kiosk_source_found : ∃ t, copyAll (fun _ ↦ false) (kiosk "static") = .ok ["/a.txt"] t ∧
    t.assetSource "/a.txt" none = .ok (some (.absolute ["static", "a.txt"])) ∧
    t.assetSource "/assets/a.txt" none = .ok (some (.absolute ["static", "a.txt"])) := by
  have hroot : (kiosk "static").pipeline.root.IsProper := List.forall_mem_nil _
  have hdisk : (kiosk "static").disk.IsProper :=
    ⟨List.forall_mem_nil _, (by decide : (kiosk "static").disk.top.IsProper)⟩
  have hplaces : (result? (fileAll (fun _ ↦ false) (kiosk "static"))).map (List.map fun c ↦
      (c.deposit.goal, c.file.path)) =
      some [(.absolute ["public", "assets", "a.txt"], .absolute ["static", "a.txt"])] := by
    decide +kernel
  have hrun : copyAll (fun _ ↦ false) (kiosk "static") = .ok ["/a.txt"]
      (finalState (copyAll (fun _ ↦ false) (kiosk "static"))) :=
    eq_ok_of_result? (by decide +kernel)
  obtain ⟨copies, hcopies, hurls, htraced⟩ := assetSource_exact
    (by decide : (kiosk "static").pipeline.root.anchor ≠ .none) hroot hdisk (by decide) hrun
  rw [hcopies] at hplaces
  obtain ⟨c, rfl, hc⟩ := List.map_eq_singleton_iff.1 (Option.some.inj hplaces)
  obtain ⟨hgoal, hpath⟩ := Prod.mk.inj hc
  have hurl : c.url = "/a.txt" := (List.singleton_inj.1 hurls).symm
  have hbelow : Path.IsBelow (kiosk "static").targetPlace
      ((Path.absolute ["public", "assets", "a.txt"]).place []) := by decide
  have hout : ¬Path.IsBelow (kiosk "static").targetPlace ((Path.absolute ["static", "a.txt"]).place []) := by
    decide
  have hone := htraced (List.forall_mem_singleton.2 (hgoal ▸ hbelow))
    (List.forall_mem_singleton.2 (hpath ▸ hout)) [] c [] rfl (List.forall_mem_nil _) c
    (List.mem_singleton_self c) rfl
  generalize hafter : finalState (copyAll (fun _ ↦ false) (kiosk "static")) = t at *
  have hpairs : staticPairs t.pipeline = [("", "static")] := by
    rw [← hafter]
    decide +kernel
  have hleads : t.pipeline.sourceOf? "a.txt" ("", "static") =
      some (.absolute ["static", "a.txt"]) := by
    rw [← hafter]
    decide +kernel
  have hdir : t.pipeline.assetDir = "assets" := by
    rw [← hafter]
    decide +kernel
  have hfirst : t.ComesFirst "a.txt" (.absolute ["static", "a.txt"]) :=
    ⟨[], ("", "static"), [], hpairs, hleads, List.forall_mem_nil _⟩
  have hrel : Pipeline.dropLeadingSlashes "/a.txt" = "a.txt" := by decide
  obtain ⟨-, -, hbehind, hsame, -, -⟩ := hone
  rw [hurl, hrel, hpath, hdir] at hbehind
  rw [hurl, hrel, hdir] at hsame
  have hfound := hbehind.2 hfirst
  exact ⟨t, hrun, (hsame fun _ ↦ by decide).trans hfound, hfound⟩

end Site

end AssetBundler
