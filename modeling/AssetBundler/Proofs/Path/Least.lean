import AssetBundler.Proofs.Path.Descent
import AssetBundler.Proofs.Text.Lowercase
import Mathlib.Data.Prod.Lex
import Mathlib.Order.Bounds.Basic
import Mathlib.Order.WellFounded

/-!
# The least candidate

The candidates of a search are numbered by the position of their folder and the position of their ending,
folders first. What a search answers is decided by the least number whose candidate exists
(`SearchPath.resolve_least`): the search finds nothing exactly if there is no such number, else that
candidate or the index file it stands for. A name without double dots is then looked up in the folder of
that candidate and in those before it alone. All this is about trees without symbolic links, which a disk
does not have here: a link in the winning folder could lead out of it.
-/

namespace AssetBundler

open AssetBundler.Action AssetBundler.Path

namespace SearchPath

variable {s : SearchPath} {d e : Disk} {here : List String} {roots : List Path}
  {exts preferred : List String} {name : String} {index : Bool} {root p q : Path} {x y : String}

theorem head_of_mem_tried (h : x ∈ tried preferred exts) : x.toList.head? = some '.' := by
  obtain ⟨ext, -, rfl⟩ := List.mem_map.1 h
  exact head_normalizeExtension ext

/-- A relative name with an ending is relative. -/
theorem head_append_of_relative (hname : isAbsolute name = false) (hx : x ∈ "" :: tried preferred exts) :
    (name ++ x).toList.head? ≠ some '/' := by
  rw [String.toList_append]
  cases hchars : name.toList with
  | nil =>
    rcases List.mem_cons.1 hx with rfl | hx
    · decide
    · rw [List.nil_append, head_of_mem_tried hx]
      decide
  | cons c cs =>
    intro hslash
    have hc : c = '/' := Option.some.inj hslash
    unfold isAbsolute at hname
    rw [hchars, hc] at hname
    rcases cs with _ | ⟨c, _ | ⟨d, cs⟩⟩ <;> cases hname

theorem exists_standsFor (d : Disk) (exts : List String) (index : Bool) (p : Path) :
    ∃ q, StandsFor d exts index p q := by
  by_cases hself : index = false ∨ ¬d.HoldsFolder p
  · exact ⟨p, .itself hself⟩
  · rw [not_or, not_not, Bool.not_eq_false] at hself
    by_cases hindex : ∃ x ∈ exts, d.HoldsFile (p.join ("index" ++ x))
    · obtain ⟨x, hx⟩ := exists_isFirst hindex
      exact ⟨_, .indexFile hself.1 hself.2 hx⟩
    · exact ⟨p, .folder hself.2 fun x hx hfile ↦ hindex ⟨x, hx, hfile⟩⟩

theorem StandsFor.anchor_eq (h : StandsFor d exts index p q) : q.anchor = p.anchor := by
  cases h with
  | itself | folder => rfl
  | indexFile => rw [join_index]

/-- The disk answers whatever a search below a folder asks. -/
structure AnswersBelow (d : Disk) (exts : List String) (name : String) (root : Path) : Prop where
  candidates : ∀ x ∈ "" :: exts, d.Answers (root.join (name ++ x))
  index : ∀ x ∈ "" :: exts, ∀ y ∈ exts, d.Answers ((root.join (name ++ x)).join ("index" ++ y))

section Answers

variable (hfind : ∀ test : String → Bool, (s.order preferred).find? test = exts.find? test)
  (h : ∀ root ∈ roots, AnswersBelow d exts name root)

include hfind h

theorem resolveInRoots_eq_none_iff (index : Bool) :
    s.resolveInRoots d name preferred index roots = .ok none ↔
      ∀ root ∈ roots, ∀ x ∈ "" :: exts, ¬d.Exists (root.join (name ++ x)) := by
  rw [resolveInRoots_eq_none]
  exact forall₂_congr fun root hroot ↦ resolveIn_eq_none_iff hfind (h root hroot).candidates

/-- Behind folders without a candidate, the first candidate of a folder decides. -/
theorem resolveInRoots_of_isFirst {front back : List Path} (hroots : roots = front ++ root :: back)
    (hfront : ∀ r ∈ front, ∀ x ∈ "" :: exts, ¬d.Exists (r.join (name ++ x)))
    (hx : IsFirst (fun x ↦ d.Exists (root.join (name ++ x))) ("" :: exts) x)
    (hq : StandsFor d exts index (root.join (name ++ x)) q) :
    s.resolveInRoots d name preferred index roots = .ok (some (d.resolve q)) := by
  rw [hroots, List.forall_mem_append, List.forall_mem_cons] at h
  rw [hroots, resolveInRoots_append fun r hr ↦
    (resolveIn_eq_none_iff hfind (h.1 r hr).candidates).2 (hfront r hr)]
  have hin : s.resolveIn d root name preferred index = .ok (some (d.resolve q)) := by
    rw [resolveIn_eq_some_iff hfind h.2.1.candidates h.2.1.index]
    exact ⟨x, q, hx, hq, rfl⟩
  rw [resolveInRoots_cons_of_ne_none (by rw [hin]; exact nofun), hin]

end Answers

/-- No name is too long that a search can ask about. -/
structure IsWithinLimits (s : SearchPath) (exts : List String) (name : String) : Prop where
  roots : ∀ root ∈ s.roots, ∀ n ∈ root.names, Disk.isTooLong n = false
  names : ∀ x ∈ "" :: exts, ∀ n ∈ namesOf (name ++ x), Disk.isTooLong n = false
  indexNames : ∀ x ∈ exts, ∀ n ∈ namesOf ("index" ++ x), Disk.isTooLong n = false

theorem join_candidate (root : Path) (hname : isAbsolute name = false) (hx : x ∈ "" :: tried preferred exts) :
    root.join (name ++ x) = ⟨root.anchor, root.names ++ namesOf (name ++ x)⟩ :=
  join_of_head (head_append_of_relative hname hx)

theorem IsWithinLimits.answersBelow (hlimits : s.IsWithinLimits (tried preferred exts) name)
    (hname : isAbsolute name = false) (d : Disk) :
    ∀ root ∈ s.roots, AnswersBelow d (tried preferred exts) name root := by
  intro root hroot
  have hshort : ∀ x ∈ "" :: tried preferred exts, ∀ n ∈ (root.join (name ++ x)).names,
      Disk.isTooLong n = false := by
    intro x hx
    rw [join_candidate _ hname hx]
    exact List.forall_mem_append.2 ⟨hlimits.roots root hroot, hlimits.names x hx⟩
  refine ⟨fun x hx ↦ Disk.answers_of_short (hshort x hx), fun x hx y hy ↦ Disk.answers_of_short ?_⟩
  rw [join_index]
  exact List.forall_mem_append.2 ⟨hshort x hx, hlimits.indexNames y hy⟩

/-- The candidate with a number: the position of a folder, then that of an ending. -/
def candidateAt (roots : List Path) (endings : List String) (name : String) (k : ℕ ×ₗ ℕ) : Option Path := do
  return (← roots[(ofLex k).1]?).join (name ++ (← endings[(ofLex k).2]?))

/-- The numbers of the candidates that exist. -/
def hits (d : Disk) (roots : List Path) (endings : List String) (name : String) : Set (ℕ ×ₗ ℕ) :=
  {k | ∃ p, candidateAt roots endings name k = some p ∧ d.Exists p}

variable {endings : List String} {k : ℕ ×ₗ ℕ}

theorem candidateAt_eq_some : candidateAt roots endings name k = some p ↔
    ∃ root x, roots[(ofLex k).1]? = some root ∧ endings[(ofLex k).2]? = some x ∧
      p = root.join (name ++ x) := by
  unfold candidateAt
  cases roots[(ofLex k).1]? <;> cases endings[(ofLex k).2]? <;> simp [eq_comm]

theorem mem_hits {i j : ℕ} (hroot : roots[i]? = some root) (hx : endings[j]? = some x)
    (h : d.Exists (root.join (name ++ x))) : toLex (i, j) ∈ hits d roots endings name :=
  ⟨_, candidateAt_eq_some.2 ⟨root, x, hroot, hx, rfl⟩, h⟩

theorem exists_isLeast_hits (h : ∃ root ∈ roots, ∃ x ∈ endings, d.Exists (root.join (name ++ x))) :
    ∃ k, IsLeast (hits d roots endings name) k := by
  obtain ⟨root, hroot, x, hx, hexists⟩ := h
  obtain ⟨i, hi⟩ := List.mem_iff_getElem?.1 hroot
  obtain ⟨j, hj⟩ := List.mem_iff_getElem?.1 hx
  obtain ⟨k, hk, hleast⟩ := wellFounded_lt.has_min (hits d roots endings name) ⟨_, mem_hits hi hj hexists⟩
  exact ⟨k, hk, fun l hl ↦ not_lt.1 (hleast l hl)⟩

theorem eq_take_append_cons_drop {α : Type} {xs : List α} {i : ℕ} {a : α} (h : xs[i]? = some a) :
    xs = xs.take i ++ a :: xs.drop (i + 1) := by
  obtain ⟨hi, rfl⟩ := List.getElem?_eq_some_iff.1 h
  rw [← List.drop_eq_getElem_cons hi, List.take_append_drop]

theorem exists_getElem?_of_mem_take {α : Type} {xs : List α} {i : ℕ} {a : α} (h : a ∈ xs.take i) :
    ∃ j < i, xs[j]? = some a := by
  obtain ⟨j, hj, rfl⟩ := List.mem_take_iff_getElem.1 h
  exact ⟨j, by omega, List.getElem?_eq_getElem (by omega)⟩

/-- The folder of the least number is the first one with a candidate, and its ending the first one there. -/
theorem exists_of_isLeast_hits (h : IsLeast (hits d roots endings name) k) : ∃ root x,
    candidateAt roots endings name k = some (root.join (name ++ x)) ∧ roots[(ofLex k).1]? = some root ∧
    (∀ r ∈ roots.take (ofLex k).1, ∀ y ∈ endings, ¬d.Exists (r.join (name ++ y))) ∧
    IsFirst (fun y ↦ d.Exists (root.join (name ++ y))) endings x := by
  obtain ⟨⟨p, hp, hexists⟩, hleast⟩ := h
  obtain ⟨root, x, hroot, hx, rfl⟩ := candidateAt_eq_some.1 hp
  have hbefore : ∀ {i j r y}, roots[i]? = some r → endings[j]? = some y → toLex (i, j) < k →
      ¬d.Exists (r.join (name ++ y)) :=
    fun hr hy hlt hfound ↦ (hleast (mem_hits hr hy hfound)).not_gt hlt
  refine ⟨root, x, hp, hroot, fun r hr y hy ↦ ?_,
    endings.take (ofLex k).2, endings.drop ((ofLex k).2 + 1), eq_take_append_cons_drop hx,
    fun y hy ↦ ?_, hexists⟩
  · obtain ⟨i, hi, hri⟩ := exists_getElem?_of_mem_take hr
    obtain ⟨j, hyj⟩ := List.mem_iff_getElem?.1 hy
    exact hbefore hri hyj (Prod.Lex.lt_iff.2 (.inl hi))
  · obtain ⟨j, hj, hyj⟩ := exists_getElem?_of_mem_take hy
    exact hbefore hroot hyj (Prod.Lex.lt_iff.2 (.inr ⟨rfl, hj⟩))

/-- Neither a name with an ending nor the name of an index file spells a double dot, apart from one at the
seam of the two. -/
structure StaysBelow (exts : List String) (name : String) : Prop where
  name : ".." ∉ namesOf name
  index : ∀ x ∈ exts, ".." ∉ namesOf ("index" ++ x)

section Frame

variable (hname : isAbsolute name = false) (hlimits : s.IsWithinLimits (tried preferred exts) name)
  (hstays : StaysBelow (tried preferred exts) name) (hdirect : root.IsDirect)

include hname hlimits hdirect in
theorem isDirect_candidate (hx : x ∈ "" :: tried preferred exts) (hup : ".." ∉ namesOf (name ++ x)) :
    (root.join (name ++ x)).IsDirect := by
  rw [join_candidate root hname hx]
  refine ⟨hdirect.anchored, ?_, List.forall_mem_append.2 ⟨hdirect.short, hlimits.names x hx⟩⟩
  rw [List.mem_append, not_or]
  exact ⟨hdirect.no_up, hup⟩

include hname hstays in
/-- A candidate that turns upwards exists only where the name alone leads somewhere. -/
theorem exists_name_of_up (hx : x ∈ "" :: tried preferred exts) (hup : ".." ∈ namesOf (name ++ x))
    (h : d.Exists (root.join (name ++ x))) : d.Exists (root.join (name ++ "")) := by
  rcases List.mem_cons.1 hx with rfl | hmem
  · exact h
  · have hliteral := join_candidate root hname (List.mem_cons_self : "" ∈ "" :: tried preferred exts)
    obtain ⟨more, hmore⟩ := namesOf_prefix_of_up hstays.name (hstays.index x hmem) hup
    rw [join_candidate root hname hx, ← hmore, ← List.append_assoc] at h
    rw [hliteral, String.append_empty]
    exact Disk.exists_of_exists_append h

variable (hagree : Disk.AgreesBelow root d e)

include hname hlimits hdirect hagree in
theorem exists_candidate_iff (hx : x ∈ "" :: tried preferred exts) (hup : ".." ∉ namesOf (name ++ x)) :
    e.Exists (root.join (name ++ x)) ↔ d.Exists (root.join (name ++ x)) := by
  refine hagree.exists_iff ?_ (isDirect_candidate hname hlimits hdirect hx hup)
  rw [join_candidate root hname hx]
  exact List.prefix_append ..

include hname hlimits hstays hdirect hagree

/-- Where the other disk has a candidate, this one has it too or has what the name alone leads to. -/
theorem exists_or_exists_name (hx : x ∈ "" :: tried preferred exts)
    (h : e.Exists (root.join (name ++ x))) :
    d.Exists (root.join (name ++ x)) ∨ d.Exists (root.join (name ++ "")) := by
  by_cases hup : ".." ∈ namesOf (name ++ x)
  · have hplain : ".." ∉ namesOf (name ++ "") := by
      rw [String.append_empty]
      exact hstays.name
    have hliteral := exists_name_of_up hname hstays hx hup h
    exact .inr ((exists_candidate_iff hname hlimits hdirect hagree List.mem_cons_self hplain).1 hliteral)
  · exact .inl ((exists_candidate_iff hname hlimits hdirect hagree hx hup).1 h)

omit hlimits hdirect hagree in
/-- The first candidate goes straight down. -/
theorem not_mem_of_isFirst
    (hx : IsFirst (fun x ↦ d.Exists (root.join (name ++ x))) ("" :: tried preferred exts) x) :
    ".." ∉ namesOf (name ++ x) := by
  intro hup
  rcases hx.eq_head_or with rfl | hnot
  · rw [String.append_empty] at hup
    exact hstays.name hup
  · exact hnot (exists_name_of_up hname hstays hx.mem hup hx.holds)

theorem isFirst_of_agreesBelow
    (hx : IsFirst (fun x ↦ d.Exists (root.join (name ++ x))) ("" :: tried preferred exts) x) :
    IsFirst (fun x ↦ e.Exists (root.join (name ++ x))) ("" :: tried preferred exts) x := by
  have hup := not_mem_of_isFirst hname hstays hx
  refine hx.of_head (fun y hy hfound ↦ ?_) ?_
  · exact exists_or_exists_name hname hlimits hstays hdirect hagree hy hfound
  · exact (exists_candidate_iff hname hlimits hdirect hagree hx.mem hup).2 hx.holds

theorem standsFor_of_agreesBelow
    (hx : IsFirst (fun x ↦ d.Exists (root.join (name ++ x))) ("" :: tried preferred exts) x)
    (hq : StandsFor d (tried preferred exts) index (root.join (name ++ x)) q) :
    StandsFor e (tried preferred exts) index (root.join (name ++ x)) q := by
  have hup := not_mem_of_isFirst hname hstays hx
  have hp := isDirect_candidate hname hlimits hdirect hx.mem hup
  have hbelow : root.names <+: (root.join (name ++ x)).names := by
    rw [join_candidate root hname hx.mem]
    exact List.prefix_append ..
  have hfolder := hagree.holdsFolder_iff hbelow hp
  have hfile : ∀ y ∈ tried preferred exts, e.HoldsFile ((root.join (name ++ x)).join ("index" ++ y)) ↔
      d.HoldsFile ((root.join (name ++ x)).join ("index" ++ y)) := by
    intro y hy
    have hjoin := join_index (root.join (name ++ x)) y
    apply hagree.holdsFile_iff
    · rw [hjoin]
      exact hbelow.trans (List.prefix_append ..)
    · rw [hjoin]
      refine ⟨hp.anchored, ?_, List.forall_mem_append.2 ⟨hp.short, hlimits.indexNames y hy⟩⟩
      rw [List.mem_append, not_or]
      exact ⟨hp.no_up, hstays.index y hy⟩
  cases hq with
  | itself hself => exact .itself (hself.imp_right fun hnot ↦ mt hfolder.1 hnot)
  | folder hholds hnone => exact .folder (hfolder.2 hholds) fun y hy ↦ mt (hfile y hy).1 (hnone y hy)
  | indexFile hindex hholds hy => exact .indexFile hindex (hfolder.2 hholds) (hy.congr hfile)

end Frame

/-! ## Lookups -/

theorem isDirect_root (hs : s = create here roots exts) (hhere : ".." ∉ here)
    (hlimits : s.IsWithinLimits endings name) (hroot : root ∈ s.roots) : root.IsDirect := by
  have hshort := hlimits.roots root hroot
  rw [hs] at hroot
  obtain ⟨r, -, rfl⟩ := List.mem_map.1 hroot
  refine ⟨Anchor.noConfusion, fun hup ↦ ?_, hshort⟩
  rcases mem_follow hup with hstart | ⟨-, hne⟩
  · by_cases hanchor : r.anchor = .none
    · rw [if_pos hanchor] at hstart
      exact hhere hstart
    · rw [if_neg hanchor] at hstart
      cases hstart
  · exact hne rfl

/-- The canonical form of an anchored path is the same from everywhere. -/
theorem resolve_congr_here (h : p.anchor ≠ .none) (d e : Disk) : e.resolve p = d.resolve p := by
  unfold Disk.resolve Path.resolve place
  rw [if_neg h, if_neg h]

/-- A relative name is looked up at the least number whose candidate exists. Nothing is found without such a
number; otherwise it is found what that candidate stands for, and for a name that stays below the folders
whatever the disk holds elsewhere. -/
theorem resolve_least (hs : s = create here roots exts) (hhere : ".." ∉ here)
    (hname : isAbsolute name = false) (hlimits : s.IsWithinLimits (tried preferred exts) name) :
    (s.resolve d name preferred index = .ok none ↔
      ∀ root ∈ s.roots, ∀ x ∈ "" :: tried preferred exts, ¬d.Exists (root.join (name ++ x))) ∧
    (s.resolve d name preferred index ≠ .ok none →
      ∃ k p q, IsLeast (hits d s.roots ("" :: tried preferred exts) name) k ∧
        candidateAt s.roots ("" :: tried preferred exts) name k = some p ∧
        StandsFor d (tried preferred exts) index p q ∧
        s.resolve d name preferred index = .ok (some (d.resolve q)) ∧
        ∀ e : Disk, StaysBelow (tried preferred exts) name →
          (∀ root ∈ s.roots.take ((ofLex k).1 + 1), Disk.AgreesBelow root d e) →
          s.resolve e name preferred index = .ok (some (d.resolve q))) := by
  have hfind : ∀ test : String → Bool, (s.order preferred).find? test =
      (tried preferred exts).find? test := fun test ↦ hs ▸ find?_order test here roots exts preferred
  have hresolve : ∀ d, s.resolve d name preferred index = s.resolveInRoots d name preferred index s.roots :=
    fun d ↦ resolve_of_relative hname
  have hanswers := hlimits.answersBelow hname
  have hnone := fun d ↦ resolveInRoots_eq_none_iff hfind (hanswers d) index
  rw [hresolve, hnone]
  refine ⟨Iff.rfl, fun hsome ↦ ?_⟩
  have hexists : ∃ root ∈ s.roots, ∃ x ∈ "" :: tried preferred exts, d.Exists (root.join (name ++ x)) := by
    by_contra hno
    exact hsome ((hnone d).2 fun root hroot x hx hfound ↦ hno ⟨root, hroot, x, hx, hfound⟩)
  obtain ⟨k, hk⟩ := exists_isLeast_hits hexists
  obtain ⟨root, x, hp, hroot, hfront, hx⟩ := exists_of_isLeast_hits hk
  obtain ⟨q, hq⟩ := exists_standsFor d (tried preferred exts) index (root.join (name ++ x))
  have hsplit := eq_take_append_cons_drop hroot
  have hmem : root ∈ s.roots := List.mem_of_getElem? hroot
  have hfound := resolveInRoots_of_isFirst hfind (hanswers d) hsplit hfront hx hq
  refine ⟨k, _, q, hk, hp, hq, hfound, fun e hstays hagree ↦ ?_⟩
  have htake : s.roots.take ((ofLex k).1 + 1) = s.roots.take (ofLex k).1 ++ [root] := by
    rw [List.take_add_one, hroot, Option.toList_some]
  rw [htake, List.forall_mem_append, List.forall_mem_singleton] at hagree
  have hdirect : ∀ r ∈ s.roots, r.IsDirect := fun r hr ↦ isDirect_root hs hhere hlimits hr
  have hanchor : q.anchor ≠ .none := by
    rw [hq.anchor_eq, join_candidate root hname hx.mem]
    exact (hdirect root hmem).anchored
  rw [hresolve, ← resolve_congr_here hanchor d e]
  refine resolveInRoots_of_isFirst hfind (hanswers e) hsplit (fun r hr y hy hother ↦ ?_)
    (isFirst_of_agreesBelow hname hlimits hstays (hdirect root hmem) hagree.2 hx)
    (standsFor_of_agreesBelow hname hlimits hstays (hdirect root hmem) hagree.2 hx hq)
  have hr' : r.IsDirect := hdirect r (List.mem_of_mem_take hr)
  rcases exists_or_exists_name hname hlimits hstays hr' (hagree.1 r hr) hy hother with hother | hother
  · exact hfront r hr y hy hother
  · exact hfront r hr "" List.mem_cons_self hother

/-- Three search roots, of which the second holds a folder with an index file. -/
def shelf (aside : Node.Entries) : Disk where
  top := .folder 1 [("site", .folder 1 [("vendor", .folder 1 []),
    ("src", .folder 1 [("lib", .folder 1 [("index.js", .file "L();\n".toUTF8 1)])]),
    ("old", .folder 1 aside)])]
  here := ["site"]
  now := 1

theorem resolve_least_shelf :
    let s := create ["site"] [.ofText "vendor", .ofText "src", .ofText "old"] ["JS", ".css", "js"]
    let found := Path.absolute ["site", "src", "lib", "index.js"]
    ".." ∉ ["site"] ∧ isAbsolute "lib" = false ∧ s.IsWithinLimits (tried ["Css"] ["JS", ".css", "js"]) "lib" ∧
    s.resolve (shelf [("lib.css", .file "l".toUTF8 1)]) "lib" ["Css"] true = .ok (some found) ∧
    s.resolve (shelf []) "lib" ["Css"] true = .ok (some found) := by
  intro s found
  have hlimits : s.IsWithinLimits (tried ["Css"] ["JS", ".css", "js"]) "lib" :=
    ⟨by decide +kernel, by decide +kernel, by decide +kernel⟩
  have hfound : s.resolve (shelf []) "lib" ["Css"] true = .ok (some found) :=
    eq_ok_of_toOption (by decide +kernel)
  have hsome : s.resolve (shelf []) "lib" ["Css"] true ≠ .ok none := by
    rw [hfound]
    exact nofun
  obtain ⟨k, p, q, hk, -, -, hq, hother⟩ := (resolve_least rfl (by decide) (by decide) hlimits).2 hsome
  have hexists : (shelf []).Exists ((Path.absolute ["site", "src"]).join ("lib" ++ "")) :=
    Disk.exists_of_exists? (eq_ok_of_toOption (by decide +kernel))
  have hfirst : (ofLex k).1 ≤ 1 := by
    have hle : k ≤ toLex (1, 0) := hk.2 (mem_hits rfl rfl hexists)
    rcases Prod.Lex.le_iff.1 hle with hlt | ⟨heq, -⟩
    · exact le_of_lt hlt
    · exact le_of_eq heq
  refine ⟨by decide, by decide, hlimits, ?_, hfound⟩
  rw [← hfound, hq]
  refine hother _ ⟨by decide, by decide +kernel⟩ fun root hroot place hplace ↦ ?_
  have hroot' : root ∈ s.roots.take 2 := (List.take_subset_take_left _ (by omega)) hroot
  have hroots : s.roots.take 2 = [.absolute ["site", "vendor"], .absolute ["site", "src"]] := by decide
  obtain ⟨rest, rfl⟩ := hplace
  rw [hroots, List.mem_cons, List.mem_singleton] at hroot'
  rcases hroot' with rfl | rfl <;> rfl

/-- A search root that holds a script, and a folder named like an ending up to its first slash. -/
def ledge (aside : Node.Entries) : Disk where
  top := .folder 1 (("src", .folder 1 [("lib.a", .folder 1 []), ("lib.js", .file "L();\n".toUTF8 1)]) :: aside)
  here := []
  now := 1

/-- An ending that turns upwards leads out of the search root, so what is found depends on what the disk holds
beside it. -/
theorem resolve_least_upwards :
    let s := create [] [.absolute ["src"]] ["a/../../out", "js"]
    let other := ledge [("out", .file "O".toUTF8 1)]
    isAbsolute "lib" = false ∧ ".." ∉ namesOf "lib" ∧ s.IsWithinLimits (tried [] ["a/../../out", "js"]) "lib" ∧
    (∀ root ∈ s.roots, Disk.AgreesBelow root (ledge []) other) ∧
    s.resolve (ledge []) "lib" [] true = .ok (some (.absolute ["src", "lib.js"])) ∧
    s.resolve other "lib" [] true = .ok (some (.absolute ["out"])) := by
  intro s other
  refine ⟨by decide, by decide, ⟨by decide +kernel, by decide +kernel, by decide +kernel⟩, ?_, ?_, ?_⟩
  · intro root hroot place hplace
    have hsrc : root = .absolute ["src"] := List.mem_singleton.1 hroot
    obtain ⟨rest, rfl⟩ := hsrc ▸ hplace
    rfl
  all_goals exact eq_ok_of_toOption (by decide +kernel)

end SearchPath

end AssetBundler
