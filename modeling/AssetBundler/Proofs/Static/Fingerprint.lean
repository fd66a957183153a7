import AssetBundler.Proofs.Static.Tracking
import AssetBundler.Proofs.Text.Extension
import Mathlib.Data.Set.Function

/-!
# Names with fingerprints

The digest of a static file stands between the stem of its name and the last suffix, which is put in lower
case. The last suffix of the name that is made is what the suffix became, so stem, digest and suffix can be
read off it, unless the name ends in a dot: such a name has no last suffix, and with a digest behind it a dot
within it begins one. Main statements: when two names with digests are the same
(`fingerprintedName_eq_iff`), and that files of different content are published under different names
(`Static.fingerprints_distinguish`).
-/

namespace AssetBundler

open AssetBundler.Action

section Suffix

variable {name : String} {front x : List Char}

/-- The name without its last suffix. -/
def lastStem (name : String) : String :=
  String.ofList (name.toList.take (name.length - (lastSuffix name).length))

theorem lastSuffix_append (hdot : '.' ∉ x) : lastSuffix (String.ofList (front ++ '.' :: x)) =
    if x = [] ∨ front = [] then "" else String.ofList ('.' :: x) := by
  have hlast : (front ++ '.' :: x).reverse.takeWhile (· ≠ '.') = x.reverse := by
    rw [List.reverse_append, List.reverse_cons, List.append_assoc, List.takeWhile_append_of_pos]
    · simp
    · intro c hc
      rw [decide_eq_true_eq]
      rintro rfl
      exact hdot (List.mem_reverse.1 hc)
  unfold lastSuffix
  rw [String.toList_ofList, hlast]
  simp only [List.isEmpty_reverse, List.isEmpty_iff, List.length_reverse, List.reverse_reverse,
    String.length_ofList, List.length_append, List.length_cons]
  refine if_congr (or_congr_right ?_) rfl rfl
  rw [← List.length_eq_zero_iff]
  omega

theorem lastSuffix_of_not_mem (h : '.' ∉ name.toList) : lastSuffix name = "" := by
  have hall : name.toList.reverse.takeWhile (· ≠ '.') = name.toList.reverse := by
    rw [List.takeWhile_eq_self_iff]
    intro c hc
    rw [decide_eq_true_eq]
    rintro rfl
    exact h (List.mem_reverse.1 hc)
  unfold lastSuffix
  simp only [hall, List.length_reverse, String.length_toList]
  exact if_pos (.inr (Nat.le_succ _))

theorem exists_last_dot (h : '.' ∈ name.toList) :
    ∃ front x, name = String.ofList (front ++ '.' :: x) ∧ '.' ∉ x := by
  obtain ⟨back, rest, hsplit, hback⟩ := List.eq_append_cons_of_mem (List.mem_reverse.2 h)
  refine ⟨rest.reverse, back.reverse, ?_, fun hmem ↦ hback (List.mem_reverse.1 hmem)⟩
  rw [← String.toList_inj, String.toList_ofList, ← List.reverse_inj, hsplit, List.reverse_append,
    List.reverse_cons, List.reverse_reverse, List.reverse_reverse, List.append_assoc, List.singleton_append]

/-- A name without a dot behind its first character has no last suffix. -/
theorem lastSuffix_of_not_mem_drop (h : '.' ∉ name.toList.drop 1) : lastSuffix name = "" := by
  by_cases hmem : '.' ∈ name.toList
  · obtain ⟨front, x, rfl, hdot⟩ := exists_last_dot hmem
    rw [String.toList_ofList] at h
    rcases front with _ | ⟨c, front⟩
    · exact (lastSuffix_append hdot).trans (if_pos (.inr rfl))
    · exact absurd (List.mem_append_right front List.mem_cons_self) h
  · exact lastSuffix_of_not_mem hmem

/-- What a name that does not end in a dot looks like. -/
theorem lastSuffix_cases (h : name.toList.getLast? ≠ some '.') :
    '.' ∉ name.toList.drop 1 ∨ ∃ front x, name = String.ofList (front ++ '.' :: x) ∧ front ≠ [] ∧
      x ≠ [] ∧ '.' ∉ x := by
  by_cases hmem : '.' ∈ name.toList
  · obtain ⟨front, x, rfl, hdot⟩ := exists_last_dot hmem
    rw [String.toList_ofList] at h ⊢
    have hx : x ≠ [] := by
      rintro rfl
      exact h List.getLast?_concat
    rcases front with _ | ⟨c, front⟩
    · exact .inl hdot
    · exact .inr ⟨_, _, rfl, List.cons_ne_nil _ _, hx, hdot⟩
  · exact .inl fun hdrop ↦ hmem (List.mem_of_mem_drop hdrop)

theorem lastStem_of_append (hfront : front ≠ []) (hx : x ≠ []) (hdot : '.' ∉ x) :
    lastStem (String.ofList (front ++ '.' :: x)) = String.ofList front := by
  unfold lastStem
  rw [lastSuffix_append hdot, if_neg (not_or.2 ⟨hx, hfront⟩), String.toList_ofList, String.length_ofList,
    String.length_ofList, List.length_append, Nat.add_sub_cancel, List.take_left]

theorem lastStem_of_lastSuffix (h : lastSuffix name = "") : lastStem name = name := by
  unfold lastStem
  rw [h, String.length_empty, Nat.sub_zero, ← String.length_toList, List.take_length, String.ofList_toList]

end Suffix

/-- The last name of a path, with a digest. -/
def hashedName (name digest : String) : String :=
  lastStem name ++ "-" ++ digest ++ Text.lower (lastSuffix name)

theorem exists_lower_suffix {x : List Char} (hx : x ≠ []) (hdot : '.' ∉ x) :
    ∃ y, Text.lower (String.ofList ('.' :: x)) = String.ofList ('.' :: y) ∧ y ≠ [] ∧ '.' ∉ y := by
  have hstart : Text.lowerAfter [] ('.' :: x) = '.' :: Text.lowerAfter ['.'] x := by
    rw [Text.lowerAfter, if_neg (by decide), if_neg (by decide), (Text.lowerSimple_eq_dot_iff '.').2 rfl]
    rfl
  refine ⟨Text.lowerAfter ['.'] x, ?_, ?_, fun hmem ↦ ?_⟩
  · unfold Text.lower
    rw [String.toList_ofList, hstart]
  · obtain ⟨c, x, rfl⟩ := List.exists_cons_of_ne_nil hx
    rcases Text.lowerAfter_cons ['.'] c x with ⟨d, -, heq⟩ | heq <;> rw [heq] <;> exact List.cons_ne_nil _ _
  · exact hdot ((Text.mem_lowerAfter_iff (by decide) (by decide)).1 hmem)

variable {name other digest digest' : String}

/-- With a digest in it a name ends in its last suffix, in lower case, and that is the last suffix of it. -/
theorem lastSuffix_hashedName (hname : name.toList.getLast? ≠ some '.') (hdigest : IsDigest digest) :
    lastSuffix (hashedName name digest) = Text.lower (lastSuffix name) := by
  have hrest : '.' ∉ '-' :: digest.toList := by
    rw [List.mem_cons, not_or]
    exact ⟨by decide, hdigest.not_mem.1⟩
  unfold hashedName
  rcases lastSuffix_cases hname with hnone | ⟨front, x, rfl, hfront, hx, hdot⟩
  · have hsuffix := lastSuffix_of_not_mem_drop hnone
    have hlow : Text.lower "" = "" := by decide
    rw [lastStem_of_lastSuffix hsuffix, hsuffix, hlow]
    refine lastSuffix_of_not_mem_drop fun hmem ↦ ?_
    rw [String.append_empty, String.append_assoc, String.toList_append, List.drop_append] at hmem
    rcases List.mem_append.1 hmem with hmem | hmem
    · exact hnone hmem
    · rw [String.toList_append] at hmem
      exact hrest (List.mem_of_mem_drop hmem)
  · obtain ⟨y, hlow, hy, hydot⟩ := exists_lower_suffix hx hdot
    rw [lastStem_of_append hfront hx hdot, lastSuffix_append hdot, if_neg (not_or.2 ⟨hx, hfront⟩), hlow]
    have hwhole : String.ofList front ++ "-" ++ digest ++ String.ofList ('.' :: y) =
        String.ofList ((front ++ '-' :: digest.toList) ++ '.' :: y) := by
      rw [← String.toList_inj]
      simp
    rw [hwhole, lastSuffix_append hydot, if_neg (not_or.2 ⟨hy, by simp⟩)]

/-- A name with a digest tells the stem, the digest and the last suffix in lower case. -/
theorem hashedName_eq_iff (hname : name.toList.getLast? ≠ some '.')
    (hother : other.toList.getLast? ≠ some '.') (hdigest : IsDigest digest) (hdigest' : IsDigest digest') :
    hashedName name digest = hashedName other digest' ↔ digest = digest' ∧ lastStem name = lastStem other ∧
      Text.lower (lastSuffix name) = Text.lower (lastSuffix other) := by
  constructor
  · intro h
    have hsuffix := congrArg lastSuffix h
    rw [lastSuffix_hashedName hname hdigest, lastSuffix_hashedName hother hdigest'] at hsuffix
    unfold hashedName at h
    rw [hsuffix, String.append_left_inj, ← String.toList_inj] at h
    simp only [String.toList_append] at h
    have hlength : digest.toList.length = digest'.toList.length := by
      rw [String.length_toList, String.length_toList, hdigest.length, hdigest'.length]
    obtain ⟨hstem, hsame⟩ := List.append_inj' h hlength
    exact ⟨String.toList_inj.1 hsame, String.toList_inj.1 (List.append_cancel_right hstem), hsuffix⟩
  · rintro ⟨rfl, hstem, hsuffix⟩
    unfold hashedName
    rw [hstem, hsuffix]

theorem fingerprintedName_eq_ite (rel digest : String) : fingerprintedName rel digest =
    if (Path.ofText rel).parent.text = "." then hashedName (Path.ofText rel).name digest
    else (Path.ofText rel).parent.text ++ "/" ++ hashedName (Path.ofText rel).name digest := rfl

theorem lastStem_append_lastSuffix (name : String) : lastStem name ++ lastSuffix name = name := by
  by_cases hmem : '.' ∈ name.toList
  · obtain ⟨front, x, rfl, hdot⟩ := exists_last_dot hmem
    by_cases hnone : x = [] ∨ front = []
    · have hsuffix := (lastSuffix_append hdot).trans (if_pos hnone)
      rw [lastStem_of_lastSuffix hsuffix, hsuffix, String.append_empty]
    · rw [not_or] at hnone
      rw [lastStem_of_append hnone.2 hnone.1 hdot, lastSuffix_append hdot, if_neg (not_or.2 hnone),
        String.ofList_append]
  · have hsuffix := lastSuffix_of_not_mem hmem
    rw [lastStem_of_lastSuffix hsuffix, hsuffix, String.append_empty]

theorem isName_hashedName (hname : '/' ∉ name.toList) (hdigest : IsDigest digest) :
    Path.IsName (hashedName name digest) := by
  have hdash : '-' ∈ (hashedName name digest).toList := by
    unfold hashedName
    simp
  refine ⟨?_, ?_, fun hslash ↦ ?_⟩
  · intro hempty
    rw [hempty] at hdash
    cases hdash
  · intro hdot
    rw [hdot] at hdash
    revert hdash
    decide
  · rw [← lastStem_append_lastSuffix name, String.toList_append, List.mem_append, not_or] at hname
    unfold hashedName at hslash
    simp only [String.toList_append, List.mem_append] at hslash
    rcases hslash with ((hstem | hdash) | hdigits) | hlow
    · exact hname.1 hstem
    · revert hdash
      decide
    · exact hdigest.not_mem.2 hdigits
    · exact hname.2 ((Text.mem_lower_iff (by decide) (by decide)).1 hlow)

/-- With a digest a path spells the folder that it lies in and the name with the digest. -/
theorem namesOf_fingerprintedName (rel : String) (hdigest : IsDigest digest) :
    Path.namesOf (fingerprintedName rel digest) =
      (Path.ofText rel).parent.names ++ [hashedName (Path.ofText rel).name digest] := by
  have hproper := Path.isProper_ofText rel
  have hname := Path.namesOf_of_isName (isName_hashedName hproper.no_slash_name hdigest)
  have hparent := Path.namesOf_text hproper.parent
  rw [fingerprintedName_eq_ite]
  split
  · next hdot =>
    rw [hdot] at hparent
    rw [hname, ← hparent]
    rfl
  · rw [Path.namesOf_append_slash, hname, hparent]

/-- When two relative paths, whose last names do not end in dots, are the same with digests. -/
theorem fingerprintedName_eq_iff {rel rel' : String} (hrel : rel.toList.head? ≠ some '/')
    (hrel' : rel'.toList.head? ≠ some '/') (hname : (Path.ofText rel).name.toList.getLast? ≠ some '.')
    (hname' : (Path.ofText rel').name.toList.getLast? ≠ some '.') (hdigest : IsDigest digest)
    (hdigest' : IsDigest digest') :
    fingerprintedName rel digest = fingerprintedName rel' digest' ↔
      digest = digest' ∧ (Path.ofText rel).parent = (Path.ofText rel').parent ∧
        lastStem (Path.ofText rel).name = lastStem (Path.ofText rel').name ∧
        Text.lower (lastSuffix (Path.ofText rel).name) = Text.lower (lastSuffix (Path.ofText rel').name) := by
  constructor
  · intro h
    have hnames := congrArg Path.namesOf h
    rw [namesOf_fingerprintedName rel hdigest, namesOf_fingerprintedName rel' hdigest'] at hnames
    obtain ⟨hparent, hlast⟩ := List.append_inj' hnames (by rw [List.length_singleton, List.length_singleton])
    obtain ⟨hsame, hparts⟩ := (hashedName_eq_iff hname hname' hdigest hdigest').1 (List.singleton_inj.1 hlast)
    refine ⟨hsame, ?_, hparts⟩
    have hanchor : (Path.ofText rel).anchor = (Path.ofText rel').anchor :=
      (Path.anchor_ofText_of_head hrel).trans (Path.anchor_ofText_of_head hrel').symm
    exact congrArg₂ Path.mk hanchor hparent
  · rintro ⟨rfl, hparent, hparts⟩
    rw [fingerprintedName_eq_ite, fingerprintedName_eq_ite, hparent,
      (hashedName_eq_iff hname hname' hdigest hdigest).2 ⟨rfl, hparts⟩]

namespace Static

/-- The last name of the path that a copy is made under ends in a dot. -/
def Copy.EndsInDot (c : Copy) : Prop := (Path.ofText c.source.rel).name.toList.getLast? = some '.'

/-- The path that a copy is published under, below its destination. -/
def Copy.filename (c : Copy) : String := fingerprintedName c.source.rel (Sha1.hex c.bytes)

variable {c d : Copy}

theorem Copy.namesOf_filename (c : Copy) : Path.namesOf c.filename =
    (Path.ofText c.source.rel).parent.names ++
      [hashedName (Path.ofText c.source.rel).name (Sha1.hex c.bytes)] :=
  namesOf_fingerprintedName _ (isDigest_hex _)

theorem Copy.namesOf_url (c : Copy) : Path.namesOf c.url =
    (Path.namesOf c.destination ++ (Path.ofText c.source.rel).parent.names) ++
      [hashedName (Path.ofText c.source.rel).name (Sha1.hex c.bytes)] := by
  have hnames := c.namesOf_filename
  unfold filename at hnames
  unfold url
  rw [Pipeline.namesOf_slashed, List.flatMap_cons, List.flatMap_cons, List.flatMap_nil, List.append_nil,
    hnames, List.append_assoc]

/-- The digest can be read off the last name. -/
theorem digest_eq_of_hashedName (hc : ¬c.EndsInDot) (hd : ¬d.EndsInDot)
    (h : hashedName (Path.ofText c.source.rel).name (Sha1.hex c.bytes) =
      hashedName (Path.ofText d.source.rel).name (Sha1.hex d.bytes)) :
    Sha1.hex c.bytes = Sha1.hex d.bytes :=
  ((hashedName_eq_iff hc hd (isDigest_hex _) (isDigest_hex _)).1 h).1

theorem digest_eq_of_filename (hc : ¬c.EndsInDot) (hd : ¬d.EndsInDot) (h : c.filename = d.filename) :
    Sha1.hex c.bytes = Sha1.hex d.bytes := by
  have hnames := congrArg Path.namesOf h
  rw [c.namesOf_filename, d.namesOf_filename] at hnames
  exact digest_eq_of_hashedName hc hd (eq_of_concat_eq hnames)

theorem digest_eq_of_url (hc : ¬c.EndsInDot) (hd : ¬d.EndsInDot) (h : c.url = d.url) :
    Sha1.hex c.bytes = Sha1.hex d.bytes := by
  have hnames := congrArg Path.namesOf h
  rw [c.namesOf_url, d.namesOf_url] at hnames
  exact digest_eq_of_hashedName hc hd (eq_of_concat_eq hnames)

/-- A name with a digest tells the digest, the folder, the stem and the last suffix in lower case, unless the
name ends in a dot. So where static files are published with their digests and no two of the contents have
one digest, files of different content have different names, below their destinations and as a whole. -/
theorem fingerprints_distinguish :
    (∀ rel rel' digest digest' : String, rel.toList.head? ≠ some '/' → rel'.toList.head? ≠ some '/' →
      (Path.ofText rel).name.toList.getLast? ≠ some '.' →
      (Path.ofText rel').name.toList.getLast? ≠ some '.' → IsDigest digest → IsDigest digest' →
      (fingerprintedName rel digest = fingerprintedName rel' digest' ↔
        digest = digest' ∧ (Path.ofText rel).parent = (Path.ofText rel').parent ∧
          lastStem (Path.ofText rel).name = lastStem (Path.ofText rel').name ∧
          Text.lower (lastSuffix (Path.ofText rel).name) =
            Text.lower (lastSuffix (Path.ofText rel').name))) ∧
    ∀ (skips : String → Bool) (s t : Site) (urls : List String),
      s.pipeline.fingerprintsCopies = true → Site.copyAll skips s = .ok urls t →
      ∃ copies, Site.copyAllBy Site.track skips s = .ok copies t ∧ urls = copies.map Copy.url ∧
        (Set.InjOn Sha1.hex {bytes | ∃ c ∈ copies, c.bytes = bytes} →
          ∀ c ∈ copies, ∀ d ∈ copies, ¬c.EndsInDot → ¬d.EndsInDot → c.bytes ≠ d.bytes →
            c.filename ≠ d.filename ∧ c.url ≠ d.url) := by
  refine ⟨fun rel rel' digest digest' hrel hrel' hname hname' hdigest hdigest' ↦
    fingerprintedName_eq_iff hrel hrel' hname hname' hdigest hdigest', fun skips s t urls hs h ↦ ?_⟩
  obtain ⟨copies, hcopies, hurls, -⟩ := Site.tracks_copyAll skips s t urls hs h
  refine ⟨copies, hcopies, hurls, fun hinj c hc d hd hcdot hddot hne ↦ ?_⟩
  have hdigest : Sha1.hex c.bytes ≠ Sha1.hex d.bytes := fun heq ↦
    hne (hinj ⟨c, hc, rfl⟩ ⟨d, hd, rfl⟩ heq)
  exact ⟨fun heq ↦ hdigest (digest_eq_of_filename hcdot hddot heq),
    fun heq ↦ hdigest (digest_eq_of_url hcdot hddot heq)⟩

/-- Two names with different digests that are one, as the second name ends in a dot. -/
example : fingerprintedName "a.-0000000000000000000000000000000000000000"
      "1111111111111111111111111111111111111111" =
    fingerprintedName "a-1111111111111111111111111111111111111111."
      "0000000000000000000000000000000000000000" := by decide +kernel

/-- A site that publishes two files under one path. -/
def twins : Site :=
  let site := Site.sample "production"
    [("a.txt", .file "A".toUTF8 1), ("more", .folder 0 [("a.txt", .file "B".toUTF8 1)])] []
  { site with pipeline := { site.pipeline with config := { site.pipeline.config with
      staticFiles := [("", ["src/a.txt", "src/more"])] } } }

theorem twins_distinguished :
    (fingerprintedName "img/a.PNG" (Sha1.hex "A".toUTF8) =
        fingerprintedName "img/a.png" (Sha1.hex "A".toUTF8) ∧
      Text.lower (lastSuffix "a.PNG") = Text.lower (lastSuffix "a.png")) ∧
    ∃ c d t, Site.copyAllBy Site.track (fun _ ↦ false) twins = .ok [c, d] t ∧ c.source.rel = d.source.rel ∧
      c.filename ≠ d.filename ∧ c.url ≠ d.url := by
  obtain ⟨hnames, hcopies⟩ := fingerprints_distinguish
  have hdigest := isDigest_hex "A".toUTF8
  have hsame := hnames "img/a.PNG" "img/a.png" _ _ (by decide) (by decide) (by decide +kernel)
    (by decide +kernel) hdigest hdigest
  have hparts : (Path.ofText "img/a.PNG").parent = (Path.ofText "img/a.png").parent ∧
      lastStem (Path.ofText "img/a.PNG").name = lastStem (Path.ofText "img/a.png").name ∧
      Text.lower (lastSuffix (Path.ofText "img/a.PNG").name) =
        Text.lower (lastSuffix (Path.ofText "img/a.png").name) := by decide +kernel
  refine ⟨⟨hsame.2 ⟨rfl, hparts⟩, by decide +kernel⟩, ?_⟩
  have hrun := eq_ok_of_result? (show result? (Site.copyAll (fun _ ↦ false) twins) = some
    ["/a-6dcd4ce23d88e2ee9568ba546c007c63d9131c1b.txt",
      "/a-ae4f281df5a5d0ff3cad6371f76d5c29b6d953ec.txt"] by decide +kernel)
  have hmade : result? (Site.copyAllBy Site.track (fun _ ↦ false) twins) = some
      [⟨"", ⟨.absolute ["src", "a.txt"], "a.txt"⟩, "A".toUTF8⟩,
        ⟨"", ⟨.absolute ["src", "more", "a.txt"], "a.txt"⟩, "B".toUTF8⟩] := by decide +kernel
  have hdiffer : Sha1.hex "A".toUTF8 ≠ Sha1.hex "B".toUTF8 := by decide +kernel
  obtain ⟨copies, htracked, -, hdistinct⟩ := hcopies (fun _ ↦ false) twins _ _ (by decide) hrun
  rw [htracked] at hmade
  obtain rfl := Option.some.inj hmade
  have hbytes : "A".toUTF8 ≠ "B".toUTF8 := fun heq ↦ hdiffer (congrArg Sha1.hex heq)
  refine ⟨_, _, _, htracked, rfl, hdistinct ?_ _ List.mem_cons_self _
    (List.mem_cons_of_mem _ List.mem_cons_self) ?_ ?_ hbytes⟩
  · rintro _ ⟨c, hc, rfl⟩ _ ⟨d, hd, rfl⟩ heq
    rcases List.mem_pair.1 hc with rfl | rfl <;> rcases List.mem_pair.1 hd with rfl | rfl
    · rfl
    · exact absurd heq hdiffer
    · exact absurd heq.symm hdiffer
    · rfl
  · unfold Copy.EndsInDot
    decide
  · unfold Copy.EndsInDot
    decide

end Static

end AssetBundler
