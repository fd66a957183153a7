import AssetBundler.Name

/-!
# Lower case once

A lower-case form has no other lower-case form: no simple mapping leads to a letter that one of them
starts from, and neither do the two exceptions (`isLowered_of_mem_lower`). So an extension that has been
normalised is normalised no more (`normalizeExtension_normalizeExtension`).
-/

namespace AssetBundler

namespace Text

variable {c : Char} {cs : List Char}

/-- The run maps the code point. -/
def IsInRun (n : Nat) (r : Nat × Nat × Nat × Int) : Prop :=
  r.1 ≤ n ∧ n ≤ r.2.1 ∧ (n - r.1) % r.2.2.1 = 0

/-- A run of images, given by its ends and the distance of its neighbours, misses another run: it lies in
front of it, behind it, or between its letters. -/
def isApart (lo hi gap : Nat) (r : Nat × Nat × Nat × Int) : Bool :=
  Nat.blt hi r.1 || Nat.blt r.2.1 lo ||
    ((Nat.beq gap r.2.2.1 || Nat.beq lo hi) && !Nat.beq ((lo - r.1) % r.2.2.1) 0)

/-- The images of all runs miss all runs, and the dotted capital I. -/
theorem isApart_lowerRuns :
    (lowerRuns.all fun r ↦ ((304, 304, 1, 0) :: lowerRuns).all
      (isApart (r.1 + r.2.2.2).toNat (r.2.1 + r.2.2.2).toNat r.2.2.1)) = true := by
  decide +kernel

theorem lowerRuns_gap : ∀ r ∈ lowerRuns, (r.2.2.1 = 1 ∨ r.2.2.1 = 2) ∧ 0 ≤ r.1 + r.2.2.2 ∧ r.1 ≤ r.2.1 := by
  decide +kernel

theorem isApart_iff {lo hi gap : Nat} {r : Nat × Nat × Nat × Int} :
    isApart lo hi gap r = true ↔ hi < r.1 ∨ r.2.1 < lo ∨
      (gap = r.2.2.1 ∨ lo = hi) ∧ (lo - r.1) % r.2.2.1 ≠ 0 := by
  unfold isApart
  rw [Bool.or_eq_true, Bool.or_eq_true, Bool.and_eq_true, Bool.or_eq_true, Nat.blt_eq, Nat.blt_eq,
    Nat.beq_eq, Nat.beq_eq, Bool.not_eq_true', ← Bool.not_eq_true, Nat.beq_eq, or_assoc]

theorem not_isInRun_of_isApart {r t : Nat × Nat × Nat × Int} {n : Nat}
    (hr : (r.2.2.1 = 1 ∨ r.2.2.1 = 2) ∧ 0 ≤ r.1 + r.2.2.2 ∧ r.1 ≤ r.2.1) (hn : IsInRun n r)
    (ht : t.2.2.1 = 1 ∨ t.2.2.1 = 2)
    (h : isApart (r.1 + r.2.2.2).toNat (r.2.1 + r.2.2.2).toNat r.2.2.1 t = true) :
    ¬IsInRun (n + r.2.2.2).toNat t := by
  obtain ⟨lo, hi, gap, shift⟩ := r
  obtain ⟨tlo, thi, tgap, tshift⟩ := t
  rw [isApart_iff] at h
  unfold IsInRun at hn ⊢
  simp only at *
  rcases hr.1 with rfl | rfl <;> rcases ht with rfl | rfl <;> omega

theorem lowerSimple_ascii : ∀ n < 128, lowerSimple (Char.ofNat n) = Char.ofNat n ∨
    IsInRun n (65, 90, 1, 32) ∧ lowerSimple (Char.ofNat n) = Char.ofNat (n + (32 : Int)).toNat := by
  unfold IsInRun
  decide +kernel

theorem lowerSimple_eq_self_or (c : Char) : lowerSimple c = c ∨ ∃ r ∈ lowerRuns, IsInRun c.toNat r ∧
    lowerSimple c = Char.ofNat (c.toNat + r.2.2.2).toNat := by
  by_cases hascii : c.toNat < 128
  · have htable := lowerSimple_ascii c.toNat hascii
    rw [Char.ofNat_toNat] at htable
    exact htable.imp_right fun hrun ↦ ⟨_, List.mem_cons_self, hrun⟩
  · unfold lowerSimple
    rw [if_neg hascii]
    split
    · rename_i lo hi gap shift hfind
      have hrun := List.find?_some hfind
      simp only [Bool.and_eq_true, decide_eq_true_eq, beq_iff_eq] at hrun
      exact .inr ⟨(lo, hi, gap, shift), List.mem_of_find?_eq_some hfind,
        ⟨hrun.1.1, hrun.1.2, hrun.2⟩, rfl⟩
    · exact .inl rfl

theorem lowerSimple_of_not_isInRun (h : ∀ r ∈ lowerRuns, ¬IsInRun c.toNat r) : lowerSimple c = c := by
  rcases lowerSimple_eq_self_or c with hself | ⟨r, hr, hrun, -⟩
  · exact hself
  · exact absurd hrun (h r hr)

theorem lowerSimple_image {r : Nat × Nat × Nat × Int} {n : Nat} (hr : r ∈ lowerRuns) (hn : IsInRun n r) :
    lowerSimple (Char.ofNat (n + r.2.2.2).toNat) = Char.ofNat (n + r.2.2.2).toNat ∧
    Char.ofNat (n + r.2.2.2).toNat ≠ 'İ' := by
  have hall := List.all_eq_true.1 (List.all_eq_true.1 isApart_lowerRuns r hr)
  have hmisses : ∀ t ∈ (304, 304, 1, 0) :: lowerRuns, ¬IsInRun (n + r.2.2.2).toNat t := by
    intro t ht
    refine not_isInRun_of_isApart (lowerRuns_gap r hr) hn ?_ (hall t ht)
    rcases List.mem_cons.1 ht with rfl | hmem
    · exact .inl rfl
    · exact (lowerRuns_gap t hmem).1
  rw [List.forall_mem_cons] at hmisses
  by_cases hvalid : (n + r.2.2.2).toNat.isValidChar
  · have htoNat : (Char.ofNat (n + r.2.2.2).toNat).toNat = (n + r.2.2.2).toNat := by
      rw [Char.ofNat, dif_pos hvalid]
      rfl
    refine ⟨lowerSimple_of_not_isInRun (by rw [htoNat]; exact hmisses.2), fun heq ↦ ?_⟩
    rw [heq] at htoNat
    apply hmisses.1
    rw [← htoNat]
    exact ⟨Nat.le_refl _, Nat.le_refl _, rfl⟩
  · have hnull : Char.ofNat (n + r.2.2.2).toNat = '\x00' := by
      rw [Char.ofNat, dif_neg hvalid]
      rfl
    rw [hnull]
    decide

/-- A character that lower-casing leaves alone. -/
structure IsLowered (c : Char) : Prop where
  simple : lowerSimple c = c
  ne_sigma : c ≠ 'Σ'
  ne_dotted : c ≠ 'İ'

theorem isLowered_lowerSimple (hsigma : c ≠ 'Σ') (hdotted : c ≠ 'İ') : IsLowered (lowerSimple c) := by
  rcases lowerSimple_eq_self_or c with hself | ⟨r, hr, hrun, himage⟩
  · rw [hself]
    exact ⟨hself, hsigma, hdotted⟩
  · obtain ⟨hsimple, hne⟩ := lowerSimple_image hr hrun
    rw [himage]
    refine ⟨hsimple, fun heq ↦ ?_, hne⟩
    rw [heq] at hsimple
    exact absurd hsimple (by decide)

theorem isLowered_of_mem_lowerAfter {before : List Char} (h : c ∈ lowerAfter before cs) : IsLowered c := by
  induction cs generalizing before with
  | nil => cases h
  | cons first cs ih =>
    unfold lowerAfter at h
    refine (List.mem_append.1 h).elim (fun hmem ↦ ?_) ih
    split at hmem
    · split at hmem
      all_goals
        rw [List.mem_singleton.1 hmem]
        exact ⟨by decide, by decide, by decide⟩
    · split at hmem
      · rw [List.mem_cons, List.mem_singleton] at hmem
        rcases hmem with rfl | rfl <;> exact ⟨by decide, by decide, by decide⟩
      · rename_i hsigma hdotted
        rw [List.mem_singleton.1 hmem]
        exact isLowered_lowerSimple hsigma hdotted

theorem lowerAfter_of_isLowered {before : List Char} (h : ∀ c ∈ cs, IsLowered c) :
    lowerAfter before cs = cs := by
  induction cs generalizing before with
  | nil => rfl
  | cons first cs ih =>
    rw [List.forall_mem_cons] at h
    rw [lowerAfter, if_neg h.1.ne_sigma, if_neg h.1.ne_dotted, h.1.simple, ih h.2, List.singleton_append]

theorem isLowered_of_mem_lower {s : String} (h : c ∈ (lower s).toList) : IsLowered c := by
  unfold lower at h
  rw [String.toList_ofList] at h
  exact isLowered_of_mem_lowerAfter h

theorem lower_of_isLowered {s : String} (h : ∀ c ∈ s.toList, IsLowered c) : lower s = s := by
  unfold lower
  rw [lowerAfter_of_isLowered h, String.ofList_toList]

end Text

theorem head_normalizeExtension (ext : String) : (normalizeExtension ext).toList.head? = some '.' := by
  unfold normalizeExtension
  by_cases hdot : (Text.lower ext).toList.head? = some '.'
  · rwa [if_pos hdot]
  · rw [if_neg hdot, String.toList_append]
    rfl

theorem normalizeExtension_eq_or (ext : String) :
    normalizeExtension ext = Text.lower ext ∨ normalizeExtension ext = "." ++ Text.lower ext := by
  by_cases hdot : (Text.lower ext).toList.head? = some '.'
  · exact .inl (if_pos hdot)
  · exact .inr (if_neg hdot)

theorem normalizeExtension_normalizeExtension (ext : String) :
    normalizeExtension (normalizeExtension ext) = normalizeExtension ext := by
  have hlow : Text.lower (normalizeExtension ext) = normalizeExtension ext := by
    apply Text.lower_of_isLowered
    intro c hc
    rcases normalizeExtension_eq_or ext with heq | heq
    · rw [heq] at hc
      exact Text.isLowered_of_mem_lower hc
    · rw [heq, String.toList_append, List.mem_append] at hc
      refine hc.elim (fun hdot ↦ ?_) Text.isLowered_of_mem_lower
      rw [List.mem_singleton.1 hdot]
      exact ⟨by decide, by decide, by decide⟩
  rw [normalizeExtension, hlow]
  exact if_pos (head_normalizeExtension ext)

end AssetBundler
