import AssetBundler.Proofs.Path.Text
import AssetBundler.Proofs.Text.Lowercase
import Mathlib.Data.List.Forall2

/-!
# Extensions at the end of a name

The extensions of a name are the pieces between its dots, so a last extension adds one piece to those of
the name in front of it (`extensionsOf_append`). Lower-casing neither makes nor takes away a dot, and it
changes the length of a text only at a dotted capital I, which it follows by a combining mark; so what
ends the lower-case form of a name without that mark is spelt by as many characters at the end of the
name itself (`exists_suffix_of_lower`).
-/

namespace AssetBundler

namespace Text

variable {c : Char} {cs : List Char}

/-- Whatever has a lower case, and what it becomes, is at or behind the capital A. -/
theorem lowerRuns_letters : ∀ r ∈ lowerRuns, 'A'.toNat ≤ r.1 ∧ ('A'.toNat : Int) ≤ r.1 + r.2.2.2 := by
  decide +kernel

/-- In front of the capital A stand the digits and most of the punctuation. -/
theorem lowerSimple_eq_iff {d : Char} (hnull : 0 < d.toNat) (hd : d.toNat < 'A'.toNat) (c : Char) :
    lowerSimple c = d ↔ c = d := by
  rcases lowerSimple_eq_self_or c with hself | ⟨r, hr, hrun, himage⟩
  · rw [hself]
  · obtain ⟨hsource, htarget⟩ := lowerRuns_letters r hr
    constructor
    · intro heq
      have hcode := congrArg Char.toNat (himage.symm.trans heq)
      by_cases hvalid : (c.toNat + r.2.2.2).toNat.isValidChar
      · rw [Char.ofNat, dif_pos hvalid] at hcode
        change (c.toNat + r.2.2.2).toNat = d.toNat at hcode
        have hlow := hrun.1
        omega
      · rw [Char.ofNat, dif_neg hvalid] at hcode
        exact absurd hcode (Nat.ne_of_lt hnull)
    · rintro rfl
      exact absurd hrun.1 (Nat.not_le.2 (Nat.lt_of_lt_of_le hd hsource))

theorem lowerSimple_eq_dot_iff (c : Char) : lowerSimple c = '.' ↔ c = '.' :=
  lowerSimple_eq_iff (by decide) (by decide) c

/-- Lower-casing neither brings such a character nor takes it away. -/
theorem mem_lowerAfter_iff {d : Char} (hnull : 0 < d.toNat) (hd : d.toNat < 'A'.toNat) :
    ∀ {before : List Char}, d ∈ lowerAfter before cs ↔ d ∈ cs := by
  have hne {e : Char} (he : 'A'.toNat ≤ e.toNat) : d ≠ e := by
    rintro rfl
    exact absurd he (Nat.not_le.2 hd)
  induction cs with
  | nil => exact Iff.rfl
  | cons c cs ih =>
    intro before
    rw [lowerAfter, List.mem_append, ih, List.mem_cons]
    refine or_congr_left ?_
    by_cases hsigma : c = 'Σ'
    · subst hsigma
      rw [if_pos rfl]
      split <;> simp [hne (by decide : 'A'.toNat ≤ 'ς'.toNat), hne (by decide : 'A'.toNat ≤ 'σ'.toNat),
        hne (by decide : 'A'.toNat ≤ 'Σ'.toNat)]
    · rw [if_neg hsigma]
      by_cases hdotted : c = 'İ'
      · subst hdotted
        simp [hne (by decide : 'A'.toNat ≤ 'i'.toNat), hne (by decide : 'A'.toNat ≤ '\u0307'.toNat),
          hne (by decide : 'A'.toNat ≤ 'İ'.toNat)]
      · rw [if_neg hdotted, List.mem_singleton, eq_comm, lowerSimple_eq_iff hnull hd, eq_comm]

theorem mem_lower_iff {d : Char} (hnull : 0 < d.toNat) (hd : d.toNat < 'A'.toNat) {s : String} :
    d ∈ (lower s).toList ↔ d ∈ s.toList := by
  unfold lower
  rw [String.toList_ofList]
  exact mem_lowerAfter_iff hnull hd

/-- What stands at a place of a text and of its lower-case form. -/
def SameDot (c d : Char) : Prop := c = '.' ↔ d = '.'

theorem lowerAfter_cons (before : List Char) (c : Char) (cs : List Char) :
    (∃ d, SameDot c d ∧ lowerAfter before (c :: cs) = d :: lowerAfter (c :: before) cs) ∨
      lowerAfter before (c :: cs) = 'i' :: '\u0307' :: lowerAfter (c :: before) cs := by
  rw [lowerAfter]
  by_cases hsigma : c = 'Σ'
  · subst hsigma
    left
    rw [if_pos rfl]
    split
    · exact ⟨'ς', by unfold SameDot; decide, rfl⟩
    · exact ⟨'σ', by unfold SameDot; decide, rfl⟩
  · rw [if_neg hsigma]
    by_cases hdotted : c = 'İ'
    · right
      rw [if_pos hdotted]
      rfl
    · left
      rw [if_neg hdotted]
      exact ⟨lowerSimple c, (lowerSimple_eq_dot_iff c).symm, rfl⟩

theorem forall₂_lowerAfter {before : List Char} (h : '\u0307' ∉ lowerAfter before cs) :
    List.Forall₂ SameDot cs (lowerAfter before cs) := by
  induction cs generalizing before with
  | nil => exact .nil
  | cons c cs ih =>
    rcases lowerAfter_cons before c cs with ⟨d, hdot, heq⟩ | heq
    · rw [heq, List.mem_cons, not_or] at h
      rw [heq]
      exact .cons hdot (ih h.2)
    · rw [heq] at h
      exact absurd (List.mem_cons_of_mem _ List.mem_cons_self) h

theorem exists_suffix_of_lowerAfter {before low : List Char} (hmark : '\u0307' ∉ low)
    (h : low <:+ lowerAfter before cs) : ∃ ending, ending <:+ cs ∧ List.Forall₂ SameDot ending low := by
  induction cs generalizing before with
  | nil =>
    rw [List.suffix_nil.1 h]
    exact ⟨[], List.suffix_rfl, .nil⟩
  | cons c cs ih =>
    by_cases hrest : low <:+ lowerAfter (c :: before) cs
    · obtain ⟨ending, hending, hsame⟩ := ih hrest
      exact ⟨ending, hending.trans (List.suffix_cons c cs), hsame⟩
    · have hwhole : low = lowerAfter before (c :: cs) := by
        rcases lowerAfter_cons before c cs with ⟨d, -, heq⟩ | heq <;> rw [heq] at h
        · rw [heq]
          exact (List.suffix_cons_iff.1 h).resolve_right hrest
        · rw [heq]
          refine (List.suffix_cons_iff.1 h).resolve_right fun hmarked ↦ ?_
          rcases List.suffix_cons_iff.1 hmarked with rfl | hrest'
          · exact hmark List.mem_cons_self
          · exact hrest hrest'
      rw [hwhole] at hmark ⊢
      exact ⟨c :: cs, List.suffix_rfl, forall₂_lowerAfter hmark⟩

theorem exists_suffix_of_lower {name : String} {low : List Char} (hmark : '\u0307' ∉ low)
    (h : low <:+ (lower name).toList) :
    ∃ ending, ending <:+ name.toList ∧ List.Forall₂ SameDot ending low := by
  unfold lower at h
  rw [String.toList_ofList] at h
  exact exists_suffix_of_lowerAfter hmark h

theorem not_mem_of_sameDot {low : List Char} (h : List.Forall₂ SameDot cs low) (hdot : '.' ∉ low) :
    '.' ∉ cs := by
  induction h with
  | nil => exact List.not_mem_nil
  | cons hsame _ ih =>
    rw [List.mem_cons, not_or] at hdot ⊢
    exact ⟨fun hc ↦ hdot.1 (hsame.1 hc.symm).symm, ih hdot.2⟩

theorem tail_split (sep : Char) (cs : List Char) :
    (split sep cs).tail = match cs.dropWhile (· ≠ sep) with
      | [] => []
      | _ :: rest => split sep rest := by
  induction cs with
  | nil => rfl
  | cons c cs ih =>
    by_cases hc : c = sep
    · simp [split, hc]
    · cases hs : split sep cs with
      | nil => exact absurd hs (split_ne_nil sep cs)
      | cons piece pieces =>
        rw [hs] at ih
        simpa [split, hc, hs] using ih

end Text

theorem extensionsOf_eq (name : String) : extensionsOf name =
    ((Text.split '.' (name.toList.drop 1)).tail.filter fun e ↦ !e.isEmpty).map
      fun e ↦ normalizeExtension (String.ofList e) := by
  unfold extensionsOf afterFirstDot
  rw [Text.tail_split]
  cases (name.toList.drop 1).dropWhile (· ≠ '.') <;> rfl

theorem normalizeExtension_of_mem_extensionsOf {name ext : String} (h : ext ∈ extensionsOf name) :
    normalizeExtension ext = ext := by
  rw [extensionsOf_eq] at h
  obtain ⟨piece, -, rfl⟩ := List.mem_map.1 h
  exact normalizeExtension_normalizeExtension _

/-- Without a dot behind its first character a name has no extension. -/
theorem extensionsOf_of_not_mem {name : String} (h : '.' ∉ name.toList.drop 1) : extensionsOf name = [] := by
  rw [extensionsOf_eq, Text.split_of_not_mem h]
  rfl

theorem extensionsOf_append {front x : List Char} (hfront : front ≠ []) (hx : x ≠ []) (hdot : '.' ∉ x) :
    extensionsOf (String.ofList (front ++ '.' :: x)) =
      extensionsOf (String.ofList front) ++ [normalizeExtension (String.ofList x)] := by
  obtain ⟨c, front, rfl⟩ := List.exists_cons_of_ne_nil hfront
  have hpieces : Text.split '.' (front ++ '.' :: x) = Text.split '.' front ++ [x] := by
    rw [Text.split_append_cons, Text.split_of_not_mem hdot]
  have hlast : [x].filter (fun e ↦ !e.isEmpty) = [x] := by simpa using hx
  rw [extensionsOf_eq, extensionsOf_eq, String.toList_ofList, String.toList_ofList, List.cons_append,
    List.drop_one, List.drop_one, List.tail_cons, List.tail_cons, hpieces,
    List.tail_append_of_ne_nil (Text.split_ne_nil '.' front), List.filter_append, List.map_append,
    hlast, List.map_singleton]

end AssetBundler
