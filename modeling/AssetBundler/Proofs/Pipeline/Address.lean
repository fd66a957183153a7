import AssetBundler.Pipeline
import AssetBundler.Proofs.Path.Text

/-!
# Addresses below the asset folder

There are two ways to an address: that of a path, which looks the path up in the manifest, and that of
a published file. The first leaves packages alone and puts the asset folder before everything else,
the second puts only parts that are not empty between the slashes. Main statement: when the two agree
on a path and a file (`assetUrl_eq_publishedUrl_iff`). Both depend on the configuration, the
environment and the manifest alone.
-/

namespace AssetBundler

/-- A relative path without a query. -/
structure IsPlainPath (path : String) : Prop where
  relative : path.toList.head? ≠ some '/'
  no_query : '?' ∉ path.toList

/-- The path starts as those do that are published as they are. -/
def IsPackaged (path : String) : Prop := "packages".toList <+: path.toList

instance (path : String) : Decidable (IsPackaged path) :=
  inferInstanceAs (Decidable (List.IsPrefix ..))

namespace Pipeline

theorem dropQueries_of_not_mem {cs : List Char} (h : '?' ∉ cs) : dropQueries false cs = cs := by
  induction cs with
  | nil => rfl
  | cons c cs ih =>
    rw [List.mem_cons, not_or] at h
    simp [dropQueries, Ne.symm h.1, ih h.2]

theorem addressPath_of_isPlainPath {path : String} (h : IsPlainPath path) :
    addressPath path = "/" ++ path := by
  unfold addressPath
  rw [dropQueries_of_not_mem h.no_query]
  simp only [if_neg h.relative, String.ofList_toList]

theorem addressPath_slash_append {path : String} (h : IsPlainPath path) :
    addressPath ("/" ++ path) = "/" ++ path := by
  have hquery : '?' ∉ ("/" ++ path).toList := by
    rw [String.toList_append]
    simpa using h.no_query
  unfold addressPath
  rw [dropQueries_of_not_mem hquery]
  simp

theorem dropLeadingSlashes_of_relative {path : String} (h : path.toList.head? ≠ some '/') :
    dropLeadingSlashes path = path := by
  have hdrop : path.toList.dropWhile (· == '/') = path.toList := by
    cases hchars : path.toList with
    | nil => rfl
    | cons c cs =>
      rw [hchars, List.head?_cons, ne_eq, Option.some.injEq] at h
      exact List.dropWhile_cons_of_neg (by simpa using h)
  rw [dropLeadingSlashes, hdrop, String.ofList_toList]

theorem dropLeadingSlashes_slash_append (path : String) :
    dropLeadingSlashes ("/" ++ path) = dropLeadingSlashes path := by
  unfold dropLeadingSlashes
  rw [String.toList_append]
  rfl

theorem namesOf_dropLeadingSlashes (path : String) :
    Path.namesOf (dropLeadingSlashes path) = Path.namesOf path := by
  obtain ⟨cs, rfl⟩ : ∃ cs, path = String.ofList cs := ⟨path.toList, String.ofList_toList.symm⟩
  induction cs with
  | nil => rfl
  | cons c cs ih =>
    by_cases hc : c = '/'
    · have hsplit : String.ofList (c :: cs) = "/" ++ String.ofList cs := by
        rw [← String.toList_inj]
        simp [hc]
      rw [hsplit, dropLeadingSlashes_slash_append, ih, Path.namesOf_slash_append]
    · rw [dropLeadingSlashes_of_relative]
      simpa using hc

/-- Between slashes stand the names of all parts. -/
theorem namesOf_slashed (parts : List String) :
    Path.namesOf (slashed parts) = parts.flatMap Path.namesOf := by
  unfold slashed
  rw [Path.namesOf_slash_append]
  induction parts with
  | nil => rfl
  | cons part parts ih =>
    by_cases hpart : part = ""
    · rw [List.filter_cons_of_neg (by simp [hpart]), ih, hpart]
      rfl
    · rw [List.filter_cons_of_pos (by simp [hpart]), List.flatMap_cons, ← ih]
      cases parts.filter (· ≠ "") with
      | nil =>
        rw [String.intercalate_singleton, String.intercalate_nil, show Path.namesOf "" = [] by decide,
          List.append_nil]
      | cons next rest => rw [String.intercalate_cons_cons, Path.namesOf_append_slash]

theorem slashed_pair (folder : String) {file : String} (h : file ≠ "") :
    slashed [folder, file] = if folder = "" then "/" ++ file else "/" ++ folder ++ "/" ++ file := by
  unfold slashed
  by_cases hfolder : folder = ""
  · simp [hfolder, h]
  · simp [hfolder, h, String.intercalate_cons_cons, String.append_assoc]

variable {p q : Pipeline} {path rest filename : String}

theorem publishedUrl_eq (h : dropLeadingSlashes filename ≠ "") :
    p.publishedUrl filename = if p.assetDir = "" then "/" ++ dropLeadingSlashes filename
      else "/" ++ p.assetDir ++ "/" ++ dropLeadingSlashes filename :=
  slashed_pair p.assetDir h

theorem assetUrl_of_packaged (hpath : addressPath path = "/" ++ rest) (h : IsPackaged rest) :
    p.assetUrl path = "/" ++ rest := by
  have hprefix : "/packages".toList.isPrefixOf ("/" ++ rest).toList = true := by
    rw [List.isPrefixOf_iff_prefix, String.toList_append]
    exact List.cons_prefix_cons.2 ⟨rfl, h⟩
  unfold assetUrl
  simp only [hpath, hprefix, if_true]

theorem assetUrl_of_not_packaged (hpath : addressPath path = "/" ++ rest) (h : ¬IsPackaged rest) :
    p.assetUrl path = "/" ++ p.assetDir ++ p.fingerprinted ("/" ++ rest) := by
  have hprefix : ¬"/packages".toList.isPrefixOf ("/" ++ rest).toList = true := by
    rw [List.isPrefixOf_iff_prefix, String.toList_append]
    exact fun hp ↦ h (List.cons_prefix_cons.1 hp).2
  unfold assetUrl
  simp only [hpath, if_neg hprefix]

theorem inProduction_congr (hconfig : q.config = p.config)
    (henvironment : q.environment = p.environment) : q.inProduction = p.inProduction := by
  unfold inProduction
  rw [hconfig, henvironment]

theorem assetDir_congr (hconfig : q.config = p.config)
    (henvironment : q.environment = p.environment) : q.assetDir = p.assetDir := by
  unfold assetDir
  rw [hconfig, inProduction_congr hconfig henvironment]

/-- What stands in the manifest under a path is all that matters of it for the name. -/
theorem fingerprinted_congr (hconfig : q.config = p.config)
    (henvironment : q.environment = p.environment)
    (hentry : q.manifest.get? path = p.manifest.get? path) :
    q.fingerprinted path = p.fingerprinted path := by
  unfold fingerprinted inDevelopment
  rw [inProduction_congr hconfig henvironment, hconfig, henvironment, hentry]

theorem fingerprinted_of_inDevelopment (h : p.inDevelopment = true) :
    p.fingerprinted path = path := by
  unfold fingerprinted
  simp [h]

/-- Where names are recorded, a name that is not empty is the one that counts. -/
theorem fingerprinted_of_get? (hprod : p.inProduction = true)
    (hfingerprints : p.config.fingerprintsStaticFiles = true) {name : String}
    (hentry : p.manifest.get? path = some name) (hname : name ≠ "") :
    p.fingerprinted path = name := by
  unfold fingerprinted inDevelopment
  simp [hprod, hfingerprints, hentry, hname]

theorem fingerprinted_of_not_recorded (h : (p.manifest.get? path).getD "" = "") :
    p.fingerprinted path = path := by
  unfold fingerprinted
  cases hentry : p.manifest.get? path with
  | none => simp
  | some name =>
    have hname : name = "" := by rwa [hentry] at h
    simp [hname]

theorem fingerprinted_ne_empty (h : path ≠ "") : p.fingerprinted path ≠ "" := by
  unfold fingerprinted
  split
  · split
    · split
      · exact h
      · assumption
    · exact h
  · exact h

/-- Outside packages the two agree exactly if the file has a name and this name, after a slash, is the
one that counts for the path. Without an asset folder it has to count without the slash. -/
theorem assetUrl_eq_publishedUrl_iff (hpath : addressPath path = "/" ++ rest)
    (h : ¬IsPackaged rest) :
    p.assetUrl path = p.publishedUrl filename ↔ dropLeadingSlashes filename ≠ "" ∧
      p.fingerprinted ("/" ++ rest) =
        if p.assetDir = "" then dropLeadingSlashes filename else "/" ++ dropLeadingSlashes filename := by
  rw [assetUrl_of_not_packaged hpath h]
  by_cases hfilename : dropLeadingSlashes filename = ""
  · have hslash : p.publishedUrl filename = "/" ++ p.assetDir := by
      unfold publishedUrl slashed
      by_cases hdir : p.assetDir = ""
      · simp [hfilename, hdir]
      · simp [hfilename, hdir]
    have hname : p.fingerprinted ("/" ++ rest) ≠ "" := fingerprinted_ne_empty (by simp)
    simp [hslash, hfilename, hname]
  · rw [publishedUrl_eq hfilename, and_iff_right hfilename]
    by_cases hdir : p.assetDir = ""
    · rw [if_pos hdir, if_pos hdir, hdir, String.append_empty, String.append_right_inj]
    · have hparts : "/" ++ p.assetDir ++ "/" ++ dropLeadingSlashes filename =
          "/" ++ p.assetDir ++ ("/" ++ dropLeadingSlashes filename) := String.append_assoc
      rw [if_neg hdir, if_neg hdir, hparts, String.append_right_inj]

end Pipeline

end AssetBundler
