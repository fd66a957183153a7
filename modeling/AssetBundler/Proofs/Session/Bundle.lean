import AssetBundler.Proofs.Script.Ending
import AssetBundler.Proofs.Session.Cycle

/-!
# Scripts that are put one after another

Outside production the own text of a script is its text without directives, terminated. The required
ones are joined by line feeds, so none of them begins in a comment of the one before it; the text of the
asset follows the last one directly. Main statement: the body of a script that reaches no cycle is
built, and says of each script in it exactly when its last code ends in a semicolon
(`bundle_ends_exact`).
-/

namespace AssetBundler.Session

open AssetBundler.Action Relation

/-- The text of a script without its directives. -/
def IsSource (site : Site) (path : Path) (source : List Char) : Prop :=
  ∃ data parsed, site.disk.readText path = .ok data ∧
    ParsedSource.parse (some path) data.toList = .ok parsed ∧ source = parsed.processedSource

section OwnTexts

variable {site : Site} {path : Path}

theorem chainOf_script_outside (hp : HasDefaultScripts site.pipeline)
    (houtside : site.pipeline.inProduction = false)
    (htype : site.pipeline.contentTypeOf path = some scriptType) :
    chainOf site path = [⟨.directives, []⟩, ⟨.safetyColons, []⟩] := by
  unfold chainOf Pipeline.processorsFor
  rw [htype, hp.preprocessors, hp.postprocessors, houtside]
  rfl

theorem isSource_of_ownText (hp : HasDefaultScripts site.pipeline)
    (houtside : site.pipeline.inProduction = false)
    (htype : site.pipeline.contentTypeOf path = some scriptType) {text : String}
    (h : OwnText site path text) :
    ∃ source, IsSource site path source ∧ text.toList = Script.terminate source := by
  obtain ⟨targets, data, hdata, hprocessed⟩ := h
  rw [chainOf_script_outside hp houtside htype] at hprocessed
  cases hprocessed with
  | plain hplain => exact absurd rfl (hplain.1 none)
  | imports hstep => cases hstep
  | @directives _ _ _ _ _ parsed _ _ hstep hparsed hfirst hrest =>
    refine ⟨parsed.processedSource, ⟨data, parsed, hdata, hparsed, rfl⟩, ?_⟩
    cases hrest with
    | plain hplain hrun hrest =>
      cases hrest
      have hsame := (EStateM.Result.ok.inj (hrun (evaluate site) empty)).1
      rw [← hsame, String.toList_ofList, String.toList_ofList]
    | imports hstep => cases hstep
    | directives hstep => cases hstep

theorem isSource_of_ownTexts {order : List Path} {texts : List String}
    (hown : ∀ p ∈ order, ∀ text, OwnText site p text →
      ∃ source, IsSource site p source ∧ text.toList = Script.terminate source)
    (h : List.Forall₂ (OwnText site) order texts) :
    ∃ sources, List.Forall₂ (IsSource site) order sources ∧
      texts.map String.toList = sources.map Script.terminate := by
  induction h with
  | nil => exact ⟨[], .nil, rfl⟩
  | cons htext _ ih =>
    obtain ⟨source, hsource, htext⟩ := hown _ (List.mem_cons_self ..) _ htext
    obtain ⟨sources, hsources, htexts⟩ := ih fun q hq ↦ hown q (List.mem_cons_of_mem _ hq)
    exact ⟨source :: sources, .cons hsource hsources, by rw [List.map_cons, List.map_cons, htext, htexts]⟩

end OwnTexts

/-- Texts, each with a line feed after it. -/
def lined (texts : List (List Char)) : List Char := (texts.map (· ++ ['\n'])).flatten

section Places

theorem intercalate_append (front : List (List Char)) (text : List Char) (back : List (List Char)) :
    ['\n'].intercalate (front ++ text :: back) =
      lined front ++ ['\n'].intercalate (text :: back) := by
  induction front with
  | nil => rfl
  | cons first front ih =>
    obtain ⟨next, rest, hrest⟩ := List.exists_cons_of_ne_nil
      (List.append_ne_nil_of_right_ne_nil front (List.cons_ne_nil text back))
    have hfirst : ['\n'].intercalate (first :: (front ++ text :: back)) =
        first ++ ['\n'] ++ ['\n'].intercalate (front ++ text :: back) := by
      rw [hrest]
      simp [List.intercalate]
    rw [List.cons_append, hfirst, ih]
    simp [lined]

theorem lined_eq_append (texts : List (List Char)) : lined texts = [] ∨ ∃ cs, lined texts = cs ++ ['\n'] := by
  induction texts using List.reverseRecOn with
  | nil => exact .inl rfl
  | append_singleton texts text _ => exact .inr ⟨lined texts ++ text, by simp [lined]⟩

theorem getLast?_lined_append_ne {cs : List Char} (texts : List (List Char))
    (h : cs.getLast? ≠ some '/') : (lined texts ++ cs).getLast? ≠ some '/' := by
  intro hslash
  rw [List.getLast?_append] at hslash
  rcases hcs : cs.getLast? with _ | c
  · rw [hcs, Option.none_or] at hslash
    obtain hnil | ⟨ds, hds⟩ := lined_eq_append texts
    · rw [hnil] at hslash
      cases hslash
    · rw [hds, List.getLast?_concat] at hslash
      exact absurd (Option.some.inj hslash) (by decide)
  · rw [hcs, Option.some_or] at hslash
    exact h (hcs.trans hslash)

/-- No comment goes on behind a line feed. -/
theorem endsInComment_lined_append {isBreak : Char → Bool} (hfeed : isBreak '\n' = true)
    (texts : List (List Char)) (cs : List Char) :
    Script.endsInComment isBreak false (lined texts ++ cs) = Script.endsInComment isBreak false cs := by
  obtain hnil | ⟨ds, hds⟩ := lined_eq_append texts
  · rw [hnil, List.nil_append]
  · have hmeet : ¬Script.SlashesMeet (ds ++ ['\n']) cs := by
      rintro ⟨hslash, -⟩
      rw [List.getLast?_concat] at hslash
      exact absurd (Option.some.inj hslash) (by decide)
    rw [hds, Script.endsInComment_append false hmeet,
      Script.endsInComment_break false hfeed (by decide)]

end Places

section Bundles

variable {isBreak : Char → Bool} {site : Site}

/-- A required script in a body. -/
theorem required_ends_iff (hfeed : isBreak '\n' = true)
    (hblank : ∀ c, isBreak c = true → Text.isBlank c = true) (front : List (List Char))
    (source after : List Char) :
    Script.EndsStatement isBreak (lined front) (Script.terminate source) after ↔
      Script.Terminates isBreak false source := by
  have hslash : (lined front ++ []).getLast? ≠ some '/' :=
    getLast?_lined_append_ne front (by simp)
  have hopen := endsInComment_lined_append hfeed front []
  rw [List.append_nil] at hslash hopen
  rw [Script.endsStatement_terminate hblank hslash, hopen]
  rfl

/-- The comment that the required scripts leave open is one that the last of them leaves open. -/
theorem endsInComment_joined_iff (hfeed : isBreak '\n' = true) (sources : List (List Char)) :
    Script.endsInComment isBreak false (['\n'].intercalate (sources.map Script.terminate)) = true ↔
      ∃ source, sources.getLast? = some source ∧ Script.isTerminated source = true ∧
        Script.endsInComment isBreak false source = true := by
  induction sources using List.reverseRecOn with
  | nil => simp [Script.endsInComment, List.intercalate]
  | append_singleton front source _ =>
    rw [List.map_append, List.map_singleton, intercalate_append, List.intercalate_singleton,
      endsInComment_lined_append hfeed, Script.endsInComment_terminate hfeed,
      Bool.and_eq_true, List.getLast?_concat]
    constructor
    · exact fun h ↦ ⟨source, rfl, h⟩
    · rintro ⟨_, ⟨⟩, h⟩
      exact h

theorem getLast?_joined_ne (sources : List (List Char)) :
    (['\n'].intercalate (sources.map Script.terminate)).getLast? ≠ some '/' := by
  induction sources using List.reverseRecOn with
  | nil => simp [List.intercalate]
  | append_singleton front source _ =>
    rw [List.map_append, List.map_singleton, intercalate_append, List.intercalate_singleton]
    exact getLast?_lined_append_ne _ (Script.getLast?_terminate_ne source)

end Bundles

/-- The body of a script that reaches no cycle, outside production: its scripts in post-order, each
without directives and terminated. A required script ends in a semicolon there exactly if its last code
does, or if its semicolon is appended outside of comments. The asset's own script does so on the same
condition, except that it can begin in a comment: that of the last required script, which ends in a
semicolon inside a comment without a line break. -/
theorem bundle_ends_exact (isBreak : Char → Bool) (hfeed : isBreak '\n' = true)
    (hblank : ∀ c, isBreak c = true → Text.isBlank c = true) {site : Site} (hs : site.IsProper)
    (hp : HasDefaultScripts site.pipeline) (houtside : site.pipeline.inProduction = false)
    {logical : String} {a : Asset} (ha : site.getAsset logical = .ok a)
    (hscripts : ∀ p, ReflTransGen (Edge site) a.path p → IsScript site p)
    (hacyclic : ¬ReachesCycle site a.path) :
    ∃ text t order sources own, Asset.body ⟨site, a⟩ = .ok text t ∧
      Assembles site a.path order text ∧ List.Forall₂ (IsSource site) order sources ∧
      IsSource site a.path own ∧
      (∀ front source back, sources = front ++ source :: back → ∃ after,
        text.toList = lined (front.map Script.terminate) ++ Script.terminate source ++ after ∧
        (Script.EndsStatement isBreak (lined (front.map Script.terminate)) (Script.terminate source)
          after ↔ Script.Terminates isBreak false source)) ∧
      ∃ before, text.toList = before ++ Script.terminate own ∧
        (Script.EndsStatement isBreak before (Script.terminate own) [] ↔
          Script.Terminates isBreak (Script.endsInComment isBreak false before) own) ∧
        (Script.endsInComment isBreak false before = true ↔ ∃ source,
          sources.getLast? = some source ∧ Script.isTerminated source = true ∧
            Script.endsInComment isBreak false source = true) := by
  obtain ⟨path, hpath, hmade⟩ := except_bind_eq_ok.1 ha
  have hasset : a = Asset.ofFile path (some logical) := (Except.ok.inj hmade).symm
  rw [hasset] at hscripts hacyclic ⊢
  have hcanonical := Site.isCanonical_of_getFile hs hpath
  have hends := ends_of_build hs hp hcanonical hscripts
  rcases hbuild : site.build path with ⟨built, u⟩ | ⟨e, u⟩
  swap
  · rw [hbuild] at hends
    obtain ⟨_, -, hreport⟩ := hends
    exact absurd hreport.reachesCycle hacyclic
  have hbody := Asset.body_of_build_ok (s := ⟨site, .ofFile path (some logical)⟩) rfl hbuild
  have hchains : HasAdmissibleChains site path := by
    intro p hreach spec hspec
    rcases processors_of_script hp (hscripts p hreach) spec hspec with hdefault | hleaves
    · exact .inl hdefault.1
    · exact .inr (.inr hleaves)
  obtain ⟨order, hassembles⟩ := assembles_of_build hs hcanonical hchains hbuild
  have hsource : ∀ p ∈ order ++ [path], ∀ text, OwnText site p text →
      ∃ source, IsSource site p source ∧ text.toList = Script.terminate source := by
    intro p hp' text htext
    rcases hassembles.postorder.reached hp' with hnil | ⟨q, hq, hreach⟩
    · exact absurd hnil List.not_mem_nil
    · rw [List.mem_singleton.1 hq] at hreach
      exact isSource_of_ownText hp houtside (hscripts p hreach).type htext
  obtain ⟨texts, last, htexts, hlast, htext⟩ := hassembles.text
  obtain ⟨sources, hsources, hjoined⟩ := isSource_of_ownTexts
    (fun p hp' ↦ hsource p (List.mem_append_left _ hp')) htexts
  obtain ⟨own, hown, hterminated⟩ :=
    hsource path (List.mem_append_right _ (List.mem_singleton_self path)) last hlast
  have hlist : (Asset.assemble u.included built).toList =
      ['\n'].intercalate (sources.map Script.terminate) ++ Script.terminate own := by
    rw [htext, String.toList_append, String.toList_intercalate, hjoined, hterminated]
    rfl
  refine ⟨_, _, order, sources, own, hbody, hassembles, hsources, hown, ?_, _, hlist, ?_, ?_⟩
  · rintro front source back rfl
    rw [List.map_append, List.map_cons, intercalate_append] at hlist
    obtain ⟨after, hafter⟩ : ∃ after, ['\n'].intercalate (Script.terminate source ::
        back.map Script.terminate) = Script.terminate source ++ after := by
      cases back with
      | nil => exact ⟨[], by simp [List.intercalate]⟩
      | cons next back => exact ⟨_, by simp [List.intercalate]; rfl⟩
    refine ⟨after ++ Script.terminate own, ?_, required_ends_iff hfeed hblank _ source _⟩
    rw [hlist, hafter]
    simp only [List.append_assoc]
  · exact Script.endsStatement_terminate hblank (getLast?_joined_ne sources) own []
  · exact endsInComment_joined_iff hfeed sources

/-- A script that ends in a comment, and one that goes on with a parenthesis. -/
def jam : Site :=
  Site.sample "local" [
    ("a.js", .file "//= require b\n(g)();\n".toUTF8 1),
    ("b.js", .file "var b = f // set up".toUTF8 1)] []

theorem isSource_of_parse {site : Site} {path : Path} (data : String) (parsed : ParsedSource)
    (hdata : (site.disk.readText path).toOption = some data)
    (hparsed : (ParsedSource.parse (some path) data.toList).toOption = some parsed) :
    IsSource site path parsed.processedSource :=
  ⟨data, parsed, eq_ok_of_toOption hdata, eq_ok_of_toOption hparsed, rfl⟩

/-- The semicolon is appended to the comment, and the scripts run into each other. -/
theorem jam_runs_together :
    ∃ t, Asset.body ⟨jam, .ofFile (.absolute ["src", "a.js"]) (some "a.js")⟩ =
        .ok "var b = f // set up;\n\n(g)();\n" t ∧
      IsSource jam (.absolute ["src", "b.js"]) "var b = f // set up".toList ∧
      Script.terminate "var b = f // set up".toList = "var b = f // set up;\n".toList ∧
      ¬Script.EndsStatement (· == '\n') [] "var b = f // set up;\n".toList "\n(g)();\n".toList := by
  have hterminate : Script.terminate "var b = f // set up".toList =
      "var b = f // set up;\n".toList := by decide
  have hsource : IsSource jam (.absolute ["src", "b.js"]) "var b = f // set up".toList :=
    isSource_of_parse "var b = f // set up" ⟨[], "var b = f // set up".toList, []⟩
      (by decide +kernel) (by decide +kernel)
  refine ⟨_, eq_ok_of_result? (by decide +kernel), hsource, hterminate, ?_⟩
  rw [← hterminate, Script.endsStatement_terminate (fun c hc ↦ ?_) (by decide)]
  · decide
  · rw [eq_of_beq hc]
    decide

/-- Two scripts without a semicolon at the end. -/
def shelf : Site :=
  Site.sample "local" [
    ("a.js", .file "//= require b\nA()\n".toUTF8 1),
    ("b.js", .file "B()".toUTF8 1)] []

theorem IsSource.unique {site : Site} {path : Path} {source other : List Char}
    (h : IsSource site path source) (h' : IsSource site path other) : source = other := by
  obtain ⟨data, parsed, hdata, hparsed, rfl⟩ := h
  obtain ⟨data', parsed', hdata', hparsed', rfl⟩ := h'
  cases hdata.symm.trans hdata'
  cases hparsed.symm.trans hparsed'
  rfl

theorem shelf_stays_apart :
    ∃ before t, Asset.body ⟨shelf, .ofFile (.absolute ["src", "a.js"]) (some "a.js")⟩ =
        .ok "B();\n\nA()\n;\n" t ∧
      "B();\n\nA()\n;\n".toList = before ++ "\nA()\n;\n".toList ∧
      Script.EndsStatement (· == '\n') before "\nA()\n;\n".toList [] := by
  have ha : shelf.getAsset "a.js" = .ok (.ofFile (.absolute ["src", "a.js"]) (some "a.js")) :=
    eq_ok_of_toOption (by decide +kernel)
  have hs : shelf.IsProper := Site.isProper_sample ..
  have hp : HasDefaultScripts shelf.pipeline := ⟨rfl, rfl, rfl, rfl⟩
  have hscripts : ∀ p, ReflTransGen (Edge shelf) (.absolute ["src", "a.js"]) p → IsScript shelf p :=
    fun p ↦ scripts_of_closed hp [.absolute ["src", "a.js"], .absolute ["src", "b.js"]]
      (by decide +kernel) (List.mem_cons_self ..)
  have hbuilt : ∃ own t, shelf.build (.absolute ["src", "a.js"]) = .ok own t :=
    ⟨"\nA()\n;\n", _, eq_ok_of_result? (by decide +kernel)⟩
  obtain ⟨built, u, hbuild⟩ := hbuilt
  have hfile : shelf.getFile "a.js" = .ok (.absolute ["src", "a.js"]) :=
    eq_ok_of_toOption (by decide +kernel)
  have hacyclic := not_reachesCycle_of_build hs hp (Site.isCanonical_of_getFile hs hfile)
    hscripts hbuild
  obtain ⟨text, t, order, sources, own, hbody, -, -, hown, -, before, htext, hends, -⟩ :=
    bundle_ends_exact (· == '\n') rfl
      (fun c hc ↦ by rw [eq_of_beq hc]; decide) hs hp rfl ha hscripts hacyclic
  have hsource : own = "\nA()\n".toList := hown.unique (isSource_of_parse "//= require b\nA()\n"
    ⟨"//= require b\n".toList, "A()\n".toList, [⟨0, "require", ["b"]⟩]⟩
    (by decide +kernel) (by decide +kernel))
  have hresult := eq_ok_of_result? (r := Asset.body
    ⟨shelf, .ofFile (.absolute ["src", "a.js"]) (some "a.js")⟩) (a := "B();\n\nA()\n;\n")
    (by decide +kernel)
  cases (EStateM.Result.ok.inj (hbody.symm.trans hresult)).1
  rw [hsource] at htext hends
  refine ⟨before, t, hbody, htext, hends.2 ?_⟩
  cases Script.endsInComment (· == '\n') false before <;> decide

end AssetBundler.Session
