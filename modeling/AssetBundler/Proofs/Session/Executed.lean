import AssetBundler.Proofs.Directive.Parsing
import AssetBundler.Proofs.Session.Dependencies
import AssetBundler.Proofs.Session.Log

/-!
# The directives that a stylesheet executes

Imports are expanded before directives are run, so the header that counts is that of the expanded text,
and it can be longer than the header of the file: where the file goes on with an import, the comments
that the imported text starts with are part of it. Main statement: the directives that are executed for
a stylesheet are those of its expanded text, and if no import begins in its own header these are its own
and then those at the start of what is expanded after it (`executed_exact`).
-/

namespace AssetBundler.Session

open AssetBundler.Action Relation

/-- The directives that are executed with a file as the current one while its body is built. -/
def executed (site : Site) (file : Path) : List Execution := logOf file (finalState (site.build file))

/-- The processors of stylesheets: imports are expanded, then directives are run, and what comes after
does neither. -/
def IsStylesheet (site : Site) (path : Path) : Prop :=
  ∃ rest, chainOf site path = ⟨.imports, []⟩ :: ⟨.directives, []⟩ :: rest ∧
    ∀ spec ∈ rest, IsPlain spec

/-- A directive is known, and the files and folders that it asks for are counted. -/
def TakesEffect (site : Site) (path : Path) (d : Directive) (counted : List Path) : Prop :=
  ∃ requests, site.pipeline.directives.requests (some path) d = .ok requests ∧
    ∀ request ∈ requests, ∀ q, q ∈ requestRequires site path request ∨ RequestCounts site path request q →
      q ∈ counted

section Build

variable {site : Site} {path : Path}

/-- A run of the processors of a stylesheet that ends well and what it leaves in the log. -/
theorem logOf_of_runSpecs {eval : Evaluator} (heval : EvalQuiet site path eval) {s t : Session}
    (hmark : s.marks.get? path = some .inProgress) {rest : List Spec} (hrest : ∀ spec ∈ rest, IsPlain spec)
    {text out : String}
    (h : runSpecs eval site path text (⟨.imports, []⟩ :: ⟨.directives, []⟩ :: rest) s = .ok out t) :
    ∃ expanded all u, expandImports eval site ⟨some path⟩ text s = .ok expanded u ∧
      ParsedSource.parse (some path) expanded.toList = .ok all ∧
      (∀ d ∈ all.directives, ∃ requests,
        site.pipeline.directives.requests (some path) d = .ok requests) ∧
      logOf path t = logOf path s ++ all.directives.map (record path) := by
  unfold runSpecs at h
  rw [List.foldlM_cons] at h
  obtain ⟨expanded, u, hexpand, hmore⟩ := bind_eq_ok.1 h
  rw [List.foldlM_cons] at hmore
  obtain ⟨processed, w, hprocess, hlast⟩ := bind_eq_ok.1 hmore
  have himports : Quiet path (runSpec eval site (some ⟨some path⟩) (some path) ⟨.imports, []⟩ text) :=
    quiet_runSpec heval (.inr fun _ ↦ Step.noConfusion) text
  obtain ⟨hmarku, hlogu⟩ := himports.ok hexpand hmark
  obtain ⟨all, hall, hknown, hmarkw, hlogw⟩ := logOf_of_runDirectives heval hmarku hprocess
  have hplain : Quiet path (rest.foldlM (fun data spec ↦
      runSpec eval site (some ⟨some path⟩) (some path) spec data) processed) :=
    quiet_foldlM (fun data spec hspec ↦ quiet_runSpec heval (.inr (hrest spec hspec).1) data) processed
  obtain ⟨-, hlogt⟩ := hplain.ok hlast hmarkw
  exact ⟨expanded, all, u, hexpand, hall, hknown, by rw [hlogt, hlogw, hlogu]⟩

/-- The directives that are executed for a stylesheet are those of its expanded text. -/
theorem executed_eq (hsheet : IsStylesheet site path) {own : String} {t : Session}
    (hbuild : site.build path = .ok own t) : ∃ text pieces all,
      site.disk.readText path = .ok text ∧
      Expands site path (Stylesheet.imports text) pieces ∧
      ParsedSource.parse (some path) pieces.flatten = .ok all ∧
      (∀ d ∈ all.directives, ∃ requests,
        site.pipeline.directives.requests (some path) d = .ok requests) ∧
      executed site path = all.directives.map (record path) := by
  obtain ⟨rest, hchain, hrest⟩ := hsheet
  obtain ⟨text, _, hread, hevaluate⟩ := bind_eq_ok.1 hbuild
  obtain ⟨htext, rfl⟩ := ofExcept_eq_ok.1 hread
  let depth := 2 * site.disk.fileCount + 3
  change nested path (runSpecs (evaluateWithin site depth) site path text (chainOf site path))
    (forAsset path) = .ok own t at hevaluate
  obtain ⟨u, hrun, rfl⟩ := nested_ok hevaluate
  have hmark : (entered path (forAsset path)).marks.get? path = some .inProgress := by
    change (forAsset path).marks.get? path = _
    rw [get?_marks_forAsset, if_pos rfl]
  rw [hchain] at hrun
  obtain ⟨expanded, all, w, hexpand, hall, hknown, hlog⟩ :=
    logOf_of_runSpecs (evalQuiet_evaluateWithin site path depth) hmark hrest hrun
  obtain ⟨-, pieces, hexpands, rfl⟩ :=
    expandImports_ok (expandsImports_evaluateWithin site depth) hexpand
  rw [String.toList_ofList] at hall
  refine ⟨text, pieces, all, htext, hexpands, hall, hknown, ?_⟩
  rw [executed, hbuild]
  exact hlog

/-- What the directives of the expanded text ask for is counted. -/
theorem takesEffect_of_build (hs : site.IsProper) (hpath : path.IsCanonical)
    (hsheet : IsStylesheet site path) {own : String} {t : Session}
    (hbuild : site.build path = .ok own t) {text : String} (htext : site.disk.readText path = .ok text)
    {pieces : List (List Char)} (hexpands : Expands site path (Stylesheet.imports text) pieces)
    {all : ParsedSource} (hall : ParsedSource.parse (some path) pieces.flatten = .ok all)
    {d : Directive} (hd : d ∈ all.directives) {requests : List Request}
    (hrequests : site.pipeline.directives.requests (some path) d = .ok requests) :
    TakesEffect site path d t.dependencies := by
  obtain ⟨rest, hchain, -⟩ := hsheet
  have hreceives : Receives site path (chainOf site path) text ⟨.directives, []⟩
      (String.ofList pieces.flatten) := by
    rw [hchain]
    exact .later (.imports rfl hexpands) .here
  refine ⟨requests, hrequests, fun request hrequest q hq ↦ ?_⟩
  have hasks : Asks site path ⟨.directives, []⟩ (String.ofList pieces.flatten) request :=
    ⟨none, all, rfl, by rwa [String.toList_ofList], d, hd, requests, hrequests, hrequest⟩
  rw [mem_dependencies_of_build hs hpath hbuild]
  rcases hq with hq | hq
  · have hrequires : Requires site path q := ⟨text, htext, _, _, hreceives, request, hasks, hq⟩
    exact .inl (.single hrequires)
  · exact .inr ⟨path, .refl, text, htext, _, _, hreceives, .asked hasks hq⟩

end Build

/-- The directives that are executed for a file are those of the header of its own text, in the order of
the lines. -/
def ExecutesOwn (site : Site) (path : Path) : Prop :=
  ∃ text own, site.disk.readText path = .ok text ∧
    ParsedSource.parse (some path) text.toList = .ok own ∧
    executed site path = own.directives.map (record path)

section Headers

variable {site : Site} {path : Path}

/-- Characters between the imports stay where they are. -/
theorem expands_plain_append {cs : List Char} {rest : List (Text.Piece String)}
    {pieces : List (List Char)} (h : Expands site path (cs.map .plain ++ rest) pieces) :
    ∃ tail, Expands site path rest tail ∧ pieces.flatten = cs ++ tail.flatten := by
  induction cs generalizing pieces with
  | nil => exact ⟨pieces, h, rfl⟩
  | cons c cs ih =>
    cases h with
    | plain _ hrest =>
      obtain ⟨tail, htail, hflat⟩ := ih hrest
      exact ⟨tail, htail, congrArg (c :: ·) hflat⟩

theorem source_ne_nil_of_mem_pieces {α : Type} {recognise : List Char → Option (α × List Char)}
    {cs : List Char} {piece : Text.Piece α} (h : piece ∈ Text.pieces recognise cs) :
    piece.source ≠ [] := by
  fun_induction Text.pieces recognise cs with
  | case1 => cases h
  | case2 c cs a rest _ n ih =>
    obtain rfl | h := List.mem_cons.1 h
    · exact List.cons_ne_nil _ _
    · exact ih h
  | case3 c cs _ ih =>
    obtain rfl | h := List.mem_cons.1 h
    · exact List.cons_ne_nil _ _
    · exact ih h

/-- No piece comes after the last character. -/
theorem rest_eq_nil {text : String} {rest : List (Text.Piece String)}
    (h : Stylesheet.imports text = text.toList.map .plain ++ rest) : rest = [] := by
  have hflat : ((Stylesheet.imports text).map Text.Piece.source).flatten = text.toList :=
    Text.flatten_pieces Stylesheet.Import.recognise text.toList
  have hplain : ∀ cs : List Char,
      ((cs.map .plain).map (Text.Piece.source (α := String))).flatten = cs := by
    intro cs
    induction cs with
    | nil => rfl
    | cons c cs ih => exact congrArg (c :: ·) ih
  rw [h, List.map_append, List.flatten_append, hplain, List.append_right_eq_self] at hflat
  refine List.eq_nil_iff_forall_not_mem.2 fun piece hpiece ↦ ?_
  have hmem : piece ∈ Stylesheet.imports text := h ▸ List.mem_append_right _ hpiece
  exact source_ne_nil_of_mem_pieces hmem
    (List.flatten_eq_nil_iff.1 hflat _ (List.mem_map_of_mem hpiece))

/-- Nothing is expanded after a header that is the whole text. -/
theorem flatten_eq_nil_of_split {text : String} {rest : List (Text.Piece String)}
    {tail : List (List Char)} (htail : Expands site path rest tail)
    (himports : Stylesheet.imports text = (Header.split text.toList).1.map .plain ++ rest)
    (hnone : (Header.split text.toList).2 = []) : tail.flatten = [] := by
  have hheader := Header.split_append text.toList
  rw [hnone, List.append_nil] at hheader
  rw [hheader] at himports
  rw [rest_eq_nil himports] at htail
  cases htail
  rfl

/-- What is put after the header of a file that was read adds its own directives. -/
theorem map_record_of_parse {text : String} (htext : site.disk.readText path = .ok text)
    {tail : List Char} (htail : (Header.split text.toList).2 = [] → tail = []) {all : ParsedSource}
    (hall : ParsedSource.parse (some path) ((Header.split text.toList).1 ++ tail) = .ok all) :
    ∃ own more, ParsedSource.parse (some path) text.toList = .ok own ∧
      ParsedSource.parse (some path) tail = .ok more ∧
      all.directives.map (record path) =
        own.directives.map (record path) ++ more.directives.map (record path) := by
  obtain ⟨own, more, hown, hmore, hcalls⟩ :=
    ParsedSource.parse_header_append (Disk.not_mem_of_readText htext) htail hall
  refine ⟨own, more, hown, hmore, ?_⟩
  have hrecord : ∀ ds : List Directive, ds.map (record path) =
      (ds.map Directive.call).map fun words ↦ ⟨some path, words.headD "", words.tail⟩ := by
    simp [record, Directive.call]
  rw [hrecord, hcalls, List.map_append, ← hrecord, ← hrecord]

/-- A file executes its own directives exactly if it executes no more. -/
theorem executesOwn_iff {text : String} {own : ParsedSource} {more : List Directive}
    (htext : site.disk.readText path = .ok text)
    (hown : ParsedSource.parse (some path) text.toList = .ok own)
    (hexecuted : executed site path = own.directives.map (record path) ++ more.map (record path)) :
    ExecutesOwn site path ↔ more = [] := by
  constructor
  · rintro ⟨text', own', htext', hown', hlaw⟩
    cases htext.symm.trans htext'
    cases hown.symm.trans hown'
    rw [hexecuted] at hlaw
    exact List.map_eq_nil_iff.1 (List.append_right_eq_self.1 hlaw)
  · rintro rfl
    exact ⟨text, own, htext, hown, by rw [hexecuted, List.map_nil, List.append_nil]⟩

/-- The directives that are executed for a stylesheet are those of its expanded text, and each of them
takes effect. If no import begins in its own header they are its own and then those at the start of what is
expanded after the header, so they are its own exactly if that starts with none. -/
theorem executed_exact (hs : site.IsProper) {logical : String} {a : Asset}
    (ha : site.getAsset logical = .ok a) (hsheet : IsStylesheet site a.path) {body : String}
    {t : Asset.State} (hbody : Asset.body ⟨site, a⟩ = .ok body t) : ∃ text pieces all,
      site.disk.readText a.path = .ok text ∧
      Expands site a.path (Stylesheet.imports text) pieces ∧
      ParsedSource.parse (some a.path) pieces.flatten = .ok all ∧
      executed site a.path = all.directives.map (record a.path) ∧
      (∀ d ∈ all.directives, TakesEffect site a.path d t.asset.dependencies) ∧
      ∀ rest, Stylesheet.imports text = (Header.split text.toList).1.map .plain ++ rest →
        ∃ own tail more, ParsedSource.parse (some a.path) text.toList = .ok own ∧
          Expands site a.path rest tail ∧
          ParsedSource.parse (some a.path) tail.flatten = .ok more ∧
          executed site a.path =
            own.directives.map (record a.path) ++ more.directives.map (record a.path) ∧
          (ExecutesOwn site a.path ↔ more.directives = []) := by
  obtain ⟨path, hpath, hmade⟩ := except_bind_eq_ok.1 ha
  have hasset : Asset.ofFile path (some logical) = a := Except.ok.inj hmade
  have hcanonical : a.path.IsCanonical := by
    rw [← hasset]
    exact Site.isCanonical_of_getFile hs hpath
  have hnew : a.builtBody = none := by
    rw [← hasset]
    rfl
  obtain ⟨_, u, hbuild, -⟩ := Site.bodyOf_eq_ok.1 (Asset.bodyOf_of_body hnew hbody)
  obtain ⟨text, pieces, all, htext, hexpands, hall, hknown, hexecuted⟩ := executed_eq hsheet hbuild
  have hdependencies : t.asset.dependencies = u.dependencies := by
    cases hbody.symm.trans (Asset.body_of_build_ok (s := ⟨site, a⟩) hnew hbuild)
    rw [← hasset]
    rfl
  refine ⟨text, pieces, all, htext, hexpands, hall, hexecuted, fun d hd ↦ ?_, fun rest himports ↦ ?_⟩
  · obtain ⟨requests, hrequests⟩ := hknown d hd
    rw [hdependencies]
    exact takesEffect_of_build hs hcanonical hsheet hbuild htext hexpands hall hd hrequests
  obtain ⟨tail, htail, hflat⟩ := expands_plain_append (himports ▸ hexpands)
  rw [hflat] at hall
  obtain ⟨own, more, hown, hmore, hrecord⟩ :=
    map_record_of_parse htext (flatten_eq_nil_of_split htail himports) hall
  rw [hrecord] at hexecuted
  exact ⟨own, tail, more, hown, htail, hmore, hexecuted, executesOwn_iff htext hown hexecuted⟩

/-- A stylesheet that imports another one after its own header and a rule. -/
def posterText : String := "/*= depend_on list */\nmain;\n@import \"sizes.css\";\n"

def poster : Site :=
  Site.sample "local" [
    ("main.css", .file posterText.toUTF8 1),
    ("list.css", .file "list;\n".toUTF8 1),
    ("sizes.css", .file "/*= require list */\nsizes;\n".toUTF8 1)] []

theorem isStylesheet_poster : IsStylesheet poster (.absolute ["src", "main.css"]) :=
  ⟨[⟨.less, []⟩], rfl, List.forall_mem_singleton.2
    ⟨fun _ ↦ Step.noConfusion, Step.noConfusion⟩⟩

theorem poster_executes_own : ∃ a body t, poster.getAsset "main.css" = .ok a ∧
    Asset.body ⟨poster, a⟩ = .ok body t ∧
    body = "\nmain;\n/*= require list */\nsizes;\n\n\n" ∧ ExecutesOwn poster a.path := by
  have ha : poster.getAsset "main.css" =
      .ok (.ofFile (.absolute ["src", "main.css"]) (some "main.css")) :=
    eq_ok_of_toOption (by decide +kernel)
  have hbuild : poster.bodyOf (.absolute ["src", "main.css"]) =
      .ok "\nmain;\n/*= require list */\nsizes;\n\n\n" := eq_ok_of_toOption (by decide +kernel)
  have hread : poster.disk.readText (.absolute ["src", "main.css"]) = .ok posterText :=
    eq_ok_of_toOption (by decide +kernel)
  have himports : Stylesheet.imports posterText =
      (Header.split posterText.toList).1.map .plain ++ (Stylesheet.imports posterText).drop 22 := by
    decide +kernel
  have hexecuted : executed poster (.absolute ["src", "main.css"]) =
      [⟨some (.absolute ["src", "main.css"]), "depend_on", ["list"]⟩] := by decide +kernel
  have hown : ParsedSource.parse (some (.absolute ["src", "main.css"])) posterText.toList =
      .ok ⟨"/*= depend_on list */\n".toList, "main;\n@import \"sizes.css\";\n".toList,
        [⟨0, "depend_on", ["list"]⟩]⟩ := eq_ok_of_toOption (by decide +kernel)
  obtain ⟨_, t, hok, htext⟩ := Site.bodyOf_eq_ok.1 hbuild
  have hbody := Asset.body_of_build_ok
    (s := ⟨poster, .ofFile (.absolute ["src", "main.css"]) (some "main.css")⟩) rfl hok
  obtain ⟨_, _, _, hread', -, -, -, -, hlaw⟩ :=
    executed_exact (Site.isProper_sample ..) ha isStylesheet_poster hbody
  cases hread.symm.trans hread'
  obtain ⟨own, _, more, hown', -, -, hsum, hiff⟩ := hlaw _ himports
  refine ⟨_, _, _, ha, hbody, htext.symm, hiff.2 ?_⟩
  cases hown.symm.trans hown'
  have hnone := List.append_right_eq_self.1 (hsum.symm.trans hexecuted)
  exact List.map_eq_nil_iff.1 hnone

/-- The same with the import at the start. -/
def billboard : Site :=
  Site.sample "local" [
    ("main.css", .file "@import \"sizes.css\";\nmain;\n".toUTF8 1),
    ("list.css", .file "list;\n".toUTF8 1),
    ("sizes.css", .file "/*= require list */\nsizes;\n".toUTF8 1)] []

/-- A directive of an imported file is executed for the file that imports it. -/
theorem billboard_executes_imported : billboard.bodyOf (.absolute ["src", "main.css"]) =
      .ok "list;\n\nsizes;\n\n\nmain;\n" ∧
    executed billboard (.absolute ["src", "main.css"]) =
      [⟨some (.absolute ["src", "main.css"]), "require", ["list"]⟩] ∧
    ¬ExecutesOwn billboard (.absolute ["src", "main.css"]) := by
  have htext : billboard.disk.readText (.absolute ["src", "main.css"]) =
      .ok "@import \"sizes.css\";\nmain;\n" := eq_ok_of_toOption (by decide +kernel)
  have hown : ParsedSource.parse (some (.absolute ["src", "main.css"]))
      "@import \"sizes.css\";\nmain;\n".toList =
        .ok ⟨[], "@import \"sizes.css\";\nmain;\n".toList, []⟩ :=
    eq_ok_of_toOption (by decide +kernel)
  have hexecuted : executed billboard (.absolute ["src", "main.css"]) =
      [⟨some (.absolute ["src", "main.css"]), "require", ["list"]⟩] := by decide +kernel
  refine ⟨eq_ok_of_toOption (by decide +kernel), hexecuted, ?_⟩
  rintro ⟨text, own, htext', hown', hlaw⟩
  cases htext.symm.trans htext'
  cases hown.symm.trans hown'
  rw [hexecuted] at hlaw
  cases hlaw

end Headers

end AssetBundler.Session
