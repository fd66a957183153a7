import AssetBundler.Proofs.Asset.Body
import AssetBundler.Proofs.Disk.Frame
import AssetBundler.Proofs.Disk.Reading

/-!
# Freshness

A development file is written as bytes and read back as text. Reading can tell the body from what the
file holds only if the file is UTF-8 and has no carriage return, or has one and is neither the body nor
read as it (`TellsBody`). Main statement: what is fresh, what publishing does and when, for every content
and time of the target, and that this is what the bytes say exactly as far as reading can tell.
-/

namespace AssetBundler.Asset

open AssetBundler.Action

/-- Reading a file with these bytes can tell whether they are the bytes of the body. -/
def TellsBody (bytes : ByteArray) (text : String) : Prop :=
  ∃ held : String, bytes = held.toUTF8 ∧
    ('\r' ∈ held.toList → held ≠ text ∧ unifyNewlines held ≠ text)

/-- A target with these bytes and this time is fresh if it is not older than what the body is made of
and holds the bytes of the body. -/
def GoesByBytes (s t : State) (target : Path) (text : String) (bytes : ByteArray)
    (time latest : Nat) : Prop :=
  ∃ b, isFresh target s = .ok b t ∧ (b = true ↔ latest ≤ time ∧ bytes = text.toUTF8)

theorem tellsBody_toUTF8 {held text : String} : TellsBody held.toUTF8 text ↔
    ('\r' ∈ held.toList → held ≠ text ∧ unifyNewlines held ≠ text) := by
  constructor
  · rintro ⟨other, hother, h⟩
    rwa [toUTF8_inj.1 hother]
  · exact fun h ↦ ⟨held, rfl, h⟩

/-- Reading can tell if the text that is read is the body exactly when the text that is held is. -/
theorem tellsBody_iff_agrees {held text : String} : TellsBody held.toUTF8 text ↔
    (unifyNewlines held = text ↔ held = text) := by
  rw [tellsBody_toUTF8]
  by_cases hreturn : '\r' ∈ held.toList
  · -- the text that is read differs from the one that is held, so the body is at most one of them
    have hne : unifyNewlines held ≠ held := fun h ↦ unifyNewlines_eq_self_iff.1 h hreturn
    constructor
    · intro h
      exact ⟨fun heq ↦ absurd heq (h hreturn).2, fun heq ↦ absurd heq (h hreturn).1⟩
    · intro h _
      constructor
      · exact fun heq ↦ hne ((h.2 heq).trans heq.symm)
      · exact fun heq ↦ hne (heq.trans (h.1 heq).symm)
  · rw [unifyNewlines_eq_self_iff.2 hreturn]
    exact ⟨fun _ ↦ Iff.rfl, fun _ h ↦ absurd h hreturn⟩

theorem ask_of_ok {α : Type} {question : State → Except Failure α} {s : State} {a : α}
    (h : question s = .ok a) : ask question s = .ok a s := by
  unfold ask
  rw [h]

theorem ask_of_error {α : Type} {question : State → Except Failure α} {s : State} {e : Failure}
    (h : question s = .error e) : ask question s = .error e s := by
  unfold ask
  rw [h]

theorem finalState_ask {α : Type} (question : State → Except Failure α) (s : State) :
    finalState (ask question s) = s := by
  unfold ask
  cases question s <;> rfl

theorem isFile_eq_ok {s : Site} {p : Path} {b : Bool} :
    s.isFile p = .ok b ↔ s.disk.isFile p = .ok b := by
  unfold Site.isFile Disk.orFail
  cases s.disk.isFile p <;> simp

theorem isFile_of_find {s : Site} {p : Path} {bytes : ByteArray} {time : Nat}
    (h : s.disk.find p = .ok (.file bytes time)) : s.isFile p = .ok true :=
  isFile_eq_ok.2 (Disk.isFile_of_find h)

/-- After the body is built, asking for the latest time changes nothing. -/
theorem lastModified_again {s t : State} {text : String} (hbody : body s = .ok text t) :
    lastModified s = lastModified t := by
  unfold lastModified
  rw [bind_of_ok hbody, bind_of_ok (body_again hbody)]

theorem finalState_lastModified {s t : State} {text : String} (hbody : body s = .ok text t) :
    finalState (lastModified s) = t := by
  unfold lastModified
  rw [bind_of_ok hbody]
  exact finalState_ask _ t

section File

variable {s t : State} {text : String} {target : Path} {bytes : ByteArray} {time : Nat}

theorem isFresh_of_no_file (h : s.site.isFile target = .ok false) :
    isFresh target s = .ok false s := by
  unfold isFresh
  rw [bind_of_ok (ask_of_ok h)]
  rfl

/-- With a file as target the answer hangs on the latest time first. -/
theorem isFresh_of_file (hfile : s.site.disk.find target = .ok (.file bytes time)) :
    isFresh target s = (do
      if time < (← lastModified) then return false
      else
        let read ← ask fun s ↦ s.site.disk.readText target
        return read == (← body) : Action Bool) s := by
  have htime : Disk.orFail (s.site.disk.time target) = .ok time := by
    rw [Disk.time_of_find hfile]
    rfl
  unfold isFresh
  rw [bind_of_ok (ask_of_ok (isFile_of_find hfile))]
  exact bind_of_ok (ask_of_ok htime)

theorem isFresh_of_time_error (hfile : s.site.disk.find target = .ok (.file bytes time))
    {e : Failure} (hlatest : lastModified s = .error e t) : isFresh target s = .error e t := by
  rw [isFresh_of_file hfile, bind_of_error hlatest]

/-- Building the body changes no answer. -/
theorem isFresh_again (hbody : body s = .ok text t)
    (hfile : s.site.disk.find target = .ok (.file bytes time)) :
    isFresh target t = isFresh target s := by
  have hfile' : t.site.disk.find target = .ok (.file bytes time) := by
    rw [(movesAlong_body.ok hbody).disk]
    exact hfile
  rw [isFresh_of_file hfile', isFresh_of_file hfile]
  exact bind_congr (lastModified_again hbody).symm

variable (hbody : body s = .ok text t) {latest : Nat} (hlatest : lastModified s = .ok latest t)

include hlatest in
theorem isFresh_of_older (hfile : s.site.disk.find target = .ok (.file bytes time))
    (htime : time < latest) : isFresh target s = .ok false t := by
  rw [isFresh_of_file hfile, bind_of_ok hlatest, if_pos htime]
  rfl

include hbody hlatest

theorem isFresh_of_text (hfile : s.site.disk.find target = .ok (.file bytes time))
    (htime : ¬ time < latest) {held : String} (hheld : bytes = held.toUTF8) :
    isFresh target s = .ok (unifyNewlines held == text) t := by
  have hread : t.site.disk.readText target = .ok (unifyNewlines held) := by
    rw [(movesAlong_body.ok hbody).disk, Disk.readText_of_find hfile, fromUTF8?_eq_some.2 hheld]
  calc
    isFresh target s = (do
        let read ← ask fun s ↦ s.site.disk.readText target
        return read == (← body) : Action Bool) t := by
      rw [isFresh_of_file hfile, bind_of_ok hlatest, if_neg htime]
    _ = (do return unifyNewlines held == (← body) : Action Bool) t := bind_of_ok (ask_of_ok hread)
    _ = .ok (unifyNewlines held == text) t := bind_of_ok (body_again hbody)

theorem isFresh_of_no_text (hfile : s.site.disk.find target = .ok (.file bytes time))
    (htime : ¬ time < latest) (hbytes : String.fromUTF8? bytes = none) :
    isFresh target s = .error (.notText target) t := by
  have hread : t.site.disk.readText target = .error (.notText target) := by
    rw [(movesAlong_body.ok hbody).disk, Disk.readText_of_find hfile, hbytes]
  rw [isFresh_of_file hfile, bind_of_ok hlatest, if_neg htime, bind_of_error (ask_of_error hread)]

/-- The answers about a target that is a file with these bytes and this time. -/
inductive Judges (t : State) (text : String) (target : Path) (bytes : ByteArray) (time latest : Nat) :
    EStateM.Result Failure State Bool → Prop where
  | older (htime : time < latest) : Judges t text target bytes time latest (.ok false t)
  | noText (htime : latest ≤ time) (hbytes : ∀ held : String, bytes ≠ held.toUTF8) :
    Judges t text target bytes time latest (.error (.notText target) t)
  | text {held : String} (htime : latest ≤ time) (hheld : bytes = held.toUTF8) :
    Judges t text target bytes time latest (.ok (unifyNewlines held == text) t)

theorem judges_isFresh (hfile : s.site.disk.find target = .ok (.file bytes time)) :
    Judges t text target bytes time latest (isFresh target s) := by
  by_cases htime : time < latest
  · rw [isFresh_of_older hlatest hfile htime]
    exact .older htime
  · have hle : latest ≤ time := by omega
    rcases hdecode : String.fromUTF8? bytes with _ | held
    · rw [isFresh_of_no_text hbody hlatest hfile htime hdecode]
      refine .noText hle fun held hheld ↦ ?_
      rw [fromUTF8?_eq_some.2 hheld] at hdecode
      cases hdecode
    · have hheld := fromUTF8?_eq_some.1 hdecode
      rw [isFresh_of_text hbody hlatest hfile htime hheld]
      exact .text hle hheld

theorem isFresh_eq_true_iff (hfile : s.site.disk.find target = .ok (.file bytes time)) :
    isFresh target s = .ok true t ↔
      latest ≤ time ∧ ∃ held : String, bytes = held.toUTF8 ∧ unifyNewlines held = text := by
  have hanswer := judges_isFresh hbody hlatest hfile
  generalize isFresh target s = r at hanswer
  cases hanswer with
  | older htime => exact iff_of_false (by rintro ⟨⟩) fun h ↦ absurd h.1 (by omega)
  | noText htime hbytes =>
    refine iff_of_false (by rintro ⟨⟩) ?_
    rintro ⟨-, held, hheld, -⟩
    exact hbytes held hheld
  | @text held htime hheld =>
    rw [EStateM.Result.ok.injEq, beq_iff_eq, and_iff_left rfl]
    constructor
    · exact fun h ↦ ⟨htime, held, hheld, h⟩
    · rintro ⟨-, other, hother, h⟩
      rwa [toUTF8_inj.1 (hheld.symm.trans hother)]

theorem isFresh_eq_notText_iff (hfile : s.site.disk.find target = .ok (.file bytes time)) :
    isFresh target s = .error (.notText target) t ↔
      latest ≤ time ∧ ∀ held : String, bytes ≠ held.toUTF8 := by
  have hanswer := judges_isFresh hbody hlatest hfile
  generalize isFresh target s = r at hanswer
  cases hanswer with
  | older htime => exact iff_of_false (by rintro ⟨⟩) fun h ↦ absurd h.1 (by omega)
  | noText htime hbytes => exact iff_of_true rfl ⟨htime, hbytes⟩
  | @text held htime hheld => exact iff_of_false (by rintro ⟨⟩) fun h ↦ h.2 held hheld

/-- Freshness is a matter of bytes and times exactly as far as reading can tell. -/
theorem goesByBytes_iff (hfile : s.site.disk.find target = .ok (.file bytes time)) :
    GoesByBytes s t target text bytes time latest ↔ time < latest ∨ TellsBody bytes text := by
  have hanswer := judges_isFresh hbody hlatest hfile
  unfold GoesByBytes
  generalize isFresh target s = r at hanswer
  cases hanswer with
  | older htime =>
    have hnot : ¬ (latest ≤ time ∧ bytes = text.toUTF8) := fun h ↦ absurd h.1 (by omega)
    exact iff_of_true ⟨false, rfl, iff_of_false Bool.false_ne_true hnot⟩ (.inl htime)
  | noText htime hbytes =>
    refine iff_of_false (by rintro ⟨_, ⟨⟩, -⟩) ?_
    rintro (h | ⟨held, hheld, -⟩)
    · omega
    · exact hbytes held hheld
  | @text held htime hheld =>
    rw [hheld, toUTF8_inj, tellsBody_iff_agrees, or_iff_right (by omega),
      ← beq_iff_eq (a := unifyNewlines held)]
    constructor
    · rintro ⟨b, hb, hiff⟩
      rw [(EStateM.Result.ok.inj hb).1, hiff]
      exact and_iff_right htime
    · intro hagrees
      refine ⟨_, rfl, hagrees.trans ?_⟩
      exact (and_iff_right htime).symm

end File

/-! ## Publishing -/

/-- The path of the file that an asset has in development. -/
def plainTarget (s : State) : Path :=
  s.site.pipeline.targetPath.join (s.asset.outputName s.site.pipeline)

/-- What came of an asset in development. -/
def plainPublished (s : State) (isWritten : Bool) : Published :=
  ⟨plainTarget s, s.site.pipeline.publishedUrl (s.asset.outputName s.site.pipeline),
    s.asset.outputName s.site.pipeline, isWritten, false⟩

theorem path_plainPublished (s : State) (isWritten : Bool) :
    (plainPublished s isWritten).path = plainTarget s := by
  simp only [plainPublished]

theorem isWritten_plainPublished (s : State) (isWritten : Bool) :
    (plainPublished s isWritten).isWritten = isWritten := by
  simp only [plainPublished]

theorem published_of_pipeline {s t : State} (h : t.site.pipeline = s.site.pipeline)
    (isWritten : Bool) :
    published (s.asset.outputName s.site.pipeline) isWritten false t =
      .ok (plainPublished s isWritten) t := by
  change EStateM.Result.ok (⟨t.site.pipeline.targetPath.join _, t.site.pipeline.publishedUrl _, _,
    _, _⟩ : Published) t = _
  rw [h]
  rfl

section Publish

variable {s t : State} {text : String} (hdev : s.site.pipeline.inProduction = false)
  (hbody : body s = .ok text t)

include hdev hbody

omit hbody in
theorem publish_eq_publishPlain : publish s = publishPlain s := by
  have hrecorded : recordedName s = .ok none s := by
    change EStateM.Result.ok ((s.asset.inManifest s.site.pipeline).filter (· ≠ "")) s = _
    unfold inManifest
    rw [hdev]
    rfl
  unfold publish
  rw [bind_of_ok hrecorded]
  change (do
    if (← get).site.pipeline.inProduction then publishFingerprinted else publishPlain :
      Action Published) s = _
  rw [bind_of_ok (get_apply s), if_neg (by simp [hdev])]

/-- In development everything hangs on whether the target is fresh. -/
theorem publish_of_development :
    publish s = (do
      if ← isFresh (plainTarget s) then
        published (s.asset.outputName s.site.pipeline) false false
      else
        writeFile (plainTarget s) text
        published (s.asset.outputName s.site.pipeline) true false : Action Published) t := by
  have htarget : outputPath (s.asset.outputName s.site.pipeline) s = .ok (plainTarget s) s := rfl
  rw [publish_eq_publishPlain hdev]
  unfold publishPlain
  rw [bind_of_ok (get_apply s), bind_of_ok htarget, bind_of_ok hbody]

theorem publish_of_fresh (hfresh : isFresh (plainTarget s) t = .ok true t) :
    publish s = .ok (plainPublished s false) t := by
  rw [publish_of_development hdev hbody, bind_of_ok hfresh]
  exact published_of_pipeline (movesAlong_body.ok hbody).pipeline _

/-- A target that is not fresh is written, unless the disk refuses. -/
theorem publish_of_stale {u : State} (hu : s.SameSource u)
    (hfresh : isFresh (plainTarget s) t = .ok false u) :
    (∃ v, publish s = .ok (plainPublished s true) v ∧
      v.site.disk.readBytes (plainTarget s) = .ok text.toUTF8) ∨
    ∃ why v, publish s = .error (.notWritten (plainTarget s) why) v := by
  rw [publish_of_development hdev hbody, bind_of_ok hfresh]
  change (∃ v, (writeFile (plainTarget s) text >>= fun _ ↦
    published (s.asset.outputName s.site.pipeline) true false) u = .ok _ v ∧ _) ∨
    ∃ why v, (writeFile (plainTarget s) text >>= fun _ ↦
      published (s.asset.outputName s.site.pipeline) true false) u = .error _ v
  rcases hwrite : Disk.writeText (plainTarget s) text u.site.disk with ⟨_, disk⟩ | ⟨why, disk⟩
  · left
    refine ⟨⟨{ u.site with disk }, u.asset⟩, ?_, ?_⟩
    · rw [bind_of_ok (writeFile_of_ok hwrite)]
      exact published_of_pipeline (t := ⟨{ u.site with disk }, u.asset⟩) hu.pipeline true
    · obtain ⟨-, place, name, hlast, hup, hslot, hbytes⟩ := Disk.writeText_ok hwrite
      exact Disk.readBytes_of_bytesAt rfl (fun _ h ↦ h) hlast hup hslot hbytes
  · right
    exact ⟨why, _, bind_of_error (writeFile_of_error hwrite)⟩

/-- What a publication that ends well has done follows from what is fresh after the body is built. -/
theorem publish_eq_ok {b : Bool} (hfresh : isFresh (plainTarget s) t = .ok b t) {r : Published}
    {u : State} (h : publish s = .ok r u) : r = plainPublished s (!b) ∧ (b = true → u = t) ∧
      (b = false → u.site.disk.readBytes (plainTarget s) = .ok text.toUTF8) := by
  cases b with
  | true =>
    rw [publish_of_fresh hdev hbody hfresh] at h
    obtain ⟨rfl, rfl⟩ := EStateM.Result.ok.inj h
    exact ⟨rfl, fun _ ↦ rfl, Bool.noConfusion⟩
  | false =>
    rcases publish_of_stale hdev hbody (movesAlong_body.ok hbody) hfresh with
      ⟨v, hv, hbytes⟩ | ⟨why, v, hv⟩
    · rw [hv] at h
      obtain ⟨rfl, rfl⟩ := EStateM.Result.ok.inj h
      exact ⟨rfl, Bool.noConfusion, fun _ ↦ hbytes⟩
    · rw [hv] at h
      cases h

/-- A publication fails in writing only. -/
theorem publish_eq_error {b : Bool} (hfresh : isFresh (plainTarget s) t = .ok b t) {e : Failure}
    {u : State} (h : publish s = .error e u) : ∃ why, e = .notWritten (plainTarget s) why := by
  cases b with
  | true =>
    rw [publish_of_fresh hdev hbody hfresh] at h
    cases h
  | false =>
    rcases publish_of_stale hdev hbody (movesAlong_body.ok hbody) hfresh with
      ⟨v, hv, -⟩ | ⟨why, v, hv⟩
    · rw [hv] at h
      cases h
    · rw [hv] at h
      cases h
      exact ⟨why, rfl⟩

/-- A target that is no file is written, unless the disk refuses. -/
theorem publish_of_no_file (hmissing : s.site.isFile (plainTarget s) = .ok false) :
    (∀ r u, publish s = .ok r u → r.path = plainTarget s ∧ r.isWritten = true ∧
      u.site.disk.readBytes (plainTarget s) = .ok text.toUTF8) ∧
    ∀ e u, publish s = .error e u → ∃ why, e = .notWritten (plainTarget s) why := by
  have hfresh : isFresh (plainTarget s) t = .ok false t := by
    apply isFresh_of_no_file
    rw [isFile_eq_ok, (movesAlong_body.ok hbody).disk]
    exact isFile_eq_ok.1 hmissing
  constructor
  · intro r u hr
    obtain ⟨rfl, -, hwritten⟩ := publish_eq_ok hdev hbody hfresh hr
    exact ⟨path_plainPublished s _, isWritten_plainPublished s _, hwritten rfl⟩
  · exact fun e u ↦ publish_eq_error hdev hbody hfresh

end Publish

/-! ## The law of targets -/

/-- What is promised of a target that is a file with these bytes and this time: it is fresh if it is
not older than anything the body is made of and holds the body; a publication that ends well leaves the
bytes of the body, one that fails has failed in writing; and a target that is fresh stays as it is. -/
structure KeepsBody (s t : State) (text : String) (bytes : ByteArray) (time latest : Nat) : Prop where
  fresh : GoesByBytes s t (plainTarget s) text bytes time latest
  holds : ∀ r u, publish s = .ok r u → r.path = plainTarget s ∧
    u.site.disk.readBytes (plainTarget s) = .ok text.toUTF8
  raises : ∀ e u, publish s = .error e u → ∃ why, e = .notWritten (plainTarget s) why
  again : latest ≤ time → bytes = text.toUTF8 → ∃ r, publish s = .ok r t ∧ r.isWritten = false

theorem keepsBody_iff {s t : State} {text : String} {latest : Nat} {bytes : ByteArray} {time : Nat}
    (hdev : s.site.pipeline.inProduction = false) (hbody : body s = .ok text t)
    (hlatest : lastModified s = .ok latest t)
    (hfile : s.site.disk.find (plainTarget s) = .ok (.file bytes time)) :
    KeepsBody s t text bytes time latest ↔ time < latest ∨ TellsBody bytes text := by
  rw [← goesByBytes_iff hbody hlatest hfile]
  constructor
  · exact KeepsBody.fresh
  intro hfresh
  have hsame : s.SameSource t := movesAlong_body.ok hbody
  obtain ⟨b, hfirst, hb⟩ := hfresh
  have hagain : isFresh (plainTarget s) t = .ok b t := by
    rw [isFresh_again hbody hfile]
    exact hfirst
  refine ⟨⟨b, hfirst, hb⟩, ?_, fun e u ↦ publish_eq_error hdev hbody hagain, ?_⟩
  · intro r u hr
    obtain ⟨rfl, hstays, hwritten⟩ := publish_eq_ok hdev hbody hagain hr
    refine ⟨path_plainPublished s _, ?_⟩
    by_cases hholds : latest ≤ time ∧ bytes = text.toUTF8
    · rw [hstays (hb.2 hholds), hsame.disk, ← hholds.2]
      exact Disk.readBytes_of_find hfile
    · exact hwritten (Bool.eq_false_iff.2 fun h ↦ hholds (hb.1 h))
  · intro htime hbytes
    rw [hb.2 ⟨htime, hbytes⟩] at hagain
    exact ⟨_, publish_of_fresh hdev hbody hagain, isWritten_plainPublished s _⟩

/-- Freshness and development publishing for every state of the target. -/
theorem freshness_exact {s t : State} {text : String} (hdev : s.site.pipeline.inProduction = false)
    (hbody : body s = .ok text t) :
    (∀ target, s.site.isFile target = .ok false → isFresh target s = .ok false s) ∧
    (s.site.isFile (plainTarget s) = .ok false →
      (∀ r u, publish s = .ok r u → r.path = plainTarget s ∧ r.isWritten = true ∧
        u.site.disk.readBytes (plainTarget s) = .ok text.toUTF8) ∧
      ∀ e u, publish s = .error e u → ∃ why, e = .notWritten (plainTarget s) why) ∧
    (∀ target bytes time, s.site.disk.find target = .ok (.file bytes time) →
      (∀ e, lastModified s = .error e t → isFresh target s = .error e t) ∧
      ∀ latest, lastModified s = .ok latest t →
        (isFresh target s = .ok true t ↔
          latest ≤ time ∧ ∃ held : String, bytes = held.toUTF8 ∧ unifyNewlines held = text) ∧
        (isFresh target s = .error (.notText target) t ↔
          latest ≤ time ∧ ∀ held : String, bytes ≠ held.toUTF8) ∧
        (GoesByBytes s t target text bytes time latest ↔
          time < latest ∨ TellsBody bytes text)) ∧
    ∀ bytes time latest, s.site.disk.find (plainTarget s) = .ok (.file bytes time) →
      lastModified s = .ok latest t →
        (KeepsBody s t text bytes time latest ↔ time < latest ∨ TellsBody bytes text) := by
  refine ⟨fun target ↦ isFresh_of_no_file, publish_of_no_file hdev hbody, ?_, ?_⟩
  · intro target bytes time hfile
    refine ⟨fun e ↦ isFresh_of_time_error hfile, ?_⟩
    intro latest hlatest
    exact ⟨isFresh_eq_true_iff hbody hlatest hfile, isFresh_eq_notText_iff hbody hlatest hfile,
      goesByBytes_iff hbody hlatest hfile⟩
  · intro bytes time latest hfile hlatest
    exact keepsBody_iff hdev hbody hlatest hfile

/-- A script of two lines and a published file of given content, written after it. -/
def publishedSample (content : String) : State :=
  ⟨Site.sample "local" [("a.js", .file "A();\nB();\n".toUTF8 1)]
    [("a.js", .file content.toUTF8 2)], .ofFile (.absolute ["src", "a.js"]) (some "a.js")⟩

theorem freshness_of_current_file :
    ∃ t, body (publishedSample "A();\nB();\n") = .ok "A();\nB();\n" t ∧
      KeepsBody (publishedSample "A();\nB();\n") t "A();\nB();\n" "A();\nB();\n".toUTF8 2 1 := by
  have hbody := eq_ok_of_result? (show result? (body (publishedSample "A();\nB();\n")) =
    some "A();\nB();\n" by decide +kernel)
  have hlatest := eq_ok_of_result? (show result? (lastModified (publishedSample "A();\nB();\n")) =
    some 1 by decide +kernel)
  rw [finalState_lastModified hbody] at hlatest
  refine ⟨_, hbody, ?_⟩
  apply ((freshness_exact (by decide) hbody).2.2.2 _ 2 1 rfl hlatest).2
  right
  exact ⟨_, rfl, fun h ↦ absurd h (by decide)⟩

/-- A file with other line ends than the body counts as fresh and is left as it is. -/
theorem fresh_with_other_bytes :
    ∃ s t bytes time latest, s.site.pipeline.inProduction = false ∧
      body s = .ok "A();\nB();\n" t ∧
      s.site.disk.find (plainTarget s) = .ok (.file bytes time) ∧
      lastModified s = .ok latest t ∧ latest ≤ time ∧ bytes ≠ "A();\nB();\n".toUTF8 ∧
      isFresh (plainTarget s) s = .ok true t ∧
      publish s = .ok (plainPublished s false) t ∧
      t.site.disk.readBytes (plainTarget s) = .ok bytes := by
  have hbody := eq_ok_of_result? (show result? (body (publishedSample "A();\r\nB();\r\n")) =
    some "A();\nB();\n" by decide +kernel)
  have hlatest := eq_ok_of_result? (show result? (lastModified (publishedSample
    "A();\r\nB();\r\n")) = some 1 by decide +kernel)
  rw [finalState_lastModified hbody] at hlatest
  have hfile : (publishedSample "A();\r\nB();\r\n").site.disk.find
      (plainTarget (publishedSample "A();\r\nB();\r\n")) =
        .ok (.file "A();\r\nB();\r\n".toUTF8 2) := rfl
  have hfresh := (isFresh_eq_true_iff hbody hlatest hfile).2
    ⟨by decide, "A();\r\nB();\r\n", rfl, by decide⟩
  refine ⟨_, _, _, 2, 1, by decide, hbody, hfile, hlatest, by decide, by decide +kernel, hfresh,
    publish_of_fresh (by decide) hbody ?_, ?_⟩
  · rw [isFresh_again hbody hfile]
    exact hfresh
  · rw [(movesAlong_body.ok hbody).disk]
    exact Disk.readBytes_of_find hfile

end AssetBundler.Asset
