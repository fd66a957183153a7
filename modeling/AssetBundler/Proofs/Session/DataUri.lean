import AssetBundler.Proofs.Asset.Body
import AssetBundler.Proofs.Disk.Reading
import AssetBundler.Proofs.Encoding.Base64
import AssetBundler.Proofs.Encoding.Percent

/-!
# Data URIs

A file that a path leads to is given as a URI with its content type and a payload. Whatever bytes the
file holds, the payload is made of letters, digits and three escapes, and carries exactly these bytes
(`dataUri_exact`).
-/

namespace AssetBundler.Session

open AssetBundler.Action

/-- Letters, digits and the escapes of the plus sign, the slash and the equals sign. -/
inductive IsPayload : List Char → Prop where
  | nil : IsPayload []
  | plain {c : Char} {cs : List Char} (hc : c.isAlphanum = true) (h : IsPayload cs) :
      IsPayload (c :: cs)
  | escape {e : String} {cs : List Char} (he : e ∈ ["%2B", "%2F", "%3D"]) (h : IsPayload cs) :
      IsPayload (e.toList ++ cs)

/-- The bytes that a payload carries: it is percent-decoded to a text, which is read as Base64. -/
def carried (payload : String) : Option (List UInt8) :=
  (String.fromUTF8? ⟨(Percent.decode payload.toList).toArray⟩).bind fun text ↦
    Base64.decode text.toList

/-- A character of Base64 is a letter, a digit or one of the three that are escaped. -/
theorem encodeChar_of_base64 {c : Char} (h : c ∈ Base64.alphabet ∨ c = '=') :
    c.isAlphanum = true ∧ Percent.encodeChar c = [c] ∨
      ∃ e ∈ ["%2B", "%2F", "%3D"], Percent.encodeChar c = e.toList := by
  have hall : (('=' :: Base64.alphabet).all fun c ↦ decide
      (c.isAlphanum = true ∧ Percent.encodeChar c = [c] ∨
        ∃ e ∈ ["%2B", "%2F", "%3D"], Percent.encodeChar c = e.toList)) = true := by decide +kernel
  exact of_decide_eq_true (List.all_eq_true.1 hall c (List.mem_cons.2 h.symm))

theorem isPayload_flatMap {cs : List Char} (h : ∀ c ∈ cs, c ∈ Base64.alphabet ∨ c = '=') :
    IsPayload (cs.flatMap Percent.encodeChar) := by
  induction cs with
  | nil => exact .nil
  | cons c cs ih =>
    rw [List.forall_mem_cons] at h
    rw [List.flatMap_cons]
    rcases encodeChar_of_base64 h.1 with ⟨hc, hplain⟩ | ⟨e, he, hescape⟩
    · rw [hplain]
      exact .plain hc (ih h.2)
    · rw [hescape]
      exact .escape he (ih h.2)

/-- The payload for some bytes. -/
def payloadOf (bytes : ByteArray) : String :=
  Percent.encode (String.ofList (Base64.encode bytes.data.toList))

theorem isPayload_payloadOf (bytes : ByteArray) : IsPayload (payloadOf bytes).toList := by
  unfold payloadOf Percent.encode
  rw [String.toList_ofList, String.toList_ofList]
  exact isPayload_flatMap fun c hc ↦ Base64.mem_encode hc

theorem carried_payloadOf (bytes : ByteArray) : carried (payloadOf bytes) = some bytes.data.toList := by
  unfold carried payloadOf
  rw [Percent.decode_encode, Array.toArray_toList, fromUTF8?_eq_some.2 rfl, Option.bind_some,
    String.toList_ofList, Base64.decode_encode]

variable {site : Site} {v : Viewpoint} {path : String} {found : Path} {bytes : ByteArray}

theorem requireFile_of_readBytes (hpath : v.resolve site path true = .ok (some found))
    (hfile : site.disk.readBytes found = .ok bytes) : v.requireFile site path = .ok found := by
  obtain ⟨place, hplace, hkind⟩ := Disk.readBytes_eq_ok.1 hfile
  obtain ⟨time, hnode⟩ := Disk.kindAt_eq_file.1 hkind
  have hisFile : site.isFile found = .ok true := by
    unfold Site.isFile
    rw [Disk.isFile_of_find (Disk.find_eq_ok.2 ⟨place, hplace, hnode⟩)]
    rfl
  unfold Viewpoint.requireFile Viewpoint.require
  rw [hpath]
  change (do if ← site.isFile found then return found else .error _ : Except Failure Path) = _
  rw [hisFile]
  rfl

/-- A path that leads to a file is given as its content type and a payload of letters, digits and
three escapes that carries the bytes of the file; the file is counted, and nothing else changes. -/
theorem dataUri_exact (hpath : v.resolve site path true = .ok (some found))
    (hfile : site.disk.readBytes found = .ok bytes) (s : Session) :
    ∃ payload, dataUri site v path s =
        .ok ("data:" ++ mediaType (site.pipeline.contentTypeOf found) ++ ";base64," ++ payload)
          { s with dependencies := s.dependencies ++ [found] } ∧
      IsPayload payload.toList ∧ carried payload = some bytes.data.toList := by
  refine ⟨payloadOf bytes, ?_, isPayload_payloadOf bytes, carried_payloadOf bytes⟩
  have hfound : ofExcept (v.requireFile site path) s = .ok found s := by
    rw [requireFile_of_readBytes hpath hfile]
    rfl
  have hread : ∀ t : Session, ofExcept (Disk.orFail (site.disk.readBytes found)) t = .ok bytes t := by
    intro t
    rw [hfile]
    rfl
  unfold dataUri
  rw [bind_of_ok hfound, bind_of_ok (rfl : addDependency found s = .ok () _), bind_of_ok (hread _)]
  rfl

/-- Two bytes that are no text, written with all three escapes. -/
theorem dataUri_exact_speck :
    let site := Site.sample "local" [("speck.png", .file ⟨#[0xfb, 0xff]⟩ 1)] []
    let speck := Path.absolute ["src", "speck.png"]
    Viewpoint.resolve ⟨none⟩ site "speck" true = .ok (some speck) ∧
      site.disk.readBytes speck = .ok ⟨#[0xfb, 0xff]⟩ ∧
      ∃ payload, dataUri site ⟨none⟩ "speck" empty =
          .ok ("data:" ++ "image/png" ++ ";base64," ++ payload) { empty with dependencies := [speck] } ∧
        IsPayload payload.toList ∧ carried payload = some [0xfb, 0xff] := by
  intro site speck
  have hpath : Viewpoint.resolve ⟨none⟩ site "speck" true = .ok (some speck) :=
    eq_ok_of_toOption (by decide +kernel)
  have hfile : site.disk.readBytes speck = .ok ⟨#[0xfb, 0xff]⟩ := rfl
  have htype : mediaType (site.pipeline.contentTypeOf speck) = "image/png" := by decide +kernel
  refine ⟨hpath, hfile, ?_⟩
  rw [← htype]
  exact dataUri_exact hpath hfile empty

end AssetBundler.Session
