import AssetBundler.Encoding.Percent

/-!
# Percent-encoding is read back

Reading an encoded text gives the UTF-8 bytes of the text, for every text (`decode_encode`): a
character that stands for itself is no percent sign, and each escape gives its byte.
-/

namespace AssetBundler.Percent

theorem digit?_hexDigit {n : Nat} (h : n < 16) : digit? (hexDigit n) = some n := by
  have hall : ∀ k : Fin 16, digit? (hexDigit k) = some k.val := by decide
  exact hall ⟨n, h⟩

theorem decode_escapeByte (b : UInt8) (cs : List Char) :
    decode (escapeByte b ++ cs) = b :: decode cs := by
  have hb := b.toNat_lt
  have hjoin : 16 * (b.toNat / 16) + b.toNat % 16 = b.toNat := by omega
  change decode ('%' :: hexDigit (b.toNat / 16) :: hexDigit (b.toNat % 16) :: cs) = _
  rw [decode]
  simp only [digit?_hexDigit (n := b.toNat / 16) (by omega),
    digit?_hexDigit (n := b.toNat % 16) (by omega), hjoin, UInt8.ofNat_toNat]

theorem decode_escapes (bytes : List UInt8) (cs : List Char) :
    decode (bytes.flatMap escapeByte ++ cs) = bytes ++ decode cs := by
  induction bytes with
  | nil => rfl
  | cons b bytes ih => rw [List.flatMap_cons, List.append_assoc, decode_escapeByte, ih, List.cons_append]

theorem decode_cons_of_ne {c : Char} (h : c ≠ '%') (cs : List Char) :
    decode (c :: cs) = (String.singleton c).toUTF8.data.toList ++ decode cs := by
  rw [decode]
  exact fun _ _ _ hc _ ↦ h hc

theorem ne_percent_of_isUnreserved {c : Char} (h : isUnreserved c = true) : c ≠ '%' := by
  rintro rfl
  exact absurd h (by decide)

theorem decode_encodeChar (c : Char) (cs : List Char) :
    decode (encodeChar c ++ cs) = (String.singleton c).toUTF8.data.toList ++ decode cs := by
  unfold encodeChar
  by_cases hc : isUnreserved c = true
  · rw [if_pos hc]
    exact decode_cons_of_ne (ne_percent_of_isUnreserved hc) cs
  · rw [if_neg hc, decode_escapes]

/-- The bytes of a text are those of its characters. -/
theorem toUTF8_eq_flatMap (cs : List Char) : (String.ofList cs).toUTF8.data.toList =
    cs.flatMap fun c ↦ (String.singleton c).toUTF8.data.toList := by
  induction cs with
  | nil => rfl
  | cons c cs ih =>
    rw [List.flatMap_cons, ← ih]
    change (c :: cs).utf8Encode.data.toList = _
    rw [List.utf8Encode_cons, ByteArray.data_append, Array.toList_append]
    rfl

theorem decode_encode (cs : List Char) :
    decode (encode (String.ofList cs)).toList = (String.ofList cs).toUTF8.data.toList := by
  unfold encode
  rw [String.toList_ofList, String.toList_ofList, toUTF8_eq_flatMap]
  induction cs with
  | nil => rfl
  | cons c cs ih => rw [List.flatMap_cons, List.flatMap_cons, decode_encodeChar, ih]

end AssetBundler.Percent
