import AssetBundler.Encoding.Base64

/-!
# Base64 is read back

Reading what was written gives the bytes again, for texts of every length (`decode_encode`). Each
character that is written stands for six bits or fills up the last group (`mem_encode`).
-/

namespace AssetBundler.Base64

/-- Six bits are read back from their character, which is in the alphabet and no equals sign. -/
theorem symbol_spec {n : Nat} (h : n < 64) :
    value? (symbol n) = some n ∧ symbol n ∈ alphabet ∧ symbol n ≠ '=' := by
  have hall : ∀ k : Fin 64, value? (symbol k) = some k.val ∧ symbol k ∈ alphabet ∧ symbol k ≠ '=' := by
    decide +kernel
  exact hall ⟨n, h⟩

theorem value?_symbol {n : Nat} (h : n < 64) : value? (symbol n) = some n := (symbol_spec h).1

/-- A number is the sum of its groups of six bits. -/
theorem sum_sixBits (n : Nat) :
    n / 4096 * 4096 + n / 64 % 64 * 64 + n % 64 = n ∧
      n / 262144 * 262144 + n / 4096 % 64 * 4096 + n / 64 % 64 * 64 + n % 64 = n := by
  have h₂ : n / 4096 = n / 64 / 64 := (Nat.div_div_eq_div_mul n 64 64).symm
  have h₃ : n / 262144 = n / 64 / 64 / 64 := by
    rw [Nat.div_div_eq_div_mul, Nat.div_div_eq_div_mul]
  rw [h₃, h₂]
  omega

/-- A full group of four gives three bytes. -/
theorem decode_group {p q r s : Char} {a b c d : Nat} (hp : value? p = some a)
    (hq : value? q = some b) (hr : value? r = some c) (hs : value? s = some d) (hpad : s ≠ '=')
    {n : Nat} (hn : a * 262144 + b * 4096 + c * 64 + d = n) (cs : List Char) :
    decode (p :: q :: r :: s :: cs) = (decode cs).map fun bytes ↦
      UInt8.ofNat (n / 65536) :: UInt8.ofNat (n / 256) :: UInt8.ofNat n :: bytes := by
  rw [decode]
  · simp only [hp, hq, hr, hs, hn, Option.bind_eq_bind, Option.bind_some]
    cases decode cs <;> rfl
  · exact fun _ h _ ↦ hpad h
  · exact fun h _ ↦ hpad h

theorem ofNat_of_mod_eq {n : Nat} {a : UInt8} (h : n % 256 = a.toNat) : UInt8.ofNat n = a :=
  UInt8.toNat_inj.1 (by rw [UInt8.toNat_ofNat', ← h])

theorem decode_encode (bytes : List UInt8) : decode (encode bytes) = some bytes := by
  induction bytes using encode.induct with
  | case1 a b c bytes ih =>
    have ha := a.toNat_lt
    have hb := b.toNat_lt
    have hc := c.toNat_lt
    simp only [encode]
    generalize hn : a.toNat * 65536 + b.toNat * 256 + c.toNat = n
    rw [decode_group (value?_symbol (n := n / 262144) (by omega))
      (value?_symbol (n := n / 4096 % 64) (by omega)) (value?_symbol (n := n / 64 % 64) (by omega))
      (value?_symbol (n := n % 64) (by omega)) (symbol_spec (n := n % 64) (by omega)).2.2 (sum_sixBits n).2, ih,
      Option.map_some, ofNat_of_mod_eq (n := n / 65536) (a := a) (by omega),
      ofNat_of_mod_eq (n := n / 256) (a := b) (by omega),
      ofNat_of_mod_eq (n := n) (a := c) (by omega)]
  | case2 a b =>
    have ha := a.toNat_lt
    have hb := b.toNat_lt
    simp only [encode]
    generalize hn : a.toNat * 1024 + b.toNat * 4 = n
    have hjoin := (sum_sixBits n).1
    rw [decode]
    · simp only [value?_symbol (n := n / 4096) (by omega), value?_symbol (n := n / 64 % 64) (by omega),
        value?_symbol (n := n % 64) (by omega), Option.bind_eq_bind, Option.bind_some, hjoin]
      rw [ofNat_of_mod_eq (a := a) (by omega), ofNat_of_mod_eq (a := b) (by omega)]
      rfl
    · exact (symbol_spec (by omega)).2.2
  | case3 a =>
    have ha := a.toNat_lt
    simp only [encode]
    generalize hn : a.toNat * 16 = n
    have hjoin : n / 64 * 64 + n % 64 = n := by omega
    rw [decode]
    simp only [value?_symbol (n := n / 64) (by omega), value?_symbol (n := n % 64) (by omega),
      Option.bind_eq_bind, Option.bind_some, hjoin]
    rw [ofNat_of_mod_eq (a := a) (by omega)]
    rfl
  | case4 => rfl

/-- The characters that are written. -/
theorem mem_encode {c : Char} {bytes : List UInt8} (h : c ∈ encode bytes) :
    c ∈ alphabet ∨ c = '=' := by
  have hsymbol : ∀ {n : Nat}, n < 64 → c = symbol n → c ∈ alphabet ∨ c = '=' :=
    fun hn hc ↦ .inl (hc ▸ (symbol_spec hn).2.1)
  induction bytes using encode.induct with
  | case1 a b d bytes ih =>
    have ha := a.toNat_lt
    have hb := b.toNat_lt
    have hd := d.toNat_lt
    simp only [encode, List.mem_cons] at h
    rcases h with h | h | h | h | h
    · exact hsymbol (by omega) h
    · exact hsymbol (by omega) h
    · exact hsymbol (by omega) h
    · exact hsymbol (by omega) h
    · exact ih h
  | case2 a b =>
    have ha := a.toNat_lt
    have hb := b.toNat_lt
    simp only [encode, List.mem_cons, List.not_mem_nil, or_false] at h
    rcases h with h | h | h | h
    · exact hsymbol (by omega) h
    · exact hsymbol (by omega) h
    · exact hsymbol (by omega) h
    · exact .inr h
  | case3 a =>
    have ha := a.toNat_lt
    simp only [encode, List.mem_cons, List.not_mem_nil, or_false] at h
    rcases h with h | h | h | h
    · exact hsymbol (by omega) h
    · exact hsymbol (by omega) h
    · exact .inr h
    · exact .inr h
  | case4 => cases h

end AssetBundler.Base64
