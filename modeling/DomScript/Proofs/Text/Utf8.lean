/-
DomScript.Proofs.Text.Utf8 — reading bytes gives back the text that was written.

A character is written in one to four bytes, by the size of its code point. For each number of
bytes, the leading byte asks for as many followers as were written, the first follower lies within
the limits that the leading byte sets for it, and the bits add up to the code point.

* `length_encode` — a text is as long in bytes as it is said to be;
* `readChar_encode` — a written character is read as itself, and all of its bytes are covered;
* `decode_encode` — a written text is read as itself.
-/
import DomScript.Text.Utf8

namespace DomScript.Text.Utf8

/-! ## Writing -/

theorem encode_append (cs ds : List Char) : encode (cs ++ ds) = encode cs ++ encode ds :=
  List.flatMap_append

theorem encode_cons (c : Char) (cs : List Char) :
    encode (c :: cs) = String.utf8EncodeChar c ++ encode cs :=
  List.flatMap_cons

theorem length_encode (s : String) : (encode s.toList).length = s.utf8ByteSize := by
  have hbytes : s.toByteArray = (encode s.toList).toByteArray := by
    conv => lhs; rw [← String.ofList_toList (s := s)]
    exact String.toByteArray_ofList
  rw [← String.size_toByteArray, hbytes, List.size_toByteArray]

/-! ## Leading bytes -/

theorem lead?_one {b : Nat} (h : b ≤ 0x7F) : lead? b = some ⟨0, 0x80, 0xBF, b⟩ := by
  simp [lead?, h]

theorem lead?_two {b : Nat} (hl : 0xC2 ≤ b) (hu : b ≤ 0xDF) :
    lead? b = some ⟨1, 0x80, 0xBF, b - 0xC0⟩ := by
  have h₁ : ¬b ≤ 0x7F := by omega
  have h₂ : ¬b < 0xC2 := by omega
  simp [lead?, h₁, h₂, hu]

theorem lead?_three {b : Nat} (hl : 0xE0 ≤ b) (hu : b ≤ 0xEF) :
    lead? b = some ⟨2, if b = 0xE0 then 0xA0 else 0x80, if b = 0xED then 0x9F else 0xBF,
      b - 0xE0⟩ := by
  have h₁ : ¬b ≤ 0x7F := by omega
  have h₂ : ¬b < 0xC2 := by omega
  have h₃ : ¬b ≤ 0xDF := by omega
  by_cases h₄ : b = 0xE0
  · simp [lead?, h₄]
  by_cases h₅ : b = 0xED
  · simp [lead?, h₅]
  simp [lead?, h₁, h₂, h₃, h₄, h₅, hu]

theorem lead?_four {b : Nat} (hl : 0xF0 ≤ b) (hu : b ≤ 0xF4) :
    lead? b = some ⟨3, if b = 0xF0 then 0x90 else 0x80, if b = 0xF4 then 0x8F else 0xBF,
      b - 0xF0⟩ := by
  have hb : b = 0xF0 ∨ b = 0xF1 ∨ b = 0xF2 ∨ b = 0xF3 ∨ b = 0xF4 := by omega
  obtain rfl | rfl | rfl | rfl | rfl := hb <;> rfl

/-! ## Following bytes -/

/-- The byte that carries the last six bits of a number. -/
def follower (n : Nat) : UInt8 :=
  .ofNat (n % 0x40 + 0x80)

theorem toNat_follower (n : Nat) : (follower n).toNat = n % 0x40 + 0x80 := by
  rw [follower, UInt8.toNat_ofNat']
  omega

theorem readTails_zero (least greatest bits : Nat) (bs : List UInt8) :
    readTails 0 least greatest bits bs = (some bits, 0) := rfl

/-- A follower within the limits adds its six bits. -/
theorem readTails_follower {least greatest n : Nat} (tails bits : Nat) (bs : List UInt8)
    (hl : least ≤ n % 0x40 + 0x80) (hu : n % 0x40 + 0x80 ≤ greatest) :
    readTails (tails + 1) least greatest bits (follower n :: bs) =
      ((readTails tails 0x80 0xBF (bits * 0x40 + n % 0x40) bs).1,
        (readTails tails 0x80 0xBF (bits * 0x40 + n % 0x40) bs).2 + 1) := by
  simp [readTails, toNat_follower, hl, hu]

/-- Behind the first one, every follower is within the limits. -/
theorem readTails_next (tails bits n : Nat) (bs : List UInt8) :
    readTails (tails + 1) 0x80 0xBF bits (follower n :: bs) =
      ((readTails tails 0x80 0xBF (bits * 0x40 + n % 0x40) bs).1,
        (readTails tails 0x80 0xBF (bits * 0x40 + n % 0x40) bs).2 + 1) :=
  readTails_follower tails bits bs (by omega) (by omega)

/-! ## Characters -/

/-- A code point is no surrogate. -/
theorem not_surrogate (c : Char) : c.toNat < 0xD800 ∨ 0xDFFF < c.toNat ∧ c.toNat < 0x110000 :=
  c.valid

/-- The four forms of a character, by the size of its code point. -/
theorem utf8EncodeChar_cases (c : Char) :
    (c.toNat ≤ 0x7F ∧ String.utf8EncodeChar c = [.ofNat c.toNat]) ∨
    (0x80 ≤ c.toNat ∧ c.toNat ≤ 0x7FF ∧
      String.utf8EncodeChar c = [.ofNat (c.toNat / 0x40 + 0xC0), follower c.toNat]) ∨
    (0x800 ≤ c.toNat ∧ c.toNat ≤ 0xFFFF ∧
      String.utf8EncodeChar c = [.ofNat (c.toNat / 0x1000 + 0xE0), follower (c.toNat / 0x40),
        follower c.toNat]) ∨
    (0x10000 ≤ c.toNat ∧
      String.utf8EncodeChar c = [.ofNat (c.toNat / 0x40000 + 0xF0), follower (c.toNat / 0x1000),
        follower (c.toNat / 0x40), follower c.toNat]) := by
  unfold String.utf8EncodeChar
  have hv : c.val.toNat = c.toNat := rfl
  have hc := not_surrogate c
  simp only [hv, follower]
  by_cases h₁ : c.toNat ≤ 0x7F
  · exact .inl ⟨h₁, if_pos h₁⟩
  rw [if_neg h₁]
  by_cases h₂ : c.toNat ≤ 0x7FF
  · have hlead : c.toNat / 0x40 % 0x20 = c.toNat / 0x40 := by omega
    exact .inr (.inl ⟨by omega, h₂, by rw [if_pos h₂, hlead]⟩)
  rw [if_neg h₂]
  by_cases h₃ : c.toNat ≤ 0xFFFF
  · have hlead : c.toNat / 0x1000 % 0x10 = c.toNat / 0x1000 := by omega
    exact .inr (.inr (.inl ⟨by omega, h₃, by rw [if_pos h₃, hlead]⟩))
  · have hlead : c.toNat / 0x40000 % 0x8 = c.toNat / 0x40000 := by omega
    exact .inr (.inr (.inr ⟨by omega, by rw [if_neg h₃, hlead]⟩))

/-- A leading byte is read as a character if all the followers that it asks for are there. -/
theorem readChar_of_lead {n : Nat} {l : Lead} {bs : List UInt8} {c : Char} {taken : Nat}
    (hn : n < 0x100) (hlead : lead? n = some l)
    (htails : readTails l.tails l.least l.greatest l.bits bs = (some c.toNat, taken)) :
    readChar (.ofNat n) bs = (c, taken) := by
  simp [readChar, Nat.mod_eq_of_lt hn, hlead, htails]

/-- **A written character is read as itself**, whatever follows it. -/
theorem readChar_encode {c : Char} {b : UInt8} {bs : List UInt8}
    (h : String.utf8EncodeChar c = b :: bs) (rest : List UInt8) :
    readChar b (bs ++ rest) = (c, bs.length) := by
  have hc := not_surrogate c
  obtain ⟨hu, hform⟩ | ⟨hl, hu, hform⟩ | ⟨hl, hu, hform⟩ | ⟨hl, hform⟩ := utf8EncodeChar_cases c
  all_goals
    rw [h] at hform
    obtain ⟨rfl, rfl⟩ := List.cons.inj hform
  · exact readChar_of_lead (by omega) (lead?_one hu) rfl
  · refine readChar_of_lead (by omega) (lead?_two (by omega) (by omega)) ?_
    simp only [List.cons_append, readTails_next, readTails_zero, List.length_cons, List.length_nil,
      Prod.mk.injEq, Option.some.injEq, and_true]
    omega
  -- The first follower is within its limits: fewer bytes are not enough, and there are no surrogates.
  · refine readChar_of_lead (by omega) (lead?_three (by omega) (by omega)) ?_
    rw [List.cons_append, readTails_follower _ _ _ (by grind) (by grind)]
    simp only [List.cons_append, readTails_next, readTails_zero, List.length_cons, List.length_nil,
      Prod.mk.injEq, Option.some.injEq, and_true]
    omega
  -- Again fewer bytes are not enough, and the code point is not beyond the last one.
  · refine readChar_of_lead (by omega) (lead?_four (by omega) (by omega)) ?_
    rw [List.cons_append, readTails_follower _ _ _ (by grind) (by grind)]
    simp only [List.cons_append, readTails_next, readTails_zero, List.length_cons, List.length_nil,
      Prod.mk.injEq, Option.some.injEq, and_true]
    omega

/-! ## Texts -/

/-- The bytes of a character that was read are passed over. -/
theorem decodeFrom_append (skipped rest : List UInt8) :
    decodeFrom skipped.length (skipped ++ rest) = decode rest := by
  induction skipped with
  | nil => rfl
  | cons b skipped ih => exact ih

theorem decode_encode_append (cs : List Char) (rest : List UInt8) :
    decode (encode cs ++ rest) = cs ++ decode rest := by
  induction cs with
  | nil => rfl
  | cons c cs ih =>
    obtain ⟨b, bs, hform⟩ := List.exists_cons_of_ne_nil (String.utf8EncodeChar_ne_nil (c := c))
    have hchar := readChar_encode hform (encode cs ++ rest)
    calc decode (encode (c :: cs) ++ rest)
        = decode (b :: (bs ++ (encode cs ++ rest))) := by
          rw [encode_cons, hform, List.append_assoc, List.cons_append]
      _ = c :: decodeFrom bs.length (bs ++ (encode cs ++ rest)) := by
          rw [decode, decodeFrom, hchar]
      _ = c :: cs ++ decode rest := by rw [decodeFrom_append, ih, List.cons_append]

/-- **A written text is read as itself.** -/
theorem decode_encode (cs : List Char) : decode (encode cs) = cs := by
  simpa [decode, decodeFrom] using decode_encode_append cs []

end DomScript.Text.Utf8
