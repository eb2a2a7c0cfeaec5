/-
DomScript.Proofs.Text.LetterCase — capitals, of ASCII and of the case tables.

* `toUpper_elim` — what holds of the 26 letters and of characters that are kept holds of every
  character and its capital;
* `upperCase_eq_or_high` — the case tables lead to high characters only;
* `upperCase_letter`, `dash_mem_upperCase` — so that the letters have their capitals, and that only
  a dash becomes a dash.
-/
import DomScript.Text.UpperCase

namespace DomScript.Text

/-! ## Letters -/

/-- What holds of 26 characters in a row holds of every character between the first and the last. -/
theorem letter_elim {P : Char → Prop} {first : Nat}
    (hletters : ∀ n < 26, P (Char.ofNat (first + n))) {c : Char}
    (hlow : first ≤ c.toNat) (hhigh : c.toNat ≤ first + 25) : P c := by
  have hletter := hletters (c.toNat - first) (by omega)
  rwa [Nat.add_sub_cancel' hlow, Char.ofNat_toNat] at hletter

theorem isLower_elim {P : Char → Prop} (hletters : ∀ n < 26, P (Char.ofNat (97 + n))) {c : Char}
    (hc : c.isLower = true) : P c := by
  obtain ⟨hlow, hhigh⟩ := (Bool.and_eq_true _ _).mp hc
  exact letter_elim hletters (UInt32.le_iff_toNat_le.mp (of_decide_eq_true hlow))
    (UInt32.le_iff_toNat_le.mp (of_decide_eq_true hhigh))

theorem isUpper_elim {P : Char → Prop} (hletters : ∀ n < 26, P (Char.ofNat (65 + n))) {c : Char}
    (hc : c.isUpper = true) : P c := by
  obtain ⟨hlow, hhigh⟩ := of_decide_eq_true hc
  exact letter_elim hletters (UInt32.le_iff_toNat_le.mp hlow) (UInt32.le_iff_toNat_le.mp hhigh)

/-- What holds of a character that is kept, and of every letter and its capital. -/
theorem toUpper_elim {P : Char → Char → Prop} (c : Char) (hkept : P c c)
    (hletters : ∀ n < 26, P (Char.ofNat (97 + n)) (Char.ofNat (97 + n)).toUpper) :
    P c c.toUpper := by
  by_cases hrange : 'a'.val ≤ c.val ∧ c.val ≤ 'z'.val
  · exact letter_elim (P := fun c => P c c.toUpper) hletters (UInt32.le_iff_toNat_le.mp hrange.1)
      (UInt32.le_iff_toNat_le.mp hrange.2)
  · have hsame : c.toUpper = c := by
      unfold Char.toUpper
      rw [dif_neg hrange]
    rwa [hsame]

theorem toLower_of_not_isUpper {c : Char} (h : c.isUpper = false) : c.toLower = c := by
  unfold Char.toLower
  rw [dif_neg (of_decide_eq_false h)]

theorem toLower_toUpper {c : Char} (h : c.isUpper = false) : c.toUpper.toLower = c :=
  toUpper_elim (P := fun c w => w.toLower = c) c (toLower_of_not_isUpper h) (by decide)

theorem isUpper_toUpper {c : Char} (h : c.isLower = true) : c.toUpper.isUpper = true :=
  isLower_elim (P := fun c => c.toUpper.isUpper = true) (by decide) h

theorem not_isUpper_of_isLower {c : Char} (h : c.isLower = true) : c.isUpper = false :=
  isLower_elim (P := fun c => c.isUpper = false) (by decide) h

theorem isLower_toLower {c : Char} (h : c.isUpper = true) : c.toLower.isLower = true :=
  isUpper_elim (P := fun c => c.toLower.isLower = true) (by decide) h

/-- What is its own lower case is no capital. -/
theorem toLower_eq_self_iff {c : Char} : c.toLower = c ↔ c.isUpper = false := by
  refine ⟨fun h => ?_, toLower_of_not_isUpper⟩
  rw [← Bool.not_eq_true]
  intro hupper
  have hlower := isLower_toLower hupper
  rw [h] at hlower
  exact Bool.false_ne_true ((not_isUpper_of_isLower hlower).symm.trans hupper)

theorem map_toLower_eq_self_iff {cs : List Char} :
    cs.map Char.toLower = cs ↔ ∀ c ∈ cs, c.isUpper = false := by
  have hpointwise := List.map_inj_left (l := cs) (f := Char.toLower) (g := id)
  rw [List.map_id] at hpointwise
  exact hpointwise.trans (forall₂_congr fun _ _ => toLower_eq_self_iff)

/-! ## The case tables -/

/-- A code point that is above the capital A and not the backslash. -/
def isHigh (n : Nat) : Bool :=
  0x41 ≤ n && n != 0x5C

/-- The images of a run are high if its ends are, on one side of the backslash. -/
theorem CaseRun.isHigh_image? {r : CaseRun} {n m : Nat}
    (hr : 0x41 ≤ r.image ∧ (r.image + (r.last - r.first) < 0x5C ∨ 0x5C < r.image))
    (h : r.image? n = some m) : isHigh m = true := by
  unfold image? at h
  split at h
  · rename_i hn
    obtain rfl := Option.some.inj h
    simp only [Bool.and_eq_true, decide_eq_true_eq] at hn
    simp only [isHigh, Bool.and_eq_true, decide_eq_true_eq, bne_iff_ne]
    omega
  · cases h

/-- A number that is no code point gives the character of code 0. -/
theorem isHigh_ofNat {n : Nat} (h : isHigh n = true) :
    isHigh (Char.ofNat n).toNat = true ∨ Char.ofNat n = '\x00' := by
  by_cases hv : n.isValidChar
  · have hn : (Char.ofNat n).toNat = n := by
      rw [Char.ofNat, dif_pos hv]
      rfl
    exact .inl (by rwa [hn])
  · rw [Char.ofNat, dif_neg hv]
    exact .inr rfl

/-- **The tables lead to high characters only**, and a character in neither stays as it is. -/
theorem upperCase_eq_or_high (c : Char) :
    upperCase c = [c] ∨ ∀ d ∈ upperCase c, isHigh d.toNat = true ∨ d = '\x00' := by
  have hexp : ∀ e ∈ upperExpansions, ∀ n ∈ e.2, isHigh n = true := by decide
  have hruns : ∀ r ∈ upperRuns,
      0x41 ≤ r.image ∧ (r.image + (r.last - r.first) < 0x5C ∨ 0x5C < r.image) := by
    decide +kernel
  unfold upperCase
  split
  · rename_i image himage
    obtain ⟨l₁, l₂, hl, -⟩ := List.lookup_eq_some_iff.mp himage
    right
    intro d hd
    obtain ⟨n, hn, rfl⟩ := List.mem_map.mp hd
    exact isHigh_ofNat (hexp (c.toNat, image) (by rw [hl]; simp) n hn)
  · split
    · rename_i n hn
      obtain ⟨r, hr, himage⟩ := List.exists_of_findSome?_eq_some hn
      right
      intro d hd
      rw [List.mem_singleton.mp hd]
      exact isHigh_ofNat (CaseRun.isHigh_image? (hruns r hr) himage)
    · exact .inl rfl

/-- A letter has its capital. -/
theorem upperCase_letter {c : Char} (hc : c.isLower = true) : upperCase c = [c.toUpper] :=
  isLower_elim (P := fun c => upperCase c = [c.toUpper]) (by decide +kernel) hc

/-- Only a dash becomes a dash. -/
theorem dash_mem_upperCase {c : Char} (h : '-' ∈ upperCase c) : c = '-' := by
  rcases upperCase_eq_or_high c with hc | hc
  · rw [hc, List.mem_singleton] at h
    exact h.symm
  · exact absurd (hc '-' h) (by decide)

end DomScript.Text
