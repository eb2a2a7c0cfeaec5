/-
DomScript.Proofs.Text.Cut — cutting a text at a number of bytes.

A place in a text that is told in bytes may lie behind its end or inside a character; then there is
nothing to cut. Elsewhere a cut takes whole characters from the front, and as long as these are
ASCII it takes as many of them as bytes.

* `cut?_eq_some_iff` — where a text can be cut, and what is left;
* `cut?_eq_drop` — behind ASCII characters a cut drops as many characters.
-/
import DomScript.Proofs.Text.Utf8

namespace DomScript.Text

/-- What a text holds behind its first `n` bytes, if these are whole characters. -/
def cut? : Nat → List Char → Option (List Char)
  | 0, cs => some cs
  | _ + 1, [] => none
  | n + 1, c :: cs => if c.utf8Size ≤ n + 1 then cut? (n + 1 - c.utf8Size) cs else none

theorem length_encode_cons (c : Char) (cs : List Char) :
    (Utf8.encode (c :: cs)).length = c.utf8Size + (Utf8.encode cs).length := by
  rw [Utf8.encode_cons, List.length_append, String.length_utf8EncodeChar]

/-- **Where a text can be cut**: behind a number of bytes that some characters at its front have
together. -/
theorem cut?_eq_some_iff {n : Nat} {cs rest : List Char} :
    cut? n cs = some rest ↔
      ∃ front, cs = front ++ rest ∧ (Utf8.encode front).length = n := by
  constructor
  · intro h
    fun_induction cut? n cs with
    | case1 cs =>
      obtain rfl := Option.some.inj h
      exact ⟨[], rfl, rfl⟩
    | case2 n => cases h
    | case3 n c cs hle ih =>
      obtain ⟨front, rfl, hlength⟩ := ih h
      refine ⟨c :: front, rfl, ?_⟩
      rw [length_encode_cons, hlength]
      omega
    | case4 n c cs hlt => cases h
  · rintro ⟨front, rfl, rfl⟩
    induction front with
    | nil => simp [Utf8.encode, cut?]
    | cons c front ih =>
      have hpos := c.utf8Size_pos
      obtain ⟨n, hn⟩ : ∃ n, c.utf8Size + (Utf8.encode front).length = n + 1 :=
        ⟨c.utf8Size + (Utf8.encode front).length - 1, by omega⟩
      have hrest : n + 1 - c.utf8Size = (Utf8.encode front).length := by omega
      rw [length_encode_cons, hn, List.cons_append, cut?, if_pos (by omega), hrest, ih]

theorem length_encode_of_ascii {cs : List Char} (h : ∀ c ∈ cs, c.val ≤ 127) :
    (Utf8.encode cs).length = cs.length := by
  induction cs with
  | nil => rfl
  | cons c cs ih =>
    obtain ⟨hc, hcs⟩ := List.forall_mem_cons.mp h
    rw [length_encode_cons, ih hcs, Char.utf8Size_eq_one_iff.mpr hc, List.length_cons]
    omega

/-- **Behind ASCII characters** a cut drops as many characters. -/
theorem cut?_eq_drop {n : Nat} {cs : List Char} (hn : n ≤ cs.length)
    (h : ∀ c ∈ cs.take n, c.val ≤ 127) : cut? n cs = some (cs.drop n) := by
  refine cut?_eq_some_iff.mpr ⟨cs.take n, (List.take_append_drop n cs).symm, ?_⟩
  rw [length_encode_of_ascii h, List.length_take]
  omega

/-- A cut inside a character finds nothing. -/
example : cut? 1 ['é', 'a'] = none ∧ cut? 2 ['é', 'a'] = some ['a'] := by
  decide

end DomScript.Text
