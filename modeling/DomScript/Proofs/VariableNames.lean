/-
DomScript.Proofs.VariableNames — the place of a name in the sequence.

`VariableNames.rank` reads a word as a number in base 26 without a zero: `a` is 1, `z` is 26, `aa`
is 27. Advancing adds one to it (`rank_next`), different words have different ranks (`rank_inj`),
and a name determines its word (`name_inj`), so under one stem a name that was given does not come
again (`not_later_advance`). Names in a row have ranks in a row (`take_eq`, `rank_skip`).
-/
import DomScript.VariableNames

namespace DomScript

theorem Letter.toChar_inj {l m : Letter} (h : l.toChar = m.toChar) : l = m := by
  revert l m
  decide

namespace VariableNames

/-- The place of a word, last letter first, among all words; the empty word has place 0. -/
def rank : List Letter → Nat
  | [] => 0
  | l :: ls => l.val + 1 + 26 * rank ls

theorem rank_next (ls : List Letter) : rank (next ls) = rank ls + 1 := by
  induction ls with
  | nil => rfl
  | cons l ls ih =>
    simp only [next]
    split
    · simp only [rank]; omega
    · have := l.isLt
      simp only [rank, ih, Fin.val_zero]
      omega

theorem rank_inj {ls ms : List Letter} (h : rank ls = rank ms) : ls = ms := by
  induction ls generalizing ms with
  | nil =>
    cases ms with
    | nil => rfl
    | cons m ms => simp only [rank] at h; omega
  | cons l ls ih =>
    cases ms with
    | nil => simp only [rank] at h; omega
    | cons m ms =>
      -- the last letter is the remainder, the letters before it are the quotient
      simp only [rank] at h
      have hl := l.isLt
      have hm := m.isLt
      have hlm : l = m := Fin.ext (by omega)
      have hrest : rank ls = rank ms := by omega
      rw [hlm, ih hrest]

theorem word_inj {ls ms : List Letter} (h : word ls = word ms) : ls = ms :=
  List.reverse_inj.mp ((List.map_inj_right fun _ _ => Letter.toChar_inj).mp h)

theorem toList_name (v : VariableNames) : v.name.toList = v.stem.toList ++ word v.letters := by
  simp [name]

/-- Under one stem a name determines its word. -/
theorem name_inj {v w : VariableNames} (hs : v.stem = w.stem) (h : v.name = w.name) :
    v.letters = w.letters := by
  have hl := congrArg String.toList h
  rw [toList_name, toList_name, hs] at hl
  exact word_inj (List.append_cancel_left hl)

@[simp] theorem generate_fst (v : VariableNames) : v.generate.1 = v.advance.name := rfl
@[simp] theorem generate_snd (v : VariableNames) : v.generate.2 = v.advance := rfl
@[simp] theorem advance_stem (v : VariableNames) : v.advance.stem = v.stem := rfl

theorem rank_advance (v : VariableNames) : rank v.advance.letters = rank v.letters + 1 :=
  rank_next v.letters

/-! ## Names to come -/

/-- The sequence `w` is `v` after some more names, or `v` itself. -/
structure Precedes (v w : VariableNames) : Prop where
  stem : w.stem = v.stem
  rank : rank v.letters ≤ rank w.letters

theorem Precedes.refl (v : VariableNames) : v.Precedes v :=
  ⟨rfl, Nat.le_refl _⟩

theorem Precedes.trans {u v w : VariableNames} (h : u.Precedes v) (k : v.Precedes w) :
    u.Precedes w :=
  ⟨k.stem.trans h.stem, Nat.le_trans h.rank k.rank⟩

theorem precedes_advance (v : VariableNames) : v.Precedes v.advance :=
  ⟨rfl, by rw [rank_advance]; omega⟩

/-- The names that the sequence may still give. -/
def Later (v : VariableNames) (var : String) : Prop :=
  ∃ letters, var = name ⟨v.stem, letters⟩ ∧ rank v.letters < rank letters

/-- The next name is still to come, -/
theorem later_advance (v : VariableNames) : v.Later v.advance.name :=
  ⟨v.advance.letters, rfl, by rw [rank_advance]; omega⟩

/-- and once given it does not come again. -/
theorem not_later_advance (v : VariableNames) : ¬ v.advance.Later v.advance.name := by
  rintro ⟨letters, hname, hrank⟩
  have : v.advance.letters = letters := name_inj (w := ⟨v.advance.stem, letters⟩) rfl hname
  rw [this] at hrank
  exact Nat.lt_irrefl _ hrank

theorem Precedes.later {v w : VariableNames} (h : v.Precedes w) {var : String}
    (hw : w.Later var) : v.Later var := by
  obtain ⟨letters, hname, hrank⟩ := hw
  exact ⟨letters, by rw [← h.stem]; exact hname, Nat.lt_of_le_of_lt h.rank hrank⟩

/-- A string that is not the stem with letters behind it is no name to come. -/
theorem not_later_of_ne {v : VariableNames} {var : String}
    (h : ∀ letters : List Letter, letters ≠ [] → var ≠ v.stem ++ .ofList (word letters)) :
    ¬ v.Later var := by
  rintro ⟨letters, hname, hrank⟩
  refine h letters ?_ hname
  rintro rfl
  exact Nat.not_lt_zero _ hrank

/-! ## Names in a row -/

theorem skip_succ (n : Nat) (v : VariableNames) : skip (n + 1) v = (skip n v).advance := by
  induction n generalizing v with
  | zero => rfl
  | succ n ih => exact ih v.advance

@[simp] theorem skip_stem (n : Nat) (v : VariableNames) : (skip n v).stem = v.stem := by
  induction n with
  | zero => rfl
  | succ n ih => rw [skip_succ, advance_stem, ih]

theorem rank_skip (n : Nat) (v : VariableNames) :
    rank (skip n v).letters = rank v.letters + n := by
  induction n with
  | zero => rfl
  | succ n ih => rw [skip_succ, rank_advance, ih, Nat.add_assoc]

/-- The last of the names in a row, and the sequence after it. -/
theorem take_succ (n : Nat) (v : VariableNames) :
    take (n + 1) v = ((take n v).1 ++ [(skip (n + 1) v).name], skip (n + 1) v) := by
  induction n generalizing v with
  | zero => rfl
  | succ n ih => rw [take, ih v.advance]; rfl

/-- Taking names is moving on and reading each name. -/
theorem take_eq (n : Nat) (v : VariableNames) :
    take n v = ((List.range n).map fun k => (skip (k + 1) v).name, skip n v) := by
  induction n with
  | zero => rfl
  | succ n ih => rw [take_succ, ih, List.range_succ, List.map_append, List.map_singleton]

theorem length_take (n : Nat) (v : VariableNames) : (v.take n).1.length = n := by
  rw [take_eq, List.length_map, List.length_range]

/-- Names taken in two goes. -/
theorem take_add (m n : Nat) (v : VariableNames) :
    (v.take (m + n)).1 = (v.take m).1 ++ ((v.skip m).take n).1 ∧
      v.skip (m + n) = (v.skip m).skip n := by
  induction m generalizing v with
  | zero => simp [take, skip]
  | succ m ih =>
    obtain ⟨hnames, hafter⟩ := ih v.advance
    rw [Nat.succ_add]
    exact ⟨congrArg (v.advance.name :: ·) hnames, hafter⟩

end VariableNames

end DomScript
