/-
DomScript.Proofs.NameEnumeration — the sequence of names gives every name once.

The names behind one stem are numbered by the positive numbers, and the word of a name is its number
written with the digits `a` = 1 to `z` = 26. There is no digit for zero, so that no two words have
one value and none is left out.

* `skip_new` — the state after `n` names is the word of rank `n`;
* `value_word` — the value of a word, place by place, is its rank;
* `names_enumerate` — the names of a new sequence: each once, in order, and each by its value.
-/
import Mathlib.Data.Nat.Digits.Lemmas
import Mathlib.Data.Set.Function
import Mathlib.Order.Interval.Set.Defs
import DomScript.Proofs.WordOrder

namespace DomScript.VariableNames

/-! ## Words as numbers -/

/-- The place of a letter in the alphabet, counting from one. -/
def place (c : Char) : Nat :=
  c.toNat - 'a'.toNat + 1

/-- The value of a word: every letter counts its place in the alphabet, times 26 for each letter to
its right. -/
def value (w : List Char) : Nat :=
  ((w.reverse.map place).mapIdx fun right n => n * 26 ^ right).sum

theorem place_toChar : ∀ l : Letter, place l.toChar = l.val + 1 := by
  decide

/-- **The value of a word** is its rank. -/
theorem value_word (ls : List Letter) : value (word ls) = rank ls := by
  have hplaces : (word ls).reverse.map place = ls.map fun l => l.val + 1 := by
    rw [word, ← List.map_reverse, List.reverse_reverse, List.map_map]
    exact List.map_congr_left fun l _ => place_toChar l
  rw [value, hplaces, ← Nat.ofDigits_eq_sum_mapIdx]
  clear hplaces
  induction ls with
  | nil => rfl
  | cons l ls ih =>
    rw [List.map_cons, Nat.ofDigits_cons, ih, rank]

/-! ## The names of a new sequence -/

/-- The `n`-th name that a new sequence gives, counting from one. -/
def nth (stem : String) (n : Nat) : String :=
  ((new stem).skip (n - 1)).generate.1

/-- After `n` names the state is the word of rank `n`. -/
theorem skip_new (stem : String) (n : Nat) : (new stem).skip n = ⟨stem, ofRank n⟩ := by
  induction n with
  | zero => rfl
  | succ n ih => rw [skip_succ, ih, advance, ofRank]

theorem nth_eq (stem : String) {n : Nat} (hn : 1 ≤ n) : nth stem n = name ⟨stem, ofRank n⟩ := by
  obtain ⟨k, rfl⟩ : ∃ k, n = k + 1 := ⟨n - 1, by omega⟩
  rw [nth, Nat.add_sub_cancel, skip_new]
  rfl

theorem toList_nth (stem : String) {n : Nat} (hn : 1 ≤ n) :
    (nth stem n).toList = stem.toList ++ word (ofRank n) := by
  rw [nth_eq stem hn, toList_name]

theorem ofRank_ne_nil {n : Nat} (hn : 1 ≤ n) : ofRank n ≠ [] :=
  rank_pos.mp (by rw [rank_ofRank]; exact hn)

/-- **The names of a new sequence.** The numbers from one on and the stem with a word behind it
correspond to each other one to one; the word of the `n`-th name has the value `n`; a later name
stands later in the order of length and then alphabet. And whatever happened to a sequence, its word
has letters from `a` to `z` only. -/
theorem names_enumerate (stem : String) :
    Set.BijOn (nth stem) (Set.Ici 1) {s | ∃ w, IsWord w ∧ s = stem ++ .ofList w} ∧
    (∀ n ≥ 1, ∃ w, IsWord w ∧ nth stem n = stem ++ .ofList w ∧ n = value w) ∧
    (∀ m n, 1 ≤ m → m < n →
      List.Shortlex (· < ·) (nth stem m).toList (nth stem n).toList) ∧
    ∀ v : VariableNames, ∀ c ∈ word v.letters, 'a' ≤ c ∧ c ≤ 'z' := by
  have hword : ∀ n ≥ 1, ∃ w, IsWord w ∧ nth stem n = stem ++ .ofList w ∧ n = value w := by
    intro n hn
    refine ⟨word (ofRank n), isWord_word (ofRank_ne_nil hn), nth_eq stem hn, ?_⟩
    rw [value_word, rank_ofRank]
  refine ⟨⟨?_, ?_, ?_⟩, hword, ?_, ?_⟩
  · intro n hn
    obtain ⟨w, hw, hname, -⟩ := hword n hn
    exact ⟨w, hw, hname⟩
  · intro m hm n hn heq
    rw [nth_eq stem hm, nth_eq stem hn] at heq
    have hletters : ofRank m = ofRank n :=
      name_inj (v := ⟨stem, ofRank m⟩) (w := ⟨stem, ofRank n⟩) rfl heq
    rw [← rank_ofRank m, hletters, rank_ofRank]
  · rintro _ ⟨w, ⟨hne, hw⟩, rfl⟩
    obtain ⟨ls, rfl⟩ := exists_word hw
    have hls : ls ≠ [] := by
      rintro rfl
      exact hne rfl
    refine ⟨rank ls, rank_pos.mpr hls, ?_⟩
    rw [nth_eq stem (rank_pos.mpr hls), ofRank_rank]
    rfl
  · intro m n hm hmn
    rw [toList_nth stem hm, toList_nth stem (Nat.le_trans hm (Nat.le_of_lt hmn))]
    refine List.Shortlex.append_left (rank_lt_iff.mp ?_) _
    rwa [rank_ofRank, rank_ofRank]
  · intro v c hc
    obtain ⟨l, -, rfl⟩ := List.mem_map.mp hc
    exact l.toChar_mem

/-- The carries at the ends of the alphabet. -/
example : [26, 27, 52, 53, 702, 703].map (nth "") = ["z", "aa", "az", "ba", "zz", "aaa"] := by
  decide +kernel

end DomScript.VariableNames
