/-
DomScript.Proofs.WordOrder — words in order of length and then alphabet.

The rank of a word is read off its letters. Here it is tied to the order of the words: a word is
the `k`-th one if `k - 1` words come before it, whichever way the words are made.

* `rank_lt_iff` — a word comes before another exactly if its rank is less;
* `isKth_word` — so the rank of a word is its place in the order, counting from one;
* `pairwise_take` — names in a row stand in order;
* `prefix_of_name_eq` — and of two equal names, the one with the later word has the shorter stem.
-/
import Mathlib.Data.List.Shortlex
import DomScript.Proofs.VariableNames

namespace DomScript

/-! ## Letters -/

theorem Letter.toChar_lt_iff : ∀ l m : Letter, l.toChar < m.toChar ↔ l < m := by
  decide

theorem Letter.toChar_mem : ∀ l : Letter, 'a' ≤ l.toChar ∧ l.toChar ≤ 'z' := by
  decide

theorem Letter.exists_toChar {c : Char} (ha : 'a' ≤ c) (hz : c ≤ 'z') :
    ∃ l : Letter, l.toChar = c := by
  have ha : 97 ≤ c.toNat := ha
  have hz : c.toNat ≤ 122 := hz
  refine ⟨⟨c.toNat - 97, by omega⟩, ?_⟩
  have hnat : 'a'.toNat + (c.toNat - 97) = c.toNat := by
    show 97 + (c.toNat - 97) = c.toNat
    omega
  rw [toChar, hnat, Char.ofNat_toNat]

namespace VariableNames

/-! ## The order of words -/

/-- A word of one or more letters from `a` to `z`. -/
def IsWord (w : List Char) : Prop :=
  w ≠ [] ∧ ∀ c ∈ w, 'a' ≤ c ∧ c ≤ 'z'

/-- `w` is the `k`-th word, counting from one, in order of length and then alphabet: just `k - 1`
words come before it. -/
def IsKth (k : Nat) (w : List Char) : Prop :=
  IsWord w ∧ ∃ before : List (List Char), before.Nodup ∧ before.length + 1 = k ∧
    ∀ u, u ∈ before ↔ IsWord u ∧ List.Shortlex (· < ·) u w

theorem word_cons (l : Letter) (ls : List Letter) : word (l :: ls) = word ls ++ [l.toChar] := by
  simp [word]

@[simp] theorem length_word (ls : List Letter) : (word ls).length = ls.length := by
  simp [word]

theorem isWord_word {ls : List Letter} (h : ls ≠ []) : IsWord (word ls) := by
  refine ⟨fun hnil => h ?_, ?_⟩
  · simpa [word] using hnil
  · intro c hc
    obtain ⟨l, -, rfl⟩ := List.mem_map.mp hc
    exact l.toChar_mem

/-- Every word is made of letters. -/
theorem exists_word {w : List Char} (h : ∀ c ∈ w, 'a' ≤ c ∧ c ≤ 'z') :
    ∃ ls : List Letter, word ls = w := by
  have hreverse : ∀ cs : List Char, (∀ c ∈ cs, 'a' ≤ c ∧ c ≤ 'z') →
      ∃ ls : List Letter, word ls = cs.reverse := by
    intro cs hcs
    induction cs with
    | nil => exact ⟨[], rfl⟩
    | cons c cs ih =>
      obtain ⟨ls, hls⟩ := ih fun d hd => hcs d (List.mem_cons_of_mem _ hd)
      obtain ⟨ha, hz⟩ := hcs c (List.mem_cons_self ..)
      obtain ⟨l, hl⟩ := Letter.exists_toChar ha hz
      exact ⟨l :: ls, by rw [word_cons, hls, hl, List.reverse_cons]⟩
  obtain ⟨ls, hls⟩ := hreverse w.reverse fun c hc => h c (List.mem_reverse.mp hc)
  exact ⟨ls, by rw [hls, List.reverse_reverse]⟩

/-- The last letter counts only behind equal words. -/
theorem lex_concat {α : Type} {r : α → α → Prop} {s t : List α} {a b : α}
    (h : s.length = t.length) :
    List.Lex r (s ++ [a]) (t ++ [b]) ↔ List.Lex r s t ∨ s = t ∧ r a b := by
  induction s generalizing t with
  | nil =>
    obtain rfl := List.length_eq_zero_iff.mp h.symm
    simp
  | cons x s ih =>
    cases t with
    | nil => cases h
    | cons y t =>
      have ih := ih (t := t) (by simpa using h)
      simp only [List.cons_append, List.cons_lex_cons_iff, ih, List.cons.injEq]
      tauto

theorem shortlex_concat {α : Type} {r : α → α → Prop} {s t : List α} {a b : α} :
    List.Shortlex r (s ++ [a]) (t ++ [b]) ↔ List.Shortlex r s t ∨ s = t ∧ r a b := by
  simp only [List.shortlex_def, List.length_append, List.length_singleton,
    Nat.add_lt_add_iff_right, Nat.add_right_cancel_iff]
  by_cases h : s.length = t.length
  · simp only [h, Nat.lt_irrefl, true_and, false_or, lex_concat h]
  · have hne : s ≠ t := fun heq => h (by rw [heq])
    simp only [h, hne, false_and, or_false]

/-- **The rank is the order**: a word comes before another exactly if its rank is less. -/
theorem rank_lt_iff {ls ms : List Letter} :
    rank ls < rank ms ↔ List.Shortlex (· < ·) (word ls) (word ms) := by
  induction ls generalizing ms with
  | nil =>
    cases ms with
    | nil => simp [word]
    | cons m ms =>
      refine iff_of_true ?_ (List.Shortlex.of_length_lt (by simp))
      simp only [rank]
      omega
  | cons l ls ih =>
    cases ms with
    | nil =>
      refine iff_of_false (by simp [rank]) ?_
      simp [word]
    | cons m ms =>
      have hl := l.isLt
      have hm := m.isLt
      have hwords : word ls = word ms ↔ rank ls = rank ms :=
        ⟨fun h => by rw [word_inj h], fun h => by rw [rank_inj h]⟩
      rw [word_cons, word_cons, shortlex_concat, ← ih, hwords, Letter.toChar_lt_iff, Fin.lt_def]
      simp only [rank]
      omega

/-- The word of a rank. -/
def ofRank : Nat → List Letter
  | 0 => []
  | n + 1 => next (ofRank n)

@[simp] theorem rank_ofRank (n : Nat) : rank (ofRank n) = n := by
  induction n with
  | zero => rfl
  | succ n ih => rw [ofRank, rank_next, ih]

theorem ofRank_rank (ls : List Letter) : ofRank (rank ls) = ls :=
  rank_inj (rank_ofRank _)

theorem rank_pos {ls : List Letter} : 0 < rank ls ↔ ls ≠ [] := by
  cases ls with
  | nil => simp [rank]
  | cons l ls => simp [rank]

/-- **The place of a word** in the order of all words is its rank. -/
theorem isKth_word {ls : List Letter} (h : ls ≠ []) : IsKth (rank ls) (word ls) := by
  have hpos : 0 < rank ls := rank_pos.mpr h
  refine ⟨isWord_word h, (List.range (rank ls - 1)).map fun i => word (ofRank (i + 1)), ?_, ?_, ?_⟩
  · refine List.pairwise_map.mpr (List.nodup_range.imp ?_)
    intro i j hne hij
    have hrank := congrArg rank (word_inj hij)
    rw [rank_ofRank, rank_ofRank] at hrank
    omega
  · rw [List.length_map, List.length_range]
    omega
  · intro u
    simp only [List.mem_map, List.mem_range]
    constructor
    · rintro ⟨i, hi, rfl⟩
      refine ⟨isWord_word (rank_pos.mp (by simp)), rank_lt_iff.mp ?_⟩
      rw [rank_ofRank]
      omega
    · rintro ⟨⟨hne, hu⟩, hlt⟩
      obtain ⟨ms, rfl⟩ := exists_word hu
      have hms : 0 < rank ms := by
        refine rank_pos.mpr ?_
        rintro rfl
        exact hne rfl
      have hrank : rank ms < rank ls := rank_lt_iff.mpr hlt
      refine ⟨rank ms - 1, by omega, ?_⟩
      rw [Nat.sub_add_cancel hms, ofRank_rank]

/-! ## The order of names -/

/-- One name stands before another: by length, and then by alphabet. -/
def Before (x y : String) : Prop :=
  List.Shortlex (· < ·) x.toList y.toList

instance : Std.Asymm Before :=
  ⟨fun x y h => Std.Asymm.asymm (r := List.Shortlex (· < ·)) x.toList y.toList h⟩

/-- Names in a row stand in order. -/
theorem pairwise_take (n : Nat) (v : VariableNames) : (v.take n).1.Pairwise Before := by
  rw [take_eq]
  refine List.pairwise_map.mpr (List.pairwise_lt_range.imp fun {i j} hij => ?_)
  rw [Before, toList_name, toList_name, skip_stem, skip_stem]
  refine List.Shortlex.append_left (rank_lt_iff.mp ?_) _
  rw [rank_skip, rank_skip]
  omega

/-! ## Equal names -/

/-- **Equal names under different stems.** If the words differ, the later word is the longer one,
and its stem a shorter beginning of the other stem. -/
theorem prefix_of_name_eq {v w : VariableNames} (hrank : rank v.letters < rank w.letters)
    (h : v.name = w.name) :
    w.stem.toList <+: v.stem.toList ∧ w.stem.toList.length < v.stem.toList.length := by
  have hname := congrArg String.toList h
  rw [toList_name, toList_name] at hname
  have hlength := congrArg List.length hname
  simp only [List.length_append, length_word] at hlength
  have hlt : v.letters.length < w.letters.length := by
    rcases List.shortlex_def.mp (rank_lt_iff.mp hrank) with hlt | ⟨heq, -⟩
    · simpa using hlt
    · -- words of one length would be equal
      have hwords := (List.append_inj' hname heq).2
      rw [word_inj hwords] at hrank
      exact absurd hrank (Nat.lt_irrefl _)
  refine ⟨?_, by omega⟩
  have hlater : w.stem.toList <+: v.stem.toList ++ word v.letters := by
    rw [hname]
    exact List.prefix_append ..
  exact List.prefix_of_prefix_length_le hlater (List.prefix_append ..) (by omega)

end VariableNames

end DomScript
