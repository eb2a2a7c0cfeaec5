/-
DomScript.Proofs.TagOccurrences — a tag set is an ordered list that counts.

A tag may stand in a set several times, and erasing it takes away one entry only. So the members
are told by counting: replacing and clearing the list count anew, appending counts on, and erasing a
tag counts it down. Which entries are left is told by the counts too, since erasing takes the entry
that has been there for longest.

* `latest` — the last entries of each tag in a list, so many of each;
* `Keeps.apply` — one change keeps that the set is such a part of what was appended;
* `tags_edited` — what any number of changes leave.
-/
import DomScript.Tag

namespace DomScript.TagSet

/-! ## The last entries of each tag -/

/-- A list without its first entries of each tag, so that the last `n t` of every tag `t` are left,
or all if there are not so many. -/
def latest (n : Tag → Nat) : List Tag → List Tag
  | [] => []
  | t :: ts => if ts.count t < n t then t :: latest n ts else latest n ts

/-- In front of more entries fewer are left, by those behind. -/
theorem latest_append (n : Tag → Nat) (ts more : List Tag) :
    latest n (ts ++ more) = latest (fun t => n t - more.count t) ts ++ latest n more := by
  induction ts with
  | nil => rfl
  | cons t ts ih =>
    have hcond : (ts ++ more).count t < n t ↔ ts.count t < n t - more.count t := by
      rw [List.count_append]
      omega
    simp only [List.cons_append, latest, hcond, ih]
    split
    · rfl
    · rfl

/-- All are left if there are not more. -/
theorem latest_of_le {n : Tag → Nat} {ts : List Tag} (h : ∀ t, ts.count t ≤ n t) :
    latest n ts = ts := by
  induction ts with
  | nil => rfl
  | cons t ts ih =>
    have ht := h t
    rw [List.count_cons_self] at ht
    rw [latest, if_pos (by omega), ih fun u => Nat.le_trans List.count_le_count_cons (h u)]

/-- Numbers that are not reached make no difference. -/
theorem latest_congr {n m : Tag → Nat} {ts : List Tag}
    (h : ∀ t, n t = m t ∨ ts.count t ≤ n t ∧ ts.count t ≤ m t) : latest n ts = latest m ts := by
  induction ts with
  | nil => rfl
  | cons t ts ih =>
    have hcond : ts.count t < n t ↔ ts.count t < m t := by
      have ht := h t
      rw [List.count_cons_self] at ht
      omega
    have hrest : latest n ts = latest m ts := by
      refine ih fun u => (h u).imp_right fun ⟨hn, hm⟩ => ?_
      have hle : ts.count u ≤ (t :: ts).count u := List.count_le_count_cons
      exact ⟨Nat.le_trans hle hn, Nat.le_trans hle hm⟩
    simp only [latest, hcond, hrest]

theorem count_latest (n : Tag → Nat) (ts : List Tag) (t : Tag) :
    (latest n ts).count t = min (n t) (ts.count t) := by
  induction ts with
  | nil => simp [latest]
  | cons u ts ih =>
    rw [latest]
    by_cases hut : u = t
    · subst hut
      split
      · rw [List.count_cons_self, List.count_cons_self, ih]
        omega
      · rw [List.count_cons_self, ih]
        omega
    · split
      · rw [List.count_cons_of_ne hut, List.count_cons_of_ne hut, ih]
      · rw [List.count_cons_of_ne hut, ih]

/-- **Erasing takes the entry that has been there for longest**: one entry less of this tag is
left. -/
theorem erase_latest {n : Tag → Nat} {ts : List Tag} {t : Tag} (h : n t ≤ ts.count t) :
    (latest n ts).erase t = latest (fun u => if t = u then n u - 1 else n u) ts := by
  induction ts with
  | nil => rfl
  | cons u ts ih =>
    by_cases htu : t = u
    · subst htu
      rw [List.count_cons_self] at h
      simp only [latest, if_true]
      by_cases hleft : ts.count t < n t
      · -- the first entry that is left is the one that goes, and all behind it are left
        rw [if_pos hleft, if_neg (by omega), List.erase_cons_head]
        refine latest_congr fun u => ?_
        split
        · rename_i heq
          subst heq
          omega
        · exact .inl rfl
      · rw [if_neg hleft, if_neg (by omega), ih (by omega)]
    · rw [List.count_cons_of_ne (Ne.symm htu)] at h
      simp only [latest, if_neg htu]
      split
      · rw [List.erase_cons_tail (by simpa using Ne.symm htu), ih h]
      · exact ih h

/-! ## One change -/

namespace Edit

/-- The number of times that a tag has been set or appended and not erased, after a change. -/
def times (t : Tag) (n : Nat) : Edit → Nat
  | .replace tags => tags.count t
  | .append tags => n + tags.count t
  | .eraseFirst u => if u = t then n - 1 else n
  | .clear => 0

/-- What has been appended since the list was last replaced or cleared, after a change. -/
def appended (log : List Tag) : Edit → List Tag
  | .replace tags => tags
  | .append tags => log ++ tags
  | .eraseFirst _ => log
  | .clear => []

end Edit

/-- The set holds, of all that has been appended, the last `n t` entries of every tag `t`. -/
structure Keeps (s : TagSet) (n : Tag → Nat) (log : List Tag) : Prop where
  tags : s.tags = latest n log
  le : ∀ t, n t ≤ log.count t

theorem keeps_count (s : TagSet) : s.Keeps s.tags.count s.tags :=
  ⟨(latest_of_le fun _ => Nat.le_refl _).symm, fun _ => Nat.le_refl _⟩

variable {s : TagSet} {n : Tag → Nat} {log : List Tag}

/-- The numbers are those of the occurrences. -/
theorem Keeps.count (h : s.Keeps n log) (t : Tag) : s.tags.count t = n t := by
  rw [h.tags, count_latest, Nat.min_eq_left (h.le t)]

/-- **One change** counts as it should, and keeps the last entries of each tag. -/
theorem Keeps.apply (h : s.Keeps n log) (e : Edit) :
    (s.apply e).Keeps (fun t => e.times t (n t)) (e.appended log) := by
  cases e with
  | replace tags => exact keeps_count ⟨tags⟩
  | append tags =>
    refine ⟨?_, fun t => ?_⟩
    · show s.tags ++ tags = latest (fun t => n t + tags.count t) (log ++ tags)
      rw [latest_append, latest_of_le fun t => Nat.le_add_left _ _, h.tags]
      simp only [Nat.add_sub_cancel]
    · show n t + tags.count t ≤ (log ++ tags).count t
      rw [List.count_append]
      exact Nat.add_le_add_right (h.le t) _
  | eraseFirst u =>
    refine ⟨?_, fun t => ?_⟩
    · show s.tags.erase u = latest (fun t => if u = t then n t - 1 else n t) log
      rw [h.tags, erase_latest (h.le u)]
    · have hle := h.le t
      show (if u = t then n t - 1 else n t) ≤ log.count t
      split
      · omega
      · exact hle
  | clear => exact keeps_count empty

/-! ## Any number of changes -/

/-- Carry out changes in order. -/
def edited (s : TagSet) (edits : List Edit) : TagSet :=
  edits.foldl apply s

theorem Keeps.edited (h : s.Keeps n log) (edits : List Edit) :
    (s.edited edits).Keeps (fun t => edits.foldl (Edit.times t) (n t))
      (edits.foldl Edit.appended log) := by
  induction edits generalizing s n log with
  | nil => exact h
  | cons e edits ih => exact ih (h.apply e)

theorem contains_iff_count_pos (s : TagSet) (t : Tag) :
    s.contains t = true ↔ 0 < s.tags.count t := by
  rw [contains, List.contains_iff_mem, List.count_pos_iff]

/-- **A tag set is an ordered multiset.** After any changes of any set a tag is a member iff the
number of its occurrences is positive, and this number is told by counting: anew where the list is
replaced or cleared, on where tags are appended, and down by one, but not below zero, where the tag
is erased. The entries are those that were appended since the list was last replaced or cleared, in
order, but of every tag only the last ones, as many as there are occurrences. Erasing a tag once
more lowers the number of its occurrences and of no other tag, leaves the other entries in order,
and can be interchanged with erasing any other. -/
theorem tags_edited (s : TagSet) (edits : List Edit) :
    let after := s.edited edits
    let occurrences := fun t => edits.foldl (Edit.times t) (s.tags.count t)
    let log := edits.foldl Edit.appended s.tags
    (∀ t, (after.contains t = true ↔ 0 < occurrences t) ∧ after.tags.count t = occurrences t) ∧
    after.tags = latest occurrences log ∧
    ∀ t,
      let erased := after.apply (.eraseFirst t)
      (∀ u, erased.tags.count u = if u = t then occurrences u - 1 else occurrences u) ∧
      erased.tags.Sublist after.tags ∧
      ∀ u, erased.apply (.eraseFirst u) = (after.apply (.eraseFirst u)).apply (.eraseFirst t) := by
  intro after occurrences log
  have hkeeps : after.Keeps occurrences log := (keeps_count s).edited edits
  refine ⟨fun t => ⟨?_, hkeeps.count t⟩, hkeeps.tags, fun t => ⟨fun u => ?_, ?_, fun u => ?_⟩⟩
  · rw [contains_iff_count_pos, hkeeps.count]
  · rw [(hkeeps.apply (.eraseFirst t)).count u]
    simp only [Edit.times, eq_comm]
  · exact List.erase_sublist
  · exact congrArg TagSet.mk (List.erase_comm t u)

/-- Of three entries the first is erased, and the two that were appended last are left. -/
example :
    let p : Tag := ⟨"p"⟩
    let ul : Tag := ⟨"ul"⟩
    let edits := [.append [p], .eraseFirst p, .append [ul, p], .eraseFirst ⟨"ol"⟩]
    (edited ⟨[p]⟩ edits).tags = [p, ul, p] ∧ latest (fun _ => 2) [p, p, ul, p] = [p, ul, p] := by
  decide

end DomScript.TagSet
