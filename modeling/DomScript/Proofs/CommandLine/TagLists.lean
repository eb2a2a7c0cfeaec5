/-
DomScript.Proofs.CommandLine.TagLists — how a list of tags can be spelled.

An item of a list option may be padded with blanks, and its letters may be capitals; an item of
blanks only says nothing. `Spells` has one constructor for each kind of item, and reading forgets
exactly these differences. A tag that a comma, a blank at an end or a capital belongs to cannot be
given, hence `Tag.Writable`.

* `tagsOf_spells` — the items of a spelling give the tags;
* `tagsOf_flatMap` — also when they come in several values.
-/
import DomScript.CommandLine.Arguments
import DomScript.Proofs.Text.LetterCase
import DomScript.Proofs.Text.Split

namespace DomScript

open Text

/-! ## Letter case -/

namespace Text

theorem isWhiteSpace_toUpper (c : Char) : isWhiteSpace c.toUpper = isWhiteSpace c :=
  toUpper_elim (P := fun c w => isWhiteSpace w = isWhiteSpace c) c rfl (by decide)

theorem toUpper_ne_comma {c : Char} (h : c ≠ ',') : c.toUpper ≠ ',' :=
  toUpper_elim (P := fun _ w => w ≠ ',') c h (by decide)

theorem not_isWhiteSpace_of_map_eq {before after : Option Char}
    (h : after.map isWhiteSpace = before.map isWhiteSpace)
    (hbefore : ∀ c ∈ before, isWhiteSpace c = false) : ∀ c ∈ after, isWhiteSpace c = false := by
  intro c hc
  have hmem : isWhiteSpace c ∈ after.map isWhiteSpace := Option.mem_map_of_mem _ hc
  rw [h] at hmem
  obtain ⟨c', hc', heq⟩ := Option.map_eq_some_iff.mp hmem
  rw [← heq, hbefore c' hc']

end Text

/-! ## Spellings -/

/-- A tag that an item of a list can give: it is not empty, has no comma and no ASCII capital, and
neither begins nor ends with a blank. -/
structure Tag.Writable (t : Tag) : Prop where
  nonempty : t.name.toList ≠ []
  no_comma : ',' ∉ t.name.toList
  no_capital : ∀ c ∈ t.name.toList, c.isUpper = false
  first : ∀ c ∈ t.name.toList.head?, isWhiteSpace c = false
  last : ∀ c ∈ t.name.toList.getLast?, isWhiteSpace c = false

instance (t : Tag) : Decidable t.Writable :=
  decidable_of_iff
    (t.name.toList ≠ [] ∧ ',' ∉ t.name.toList ∧ t.name.toList.all (!·.isUpper) = true ∧
      t.name.toList.head?.all (!isWhiteSpace ·) = true ∧
      t.name.toList.getLast?.all (!isWhiteSpace ·) = true) <| by
    simp only [List.all_eq_true, Option.all_eq_true, Bool.not_eq_true', ← Option.mem_def]
    exact ⟨fun ⟨h₁, h₂, h₃, h₄, h₅⟩ => ⟨h₁, h₂, h₃, h₄, h₅⟩,
      fun ⟨h₁, h₂, h₃, h₄, h₅⟩ => ⟨h₁, h₂, h₃, h₄, h₅⟩⟩

namespace CommandLine

/-- The second word is the first one with any of its letters made capitals. -/
inductive Recased : List Char → List Char → Prop
  | nil : Recased [] []
  | kept {c : Char} {name word : List Char} (hrest : Recased name word) :
      Recased (c :: name) (c :: word)
  | capital {c : Char} {name word : List Char} (hrest : Recased name word) :
      Recased (c :: name) (c.toUpper :: word)

/-- Items that spell tags: an item of blanks is none, and any other is a tag between blanks. -/
inductive Spells : List Tag → List String → Prop
  | nil : Spells [] []
  | blank {item : String} {tags : List Tag} {items : List String}
      (hblank : ∀ c ∈ item.toList, isWhiteSpace c = true) (hrest : Spells tags items) :
      Spells tags (item :: items)
  | tag {item : String} {t : Tag} {front word back : List Char} {tags : List Tag}
      {items : List String} (hitem : item.toList = front ++ word ++ back)
      (hfront : ∀ c ∈ front, isWhiteSpace c = true) (hback : ∀ c ∈ back, isWhiteSpace c = true)
      (hword : Recased t.name.toList word) (hrest : Spells tags items) :
      Spells (t :: tags) (item :: items)

namespace Recased

variable {name word : List Char}

theorem refl (name : List Char) : Recased name name := by
  induction name with
  | nil => exact .nil
  | cons c name ih => exact .kept ih

theorem toLower_eq (h : Recased name word) (hname : ∀ c ∈ name, c.isUpper = false) :
    word.map Char.toLower = name := by
  induction h with
  | nil => rfl
  | kept _ ih =>
    obtain ⟨hc, hname⟩ := List.forall_mem_cons.mp hname
    rw [List.map_cons, toLower_of_not_isUpper hc, ih hname]
  | capital _ ih =>
    obtain ⟨hc, hname⟩ := List.forall_mem_cons.mp hname
    rw [List.map_cons, toLower_toUpper hc, ih hname]

theorem ne_nil (h : Recased name word) (hname : name ≠ []) : word ≠ [] := by
  cases h with
  | nil => exact hname
  | kept _ => exact List.cons_ne_nil _ _
  | capital _ => exact List.cons_ne_nil _ _

theorem comma_notMem (h : Recased name word) (hname : ',' ∉ name) : ',' ∉ word := by
  induction h with
  | nil => exact hname
  | kept _ ih =>
    simp only [List.mem_cons, not_or] at hname ⊢
    exact ⟨hname.1, ih hname.2⟩
  | capital _ ih =>
    simp only [List.mem_cons, not_or] at hname ⊢
    exact ⟨(toUpper_ne_comma (Ne.symm hname.1)).symm, ih hname.2⟩

/-- Blanks stand where they stood. -/
theorem map_isWhiteSpace (h : Recased name word) :
    word.map isWhiteSpace = name.map isWhiteSpace := by
  induction h with
  | nil => rfl
  | kept _ ih => rw [List.map_cons, List.map_cons, ih]
  | capital _ ih => rw [List.map_cons, List.map_cons, ih, isWhiteSpace_toUpper]

end Recased

/-- Every list of tags is spelled by its names. -/
theorem Spells.names (tags : List Tag) : Spells tags (tags.map Tag.name) := by
  induction tags with
  | nil => exact .nil
  | cons t tags ih =>
    have hitem : t.name.toList = [] ++ t.name.toList ++ [] := by simp
    exact .tag hitem (List.forall_mem_nil _) (List.forall_mem_nil _) (.refl _) ih

/-! ## Reading the items -/

namespace Arguments

theorem tagsOf_append (items others : List String) :
    tagsOf (items ++ others) = tagsOf items ++ tagsOf others := by
  simp only [tagsOf, List.map_append, List.filter_append]

theorem tagsOf_blank {item : String} (h : ∀ c ∈ item.toList, isWhiteSpace c = true) :
    tagsOf [item] = [] := by
  rw [tagsOf, List.map_singleton, trim_blank h]
  rfl

/-- An item gives its tag, whatever stands around it and in whatever case its letters are. -/
theorem tagsOf_tag {item : String} {t : Tag} {front word back : List Char} (ht : t.Writable)
    (hitem : item.toList = front ++ word ++ back)
    (hfront : ∀ c ∈ front, isWhiteSpace c = true) (hback : ∀ c ∈ back, isWhiteSpace c = true)
    (hword : Recased t.name.toList word) : tagsOf [item] = [t] := by
  obtain ⟨hne, -, hlower, hfirst, hlast⟩ := ht
  have htrim : trim item.toList = word := by
    rw [hitem]
    refine trim_pad hfront hback ⟨hword.ne_nil hne, ?_, ?_⟩
    · refine not_isWhiteSpace_of_map_eq ?_ hfirst
      rw [← List.head?_map, ← List.head?_map, hword.map_isWhiteSpace]
    · refine not_isWhiteSpace_of_map_eq ?_ hlast
      rw [← List.getLast?_map, ← List.getLast?_map, hword.map_isWhiteSpace]
  rw [tagsOf, List.map_singleton, htrim, hword.toLower_eq hlower]
  rw [List.filter_cons_of_pos (by simpa using hne)]
  simp

/-- **The items of a spelling give the tags**, in their order and as often as they stand there. -/
theorem tagsOf_spells {tags : List Tag} {items : List String} (h : Spells tags items)
    (htags : ∀ t ∈ tags, t.Writable) : tagsOf items = tags := by
  induction h with
  | nil => rfl
  | @blank item tags items hblank _ ih =>
    rw [← List.singleton_append, tagsOf_append, tagsOf_blank hblank, ih htags]
    rfl
  | @tag item t front word back tags items hitem hfront hback hword _ ih =>
    obtain ⟨ht, htags⟩ := List.forall_mem_cons.mp htags
    rw [← List.singleton_append, tagsOf_append, tagsOf_tag ht hitem hfront hback hword, ih htags]
    rfl

/-! ## Reading the values -/

/-- The value that items make. -/
def listValue (items : List String) : String :=
  ",".intercalate items

/-- The items of a value. -/
def itemsOf (value : String) : List String :=
  (splitAll ',' value.toList).map String.ofList

/-- No item has a comma. -/
theorem comma_notMem {tags : List Tag} {items : List String} (h : Spells tags items)
    (htags : ∀ t ∈ tags, t.Writable) : ∀ item ∈ items, ',' ∉ item.toList := by
  have hblank : ∀ cs : List Char, (∀ c ∈ cs, isWhiteSpace c = true) → ',' ∉ cs :=
    fun cs hcs hmem => absurd (hcs ',' hmem) (by decide)
  induction h with
  | nil => exact List.forall_mem_nil _
  | blank hitem _ ih => exact List.forall_mem_cons.mpr ⟨hblank _ hitem, ih htags⟩
  | tag hitem hfront hback hword _ ih =>
    obtain ⟨ht, htags⟩ := List.forall_mem_cons.mp htags
    refine List.forall_mem_cons.mpr ⟨?_, ih htags⟩
    rw [hitem]
    simp [hblank _ hfront, hblank _ hback, hword.comma_notMem ht.no_comma]

/-- A value without items has an empty one, which is no tag. -/
theorem tagsOf_itemsOf {items : List String} (h : ∀ item ∈ items, ',' ∉ item.toList) :
    tagsOf (itemsOf (listValue items)) = tagsOf items := by
  cases items with
  | nil => rfl
  | cons item items =>
    have hsplit : splitAll ',' (listValue (item :: items)).toList =
        (item :: items).map String.toList := by
      rw [listValue, String.toList_intercalate]
      exact splitAll_intercalate (by simp) (by simpa using h)
    rw [itemsOf, hsplit, List.map_map]
    simp [Function.comp_def]

/-- **Several values of an option** give the tags that their items spell. -/
theorem tagsOf_flatMap {occurrences : List (List String)}
    (h : ∀ item ∈ occurrences.flatten, ',' ∉ item.toList) :
    tagsOf (occurrences.flatMap fun items => itemsOf (listValue items)) =
      tagsOf occurrences.flatten := by
  induction occurrences with
  | nil => rfl
  | cons items occurrences ih =>
    rw [List.flatten_cons] at h ⊢
    obtain ⟨hitems, hrest⟩ := List.forall_mem_append.mp h
    rw [List.flatMap_cons, tagsOf_append, tagsOf_append, tagsOf_itemsOf hitems, ih hrest]

end Arguments

end CommandLine

end DomScript
