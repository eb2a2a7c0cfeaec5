/-
DomScript.Proofs.Script.Dataset — which data attributes are set under their own name.

A data attribute is set through a property of the dataset, which is named by the key in camel case.
The DOM goes the other way: the attribute of a property is named by `data-` and the name of the
property, with a dash and the small letter in the place of every ASCII capital. The two undo each
other on keys whose dashes all stand right before a letter a to z, and on no other key without
capitals. Of the case mapping this needs no more than `Capitals` says, so it is shown of every such
mapping.

* `camelBy_eq` — camel case in one pass;
* `hyphenated_camelFrom` — the DOM gives back a key whose dashes all stand before letters;
* `lettered_hyphenated` — and what it gives always has its dashes before letters;
* `camelCase_names_data` — both, with what follows from them.
-/
import DomScript.Proofs.Text.LetterCase
import DomScript.Proofs.Text.Split
import DomScript.Statement

namespace DomScript

namespace Text

/-! ## Camel case by any case mapping -/

/-- What camel case asks of a case mapping: the letters a to z have their capitals, and nothing but
a dash becomes a dash. -/
structure Capitals (up : Char → List Char) : Prop where
  letter : ∀ c, c.isLower = true → up c = [c.toUpper]
  dash : ∀ c, '-' ∈ up c → c = '-'

theorem capitals_upperCase : Capitals upperCase where
  letter _ := upperCase_letter
  dash _ := dash_mem_upperCase

variable (up : Char → List Char)

/-- Map the first character and keep the others. -/
def capitalizeBy : List Char → List Char
  | [] => []
  | c :: cs => up c ++ cs

/-- The camel-cased form of a text, with the case mapping left open. -/
def camelBy (cs : List Char) : List Char :=
  match splitAll '-' cs with
  | [] => []
  | part :: parts => part ++ (parts.map (capitalizeBy up)).flatten

theorem camelBy_upperCase : camelBy upperCase = camelChars := by
  have hcapitalize : capitalizeBy upperCase = capitalize := by
    funext cs
    cases cs <;> rfl
  funext cs
  rw [camelBy, hcapitalize]
  rfl

/-- The same in one pass: dashes are dropped, and what stands right behind one is mapped. -/
def camelFrom (dashed : Bool) : List Char → List Char
  | [] => []
  | c :: cs =>
    if c = '-' then camelFrom true cs
    else (if dashed then up c else [c]) ++ camelFrom false cs

theorem camelFrom_parts (cs : List Char) :
    ∃ part parts, splitAll '-' cs = part :: parts ∧
      camelFrom up false cs = part ++ (parts.map (capitalizeBy up)).flatten ∧
      camelFrom up true cs = capitalizeBy up part ++ (parts.map (capitalizeBy up)).flatten := by
  induction cs with
  | nil => exact ⟨[], [], rfl, rfl, rfl⟩
  | cons c cs ih =>
    obtain ⟨part, parts, hsplit, hfirst, hdashed⟩ := ih
    by_cases hc : c = '-'
    · refine ⟨[], part :: parts, by rw [splitAll, if_pos hc, hsplit], ?_, ?_⟩
      · rw [camelFrom, if_pos hc, hdashed]
        rfl
      · rw [camelFrom, if_pos hc, hdashed]
        rfl
    · refine ⟨c :: part, parts, by rw [splitAll, if_neg hc, hsplit], ?_, ?_⟩
      · rw [camelFrom, if_neg hc, hfirst]
        rfl
      · rw [camelFrom, if_neg hc, hfirst, if_pos rfl, capitalizeBy, List.append_assoc]

/-- **Camel case in one pass.** -/
theorem camelBy_eq (cs : List Char) : camelBy up cs = camelFrom up false cs := by
  obtain ⟨part, parts, hsplit, hfirst, -⟩ := camelFrom_parts up cs
  rw [camelBy, hsplit, hfirst]

variable {up}

/-- No dash is left. -/
theorem dash_notMem_camelFrom (hup : Capitals up) (dashed : Bool) (cs : List Char) :
    '-' ∉ camelFrom up dashed cs := by
  induction cs generalizing dashed with
  | nil => simp [camelFrom]
  | cons c cs ih =>
    rw [camelFrom]
    split
    · exact ih true
    · rename_i hc
      rw [List.mem_append, not_or]
      refine ⟨fun h => hc ?_, ih false⟩
      split at h
      · exact hup.dash c h
      · exact (List.mem_singleton.mp h).symm

/-- Without dashes nothing is changed. -/
theorem camelBy_of_notMem {cs : List Char} (h : '-' ∉ cs) : camelBy up cs = cs := by
  rw [camelBy, splitAll_of_notMem h]
  simp

end Text

open Text

/-! ## Names of attributes -/

/-- The name of a property with a dash and the small letter in the place of every ASCII capital. -/
def hyphenated (property : List Char) : List Char :=
  property.flatMap fun c => if c.isUpper then ['-', c.toLower] else [c]

/-- The attribute that the DOM has for a property of the dataset. -/
def dataAttribute (property : List Char) : List Char :=
  Attribute.dataMark ++ hyphenated property

/-- Every dash stands right before a letter a to z. -/
def Lettered (key : List Char) : Prop :=
  ∀ before after, key = before ++ '-' :: after → ∃ c ∈ after.head?, c.isLower = true

/-- No ASCII capitals. -/
def Small (key : List Char) : Prop :=
  ∀ c ∈ key, c.isUpper = false

theorem lettered_cons {c : Char} {cs : List Char} :
    Lettered (c :: cs) ↔ (c = '-' → ∃ d ∈ cs.head?, d.isLower = true) ∧ Lettered cs := by
  constructor
  · intro h
    exact ⟨fun hc => h [] cs (by rw [hc]; rfl),
      fun before after hcs => h (c :: before) after (by rw [hcs]; rfl)⟩
  · rintro ⟨hfirst, hrest⟩ before after heq
    cases before with
    | nil =>
      obtain ⟨rfl, rfl⟩ := List.cons.inj heq
      exact hfirst rfl
    | cons d before => exact hrest before after (List.cons.inj heq).2

theorem hyphenated_append (cs ds : List Char) :
    hyphenated (cs ++ ds) = hyphenated cs ++ hyphenated ds :=
  List.flatMap_append

theorem hyphenated_kept {c : Char} (h : c.isUpper = false) : hyphenated [c] = [c] := by
  simp [hyphenated, h]

theorem hyphenated_capital {c : Char} (h : c.isLower = true) :
    hyphenated [c.toUpper] = ['-', c] := by
  simp [hyphenated, isUpper_toUpper h, toLower_toUpper (not_isUpper_of_isLower h)]

instance (key : List Char) : Decidable (Small key) :=
  decidable_of_iff (key.all (!·.isUpper) = true) (by simp [Small])

/-- Whether every dash stands before a letter is seen character by character. -/
instance decidableLettered : (key : List Char) → Decidable (Lettered key)
  | [] => isTrue fun before after h => by simp at h
  | c :: cs =>
    have := decidableLettered cs
    decidable_of_iff ((c = '-' → cs.head?.any Char.isLower = true) ∧ Lettered cs) <| by
      rw [lettered_cons]
      simp only [Option.any_eq_true, Option.mem_def]

/-- **The DOM gives a key back** whose dashes all stand before letters, and behind a dash it gives
the dash too. -/
theorem hyphenated_camelFrom {up : Char → List Char} (hup : Capitals up) {key : List Char}
    (hsmall : Small key) (hlettered : Lettered key) :
    hyphenated (camelFrom up false key) = key ∧
      ((∃ c ∈ key.head?, c.isLower = true) → hyphenated (camelFrom up true key) = '-' :: key) := by
  induction key with
  | nil => exact ⟨rfl, by simp⟩
  | cons c key ih =>
    obtain ⟨hc, hsmall⟩ := List.forall_mem_cons.mp hsmall
    obtain ⟨hnext, hlettered⟩ := lettered_cons.mp hlettered
    obtain ⟨hfirst, hdashed⟩ := ih hsmall hlettered
    constructor
    · rw [camelFrom]
      split
      · rename_i hdash
        rw [hdashed (hnext hdash), hdash]
      · rw [if_neg Bool.false_ne_true, hyphenated_append, hyphenated_kept hc, hfirst,
          List.singleton_append]
    · rintro ⟨d, hd, hletter⟩
      obtain rfl : c = d := Option.some.inj hd
      have hdash : c ≠ '-' := by
        rintro rfl
        cases hletter
      rw [camelFrom, if_neg hdash, if_pos rfl, hup.letter c hletter, hyphenated_append,
        hyphenated_capital hletter, hfirst]
      rfl

/-- **What the DOM gives** has its dashes before letters, for every property without a dash. -/
theorem lettered_hyphenated {property : List Char} (h : '-' ∉ property) :
    Lettered (hyphenated property) := by
  induction property with
  | nil => rintro before after heq; simp [hyphenated] at heq
  | cons c property ih =>
    obtain ⟨hc, hproperty⟩ := not_or.mp (mt List.mem_cons.mpr h)
    have hcons : hyphenated (c :: property) = hyphenated [c] ++ hyphenated property :=
      hyphenated_append [c] property
    rw [hcons]
    by_cases hupper : c.isUpper
    · have hcapital : hyphenated [c] = ['-', c.toLower] := by simp [hyphenated, hupper]
      have hletter := isLower_toLower hupper
      rw [hcapital, List.cons_append, List.singleton_append, lettered_cons, lettered_cons]
      refine ⟨fun _ => ⟨c.toLower, rfl, hletter⟩, fun hdash => ?_, ih hproperty⟩
      rw [hdash] at hletter
      cases hletter
    · rw [hyphenated_kept (Bool.eq_false_iff.mpr hupper), List.singleton_append, lettered_cons]
      exact ⟨fun hdash => absurd hdash.symm hc, ih hproperty⟩

/-! ## Keys and properties -/

/-- A naming of properties by keys that has no dashes, keeps what it has named, and is undone by the
DOM on the keys whose dashes stand before letters, of those without capitals. -/
structure NamesData (camel : List Char → List Char) : Prop where
  no_dash : ∀ key, '-' ∉ camel key
  fixed : ∀ key, camel (camel key) = camel key
  kept_iff : ∀ key, Small key →
    (dataAttribute (camel key) = Attribute.dataMark ++ key ↔ Lettered key)
  distinct : ∀ key key', Small key → Lettered key → Small key' → Lettered key' →
    camel key = camel key' → key = key'

theorem namesData_camelBy {up : Char → List Char} (hup : Capitals up) : NamesData (camelBy up) := by
  have hdash : ∀ key, '-' ∉ camelBy up key := by
    intro key
    rw [camelBy_eq]
    exact dash_notMem_camelFrom hup false key
  have hkept : ∀ key, Small key → Lettered key → hyphenated (camelBy up key) = key := by
    intro key hsmall hlettered
    rw [camelBy_eq]
    exact (hyphenated_camelFrom hup hsmall hlettered).1
  refine ⟨hdash, fun key => camelBy_of_notMem (hdash key),
    fun key hsmall => ⟨fun h => ?_, fun h => ?_⟩, ?_⟩
  · rw [← List.append_cancel_left h]
    exact lettered_hyphenated (hdash key)
  · rw [dataAttribute, hkept key hsmall h]
  · intro key key' hsmall hlettered hsmall' hlettered' h
    rw [← hkept key hsmall hlettered, h, hkept key' hsmall' hlettered']

/-- The statement of a data attribute. -/
theorem Attribute.statements_data (var key value : String) :
    Attribute.statements var ⟨"data-" ++ key, value⟩ =
      [.assign var ["dataset", .ofList (camelChars key.toList)] (.text value)] := by
  have hkey : ("data-" ++ key).toList = dataMark ++ key.toList := by simp [dataMark]
  have hother : ∀ name : String, ¬ dataMark <+: name.toList → "data-" ++ key ≠ name := by
    rintro name hname rfl
    rw [hkey] at hname
    exact hname (List.prefix_append _ _)
  have hmark : dataMark.isPrefixOf ("data-" ++ key).toList = true := by
    rw [hkey, List.isPrefixOf_iff_prefix]
    exact List.prefix_append _ _
  have hrule : Rule.forKey ("data-" ++ key) = .dataset := by
    rw [Rule.forKey, if_neg (hother "style" (by decide)), if_neg (hother "class" (by decide)),
      if_pos hmark]
  have hname : ("data-" ++ key).toList.drop dataMark.length = key.toList := by
    rw [hkey, List.drop_left]
  rw [statements, hrule]
  dsimp only
  rw [hname]

/-- **Data attributes and the properties they are set through.** With any case mapping that gives
the letters their capitals and nothing but a dash a dash, and so with the one of Unicode, a key in
camel case has no dash and is its own camel case. On keys without ASCII capitals the DOM names the
attribute of that property by the key again iff every dash of the key stands right before a letter a
to z, so that two such keys never fall on the same property. -/
theorem camelCase_names_data :
    (∀ up, Capitals up → NamesData (camelBy up)) ∧
    Capitals upperCase ∧ camelBy upperCase = camelChars ∧ NamesData camelChars ∧
    ∀ var key value : String, Attribute.statements var ⟨"data-" ++ key, value⟩ =
      [.assign var ["dataset", .ofList (camelChars key.toList)] (.text value)] := by
  refine ⟨fun up => namesData_camelBy, capitals_upperCase, camelBy_upperCase, ?_,
    Attribute.statements_data⟩
  rw [← camelBy_upperCase]
  exact namesData_camelBy capitals_upperCase

/-- A key that is given back, and two that are not: of two dashes one is lost, and sharp s has two
capitals. -/
theorem camelCase_names_data_specimen :
    Capitals upperCase ∧
    (Small "user-id".toList ∧ Lettered "user-id".toList ∧
      dataAttribute (camelBy upperCase "user-id".toList) = "data-user-id".toList) ∧
    (Small "user--id".toList ∧ ¬ Lettered "user--id".toList ∧
      dataAttribute (camelBy upperCase "user--id".toList) ≠ "data-user--id".toList) ∧
    Small "-ß".toList ∧ ¬ Lettered "-ß".toList ∧
      dataAttribute (camelBy upperCase "-ß".toList) ≠ "data--ß".toList := by
  have hup := capitals_upperCase
  have hkept := (camelCase_names_data.1 upperCase hup).kept_iff
  have hid : Small "user-id".toList := by decide
  have hidl : Lettered "user-id".toList := by decide
  have hdashes : Small "user--id".toList := by decide
  have hdashesl : ¬ Lettered "user--id".toList := by decide
  have hsharp : Small "-ß".toList := by decide
  have hsharpl : ¬ Lettered "-ß".toList := by decide
  exact ⟨hup, ⟨hid, hidl, (hkept _ hid).mpr hidl⟩,
    ⟨hdashes, hdashesl, mt (hkept _ hdashes).mp hdashesl⟩,
    hsharp, hsharpl, mt (hkept _ hsharp).mp hsharpl⟩

end DomScript
