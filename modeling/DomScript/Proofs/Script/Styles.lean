/-
DomScript.Proofs.Script.Styles — a style is read as the declarations it was written from.

A style is made of segments between semicolons. `Segments` says how a list of declarations can be
written as segments: a segment may declare, with blanks around its name, its colon and its value, or
stand idle, without a colon. What is read is the list again, whatever the blanks and the idle
segments.

* `styleDeclarations_append` — a semicolon cuts a style in two that are read one after the other;
* `styleDeclarations_declaring` — the first colon of a segment cuts it into a name and a value;
* `styles_written` — the lines that are written for a style.
-/
import DomScript.Proofs.Text.Split
import DomScript.Statement

namespace DomScript

open Text

/-! ## Reading styles -/

/-- A semicolon cuts a style in two. -/
theorem styleDeclarations_append (a b : List Char) :
    styleDeclarations (a ++ ';' :: b) = styleDeclarations a ++ styleDeclarations b := by
  rw [styleDeclarations, splitAll_append_cons, List.filterMap_append]
  rfl

/-- Joined segments are read one after the other, also those that are themselves joined. -/
theorem styleDeclarations_intercalate (segments : List (List Char)) :
    styleDeclarations ([';'].intercalate segments) = segments.flatMap styleDeclarations := by
  induction segments with
  | nil => rfl
  | cons segment segments ih =>
    cases segments with
    | nil => rw [List.intercalate_singleton, List.flatMap_singleton]
    | cons next segments =>
      rw [List.intercalate_cons_cons, List.append_assoc, List.singleton_append,
        styleDeclarations_append, ih]
      rfl

/-- Without a colon nothing is declared. -/
theorem styleDeclarations_idle {text : List Char} (h : ':' ∉ text) :
    styleDeclarations text = [] := by
  refine List.filterMap_eq_nil_iff.mpr fun part hpart => ?_
  have hcolon : ':' ∉ trim part := fun hc => h (mem_of_mem_splitAll hpart (mem_of_mem_trim hc))
  rw [splitFirst?_of_notMem hcolon, Option.map_none]

/-- **The first colon cuts a segment** into a name and a value, each of which is trimmed. -/
theorem styleDeclarations_declaring {before after : List Char} (hsemicolon : ';' ∉ before)
    (hcolon : ':' ∉ before) (hafter : ';' ∉ after) :
    styleDeclarations (before ++ ':' :: after) = [(trim before, trim after)] := by
  have hsegment : ';' ∉ before ++ ':' :: after := by simp [hsemicolon, hafter]
  have hstart : ':' ∉ trimStart before := fun hc => hcolon (List.dropWhile_subset _ hc)
  have hcut : splitFirst? ':' (trim (before ++ ':' :: after)) =
      some (trimStart before, trimEnd after) := by
    rw [trim_append_cons rfl, splitFirst?_append hstart]
  rw [styleDeclarations, splitAll_of_notMem hsegment, List.filterMap_cons, hcut, Option.map_some,
    List.filterMap_nil]
  dsimp only
  rw [trim_trimStart, trim_trimEnd]

/-! ## Writing styles -/

/-- A declaration that a style can make: a name without a colon and a value, both without a
semicolon and without blanks at their ends. Either may be empty. -/
structure Declaration where
  property : String
  value : String
  property_bare : Bare property.toList
  value_bare : Bare value.toList
  no_colon : ':' ∉ property.toList
  no_semicolon : ';' ∉ property.toList ∧ ';' ∉ value.toList

/-- Nothing but blanks. -/
def Padding (pad : String) : Prop :=
  ∀ c ∈ pad.toList, isWhiteSpace c = true

instance (pad : String) : Decidable (Padding pad) :=
  decidable_of_iff (pad.toList.all isWhiteSpace = true) List.all_eq_true

/-- The segments of a style that makes the declarations. -/
inductive Segments : List Declaration → List String → Prop
  | nil : Segments [] []
  | idle {text : String} {declarations : List Declaration} {segments : List String}
      (hcolon : ':' ∉ text.toList) (hrest : Segments declarations segments) :
      Segments declarations (text :: segments)
  | declaring {d : Declaration} {front before after back : String} {declarations : List Declaration}
      {segments : List String} (hfront : Padding front) (hbefore : Padding before)
      (hafter : Padding after) (hback : Padding back) (hrest : Segments declarations segments) :
      Segments (d :: declarations)
        ((front ++ d.property ++ before ++ ":" ++ after ++ d.value ++ back) :: segments)

theorem Padding.notMem {pad : String} (h : Padding pad) {c : Char} (hc : isWhiteSpace c = false) :
    c ∉ pad.toList := by
  intro hmem
  rw [h c hmem] at hc
  cases hc

/-- **What is read from the segments** is what they declare. -/
theorem Segments.flatMap_eq {declarations : List Declaration} {segments : List String}
    (h : Segments declarations segments) :
    (segments.map String.toList).flatMap styleDeclarations =
      declarations.map fun d => (d.property.toList, d.value.toList) := by
  induction h with
  | nil => rfl
  | idle hcolon _ ih =>
    rw [List.map_cons, List.flatMap_cons, styleDeclarations_idle hcolon, ih]
    rfl
  | @declaring d front before after back _ _ hfront hbefore hafter hback _ ih =>
    have hsegment : (front ++ d.property ++ before ++ ":" ++ after ++ d.value ++ back).toList =
        (front.toList ++ d.property.toList ++ before.toList) ++
          ':' :: (after.toList ++ d.value.toList ++ back.toList) := by
      simp
    have hname : ∀ sep, isWhiteSpace sep = false → sep ∉ d.property.toList →
        sep ∉ front.toList ++ d.property.toList ++ before.toList := by
      intro sep hsep hd
      simp [hd, hfront.notMem hsep, hbefore.notMem hsep]
    have hsemicolon : isWhiteSpace ';' = false := rfl
    have hvalue : ';' ∉ after.toList ++ d.value.toList ++ back.toList := by
      simp [d.no_semicolon.2, hafter.notMem hsemicolon, hback.notMem hsemicolon]
    rw [List.map_cons, List.flatMap_cons, hsegment,
      styleDeclarations_declaring (hname ';' rfl d.no_semicolon.1) (hname ':' rfl d.no_colon)
        hvalue,
      d.property_bare.trim_eq hfront hbefore, d.value_bare.trim_eq hafter hback, ih]
    rfl

/-! ## Lines -/

/-- The lines that a style writes for the object in `var`. -/
def styleLines (var style : String) : List String :=
  (Attribute.statements var ⟨"style", style⟩).map Statement.render

/-- The line of a declaration. -/
def Declaration.line (var : String) (d : Declaration) : String :=
  var ++ ".style." ++ camelCase d.property ++ " = \"" ++ escape d.value ++ "\";"

theorem styleLines_eq (var style : String) :
    styleLines var style = (styleDeclarations style.toList).map fun (property, value) =>
      (Statement.assign var ["style", .ofList (camelChars property)]
        (.text (.ofList value))).render := by
  have hrule : Attribute.Rule.forKey "style" = .style := rfl
  rw [styleLines, Attribute.statements, hrule, List.map_map]
  rfl

/-- **The lines of a style**: cut at a semicolon, a style writes the lines of one side and then
those of the other; and however declarations are written as segments, the style writes the line of
each of them, in order, and no other. -/
theorem styles_written (var : String) :
    (∀ a b, styleLines var (a ++ ";" ++ b) = styleLines var a ++ styleLines var b) ∧
    ∀ declarations segments, Segments declarations segments →
      styleLines var (";".intercalate segments) = declarations.map (Declaration.line var) := by
  constructor
  · intro a b
    have hcut : (a ++ ";" ++ b).toList = a.toList ++ ';' :: b.toList := by simp
    rw [styleLines_eq, styleLines_eq, styleLines_eq, hcut, styleDeclarations_append,
      List.map_append]
  · intro declarations segments h
    have hsep : ";".toList = [';'] := rfl
    rw [styleLines_eq, String.toList_intercalate, hsep, styleDeclarations_intercalate, h.flatMap_eq,
      List.map_map]
    refine List.map_congr_left fun d _ => ?_
    have hpath : ".style." = "." ++ "style" ++ "." := rfl
    have hopen : " = \"" = " = " ++ "\"" := rfl
    have hclose : "\";" = "\"" ++ ";" := rfl
    simp only [Function.comp, Declaration.line, Statement.render, Operand.render, quoted, camelCase,
      List.foldr_cons, List.foldr_nil, hpath, hopen, hclose, String.append_empty,
      String.append_assoc, String.ofList_toList]

/-- A declaration whose value has a colon. -/
def Declaration.image : Declaration where
  property := "background-image"
  value := "url(http://x/y.png)"
  property_bare := by decide
  value_bare := by decide
  no_colon := by decide
  no_semicolon := by decide

/-- Nothing on either side of the colon. -/
def Declaration.blank : Declaration where
  property := ""
  value := ""
  property_bare := by decide
  value_bare := by decide
  no_colon := by decide
  no_semicolon := by decide

/-- Both declarations, padded, with idle segments around them. -/
theorem styles_written_specimen :
    let segments := ["bogus", " background-image\n:\u00a0url(http://x/y.png) ", "", "\t:"]
    Segments [.image, .blank] segments ∧
    styleLines "_a" (";".intercalate segments) =
      ["_a.style.backgroundImage = \"url(http://x/y.png)\";", "_a.style. = \"\";"] := by
  intro segments
  have hblank : Segments [.blank] ["\t:"] :=
    @Segments.declaring .blank "\t" "" "" "" _ _ (by decide) (by decide) (by decide) (by decide)
      .nil
  have himage : Segments [.image, .blank]
      [" background-image\n:\u00a0url(http://x/y.png) ", "", "\t:"] :=
    @Segments.declaring .image " " "\n" "\u00a0" " " _ _ (by decide) (by decide) (by decide)
      (by decide) (.idle (by decide) hblank)
  have hall : Segments [.image, .blank] segments := .idle (by decide) himage
  refine ⟨hall, ?_⟩
  rw [(styles_written "_a").2 _ _ hall]
  decide

end DomScript
