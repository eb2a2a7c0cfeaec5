/-
DomScript.Proofs.Script.Events — handlers are registered under their keys as spelled.

A key is recognised as the key of an event in any letter case, but the name of the event is cut out
of the key as it stands. The DOM tells event names by case, so a key with a capital behind its first
two letters registers its handler for an event that never comes, and changing the case of such a
letter changes the script.

* `Rule.forKey_of_isEventKey` — the keys of the table, in any letter case, are keys of events;
* `renderScript_replace` — a script in which one statement is replaced;
* `registered_as_spelled` — which keys register the same handler, and which the event of the table.
-/
import DomScript.Proofs.Conversion.Sequence
import DomScript.Proofs.Text.LetterCase

namespace DomScript

/-! ## Scripts with one statement replaced -/

/-- Statements are told apart in a script by how they are written. -/
theorem renderScript_replace {s t : Statement} {before after : List Statement} :
    renderScript (before ++ s :: after) = renderScript (before ++ t :: after) ↔
      s.render = t.render := by
  have hline : ∀ u : Statement, (renderScript (before ++ u :: after)).toList =
      (renderScript before).toList ++ (u.render.toList ++ ("\n" ++ renderScript after).toList) := by
    intro u
    rw [renderScript_append, ← List.singleton_append, renderScript_append]
    simp [renderScript]
  rw [← String.toList_inj, hline, hline, List.append_cancel_left_eq, List.append_cancel_right_eq,
    String.toList_inj]

/-- Registrations of one handler differ in the event. -/
theorem Statement.render_listen_inj {var event event' handler : String} :
    (listen var event handler).render = (listen var event' handler).render ↔ event = event' := by
  simp [render, ← String.toList_inj]

namespace Attribute

/-! ## Keys of events -/

/-- Keys that differ in ASCII letter case at most. -/
def SameLetters (key key' : String) : Prop :=
  key.toList.map Char.toLower = key'.toList.map Char.toLower

instance (key key' : String) : Decidable (SameLetters key key') :=
  inferInstanceAs (Decidable (_ = _))

variable {key key' : String}

/-- **Recognised in any letter case.** -/
theorem SameLetters.isEventKey_eq (h : SameLetters key key') :
    isEventKey key' = isEventKey key := by
  rw [isEventKey, isEventKey, h]

/-- The keys of the table are small letters behind `on`. -/
theorem eventKeys_spelling : ∀ event ∈ eventKeys,
    event.toList.take 2 = ['o', 'n'] ∧ ∀ c ∈ event.toList, c.isLower = true := by
  have htable : ∀ event ∈ eventKeys,
      event.toList.take 2 = ['o', 'n'] ∧ event.toList.all Char.isLower = true := by
    decide +kernel
  exact fun event hevent => ⟨(htable event hevent).1, List.all_eq_true.mp (htable event hevent).2⟩

/-- A key of an event is an entry of the table, but for letter case. -/
theorem exists_event (h : isEventKey key = true) :
    ∃ event ∈ eventKeys, event.toList = key.toList.map Char.toLower := by
  obtain ⟨event, hevent, heq⟩ := List.any_eq_true.mp h
  exact ⟨event, hevent, eq_of_beq heq⟩

/-- A key of an event falls under no rule that is tried before, by its first letter. -/
theorem Rule.forKey_of_isEventKey (h : isEventKey key = true) : Rule.forKey key = .event := by
  have hfirst : key.toList.head?.map Char.toLower = some 'o' := by
    obtain ⟨event, hevent, heq⟩ := exists_event h
    have hhead : event.toList.head? = (event.toList.take 2).head? := by rw [List.head?_take]; rfl
    rw [← List.head?_map, ← heq, hhead, (eventKeys_spelling event hevent).1]
    rfl
  have hstyle : key ≠ "style" := by
    rintro rfl
    exact absurd hfirst (by decide)
  have hclass : key ≠ "class" := by
    rintro rfl
    exact absurd hfirst (by decide)
  have hmark : ¬ dataMark.isPrefixOf key.toList = true := by
    rw [List.isPrefixOf_iff_prefix]
    rintro ⟨rest, hrest⟩
    have hletter : (dataMark ++ rest).head?.map Char.toLower = some 'd' := rfl
    rw [← hrest, hletter] at hfirst
    exact absurd hfirst (by decide)
  rw [forKey, if_neg hstyle, if_neg hclass, if_neg hmark, if_pos h]

/-- The statement of an event attribute. -/
theorem statements_event (h : isEventKey key = true) (var handler : String) :
    statements var ⟨key, handler⟩ = [.listen var (.ofList (key.toList.drop 2)) handler] := by
  rw [statements, Rule.forKey_of_isEventKey h]

/-- **Recognised in any letter case, registered as spelled.** Let a key that differs in letter case
at most take the place of an event key, anywhere among the attributes of an element. It is an event
key too, and its statement registers the handler for what follows the first two letters of the key,
as it is spelled there. So the script stays the same iff the two keys agree from the third letter
on, and the event is the one of the table iff the key has no capitals there. -/
theorem registered_as_spelled (hsame : SameLetters key key') (hevent : isEventKey key = true)
    (var handler : String) (before after : List Attribute) :
    let script := fun k => (before ++ ⟨k, handler⟩ :: after).flatMap (·.statements var)
    let name := fun k : String => k.toList.drop 2
    Rule.forKey key' = .event ∧
    script key' = before.flatMap (·.statements var) ++
      .listen var (.ofList (name key')) handler :: after.flatMap (·.statements var) ∧
    (renderScript (script key') = renderScript (script key) ↔ name key' = name key) ∧
    ∃ event ∈ eventKeys, SameLetters event key' ∧
      (name key' = name event ↔ ∀ c ∈ name key', c.isUpper = false) := by
  intro script name
  have hevent' : isEventKey key' = true := hsame.isEventKey_eq.trans hevent
  have hscript : ∀ k, isEventKey k = true → script k = before.flatMap (·.statements var) ++
      .listen var (.ofList (name k)) handler :: after.flatMap (·.statements var) := by
    intro k hk
    show (before ++ ⟨k, handler⟩ :: after).flatMap _ = _
    rw [List.flatMap_append, List.flatMap_cons, statements_event hk]
    rfl
  refine ⟨Rule.forKey_of_isEventKey hevent', hscript key' hevent', ?_, ?_⟩
  · rw [hscript key hevent, hscript key' hevent', renderScript_replace,
      Statement.render_listen_inj, String.ofList_inj]
  · obtain ⟨event, hmem, heq⟩ := exists_event hevent'
    have hsmall : event.toList.map Char.toLower = event.toList :=
      Text.map_toLower_eq_self_iff.mpr fun c hc =>
        Text.not_isUpper_of_isLower ((eventKeys_spelling event hmem).2 c hc)
    refine ⟨event, hmem, hsmall.trans heq, ?_⟩
    have hname : name event = (name key').map Char.toLower := by
      show event.toList.drop 2 = _
      rw [heq, List.map_drop]
    rw [hname, eq_comm, Text.map_toLower_eq_self_iff]

/-- Capitals in the first two letters make no difference, and behind them they do. -/
theorem registered_as_spelled_specimen :
    let before : List Attribute := [⟨"id", "x"⟩]
    let after : List Attribute := [⟨"class", "y"⟩]
    let script := fun k => (before ++ ⟨k, "go();"⟩ :: after).flatMap (·.statements "_a")
    isEventKey "onclick" = true ∧
    (SameLetters "onclick" "ONclick" ∧
      renderScript (script "ONclick") = renderScript (script "onclick")) ∧
    SameLetters "onclick" "onClick" ∧
      renderScript (script "onClick") ≠ renderScript (script "onclick") := by
  intro before after script
  have hevent : isEventKey "onclick" = true := by decide +kernel
  have hfront : SameLetters "onclick" "ONclick" := by decide
  have hbehind : SameLetters "onclick" "onClick" := by decide
  have hiff : ∀ k, SameLetters "onclick" k →
      (renderScript (script k) = renderScript (script "onclick") ↔
        k.toList.drop 2 = "onclick".toList.drop 2) :=
    fun k hk => (registered_as_spelled hk hevent "_a" "go();" before after).2.2.1
  exact ⟨hevent, ⟨hfront, (hiff _ hfront).mpr (by decide)⟩, hbehind,
    mt (hiff _ hbehind).mp (by decide)⟩

/-- **The letter case of a key goes into the script**: the key of the click event is recognised with
a capital in it, and then its handler is registered for an event of another name. -/
theorem letter_case_kept :
    SameLetters "onclick" "onClick" ∧ isEventKey "onclick" = true ∧
    isEventKey "onClick" = true ∧
    renderScript (statements "_a" ⟨"onclick", "go();"⟩) =
      "_a.addEventListener(\"click\", function() \x7bgo();\x7d, false);\n" ∧
    renderScript (statements "_a" ⟨"onClick", "go();"⟩) =
      "_a.addEventListener(\"Click\", function() \x7bgo();\x7d, false);\n" ∧
    renderScript (statements "_a" ⟨"onClick", "go();"⟩) ≠
      renderScript (statements "_a" ⟨"onclick", "go();"⟩) := by
  decide +kernel

end Attribute

end DomScript
