/-
DomScript.Proofs.CommandLine.Arguments — what the arguments are, and what one of them does.

A flag has a full name and sometimes a letter; an option whose value stands in the same argument is
read together with it. Later proofs take the arguments one by one through the equations of
`readFrom` that are stated here.

* `ofString_flag`, `ofString_long` — how flags and options are given;
* `readFrom_option`, `readFrom_next`, `readFrom_keepRootText` — reading one argument.
-/
import DomScript.CommandLine.Arguments
import DomScript.Proofs.Text.Split

namespace DomScript.CommandLine

variable {arg value : String} {rest : List String} {o : ValueOption} {f : Flag}

/-! ## Single arguments -/

namespace Argument

theorem mem_of_lookup {α β : Type} [BEq α] [LawfulBEq α] {entries : List (α × β)} {key : α} {b : β}
    (h : entries.lookup key = some b) : (key, b) ∈ entries := by
  obtain ⟨before, after, rfl, -⟩ := List.lookup_eq_some_iff.mp h
  exact List.mem_append_right _ List.mem_cons_self

theorem ofLong_flag {cs : List Char} (h : ofLong cs = .flag f) :
    (String.ofList cs, f) ∈ longFlags := by
  rw [ofLong] at h
  cases hs : Text.splitFirst? '=' cs with
  | none =>
    rw [hs] at h
    dsimp only at h
    split at h
    · cases h
    · rename_i hflag _
      cases h
      exact mem_of_lookup hflag
    · cases h
  | some parts =>
    rw [hs] at h
    dsimp only at h
    split at h
    · cases h
    · rename_i hnone
      exact absurd hnone (Option.some_ne_none _)
    · cases h

theorem ofShort_flag {c : Char} {cs : List Char} (h : ofShort c cs = .flag f) :
    (c, f) ∈ shortFlags := by
  rw [ofShort] at h
  split at h
  · cases h
  · rename_i hflag
    cases h
    exact mem_of_lookup hflag
  · cases h

/-- A flag is given by its full name, or by its letter. -/
theorem ofString_flag (h : ofString arg = .flag f) :
    (∃ name, (name, f) ∈ longFlags ∧ arg = "--" ++ name) ∨ ∃ c, (c, f) ∈ shortFlags := by
  rw [ofString] at h
  split at h
  · cases h
  · rename_i cs _ hcs
    refine .inl ⟨.ofList cs, ofLong_flag h, ?_⟩
    rw [← String.toList_inj, String.toList_append, String.toList_ofList, String.toList_ofList, hcs]
    rfl
  · exact .inr ⟨_, ofShort_flag h⟩
  · cases h

/-- An option by its full name, with its value. -/
def long (name value : String) : String :=
  "--" ++ name ++ "=" ++ value

theorem ofString_long {name : String} (hname : '=' ∉ name.toList)
    (hlookup : longOptions.lookup name = some o) (value : String) :
    ofString (long name value) = .option o (some value) := by
  have hlist : (long name value).toList = '-' :: '-' :: (name.toList ++ '=' :: value.toList) := by
    simp [long]
  have hlong : ofLong (name.toList ++ '=' :: value.toList) = .option o (some value) := by
    rw [ofLong, Text.splitFirst?_append hname]
    simp only [String.ofList_toList, hlookup]
  rw [ofString, hlist]
  -- What follows the dashes is not empty.
  cases hrest : name.toList ++ '=' :: value.toList with
  | nil => exact absurd hrest (by simp)
  | cons c cs =>
    rw [← hlong, hrest]
    rfl

end Argument

/-! ## Reading -/

namespace Arguments

variable (a : Arguments)

/-- Go on with the arguments that are left, if the one before them was accepted. -/
def continue? (a : Option Arguments) (rest : List String) : Request :=
  match a with
  | some a => a.readFrom rest
  | none => .misuse

/-- An option with its value in the same argument. -/
theorem readFrom_option (h : Argument.ofString arg = .option o (some value)) :
    a.readFrom (arg :: rest) = continue? (a.set? value o) rest := by
  rw [readFrom, h]
  rfl

/-- An option with its value in the next argument. -/
theorem readFrom_next (h : Argument.ofString arg = .option o none)
    (hvalue : Argument.isValue value = true) :
    a.readFrom (arg :: value :: rest) = continue? (a.set? value o) rest := by
  rw [readFrom.eq_def]
  simp only [h, hvalue, if_true]
  rfl

theorem readFrom_end (h : Argument.ofString arg = .endOfOptions) :
    a.readFrom [arg] = a.finish := by
  rw [readFrom, h]
  rfl

theorem readFrom_keepRootText (h : Argument.ofString arg = .flag .keepRootText) :
    a.readFrom (arg :: rest) = if a.keepRootText then .misuse
      else readFrom { a with keepRootText := true } rest := by
  rw [readFrom, h]

theorem readFrom_version (h : Argument.ofString arg = .flag .version) :
    a.readFrom (arg :: rest) = .version := by
  rw [readFrom, h]

theorem readFrom_help (h : Argument.ofString arg = .flag .help) :
    a.readFrom (arg :: rest) = .help := by
  rw [readFrom, h]

end Arguments

end DomScript.CommandLine
