/-
DomScript.Proofs.CommandLine.Logging — the flags of logging leave a run as it is.

How much is logged can be said anywhere between the other arguments, and no effect of a run depends
on it. Leaving those flags out gives a run that ends alike and leaves the same directory, unless
they are what makes the arguments a misuse: given twice, both given, or in the place of a value.

* `readFrom_unlogged` — reading arguments with and without the flags of logging;
* `run_unlogged` — running with and without them.
-/
import DomScript.Proofs.CommandLine.Arguments
import DomScript.Proofs.CommandLine.Outcome

namespace DomScript.CommandLine

/-! ## The flags -/

namespace Argument

/-- Whether an argument is about logging. -/
def isLogging (arg : String) : Bool :=
  arg == "--verbose" || arg == "--quiet"

variable {arg : String}

theorem ofString_of_isLogging (h : isLogging arg = true) :
    ofString arg = .flag .verbose ∨ ofString arg = .flag .quiet := by
  rcases Bool.or_eq_true_iff.mp h with h | h
  · obtain rfl := eq_of_beq h
    exact .inl (by decide)
  · obtain rfl := eq_of_beq h
    exact .inr (by decide)

theorem isLogging_of_ofString {f : Flag} (h : ofString arg = .flag f)
    (hf : f = .verbose ∨ f = .quiet) : isLogging arg = true := by
  rcases ofString_flag h with ⟨name, hname, rfl⟩ | ⟨c, hc⟩
  · rcases hf with rfl | rfl
    · obtain rfl : name = "verbose" := by simpa [longFlags] using hname
      decide
    · obtain rfl : name = "quiet" := by simpa [longFlags] using hname
      decide
  · -- The flags of logging have no letter.
    rcases hf with rfl | rfl <;> simp [shortFlags] at hc

/-- Arguments without those that are about logging. -/
def withoutLogging (args : List String) : List String :=
  args.filter (!isLogging ·)

theorem withoutLogging_cons_of_isLogging (h : isLogging arg = true) (rest : List String) :
    withoutLogging (arg :: rest) = withoutLogging rest :=
  List.filter_cons_of_neg (by rw [h]; exact Bool.false_ne_true)

theorem withoutLogging_cons {x : Argument} (h : ofString arg = x) (hverbose : x ≠ .flag .verbose)
    (hquiet : x ≠ .flag .quiet) (rest : List String) :
    withoutLogging (arg :: rest) = arg :: withoutLogging rest := by
  refine List.filter_cons_of_pos ?_
  rw [Bool.not_eq_true']
  refine Bool.eq_false_iff.mpr fun hlogging => ?_
  subst h
  exact (ofString_of_isLogging hlogging).elim hverbose hquiet

/-- The value of an option is not about logging. -/
theorem withoutLogging_value (h : isValue arg = true) (rest : List String) :
    withoutLogging (arg :: rest) = arg :: withoutLogging rest := by
  refine List.filter_cons_of_pos ?_
  rw [Bool.not_eq_true']
  refine Bool.eq_false_iff.mpr fun hlogging => ?_
  rcases Bool.or_eq_true_iff.mp hlogging with h' | h'
  · obtain rfl := eq_of_beq h'
    exact absurd h (by decide)
  · obtain rfl := eq_of_beq h'
    exact absurd h (by decide)

end Argument

/-! ## Reading the arguments -/

/-- The arguments apart from what they say about logging. -/
def Arguments.unlogged (a : Arguments) : Arguments :=
  { a with verbose := false, quiet := false }

/-- A request apart from what it says about logging. -/
def Request.unlogged : Request → Request
  | .run a => .run a.unlogged
  | r => r

namespace Arguments

open Argument

theorem set?_unlogged (a : Arguments) (value : String) (o : ValueOption) :
    a.unlogged.set? value o = (a.set? value o).map unlogged := by
  cases o <;> simp only [set?, unlogged, Option.map_map] <;> rfl

theorem finish_unlogged (a : Arguments) :
    a.finish = .misuse ∨ a.unlogged.finish.unlogged = a.finish.unlogged := by
  rw [finish]
  split
  · exact .inl rfl
  · exact .inr rfl

/-- **Reading without the flags of logging** asks for the same, unless they are a misuse. -/
theorem readFrom_unlogged (a : Arguments) (args : List String) :
    a.readFrom args = .misuse ∨
      (a.unlogged.readFrom (withoutLogging args)).unlogged = (a.readFrom args).unlogged := by
  fun_induction readFrom a args with
  | case1 a => exact a.finish_unlogged
  | case3 a arg rest h hrest =>
    obtain rfl := List.isEmpty_iff.mp hrest
    rw [withoutLogging_cons h (by simp) (by simp)]
    rw [show Argument.withoutLogging [] = [] from rfl, readFrom_end _ h]
    exact a.finish_unlogged
  | case5 a arg rest h =>
    rw [withoutLogging_cons h (by simp) (by simp), readFrom_version _ h]
    exact .inr rfl
  | case6 a arg rest h =>
    rw [withoutLogging_cons h (by simp) (by simp), readFrom_help _ h]
    exact .inr rfl
  | case8 a arg rest h hfirst ih =>
    have hfirst : ¬a.unlogged.keepRootText = true := hfirst
    rw [withoutLogging_cons h (by simp) (by simp), readFrom_keepRootText _ h, if_neg hfirst]
    exact ih
  | case10 a arg rest h _ ih =>
    rw [withoutLogging_cons_of_isLogging (isLogging_of_ofString h (.inl rfl))]
    exact ih
  | case12 a arg rest h _ ih =>
    rw [withoutLogging_cons_of_isLogging (isLogging_of_ofString h (.inr rfl))]
    exact ih
  | case13 a arg rest o value h next hset ih =>
    rw [withoutLogging_cons h (by simp) (by simp), readFrom_option _ h, set?_unlogged, hset]
    exact ih
  | case16 a arg o h value rest hvalue next hset ih =>
    rw [withoutLogging_cons h (by simp) (by simp), withoutLogging_value hvalue,
      readFrom_next _ h hvalue, set?_unlogged, hset]
    exact ih
  | _ => exact .inl rfl

end Arguments

/-! ## Runs -/

namespace Directory

variable (parser : PageParser) (d : Directory)

/-- What is said about logging has no part in a run. -/
theorem answer_unlogged (r : Request) : d.answer parser r.unlogged = d.answer parser r := by
  cases r <;> rfl

/-- **A run without the flags of logging** is the same run, unless they are a misuse. -/
theorem run_unlogged (args : List String) :
    d.run parser args = (.misuse, d) ∨
      d.run parser (Argument.withoutLogging args) = d.run parser args := by
  rw [run_eq_answer, run_eq_answer]
  rcases Arguments.readFrom_unlogged {} args with h | h
  · exact .inl (by rw [Arguments.read, h]; rfl)
  · refine .inr ?_
    calc d.answer parser (Arguments.read (Argument.withoutLogging args))
        = d.answer parser (Arguments.read (Argument.withoutLogging args)).unlogged :=
          (d.answer_unlogged parser _).symm
      _ = d.answer parser (Arguments.read args).unlogged := congrArg (d.answer parser) h
      _ = d.answer parser (Arguments.read args) := d.answer_unlogged parser _

end Directory

end DomScript.CommandLine
