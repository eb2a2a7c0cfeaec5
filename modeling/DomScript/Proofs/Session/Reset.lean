/-
DomScript.Proofs.Session.Reset — a reset is a fresh start.

A session keeps the stem of its names twice: in the options, which a reset leaves alone, and in the
sequence of names, which a reset takes back to its beginning. A reset is the session that the
present options would start just if the two agree. No command lets them part, so a reset forgets all
that came before it but the options.

* `reset_eq_new_iff` — when a reset is a fresh start;
* `reset_starts_afresh` — it always is, whatever came before and whatever follows.
-/
import DomScript.Proofs.Session.Names

namespace DomScript

namespace Session

/-- **When a reset is a fresh start**: if the names have the stem of the options. -/
theorem reset_eq_new_iff (s : Session) :
    s.reset = .new s.options ↔ s.names.stem = s.options.stem := by
  constructor
  · intro h
    exact congrArg (fun t : Session => t.names.stem) h
  · intro h
    rw [reset, VariableNames.reset, h]
    rfl

/-- **A reset is a fresh start**, whatever parser reads the pages. At every point of a session the
names have the stem of the options. So whatever follows a reset goes as in a new session with these
options: every reply, with the variables and the reports in it, the session before every command,
with its buffer, and the session in the end. -/
theorem reset_starts_afresh (parser : PageParser) (o : Options) (cs : List Command) :
    let s := ((Session.new o).run parser cs).2
    s.names.stem = s.options.stem ∧
    ∀ rest : List Command,
      s.reset.run parser rest = (Session.new s.options).run parser rest ∧
      s.reset.history parser rest = (Session.new s.options).history parser rest ∧
      (Session.new o).history parser (cs ++ .reset :: rest) =
        (Session.new o).history parser cs ++
          ⟨s, .reset, .silent⟩ :: (Session.new s.options).history parser rest := by
  intro s
  have hstem : s.names.stem = s.options.stem := (numbered_run parser o cs).stem
  have hreset : s.reset = .new s.options := s.reset_eq_new_iff.mpr hstem
  refine ⟨hstem, fun rest => ⟨by rw [hreset], by rw [hreset], ?_⟩⟩
  rw [history_append, ← hreset]
  rfl

/-- A new stem outlives a reset; the conversion before it leaves no trace. -/
example : ((Session.new .default).run .paragraph [.convert .specimen, .setStem "__", .reset]).2 =
    .new { Options.default with stem := "__" } := by
  decide +kernel

end Session

end DomScript
