/-
DomScript.Proofs.Session.History — what has happened in a session since its last reset.

`Effect` says what a command can do, one constructor for each kind of outcome; every later proof
about sessions goes through it and never opens a command. The history of a run keeps each command
with the session that it was given to and its reply, and a stretch is what the history holds since
the last reset.

* `apply_effect` — every command has one of the effects;
* `map_reply_history` — the replies of a history are those of the run;
* `stretch_induction` — what a fresh stretch has and every command but a reset keeps, holds at every
  point of a session.
-/
import Mathlib.Data.List.DropRight
import DomScript.Session

namespace DomScript

/-- A parser for the simplest pages, such as specimens need: `<p>` with plain text behind it, if
there is any, or nothing at all. -/
def PageParser.paragraph : PageParser := fun html =>
  let content : Forest Content :=
    match html.toList with
    | '<' :: 'p' :: '>' :: text =>
      .node (.element ⟨"p"⟩ [])
        (if text.isEmpty then .nil else .node (.text (.ofList text)) .nil .nil) .nil
    | _ => .nil
  .node .document
    (.node (.element .html [])
      (.node (.element .head []) .nil (.node (.element .body []) content .nil)) .nil) .nil

namespace Session

/-! ## What a command does -/

/-- The outcomes of a command: a document is converted, reading fails, the session is reset, its
stem or its other options are changed, or its buffer is handed on. -/
inductive Effect (s : Session) : Command → Reply → Session → Prop
  | converted {c : Command} (hc : c ≠ .reset) (d : Document) :
      Effect s c (.converted (d.convert s.options s.names)) (s.convert d).2
  | failed {c : Command} (hc : c ≠ .reset) (failure : ReadFailure) : Effect s c (.failed failure) s
  | reset : Effect s .reset .silent s.reset
  | stem (stem : String) : Effect s (.setStem stem) .silent (s.setStem stem)
  | options {c : Command} (hc : c ≠ .reset) (o : Options) (hstem : o.stem = s.options.stem) :
      Effect s c .silent { s with options := o }
  | drained (limit : Option Nat) :
      Effect s (.drain limit) (.drained (s.drain limit).1) (s.drain limit).2

variable (parser : PageParser)

/-- Whatever the parser finds in a page is a document that is converted. -/
theorem apply_effect (s : Session) (c : Command) :
    Effect s c (s.apply parser c).1 (s.apply parser c).2 := by
  cases c with
  | convert d => exact .converted (by simp) d
  | parseText html => exact .converted (by simp) (.ofPage parser html)
  | parse reads =>
    simp only [apply, parse]
    cases ReadStep.collect reads with
    | error failure => exact .failed (by simp) failure
    | ok bytes => exact .converted (by simp) (.ofPage parser (pageText bytes))
  | reset => exact .reset
  | setStem stem => exact .stem stem
  | setDefaultParent defaultParent => exact .options (by simp) _ rfl
  | setKeepRootText keepRootText => exact .options (by simp) _ rfl
  | editFilter role edit => exact .options (by simp) _ rfl
  | drain limit => exact .drained limit

/-! ## Histories -/

/-- A command that was carried out: the session that it was given to, and what it answered. -/
structure Entry where
  before : Session
  command : Command
  reply : Reply

/-- What happened while the commands were carried out, in order. -/
def history (s : Session) : List Command → List Entry
  | [] => []
  | c :: cs => ⟨s, c, (s.apply parser c).1⟩ :: history (s.apply parser c).2 cs

/-- The entries behind the last reset. -/
def stretch (h : List Entry) : List Entry :=
  h.rtakeWhile fun e => e.command != .reset

theorem map_reply_history (s : Session) (cs : List Command) :
    (s.history parser cs).map Entry.reply = (s.run parser cs).1 := by
  induction cs generalizing s with
  | nil => rfl
  | cons c cs ih => simp only [history, run, List.map_cons, ih]

theorem run_append (s : Session) (cs ds : List Command) :
    (s.run parser (cs ++ ds)).2 = ((s.run parser cs).2.run parser ds).2 := by
  induction cs generalizing s with
  | nil => rfl
  | cons c cs ih => simp only [List.cons_append, run, ih]

theorem history_append (s : Session) (cs ds : List Command) :
    s.history parser (cs ++ ds) = s.history parser cs ++ (s.run parser cs).2.history parser ds := by
  induction cs generalizing s with
  | nil => rfl
  | cons c cs ih => simp only [List.cons_append, history, run, ih]

theorem run_concat (s : Session) (cs : List Command) (c : Command) :
    (s.run parser (cs ++ [c])).2 = ((s.run parser cs).2.apply parser c).2 :=
  run_append parser s cs [c]

theorem history_concat (s : Session) (cs : List Command) (c : Command) :
    s.history parser (cs ++ [c]) =
      s.history parser cs ++ [⟨(s.run parser cs).2, c, ((s.run parser cs).2.apply parser c).1⟩] :=
  history_append parser s cs [c]

@[simp] theorem stretch_nil : stretch [] = [] := rfl

theorem stretch_concat_reset (h : List Entry) {e : Entry} (he : e.command = .reset) :
    stretch (h ++ [e]) = [] :=
  List.rtakeWhile_concat_neg _ h e (by simp [he])

theorem stretch_concat (h : List Entry) {e : Entry} (he : e.command ≠ .reset) :
    stretch (h ++ [e]) = stretch h ++ [e] :=
  List.rtakeWhile_concat_pos _ h e (by simp [he])

/-- **Induction along a session.** What a new session has with nothing behind it, what a reset
brings about, and what every other command keeps, holds of the present stretch at every point. -/
theorem stretch_induction {P : List Entry → Session → Prop} (s : Session) (start : P [] s)
    (reset : ∀ h s, P h s → P [] s.reset)
    (step : ∀ h s c reply after, P h s → c ≠ .reset → Effect s c reply after →
      P (h ++ [⟨s, c, reply⟩]) after)
    (cs : List Command) : P (stretch (s.history parser cs)) (s.run parser cs).2 := by
  induction cs using List.reverseRecOn with
  | nil => exact start
  | append_singleton cs c ih =>
    rw [history_concat, run_concat]
    by_cases hc : c = .reset
    · subst hc
      rw [stretch_concat_reset _ rfl]
      exact reset _ _ ih
    · rw [stretch_concat _ hc]
      exact step _ _ c _ _ ih hc (apply_effect parser _ c)

end Session

end DomScript
