/-
DomScript.Proofs.Session.Delivery — no byte of a script is lost or handed on twice.

Handing on a buffer is a loop: the sink takes some of the bytes that are left, as many as it likes
while it has room, and the loop ends when no bytes or no room are left. `Handing` is this loop, one
constructor for each turn, and every way of taking the bytes ends as `Drain.writeAll` says. Over a
session, what was handed on since the last reset and what still waits are the texts of the
conversions, byte for byte.

* `handing_iff` — the loop ends in one way only;
* `Accounted` — the invariant of a stretch, kept by every command (`Accounted.step`);
* `delivered_intact` — the bytes of a stretch.
-/
import DomScript.Proofs.Session.History
import DomScript.Proofs.Text.Utf8

namespace DomScript

open Text.Utf8

/-! ## The loop -/

namespace Drain

/-- An outcome behind bytes that the sink has taken before. -/
def behind (taken : List UInt8) : Drain → Drain
  | .complete sink => .complete (taken ++ sink)
  | .short sink => .short (taken ++ sink)

end Drain

/-- Hand bytes to a sink that has room for so many, if it has a limit: it takes a part of them that
is not empty and is handed the rest, until there is no rest or no room. A turn that is interrupted
is tried again. -/
inductive Handing : Option Nat → List UInt8 → Drain → Prop
  | done (room : Option Nat) : Handing room [] (.complete [])
  | full (b : UInt8) (bs : List UInt8) : Handing (some 0) (b :: bs) (.short [])
  | interrupted {room : Option Nat} {b : UInt8} {bs : List UInt8} {outcome : Drain}
      (hagain : Handing room (b :: bs) outcome) : Handing room (b :: bs) outcome
  | take {room : Option Nat} {part rest : List UInt8} {outcome : Drain} (hpart : part ≠ [])
      (hroom : ∀ n ∈ room, part.length ≤ n)
      (hrest : Handing (room.map (· - part.length)) rest outcome) :
      Handing room (part ++ rest) (outcome.behind part)

/-- Taking a part first changes nothing in the end. -/
theorem writeAll_append {room : Option Nat} {part : List UInt8} (rest : List UInt8)
    (hroom : ∀ n ∈ room, part.length ≤ n) :
    Drain.writeAll room (part ++ rest) =
      (Drain.writeAll (room.map (· - part.length)) rest).behind part := by
  cases room with
  | none => rfl
  | some n =>
    have hn : part.length ≤ n := hroom n rfl
    simp only [Drain.writeAll, Option.map_some, List.length_append]
    by_cases hfits : rest.length ≤ n - part.length
    · rw [if_pos hfits, if_pos (by omega)]
      rfl
    · rw [if_neg hfits, if_neg (by omega), List.take_append, List.take_of_length_le hn]
      rfl

/-- Whatever parts the sink takes, the loop ends in the same way. -/
theorem Handing.outcome_eq {room : Option Nat} {bytes : List UInt8} {outcome : Drain}
    (h : Handing room bytes outcome) : outcome = .writeAll room bytes := by
  induction h with
  | done room => cases room <;> rfl
  | full b bs => rfl
  | interrupted hagain ih => exact ih
  | take hpart hroom hrest ih => rw [ih, writeAll_append _ hroom]

/-- A sink can take everything at once if it has room for it. -/
theorem handing_complete {room : Option Nat} {bytes : List UInt8}
    (hroom : ∀ n ∈ room, bytes.length ≤ n) : Handing room bytes (.complete bytes) := by
  by_cases hbytes : bytes = []
  · subst hbytes
    exact .done room
  · have h := Handing.take hbytes hroom (.done _)
    simpa [Drain.behind] using h

/-- Otherwise it can take as much as it has room for, and then no more. -/
theorem handing_short {n : Nat} {bytes : List UInt8} (hn : n < bytes.length) :
    Handing (some n) bytes (.short (bytes.take n)) := by
  obtain ⟨b, bs, hrest⟩ := List.exists_cons_of_length_pos (l := bytes.drop n)
    (by rw [List.length_drop]; omega)
  by_cases hzero : n = 0
  · subst hzero
    rw [List.drop_zero] at hrest
    subst hrest
    exact .full b bs
  · have hpart : bytes.take n ≠ [] := List.ne_nil_of_length_pos (by rw [List.length_take]; omega)
    have hlength : (bytes.take n).length = n := by rw [List.length_take]; omega
    have h : Handing (some n) (bytes.take n ++ b :: bs) ((Drain.short []).behind (bytes.take n)) :=
      .take hpart (by simp [hlength])
        (by rw [Option.map_some, hlength, Nat.sub_self]; exact .full b bs)
    rwa [← hrest, List.take_append_drop, Drain.behind, List.append_nil] at h

/-- **The loop ends in one way only**, and it does end. -/
theorem handing_iff (room : Option Nat) (bytes : List UInt8) (outcome : Drain) :
    Handing room bytes outcome ↔ outcome = .writeAll room bytes := by
  refine ⟨Handing.outcome_eq, fun h => ?_⟩
  subst h
  cases room with
  | none => exact handing_complete (by simp)
  | some n =>
    simp only [Drain.writeAll]
    split
    · exact handing_complete (by simpa)
    · exact handing_short (by omega)

namespace Session

/-! ## Bytes of a stretch -/

/-- The bytes that were handed on meanwhile; a sink that stopped does not count. -/
def Reply.delivered : Reply → List UInt8
  | .drained (.complete sink) => sink
  | _ => []

/-- The bytes that were handed on in a stretch, in order. -/
def delivered (h : List Entry) : List UInt8 :=
  h.flatMap fun e => e.reply.delivered

/-- The texts that were added in a stretch, in order. -/
def added (h : List Entry) : String :=
  .join (h.map fun e => e.reply.text)

theorem delivered_concat (h : List Entry) (e : Entry) :
    delivered (h ++ [e]) = delivered h ++ e.reply.delivered := by
  simp [delivered]

theorem added_concat (h : List Entry) (e : Entry) : added (h ++ [e]) = added h ++ e.reply.text := by
  simp [added, String.join_append]

/-- The bytes that wait in the buffer. -/
def pending (s : Session) : List UInt8 :=
  encode s.output.text.toList

theorem length_pending (s : Session) : s.pending.length = s.output.size :=
  length_encode s.output.text

/-! ## Handing on -/

theorem drain_outcome (s : Session) (limit : Option Nat) :
    (s.drain limit).1 = .writeAll limit s.pending := by
  simp only [drain, Output.drain, pending]
  cases Drain.writeAll limit (encode s.output.text.toList) <;> rfl

/-- A sink without a limit takes the buffer. -/
theorem drain_all (s : Session) : (s.drain none).1.sink = s.pending := by
  rw [s.drain_outcome]
  rfl

/-- A sink that has room for the buffer takes all of it. -/
theorem drain_complete {s : Session} {limit : Option Nat}
    (hlimit : ∀ n ∈ limit, s.output.size ≤ n) :
    s.drain limit = (.complete s.pending, { s with output := .empty }) := by
  have hall : Drain.writeAll limit s.pending = .complete s.pending :=
    (handing_complete (by rwa [length_pending])).outcome_eq.symm
  simp only [pending] at hall ⊢
  simp only [drain, Output.drain, hall]

/-- Any other sink takes what it has room for, and nothing else changes. -/
theorem drain_short {s : Session} {n : Nat} (hn : n < s.output.size) :
    s.drain (some n) = (.short (s.pending.take n), s) := by
  have hpart : Drain.writeAll (some n) s.pending = .short (s.pending.take n) :=
    (handing_short (by rwa [length_pending])).outcome_eq.symm
  simp only [pending] at hpart ⊢
  simp only [drain, Output.drain, hpart]

theorem drain_cases (s : Session) (limit : Option Nat) :
    ((∀ n ∈ limit, s.output.size ≤ n) ∧
      s.drain limit = (.complete s.pending, { s with output := .empty })) ∨
    ∃ n, limit = some n ∧ n < s.output.size ∧
      s.drain limit = (.short (s.pending.take n), s) := by
  by_cases hlimit : ∀ n ∈ limit, s.output.size ≤ n
  · exact .inl ⟨hlimit, drain_complete hlimit⟩
  · obtain ⟨n, rfl, hn⟩ : ∃ n, limit = some n ∧ n < s.output.size := by
      simpa [Option.mem_def] using hlimit
    exact .inr ⟨n, rfl, hn, drain_short hn⟩

/-! ## The invariant -/

/-- What was handed on in a stretch and what waits are the texts that were added. -/
def Accounted (h : List Entry) (s : Session) : Prop :=
  delivered h ++ s.pending = encode (added h).toList

theorem accounted_empty {s : Session} (h : s.output = .empty) : Accounted [] s := by
  rw [Accounted, pending, h]
  rfl

/-- A command that hands on nothing keeps the account if the buffer grows by what it adds. -/
theorem Accounted.undelivered {h : List Entry} {s after : Session} {c : Command} {reply : Reply}
    (a : Accounted h s) (hreply : reply.delivered = [])
    (houtput : after.output = s.output.add reply.text) :
    Accounted (h ++ [⟨s, c, reply⟩]) after := by
  calc delivered (h ++ [⟨s, c, reply⟩]) ++ after.pending
      = delivered h ++ encode (s.output.text ++ reply.text).toList := by
        rw [delivered_concat, hreply, List.append_nil, pending, houtput, Output.add]
    _ = delivered h ++ s.pending ++ encode reply.text.toList := by
        rw [String.toList_append, encode_append, List.append_assoc, pending]
    _ = encode (added (h ++ [⟨s, c, reply⟩])).toList := by
        rw [a, added_concat, String.toList_append, encode_append]

/-- Adding nothing leaves a buffer as it is. -/
theorem output_add_nothing (o : Output) : o.add "" = o := by
  rw [Output.add, String.append_empty]

/-- **Every command but a reset keeps the account.** -/
theorem Accounted.step {h : List Entry} {s after : Session} {c : Command} {reply : Reply}
    (a : Accounted h s) (hc : c ≠ .reset) (he : Effect s c reply after) :
    Accounted (h ++ [⟨s, c, reply⟩]) after := by
  cases he with
  | converted _ d => exact a.undelivered rfl rfl
  | failed _ failure => exact a.undelivered rfl (output_add_nothing _).symm
  | reset => exact absurd rfl hc
  | stem stem => exact a.undelivered rfl (output_add_nothing _).symm
  | options _ o hstem => exact a.undelivered rfl (output_add_nothing _).symm
  | drained limit =>
    obtain ⟨-, hdrain⟩ | ⟨n, rfl, -, hdrain⟩ := s.drain_cases limit
    · have hafter : ({ s with output := .empty } : Session).pending = [] := rfl
      have htext : (Reply.drained (.complete s.pending)).text = "" := rfl
      rw [hdrain, Accounted, delivered_concat, added_concat, hafter, htext, List.append_nil,
        String.append_empty]
      exact a
    · rw [hdrain]
      exact a.undelivered rfl (output_add_nothing _).symm

theorem accounted_run (parser : PageParser) (o : Options) (cs : List Command) :
    Accounted (stretch ((Session.new o).history parser cs)) ((Session.new o).run parser cs).2 :=
  stretch_induction parser (.new o) (accounted_empty rfl) (fun _ _ _ => accounted_empty rfl)
    (fun _ _ _ _ _ a hc he => a.step hc he) cs

/-! ## The bytes of a session -/

/-- **No byte is lost or handed on twice**, whatever parser reads the pages. What was handed on
since the creation or the last reset, with what still waits behind it, is what the conversions
added. However the sink takes the bytes, handing on ends in one way: if there is room for the
buffer, all of it is handed on, its size is reported and it is empty afterwards; if not, the sink
holds the bytes that it had room for, and the session is as it was. -/
theorem delivered_intact (parser : PageParser) (o : Options) (cs : List Command) :
    let s := ((Session.new o).run parser cs).2
    let h := stretch ((Session.new o).history parser cs)
    delivered h ++ s.pending = encode (added h).toList ∧
    ∀ limit,
      (∀ outcome, Handing limit s.pending outcome ↔ outcome = (s.drain limit).1) ∧
      ((s.drain limit).1.written?.isSome ↔ ∀ n ∈ limit, s.output.size ≤ n) ∧
      (∀ written, (s.drain limit).1.written? = some written →
        written = s.output.size ∧ (s.drain limit).1.sink = s.pending ∧
          (s.drain limit).2 = { s with output := .empty }) ∧
      ((s.drain limit).1.written? = none →
        ∃ n, limit = some n ∧ n < s.pending.length ∧ (s.drain limit).1.sink = s.pending.take n ∧
          (s.drain limit).2 = s) := by
  intro s h
  refine ⟨accounted_run parser o cs, fun limit => ⟨fun outcome => ?_, ?_⟩⟩
  · rw [handing_iff, drain_outcome]
  · obtain ⟨hlimit, hdrain⟩ | ⟨n, rfl, hn, hdrain⟩ := s.drain_cases limit
    · rw [hdrain]
      refine ⟨⟨fun _ => hlimit, fun _ => rfl⟩, fun written hwritten => ?_, fun hnone => ?_⟩
      · exact ⟨(Option.some.inj hwritten).symm.trans s.length_pending, rfl, rfl⟩
      · exact absurd hnone (Option.some_ne_none _)
    · rw [hdrain]
      refine ⟨⟨fun hsome => ?_, fun hlimit => ?_⟩, fun written hwritten => ?_, fun _ => ?_⟩
      · exact absurd hsome Bool.false_ne_true
      · exact absurd (hlimit n rfl) (Nat.not_le.mpr hn)
      · exact absurd hwritten.symm (Option.some_ne_none _)
      · exact ⟨n, rfl, by rwa [length_pending], rfl, rfl⟩

/-- Code of two characters, the first of which takes two bytes, handed on to a sink that stops
within it, and, behind an empty page, to one that takes everything. -/
theorem delivered_intact_specimen :
    let d := (Document.empty.append Document.root (.element .script [])).append 1 (.text "é")
    let cs := [.convert d, .drain (some 1), .parseText "", .drain none, .convert d]
    let s := ((Session.new .default).run .paragraph cs).2
    let h := stretch ((Session.new .default).history .paragraph cs)
    (s.drain (some 1)).1 = .short [0xC3] ∧ (s.drain (some 1)).2 = s ∧
    delivered h = [0xC3, 0xA9, 0x0A] ∧ s.output.size = 3 ∧
    delivered h ++ s.pending = encode (added h).toList := by
  intro d cs s h
  have hshort : (s.drain (some 1)).1 = .short [0xC3] := by decide +kernel
  have hintact := delivered_intact .paragraph .default cs
  obtain ⟨-, -, -, -, hsame⟩ := (hintact.2 (some 1)).2.2.2 (by rw [hshort]; rfl)
  exact ⟨hshort, hsame, by decide +kernel, by decide +kernel, hintact.1⟩

end Session

end DomScript
