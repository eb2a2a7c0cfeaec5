/-
DomScript.Proofs.Session.Names — the variables of a whole session.

The sequence of names is one for all conversions of a session. Its place is the number of variables
that were declared since the last reset, so that the `k`-th of them is the `k`-th word behind the
stem in force. A new stem keeps the place: names under one stem differ by their words, and names
under two stems can only be equal if the later stem is a shorter beginning of the earlier one.

* `Numbered` — the invariant of a stretch, kept by every command (`Numbered.step`);
* `declared_in_order` — the variables of a stretch.
-/
import DomScript.Proofs.Conversion.Declared
import DomScript.Proofs.Session.History
import DomScript.Proofs.WordOrder

namespace DomScript

namespace Session

open VariableNames

/-! ## Declared variables -/

/-- The variables that were declared meanwhile. -/
def Reply.declared (r : Reply) : List String :=
  (r.conversion?.map fun c => declaredVars c.script).getD []

/-- The variables that were declared in a stretch, each with the stem in force. -/
def declared (h : List Entry) : List (String × String) :=
  h.flatMap fun e => e.reply.declared.map (e.before.options.stem, ·)

@[simp] theorem declared_nil : declared [] = [] := rfl

theorem declared_concat (h : List Entry) (e : Entry) :
    declared (h ++ [e]) = declared h ++ e.reply.declared.map (e.before.options.stem, ·) := by
  simp [declared]

/-- A conversion declares names in a row. -/
theorem converted_declared (d : Document) (o : Options) (names : VariableNames) :
    let c := d.convert o names
    (Reply.converted c).declared.length + rank names.letters = rank c.names.letters ∧
      c.names.stem = names.stem ∧
      ∀ k var, (Reply.converted c).declared[k]? = some var →
        var = name ⟨names.stem, ofRank (rank names.letters + k + 1)⟩ := by
  intro c
  obtain ⟨n, hn⟩ := d.convert_declared o names
  rw [take_eq] at hn
  obtain ⟨hvars, hnames⟩ := Prod.mk.inj hn
  have hdeclared : (Reply.converted c).declared =
      (List.range n).map fun k => (skip (k + 1) names).name := hvars.symm
  have hafter : c.names = skip n names := hnames.symm
  refine ⟨?_, by rw [hafter, skip_stem], ?_⟩
  · rw [hdeclared, hafter, rank_skip, List.length_map, List.length_range, Nat.add_comm]
  · intro k var hvar
    rw [hdeclared, List.getElem?_map, Option.map_eq_some_iff] at hvar
    obtain ⟨i, hi, rfl⟩ := hvar
    obtain ⟨hk, hki⟩ := List.getElem?_eq_some_iff.mp hi
    rw [List.getElem_range] at hki
    subst hki
    have hletters : (skip (k + 1) names).letters = ofRank (rank names.letters + k + 1) := by
      rw [← ofRank_rank (skip (k + 1) names).letters, rank_skip, Nat.add_assoc]
    rw [← hletters, ← skip_stem (k + 1) names]

/-! ## The invariant -/

/-- The stem of the names is the one of the options, their place is the number of variables that
the stretch has declared, and each of these is the word of its place behind the stem in force. -/
structure Numbered (h : List Entry) (s : Session) : Prop where
  stem : s.names.stem = s.options.stem
  place : rank s.names.letters = (declared h).length
  named : ∀ k stem var, (declared h)[k]? = some (stem, var) → var = name ⟨stem, ofRank (k + 1)⟩

theorem numbered_new (o : Options) : Numbered [] (.new o) :=
  ⟨rfl, rfl, fun _ _ _ h => by simp at h⟩

theorem Numbered.reset {h : List Entry} {s : Session} (n : Numbered h s) : Numbered [] s.reset :=
  ⟨n.stem, rfl, fun _ _ _ h => by simp at h⟩

/-- A command that declares nothing keeps what there is. -/
theorem Numbered.silent {h : List Entry} {s after : Session} {c : Command} {reply : Reply}
    (n : Numbered h s) (hreply : reply.declared = [])
    (hstem : after.names.stem = after.options.stem)
    (hletters : after.names.letters = s.names.letters) : Numbered (h ++ [⟨s, c, reply⟩]) after := by
  have hsame : declared (h ++ [⟨s, c, reply⟩]) = declared h := by
    rw [declared_concat, hreply, List.map_nil, List.append_nil]
  exact ⟨hstem, by rw [hsame, hletters, n.place], by rw [hsame]; exact n.named⟩

theorem Numbered.converted {h : List Entry} {s : Session} {c : Command} (n : Numbered h s)
    (d : Document) :
    Numbered (h ++ [⟨s, c, .converted (d.convert s.options s.names)⟩]) (s.convert d).2 := by
  obtain ⟨hlength, hstem, hnamed⟩ := converted_declared d s.options s.names
  refine ⟨hstem.trans n.stem, ?_, ?_⟩
  · rw [declared_concat, List.length_append, List.length_map, ← n.place, Nat.add_comm, hlength]
    rfl
  · intro k stem var hvar
    rw [declared_concat, List.getElem?_append] at hvar
    split at hvar
    · exact n.named k stem var hvar
    · rename_i hk
      rw [List.getElem?_map, Option.map_eq_some_iff] at hvar
      obtain ⟨v, hv, heq⟩ := hvar
      obtain ⟨rfl, rfl⟩ := Prod.mk.inj heq
      rw [hnamed _ _ hv, n.stem, n.place]
      congr 3
      omega

/-- **Every command but a reset keeps the numbering.** -/
theorem Numbered.step {h : List Entry} {s after : Session} {c : Command} {reply : Reply}
    (n : Numbered h s) (hc : c ≠ .reset) (he : Effect s c reply after) :
    Numbered (h ++ [⟨s, c, reply⟩]) after := by
  cases he with
  | converted _ d => exact n.converted d
  | failed _ failure => exact n.silent rfl n.stem rfl
  | reset => exact absurd rfl hc
  | stem stem => exact n.silent rfl rfl rfl
  | options _ o hstem => exact n.silent rfl (n.stem.trans hstem.symm) rfl
  | drained limit => exact n.silent rfl n.stem rfl

theorem numbered_run (parser : PageParser) (o : Options) (cs : List Command) :
    Numbered (stretch ((Session.new o).history parser cs)) ((Session.new o).run parser cs).2 :=
  stretch_induction parser (.new o) (numbered_new o) (fun _ _ n => n.reset)
    (fun _ _ _ _ _ n hc he => n.step hc he) cs

/-- The place of the names moves by what is declared, and only a reset takes it back. -/
theorem Effect.place {s after : Session} {c : Command} {reply : Reply}
    (he : Effect s c reply after) :
    rank after.names.letters =
      if c = .reset then 0 else rank s.names.letters + reply.declared.length := by
  cases he with
  | converted hc d =>
    rw [if_neg hc, Nat.add_comm]
    exact (converted_declared d s.options s.names).1.symm
  | failed hc failure => rw [if_neg hc]; rfl
  | reset => rfl
  | stem stem => rfl
  | options hc o hstem => rw [if_neg hc]; rfl
  | drained limit => rfl

/-! ## The variables of a stretch -/

/-- Two variables of one stretch are equal only if the stem of the later one is a shorter beginning
of the stem of the earlier one. -/
theorem Numbered.prefix_of_eq {h : List Entry} {s : Session} (n : Numbered h s) {i j : Nat}
    {p q var : String} (hij : i < j) (hi : (declared h)[i]? = some (p, var))
    (hj : (declared h)[j]? = some (q, var)) :
    q.toList <+: p.toList ∧ q.toList.length < p.toList.length := by
  have hnames : name ⟨p, ofRank (i + 1)⟩ = name ⟨q, ofRank (j + 1)⟩ := by
    rw [← n.named i p var hi, ← n.named j q var hj]
  exact prefix_of_name_eq (v := ⟨p, ofRank (i + 1)⟩) (w := ⟨q, ofRank (j + 1)⟩)
    (by rw [rank_ofRank, rank_ofRank]; omega) hnames

/-- **The variables of a session**, whatever parser reads its pages. The `k`-th variable since the
creation or the last reset is the `k`-th word behind the stem in force; nothing but declaring moves
the place on and nothing but a reset takes it back. Hence two of them are equal only if the later
stem is a shorter beginning of the earlier one, and all differ while stems do not get shorter. -/
theorem declared_in_order (parser : PageParser) (o : Options) (cs : List Command) :
    let s := ((Session.new o).run parser cs).2
    let vars := declared (stretch ((Session.new o).history parser cs))
    (∀ (k : Nat) (stem var : String), vars[k]? = some (stem, var) →
      ∃ w, IsKth (k + 1) w ∧ var = stem ++ .ofList w) ∧
    (rank s.names.letters = vars.length ∧
      ∀ c, rank (s.apply parser c).2.names.letters =
        if c = .reset then 0
        else rank s.names.letters + (s.apply parser c).1.declared.length) ∧
    (∀ (i j : Nat) (p q var : String), i < j → vars[i]? = some (p, var) → vars[j]? = some (q, var) →
      q.toList <+: p.toList ∧ q.toList.length < p.toList.length) ∧
    (vars.Pairwise (fun v w => v.1.toList.length ≤ w.1.toList.length) →
      (vars.map Prod.snd).Nodup) := by
  intro s vars
  have n : Numbered (stretch ((Session.new o).history parser cs)) s := numbered_run parser o cs
  refine ⟨?_, ⟨n.place, fun c => (apply_effect parser s c).place⟩,
    fun i j p q var hij hi hj => n.prefix_of_eq hij hi hj, ?_⟩
  · intro k stem var hvar
    have hletters : ofRank (k + 1) ≠ [] := rank_pos.mp (by rw [rank_ofRank]; omega)
    refine ⟨word (ofRank (k + 1)), ?_, n.named k stem var hvar⟩
    have hkth := isKth_word hletters
    rwa [rank_ofRank] at hkth
  · intro hstems
    refine List.pairwise_map.mpr (List.pairwise_iff_getElem.mpr ?_)
    intro i j hi hj hij heq
    have hle := List.pairwise_iff_getElem.mp hstems i j hi hj hij
    have hi' : vars[i]? = some (vars[i].1, vars[i].2) := List.getElem?_eq_getElem hi
    have hj' : vars[j]? = some (vars[j].1, vars[i].2) := by
      rw [heq]
      exact List.getElem?_eq_getElem hj
    have hshorter := n.prefix_of_eq hij hi' hj'
    omega

/-- A document and a page with a longer stem, and a failed read between them. -/
theorem declared_in_order_specimen :
    let cs := [.convert .specimen, .parse [.failed ⟨"Other", "gone"⟩], .setStem "__",
      .parseText "<p>é"]
    let vars := declared (stretch ((Session.new .default).history .paragraph cs))
    vars = [("_", "_a"), ("_", "_b"), ("_", "_c"), ("__", "__d"), ("__", "__e")] ∧
    vars.Pairwise (fun v w => v.1.toList.length ≤ w.1.toList.length) ∧
    (vars.map Prod.snd).Nodup := by
  intro cs vars
  have hvars :
      vars = [("_", "_a"), ("_", "_b"), ("_", "_c"), ("__", "__d"), ("__", "__e")] := by
    decide +kernel
  have hstems : vars.Pairwise fun v w => v.1.toList.length ≤ w.1.toList.length := by
    rw [hvars]
    decide
  exact ⟨hvars, hstems, (declared_in_order .paragraph .default cs).2.2.2 hstems⟩

end Session

end DomScript
