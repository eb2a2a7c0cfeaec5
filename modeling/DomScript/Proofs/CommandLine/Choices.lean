/-
DomScript.Proofs.CommandLine.Choices — giving the options of a conversion on the command line.

A `Choice` is what one argument says about the conversion. Options are given by choices in any
order: their stem, their default parent and, if it is set, the keeping of root text once each, and
each set of tags by any number of lists, whose items spell its tags when they are put in a row. What
is read from such arguments are the options themselves; a set of which no list speaks is that of the
default.

* `readFrom_render` — choices are read one after the other;
* `Gives.read_render` — what is read from choices that give options;
* `gives_of_perm` — choices in any order;
* `options_given` — the options come back.
-/
import DomScript.Proofs.CommandLine.Arguments
import DomScript.Proofs.CommandLine.TagLists

namespace DomScript

/-- The set of one role. -/
def Filters.tagSet (f : Filters) : Filters.Role → TagSet
  | .includes => f.includes
  | .excludes => f.excludes
  | .ignores => f.ignores

theorem Filters.ext_tagSet {f g : Filters} (h : ∀ role, f.tagSet role = g.tagSet role) : f = g := by
  obtain ⟨includes, excludes, ignores⟩ := f
  obtain rfl : includes = g.includes := h .includes
  obtain rfl : excludes = g.excludes := h .excludes
  obtain rfl : ignores = g.ignores := h .ignores
  rfl

theorem Filters.tagSet_edit (f : Filters) (role other : Filters.Role) (tags : List Tag) :
    (f.edit role (.replace tags)).tagSet other =
      if other = role then ⟨tags⟩ else f.tagSet other := by
  cases role <;> cases other <;> rfl

/-- Every tag of the filters can be given by an item of a list. -/
def Filters.Writable (f : Filters) : Prop :=
  ∀ role, ∀ t ∈ (f.tagSet role).tags, t.Writable

theorem Filters.writable_default : Filters.default.Writable := by
  have hwritable : ∀ t ∈ [Tag.html, .head, .body, .script], t.Writable := by decide
  intro role t ht
  cases role with
  | includes => exact absurd ht List.not_mem_nil
  | excludes => exact hwritable t ht
  | ignores => exact hwritable t (by rw [List.mem_singleton.mp ht]; simp)

namespace CommandLine

/-! ## Choices -/

/-- What one argument says about the conversion. -/
inductive Choice where
  | stem (value : String)
  | defaultParent (value : String)
  | keepRootText
  /-- Items for the tags of one role. -/
  | tags (role : Filters.Role) (items : List String)
  deriving DecidableEq

namespace Choice

/-- The name of the option for a set of tags. -/
def listName : Filters.Role → String
  | .includes => "include"
  | .excludes => "exclude"
  | .ignores => "ignore"

/-- The option for a set of tags. -/
def listOption : Filters.Role → ValueOption
  | .includes => .includes
  | .excludes => .excludes
  | .ignores => .ignores

/-- The argument that says it. -/
def render : Choice → String
  | stem value => Argument.long "prefix" value
  | defaultParent value => Argument.long "default-parent" value
  | keepRootText => "--keep-root-text"
  | tags role items => Argument.long (listName role) (Arguments.listValue items)

/-- What that argument is. -/
def argument : Choice → Argument
  | stem value => .option .stem (some value)
  | defaultParent value => .option .defaultParent (some value)
  | keepRootText => .flag .keepRootText
  | tags role items => .option (listOption role) (some (Arguments.listValue items))

theorem ofString_render (c : Choice) : Argument.ofString c.render = c.argument := by
  cases c with
  | stem value => exact Argument.ofString_long (by decide) rfl value
  | defaultParent value => exact Argument.ofString_long (by decide) rfl value
  | keepRootText => decide
  | tags role items => cases role <;> exact Argument.ofString_long (by decide) rfl _

example : (tags .excludes ["p", " Q "]).render = "--exclude=p, Q " := by decide

/-- The stem that is chosen. -/
def stem? : Choice → Option String
  | stem value => some value
  | _ => none

/-- The default parent that is chosen. -/
def defaultParent? : Choice → Option String
  | defaultParent value => some value
  | _ => none

/-- The items that are chosen for one role. -/
def items? (role : Filters.Role) : Choice → Option (List String)
  | tags other items => if other = role then some items else none
  | _ => none

end Choice

/-! ## Reading the choices -/

namespace Arguments

/-- The items that were read for one role. -/
def items (a : Arguments) : Filters.Role → Option (List String)
  | .includes => a.includes
  | .excludes => a.excludes
  | .ignores => a.ignores

/-- The arguments with a choice added. -/
def add (a : Arguments) : Choice → Arguments
  | .stem value => { a with stem := some value }
  | .defaultParent value => { a with defaultParent := some value }
  | .keepRootText => { a with keepRootText := true }
  | .tags .includes items => { a with includes := addItems a.includes (listValue items) }
  | .tags .excludes items => { a with excludes := addItems a.excludes (listValue items) }
  | .tags .ignores items => { a with ignores := addItems a.ignores (listValue items) }

/-- No choice that can be made once is made twice, or again. -/
structure Admits (a : Arguments) (choices : List Choice) : Prop where
  stem : a.stem.isSome.toNat + choices.countP (·.stem?.isSome) ≤ 1
  defaultParent : a.defaultParent.isSome.toNat + choices.countP (·.defaultParent?.isSome) ≤ 1
  keepRootText : a.keepRootText.toNat + choices.count .keepRootText ≤ 1

variable {a : Arguments} {c : Choice} {choices : List Choice}

theorem Admits.tail (h : a.Admits (c :: choices)) : (a.add c).Admits choices := by
  obtain ⟨hstem, hparent, hkept⟩ := h
  cases c with
  | stem value =>
    rw [List.countP_cons_of_pos rfl] at hstem
    exact ⟨by rw [add, Option.isSome_some, Bool.toNat_true]; omega, hparent, hkept⟩
  | defaultParent value =>
    rw [List.countP_cons_of_pos rfl] at hparent
    exact ⟨hstem, by rw [add, Option.isSome_some, Bool.toNat_true]; omega, hkept⟩
  | keepRootText =>
    rw [List.count_cons_self] at hkept
    exact ⟨hstem, hparent, by rw [add, Bool.toNat_true]; omega⟩
  | tags role items => cases role <;> exact ⟨hstem, hparent, hkept⟩

theorem eq_false_of_room {b : Bool} {n : Nat} (h : b.toNat + (n + 1) ≤ 1) : b = false := by
  cases b with
  | false => rfl
  | true => rw [Bool.toNat_true] at h; omega

/-- Reading one choice adds it. -/
theorem readFrom_cons (h : a.Admits (c :: choices)) (rest : List String) :
    a.readFrom (c.render :: rest) = (a.add c).readFrom rest := by
  obtain ⟨hstem, hparent, hkept⟩ := h
  have hc := c.ofString_render
  cases c with
  | stem value =>
    rw [List.countP_cons_of_pos rfl] at hstem
    rw [readFrom_option a hc, set?, setOnce, eq_false_of_room hstem]
    rfl
  | defaultParent value =>
    rw [List.countP_cons_of_pos rfl] at hparent
    rw [readFrom_option a hc, set?, setOnce, eq_false_of_room hparent]
    rfl
  | keepRootText =>
    rw [List.count_cons_self] at hkept
    rw [readFrom_keepRootText a hc, eq_false_of_room hkept]
    rfl
  | tags role items => cases role <;> exact readFrom_option a hc

/-- **Reading choices** adds one after the other. -/
theorem readFrom_render (h : a.Admits choices) :
    a.readFrom (choices.map Choice.render) = (choices.foldl add a).finish := by
  induction choices generalizing a with
  | nil => rfl
  | cons c choices ih => rw [List.map_cons, readFrom_cons h, ih h.tail, List.foldl_cons]

/-! ## What was chosen -/

/-- What the arguments hold after all choices, where each choice adds what it says about that. -/
theorem foldl_add {β γ : Type} (get : Arguments → β) (pick : Choice → Option γ) (f : β → γ → β)
    (hadd : ∀ a c, get (a.add c) = ((pick c).map (f (get a))).getD (get a)) (a : Arguments)
    (choices : List Choice) :
    get (choices.foldl add a) = (choices.filterMap pick).foldl f (get a) := by
  induction choices generalizing a with
  | nil => rfl
  | cons c choices ih =>
    rw [List.foldl_cons, ih, hadd, List.filterMap_cons]
    cases pick c <;> rfl

theorem stem_foldl (a : Arguments) (choices : List Choice) :
    (choices.foldl add a).stem =
      (choices.filterMap Choice.stem?).foldl (fun _ value => some value) a.stem := by
  refine foldl_add Arguments.stem Choice.stem? _ (fun a c => ?_) a choices
  rcases c with _ | _ | _ | ⟨_ | _ | _, _⟩ <;> rfl

theorem defaultParent_foldl (a : Arguments) (choices : List Choice) :
    (choices.foldl add a).defaultParent =
      (choices.filterMap Choice.defaultParent?).foldl (fun _ value => some value)
        a.defaultParent := by
  refine foldl_add Arguments.defaultParent Choice.defaultParent? _ (fun a c => ?_) a choices
  rcases c with _ | _ | _ | ⟨_ | _ | _, _⟩ <;> rfl

theorem items_foldl (a : Arguments) (choices : List Choice) (role : Filters.Role) :
    (choices.foldl add a).items role =
      (choices.filterMap (Choice.items? role)).foldl
        (fun old items => addItems old (listValue items)) (a.items role) := by
  refine foldl_add (Arguments.items · role) (Choice.items? role) _ (fun a c => ?_) a choices
  cases role <;> rcases c with _ | _ | _ | ⟨_ | _ | _, _⟩ <;> rfl

theorem keepRootText_foldl (a : Arguments) (choices : List Choice) :
    (choices.foldl add a).keepRootText = true ↔
      a.keepRootText = true ∨ .keepRootText ∈ choices := by
  induction choices generalizing a with
  | nil => simp
  | cons c choices ih =>
    rw [List.foldl_cons, ih, List.mem_cons]
    rcases c with _ | _ | _ | ⟨_ | _ | _, _⟩ <;> simp [add]

theorem verbose_foldl (a : Arguments) (choices : List Choice) :
    (choices.foldl add a).verbose = a.verbose := by
  induction choices generalizing a with
  | nil => rfl
  | cons c choices ih =>
    rw [List.foldl_cons, ih]
    rcases c with _ | _ | _ | ⟨_ | _ | _, _⟩ <;> rfl

/-- Several occurrences of a list put their items in a row. -/
theorem foldl_addItems {occurrences : List (List String)} (h : occurrences ≠ []) :
    occurrences.foldl (fun old items => addItems old (listValue items)) none =
      some (occurrences.flatMap fun items => itemsOf (listValue items)) := by
  have hfrom : ∀ (occurrences : List (List String)) (old : List String),
      occurrences.foldl (fun old items => addItems old (listValue items)) (some old) =
        some (old ++ occurrences.flatMap fun items => itemsOf (listValue items)) := by
    intro occurrences
    induction occurrences with
    | nil => simp
    | cons items occurrences ih =>
      intro old
      rw [List.foldl_cons, List.flatMap_cons, ← List.append_assoc]
      exact ih _
  cases occurrences with
  | nil => exact absurd rfl h
  | cons items occurrences => exact hfrom occurrences _

theorem tagSet_options (a : Arguments) (role : Filters.Role) :
    a.options.filters.tagSet role = tagSet (a.items role) (Filters.default.tagSet role) := by
  cases role <;> rfl

end Arguments

/-! ## Giving options -/

/-- Choices that give the options: a set of tags is spelled by the items of its lists, one after the
other, and may be left out if it is that of the default. -/
structure Gives (o : Options) (choices : List Choice) : Prop where
  stem : choices.filterMap Choice.stem? = [o.stem]
  defaultParent : choices.filterMap Choice.defaultParent? = [o.defaultParent]
  keepRootText : choices.count .keepRootText = o.keepRootText.toNat
  tags : ∀ role,
    choices.filterMap (Choice.items? role) = [] ∧
        o.filters.tagSet role = Filters.default.tagSet role ∨
      choices.filterMap (Choice.items? role) ≠ [] ∧
        Spells (o.filters.tagSet role).tags (choices.filterMap (Choice.items? role)).flatten

namespace Gives

variable {o : Options} {choices : List Choice}

theorem admits (h : Gives o choices) : Arguments.Admits {} choices where
  stem := by
    rw [← List.length_filterMap_eq_countP, h.stem]
    exact Nat.le_refl 1
  defaultParent := by
    rw [← List.length_filterMap_eq_countP, h.defaultParent]
    exact Nat.le_refl 1
  keepRootText := by
    rw [h.keepRootText]
    cases o.keepRootText <;> decide

/-- The set of a role, from the items that were read for it. -/
theorem tagSet_read (h : Gives o choices) {role : Filters.Role}
    (hwritable : ∀ t ∈ (o.filters.tagSet role).tags, t.Writable) :
    Arguments.tagSet ((choices.foldl Arguments.add {}).items role) (Filters.default.tagSet role) =
      o.filters.tagSet role := by
  have hnone : Arguments.items {} role = none := by cases role <;> rfl
  rw [Arguments.items_foldl, hnone]
  rcases h.tags role with ⟨hleft, hdefault⟩ | ⟨hgiven, hspells⟩
  · rw [hleft, hdefault]
    rfl
  · rw [Arguments.foldl_addItems hgiven, Arguments.tagSet,
      Arguments.tagsOf_flatMap (Arguments.comma_notMem hspells hwritable),
      Arguments.tagsOf_spells hspells hwritable]

/-- **What is read from choices that give options** are the options. -/
theorem read_render (h : Gives o choices) (ho : o.filters.Writable) :
    ∃ a, Arguments.read (choices.map Choice.render) = .run a ∧ a.options = o := by
  refine ⟨choices.foldl Arguments.add {}, ?_, ?_⟩
  · rw [Arguments.read, Arguments.readFrom_render h.admits, Arguments.finish,
      Arguments.verbose_foldl]
    rfl
  · have hstem : (choices.foldl Arguments.add {}).options.stem = o.stem := by
      rw [Arguments.options, Arguments.stem_foldl, h.stem]
      rfl
    have hparent : (choices.foldl Arguments.add {}).options.defaultParent = o.defaultParent := by
      rw [Arguments.options, Arguments.defaultParent_foldl, h.defaultParent]
      rfl
    have hkept : (choices.foldl Arguments.add {}).options.keepRootText = o.keepRootText := by
      rw [Arguments.options, Bool.eq_iff_iff, Arguments.keepRootText_foldl, ← List.count_pos_iff,
        h.keepRootText]
      cases o.keepRootText <;> decide
    have hfilters : (choices.foldl Arguments.add {}).options.filters = o.filters :=
      Filters.ext_tagSet fun role => by rw [Arguments.tagSet_options, h.tagSet_read (ho role)]
    calc (choices.foldl Arguments.add {}).options
        = ⟨o.stem, o.defaultParent, o.keepRootText, o.filters⟩ := by
          rw [← hstem, ← hparent, ← hkept, ← hfilters]
      _ = o := rfl

/-- Choices that say nothing about something can be left out where it is looked for. -/
theorem filterMap_filter_of {β : Type} {pick : Choice → Option β} {keep : Choice → Bool}
    (h : ∀ c, keep c = false → pick c = none) (choices : List Choice) :
    (choices.filter keep).filterMap pick = choices.filterMap pick := by
  induction choices with
  | nil => rfl
  | cons c choices ih =>
    cases hc : keep c with
    | true => rw [List.filter_cons_of_pos hc, List.filterMap_cons, List.filterMap_cons, ih]
    | false =>
      rw [List.filter_cons_of_neg (by rw [hc]; exact Bool.false_ne_true), ih,
        List.filterMap_cons_none (h c hc)]

/-- Leaving out the lists of a role leaves its set as the default has it. -/
theorem leaveOut (h : Gives o choices) (role : Filters.Role) :
    Gives
      { o with filters := o.filters.edit role (.replace (Filters.default.tagSet role).tags) }
      (choices.filter fun c => (c.items? role).isNone) where
  stem := by
    rw [filterMap_filter_of fun c hc => ?_, h.stem]
    cases c <;> first | rfl | cases hc
  defaultParent := by
    rw [filterMap_filter_of fun c hc => ?_, h.defaultParent]
    cases c <;> first | rfl | cases hc
  keepRootText := by rw [List.count_filter rfl, h.keepRootText]
  tags other := by
    rw [Filters.tagSet_edit]
    by_cases hother : other = role
    · rw [if_pos hother, hother]
      refine .inl ⟨List.filterMap_eq_nil_iff.mpr fun c hc => ?_, rfl⟩
      exact Option.isNone_iff_eq_none.mp (List.mem_filter.mp hc).2
    · rw [if_neg hother, filterMap_filter_of fun c hc => ?_]
      · exact h.tags other
      · cases c with
        | tags given items =>
          have hgiven : given = role := by
            by_cases hgiven : given = role
            · exact hgiven
            · simp [Choice.items?, hgiven] at hc
          exact if_neg fun h => hother (h.symm.trans hgiven)
        | _ => rfl

end Gives

/-- Choices for options, in the order of the help. -/
def choicesFor (o : Options) : List Choice :=
  [.stem o.stem, .defaultParent o.defaultParent] ++
    (if o.keepRootText then [.keepRootText] else []) ++
    [.includes, .excludes, .ignores].map fun role =>
      .tags role ((o.filters.tagSet role).tags.map Tag.name)

theorem items_choicesFor (o : Options) (role : Filters.Role) :
    (choicesFor o).filterMap (Choice.items? role) =
      [(o.filters.tagSet role).tags.map Tag.name] := by
  obtain ⟨stem, parent, keep, filters⟩ := o
  cases keep <;> cases role <;> rfl

/-- The order of the arguments does not matter. -/
theorem gives_of_perm {o : Options} {choices : List Choice} (h : choices.Perm (choicesFor o)) :
    Gives o choices where
  stem := by
    refine List.perm_singleton.mp ((h.filterMap Choice.stem?).trans (.of_eq ?_))
    obtain ⟨stem, parent, keep, filters⟩ := o
    cases keep <;> rfl
  defaultParent := by
    refine List.perm_singleton.mp ((h.filterMap Choice.defaultParent?).trans (.of_eq ?_))
    obtain ⟨stem, parent, keep, filters⟩ := o
    cases keep <;> rfl
  keepRootText := by
    rw [h.count_eq]
    obtain ⟨stem, parent, keep, filters⟩ := o
    cases keep <;> rfl
  tags role := by
    have hitems := h.filterMap (Choice.items? role)
    rw [items_choicesFor] at hitems
    rw [List.perm_singleton.mp hitems, List.flatten_singleton]
    exact .inr ⟨List.cons_ne_nil _ _, Spells.names _⟩

/-- **Options can be given, and come back** as they are: by any choices that give them. A set whose
lists are left out is that of the default. -/
theorem options_given (o : Options) (ho : o.filters.Writable) :
    (∀ choices, choices.Perm (choicesFor o) → Gives o choices) ∧
      ∀ choices, Gives o choices →
        (∃ a, Arguments.read (choices.map Choice.render) = .run a ∧ a.options = o) ∧
          ∀ role, ∃ a,
            Arguments.read ((choices.filter fun c => (c.items? role).isNone).map Choice.render) =
                .run a ∧
              a.options =
                { o with
                  filters :=
                    o.filters.edit role (.replace (Filters.default.tagSet role).tags) } := by
  refine ⟨fun choices => gives_of_perm, fun choices h => ⟨h.read_render ho, fun role => ?_⟩⟩
  refine (h.leaveOut role).read_render fun other t ht => ?_
  rw [Filters.tagSet_edit] at ht
  split at ht
  · exact Filters.writable_default role t ht
  · exact ho other t ht

theorem options_given_specimen :
    ∃ a, Arguments.read ["--include= P,", "--keep-root-text", "--exclude=", "--prefix==x",
        "--include=sPaN ,p", "--default-parent=a b"] = .run a ∧
      a.options = ⟨"=x", "a b", true, ⟨[⟨"p"⟩, ⟨"span"⟩, ⟨"p"⟩]⟩, ⟨[]⟩, ⟨[.head]⟩⟩ := by
  have hwritable : Filters.Writable ⟨⟨[⟨"p"⟩, ⟨"span"⟩, ⟨"p"⟩]⟩, ⟨[]⟩, ⟨[.head]⟩⟩ := by
    intro role
    cases role with
    | includes => exact (by decide : ∀ t ∈ [⟨"p"⟩, ⟨"span"⟩, ⟨"p"⟩], Tag.Writable t)
    | excludes => exact List.forall_mem_nil _
    | ignores => exact Filters.writable_default .ignores
  have hspells : Spells [⟨"p"⟩, ⟨"span"⟩, ⟨"p"⟩] [" P", "", "sPaN ", "p"] := by
    have hnone : ∀ c ∈ [], Text.isWhiteSpace c = true := List.forall_mem_nil _
    have hspace : ∀ c ∈ [' '], Text.isWhiteSpace c = true := List.all_eq_true.mp (by decide)
    refine .tag (show " P".toList = [' '] ++ ['P'] ++ [] by decide) hspace hnone
      (.capital .nil) (.blank hnone ?_)
    refine .tag (show "sPaN ".toList = [] ++ ['s', 'P', 'a', 'N'] ++ [' '] by decide) hnone hspace
      (.kept (.capital (.kept (.capital .nil)))) (.names _)
  have hgives : Gives ⟨"=x", "a b", true, ⟨[⟨"p"⟩, ⟨"span"⟩, ⟨"p"⟩]⟩, ⟨[]⟩, ⟨[.head]⟩⟩
      [.tags .includes [" P", ""], .keepRootText, .tags .excludes [], .stem "=x",
        .tags .includes ["sPaN ", "p"], .defaultParent "a b"] := by
    refine ⟨rfl, rfl, rfl, fun role => ?_⟩
    cases role with
    | includes => exact .inr ⟨List.cons_ne_nil _ _, hspells⟩
    | excludes => exact .inr ⟨List.cons_ne_nil _ _, .nil⟩
    | ignores => exact .inl ⟨rfl, rfl⟩
  exact ((options_given _ hwritable).2 _ hgives).1

end CommandLine

end DomScript
