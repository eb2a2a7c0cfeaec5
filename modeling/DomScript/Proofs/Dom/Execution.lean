/-
DomScript.Proofs.Dom.Execution — what a script does to an empty page.

A `Dom` holds the objects that a script has created: trees that hang nowhere yet, and the trees
that were appended to the default parent. Every object is known by its variable. `Dom.step` carries
out one statement and fails where the statement is not in order: a variable is created twice, an
object is used before it is created, or it is appended a second time. Attribute statements are kept
as settings of their object, and code does nothing to the trees.

* `Forest.hang_hang`, `Dom.graft_graft`, `Dom.graft_leaf` — hanging trees one by one is hanging them
  at once;
* `Dom.run_spec` — a script that runs creates no variable twice and uses none before it is created;
* `Dom.run_settings`, `Dom.append_single` — the statements of one new object.
-/
import DomScript.Proofs.Document.Tree
import DomScript.Statement

namespace DomScript

/-! ## Settings -/

/-- What an attribute statement says of its object. -/
inductive Setting where
  | assign (path : List String) (value : Operand)
  | listen (event : String) (handler : String)

/-- The statement that makes a setting on the object in `var`. -/
def Setting.on (var : String) : Setting → Statement
  | .assign path value => .assign var path value
  | .listen event handler => .listen var event handler

/-- The setting that a statement makes, if it is an attribute statement. -/
def Statement.setting? : Statement → Option Setting
  | .assign _ path value => some (.assign path value)
  | .listen _ event handler => some (.listen event handler)
  | _ => none

/-- The settings that stand for an attribute. -/
def Attribute.settings (a : Attribute) : List Setting :=
  (a.statements "").filterMap Statement.setting?

/-- The statements of an attribute are its settings on one object. -/
theorem Attribute.statements_eq (var : String) (a : Attribute) :
    a.statements var = a.settings.map (Setting.on var) := by
  simp only [settings, statements]
  cases Rule.forKey a.key with
  | style =>
    simp only
    induction styleDeclarations a.value.toList with
    | nil => rfl
    | cons decl decls ih => rw [List.map_cons, ih]; rfl
  | _ => rfl

theorem Attribute.flatMap_statements (var : String) (attributes : List Attribute) :
    attributes.flatMap (·.statements var) =
      (attributes.flatMap Attribute.settings).map (Setting.on var) := by
  simp only [List.map_flatMap, ← Attribute.statements_eq]

/-! ## Hanging trees below a node -/

namespace Forest

variable {α : Type}

/-- The variables of the nodes, in document order. -/
def vars (f : Forest (String × α)) : List String :=
  f.labels.map Prod.fst

@[simp] theorem vars_nil : vars (nil : Forest (String × α)) = [] := rfl

@[simp] theorem vars_node (var : String) (a : α) (kids sibs : Forest (String × α)) :
    vars (node (var, a) kids sibs) = var :: (vars kids ++ vars sibs) := by
  simp [vars, labels]

@[simp] theorem vars_append (f g : Forest (String × α)) : (f ++ g).vars = f.vars ++ g.vars := by
  simp [vars]

/-- A forest with `trees` behind the last child of its node `parent`. -/
def hang (parent : String) :
    Forest (String × α) → Forest (String × α) → Forest (String × α)
  | nil, _ => nil
  | node (var, a) children siblings, trees =>
    node (var, a) (hang parent children trees ++ if var = parent then trees else nil)
      (hang parent siblings trees)

/-- The tree with the root `var`, and the forest without it. -/
def pull (var : String) :
    Forest (String × α) → Option (Forest (String × α) × Forest (String × α))
  | nil => none
  | node (v, a) children siblings =>
    if v = var then some (node (v, a) children nil, siblings)
    else (pull var siblings).map fun (tree, rest) => (tree, node (v, a) children rest)

variable {f g h : Forest (String × α)} {parent var : String}

@[simp] theorem hang_nil (parent : String) (f : Forest (String × α)) : f.hang parent nil = f := by
  induction f with
  | nil => rfl
  | node a kids sibs ihk ihs => simp [hang, ihk, ihs]

theorem hang_append (parent : String) (trees f g : Forest (String × α)) :
    (f ++ g).hang parent trees = f.hang parent trees ++ g.hang parent trees := by
  induction f with
  | nil => rfl
  | node a kids sibs _ ih => simp [hang, ih]

theorem hang_of_notMem (hp : parent ∉ f.vars) : f.hang parent g = f := by
  induction f with
  | nil => rfl
  | node a kids sibs ihk ihs =>
    obtain ⟨v, a⟩ := a
    simp only [vars_node, List.mem_cons, List.mem_append, not_or] at hp
    rw [hang, ihk hp.2.1, ihs hp.2.2, if_neg (Ne.symm hp.1), append_nil]

theorem mem_vars_hang {x : String} :
    x ∈ (f.hang parent g).vars ↔ x ∈ f.vars ∨ parent ∈ f.vars ∧ x ∈ g.vars := by
  induction f with
  | nil => simp [hang]
  | node a kids sibs ihk ihs =>
    obtain ⟨v, a⟩ := a
    simp only [hang, vars_node, vars_append, List.mem_cons, List.mem_append, ihk, ihs]
    by_cases hv : v = parent
    · simp only [hv, if_true, true_or, true_and]
      grind
    · simp only [if_neg hv, vars_nil, List.not_mem_nil, Ne.symm hv, or_false, false_or]
      grind

/-- Hanging trees one after the other. -/
theorem hang_hang (hg : parent ∉ g.vars) :
    (f.hang parent g).hang parent h = f.hang parent (g ++ h) := by
  induction f with
  | nil => rfl
  | node a kids sibs ihk ihs =>
    obtain ⟨v, a⟩ := a
    simp only [hang, hang_append, ihk, ihs, append_assoc]
    split
    · rw [hang_of_notMem hg]
    · rfl

/-- Hanging trees below a leaf that was just hung. -/
theorem hang_leaf {a : α} (hf : var ∉ f.vars) :
    (f.hang parent (node (var, a) nil nil)).hang var g = f.hang parent (node (var, a) g nil) := by
  induction f with
  | nil => rfl
  | node b kids sibs ihk ihs =>
    obtain ⟨v, b⟩ := b
    simp only [vars_node, List.mem_cons, List.mem_append, not_or] at hf
    simp only [hang, hang_append, ihk hf.2.1, ihs hf.2.2, if_neg (Ne.symm hf.1), append_nil]
    split <;> simp [hang]

theorem mem_vars_pull {tree rest : Forest (String × α)} (hp : f.pull var = some (tree, rest)) :
    var ∈ tree.vars ∧ ∀ x, x ∈ f.vars ↔ x ∈ tree.vars ∨ x ∈ rest.vars := by
  induction f generalizing rest with
  | nil => simp [pull] at hp
  | node b kids sibs _ ih =>
    obtain ⟨v, b⟩ := b
    simp only [pull] at hp
    split at hp
    · rename_i hv
      obtain ⟨rfl, rfl⟩ := Prod.mk.inj (Option.some.inj hp)
      simp [hv]
      grind
    · obtain ⟨⟨t, r⟩, hpull, heq⟩ := Option.map_eq_some_iff.mp hp
      obtain ⟨rfl, rfl⟩ := Prod.mk.inj heq
      obtain ⟨hvar, hmem⟩ := ih hpull
      refine ⟨hvar, fun x => ?_⟩
      simp only [vars_node, List.mem_cons, List.mem_append, hmem]
      grind

end Forest

/-! ## Executing scripts -/

/-- A created object. -/
inductive Made where
  | element (tag : Tag) (settings : List Setting)
  | text (content : String)

/-- Make one more setting on an object. -/
def Made.set (s : Setting) : Made → Made
  | .element tag settings => .element tag (settings ++ [s])
  | .text content => .text content

/-- The variables created so far, the trees that hang nowhere, and the children of the default
parent. -/
structure Dom where
  created : List String
  loose : Forest (String × Made)
  page : Forest (String × Made)

namespace Dom

/-- Nothing has been created. -/
def empty : Dom :=
  ⟨[], .nil, .nil⟩

/-- Create an object in a variable that is new. -/
def create (dom : Dom) (var : String) (made : Made) : Option Dom :=
  if var ∈ dom.created then none
  else
    some { dom with
      created := dom.created ++ [var]
      loose := dom.loose ++ .node (var, made) .nil .nil }

/-- The object in `var` with one more setting, any other one as it is. -/
def change (var : String) (s : Setting) : String × Made → String × Made
  | (v, made) => (v, if v = var then made.set s else made)

/-- Make a setting on a created object, wherever it hangs. -/
def set (dom : Dom) (var : String) (s : Setting) : Option Dom :=
  if var ∈ dom.created then
    some { dom with loose := dom.loose.map (change var s), page := dom.page.map (change var s) }
  else none

/-- Append an object that hangs nowhere to the default parent or to another object. -/
def append (defaultParent : String) (dom : Dom) (parent child : String) : Option Dom :=
  match dom.loose.pull child with
  | none => none
  | some (tree, loose) =>
    if parent = defaultParent then some { dom with loose, page := dom.page ++ tree }
    else if parent ∈ loose.vars ++ dom.page.vars then
      some { dom with loose := loose.hang parent tree, page := dom.page.hang parent tree }
    else none

/-- Carry out a statement, if it is in order. -/
def step (defaultParent : String) (dom : Dom) : Statement → Option Dom
  | .createElement var tag => dom.create var (.element tag [])
  | .createText var text => dom.create var (.text text)
  | .assign var path value => dom.set var (.assign path value)
  | .listen var event handler => dom.set var (.listen event handler)
  | .appendChild parent child => dom.append defaultParent parent child
  | .code _ => some dom

/-- Carry out a script. -/
def run (defaultParent : String) (dom : Dom) (script : List Statement) : Option Dom :=
  script.foldlM (step defaultParent) dom

variable {defaultParent : String} {dom dom' : Dom}

theorem run_cons (dom : Dom) (s : Statement) (script : List Statement) :
    dom.run defaultParent (s :: script) =
      (dom.step defaultParent s).bind fun dom => dom.run defaultParent script := rfl

theorem run_append (dom : Dom) (script more : List Statement) :
    dom.run defaultParent (script ++ more) =
      (dom.run defaultParent script).bind fun dom => dom.run defaultParent more :=
  List.foldlM_append

end Dom

/-! ### What a script that runs is like -/

/-- The variable that a statement creates. -/
def Statement.creates? : Statement → Option String
  | .createElement var _ => some var
  | .createText var _ => some var
  | _ => none

/-- The variable that a statement appends. -/
def Statement.appends? : Statement → Option String
  | .appendChild _ child => some child
  | _ => none

/-- The variable that a statement sets something on or appends. -/
def Statement.uses? : Statement → Option String
  | .assign var _ _ => some var
  | .listen var _ _ => some var
  | .appendChild _ child => some child
  | _ => none

/-- The parent that a statement appends to. -/
def Statement.parent? : Statement → Option String
  | .appendChild parent _ => some parent
  | _ => none

namespace Dom

variable {defaultParent : String} {dom dom' : Dom}

/-- Whatever hangs somewhere or nowhere was created. -/
def Closed (dom : Dom) : Prop :=
  ∀ x ∈ dom.loose.vars ++ dom.page.vars, x ∈ dom.created

theorem vars_map_change (var : String) (s : Setting) (f : Forest (String × Made)) :
    (f.map (change var s)).vars = f.vars := by
  induction f with
  | nil => rfl
  | node a kids sibs ihk ihs =>
    obtain ⟨v, made⟩ := a
    simp only [Forest.map, change, Forest.vars_node, ihk, ihs]

theorem map_change_of_notMem {var : String} {s : Setting} {f : Forest (String × Made)}
    (h : var ∉ f.vars) : f.map (change var s) = f := by
  induction f with
  | nil => rfl
  | node a kids sibs ihk ihs =>
    obtain ⟨v, made⟩ := a
    simp only [Forest.vars_node, List.mem_cons, List.mem_append, not_or] at h
    rw [Forest.map, ihk h.2.1, ihs h.2.2, change, if_neg (Ne.symm h.1)]

theorem create_spec {var : String} {made : Made} (hc : dom.Closed)
    (h : dom.create var made = some dom') :
    var ∉ dom.created ∧ dom'.created = dom.created ++ [var] ∧ dom'.Closed := by
  simp only [create] at h
  split at h
  · cases h
  · rename_i hvar
    obtain rfl := Option.some.inj h
    refine ⟨hvar, rfl, fun x hx => ?_⟩
    have := hc x
    simp only [Forest.vars_append, Forest.vars_node, Forest.vars_nil, List.mem_append] at *
    grind

theorem set_spec {var : String} {s : Setting} (hc : dom.Closed) (h : dom.set var s = some dom') :
    var ∈ dom.created ∧ dom'.created = dom.created ∧ dom'.Closed := by
  simp only [set] at h
  split at h
  · rename_i hvar
    obtain rfl := Option.some.inj h
    refine ⟨hvar, rfl, fun x hx => hc x ?_⟩
    simpa only [vars_map_change] using hx
  · cases h

theorem append_spec {parent child : String} (hc : dom.Closed)
    (h : dom.append defaultParent parent child = some dom') :
    (parent = defaultParent ∨ parent ∈ dom.created) ∧ child ∈ dom.created ∧
      dom'.created = dom.created ∧ dom'.Closed := by
  simp only [append] at h
  split at h
  · cases h
  · rename_i tree loose hpull
    obtain ⟨hchild, hmem⟩ := Forest.mem_vars_pull hpull
    have hcc : child ∈ dom.created := hc child (by simp [hmem, hchild])
    -- what hung nowhere hangs nowhere still, or hangs below the child's new parent
    have hloose : ∀ x ∈ tree.vars ++ (loose.vars ++ dom.page.vars), x ∈ dom.created := by
      intro x hx
      refine hc x ?_
      simpa only [List.mem_append, hmem, or_assoc] using hx
    split at h
    · rename_i hp
      obtain rfl := Option.some.inj h
      refine ⟨.inl hp, hcc, rfl, fun x hx => hloose x ?_⟩
      simp only [Forest.vars_append, List.mem_append] at *
      grind
    · split at h
      · rename_i hp
        obtain rfl := Option.some.inj h
        refine ⟨.inr (hloose parent (List.mem_append_right _ hp)), hcc, rfl,
          fun x hx => hloose x ?_⟩
        simp only [Forest.mem_vars_hang, List.mem_append] at *
        grind
      · cases h

/-- A statement in order uses only what there is, the default parent apart. -/
structure InOrder (defaultParent : String) (created : List String) (s : Statement) : Prop where
  creates : ∀ x ∈ s.creates?, x ∉ created
  uses : ∀ x ∈ s.uses?, x ∈ created
  parent : ∀ x ∈ s.parent?, x = defaultParent ∨ x ∈ created

/-- A step creates what its statement says, once, and uses only what there is. -/
theorem step_spec {s : Statement} (hc : dom.Closed) (h : dom.step defaultParent s = some dom') :
    InOrder defaultParent dom.created s ∧ dom'.created = dom.created ++ s.creates?.toList ∧
      dom'.Closed := by
  cases s with
  | createElement var tag =>
    obtain ⟨hvar, hcr, hcl⟩ := create_spec hc h
    exact ⟨⟨by simpa [Statement.creates?] using hvar, by simp [Statement.uses?],
      by simp [Statement.parent?]⟩, hcr, hcl⟩
  | createText var text =>
    obtain ⟨hvar, hcr, hcl⟩ := create_spec hc h
    exact ⟨⟨by simpa [Statement.creates?] using hvar, by simp [Statement.uses?],
      by simp [Statement.parent?]⟩, hcr, hcl⟩
  | assign var path value =>
    obtain ⟨hvar, hcr, hcl⟩ := set_spec hc h
    exact ⟨⟨by simp [Statement.creates?], by simpa [Statement.uses?] using hvar,
      by simp [Statement.parent?]⟩, by simp [hcr, Statement.creates?], hcl⟩
  | listen var event handler =>
    obtain ⟨hvar, hcr, hcl⟩ := set_spec hc h
    exact ⟨⟨by simp [Statement.creates?], by simpa [Statement.uses?] using hvar,
      by simp [Statement.parent?]⟩, by simp [hcr, Statement.creates?], hcl⟩
  | appendChild parent child =>
    obtain ⟨hparent, hchild, hcr, hcl⟩ := append_spec hc h
    exact ⟨⟨by simp [Statement.creates?], by simpa [Statement.uses?] using hchild,
      by simpa [Statement.parent?] using hparent⟩, by simp [hcr, Statement.creates?], hcl⟩
  | code text =>
    obtain rfl := Option.some.inj h
    exact ⟨⟨by simp [Statement.creates?], by simp [Statement.uses?], by simp [Statement.parent?]⟩,
      by simp [Statement.creates?], hc⟩

/-- **A script that runs** creates no variable twice and uses none before it is created. -/
theorem run_spec {script : List Statement} (hc : dom.Closed)
    (h : dom.run defaultParent script = some dom') :
    dom'.created = dom.created ++ script.filterMap Statement.creates? ∧
      (dom.created.Nodup → dom'.created.Nodup) ∧
      ∀ pre s post, script = pre ++ s :: post →
        InOrder defaultParent (dom.created ++ pre.filterMap Statement.creates?) s := by
  induction script generalizing dom with
  | nil =>
    obtain rfl := Option.some.inj h
    exact ⟨by simp, id, fun pre s post hs => by simp at hs⟩
  | cons s script ih =>
    obtain ⟨mid, hmid, hrun⟩ := Option.bind_eq_some_iff.mp h
    obtain ⟨hin, hcr, hcl⟩ := step_spec hc hmid
    obtain ⟨hall, hnd, horder⟩ := ih hcl hrun
    have hcons : ∀ l : List Statement, (s :: l).filterMap Statement.creates? =
        s.creates?.toList ++ l.filterMap Statement.creates? := by
      intro l
      rw [List.filterMap_cons]
      cases s.creates? <;> rfl
    refine ⟨by rw [hall, hcr, hcons, List.append_assoc], fun hn => hnd ?_, ?_⟩
    · rw [hcr]
      refine List.nodup_append.mpr ⟨hn, by cases s.creates? <;> simp, ?_⟩
      rintro x hx y hy rfl
      exact hin.creates x (Option.mem_toList.mp hy) hx
    · intro pre t post hsplit
      cases pre with
      | nil =>
        obtain ⟨rfl, -⟩ := List.cons.inj hsplit
        simpa using hin
      | cons u pre =>
        obtain ⟨rfl, hrest⟩ := List.cons.inj hsplit
        rw [hcons, ← List.append_assoc, ← hcr]
        exact horder pre t post hrest

/-! ### The statements of one object -/

/-- Settings go to the new object and leave the page alone. -/
theorem run_settings {created : List String} {page : Forest (String × Made)} {var : String}
    {tag : Tag} (hvar : var ∈ created) (hpage : var ∉ page.vars) (old settings : List Setting) :
    run defaultParent ⟨created, .node (var, .element tag old) .nil .nil, page⟩
        (settings.map (Setting.on var)) =
      some ⟨created, .node (var, .element tag (old ++ settings)) .nil .nil, page⟩ := by
  induction settings generalizing old with
  | nil => simp [run]
  | cons s settings ih =>
    have hstep : step defaultParent ⟨created, .node (var, .element tag old) .nil .nil, page⟩
        (s.on var) = some ⟨created, .node (var, .element tag (old ++ [s])) .nil .nil, page⟩ := by
      cases s <;>
        simp [step, Setting.on, set, hvar, map_change_of_notMem hpage, Forest.map, change, Made.set]
    rw [List.map_cons, run_cons, hstep, Option.bind_some, ih]
    simp

/-- The page with trees appended to the default parent or to an object. -/
def graft (defaultParent : String) (page : Forest (String × Made)) (parent : String)
    (trees : Forest (String × Made)) : Forest (String × Made) :=
  if parent = defaultParent then page ++ trees else page.hang parent trees

/-- Appending the only object that hangs nowhere. -/
theorem append_single {created : List String} {page : Forest (String × Made)} {var : String}
    {made : Made} {parent : String} (hp : parent = defaultParent ∨ parent ∈ page.vars) :
    append defaultParent ⟨created, .node (var, made) .nil .nil, page⟩ parent var =
      some ⟨created, .nil, graft defaultParent page parent (.node (var, made) .nil .nil)⟩ := by
  simp only [append, Forest.pull, if_true, graft]
  split
  · rfl
  · rename_i hne
    rw [if_pos (by simpa using hp.resolve_left hne)]
    rfl

variable {page g h : Forest (String × Made)} {parent var : String}

@[simp] theorem graft_nil : graft defaultParent page parent .nil = page := by
  simp [graft]

theorem graft_graft (hg : parent ∉ g.vars) :
    graft defaultParent (graft defaultParent page parent g) parent h =
      graft defaultParent page parent (g ++ h) := by
  simp only [graft]
  split
  · rw [Forest.append_assoc]
  · rw [Forest.hang_hang hg]

/-- Trees below an object that was just appended. -/
theorem graft_leaf {made : Made} (hvar : var ≠ defaultParent) (hpage : var ∉ page.vars) :
    graft defaultParent (graft defaultParent page parent (.node (var, made) .nil .nil)) var g =
      graft defaultParent page parent (.node (var, made) g .nil) := by
  simp only [graft, if_neg hvar]
  split
  · rw [Forest.hang_append, Forest.hang_of_notMem hpage]
    simp [Forest.hang]
  · rw [Forest.hang_leaf hpage]

theorem mem_vars_graft {x : String} (hp : parent = defaultParent ∨ parent ∈ page.vars) :
    x ∈ (graft defaultParent page parent g).vars ↔ x ∈ page.vars ∨ x ∈ g.vars := by
  simp only [graft]
  split
  · simp
  · rename_i hne
    simp [Forest.mem_vars_hang, hp.resolve_left hne]

end Dom

end DomScript
