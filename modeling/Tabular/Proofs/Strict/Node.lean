import Tabular.Proofs.Strict.Draft

/-!
# Nodes of fields

A node has the name, the kind and the text of a field, and the handles of the fields directly below
it. A change of a draft by path changes one node, and a new field one more, that of its parent.

* `Strict.Node`, `Node.promoted`, `Node.assigned`, `Node.adopt`: nodes and what becomes of them;
* `Field.node`, `Field.at?`, `Field.shown?`: the node of a field, and of what it holds;
* `Field.inside`, **`shown?_inside`**, `Field.added`, **`shown?_added`**: the nodes after a change by
  path, or with one more field;
* `Draft.shown?`, **`shown?_promote`**, **`shown?_assign`**, **`shown?_insert`**: the same for a
  draft.
-/

namespace Tabular

/-- A node of a field tree. -/
structure Strict.Node where
  name : String
  kind : Kind := .scalar
  value : Option String := none
  /-- The handles of the nodes below, under their names. -/
  children : Entries Nat := []
  deriving Repr, DecidableEq, Inhabited

namespace Strict.Node

/-- The node as that of a map; a text it had is dropped. -/
def promoted (n : Node) : Node :=
  { n with kind := .map, value := none }

/-- The node with another text; that of a map stays as it is. -/
def assigned (value : Option String) (n : Node) : Node :=
  if n.kind = .scalar then { n with value } else n

/-- The node with one more below it. -/
def adopt (name : String) (handle : Nat) (n : Node) : Node :=
  { n with children := Entries.put name handle n.children }

theorem promoted_of_map {n : Node} (hk : n.kind = .map) (hv : n.value = none) : n.promoted = n := by
  cases n
  simp_all [promoted]

end Strict.Node

namespace Field

open Strict (Node)

variable {f g new : Field} {fs : List Field} {path q : Path} {name : String}

/-- The node of a field. -/
def node (f : Field) : Node :=
  ⟨f.name, f.kind, f.value?, f.fields.map fun g => (g.name, g.handle)⟩

@[simp] theorem handle_promoted (f : Field) : f.promoted.handle = f.handle := by
  cases f <;> rfl

@[simp] theorem handle_mapFields (h : List Field → List Field) (f : Field) :
    (f.mapFields h).handle = f.handle := by
  cases f <;> rfl

@[simp] theorem handle_assigned (value : Option String) (f : Field) :
    (f.assigned value).handle = f.handle := by
  cases f <;> rfl

@[simp] theorem fields_assigned (value : Option String) (f : Field) :
    (f.assigned value).fields = f.fields := by
  cases f <;> rfl

theorem node_promoted (f : Field) : f.promoted.node = f.node.promoted := by
  cases f <;> rfl

theorem node_assigned (value : Option String) (f : Field) :
    (f.assigned value).node = f.node.assigned value := by
  cases f <;> rfl

theorem promoted_of_map (hk : f.kind = .map) : f.promoted = f := by
  cases f with
  | scalar n k v => cases hk
  | map n k fs => rfl

theorem keys_children (f : Field) : Entries.keys f.node.children = f.fields.map Field.name := by
  simp [node, Entries.keys]

theorem get?_children (name : String) (f : Field) :
    Entries.get? name f.node.children = (named? name f.fields).map Field.handle := by
  show Entries.get? name (f.fields.map fun g => (g.name, g.handle)) = _
  induction f.fields with
  | nil => rfl
  | cons g rest ih =>
    rw [List.map_cons, Entries.get?, named?_cons, ih]
    split <;> rfl

/-- The node of a field that holds other fields under the same names and handles. -/
theorem node_mapFields {h : List Field → List Field}
    (hh : (h f.fields).map (fun g => (g.name, g.handle)) =
      f.fields.map fun g => (g.name, g.handle)) : (f.mapFields h).node = f.node := by
  cases f with
  | scalar n k v => rfl
  | map n k fs => exact congrArg (Node.mk n .map none) hh

/-- The field itself, or what it holds at a path. -/
def at? (path : Path) (f : Field) : Option Field :=
  if path = [] then some f else find? path f.fields

/-- The handle and the node of a field, or of what it holds at a path. -/
def shown? (path : Path) (f : Field) : Option (Nat × Node) :=
  (at? path f).map fun g => (g.handle, g.node)

theorem at?_nil (f : Field) : at? [] f = some f := if_pos rfl

theorem at?_cons (name : String) (rest : Path) (f : Field) :
    at? (name :: rest) f = (named? name f.fields).bind (at? rest) := by
  rw [at?, if_neg (List.cons_ne_nil name rest), find?_cons]
  rfl

theorem shown?_nil (f : Field) : shown? [] f = some (f.handle, f.node) := rfl

theorem shown?_cons (name : String) (rest : Path) (f : Field) :
    shown? (name :: rest) f = (named? name f.fields).bind (shown? rest) := by
  rw [shown?, at?_cons, Option.map_bind]
  rfl

theorem at?_concat (path : Path) (name : String) (f : Field) :
    at? (path ++ [name]) f = (at? path f).bind fun g => named? name g.fields := by
  induction path generalizing f with
  | nil =>
    rw [List.nil_append, at?_cons, at?_nil, Option.bind_some]
    cases named? name f.fields <;> rfl
  | cons n rest ih =>
    rw [List.cons_append, at?_cons, at?_cons, Option.bind_assoc]
    exact Option.bind_congr fun g _ => ih g

/-! ## Changes by path -/

/-- The field, with itself or with what it holds at a path changed. -/
def inside (path : Path) (h : Field → Field) (f : Field) : Field :=
  if path = [] then h f else f.mapFields (changeAt path h)

theorem changeAt_cons (name : String) (rest : Path) (h : Field → Field) (fs : List Field) :
    changeAt (name :: rest) h fs = change name (inside rest h) fs := by
  cases rest <;> rfl

/-- Whatever a change of one field keeps of it is the same for all fields. -/
theorem map_change {α : Type} {φ : Field → α} {h : Field → Field} (hh : ∀ f, φ (h f) = φ f)
    (name : String) (fs : List Field) : (change name h fs).map φ = fs.map φ := by
  induction fs with
  | nil => rfl
  | cons f rest ih =>
    rw [change]
    split
    · rw [List.map_cons, List.map_cons, hh]
    · rw [List.map_cons, List.map_cons, ih]

/-- **A change of a field at a path** changes the node there and no other. -/
theorem shown?_inside {h : Field → Field} (hname : ∀ f, (h f).name = f.name)
    (hhandle : ∀ f, (h f).handle = f.handle) (hfields : ∀ f, (h f).fields = f.fields)
    (path q : Path) (f : Field) :
    shown? q (inside path h f) =
      if q = path then (at? path f).map fun g => (g.handle, (h g).node) else shown? q f := by
  have hkeep : ∀ (path : Path) (g : Field),
      ((inside path h g).name, (inside path h g).handle) = (g.name, g.handle) := by
    intro path g
    rw [inside]
    split
    · rw [hname, hhandle]
    · rw [name_mapFields, handle_mapFields]
  induction path generalizing q f with
  | nil =>
    cases q with
    | nil => rw [if_pos rfl, shown?_nil, inside, if_pos rfl, hhandle, at?_nil, Option.map_some]
    | cons m r =>
      rw [if_neg (List.cons_ne_nil m r), shown?_cons, shown?_cons, inside, if_pos rfl, hfields]
  | cons n rest ih =>
    rw [inside, if_neg (List.cons_ne_nil n rest)]
    cases q with
    | nil =>
      rw [if_neg (List.cons_ne_nil n rest).symm, shown?_nil, shown?_nil, handle_mapFields,
        node_mapFields]
      rw [changeAt_cons]
      exact map_change (hkeep rest) n f.fields
    | cons m r =>
      cases f with
      | scalar k i v => simp [shown?_cons, at?_cons, mapFields, fields, named?]
      | map k i fs =>
        have hfields' : ((Field.map k i fs).mapFields (changeAt (n :: rest) h)).fields =
            change n (inside rest h) fs := changeAt_cons n rest h fs
        rw [shown?_cons, hfields', shown?_cons, at?_cons]
        by_cases hm : m = n
        · subst hm
          rw [named?_change_self _ fun g => (Prod.mk.inj (hkeep rest g)).1]
          show (_ : Option (Nat × Node)) = if _ then
            ((named? m fs).bind (at? rest)).map _ else (named? m fs).bind (shown? r)
          cases named? m fs with
          | none => simp
          | some g =>
            simp only [Option.map_some, Option.bind_some, List.cons.injEq, true_and]
            exact ih r g
        · rw [named?_change_of_ne hm _ fun g => (Prod.mk.inj (hkeep rest g)).1,
            if_neg fun heq => hm (List.cons.inj heq).1]
          rfl

/-- The field as a map, with one more field at the end of those below a path. -/
def added (path : Path) (new f : Field) : Field :=
  f.promoted.mapFields (addAt path new)

theorem addAt_cons (name : String) (rest : Path) (new : Field) (fs : List Field) :
    addAt (name :: rest) new fs = change name (added rest new) fs := rfl

theorem fields_added (path : Path) (new f : Field) :
    (added path new f).fields = addAt path new f.fields := by
  cases f <;> rfl

theorem keep_added (path : Path) (new f : Field) :
    ((added path new f).name, (added path new f).handle) = (f.name, f.handle) := by
  rw [added, name_mapFields, handle_mapFields, name_promoted, handle_promoted]

theorem node_added_nil (hfree : named? name f.fields = none) (handle : Nat) :
    (added [] (.scalar name handle none) f).node = f.node.promoted.adopt name handle := by
  have hkey : name ∉ Entries.keys f.node.children := by
    rw [keys_children]
    exact named?_eq_none.mp hfree
  rw [Node.adopt, show f.node.promoted.children = f.node.children from rfl,
    Entries.put_of_not_mem hkey]
  cases f <;> simp [added, node, promoted, mapFields, addAt, Node.promoted, Field.name,
    kind, value?, fields, Field.handle]

/-- A new text right below a field. -/
theorem shown?_added_nil (hfree : named? name f.fields = none) (handle : Nat) (q : Path) :
    shown? q (added [] (.scalar name handle none) f) =
      if q = [] then some (f.handle, f.node.promoted.adopt name handle)
      else if q = [name] then some (handle, { name }) else shown? q f := by
  cases q with
  | nil =>
    rw [if_pos rfl, shown?_nil, node_added_nil hfree]
    exact congrArg (fun k => some (k, _)) (Prod.mk.inj (keep_added [] _ f)).2
  | cons m r =>
    have hfields : (added [] (.scalar name handle none) f).fields =
        f.fields ++ [.scalar name handle none] := fields_added [] _ f
    have hnew : (Field.scalar name handle none).name = name := rfl
    rw [if_neg (List.cons_ne_nil m r), shown?_cons, shown?_cons, hfields, named?_concat, hnew]
    by_cases hm : name = m
    · subst hm
      rw [hfree, if_pos rfl, Option.none_or, Option.bind_some, Option.bind_none]
      cases r with
      | nil => exact (if_pos rfl).symm
      | cons k r =>
        rw [if_neg (by simp), shown?_cons]
        rfl
    · have hne : ¬ m :: r = [name] := fun heq => hm (List.cons.inj heq).1.symm
      rw [if_neg hne, if_neg hm, Option.or_none]

/-- **A new text below a path** changes the node there, and there is one node more. -/
theorem shown?_added (hpath : at? path f = some g) (hfree : named? name g.fields = none)
    (handle : Nat) (q : Path) :
    shown? q (added path (.scalar name handle none) f) =
      if q = path then some (g.handle, g.node.promoted.adopt name handle)
      else if q = path ++ [name] then some (handle, { name }) else shown? q f := by
  induction path generalizing q f with
  | nil =>
    obtain rfl : f = g := Option.some.inj ((at?_nil f).symm.trans hpath)
    exact shown?_added_nil hfree handle q
  | cons n rest ih =>
    rw [at?_cons] at hpath
    obtain ⟨g', hn, hrest⟩ := Option.bind_eq_some_iff.mp hpath
    have hmap : f.kind = .map := by
      cases f with
      | scalar k i v => cases hn
      | map k i fs => rfl
    cases q with
    | nil =>
      rw [if_neg (List.cons_ne_nil n rest).symm, if_neg (List.concat_ne_nil _ (n :: rest)).symm,
        shown?_nil, shown?_nil, added, promoted_of_map hmap, handle_mapFields, node_mapFields]
      exact map_change (keep_added rest _) n f.fields
    | cons m r =>
      rw [shown?_cons, shown?_cons, fields_added, addAt_cons]
      by_cases hm : m = n
      · subst hm
        rw [named?_change_self _ fun g => (Prod.mk.inj (keep_added rest _ g)).1, hn, Option.map_some,
          Option.bind_some, ih hrest]
        simp
      · rw [named?_change_of_ne hm _ fun g => (Prod.mk.inj (keep_added rest _ g)).1,
          if_neg fun heq => hm (List.cons.inj heq).1,
          if_neg fun heq : m :: r = n :: rest ++ [name] => hm (List.cons.inj heq).1]

end Field

/-! ## Drafts -/

namespace Draft

open Strict (Node)

variable {d d' : Draft} {path q : Path} {name : String} {value : Option String} {handle : Nat}
  {n : Node}

/-- The row element as a field. -/
def root (d : Draft) : Field :=
  .map d.tag 0 d.fields

/-- The handle and the node of the row element, or of the field at a path. -/
def shown? (path : Path) (d : Draft) : Option (Nat × Node) :=
  d.root.shown? path

theorem node?_eq (path : Path) (d : Draft) : d.node? path = d.root.at? path := by
  cases path <;> rfl

theorem handleAt?_eq (path : Path) (d : Draft) :
    d.handleAt? path = (d.shown? path).map Prod.fst := by
  rw [handleAt?, node?_eq, shown?, Field.shown?, Option.map_map]
  rfl

/-- The fields below a path are those that the field there holds, if there is one. -/
theorem under_eq (path : Path) (f : Field) :
    Field.under path f.fields = ((f.at? path).map Field.fields).getD [] := by
  induction path generalizing f with
  | nil => rfl
  | cons n rest ih =>
    rw [Field.at?_cons]
    cases hn : Field.named? n f.fields with
    | none =>
      rw [Field.under_cons_of_none hn]
      rfl
    | some g => rw [Field.under_cons_of_some hn, ih, Option.bind_some]

theorem under_of_at? {f g : Field} (h : f.at? path = some g) :
    Field.under path f.fields = g.fields := by
  rw [under_eq, h]
  rfl

theorem exists_of_shown? (h : d.shown? path = some (handle, n)) :
    ∃ f, d.root.at? path = some f ∧ f.handle = handle ∧ f.node = n := by
  obtain ⟨f, hf, heq⟩ := Option.map_eq_some_iff.mp h
  exact ⟨f, hf, Prod.mk.inj heq⟩

/-- **Making a field a map** changes its node. -/
theorem shown?_promote (h : d.shown? path = some (handle, n)) (q : Path) :
    (d.promote path).shown? q = if q = path then some (handle, n.promoted) else d.shown? q := by
  obtain ⟨f, hf, rfl, rfl⟩ := exists_of_shown? h
  have hroot : (d.promote path).root = Field.inside path Field.promoted d.root := by
    unfold promote root Field.inside
    split
    · next hp => rw [hp]; rfl
    · rfl
  rw [shown?, hroot, Field.shown?_inside Field.name_promoted Field.handle_promoted
    Field.fields_promoted, hf, Option.map_some, Field.node_promoted]
  rfl

/-- **A text for a field** changes its node. -/
theorem shown?_assign (h : d.shown? path = some (handle, n)) (value : Option String) (q : Path) :
    (d.assign path value).shown? q =
      if q = path then some (handle, n.assigned value) else d.shown? q := by
  obtain ⟨f, hf, rfl, rfl⟩ := exists_of_shown? h
  have hroot : (d.assign path value).root = Field.inside path (Field.assigned value) d.root := by
    unfold assign root Field.inside
    split
    · next hp => rw [hp]; rfl
    · rfl
  rw [shown?, hroot, Field.shown?_inside (Field.name_assigned value) (Field.handle_assigned value)
    (Field.fields_assigned value), hf, Option.map_some, Field.node_assigned]
  rfl

/-- A name is taken if the node has a child of this name. -/
theorem isTaken_eq (h : d.shown? path = some (handle, n)) (name : String) :
    d.isTaken path name = Entries.has name n.children := by
  obtain ⟨f, hf, -, rfl⟩ := exists_of_shown? h
  rw [isTaken, show d.fields = d.root.fields from rfl, under_of_at? hf, Bool.eq_iff_iff,
    Entries.has_iff, Field.keys_children, ← not_iff_not, ← Field.named?_eq_none]
  simp

/-- **A new field** changes the node of its parent, and there is one node more. -/
theorem shown?_insert (h : d.shown? path = some (handle, n)) (hi : d.insert path name = some d')
    (q : Path) :
    d'.shown? q = if q = path then some (handle, n.promoted.adopt name d.size)
      else if q = path ++ [name] then some (d.size, { name }) else d.shown? q := by
  obtain ⟨hfree, rfl⟩ := insert_eq_some_iff.mp hi
  obtain ⟨f, hf, rfl, rfl⟩ := exists_of_shown? h
  rw [show d.fields = d.root.fields from rfl, under_of_at? hf] at hfree
  exact Field.shown?_added hf hfree d.size q

end Draft

end Tabular
