import Tabular.Proofs.Strict.Arena
import Tabular.Proofs.Value.Extended

/-!
# Traversals of arenas

The walk over all fields and the record of a row are made by a loop over a stack of handles. What is
found below a node comes onto the stack: on a walk the first child is taken next, and in a record all
children are written before the last map among them is taken.

* `Field.all`: fields with all that they hold;
* `Strict.walkFrom`, `Strict.walk`, **`walkFrom_fields`**: the walk over an arena is that over its
  fields;
* `Entries.modify`, `Entries.modifyAt`: entries inside entries, changed where they stand;
* `Strict.fillFrom`, `Strict.record`, `fillWith_fields`, **`fillFrom_fields`**: the record of an arena
  is that of its fields;
* `exists_of_walkFrom`, `exists_of_fillWith`, `exists_of_fillFrom`: what a loop that ends has found.
-/

namespace Tabular

/-! ## Fields with all that they hold -/

namespace Field

theorem Distinct.of_mem {fs : List Field} {f : Field} (h : Distinct fs) (hf : f ∈ fs) :
    Distinct f.fields :=
  h.named? (named?_of_mem h.nodup hf)

/-- The fields and what they hold, each before what it holds. -/
def all (fs : List Field) : List Field :=
  (walk [] fs).map Prod.snd

theorem map_snd_walk (above : Path) (fs : List Field) : (walk above fs).map Prod.snd = all fs := by
  have h : ∀ above above' : Path, (walk above fs).map Prod.snd = (walk above' fs).map Prod.snd := by
    induction fs using Field.induction with
    | nil => exact fun _ _ => rfl
    | scalar n k v rest ih =>
      intro above above'
      simp only [walk, walkIn, List.map_append, List.map_cons, List.map_nil, ih above above']
    | map n k fields rest ihFields ih =>
      intro above above'
      simp only [walk, walkIn, List.map_append, List.map_cons, ih above above',
        ihFields (above ++ [n]) (above' ++ [n])]
  exact h above []

@[simp] theorem all_nil : all [] = [] := rfl

@[simp] theorem all_cons (f : Field) (rest : List Field) :
    all (f :: rest) = f :: (all f.fields ++ all rest) := by
  cases f with
  | scalar n k v => simp [all, walk, walkIn, fields]
  | map n k fs =>
    rw [all, walk, walkIn, List.map_append, List.map_cons, map_snd_walk, map_snd_walk, fields,
      List.cons_append]

end Field

namespace Strict

/-- The nodes hold those of some fields, and of all that these hold. -/
def Holds (nodes : List Node) (fs : List Field) : Prop :=
  ∀ f ∈ Field.all fs, nodes[f.handle]? = some f.node

variable {nodes : List Node} {f : Field} {fs rest : List Field} {n : Node} {handle : Nat}

theorem holds_cons : Holds nodes (f :: rest) ↔
    nodes[f.handle]? = some f.node ∧ Holds nodes f.fields ∧ Holds nodes rest := by
  simp only [Holds, Field.all_cons, List.mem_cons, List.mem_append, or_imp, forall_and, forall_eq]

theorem Holds.of_mem (hs : Holds nodes fs) (hf : f ∈ fs) :
    nodes[f.handle]? = some f.node ∧ Holds nodes f.fields := by
  induction fs with
  | nil => cases hf
  | cons g rest ih =>
    obtain ⟨hself, hinner, hrest⟩ := holds_cons.mp hs
    rcases List.mem_cons.mp hf with rfl | hf
    · exact ⟨hself, hinner⟩
    · exact ih hrest hf

/-! ## The walk -/

/-- The paths and handles of the nodes directly below one. -/
def Node.below (path : Path) (n : Node) : List (Path × Nat) :=
  n.children.map fun e => (path ++ [e.1], e.2)

/-- The paths on a stack and what is below them, each with its handle and its node, in at most so
many steps. -/
def walkFrom (nodes : List Node) : Nat → List (Path × Nat) →
    Except Breach (List (Path × Nat × Node))
  | _, [] => .ok []
  | 0, _ :: _ => .error .endless
  | steps + 1, (path, handle) :: stack => do
    let n ← nodeAt handle nodes
    let later ← walkFrom nodes steps ((if n.kind = .map then n.below path else []) ++ stack)
    return (path, handle, n) :: later

/-- All fields of a row, a map before what it holds. -/
def walk (nodes : List Node) (steps : Nat) : Except Breach (List (Path × Nat × Node)) := do
  let root ← nodeAt 0 nodes
  walkFrom nodes steps (root.below [])

theorem walk_of_root (h : nodes[0]? = some n) (steps : Nat) :
    walk nodes steps = walkFrom nodes steps (n.below []) := by
  rw [walk, nodeAt_of_some h]
  rfl

/-- A walk that ends has found the node on the top of its stack. -/
theorem exists_of_walkFrom {steps : Nat} {path : Path} {stack : List (Path × Nat)}
    {visits : List (Path × Nat × Node)}
    (h : walkFrom nodes (steps + 1) ((path, handle) :: stack) = .ok visits) :
    ∃ n later, nodes[handle]? = some n ∧
      walkFrom nodes steps ((if n.kind = .map then n.below path else []) ++ stack) = .ok later := by
  rw [walkFrom] at h
  cases hnode : nodeAt handle nodes with
  | error breach =>
    rw [hnode] at h
    cases h
  | ok n =>
    rw [hnode] at h
    simp only [bind, Except.bind] at h
    split at h
    · cases h
    · next later hlater => exact ⟨n, later, getElem?_of_nodeAt hnode, hlater⟩

/-- A field with its path, as a walk shows it. -/
def visit (e : Path × Field) : Path × Nat × Node :=
  (e.1, e.2.handle, e.2.node)

/-- The paths and handles of fields below a path. -/
def rootsOf (above : Path) (fs : List Field) : List (Path × Nat) :=
  fs.map fun f => (above ++ [f.name], f.handle)

theorem below_node (path : Path) (f : Field) : f.node.below path = rootsOf path f.fields := by
  rw [Node.below, Field.node, List.map_map]
  rfl

/-- **The walk over an arena** is that over its fields. -/
theorem walkFrom_fields (hs : Holds nodes fs) (above : Path) (steps : Nat)
    (stack : List (Path × Nat)) :
    walkFrom nodes ((Field.all fs).length + steps) (rootsOf above fs ++ stack) =
      (walkFrom nodes steps stack).map ((Field.walk above fs).map visit ++ ·) := by
  induction fs using Field.induction_below generalizing above steps stack with
  | below fs ih =>
    -- the fields are taken from the stack one by one
    induction fs generalizing steps with
    | nil =>
      rw [Field.all_nil, List.length_nil, Nat.zero_add]
      show walkFrom nodes steps stack = _
      cases walkFrom nodes steps stack <;> rfl
    | cons f rest ihRest =>
      obtain ⟨hself, hinner, hrest⟩ := holds_cons.mp hs
      have hbelow := ih f List.mem_cons_self hinner
      have hlater := ihRest (fun g hg => ih g (List.mem_cons_of_mem f hg)) hrest
      have hstack : (if f.node.kind = .map then f.node.below (above ++ [f.name]) else []) =
          rootsOf (above ++ [f.name]) f.fields := by
        cases f with
        | scalar n k v => rfl
        | map n k fs => exact below_node _ (.map n k fs)
      have hlen : (Field.all (f :: rest)).length + steps =
          (Field.all f.fields).length + ((Field.all rest).length + steps) + 1 := by
        rw [Field.all_cons, List.length_cons, List.length_append]
        omega
      rw [hlen, rootsOf, List.map_cons, List.cons_append, walkFrom, nodeAt_of_some hself]
      simp only [bind, Except.bind, hstack]
      rw [← rootsOf, hbelow, hlater, Field.walk_cons]
      cases walkFrom nodes steps stack with
      | error breach => rfl
      | ok later => simp [Except.map, pure, Except.pure, visit]

/-! ## Entries inside entries -/

end Strict

/-- A map with other entries; any other value stays as it is. -/
def Value.mapEntries (g : Entries Value → Entries Value) : Value → Value
  | .map es => .map (g es)
  | v => v

theorem Value.mapEntries_id (v : Value) : v.mapEntries (fun es => es) = v := by
  cases v <;> rfl

theorem Value.mapEntries_mapEntries (g h : Entries Value → Entries Value) (v : Value) :
    (v.mapEntries h).mapEntries g = v.mapEntries fun es => g (h es) := by
  cases v <;> rfl

namespace Entries

/-- The entries with the value at a key changed. -/
def modify (key : String) (g : Value → Value) : Entries Value → Entries Value
  | [] => []
  | (k, v) :: rest => if k = key then (k, g v) :: rest else (k, v) :: modify key g rest

/-- The entries with those of the map at a path of keys changed. -/
def modifyAt : Path → (Entries Value → Entries Value) → Entries Value → Entries Value
  | [], g, es => g es
  | key :: rest, g, es => modify key (Value.mapEntries (modifyAt rest g)) es

variable {key other : String} {es later : Entries Value} {g h : Value → Value}

theorem modify_modify (key : String) (g h : Value → Value) (es : Entries Value) :
    modify key g (modify key h es) = modify key (fun v => g (h v)) es := by
  induction es with
  | nil => rfl
  | cons e rest ih =>
    rw [modify, modify]
    split
    · next hk => rw [modify, if_pos hk]
    · next hk => rw [modify, if_neg hk, ih]

theorem modify_put_self (key : String) (g : Value → Value) (v : Value) (es : Entries Value) :
    modify key g (put key v es) = put key (g v) es := by
  induction es with
  | nil => simp [put, modify]
  | cons e rest ih =>
    obtain ⟨k, w⟩ := e
    by_cases hk : k = key
    · subst hk
      simp [put, modify]
    · simp [put, modify, hk, ih]

theorem modify_put_of_ne (hk : key ≠ other) (g : Value → Value) (v : Value) (es : Entries Value) :
    modify key g (put other v es) = put other v (modify key g es) := by
  induction es with
  | nil => simp [put, modify, hk.symm]
  | cons e rest ih =>
    obtain ⟨k, w⟩ := e
    by_cases hother : k = other
    · subst hother
      simp [put, modify, hk.symm]
    · by_cases hkey : k = key
      · subst hkey
        simp [put, modify, hother]
      · simp [put, modify, hother, hkey, ih]

theorem modify_putAll_of_not_mem (hk : key ∉ keys later) (g : Value → Value) (es : Entries Value) :
    modify key g (putAll es later) = putAll (modify key g es) later := by
  induction later generalizing es with
  | nil => rfl
  | cons e rest ih =>
    rw [keys, List.map_cons, List.mem_cons, not_or] at hk
    show modify key g (putAll (put e.1 e.2 es) rest) = putAll (put e.1 e.2 (modify key g es)) rest
    rw [ih hk.2, modify_put_of_ne hk.1]

theorem modify_id (key : String) (es : Entries Value) : modify key (fun v => v) es = es := by
  induction es with
  | nil => rfl
  | cons e rest ih =>
    rw [modify]
    split
    · rfl
    · rw [ih]

theorem modifyAt_id (path : Path) (es : Entries Value) : modifyAt path (fun es => es) es = es := by
  induction path generalizing es with
  | nil => rfl
  | cons key rest ih =>
    have hid : Value.mapEntries (modifyAt rest fun es => es) = fun v => v := by
      funext v
      rw [show (modifyAt rest fun es => es) = fun es => es from funext ih, Value.mapEntries_id]
    rw [modifyAt, hid, modify_id]

theorem modifyAt_modifyAt (path : Path) (g h : Entries Value → Entries Value) (es : Entries Value) :
    modifyAt path g (modifyAt path h es) = modifyAt path (fun es => g (h es)) es := by
  induction path generalizing es with
  | nil => rfl
  | cons key rest ih =>
    have hcomp : (fun v => Value.mapEntries (modifyAt rest g) (Value.mapEntries (modifyAt rest h) v)) =
        Value.mapEntries (modifyAt rest fun es => g (h es)) := by
      funext v
      rw [Value.mapEntries_mapEntries, show (fun es => modifyAt rest g (modifyAt rest h es)) = _ from
        funext ih]
    rw [modifyAt, modifyAt, modify_modify, hcomp, modifyAt]

theorem modifyAt_append (path rest : Path) (g : Entries Value → Entries Value) :
    modifyAt (path ++ rest) g = modifyAt path (modifyAt rest g) := by
  induction path with
  | nil => rfl
  | cons key path ih =>
    funext es
    rw [List.cons_append, modifyAt, modifyAt, ih]

end Entries

namespace Strict

/-! ## The record -/

/-- The children of a node are written into the map at a path; the maps among them, empty so far,
come onto the stack with their own paths. -/
def fillWith (nodes : List Node) (target : Path) : List (String × Nat) →
    Entries Value × List (Nat × Path) → Except Breach (Entries Value × List (Nat × Path))
  | [], state => .ok state
  | (name, handle) :: rest, (out, stack) => do
    let n ← nodeAt handle nodes
    if n.kind = .map then
      fillWith nodes target rest
        (Entries.modifyAt target (Entries.put name (.map [])) out, (handle, target ++ [name]) :: stack)
    else
      fillWith nodes target rest
        (Entries.modifyAt target (Entries.put name (.ofText? n.value)) out, stack)

/-- The entries with what is below the handles on a stack, each in the map at a path, in at most so
many steps. -/
def fillFrom (nodes : List Node) : Nat → List (Nat × Path) → Entries Value →
    Except Breach (Entries Value)
  | _, [], out => .ok out
  | 0, _ :: _, _ => .error .endless
  | steps + 1, (handle, target) :: stack, out => do
    let n ← nodeAt handle nodes
    let (out, stack) ← fillWith nodes target n.children (out, stack)
    fillFrom nodes steps stack out

/-- The record of a row: its attributes first, then its fields. -/
def record (nodes : List Node) (attributes : Entries (Option String)) (steps : Nat) :
    Except Breach (Entries Value) :=
  fillFrom nodes steps [(0, [])] [(attributesName, .map (attributeEntries attributes))]

/-- A round that ends has found the node of its first child. -/
theorem exists_of_fillWith {target : Path} {name : String} {children : List (String × Nat)}
    {out : Entries Value} {stack : List (Nat × Path)} {r : Entries Value × List (Nat × Path)}
    (h : fillWith nodes target ((name, handle) :: children) (out, stack) = .ok r) :
    ∃ n out', nodes[handle]? = some n ∧ fillWith nodes target children
      (out', (if n.kind = .map then [(handle, target ++ [name])] else []) ++ stack) = .ok r := by
  rw [fillWith] at h
  cases hnode : nodeAt handle nodes with
  | error breach =>
    rw [hnode] at h
    cases h
  | ok n =>
    rw [hnode] at h
    simp only [bind, Except.bind] at h
    have hn := getElem?_of_nodeAt hnode
    split at h
    · next hk => exact ⟨n, _, hn, by rw [if_pos hk]; exact h⟩
    · next hk => exact ⟨n, _, hn, by rw [if_neg hk]; exact h⟩

/-- A record that ends has found the node on the top of its stack, and done a round over its
children. -/
theorem exists_of_fillFrom {steps : Nat} {target : Path} {stack : List (Nat × Path)}
    {out out' : Entries Value}
    (h : fillFrom nodes (steps + 1) ((handle, target) :: stack) out = .ok out') :
    ∃ n later stack', nodes[handle]? = some n ∧
      fillWith nodes target n.children (out, stack) = .ok (later, stack') ∧
      fillFrom nodes steps stack' later = .ok out' := by
  rw [fillFrom] at h
  cases hnode : nodeAt handle nodes with
  | error breach =>
    rw [hnode] at h
    cases h
  | ok n =>
    rw [hnode] at h
    simp only [bind, Except.bind] at h
    split at h
    · cases h
    · next r hround => exact ⟨n, r.1, r.2, getElem?_of_nodeAt hnode, hround, h⟩

/-- A field as it is written first. -/
def blank (f : Field) : String × Value :=
  (f.name, match f with
    | .scalar _ _ v => .ofText? v
    | .map .. => .map [])

/-- The maps among fields below a path, the last one first. -/
def pending (target : Path) : List Field → List (Nat × Path)
  | [] => []
  | f :: rest =>
    pending target rest ++ if f.kind = .map then [(f.handle, target ++ [f.name])] else []

/-- The entries with what the maps among fields hold, written into them from the last one on. -/
def fillMaps : List Field → Entries Value → Entries Value
  | [], es => es
  | f :: rest, es =>
    if f.kind = .map then
      Entries.modifyAt [f.name] (fun es => Entries.putAll es (Field.entriesOf f.fields))
        (fillMaps rest es)
    else fillMaps rest es

/-- The number of maps among fields and all that they hold. -/
def mapsIn (fs : List Field) : Nat :=
  (Field.all fs).countP fun f => f.kind = .map

theorem mapsIn_cons (f : Field) (rest : List Field) :
    mapsIn (f :: rest) = (if f.kind = .map then mapsIn f.fields + 1 else 0) + mapsIn rest := by
  rw [mapsIn, Field.all_cons, List.countP_cons, List.countP_append]
  cases f with
  | scalar n k v => simp [mapsIn, Field.kind, Field.fields]
  | map n k fs => simp [mapsIn, Field.kind, Field.fields]; omega

/-- Maps are written empty and filled later; this comes to the same as writing them with what they
hold. -/
theorem fillMaps_putAll (hn : (fs.map Field.name).Nodup)
    (hbelow : ∀ f ∈ fs, (f.fields.map Field.name).Nodup) (es : Entries Value) :
    fillMaps fs (Entries.putAll es (fs.map blank)) = Entries.putAll es (Field.entriesOf fs) := by
  induction fs generalizing es with
  | nil => rfl
  | cons f rest ih =>
    rw [List.map_cons, List.nodup_cons] at hn
    have hrest := ih hn.2 (fun g hg => hbelow g (List.mem_cons_of_mem f hg))
      (Entries.put f.name (blank f).2 es)
    have hfirst : Entries.putAll es ((f :: rest).map blank) =
        Entries.putAll (Entries.put f.name (blank f).2 es) (rest.map blank) := rfl
    have hwhole : Entries.putAll es (Field.entriesOf (f :: rest)) =
        Entries.putAll (Entries.put f.name f.toValue es) (Field.entriesOf rest) := rfl
    rw [fillMaps, hfirst, hrest, hwhole]
    cases f with
    | scalar n k v => exact if_neg (by simp [Field.kind])
    | map n k inner =>
      have hkey : n ∉ Entries.keys (Field.entriesOf rest) := by
        rw [Field.keys_entriesOf]
        exact hn.1
      have hinner : Entries.putAll [] (Field.entriesOf inner) = Field.entriesOf inner := by
        refine Entries.putAll_of_disjoint ?_ fun _ _ => List.not_mem_nil
        rw [Field.keys_entriesOf]
        exact hbelow (.map n k inner) List.mem_cons_self
      have hk : (Field.map n k inner).kind = .map := rfl
      rw [if_pos hk, Entries.modifyAt]
      show Entries.modify n _ (Entries.putAll (Entries.put n (.map []) es) _) = _
      rw [Entries.modify_putAll_of_not_mem hkey, Entries.modify_put_self]
      exact congrArg (fun v => Entries.putAll (Entries.put n (.map v) es) _) hinner

/-- The children of a node are written in their order. -/
theorem fillWith_fields (hs : ∀ f ∈ fs, nodes[f.handle]? = some f.node) (target : Path)
    (out : Entries Value) (stack : List (Nat × Path)) :
    fillWith nodes target (fs.map fun f => (f.name, f.handle)) (out, stack) =
      .ok (Entries.modifyAt target (fun es => Entries.putAll es (fs.map blank)) out,
        pending target fs ++ stack) := by
  induction fs generalizing out stack with
  | nil => exact congrArg (fun es => Except.ok (es, stack)) (Entries.modifyAt_id target out).symm
  | cons f rest ih =>
    have hrest := ih fun g hg => hs g (List.mem_cons_of_mem f hg)
    have hwrite : Entries.modifyAt target (fun es => Entries.putAll es (rest.map blank))
        (Entries.modifyAt target (Entries.put f.name (blank f).2) out) =
          Entries.modifyAt target (fun es => Entries.putAll es ((f :: rest).map blank)) out :=
      Entries.modifyAt_modifyAt target _ _ out
    rw [List.map_cons, fillWith, nodeAt_of_some (hs f List.mem_cons_self)]
    simp only [bind, Except.bind]
    cases f with
    | scalar n k v =>
      rw [if_neg (by simp [Field.node, Field.kind]), hrest, pending, if_neg (by simp [Field.kind]),
        List.append_nil, ← hwrite]
      rfl
    | map n k inner =>
      have hk : (Field.map n k inner).kind = .map := rfl
      have hnode : (Field.map n k inner).node.kind = .map := rfl
      rw [if_pos hnode, hrest, pending, if_pos hk, List.append_assoc, ← hwrite]
      rfl

/-- **The record of an arena** is that of its fields. -/
theorem fillFrom_fields (hd : Field.Distinct fs) (hs : Holds nodes fs)
    (hn : nodes[handle]? = some n) (hc : n.children = fs.map fun f => (f.name, f.handle))
    (target : Path) (steps : Nat) (stack : List (Nat × Path)) (out : Entries Value) :
    fillFrom nodes (mapsIn fs + 1 + steps) ((handle, target) :: stack) out =
      fillFrom nodes steps stack
        (Entries.modifyAt target (fun es => Entries.putAll es (Field.entriesOf fs)) out) := by
  induction fs using Field.induction_below generalizing handle n target steps stack out with
  | below fs ih =>
    -- the maps among the fields are taken from the stack one by one, the last one first
    have hmaps : ∀ (gs : List Field) (steps : Nat) (stack : List (Nat × Path)) (out : Entries Value),
        (∀ g ∈ gs, g ∈ fs) → fillFrom nodes (mapsIn gs + steps) (pending target gs ++ stack) out =
          fillFrom nodes steps stack (Entries.modifyAt target (fillMaps gs) out) := by
      intro gs
      induction gs with
      | nil =>
        intro steps stack out _
        rw [show mapsIn [] = 0 from rfl, Nat.zero_add]
        exact congrArg (fillFrom nodes steps stack) (Entries.modifyAt_id target out).symm
      | cons g rest ihRest =>
        intro steps stack out hgs
        have hrest := fun steps stack => ihRest steps stack out fun f hf =>
          hgs f (List.mem_cons_of_mem g hf)
        have hg := hgs g List.mem_cons_self
        obtain ⟨hself, hinner⟩ := hs.of_mem hg
        by_cases hk : g.kind = .map
        · have hsteps : mapsIn (g :: rest) + steps =
              mapsIn rest + (mapsIn g.fields + 1 + steps) := by
            rw [mapsIn_cons, if_pos hk]
            omega
          have hfill : fillMaps (g :: rest) = fun es => Entries.modifyAt [g.name]
              (fun es => Entries.putAll es (Field.entriesOf g.fields)) (fillMaps rest es) := by
            funext es
            rw [fillMaps, if_pos hk]
          rw [hsteps, pending, if_pos hk, List.append_assoc, hrest, List.singleton_append,
            ih g hg (hd.of_mem hg) hinner hself rfl, Entries.modifyAt_append,
            Entries.modifyAt_modifyAt, hfill]
        · have hsteps : mapsIn (g :: rest) + steps = mapsIn rest + steps := by
            rw [mapsIn_cons, if_neg hk, Nat.zero_add]
          have hfill : fillMaps (g :: rest) = fillMaps rest := by
            funext es
            rw [fillMaps, if_neg hk]
          rw [hsteps, pending, if_neg hk, List.append_nil, hrest, hfill]
    have hnames : ∀ f ∈ fs, (f.fields.map Field.name).Nodup := fun f hf => (hd.of_mem hf).nodup
    have hwrite : (fun es => fillMaps fs (Entries.putAll es (fs.map blank))) = fun es =>
        Entries.putAll es (Field.entriesOf fs) :=
      funext (fillMaps_putAll hd.nodup hnames)
    rw [show mapsIn fs + 1 + steps = mapsIn fs + steps + 1 by omega, fillFrom, nodeAt_of_some hn]
    simp only [bind, Except.bind, hc]
    rw [fillWith_fields fun f hf => (hs.of_mem hf).1]
    simp only
    rw [hmaps fs steps stack _ fun g hg => hg, Entries.modifyAt_modifyAt, hwrite]

end Strict

end Tabular
