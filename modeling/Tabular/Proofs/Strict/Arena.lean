import Tabular.Proofs.Strict.Node

/-!
# Arenas

A field tree is kept in a list of nodes that refer to one another by their places in the list. The
nodes are changed where they are; a new one comes to the end.

* `Strict.Arena`, `nodeAt`, `Arena.promote`, `Arena.assign`, `Arena.insert`: the list and what is done
  to it by handle;
* `Action`, `Arena.act`, `Arena.run`, `Arena.InRange`, `Draft.act`: sequences of actions with handles
  that are there, on arenas and on drafts;
* `Arena.Shows`: an arena that shows a draft, node by node;
* `Shows.of_set`, `Shows.promote`, `Shows.assign`, `Shows.insert`, **`shows_act`**, **`shows_run`**:
  every action keeps it so, and none of them fails.
-/

namespace Tabular

namespace Strict

/-- A field tree in a list of nodes; the first one is the row element. -/
structure Arena where
  tag : String
  nodes : List Node
  attributes : Entries (Option String) := []
  deriving Repr, DecidableEq, Inhabited

/-- The node with a handle. -/
def nodeAt (handle : Nat) (nodes : List Node) : Except Breach Node :=
  match nodes[handle]? with
  | some n => .ok n
  | none => .error (.noField handle)

theorem nodeAt_of_some {nodes : List Node} {handle : Nat} {n : Node}
    (h : nodes[handle]? = some n) : nodeAt handle nodes = .ok n := by
  rw [nodeAt, h]

theorem nodeAt_of_none {nodes : List Node} {handle : Nat} (h : nodes[handle]? = none) :
    nodeAt handle nodes = .error (.noField handle) := by
  rw [nodeAt, h]

theorem getElem?_of_nodeAt {nodes : List Node} {handle : Nat} {n : Node}
    (h : nodeAt handle nodes = .ok n) : nodes[handle]? = some n := by
  rw [nodeAt] at h
  split at h
  · next heq => rw [heq, Except.ok.inj h]
  · cases h

/-- What is done to a field tree. -/
inductive Action where
  | insert (parent : Nat) (name : String)
  | promote (handle : Nat)
  | assign (handle : Nat) (value : Option String)
  | annotate (key : String) (value : Option String)
  /-- The row is sealed as it is; the tree can still be worked on. -/
  | close (ordinal : Int)
  deriving Repr, DecidableEq

/-- The handle that an action is about. -/
def Action.handle? : Action → Option Nat
  | .insert parent _ => some parent
  | .promote handle => some handle
  | .assign handle _ => some handle
  | .annotate .. | .close _ => none

namespace Arena

/-- The row element alone. -/
def start (tag : String) : Arena where
  tag := tag
  nodes := [{ name := tag, kind := .map }]

/-- The node with a handle made that of a map. -/
def promote (handle : Nat) (a : Arena) : Except Breach Arena := do
  let n ← nodeAt handle a.nodes
  return { a with nodes := a.nodes.set handle n.promoted }

/-- The text of the node with a handle set. -/
def assign (handle : Nat) (value : Option String) (a : Arena) : Except Breach Arena := do
  let n ← nodeAt handle a.nodes
  return { a with nodes := a.nodes.set handle (n.assigned value) }

/-- A new empty text below the node with a handle, which becomes a map, and its own handle; none
where the name is taken. -/
def insert (parent : Nat) (name : String) (a : Arena) : Except Breach (Arena × Option Nat) := do
  let p ← nodeAt parent a.nodes
  if Entries.has name p.children then return (a, none)
  let a ← if p.kind = .scalar then a.promote parent else pure a
  let p ← nodeAt parent a.nodes
  let handle := a.nodes.length
  let nodes := (a.nodes ++ [({ name } : Node)]).set parent (p.adopt name handle)
  return ({ a with nodes }, some handle)

/-- The arena after an action. Sealing leaves it as it is. -/
def act (a : Arena) : Action → Except Breach Arena
  | .insert parent name => (a.insert parent name).map Prod.fst
  | .promote handle => a.promote handle
  | .assign handle value => a.assign handle value
  | .annotate key value => .ok { a with attributes := Entries.put key value a.attributes }
  | .close _ => .ok a

/-- The arena after some actions. -/
def run : List Action → Arena → Except Breach Arena
  | [], a => .ok a
  | action :: rest, a => do
    let a ← a.act action
    run rest a

/-- Each action is about a handle that the arena has then. -/
def InRange : List Action → Arena → Prop
  | [], _ => True
  | action :: rest, a =>
    (∀ handle ∈ action.handle?, handle < a.nodes.length) ∧
      ∀ a', a.act action = .ok a' → InRange rest a'

instance decidableInRange : (actions : List Action) → (a : Arena) → Decidable (InRange actions a)
  | [], _ => .isTrue trivial
  | action :: rest, a =>
    have : Decidable (∀ a', a.act action = .ok a' → InRange rest a') :=
      match a.act action with
      | .error _ => .isTrue fun _ h' => nomatch h'
      | .ok a₁ =>
        have := decidableInRange rest a₁
        decidable_of_iff (InRange rest a₁)
          ⟨fun hr _ heq => Except.ok.inj heq ▸ hr, fun hr => hr a₁ rfl⟩
    inferInstanceAs (Decidable (_ ∧ _))

end Arena

end Strict

/-- The draft after an action. -/
def Draft.act (d : Draft) : Strict.Action → Draft
  | .insert parent name => ((d.pathOf? parent).bind fun path => d.insert path name).getD d
  | .promote handle => ((d.pathOf? handle).map fun path => d.promote path).getD d
  | .assign handle value => ((d.pathOf? handle).map fun path => d.assign path value).getD d
  | .annotate key value => { d with attributes := Entries.put key value d.attributes }
  | .close _ => d

namespace Strict.Arena

/-! ## Arenas that show drafts -/

/-- The arena has the node of every field of the draft, and no other. Children come after their
parent, and after the children that were there before. -/
structure Shows (a : Arena) (d : Draft) : Prop where
  tag : a.tag = d.tag
  attributes : a.attributes = d.attributes
  length : a.nodes.length = d.size
  sound : d.Sound
  node : ∀ path handle n, d.shown? path = some (handle, n) → a.nodes[handle]? = some n
  full : ∀ handle, handle < d.size → ∃ path n, d.shown? path = some (handle, n)
  children : ∀ path handle n, d.shown? path = some (handle, n) → ∀ e ∈ n.children,
    handle < e.2 ∧ e.2 < d.size
  sorted : ∀ path handle n, d.shown? path = some (handle, n) →
    (n.children.map Prod.snd).Pairwise (· < ·)

variable {a a' : Arena} {d d' : Draft} {path q : Path} {handle k : Nat} {n n' : Node}
  {name tag : String} {value : Option String} {action : Action} {actions : List Action}

theorem handleAt?_of_shown? (h : d.shown? path = some (handle, n)) :
    d.handleAt? path = some handle := by
  rw [Draft.handleAt?_eq, h]
  rfl

theorem shows_start (tag : String) : (start tag).Shows { tag } := by
  have hroot : ∀ path handle n, ({ tag } : Draft).shown? path = some (handle, n) →
      path = [] ∧ handle = 0 ∧ n = { name := tag, kind := .map } := by
    intro path handle n h
    cases path with
    | nil =>
      cases h
      exact ⟨rfl, rfl, rfl⟩
    | cons m r =>
      rw [Draft.shown?, Field.shown?_cons] at h
      cases h
  refine ⟨rfl, rfl, rfl, Draft.sound_start tag [], ?_, ?_, ?_, ?_⟩
  · rintro path handle n h
    obtain ⟨-, rfl, rfl⟩ := hroot _ _ _ h
    rfl
  · rintro handle hlt
    obtain rfl : handle = 0 := Nat.lt_one_iff.mp hlt
    exact ⟨[], _, rfl⟩
  · rintro path handle n h e he
    obtain ⟨-, -, rfl⟩ := hroot _ _ _ h
    cases he
  · rintro path handle n h
    obtain ⟨-, -, rfl⟩ := hroot _ _ _ h
    exact List.Pairwise.nil

namespace Shows

/-- Two fields with one handle are the same. -/
theorem path_unique (h : a.Shows d) (hp : d.shown? path = some (handle, n))
    (hq : d.shown? q = some (handle, n')) : path = q := by
  have hpath := (h.sound.pathOf?_handleAt (handleAt?_of_shown? hp)).2
  have hother := (h.sound.pathOf?_handleAt (handleAt?_of_shown? hq)).2
  exact Option.some.inj (hpath.symm.trans hother)

theorem lt_size (h : a.Shows d) (hp : d.shown? path = some (handle, n)) : handle < d.size :=
  (h.sound.pathOf?_handleAt (handleAt?_of_shown? hp)).1

/-- **The node with a handle** is that of a field, which the handle leads to. -/
theorem exists_shown? (h : a.Shows d) (hr : handle < a.nodes.length) :
    ∃ path n, d.shown? path = some (handle, n) ∧ d.pathOf? handle = some path ∧
      nodeAt handle a.nodes = .ok n := by
  obtain ⟨path, n, hp⟩ := h.full handle (h.length ▸ hr)
  exact ⟨path, n, hp, (h.sound.pathOf?_handleAt (handleAt?_of_shown? hp)).2,
    nodeAt_of_some (h.node path handle n hp)⟩

/-- Attributes are no nodes. -/
theorem withAttributes (h : a.Shows d) (attributes : Entries (Option String)) :
    ({ a with attributes } : Arena).Shows { d with attributes } :=
  ⟨h.tag, rfl, h.length, ⟨h.sound.distinct, h.sound.unique, h.sound.range, h.sound.one_le⟩, h.node,
    h.full, h.children, h.sorted⟩

/-- **One node is changed**, and keeps its children. -/
theorem of_set (h : a.Shows d) (hp : d.shown? path = some (handle, n)) (hsound : d'.Sound)
    (hsize : d'.size = d.size) (htag : d'.tag = d.tag) (hattr : d'.attributes = d.attributes)
    (hshown : ∀ q, d'.shown? q = if q = path then some (handle, n') else d.shown? q)
    (hchildren : n'.children = n.children) :
    ({ a with nodes := a.nodes.set handle n' } : Arena).Shows d' := by
  -- every node is the changed one or has been there
  have hcases : ∀ q k m, d'.shown? q = some (k, m) →
      q = path ∧ k = handle ∧ m = n' ∨ q ≠ path ∧ d.shown? q = some (k, m) := by
    intro q k m hq
    rw [hshown] at hq
    split at hq
    · next heq =>
      cases hq
      exact Or.inl ⟨heq, rfl, rfl⟩
    · next hne => exact Or.inr ⟨hne, hq⟩
  refine ⟨h.tag.trans htag.symm, h.attributes.trans hattr.symm, ?_, hsound, ?_, ?_, ?_, ?_⟩
  · rw [List.length_set, hsize]
    exact h.length
  · intro q k m hq
    rcases hcases q k m hq with ⟨-, rfl, rfl⟩ | ⟨hne, hq⟩
    · rw [List.getElem?_set_self (by rw [h.length]; exact h.lt_size hp)]
    · rw [List.getElem?_set_ne]
      · exact h.node q k m hq
      · rintro rfl
        exact hne (h.path_unique hq hp)
  · intro k hk
    obtain ⟨q, m, hq⟩ := h.full k (hsize ▸ hk)
    by_cases hne : q = path
    · subst hne
      rw [hp] at hq
      cases hq
      exact ⟨q, n', by rw [hshown, if_pos rfl]⟩
    · exact ⟨q, m, by rw [hshown, if_neg hne, hq]⟩
  · intro q k m hq
    rw [hsize]
    rcases hcases q k m hq with ⟨-, rfl, rfl⟩ | ⟨-, hq⟩
    · rw [hchildren]
      exact h.children path k n hp
    · exact h.children q k m hq
  · intro q k m hq
    rcases hcases q k m hq with ⟨-, rfl, rfl⟩ | ⟨-, hq⟩
    · rw [hchildren]
      exact h.sorted path k n hp
    · exact h.sorted q k m hq

theorem promote (h : a.Shows d) (hr : handle < a.nodes.length) :
    ∃ a', a.promote handle = .ok a' ∧ a'.Shows (d.act (.promote handle)) := by
  obtain ⟨path, n, hp, hpath, hn⟩ := h.exists_shown? hr
  refine ⟨_, by rw [Arena.promote, hn]; rfl, ?_⟩
  rw [Draft.act, hpath]
  exact h.of_set hp (h.sound.promote path).1 rfl rfl rfl (Draft.shown?_promote hp) rfl

theorem assign (h : a.Shows d) (hr : handle < a.nodes.length) (value : Option String) :
    ∃ a', a.assign handle value = .ok a' ∧ a'.Shows (d.act (.assign handle value)) := by
  obtain ⟨path, n, hp, hpath, hn⟩ := h.exists_shown? hr
  refine ⟨_, by rw [Arena.assign, hn]; rfl, ?_⟩
  rw [Draft.act, hpath]
  refine h.of_set hp (h.sound.assign path value).1 rfl rfl rfl (Draft.shown?_assign hp value) ?_
  unfold Node.assigned
  split <;> rfl

end Shows

/-! ## New nodes -/

theorem insert_of_taken (hn : a.nodes[handle]? = some n) (ht : Entries.has name n.children = true) :
    a.insert handle name = .ok (a, none) := by
  unfold insert
  rw [nodeAt_of_some hn]
  simp only [bind, Except.bind, ht, if_true]
  rfl

/-- A new node comes to the end of the list. -/
theorem insert_of_free (hn : a.nodes[handle]? = some n) (hv : n.kind = .map → n.value = none)
    (ht : Entries.has name n.children = false) :
    a.insert handle name = .ok ({ a with
      nodes := (a.nodes ++ [({ name } : Node)]).set handle (n.promoted.adopt name a.nodes.length) },
        some a.nodes.length) := by
  have hlt : handle < a.nodes.length := (List.getElem?_eq_some_iff.mp hn).1
  unfold insert
  rw [nodeAt_of_some hn]
  simp only [bind, Except.bind, ht, Bool.false_eq_true, if_false]
  cases hk : n.kind with
  | scalar =>
    have hself : (a.nodes.set handle n.promoted)[handle]? = some n.promoted :=
      List.getElem?_set_self hlt
    rw [if_pos rfl, promote, nodeAt_of_some hn]
    simp only [bind, Except.bind, pure, Except.pure, nodeAt_of_some hself, List.length_set]
    rw [List.set_append_left _ _ (by simpa using hlt), List.set_append_left _ _ hlt, List.set_set]
  | map =>
    rw [if_neg (by simp)]
    simp only [pure, Except.pure, nodeAt_of_some hn, Node.promoted_of_map hk (hv hk)]

namespace Shows

/-- A map has no text, and a text no children. -/
theorem kinds (h : d.shown? path = some (handle, n)) :
    (n.kind = .map → n.value = none) ∧ (n.kind = .scalar → n.children = []) := by
  obtain ⟨f, -, -, rfl⟩ := Draft.exists_of_shown? h
  cases f with
  | scalar m k v => exact ⟨nofun, fun _ => rfl⟩
  | map m k fs => exact ⟨fun _ => rfl, nofun⟩

/-- The children of a node with a new one among them, whose name is free. -/
theorem children_adopt (hp : d.shown? path = some (handle, n))
    (hi : d.insert path name = some d') :
    (n.promoted.adopt name d.size).children = n.children ++ [(name, d.size)] := by
  have hfree : d.isTaken path name ≠ true := by
    intro ht
    rw [Draft.insert_of_taken ht] at hi
    cases hi
  rw [Draft.isTaken_eq hp, Ne, Entries.has_iff] at hfree
  exact Entries.put_of_not_mem hfree d.size

/-- A node after a new field has come is that of its parent, the new one, or has been there. -/
theorem shown?_insert_cases {m : Node} (hp : d.shown? path = some (handle, n))
    (hi : d.insert path name = some d') (hq : d'.shown? q = some (k, m)) :
    k = handle ∧ m = n.promoted.adopt name d.size ∨ k = d.size ∧ m = { name } ∨
      q ≠ path ∧ d.shown? q = some (k, m) := by
  rw [Draft.shown?_insert hp hi] at hq
  split at hq
  · cases hq
    exact Or.inl ⟨rfl, rfl⟩
  · next hne =>
    split at hq
    · cases hq
      exact Or.inr (Or.inl ⟨rfl, rfl⟩)
    · exact Or.inr (Or.inr ⟨hne, hq⟩)

/-- Every handle up to the new one has its node. -/
theorem full_insert (h : a.Shows d) (hp : d.shown? path = some (handle, n))
    (hi : d.insert path name = some d') (hk : k < d.size + 1) :
    ∃ q m, d'.shown? q = some (k, m) := by
  have hhandle : (d.handleAt? path).isSome = true := by
    rw [handleAt?_of_shown? hp]
    rfl
  have hkeeps := h.sound.insert hhandle hi
  suffices hat : ∃ q, d'.handleAt? q = some k by
    obtain ⟨q, hq⟩ := hat
    rw [Draft.handleAt?_eq] at hq
    obtain ⟨⟨k', m⟩, hq', rfl⟩ := Option.map_eq_some_iff.mp hq
    exact ⟨q, m, hq'⟩
  rcases Nat.lt_or_eq_of_le (Nat.lt_succ_iff.mp hk) with hk | rfl
  · obtain ⟨q, m, hq⟩ := h.full k hk
    have hold := handleAt?_of_shown? hq
    exact ⟨q, (hkeeps.2.2 q (by rw [hold]; rfl)).trans hold⟩
  · exact ⟨path ++ [name], hkeeps.2.1⟩

/-- A new field has the next handle. -/
theorem of_insert (h : a.Shows d) (hp : d.shown? path = some (handle, n))
    (hi : d.insert path name = some d') :
    ({ a with
      nodes := (a.nodes ++ [({ name } : Node)]).set handle (n.promoted.adopt name d.size) } :
        Arena).Shows d' := by
  have hlt := h.lt_size hp
  have hchildren := children_adopt hp hi
  have hcases := fun q k m => shown?_insert_cases (q := q) (k := k) (m := m) hp hi
  have hfull := fun k => h.full_insert (k := k) hp hi
  have hsound : d'.Sound := by
    refine h.sound.inserted ?_ hi
    rw [handleAt?_of_shown? hp]
    rfl
  obtain ⟨-, rfl⟩ := Draft.insert_eq_some_iff.mp hi
  refine ⟨h.tag, h.attributes, ?_, hsound, ?_, hfull, ?_, ?_⟩
  · rw [List.length_set, List.length_append, h.length]
    rfl
  · intro q k m hq
    rcases hcases q k m hq with ⟨rfl, rfl⟩ | ⟨rfl, rfl⟩ | ⟨hne, hq⟩
    · exact List.getElem?_set_self (by rw [List.length_append, h.length]; omega)
    · rw [List.getElem?_set_ne (by omega), ← h.length, List.getElem?_concat_length]
    · have hk : handle ≠ k := by
        rintro rfl
        exact hne (h.path_unique hq hp)
      have hlen : k < a.nodes.length := h.length ▸ h.lt_size hq
      rw [List.getElem?_set_ne hk, List.getElem?_append_left hlen]
      exact h.node q k m hq
  · intro q k m hq e he
    show k < e.2 ∧ e.2 < d.size + 1
    rcases hcases q k m hq with ⟨rfl, rfl⟩ | ⟨rfl, rfl⟩ | ⟨-, hq⟩
    · rw [hchildren, List.mem_append, List.mem_singleton] at he
      rcases he with he | rfl
      · have := h.children path k n hp e he
        omega
      · exact ⟨hlt, Nat.lt_succ_self d.size⟩
    · cases he
    · have := h.children q k m hq e he
      omega
  · intro q k m hq
    rcases hcases q k m hq with ⟨rfl, rfl⟩ | ⟨rfl, rfl⟩ | ⟨-, hq⟩
    · rw [hchildren, List.map_append, List.pairwise_append]
      refine ⟨h.sorted path k n hp, List.pairwise_singleton _ _, fun i hi j hj => ?_⟩
      obtain ⟨e, he, rfl⟩ := List.mem_map.mp hi
      obtain rfl := List.mem_singleton.mp hj
      exact (h.children path k n hp e he).2
    · exact List.Pairwise.nil
    · exact h.sorted q k m hq

/-- **A new field**, or none where the name is taken. -/
theorem insert (h : a.Shows d) (hr : handle < a.nodes.length) (name : String) :
    ∃ a' new, a.insert handle name = .ok (a', new) ∧ a'.Shows (d.act (.insert handle name)) ∧
      (new = none → a' = a) := by
  obtain ⟨path, n, hp, hpath, -⟩ := h.exists_shown? hr
  have hn := h.node path handle n hp
  rw [Draft.act, hpath, Option.bind_some]
  cases ht : Entries.has name n.children with
  | true =>
    have hi : d.insert path name = none := Draft.insert_of_taken ((Draft.isTaken_eq hp name).trans ht)
    refine ⟨a, none, insert_of_taken hn ht, ?_, fun _ => rfl⟩
    rw [hi]
    exact h
  | false =>
    have hi := Draft.insert_of_free ((Draft.isTaken_eq hp name).trans ht)
    refine ⟨_, _, insert_of_free hn (kinds hp).1 ht, ?_, nofun⟩
    rw [hi, h.length]
    exact h.of_insert hp hi

end Shows

/-! ## Sequences of actions -/

/-- **Every action on a handle that is there** is done, and the arena goes on showing the draft. -/
theorem shows_act (h : a.Shows d) (hr : ∀ handle ∈ action.handle?, handle < a.nodes.length) :
    ∃ a', a.act action = .ok a' ∧ a'.Shows (d.act action) := by
  cases action with
  | insert parent name =>
    obtain ⟨a', new, hi, hs, -⟩ := h.insert (hr parent rfl) name
    exact ⟨a', by rw [act, hi]; rfl, hs⟩
  | promote handle => exact h.promote (hr handle rfl)
  | assign handle value => exact h.assign (hr handle rfl) value
  | annotate key value =>
    refine ⟨_, rfl, ?_⟩
    rw [Draft.act, ← h.attributes]
    exact h.withAttributes (Entries.put key value a.attributes)
  | close ordinal => exact ⟨a, rfl, h⟩

/-- **Sequences of actions** on handles that are there are done to the end. -/
theorem shows_run (h : a.Shows d) (hr : InRange actions a) :
    ∃ a', run actions a = .ok a' ∧ a'.Shows (actions.foldl Draft.act d) := by
  induction actions generalizing a d with
  | nil => exact ⟨a, rfl, h⟩
  | cons action rest ih =>
    obtain ⟨a₁, ha, hs⟩ := shows_act h hr.1
    obtain ⟨a₂, hrun, hs₂⟩ := ih hs (hr.2 a₁ ha)
    refine ⟨a₂, ?_, hs₂⟩
    rw [run, ha]
    exact hrun

end Strict.Arena

end Tabular
