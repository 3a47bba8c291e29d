import Tabular.Proofs.Strict.Folding

/-!
# Arenas as trees

An arena that shows a draft is a tree: each node but the first is the child of one other node, which
came before it. The walk and the record of the arena are those of the row that the draft is.

* `Distinct.tail`, **`preordered_walk`**, **`sorted_walk`**: the fields of a row come depth first,
  those directly below one path in the order of their handles;
* `Arena.IsTree`, **`Shows.isTree`**: the nodes of an arena;
* `Shows.holds`, `handles_perm`, **`Shows.walk`**, **`Shows.record`**, `follow_of_at?`: what the
  traversals give;
* `Sealed`, `Sealed.walk`, `Sealed.record`, `Sealed.fold`: sealed rows.
-/

namespace Tabular

/-! ## The order of fields -/

namespace Field

variable {f : Field} {fs rest : List Field} {above : Path}

theorem Distinct.tail (h : Distinct (f :: rest)) : Distinct rest := by
  refine .of_named? (List.nodup_cons.mp h.nodup).2 fun name g hg => ?_
  exact h.of_mem (List.mem_cons_of_mem f (List.mem_of_find?_eq_some hg))

/-- What is found below a path is at the path or further below. -/
theorem exists_of_mem_walk (hd : Distinct fs) {e : Path × Field} (he : e ∈ walk above fs) :
    ∃ name path g, e.1 = above ++ name :: path ∧ named? name fs = some g ∧
      (if path = [] then some g else find? path g.fields) = some e.2 := by
  obtain ⟨q, hq, hfind⟩ := (mem_walk_iff hd).mp he
  cases q with
  | nil => cases hfind
  | cons name path =>
    rw [find?_cons] at hfind
    obtain ⟨g, hg, hfound⟩ := Option.bind_eq_some_iff.mp hfind
    exact ⟨name, path, g, hq, hg, hfound⟩

/-- **Fields come depth first.** -/
theorem preordered_walk (hd : Distinct fs) (above : Path) :
    Path.Preordered ((walk above fs).map Prod.fst) := by
  induction fs using Field.induction_below generalizing above with
  | below fs ih =>
    have hbranches : (walk above fs).map Prod.fst = fs.flatMap fun f =>
        (above ++ [f.name]) :: (walk (above ++ [f.name]) f.fields).map Prod.fst := by
      rw [walk_eq_flatMap, List.map_flatMap]
      rfl
    rw [hbranches]
    refine Path.Preordered.branches hd.nodup fun f hf => ⟨ih f hf (hd.of_mem hf) _, fun q hq => ?_⟩
    obtain ⟨e, he, rfl⟩ := List.mem_map.mp hq
    obtain ⟨name, path, g, hpath, -⟩ := exists_of_mem_walk (hd.of_mem hf) he
    rw [hpath]
    exact ⟨List.prefix_append _ _, fun heq =>
      List.cons_ne_nil name path (List.append_right_eq_self.mp heq)⟩

/-- **Fields directly below one path** come in the order of their handles. -/
theorem sorted_walk (hd : Distinct fs)
    (hs : ∀ path, ((under path fs).map Field.handle).Pairwise (· < ·)) (above : Path) :
    (walk above fs).Pairwise fun e e' =>
      e.1.dropLast = e'.1.dropLast → e.2.handle < e'.2.handle := by
  induction fs using Field.induction_below generalizing above with
  | below fs ih =>
    have hbelow : ∀ f ∈ fs, (walk (above ++ [f.name]) f.fields).Pairwise fun e e' =>
        e.1.dropLast = e'.1.dropLast → e.2.handle < e'.2.handle := by
      intro f hf
      refine ih f hf (hd.of_mem hf) (fun path => ?_) _
      rw [← under_cons_of_some (named?_of_mem hd.nodup hf) path]
      exact hs (f.name :: path)
    have hsorted := hs []
    clear hs ih
    -- the fields come one by one, each with what it holds
    induction fs with
    | nil => exact List.Pairwise.nil
    | cons f rest ihRest =>
      have hnames := hd.nodup
      rw [List.map_cons, List.nodup_cons] at hnames
      have hnone : named? f.name rest = none := named?_eq_none.mpr hnames.1
      rw [under, List.map_cons, List.pairwise_cons] at hsorted
      have hothers := ihRest hd.tail (fun g hg => hbelow g (List.mem_cons_of_mem f hg)) hsorted.2
      rw [walk_cons, List.pairwise_cons, List.pairwise_append]
      refine ⟨fun e' he' heq => ?_, hbelow f List.mem_cons_self, hothers, fun e he e' he' heq => ?_⟩
      · rw [List.dropLast_concat] at heq
        rcases List.mem_append.mp he' with he' | he'
        · obtain ⟨name, path, g, hpath, -⟩ := exists_of_mem_walk (hd.of_mem List.mem_cons_self) he'
          rw [hpath, ← List.append_cons, List.dropLast_append_of_ne_nil (by simp)] at heq
          have := congrArg List.length heq
          simp at this
        · obtain ⟨name, path, g, hpath, hg, hfound⟩ := exists_of_mem_walk hd.tail he'
          rw [hpath, List.dropLast_append_of_ne_nil (by simp)] at heq
          have hp : path = [] := by
            cases path with
            | nil => rfl
            | cons m r => simp at heq
          subst hp
          rw [if_pos rfl, Option.some.injEq] at hfound
          rw [← hfound]
          exact hsorted.1 g.handle (List.mem_map_of_mem (List.mem_of_find?_eq_some hg))
      · -- the two paths go through different names
        obtain ⟨name, path, g, hpath, -⟩ := exists_of_mem_walk (hd.of_mem List.mem_cons_self) he
        obtain ⟨name', path', g', hpath', hg', -⟩ := exists_of_mem_walk hd.tail he'
        rw [hpath, hpath', ← List.append_cons, List.dropLast_append_of_ne_nil (by simp),
          List.dropLast_append_of_ne_nil (by simp), List.append_cancel_left_eq,
          List.dropLast_cons_of_ne_nil (List.cons_ne_nil name path)] at heq
        cases path' with
        | nil => cases heq
        | cons m r =>
          rw [List.dropLast_cons_of_ne_nil (List.cons_ne_nil m r)] at heq
          obtain ⟨rfl, -⟩ := List.cons.inj heq
          rw [hnone] at hg'
          cases hg'

end Field

namespace Strict

namespace Arena

/-! ## Nodes -/

/-- The nodes of an arena make a tree, with the first one as its root. -/
structure IsTree (a : Arena) : Prop where
  /-- A child comes after its parent. -/
  below : ∀ (handle : Nat) (n : Node), a.nodes[handle]? = some n →
    ∀ e ∈ n.children, handle < e.2 ∧ e.2 < a.nodes.length
  /-- The children of a node have distinct names, and come in the order of their handles. -/
  sorted : ∀ (handle : Nat) (n : Node), a.nodes[handle]? = some n →
    (Entries.keys n.children).Nodup ∧ (n.children.map Prod.snd).Pairwise (· < ·)
  /-- Every node but the root is, under its own name, the child of just one node. -/
  parent : ∀ (child : Nat) (n : Node), a.nodes[child]? = some n → child ≠ 0 →
    ∃ (handle : Nat) (p : Node), a.nodes[handle]? = some p ∧ (n.name, child) ∈ p.children ∧
      ∀ (handle' : Nat) (p' : Node) (name' : String), a.nodes[handle']? = some p' →
        (name', child) ∈ p'.children → handle' = handle ∧ name' = n.name
  scalar : ∀ (handle : Nat) (n : Node), a.nodes[handle]? = some n →
    n.kind = .scalar → n.children = []
  map : ∀ (handle : Nat) (n : Node), a.nodes[handle]? = some n → n.kind = .map → n.value = none

/-- The node that a path of names leads to from a node. -/
def follow (a : Arena) : Path → Nat → Option Nat
  | [], handle => some handle
  | name :: rest, handle =>
    a.nodes[handle]?.bind fun n => (Entries.get? name n.children).bind (a.follow rest)

variable {a : Arena} {d : Draft} {path : Path} {handle child : Nat} {n p : Node} {f : Field}

namespace Shows

/-- Every node is that of the row element or of a field. -/
theorem exists_of_node (h : a.Shows d) (hn : a.nodes[handle]? = some n) :
    ∃ path f, d.root.at? path = some f ∧ f.handle = handle ∧ f.node = n := by
  have hlt : handle < d.size := h.length ▸ (List.getElem?_eq_some_iff.mp hn).1
  obtain ⟨path, m, hp⟩ := h.full handle hlt
  obtain rfl : m = n := Option.some.inj ((h.node path handle m hp).symm.trans hn)
  exact ⟨path, Draft.exists_of_shown? hp⟩

theorem nodup_names (h : a.Shows d) (hf : d.root.at? path = some f) :
    (f.fields.map Field.name).Nodup := by
  rw [← Draft.under_of_at? hf]
  exact h.sound.distinct path

theorem shown?_of_at? (hf : d.root.at? path = some f) : d.shown? path = some (f.handle, f.node) := by
  rw [Draft.shown?, Field.shown?, hf]
  rfl

/-- What a walk meets are the fields at the paths below the row element. -/
theorem mem_walk_iff (h : a.Shows d) :
    (path, f) ∈ Field.walk [] d.fields ↔ path ≠ [] ∧ d.root.at? path = some f := by
  rw [Field.mem_walk_iff h.sound.distinct, Field.at?]
  constructor
  · rintro ⟨q, hq, hf⟩
    obtain rfl : path = q := hq
    have hp : path ≠ [] := by
      rintro rfl
      cases hf
    exact ⟨hp, (if_neg hp).trans hf⟩
  · rintro ⟨hp, hf⟩
    rw [if_neg hp] at hf
    exact ⟨path, rfl, hf⟩

/-- A child of a node is a field directly below that of the node. -/
theorem exists_of_child (h : a.Shows d) (hn : a.nodes[handle]? = some p) {name : String}
    (hc : (name, child) ∈ p.children) : ∃ path f g, d.root.at? path = some f ∧ f.handle = handle ∧
      f.node = p ∧ d.root.at? (path ++ [name]) = some g ∧ g.handle = child ∧ g.name = name := by
  obtain ⟨path, f, hf, hhandle, rfl⟩ := h.exists_of_node hn
  obtain ⟨g, hg, heq⟩ := List.mem_map.mp hc
  obtain ⟨rfl, rfl⟩ := Prod.mk.inj heq
  refine ⟨path, f, g, hf, hhandle, rfl, ?_, rfl, rfl⟩
  rw [Field.at?_concat, hf, Option.bind_some]
  exact Field.named?_of_mem (h.nodup_names hf) hg

/-- **An arena that shows a draft is a tree.** -/
theorem isTree (h : a.Shows d) : a.IsTree := by
  refine ⟨fun handle n hn => ?_, fun handle n hn => ?_, fun child n hn hne => ?_,
    fun handle n hn hk => ?_, fun handle n hn hk => ?_⟩
  · obtain ⟨path, f, hf, rfl, rfl⟩ := h.exists_of_node hn
    rw [h.length]
    exact h.children path f.handle f.node (shown?_of_at? hf)
  · obtain ⟨path, f, hf, rfl, rfl⟩ := h.exists_of_node hn
    rw [Field.keys_children]
    exact ⟨h.nodup_names hf, h.sorted path f.handle f.node (shown?_of_at? hf)⟩
  · obtain ⟨path, f, hf, rfl, rfl⟩ := h.exists_of_node hn
    rcases List.eq_nil_or_concat path with rfl | ⟨above, name, rfl⟩
    · cases hf
      exact absurd rfl hne
    · rw [List.concat_eq_append, Field.at?_concat] at hf
      obtain ⟨g, hg, hnamed⟩ := Option.bind_eq_some_iff.mp hf
      have hname := Field.name_of_named? hnamed
      refine ⟨g.handle, g.node, h.node above _ _ (shown?_of_at? hg), ?_, ?_⟩
      · exact List.mem_map.mpr ⟨f, List.mem_of_find?_eq_some hnamed, rfl⟩
      · intro handle' p' name' hp' hc'
        obtain ⟨path', f', g', hf', rfl, -, hg', hhandle, -⟩ := h.exists_of_child hp' hc'
        -- the child has one path, so that its parents have one path
        have hself : d.shown? (above ++ [name]) = some (f.handle, f.node) :=
          shown?_of_at? (by rw [Field.at?_concat, hg, Option.bind_some, hnamed])
        have hother := shown?_of_at? hg'
        rw [hhandle] at hother
        obtain ⟨rfl, hnames⟩ := List.append_inj' (h.path_unique hother hself) rfl
        obtain rfl := Option.some.inj (hf'.symm.trans hg)
        exact ⟨rfl, (List.singleton_inj.mp hnames).trans hname.symm⟩
  · obtain ⟨path, f, hf, rfl, rfl⟩ := h.exists_of_node hn
    exact (kinds (shown?_of_at? hf)).2 hk
  · obtain ⟨path, f, hf, rfl, rfl⟩ := h.exists_of_node hn
    exact (kinds (shown?_of_at? hf)).1 hk

/-! ## Traversals -/

/-- The nodes of the arena are those of all fields. -/
theorem holds (h : a.Shows d) : Holds a.nodes d.fields := by
  intro f hf
  obtain ⟨e, he, rfl⟩ := List.mem_map.mp hf
  exact h.node e.1 _ _ (shown?_of_at? (h.mem_walk_iff.mp he).2)

/-- **The fields of a row have all handles**, each once, but that of the row element. -/
theorem handles_perm (h : a.Shows d) :
    ((Field.walk [] d.fields).map fun e => e.2.handle).Perm
      (List.range' 1 (a.nodes.length - 1)) := by
  have hindex : ((Field.walk [] d.fields).map fun e => e.2.handle) =
      (Field.index [] d.fields).map Prod.snd := by
    rw [Field.index, List.map_map]
    rfl
  rw [hindex, h.length, List.perm_ext_iff_of_nodup h.sound.unique List.nodup_range']
  intro handle
  rw [List.mem_range'_1, List.mem_map]
  constructor
  · rintro ⟨e, he, rfl⟩
    have := h.sound.range e he
    omega
  · rintro ⟨hpos, hlt⟩
    obtain ⟨path, n, hp⟩ := h.full handle (by omega)
    have hk := h.sound.handleAt?_eq_some_iff.mp (handleAt?_of_shown? hp)
    rcases hk with ⟨-, rfl⟩ | hmem
    · exact absurd hpos (Nat.not_succ_le_zero 0)
    · exact ⟨(path, handle), hmem, rfl⟩

theorem length_all (h : a.Shows d) : (Field.all d.fields).length + 1 = a.nodes.length := by
  have hlen := h.handles_perm.length_eq
  have hpos := h.sound.one_le
  rw [List.length_map, List.length_range'] at hlen
  rw [Field.all, List.length_map, hlen, h.length]
  omega

theorem root_node (h : a.Shows d) : a.nodes[0]? = some d.root.node :=
  h.node [] 0 d.root.node rfl

/-- **The walk over the arena** ends, and is that over the row. -/
theorem walk (h : a.Shows d) :
    Strict.walk a.nodes a.nodes.length = .ok ((Field.walk [] d.fields).map visit) := by
  have hstack : d.root.node.below [] = rootsOf [] d.fields ++ [] := by
    rw [below_node, List.append_nil]
    rfl
  rw [walk_of_root h.root_node, hstack, ← h.length_all, walkFrom_fields h.holds, walkFrom]
  exact congrArg Except.ok (List.append_nil _)

/-- **The record of the arena** is that of the row. -/
theorem record (h : a.Shows d) (ordinal : Int) :
    Strict.record a.nodes a.attributes a.nodes.length = .ok (d.toRow ordinal).record := by
  have hle : mapsIn d.fields + 1 ≤ a.nodes.length := by
    rw [← h.length_all]
    exact Nat.succ_le_succ List.countP_le_length
  obtain ⟨steps, hsteps⟩ := Nat.exists_eq_add_of_le hle
  rw [Strict.record, hsteps, fillFrom_fields h.sound.distinct h.holds h.root_node rfl, h.attributes]
  cases steps <;> rfl

/-- A path of names leads to the field there. -/
theorem follow_of_at? (h : a.Shows d) (hf : d.root.at? path = some f) :
    a.follow path 0 = some f.handle := by
  have hfrom : ∀ (path : Path) (g : Field), a.nodes[g.handle]? = some g.node →
      Holds a.nodes g.fields → g.at? path = some f → a.follow path g.handle = some f.handle := by
    intro path
    induction path with
    | nil =>
      intro g _ _ hg
      rw [← Option.some.inj ((Field.at?_nil g).symm.trans hg)]
      rfl
    | cons name rest ih =>
      intro g hnode hbelow hg
      rw [Field.at?_cons] at hg
      obtain ⟨g', hname, hg'⟩ := Option.bind_eq_some_iff.mp hg
      obtain ⟨hnode', hbelow'⟩ := hbelow.of_mem (List.mem_of_find?_eq_some hname)
      have hchild : Entries.get? name g.node.children = some g'.handle := by
        rw [Field.get?_children, hname]
        rfl
      rw [follow, hnode, Option.bind_some, hchild, Option.bind_some]
      exact ih g' hnode' hbelow' hg'
  exact hfrom path d.root h.root_node h.holds hf

end Shows

end Arena

/-! ## Sealed rows -/

/-- A sealed row: attributes of its own, and the first so many nodes of an arena, which are not
copied. -/
structure Sealed where
  tag : String
  ordinal : Int
  attributes : Entries (Option String)
  /-- How many nodes the row has. -/
  size : Nat
  deriving Repr, DecidableEq

/-- The row that the arena is now. -/
def Arena.sealed (ordinal : Int) (a : Arena) : Sealed :=
  ⟨a.tag, ordinal, a.attributes, a.nodes.length⟩

namespace Sealed

/-- The nodes of a sealed row, as they are now. -/
def nodes (a : Arena) (s : Sealed) : List Node :=
  a.nodes.take s.size

/-- The walk over a sealed row. -/
def walk (a : Arena) (s : Sealed) : Except Breach (List (Path × Nat × Node)) :=
  Strict.walk (s.nodes a) a.nodes.length

/-- The record of a sealed row. -/
def record (a : Arena) (s : Sealed) : Except Breach (Entries Value) :=
  Strict.record (s.nodes a) s.attributes a.nodes.length

/-- A sealed row as the first one of a schema for every column. -/
def fold (a : Arena) (s : Sealed) : Except Breach Folding :=
  foldRow (s.nodes a) s.attributes s.ordinal a.nodes.length

theorem nodes_sealed (ordinal : Int) (a : Arena) : (a.sealed ordinal).nodes a = a.nodes :=
  List.take_length

end Sealed

end Strict

end Tabular
