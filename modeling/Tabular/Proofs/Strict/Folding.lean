import Tabular.Proofs.Strict.Registered
import Tabular.Proofs.Strict.Traversal

/-!
# Rows folded from their arenas

A running schema takes a row by a loop over a stack of handles, as its record is made, and registers
every path that it meets. In a schema for every column, before the first row, no path of a row is
known, so that the loop goes as that for the record and no kind is in conflict.

* `Strict.Folding`, `sightWith`, `foldFrom`, `foldRow`: the loop over the arena, with the tables of
  the schema;
* `Open`, `kind?_register_of_ne`, **`sightWith_eq`**: paths that are not registered below those on
  the stack, and one round of the loop there;
* **`foldFrom_eq`**, **`foldRow_eq`**: the whole loop gives what the loop for the record gives, and no
  conflict.
-/

namespace Tabular

namespace Strict

/-- What the fold of a row has come to. -/
structure Folding where
  tables : Tables
  record : Entries Value
  conflicts : List Conflict := []

/-- The children of a node are registered below a path and written into the map there; the maps
among them come onto the stack. A child of another kind than its path is known with is written as
null and reported. -/
def sightWith (nodes : List Node) (ordinal : Int) (target : Path) : List (String × Nat) →
    Folding × List (Nat × Path) → Except Breach (Folding × List (Nat × Path))
  | [], state => .ok state
  | (name, handle) :: rest, (s, stack) => do
    let n ← nodeAt handle nodes
    let path := target ++ [name]
    let r := s.tables.register target name n.kind
    if r.2 then
      let tables := r.1.see path
      if n.kind = .map then
        sightWith nodes ordinal target rest
          (⟨tables, Entries.modifyAt target (Entries.put name (.map [])) s.record, s.conflicts⟩,
            (handle, path) :: stack)
      else
        sightWith nodes ordinal target rest
          (⟨tables, Entries.modifyAt target (Entries.put name (.ofText? n.value)) s.record,
            s.conflicts⟩, stack)
    else
      let known := (r.1.kind? path).getD n.kind
      sightWith nodes ordinal target rest
        (⟨r.1, Entries.modifyAt target (Entries.put name .null) s.record,
          s.conflicts ++ [⟨path, known, n.kind, ordinal⟩]⟩, stack)

/-- The fold with what is below the handles on a stack, each below its path, in at most so many
steps. -/
def foldFrom (nodes : List Node) (ordinal : Int) : Nat → List (Nat × Path) → Folding →
    Except Breach Folding
  | _, [], s => .ok s
  | 0, _ :: _, _ => .error .endless
  | steps + 1, (handle, target) :: stack, s => do
    let n ← nodeAt handle nodes
    let (s, stack) ← sightWith nodes ordinal target n.children (s, stack)
    foldFrom nodes ordinal steps stack s

/-- The tables of a schema for every column, with the attributes of its first row. -/
def attributed (attributes : Entries (Option String)) : Tables :=
  ((Entries.keys attributes).foldl (Tables.touch attributesPath)
    (Tables.register [] attributesName .map {}).1).see attributesPath

/-- The first row of a schema for every column. -/
def foldRow (nodes : List Node) (attributes : Entries (Option String)) (ordinal : Int)
    (steps : Nat) : Except Breach Folding :=
  foldFrom nodes ordinal steps [(0, [])]
    { tables := attributed attributes
      record := [(attributesName, .map (attributeEntries attributes))] }

variable {nodes : List Node} {t : Tables} {target path q : Path} {name : String} {kind : Kind}
  {children : List (String × Nat)} {stack : List (Nat × Path)} {s : Folding} {ordinal : Int}

/-! ## One round of the loop -/

theorem kind?_register_of_ne (h : q ≠ target ++ [name]) (kind : Kind) (t : Tables) :
    (t.register target name kind).1.kind? q = t.kind? q := by
  unfold Tables.register
  split
  · rfl
  · show List.lookup q (_ :: t.registered) = _
    rw [List.lookup_cons, beq_false_of_ne h]
    rfl

theorem kind?_see (t : Tables) (q : Path) : (t.see path).kind? q = t.kind? q := rfl

/-- **The children of a node whose paths are new** are written as in the record, without a
conflict. -/
theorem sightWith_eq (nodes : List Node) (ordinal : Int) (target : Path) (stack : List (Nat × Path))
    (hn : (Entries.keys children).Nodup)
    (hnew : ∀ name ∈ Entries.keys children, s.tables.kind? (target ++ [name]) = none) :
    ∃ t, sightWith nodes ordinal target children (s, stack) =
        (fillWith nodes target children (s.record, stack)).map
          (fun r => (⟨t, r.1, s.conflicts⟩, r.2)) ∧
      ∀ q, (∀ name ∈ Entries.keys children, q ≠ target ++ [name]) →
        t.kind? q = s.tables.kind? q := by
  induction children generalizing s stack with
  | nil => exact ⟨s.tables, rfl, fun _ _ => rfl⟩
  | cons e rest ih =>
    obtain ⟨name, handle⟩ := e
    rw [Entries.keys, List.map_cons, List.nodup_cons] at hn
    have hself := hnew name List.mem_cons_self
    cases hnode : nodeAt handle nodes with
    | error breach =>
      refine ⟨s.tables, ?_, fun _ _ => rfl⟩
      rw [sightWith, fillWith, hnode]
      rfl
    | ok n =>
      have hagrees := (Tables.register_of_none hself n.kind).1
      have hothers : ∀ q, q ≠ target ++ [name] →
          ((s.tables.register target name n.kind).1.see (target ++ [name])).kind? q =
            s.tables.kind? q := fun q hq => (kind?_see _ q).trans (kind?_register_of_ne hq n.kind _)
      have hfree : ∀ name' ∈ Entries.keys rest,
          ((s.tables.register target name n.kind).1.see (target ++ [name])).kind?
            (target ++ [name']) = none := by
        intro name' hmem
        rw [hothers]
        · exact hnew name' (List.mem_cons_of_mem name hmem)
        · intro heq
          have hname : name' = name := by simpa using heq
          exact hn.1 (hname ▸ hmem)
      have hkept : ∀ {t : Tables}, (∀ q, (∀ name' ∈ Entries.keys rest, q ≠ target ++ [name']) →
          t.kind? q = ((s.tables.register target name n.kind).1.see (target ++ [name])).kind? q) →
            ∀ q, (∀ name' ∈ Entries.keys ((name, handle) :: rest), q ≠ target ++ [name']) →
              t.kind? q = s.tables.kind? q := by
        intro t ht q hq
        rw [ht q fun name' hmem => hq name' (List.mem_cons_of_mem name hmem),
          hothers q (hq name List.mem_cons_self)]
      rw [sightWith, fillWith, hnode]
      simp only [bind, Except.bind, hagrees, if_true]
      split
      · obtain ⟨t, heq, ht⟩ := ih (s := ⟨_, _, s.conflicts⟩) _ hn.2 hfree
        exact ⟨t, heq, hkept ht⟩
      · obtain ⟨t, heq, ht⟩ := ih (s := ⟨_, _, s.conflicts⟩) _ hn.2 hfree
        exact ⟨t, heq, hkept ht⟩

/-- What comes onto the stack are children of the node, each below its path. -/
theorem fillWith_stack {out out' : Entries Value} {stack' : List (Nat × Path)}
    (h : fillWith nodes target children (out, stack) = .ok (out', stack')) :
    ∃ found, stack' = found ++ stack ∧
      found.Sublist (children.map fun e => (e.2, target ++ [e.1])).reverse := by
  induction children generalizing out stack with
  | nil =>
    cases h
    exact ⟨[], rfl, List.Sublist.refl []⟩
  | cons e rest ih =>
    obtain ⟨name, handle⟩ := e
    obtain ⟨n, out₁, -, hrest⟩ := exists_of_fillWith h
    obtain ⟨found, rfl, hsub⟩ := ih hrest
    refine ⟨found ++ if n.kind = .map then [(handle, target ++ [name])] else [], by simp, ?_⟩
    rw [List.map_cons, List.reverse_cons]
    apply hsub.append
    split
    · exact List.Sublist.refl _
    · exact List.nil_sublist _

/-! ## The loop -/

/-- Below the paths on a stack no path is registered, and none of them leads to another. -/
structure Open (nodes : List Node) (t : Tables) (stack : List (Nat × Path)) : Prop where
  new : ∀ e ∈ stack, ∀ n, nodes[e.1]? = some n → ∀ name ∈ Entries.keys n.children, ∀ path,
    t.kind? (e.2 ++ name :: path) = none
  apart : stack.Pairwise fun e e' => ¬ e.2 <+: e'.2 ∧ ¬ e'.2 <+: e.2

/-- **A round of the loop** leaves the paths on the stack open. -/
theorem Open.next {t' : Tables} {handle : Nat} {n : Node} {found : List (Nat × Path)}
    (h : Open nodes t ((handle, target) :: stack)) (hn : nodes[handle]? = some n)
    (hnames : (Entries.keys n.children).Nodup)
    (ht : ∀ q, (∀ name ∈ Entries.keys n.children, q ≠ target ++ [name]) → t'.kind? q = t.kind? q)
    (hf : found.Sublist (n.children.map fun e => (e.2, target ++ [e.1])).reverse) :
    Open nodes t' (found ++ stack) := by
  obtain ⟨hapart, hrest⟩ := List.pairwise_cons.mp h.apart
  have hfound : ∀ e ∈ found, ∃ c ∈ n.children, e = (c.2, target ++ [c.1]) := by
    intro e he
    obtain ⟨c, hc, rfl⟩ := List.mem_map.mp (List.mem_reverse.mp (hf.subset he))
    exact ⟨c, hc, rfl⟩
  -- a path on the stack does not lead to a child of the node
  have hoff : ∀ e ∈ stack, ∀ name, ¬ e.2 <+: target ++ [name] := by
    intro e he name hpre
    rcases List.prefix_concat_iff.mp hpre with heq | hpre
    · exact (hapart e he).1 (heq ▸ List.prefix_append target [name])
    · exact (hapart e he).2 hpre
  refine ⟨fun e he n' hn' name hname path => ?_, ?_⟩
  · rcases List.mem_append.mp he with he | he
    · obtain ⟨c, hc, rfl⟩ := hfound e he
      rw [ht, ← List.append_cons]
      · exact h.new _ List.mem_cons_self n hn c.1 (List.mem_map_of_mem hc) (name :: path)
      · intro name' _ heq
        have hlen := congrArg List.length heq
        simp at hlen
    · rw [ht]
      · exact h.new e (List.mem_cons_of_mem _ he) n' hn' name hname path
      · exact fun name' _ heq => hoff e he name' (heq ▸ List.prefix_append e.2 (name :: path))
  · refine List.pairwise_append.mpr ⟨?_, hrest, fun e he e' he' => ?_⟩
    · have hlast : ∀ c c' : String × Nat, c.1 ≠ c'.1 → ¬ target ++ [c.1] <+: target ++ [c'.1] := by
        intro c c' hne hpre
        exact hne (by simpa using hpre.eq_of_length (by simp))
      refine List.Pairwise.sublist hf (List.pairwise_reverse.mpr ?_)
      exact List.pairwise_map.mpr ((List.pairwise_map.mp hnames).imp fun {c c'} hne =>
        ⟨hlast c' c hne.symm, hlast c c' hne⟩)
    · obtain ⟨c, -, rfl⟩ := hfound e he
      exact ⟨fun hpre => (hapart e' he').1 ((List.prefix_append target [c.1]).trans hpre),
        hoff e' he' c.1⟩

/-- **The loop goes as that for the record**, without a conflict. -/
theorem foldFrom_eq (hnames : ∀ (handle : Nat) (n : Node), nodes[handle]? = some n →
    (Entries.keys n.children).Nodup) (steps : Nat) (h : Open nodes s.tables stack) :
    (foldFrom nodes ordinal steps stack s).map (fun s => (s.record, s.conflicts)) =
      (fillFrom nodes steps stack s.record).map (·, s.conflicts) := by
  induction steps generalizing stack s with
  | zero =>
    cases stack with
    | nil => rfl
    | cons e stack => rfl
  | succ steps ih =>
    cases stack with
    | nil => rfl
    | cons e stack =>
      obtain ⟨handle, target⟩ := e
      rw [foldFrom, fillFrom]
      cases hnode : nodes[handle]? with
      | none =>
        rw [nodeAt_of_none hnode]
        rfl
      | some n =>
        rw [nodeAt_of_some hnode]
        simp only [bind, Except.bind]
        obtain ⟨t, heq, ht⟩ := sightWith_eq nodes ordinal target stack (hnames handle n hnode)
          fun name hmem => h.new _ List.mem_cons_self n hnode name hmem []
        rw [heq]
        cases hfill : fillWith nodes target n.children (s.record, stack) with
        | error breach => rfl
        | ok r =>
          obtain ⟨found, hstack, hsub⟩ := fillWith_stack hfill
          have hopen := h.next hnode (hnames handle n hnode) ht hsub
          rw [← hstack] at hopen
          exact ih (s := ⟨t, r.1, s.conflicts⟩) hopen

/-! ## The first row of a schema -/

theorem kind?_touchAll (keys : List String) (hq : q.head? ≠ some attributesName) (t : Tables) :
    (keys.foldl (Tables.touch attributesPath) t).kind? q = t.kind? q := by
  induction keys generalizing t with
  | nil => rfl
  | cons key rest ih =>
    rw [List.foldl_cons, ih, Tables.touch, kind?_see, kind?_register_of_ne]
    rintro rfl
    exact hq rfl

/-- Away from the attributes no path is registered. -/
theorem kind?_attributed (attributes : Entries (Option String))
    (hq : q.head? ≠ some attributesName) : (attributed attributes).kind? q = none := by
  rw [attributed, kind?_see, kind?_touchAll _ hq, kind?_register_of_ne]
  · rfl
  · rintro rfl
    exact hq rfl

/-- **The first row of a schema for every column** gives its record, without a conflict, unless a
field has the name of the attributes. -/
theorem foldRow_eq {root : Node} (hnames : ∀ (handle : Nat) (n : Node),
    nodes[handle]? = some n → (Entries.keys n.children).Nodup) (hroot : nodes[0]? = some root)
    (hfree : attributesName ∉ Entries.keys root.children) (attributes : Entries (Option String))
    (ordinal : Int) (steps : Nat) :
    (foldRow nodes attributes ordinal steps).map (fun s => (s.record, s.conflicts)) =
      (record nodes attributes steps).map (·, []) := by
  refine foldFrom_eq hnames steps ⟨fun e he n hn name hname path => ?_, List.pairwise_singleton _ _⟩
  obtain rfl := List.mem_singleton.mp he
  obtain rfl := Option.some.inj (hroot.symm.trans hn)
  refine kind?_attributed attributes ?_
  show some name ≠ some attributesName
  rintro ⟨⟩
  exact hfree hname

end Strict

end Tabular
