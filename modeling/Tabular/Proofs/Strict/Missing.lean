import Tabular.Proofs.Strict.Trees

/-!
# Rows with missing nodes

A sealed row knows the nodes that the arena had then. A loop over them goes as that over all nodes
of the arena, or it breaks off at a node that came later; and a loop that comes to its end has been
at every node that a path leads to, so that it breaks off as soon as there is a later one.

* `bind_of_missing`, **`walkFrom_take`**, `fillWith_take`, **`fillFrom_take`**: loops over the first
  nodes of a list;
* **`lt_of_walkFrom`**, **`lt_of_fillFrom`**: a loop that ends has been everywhere;
* `follow_take`: paths to the first node that is missing;
* `Sealed.Gives`, `gives_of_size`, **`gives_of_lt`**: what a sealed row gives of an arena later on.
-/

namespace Tabular.Strict

variable {nodes : List Node} {target path : Path} {handle : Nat} {n : Node} {d : Draft}

/-! ## The first nodes of a list -/

theorem nodeAt_take (k handle : Nat) (nodes : List Node) :
    nodeAt handle (nodes.take k) = nodeAt handle nodes ∨
      ∃ h : Nat, nodeAt handle (nodes.take k) = .error (.noField h) := by
  by_cases hlt : handle < k
  · left
    rw [nodeAt, nodeAt, List.getElem?_take_of_lt hlt]
  · right
    exact ⟨handle, nodeAt_of_none (List.getElem?_take_eq_none (Nat.le_of_not_lt hlt))⟩

/-- Steps one after the other, each of which goes as before or breaks off at a missing node. -/
theorem bind_of_missing {α β : Type} {x x' : Except Breach α} {f f' : α → Except Breach β}
    (h : x' = x ∨ ∃ handle : Nat, x' = .error (.noField handle))
    (hf : ∀ v, f' v = f v ∨ ∃ handle : Nat, f' v = .error (.noField handle)) :
    (x' >>= f') = (x >>= f) ∨ ∃ handle : Nat, (x' >>= f') = .error (.noField handle) := by
  rcases h with rfl | ⟨handle, rfl⟩
  · cases x' with
    | error breach => exact Or.inl rfl
    | ok v => exact hf v
  · exact Or.inr ⟨handle, rfl⟩

/-- **A walk over the first nodes** is that over all nodes, or it breaks off at a missing one. -/
theorem walkFrom_take (k : Nat) (nodes : List Node) (steps : Nat) (stack : List (Path × Nat)) :
    walkFrom (nodes.take k) steps stack = walkFrom nodes steps stack ∨
      ∃ handle : Nat, walkFrom (nodes.take k) steps stack = .error (.noField handle) := by
  induction steps generalizing stack with
  | zero => exact Or.inl (by cases stack <;> rfl)
  | succ steps ih =>
    cases stack with
    | nil => exact Or.inl rfl
    | cons e stack =>
      obtain ⟨path, handle⟩ := e
      rw [walkFrom, walkFrom]
      refine bind_of_missing (nodeAt_take k handle nodes) fun n => ?_
      exact bind_of_missing (ih _) fun later => Or.inl rfl

theorem fillWith_take (k : Nat) (nodes : List Node) (target : Path)
    (children : List (String × Nat)) (state : Entries Value × List (Nat × Path)) :
    fillWith (nodes.take k) target children state = fillWith nodes target children state ∨
      ∃ handle : Nat, fillWith (nodes.take k) target children state = .error (.noField handle) := by
  induction children generalizing state with
  | nil => exact Or.inl rfl
  | cons e rest ih =>
    obtain ⟨name, handle⟩ := e
    obtain ⟨out, stack⟩ := state
    rw [fillWith, fillWith]
    refine bind_of_missing (nodeAt_take k handle nodes) fun n => ?_
    split
    · exact ih _
    · exact ih _

/-- **A record of the first nodes** is that of all nodes, or it breaks off at a missing one. -/
theorem fillFrom_take (k : Nat) (nodes : List Node) (steps : Nat) (stack : List (Nat × Path))
    (out : Entries Value) : fillFrom (nodes.take k) steps stack out = fillFrom nodes steps stack out ∨
      ∃ handle : Nat, fillFrom (nodes.take k) steps stack out = .error (.noField handle) := by
  induction steps generalizing stack out with
  | zero => exact Or.inl (by cases stack <;> rfl)
  | succ steps ih =>
    cases stack with
    | nil => exact Or.inl rfl
    | cons e stack =>
      obtain ⟨handle, target⟩ := e
      rw [fillFrom, fillFrom]
      refine bind_of_missing (nodeAt_take k handle nodes) fun n => ?_
      exact bind_of_missing (fillWith_take k nodes target n.children (out, stack)) fun r =>
        ih r.2 r.1

/-! ## Loops that come to their end -/

namespace Arena

variable {a : Arena}

theorem follow_cons_eq_some {name : String} {rest : Path} {from' : Nat} :
    a.follow (name :: rest) from' = some handle ↔ ∃ n child, a.nodes[from']? = some n ∧
      Entries.get? name n.children = some child ∧ a.follow rest child = some handle := by
  rw [follow, Option.bind_eq_some_iff]
  simp only [Option.bind_eq_some_iff]
  constructor
  · rintro ⟨n, hn, child, hc, hrest⟩
    exact ⟨n, child, hn, hc, hrest⟩
  · rintro ⟨n, child, hn, hc, hrest⟩
    exact ⟨n, hn, child, hc, hrest⟩

/-- **A walk that ends** has been at every node that a path leads to. -/
theorem lt_of_walkFrom (hk : ∀ (handle : Nat) (n : Node), a.nodes[handle]? = some n →
      n.kind = .scalar → n.children = [])
    {steps : Nat} {stack : List (Path × Nat)} {visits : List (Path × Nat × Node)}
    (h : walkFrom a.nodes steps stack = .ok visits) {e : Path × Nat} (he : e ∈ stack)
    (hf : a.follow path e.2 = some handle) : handle < a.nodes.length := by
  induction steps generalizing stack visits path e with
  | zero =>
    cases stack with
    | nil => cases he
    | cons e' stack => cases h
  | succ steps ih =>
    cases stack with
    | nil => cases he
    | cons e' stack =>
      obtain ⟨p, first⟩ := e'
      obtain ⟨n, later, hn, hlater⟩ := exists_of_walkFrom h
      rcases List.mem_cons.mp he with rfl | he
      · cases path with
        | nil =>
          cases hf
          exact (List.getElem?_eq_some_iff.mp hn).1
        | cons name rest =>
          obtain ⟨m, child, hm, hc, hrest⟩ := follow_cons_eq_some.mp hf
          obtain rfl := Option.some.inj (hn.symm.trans hm)
          have hmem := Entries.mem_of_get? hc
          have hmap : n.kind = .map := by
            cases hkind : n.kind with
            | scalar =>
              rw [hk _ n hn hkind] at hmem
              cases hmem
            | map => rfl
          refine ih hlater (List.mem_append_left _ ?_) hrest (e := (p ++ [name], child))
          rw [if_pos hmap]
          exact List.mem_map_of_mem hmem
      · exact ih hlater (List.mem_append_right _ he) hf

/-- After a round of the loop for the record every child has a node, and the maps among them are on
the stack. -/
theorem mem_of_fillWith {children : List (String × Nat)} {out out' : Entries Value}
    {stack stack' : List (Nat × Path)}
    (h : fillWith nodes target children (out, stack) = .ok (out', stack')) :
    (∀ e ∈ stack, e ∈ stack') ∧ ∀ c ∈ children, ∃ n, nodes[c.2]? = some n ∧
      (n.kind = .map → (c.2, target ++ [c.1]) ∈ stack') := by
  induction children generalizing out stack with
  | nil =>
    cases h
    exact ⟨fun e he => he, nofun⟩
  | cons c rest ih =>
    obtain ⟨name, first⟩ := c
    obtain ⟨n, out₁, hn, hround⟩ := exists_of_fillWith h
    obtain ⟨hstack, hrest⟩ := ih hround
    refine ⟨fun e he => hstack e (List.mem_append_right _ he), fun c hc => ?_⟩
    rcases List.mem_cons.mp hc with rfl | hc
    · refine ⟨n, hn, fun hmap => hstack _ (List.mem_append_left _ ?_)⟩
      rw [if_pos hmap]
      exact List.mem_singleton_self _
    · exact hrest c hc

/-- **A record that is finished** has been at every node that a path leads to. -/
theorem lt_of_fillFrom (hk : ∀ (handle : Nat) (n : Node), a.nodes[handle]? = some n →
      n.kind = .scalar → n.children = [])
    {steps : Nat} {stack : List (Nat × Path)} {out out' : Entries Value}
    (h : fillFrom a.nodes steps stack out = .ok out') {e : Nat × Path} (he : e ∈ stack)
    (hf : a.follow path e.1 = some handle) : handle < a.nodes.length := by
  induction steps generalizing stack out path e with
  | zero =>
    cases stack with
    | nil => cases he
    | cons e' stack => cases h
  | succ steps ih =>
    cases stack with
    | nil => cases he
    | cons e' stack =>
      obtain ⟨first, target⟩ := e'
      obtain ⟨n, later, stack', hn, hround, hlater⟩ := exists_of_fillFrom h
      obtain ⟨hstack, hchildren⟩ := mem_of_fillWith hround
      rcases List.mem_cons.mp he with rfl | he
      · cases path with
        | nil =>
          cases hf
          exact (List.getElem?_eq_some_iff.mp hn).1
        | cons name rest =>
          obtain ⟨m, child, hm, hc, hrest⟩ := follow_cons_eq_some.mp hf
          obtain rfl := Option.some.inj (hn.symm.trans hm)
          obtain ⟨c, hnc, honto⟩ := hchildren _ (Entries.mem_of_get? hc)
          cases hkind : c.kind with
          | map => exact ih hlater (honto hkind) hrest
          | scalar =>
            -- the path ends at a text
            cases rest with
            | nil =>
              cases hrest
              exact (List.getElem?_eq_some_iff.mp hnc).1
            | cons name' rest' =>
              obtain ⟨c', child', hnc', hc', -⟩ := follow_cons_eq_some.mp hrest
              obtain rfl := Option.some.inj (hnc.symm.trans hnc')
              rw [hk _ c hnc hkind] at hc'
              cases hc'
      · exact ih hlater (hstack e he) hf

/-! ## Paths to later nodes -/

/-- The nodes on the way to another one come before it, so that they are not missing if it is the
first one that is. -/
theorem follow_take (ht : a.IsTree) {k first : Nat} (hf : a.follow path first = some handle)
    (hle : handle ≤ k) :
    ({ a with nodes := a.nodes.take k } : Arena).follow path first = some handle ∧ first ≤ handle := by
  induction path generalizing first with
  | nil =>
    cases hf
    exact ⟨rfl, Nat.le_refl _⟩
  | cons name rest ih =>
    obtain ⟨n, child, hn, hc, hrest⟩ := follow_cons_eq_some.mp hf
    obtain ⟨hcut, hchild⟩ := ih hrest
    have hbelow := (ht.below first n hn _ (Entries.mem_of_get? hc)).1
    refine ⟨follow_cons_eq_some.mpr ⟨n, child, ?_, hc, hcut⟩, by omega⟩
    rw [List.getElem?_take_of_lt (by omega)]
    exact hn

/-! ## Sealed rows -/

end Arena

/-- What a sealed row gives is what another row gives, with its own tag, number and attributes; or
it does not give a row, for want of a node. -/
def Sealed.Gives (a : Arena) (s : Sealed) : Option Row → Prop
  | some row => row.tag = s.tag ∧ row.ordinal = s.ordinal ∧ row.attributes = s.attributes ∧
      s.walk a = .ok (row.walk.map visit) ∧ s.record a = .ok row.record
  | none => (∃ handle : Nat, s.walk a = .error (.noField handle)) ∧
      ∃ handle : Nat, s.record a = .error (.noField handle)

namespace Arena

variable {a : Arena}

namespace Shows

/-- A sealed row with as many nodes as the arena has gives these. -/
theorem gives_of_size {s : Sealed} (h : a.Shows d) (hs : s.size = a.nodes.length) :
    s.Gives a (some ⟨s.tag, s.ordinal, s.attributes, d.fields⟩) := by
  have hnodes : s.nodes a = a.nodes := by
    rw [Sealed.nodes, hs, List.take_length]
  refine ⟨rfl, rfl, rfl, ?_, ?_⟩
  · rw [Sealed.walk, hnodes]
    exact h.walk
  · rw [Sealed.record, hnodes]
    exact (h.withAttributes s.attributes).record s.ordinal

/-- **A sealed row with fewer nodes than the arena** does not come to its end. -/
theorem gives_of_lt {s : Sealed} (h : a.Shows d) (hpos : 0 < s.size) (hs : s.size < a.nodes.length) :
    s.Gives a none := by
  -- there is a way to the first missing node, over nodes that are there
  obtain ⟨path, n, hp⟩ := h.full s.size (h.length ▸ hs)
  obtain ⟨f, hf, hsize, -⟩ := Draft.exists_of_shown? hp
  have hfollow : a.follow path 0 = some s.size := hsize ▸ h.follow_of_at? hf
  have hcut := (follow_take h.isTree hfollow (Nat.le_refl s.size)).1
  have hscalar : ∀ (handle : Nat) (n : Node), (s.nodes a)[handle]? = some n →
      n.kind = .scalar → n.children = [] := by
    intro handle n hn
    rw [Sealed.nodes, List.getElem?_take] at hn
    split at hn
    · exact h.isTree.scalar handle n hn
    · cases hn
  have hlen : (s.nodes a).length ≤ s.size := List.length_take_le _ _
  constructor
  · cases path with
    | nil => exact absurd (Option.some.inj hfollow) (Nat.ne_of_lt hpos)
    | cons name rest =>
      obtain ⟨root, child, hroot, hc, hrest⟩ := follow_cons_eq_some.mp hcut
      have hknown : (s.nodes a)[0]? = some root := hroot
      have hall : a.nodes[0]? = some root := by
        rwa [List.getElem?_take_of_lt hpos] at hroot
      rw [Sealed.walk, walk_of_root hknown]
      rcases walkFrom_take s.size a.nodes a.nodes.length (root.below []) with heq | herror
      · exfalso
        have hends := heq.trans ((walk_of_root hall _).symm.trans h.walk)
        have hmem : ([name], child) ∈ root.below [] := List.mem_map_of_mem (Entries.mem_of_get? hc)
        exact absurd (lt_of_walkFrom (a := { a with nodes := s.nodes a }) hscalar hends hmem hrest)
          (Nat.not_lt.mpr hlen)
      · exact herror
  · rcases fillFrom_take s.size a.nodes a.nodes.length [(0, [])]
      [(attributesName, .map (attributeEntries s.attributes))] with heq | herror
    · exfalso
      have hall := (h.withAttributes s.attributes).record s.ordinal
      exact absurd (lt_of_fillFrom (a := { a with nodes := s.nodes a }) hscalar (heq.trans hall)
        List.mem_cons_self hcut) (Nat.not_lt.mpr hlen)
    · exact herror

end Shows

end Arena

end Tabular.Strict
