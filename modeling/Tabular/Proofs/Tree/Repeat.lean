import Tabular.Proofs.Tree.Leaf

/-!
# Repeats in a row

Two rows in which a projection makes a difference: a flattened text inside a repeated element, and a
flattened text that comes so many times that it needs numbered columns.

* `Item.twice`: an element that comes twice, with a text deep inside the second one;
* **`fields_twice_wide`**, **`fields_twice_narrow`**: a row of every column skips the text with the
  repeat, and a row of its column only has it;
* `Draft.NumberedTo`, **`NumberedTo.putMany`**: a row of every column numbers the texts;
* `Draft.NumbersAsked`, **`NumbersAsked.putMany`**: a row of some columns stops at the first number
  that was not asked for.
-/

namespace Tabular

/-- An element that comes twice, with a text so many levels inside the second one. -/
def Item.twice (name : String) (count : Nat) (leaf : Item) : List Item :=
  [.element name [] [], .element name [] (Item.nest name count [leaf])]

namespace OpenRow

variable {o : ReaderOptions} {depth : Nat} {p : OpenRow × Tally} {name : String}

/-! ## A repeated element -/

/-- An element outside the projection, directly in the row. -/
theorem read_pruned (hflat : o.isFlattened (depth + 1) = false) (hr : p.1.innermost.role = .built)
    (hp : p.1.innermost.path = []) (hn : name ≠ attributesName)
    (hk : o.projection.admits [name] = false) (content : List Item) :
    ∃ q : OpenRow × Tally, q.1.innermost.role = .pruned ∧ q.1.draft = p.1.draft ∧
      (read o depth [.element name [] content] p).1 =
        ⟨(read o (depth + 1) content q).1.draft, { p.1.innermost with hasChildren := true },
          p.1.outer⟩ := by
  have hattr : p.1.innermost.path ++ [name] ≠ attributesPath := by
    rw [Ne, append_eq_attributesPath]
    exact fun h => hn h.2
  have hstart : (p.1.startChild o (o.isFlattened (depth + 1)) name [] p.2).1 =
      p.1.push { role := .pruned, path := p.1.innermost.path ++ [name] } := by
    rw [hflat, startChild_of_built hr, startField_pruned hattr (by rw [hp]; exact hk), hp,
      Draft.promote_nil, Draft.collected_nil]
  obtain ⟨t, hread⟩ := read_child hstart content
  refine ⟨(p.1.push { role := .pruned, path := p.1.innermost.path ++ [name] }, t), rfl, rfl, ?_⟩
  rw [hread]
  simp only [closeFrame, role_read, push]

/-- An empty element under a new name, directly in the row. -/
theorem read_built (hflat : o.isFlattened (depth + 1) = false) (hr : p.1.innermost.role = .built)
    (hp : p.1.innermost.path = []) (hn : name ≠ attributesName)
    (hk : o.projection.admits [name] = true) (hfree : Field.named? name p.1.draft.fields = none) :
    ∃ d : Draft, d.fields = p.1.draft.fields ++ [.scalar name p.1.draft.size (cleaned "")] ∧
      (read o depth [.element name [] []] p).1 =
        ⟨d, { p.1.innermost with hasChildren := true }, p.1.outer⟩ := by
  have hattr : p.1.innermost.path ++ [name] ≠ attributesPath := by
    rw [Ne, append_eq_attributesPath]
    exact fun h => hn h.2
  obtain ⟨d, hi⟩ : ∃ d, p.1.draft.insert p.1.innermost.path name = some d :=
    ⟨_, Draft.insert_eq_some_iff.mpr ⟨by rw [hp]; exact hfree, rfl⟩⟩
  have hstart : (p.1.startChild o (o.isFlattened (depth + 1)) name [] p.2).1 =
      ({ p.1 with draft := d } : OpenRow).push
        { role := .built, path := p.1.innermost.path ++ [name] } := by
    rw [hflat, startChild_of_built hr, startField_built hattr (by rw [hp]; exact hk) hi,
      Draft.collected_nil]
  obtain ⟨t, hread⟩ := read_child hstart []
  obtain ⟨-, rfl⟩ := Draft.insert_eq_some_iff.mp hi
  refine ⟨_, ?_, hread⟩
  show Field.changeAt (p.1.innermost.path ++ [name]) (Field.assigned _)
    (Field.addAt p.1.innermost.path _ p.1.draft.fields) = _
  rw [hp]
  exact Field.change_append hfree rfl _

/-- An element under a name that is taken, directly in the row. -/
theorem read_taken (hflat : o.isFlattened (depth + 1) = false) (hr : p.1.innermost.role = .built)
    (hp : p.1.innermost.path = []) (hn : name ≠ attributesName)
    (hk : o.projection.admits [name] = true)
    (htaken : (Field.named? name p.1.draft.fields).isSome = true) (content : List Item) :
    (read o depth [.element name [] content] p).1.draft = p.1.draft := by
  have hattr : p.1.innermost.path ++ [name] ≠ attributesPath := by
    rw [Ne, append_eq_attributesPath]
    exact fun h => hn h.2
  have hstart : (p.1.startChild o (o.isFlattened (depth + 1)) name [] p.2).1 =
      p.1.push { role := .skipped, path := p.1.innermost.path ++ [name] } := by
    rw [hflat, startChild_of_built hr, startField_skipped hattr (by rw [hp]; exact hk)
      (Draft.insert_of_taken (by rw [hp]; exact htaken))]
  obtain ⟨t, hread⟩ := read_child hstart content
  obtain ⟨hd, _⟩ := read_of_skipped (o := o) (depth + 1) content
    (p := (p.1.push { role := .skipped, path := p.1.innermost.path ++ [name] }, t)) rfl
  rw [hread]
  simp only [closeFrame, role_read, push] at hd ⊢
  exact hd

/-- **A row of every column skips a text with the repeat that holds it.** -/
theorem fields_twice_wide (hflat : o.isFlattened (depth + 1) = false)
    (hr : p.1.innermost.role = .built) (hp : p.1.innermost.path = []) (hd : p.1.draft.fields = [])
    (hn : name ≠ attributesName) (hk : o.projection.admits [name] = true) (count : Nat)
    (leaf : Item) :
    (read o depth (Item.twice name count leaf) p).1.draft.fields =
      [.scalar name p.1.draft.size (cleaned "")] := by
  obtain ⟨d, hfields, hread⟩ := read_built hflat hr hp hn hk (by rw [hd]; rfl)
  rw [hd, List.nil_append] at hfields
  rw [Item.twice, read_cons, read_taken hflat (by rw [hread]; exact hr) (by rw [hread]; exact hp) hn
    hk (by rw [hread, hfields, Field.named?_cons, if_pos (by rfl)]; rfl), hread, hfields]

/-- **A row of some columns has a text inside a repeat that it does not see.** -/
theorem fields_twice_narrow {count : Nat}
    (hflat : ∀ n, n ≤ depth + 1 + count → o.isFlattened n = false)
    (hdeep : o.isFlattened (depth + 1 + count + 1) = true) (hr : p.1.innermost.role = .built)
    (hp : p.1.innermost.path = []) (hd : p.1.draft.fields = []) (hn : name ≠ attributesName)
    (hk : o.projection.admits [name] = false) {leaf : String} (hl : leaf ≠ attributesName)
    (hkl : o.projection.admits [leaf] = true) (value : String) :
    (read o depth (Item.twice name count (.leaf leaf value)) p).1.draft.fields =
      [.scalar leaf p.1.draft.size (cleaned value)] := by
  have hnow := hflat (depth + 1) (by omega)
  obtain ⟨q, _, hdraft, hread⟩ := read_pruned hnow hr hp hn hk []
  rw [read_nil, hdraft] at hread
  obtain ⟨q₁, hrole₁, hdraft₁, hread₁⟩ := read_pruned (p := read o depth [.element name [] []] p) hnow
    (by rw [hread]; exact hr) (by rw [hread]; exact hp) hn hk (Item.nest name count
      [.leaf leaf value])
  obtain ⟨q₂, hrole₂, hdraft₂, hnest⟩ := read_nest hflat hrole₁ name [.leaf leaf value]
  have hmade : q₂.1.madeMap = q₂.1 := if_neg (by simp [hrole₂])
  rw [Item.twice, read_cons, hread₁, hnest, read_leaf hdeep (by simp [hrole₂]), hmade, hdraft₂,
    hdraft₁, hread]
  have hfree : Field.named? leaf p.1.draft.fields = none := by
    rw [hd]
    rfl
  rw [Draft.put_of_none hl hkl hfree, Draft.fields_addColumn hfree, hd]
  rfl

end OpenRow

/-! ## Numbered texts -/

theorem numberedName_ne_self (name : String) (n : Nat) : numberedName name n ≠ name := by
  intro h
  have hlen := congrArg List.length (congrArg String.toList h)
  rw [toList_numberedName, List.length_append, List.length_cons] at hlen
  omega

namespace Draft

variable {o : ReaderOptions} {p : Projection} {name : String} {value : Option String}
  {count : Nat} {d : Draft}

/-- The texts of so many flattened elements of one name, put one after another. -/
def putMany (o : ReaderOptions) (name : String) (value : Option String) : Nat → Draft → Draft
  | 0, d => d
  | count + 1, d => putMany o name value count (d.put o name value)

/-- The numbered columns of a name are taken up to some number, each with the same text. -/
structure NumberedTo (name : String) (value : Option String) (count : Nat) (d : Draft) : Prop where
  nodup : (d.fields.map Field.name).Nodup
  base : ∃ handle v, Field.named? name d.fields = some (.scalar name handle v)
  taken : ∀ j, 2 ≤ j → j ≤ count → ∃ handle,
    Field.named? (numberedName name j) d.fields = some (.scalar (numberedName name j) handle value)
  free : ∀ j, 2 ≤ j → count < j → Field.named? (numberedName name j) d.fields = none

theorem numberedTo_put_first (hn : name ≠ attributesName) (hk : o.projection.admits [name] = true)
    (hd : d.fields = []) : NumberedTo name value 1 (d.put o name value) := by
  have hfree : Field.named? name d.fields = none := by
    rw [hd]
    rfl
  have hfields : (d.put o name value).fields = [.scalar name d.size value] := by
    rw [put_of_none hn hk hfree, fields_addColumn hfree, hd]
    rfl
  refine ⟨?_, ⟨d.size, value, ?_⟩, fun j _ _ => by omega, fun j _ _ => ?_⟩
  · rw [hfields]
    exact List.nodup_cons.mpr ⟨List.not_mem_nil, List.nodup_nil⟩
  · rw [hfields, Field.named?_cons, if_pos (by rfl)]
  · rw [hfields, Field.named?_cons, if_neg (by exact (numberedName_ne_self name j).symm)]
    rfl

/-- The next text takes the next number. -/
theorem NumberedTo.put (h : NumberedTo name value count d) (hc : 1 ≤ count)
    (hnum : o.flattenCollision = .number) (hn : name ≠ attributesName)
    (hall : ∀ key, o.projection.admits [key] = true) :
    NumberedTo name value (count + 1) (d.put o name value) := by
  obtain ⟨handle, v, hbase⟩ := h.base
  -- the first free number is the one behind those that are taken
  have hnext : freeName name d.fields 2 d.fields.length = numberedName name (count + 1) := by
    obtain ⟨m, hm, he, hfree, hbelow⟩ := freeName_spec name d.fields
    rcases Nat.lt_trichotomy m (count + 1) with hlt | rfl | hgt
    · obtain ⟨k, hk⟩ := h.taken m hm (by omega)
      rw [hk] at hfree
      cases hfree
    · exact he
    · have hsome := hbelow (count + 1) (by omega) hgt
      rw [h.free (count + 1) (by omega) (by omega)] at hsome
      cases hsome
  have hfree := h.free (count + 1) (by omega) (by omega)
  have hfields : (d.put o name value).fields =
      d.fields ++ [.scalar (numberedName name (count + 1)) d.size value] := by
    rw [put_of_some hn (hall name) hbase, ← fields_addColumn hfree]
    simp only [collide, Field.kind, hnum, hnext, hall, if_true]
  have hother : ∀ {key f}, Field.named? key d.fields = some f →
      Field.named? key (d.put o name value).fields = some f := by
    intro key f hf
    rw [hfields, Field.named?_concat, hf]
    rfl
  refine ⟨?_, ⟨handle, v, hother hbase⟩, fun j hj hle => ?_, fun j hj hlt => ?_⟩
  · rw [hfields]
    exact Field.nodup_concat h.nodup hfree
  · rcases Nat.lt_or_eq_of_le hle with hlt | rfl
    · obtain ⟨k, hk⟩ := h.taken j hj (by omega)
      exact ⟨k, hother hk⟩
    · refine ⟨d.size, ?_⟩
      rw [hfields, Field.named?_concat, hfree, if_pos (by rfl)]
      rfl
  · rw [hfields, Field.named?_concat, h.free j hj (by omega), if_neg]
    · rfl
    · exact fun heq => absurd (numberedName_inj heq) (by omega)

theorem NumberedTo.putMany (h : NumberedTo name value count d) (hc : 1 ≤ count)
    (hnum : o.flattenCollision = .number) (hn : name ≠ attributesName)
    (hall : ∀ key, o.projection.admits [key] = true) (more : Nat) :
    NumberedTo name value (count + more) (d.putMany o name value more) := by
  induction more generalizing count d with
  | zero => exact h
  | succ more ih =>
    have hi := ih (h.put hc hnum hn hall) (by omega)
    rwa [Nat.add_right_comm] at hi

/-- A numbered column of a name is there only if it is asked for, and so is the name, and only behind
those with smaller numbers. -/
structure NumbersAsked (p : Projection) (name : String) (d : Draft) : Prop where
  nodup : (d.fields.map Field.name).Nodup
  asked : ∀ m, 2 ≤ m → (Field.named? (numberedName name m) d.fields).isSome = true →
    p.admits [name] = true ∧ p.admits [numberedName name m] = true ∧
      ∀ j, 2 ≤ j → j < m → (Field.named? (numberedName name j) d.fields).isSome = true

theorem NumbersAsked.put (h : NumbersAsked o.projection name d)
    (hnum : o.flattenCollision = .number) (hn : name ≠ attributesName) :
    NumbersAsked o.projection name (d.put o name value) := by
  cases hk : o.projection.admits [name] with
  | false =>
    rw [put_of_unwanted (Or.inr hk)]
    exact h
  | true =>
    cases hbase : Field.named? name d.fields with
    | none =>
      rw [put_of_none hn hk hbase]
      refine ⟨?_, ?_⟩
      · rw [fields_addColumn hbase]
        exact Field.nodup_concat h.nodup hbase
      · have hsame : ∀ m, Field.named? (numberedName name m) (d.addColumn name value).fields =
            Field.named? (numberedName name m) d.fields := by
          intro m
          rw [fields_addColumn hbase, Field.named?_concat,
            if_neg (by exact (numberedName_ne_self name m).symm), Option.or_none]
        simp only [hsame]
        exact h.asked
    | some existing =>
      rw [put_of_some hn hk hbase]
      cases hkind : existing.kind with
      | map =>
        simp only [collide, hkind]
        exact h
      | scalar =>
        simp only [collide, hkind, hnum]
        split
        · next hfree =>
          obtain ⟨m, hm, he, hnone, hbelow⟩ := freeName_spec name d.fields
          rw [he] at hfree ⊢
          have hgrow : ∀ {key}, (Field.named? key d.fields).isSome = true →
              (Field.named? key (d.addColumn (numberedName name m) value).fields).isSome = true := by
            intro key hkey
            rw [fields_addColumn hnone, Field.named?_concat, Option.isSome_or, hkey, Bool.true_or]
          refine ⟨?_, fun k hk₂ hsome => ?_⟩
          · rw [fields_addColumn hnone]
            exact Field.nodup_concat h.nodup hnone
          · by_cases hkm : k = m
            · subst hkm
              exact ⟨hk, hfree, fun j hj hlt => hgrow (hbelow j hj hlt)⟩
            · rw [fields_addColumn hnone, Field.named?_concat, if_neg, Option.or_none] at hsome
              · obtain ⟨h₁, h₂, h₃⟩ := h.asked k hk₂ hsome
                exact ⟨h₁, h₂, fun j hj hlt => hgrow (h₃ j hj hlt)⟩
              · exact fun heq => hkm (numberedName_inj heq).symm
        · exact h

theorem NumbersAsked.putMany (h : NumbersAsked o.projection name d)
    (hnum : o.flattenCollision = .number) (hn : name ≠ attributesName) (more : Nat) :
    NumbersAsked o.projection name (d.putMany o name value more) := by
  induction more generalizing d with
  | zero => exact h
  | succ more ih => exact ih (h.put hnum hn)

theorem numbersAsked_of_empty (hd : d.fields = []) : NumbersAsked p name d := by
  refine ⟨by rw [hd]; exact List.nodup_nil, fun m _ hsome => ?_⟩
  rw [hd] at hsome
  cases hsome

end Draft

/-- Flattened texts directly in the row are put one after another. -/
theorem OpenRow.read_leaves {o : ReaderOptions} {depth : Nat} {p : OpenRow × Tally}
    (hflat : o.isFlattened (depth + 1) = true) (hr : p.1.innermost.role = .built)
    (hp : p.1.innermost.path = []) (name value : String) (count : Nat) :
    (read o depth (List.replicate count (.leaf name value)) p).1.draft =
      p.1.draft.putMany o name (cleaned value) count := by
  induction count generalizing p with
  | zero => rfl
  | succ count ih =>
    have hmade : p.1.madeMap.draft = p.1.draft := by
      rw [madeMap, if_pos hr, promote, hp]
      rfl
    have hleaf := read_leaf hflat (p := p) (by simp [hr]) name value
    rw [hmade] at hleaf
    rw [List.replicate_succ, read_cons, ih (by rw [hleaf]; exact hr) (by rw [hleaf]; exact hp), hleaf,
      Draft.putMany]

end Tabular
