import Tabular.Proofs.Row.Thinned
import Tabular.Proofs.Tree.Rows

/-!
# Rows of single texts

What a row makes of elements that hold a text and nothing else, where they are flattened.

* `Item.leaf`: such an element;
* `read_child`: an element on its own;
* **`read_leaf`**: a flattened text is put into the row;
* `read_nest`: elements outside the projection hand on what stands inside them.
-/

namespace Tabular

/-- An element with a text. -/
def Item.leaf (name value : String) : Item :=
  .element name [] [.text value]

/-! ## Drafts -/

namespace Draft

variable {d : Draft} {name : String}

/-- A new column stands last. -/
theorem fields_addColumn (h : Field.named? name d.fields = none) (value : Option String) :
    (d.addColumn name value).fields = d.fields ++ [.scalar name d.size value] := by
  rw [addColumn, insert_eq_some_iff.mpr ⟨h, rfl⟩]
  exact Field.change_append h rfl _

theorem promote_nil (d : Draft) : d.promote [] = d := rfl

/-- An element without attributes has none to collect. -/
theorem collected_nil (o : ReaderOptions) (label : String) (d : Draft) :
    d.collected o label [] = d := by
  cases hs : o.attributeScope with
  | row => exact collected_of_row hs
  | all =>
    have hsame : ∀ c : Collected, c.offerAll o.projection (label ++ "_") [] = c := by
      intro c
      rw [Collected.offerAll]
      split <;> rfl
    simp only [collected, Collected.ofNested, hs, hsame]

end Draft

/-! ## Reading -/

namespace OpenRow

variable {o : ReaderOptions} {depth : Nat} {p : OpenRow × Tally} {name : String}

/-- An element on its own leaves its draft, and the element around it. -/
theorem read_child {attributes : Entries String} {frame : Frame} {q : OpenRow}
    (h : (p.1.startChild o (o.isFlattened (depth + 1)) name attributes p.2).1 = q.push frame)
    (content : List Item) :
    ∃ t, (read o depth [.element name attributes content] p).1 =
      ⟨(closeFrame o (read o (depth + 1) content (q.push frame, t)).1.innermost
          (read o (depth + 1) content (q.push frame, t)).1.draft
          (read o (depth + 1) content (q.push frame, t)).2).1,
        { q.innermost with hasChildren := true }, q.outer⟩ := by
  refine ⟨(p.1.startChild o (o.isFlattened (depth + 1)) name attributes p.2).2, ?_⟩
  rw [← leave_read_push frame q _ (depth + 1) content rfl, ← h]
  rfl

/-- **A flattened text is put into the row.** -/
theorem read_leaf (hflat : o.isFlattened (depth + 1) = true) (hr : p.1.innermost.role ≠ .skipped)
    (name value : String) :
    (read o depth [.leaf name value] p).1 =
      ⟨p.1.madeMap.draft.put o name (cleaned value), { p.1.innermost with hasChildren := true },
        p.1.outer⟩ := by
  have hstart : (p.1.startChild o (o.isFlattened (depth + 1)) name [] p.2).1 =
      ({ p.1 with draft := p.1.madeMap.draft } : OpenRow).push
        { role := .flattened, path := [name] } := by
    rw [hflat, startChild_flattened hr, startFlattened_fst, Draft.collected_nil]
  obtain ⟨t, hread⟩ := read_child hstart [.text value]
  rw [Item.leaf, hread, read_text, read_nil, closeFrame_flattened rfl]
  simp only [push, text, Bool.false_eq_true, if_false, String.empty_append]
  rfl

/-- The innermost element stays what it is. -/
theorem role_read (depth : Nat) (items : List Item) (p : OpenRow × Tally) :
    (read o depth items p).1.innermost.role = p.1.innermost.role := by
  induction items using Item.induction generalizing depth p with
  | nil => rfl
  | text value rest ih =>
    rw [read_text, ih, OpenRow.text]
    split <;> rfl
  | element name attributes content rest _ ihRest =>
    have houter := outer_read (o := o) (depth + 1)
      (p.1.startChild o (o.isFlattened (depth + 1)) name attributes p.2) content
    rw [outer_startChild] at houter
    rw [read_element, ihRest, leave]
    simp only [houter]

/-- Elements outside the projection hand on what stands inside them. -/
theorem read_nest {count : Nat} (hflat : ∀ n, n ≤ depth + count → o.isFlattened n = false)
    (hr : p.1.innermost.role = .pruned) (name : String) (items : List Item) :
    ∃ q : OpenRow × Tally, q.1.innermost.role = .pruned ∧ q.1.draft = p.1.draft ∧
      (read o depth (Item.nest name count items) p).1.draft =
        (read o (depth + count) items q).1.draft := by
  induction count generalizing depth p with
  | zero => exact ⟨p, hr, rfl, rfl⟩
  | succ count ih =>
    have hstart : (p.1.startChild o (o.isFlattened (depth + 1)) name [] p.2).1 =
        p.1.push { role := .pruned, path := p.1.innermost.path ++ [name] } := by
      rw [hflat (depth + 1) (by omega), startPruned_fst hr, Draft.collected_nil]
    obtain ⟨t, hread⟩ := read_child hstart (Item.nest name count items)
    have hdeep : ∀ n, n ≤ depth + 1 + count → o.isFlattened n = false := fun n hn =>
      hflat n (by omega)
    obtain ⟨q, hq, hd, hdraft⟩ := ih
      (p := (p.1.push { role := .pruned, path := p.1.innermost.path ++ [name] }, t)) hdeep rfl
    refine ⟨q, hq, hd, ?_⟩
    rw [Item.nest, hread, show depth + (count + 1) = depth + 1 + count by omega, ← hdraft]
    simp only [closeFrame, role_read, push]

end OpenRow

end Tabular
