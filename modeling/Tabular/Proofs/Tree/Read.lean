import Tabular.Proofs.Row.Steps
import Tabular.Proofs.Tree.Basic

/-!
# Reading inside a row

* `OpenRow.read`: the items inside an open element of a row, read at once;
* `read_fst`: what is read does not depend on the counters;
* **`leave_read`**, `leave_read_push`: an element that was read leaves its draft, and the element
  around it;
* `leave_read_skipped`: what is skipped leaves no trace.
-/

namespace Tabular

/-! ## Reading inside a row -/

namespace OpenRow

variable {o : ReaderOptions}

mutual

/-- One item inside the innermost element, which stands at `depth`. -/
def readItem (o : ReaderOptions) (depth : Nat) : Item → OpenRow × Tally → OpenRow × Tally
  | .text value, p => (p.1.text value, p.2)
  | .element name attributes content, p =>
    let q := p.1.startChild o (o.isFlattened (depth + 1)) name attributes p.2
    let q := read o (depth + 1) content q
    q.1.leave o q.2

/-- The items inside the innermost element, which stands at `depth`. -/
def read (o : ReaderOptions) (depth : Nat) : List Item → OpenRow × Tally → OpenRow × Tally
  | [], p => p
  | item :: rest, p => read o depth rest (readItem o depth item p)

end

variable (depth : Nat) (p : OpenRow × Tally) (rest : List Item)

theorem read_nil : read o depth [] p = p := rfl

theorem read_text (value : String) :
    read o depth (.text value :: rest) p = read o depth rest (p.1.text value, p.2) := rfl

theorem read_element (name : String) (attributes : Entries String) (content : List Item) :
    read o depth (.element name attributes content :: rest) p =
      let q := read o (depth + 1) content
        (p.1.startChild o (o.isFlattened (depth + 1)) name attributes p.2)
      read o depth rest (q.1.leave o q.2) := rfl

theorem read_cons (o : ReaderOptions) (depth : Nat) (item : Item) (rest : List Item)
    (p : OpenRow × Tally) :
    read o depth (item :: rest) p = read o depth rest (read o depth [item] p) := rfl

theorem outer_read (items : List Item) :
    (read o depth items p).1.outer = p.1.outer := by
  induction items using Item.induction generalizing depth p with
  | nil => rfl
  | text value rest ih => rw [read_text, ih, outer_text]
  | element name attributes content rest ihContent ihRest =>
    rw [read_element, ihRest, leave, ihContent, outer_startChild]

theorem read_fst (items : List Item) {p q : OpenRow × Tally} (h : p.1 = q.1) :
    (read o depth items p).1 = (read o depth items q).1 := by
  induction items using Item.induction generalizing depth p q with
  | nil => exact h
  | text value rest ih =>
    rw [read_text, read_text]
    refine ih depth ?_
    rw [h]
  | element name attributes content rest ihContent ihRest =>
    rw [read_element, read_element]
    refine ihRest depth ?_
    have hstart : (p.1.startChild o (o.isFlattened (depth + 1)) name attributes p.2).1 =
        (q.1.startChild o (o.isFlattened (depth + 1)) name attributes q.2).1 := by
      rw [h]
      exact startChild_fst q.2
    rw [ihContent (depth + 1) hstart]
    exact leave_fst _

/-! ## Elements inside the innermost one -/

/-- A child that was read leaves its draft and the counters, and the element around it innermost
again. -/
theorem leave_read (frame : Frame) (q : OpenRow) (t : Tally) (depth : Nat) (content : List Item)
    {p : OpenRow × Tally} (hp : read o depth content (q.push frame, t) = p) :
    p.1.leave o p.2 = (⟨(closeFrame o p.1.innermost p.1.draft p.2).1,
      { q.innermost with hasChildren := true }, q.outer⟩,
      (closeFrame o p.1.innermost p.1.draft p.2).2) := by
  have ho : p.1.outer = { q.innermost with hasChildren := true } :: q.outer := by
    rw [← hp, outer_read]
    rfl
  rw [leave]
  simp only [ho]

theorem leave_read_push (frame : Frame) (q : OpenRow) (t : Tally) (depth : Nat)
    (content : List Item) {p : OpenRow × Tally} (hp : read o depth content (q.push frame, t) = p) :
    (p.1.leave o p.2).1 = ⟨(closeFrame o p.1.innermost p.1.draft p.2).1,
      { q.innermost with hasChildren := true }, q.outer⟩ := by
  rw [leave_read frame q t depth content hp]

theorem closeFrame_skipped {frame : Frame} (h : frame.role = .skipped) (d : Draft) (t : Tally) :
    closeFrame o frame d t = (d, t) := by
  simp only [closeFrame, h]

theorem closeFrame_built {frame : Frame} (h : frame.role = .built) (d : Draft) (t : Tally) :
    closeFrame o frame d t = (d.assign frame.path (cleaned frame.text), t) := by
  simp only [closeFrame, h]

theorem text_skipped {r : OpenRow} (h : r.innermost.role = .skipped) (value : String) :
    r.text value = r := by
  rw [text]
  simp only [h]

/-- What is skipped leaves no trace. -/
theorem read_of_skipped (depth : Nat) (items : List Item) {p : OpenRow × Tally}
    (h : p.1.innermost.role = .skipped) :
    (read o depth items p).1.draft = p.1.draft ∧
      (read o depth items p).1.innermost.role = .skipped := by
  induction items using Item.induction generalizing depth p with
  | nil => exact ⟨rfl, h⟩
  | text value rest ih =>
    rw [read_text, text_skipped h]
    exact ih depth h
  | element name attributes content rest ihContent ihRest =>
    rw [read_element, startChild_of_skipped h]
    let frame : Frame := { role := .skipped, path := p.1.innermost.path ++ [name] }
    obtain ⟨hd, hr⟩ := ihContent (depth + 1) (p := (p.1.push frame, p.2)) rfl
    have hl := leave_read_push (o := o) frame p.1 p.2 (depth + 1) content rfl
    rw [closeFrame_skipped hr, hd] at hl
    obtain ⟨hd', hr'⟩ := ihRest depth (p := leave o _ _) (by rw [hl]; exact h)
    refine ⟨?_, hr'⟩
    rw [hd', hl]
    rfl

/-- A skipped child leaves no trace. -/
theorem leave_read_skipped {f : Frame} (hf : f.role = .skipped) (q : OpenRow) (t : Tally)
    (depth : Nat) (content : List Item) {p : OpenRow × Tally}
    (hp : read o depth content (q.push f, t) = p) :
    (p.1.leave o p.2).1 = { q with innermost := { q.innermost with hasChildren := true } } := by
  obtain ⟨hd, hr⟩ := read_of_skipped (o := o) depth content (p := (q.push f, t)) hf
  rw [leave_read_push f q t depth content hp]
  rw [hp] at hd hr
  rw [closeFrame_skipped hr, hd]
  rfl

end OpenRow

end Tabular
