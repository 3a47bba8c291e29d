import Tabular.Proofs.Row.Thinned
import Tabular.Proofs.Tree.Scan

/-!
# What a row of every column reads

Where every column is asked for, an element inside a row is a field, or it is flattened, or it is
skipped with all it holds: as a repeat, or because it is named as the attributes of the row.

* `Visit`, `OpenRow.visits`: the elements that are not skipped, in document order;
* `Passes`, **`passes_read`**: what they do to a draft and the counters, one by one;
* `Element.visits`, **`passes_row`**: the row of an element, with the counters.
-/

namespace Tabular

open OpenRow (label)

/-- An element inside a row that is not skipped. -/
inductive Visit where
  /-- A field of the row at its path. -/
  | field (path : Path) (e : Element)
  /-- A flattened element. -/
  | flattened (e : Element)
  deriving Repr, Inhabited

namespace OpenRow

mutual

/-- The elements of an item that are not skipped where it is read, in an element at a path. -/
def visitsItem (o : ReaderOptions) (depth : Nat) (above : Path) :
    Item → OpenRow × Tally → List Visit
  | .text _, _ => []
  | .element name attributes content, p =>
    let flat := o.isFlattened (depth + 1)
    let path := above ++ [name]
    let q := p.1.startChild o flat name attributes p.2
    if flat then
      .flattened ⟨name, attributes, content⟩ :: visits o (depth + 1) path content q
    else if path = attributesPath ∨ p.1.draft.isTaken above name = true then []
    else .field path ⟨name, attributes, content⟩ :: visits o (depth + 1) path content q

/-- The elements of some items that are not skipped where these are read, in an element at a
path. -/
def visits (o : ReaderOptions) (depth : Nat) (above : Path) :
    List Item → OpenRow × Tally → List Visit
  | [], _ => []
  | item :: rest, p =>
    visitsItem o depth above item p ++ visits o depth above rest (readItem o depth item p)

end

variable {o : ReaderOptions} {depth : Nat} {above : Path} {p : OpenRow × Tally} {name : String}
  {attributes : Entries String} {content rest : List Item}

theorem visits_text (value : String) :
    visits o depth above (.text value :: rest) p =
      visits o depth above rest (p.1.text value, p.2) := by
  rw [visits, visitsItem, List.nil_append, readItem]

theorem visits_element :
    visits o depth above (.element name attributes content :: rest) p =
      visitsItem o depth above (.element name attributes content) p ++
        visits o depth above rest (readItem o depth (.element name attributes content) p) := by
  rw [visits]

/-- What is skipped does not depend on the counters. -/
theorem visits_congr (items : List Item) {p q : OpenRow × Tally} (h : p.1 = q.1) :
    visits o depth above items p = visits o depth above items q := by
  induction items using Item.induction generalizing depth above p q with
  | nil => rfl
  | text value rest ih =>
    rw [visits_text, visits_text]
    refine ih ?_
    rw [h]
  | element name attributes content rest ihContent ihRest =>
    have hstart (flat : Bool) : (p.1.startChild o flat name attributes p.2).1 =
        (q.1.startChild o flat name attributes q.2).1 := by
      rw [h]
      exact startChild_fst q.2
    have hitem : (readItem o depth (.element name attributes content) p).1 =
        (readItem o depth (.element name attributes content) q).1 :=
      read_fst depth [.element name attributes content] h
    rw [visits_element, visits_element, visitsItem, visitsItem, ihRest hitem,
      ihContent (hstart _), h]

/-! ## The innermost element -/

/-- An element that keeps its text has all of it at its end, and knows whether it has children. -/
theorem innermost_read (depth : Nat) (items : List Item) {p : OpenRow × Tally}
    (h : p.1.innermost.role = .built ∨ p.1.innermost.role = .flattened) :
    (read o depth items p).1.innermost =
      { p.1.innermost with
        hasChildren := p.1.innermost.hasChildren || !(Item.elements items).isEmpty
        text := p.1.innermost.text ++ Item.textOf items } := by
  induction items using Item.induction generalizing p with
  | nil => simp [read_nil, Item.elements, Item.textOf]
  | text value rest ih =>
    have htext : (p.1.text value).innermost =
        { p.1.innermost with text := p.1.innermost.text ++ value } := by
      unfold OpenRow.text
      rcases h with h | h <;> rw [h]
    rw [read_text, ih (by rw [htext]; exact h), htext]
    simp [Item.elements, Item.textOf, String.append_assoc]
  | element name attributes content rest _ ihRest =>
    obtain ⟨frame, q, t, hstart, hi, -⟩ := startChild_cases o (o.isFlattened (depth + 1)) name
      attributes p.1 p.2
    have hleave := congrArg (fun p => p.1.innermost)
      (leave_read frame q t (depth + 1) content (o := o) rfl)
    rw [read_element, hstart]
    simp only at hleave ⊢
    rw [ihRest (by rw [hleave, hi]; exact h), hleave, hi]
    simp [Item.elements, Item.textOf]

/-- Texts among themselves change no draft and no counter. -/
theorem read_of_texts (depth : Nat) (above : Path) (items : List Item)
    (h : Item.elements items = []) (p : OpenRow × Tally) :
    (read o depth items p).1.draft = p.1.draft ∧ (read o depth items p).2 = p.2 ∧
      visits o depth above items p = [] := by
  induction items using Item.induction generalizing p with
  | nil => exact ⟨rfl, rfl, rfl⟩
  | text value rest ih =>
    have htext : (p.1.text value).draft = p.1.draft := by
      unfold OpenRow.text
      split <;> rfl
    rw [read_text, visits_text, ← htext]
    exact ih h _
  | element name attributes content rest _ _ => cases h

/-- What is skipped counts for nothing. -/
theorem tally_of_skipped (items : List Item) {p : OpenRow × Tally}
    (h : p.1.innermost.role = .skipped) : (read o depth items p).2 = p.2 := by
  induction items using Item.induction generalizing depth p with
  | nil => rfl
  | text value rest ih =>
    rw [read_text, text_skipped h]
    exact ih h
  | element name attributes content rest ihContent ihRest =>
    rw [read_element, startChild_of_skipped h]
    let frame : Frame := { role := .skipped, path := p.1.innermost.path ++ [name] }
    have hinside := read_of_skipped (o := o) (depth + 1) content (p := (p.1.push frame, p.2)) rfl
    have hleave := leave_read frame p.1 p.2 (depth + 1) content (o := o) rfl
    rw [closeFrame_skipped hinside.2] at hleave
    simp only at hleave ⊢
    rw [hleave]
    refine (ihRest ?_).trans (ihContent rfl)
    exact h

end OpenRow

/-! ## Steps of a draft and its counters -/

/-- A draft and the counters with the attributes of an element inside the row. -/
def collecting (o : ReaderOptions) (label : String) (attributes : Entries String)
    (s : Draft × Tally) : Draft × Tally :=
  let c := Collected.ofNested o.attributeScope o.projection label attributes
    ⟨s.1.attributes, s.2.duplicateAttributes⟩
  ({ s.1 with attributes := c.kept }, { s.2 with duplicateAttributes := c.duplicates })

/-- The draft with the field at a place made a map. Inside a flattened element there is no place. -/
def Draft.opened (place : Option Path) (d : Draft) : Draft :=
  match place with
  | none => d
  | some path => d.promote path

/-- What elements at a place that are not skipped do to a draft and the counters. -/
inductive Passes (o : ReaderOptions) : Option Path → List Visit → Draft × Tally → Draft × Tally →
    Prop where
  | nil {place : Option Path} {s : Draft × Tally} : Passes o place [] s s
  | append {place : Option Path} {vs vs' : List Visit} {s s₁ s₂ : Draft × Tally} :
      Passes o place vs s s₁ → Passes o place vs' s₁ s₂ → Passes o place (vs ++ vs') s s₂
  /-- An element is skipped and counted. -/
  | skipped {place : Option Path} {d : Draft} {t t' : Tally} :
      t'.flattenCollisions = t.flattenCollisions → t'.duplicateAttributes = t.duplicateAttributes →
      Passes o place [] (d, t) (d, t')
  /-- A field is added, and its text is set at its end. -/
  | field {above : Path} {e : Element} {d d' : Draft} {t : Tally} {vs : List Visit}
      {s : Draft × Tally} (value : Option String) :
      d.insert above e.name = some d' →
      Passes o (some (above ++ [e.name])) vs
        (collecting o (label (above ++ [e.name])) e.attributes (d', t)) s →
      Passes o (some above) (.field (above ++ [e.name]) e :: vs) (d, t)
        (s.1.assign (above ++ [e.name]) value, s.2)
  /-- A flattened element without children is put into the row. -/
  | leaf {place : Option Path} {e : Element} {d : Draft} {t : Tally} :
      Item.elements e.content = [] →
      Passes o place [.flattened e] (d, t)
        (OpenRow.putFlattened o e.name (cleaned (Item.textOf e.content))
          (collecting o e.name e.attributes (d.opened place, t)).1
          (collecting o e.name e.attributes (d.opened place, t)).2)
  /-- A flattened element with children leaves what they do. -/
  | group {place : Option Path} {e : Element} {d : Draft} {t : Tally} {vs : List Visit}
      {s : Draft × Tally} :
      Item.elements e.content ≠ [] →
      Passes o none vs (collecting o e.name e.attributes (d.opened place, t)) s →
      Passes o place (.flattened e :: vs) (d, t) s

/-- An open element that is not skipped: a field at its path, or a flattened element. -/
def Frame.StandsAt (place : Option Path) (f : Frame) : Prop :=
  match place with
  | none => f.role = .flattened
  | some path => f.role = .built ∧ f.path = path

namespace OpenRow

variable {o : ReaderOptions} {depth : Nat} {above : Path} {place : Option Path} {r : OpenRow}
  {p : OpenRow × Tally} {t : Tally} {name : String} {attributes : Entries String}
  {content : List Item}

theorem collect_eq (label : String) : r.collect o label attributes t =
    ({ r with draft := (collecting o label attributes (r.draft, t)).1 },
      (collecting o label attributes (r.draft, t)).2) := rfl

theorem closeFrame_of_flattened {f : Frame} (h : f.role = .flattened) (d : Draft) (t : Tally) :
    closeFrame o f d t =
      if f.hasChildren then (d, t)
      else putFlattened o (f.path.headD "") (cleaned f.text) d t := by
  simp only [closeFrame, h]

theorem madeMap_eq (h : r.innermost.StandsAt place) :
    r.madeMap = { r with draft := r.draft.opened place } := by
  cases place with
  | none => simp [madeMap, Draft.opened, show r.innermost.role = .flattened from h]
  | some path =>
    obtain ⟨hr, rfl⟩ := h
    simp [madeMap, Draft.opened, hr, promote]

/-- A flattened element, from its start to its end. -/
theorem passes_flattened (hf : r.innermost.StandsAt place)
    (hflat : o.isFlattened (depth + 1) = true) (name : String) (attributes : Entries String)
    (content : List Item) (t : Tally)
    (ih : ∀ {p : OpenRow × Tally}, p.1.innermost.StandsAt none →
      Passes o none (visits o (depth + 1) (above ++ [name]) content p) (p.1.draft, p.2)
        ((read o (depth + 1) content p).1.draft, (read o (depth + 1) content p).2)) :
    let q := readItem o depth (.element name attributes content) (r, t)
    Passes o place (visitsItem o depth above (.element name attributes content) (r, t)) (r.draft, t)
        (q.1.draft, q.2) ∧
      q.1.innermost = { r.innermost with hasChildren := true } := by
  let s := collecting o name attributes (r.draft.opened place, t)
  let frame : Frame := { role := .flattened, path := [name] }
  have hr : r.innermost.role ≠ .skipped := by
    cases place with
    | none => simp [show r.innermost.role = .flattened from hf]
    | some path => simp [hf.1]
  have hstart : r.startChild o (o.isFlattened (depth + 1)) name attributes t =
      (({ r with draft := s.1 } : OpenRow).push frame, s.2) := by
    rw [hflat, startChild_flattened hr, startFlattened_eq, madeMap_eq hf, collect_eq]
  have hinner := innermost_read (o := o) (depth + 1) content
    (p := (({ r with draft := s.1 } : OpenRow).push frame, s.2)) (Or.inr rfl)
  have hpass := ih (p := (({ r with draft := s.1 } : OpenRow).push frame, s.2)) rfl
  simp only [readItem, hstart]
  rw [leave_read frame { r with draft := s.1 } s.2 (depth + 1) content rfl, visitsItem]
  simp only [hflat, if_true]
  refine ⟨?_, trivial⟩
  rw [← hflat, hstart, closeFrame_of_flattened (by rw [hinner]; rfl), hinner]
  by_cases hempty : Item.elements content = []
  · obtain ⟨hdraft, htally, hvisits⟩ := read_of_texts (o := o) (depth + 1)
      (above ++ [name]) content hempty
      (({ r with draft := s.1 } : OpenRow).push frame, s.2)
    rw [hvisits, hdraft, htally, hempty]
    simp only [push, List.isEmpty_nil, Bool.not_true, Bool.or_false]
    exact .leaf (e := ⟨name, attributes, content⟩) hempty
  · rw [if_pos (by simp [hempty])]
    exact .group (e := ⟨name, attributes, content⟩) hempty hpass

/-- A skipped element leaves the draft as it is, and the counters as its start left them. -/
theorem readItem_skipped {u : Tally} {frame : Frame} (hf : frame.role = .skipped)
    (hstart : r.startChild o (o.isFlattened (depth + 1)) name attributes t = (r.push frame, u))
    (content : List Item) :
    readItem o depth (.element name attributes content) (r, t) =
      ({ r with innermost := { r.innermost with hasChildren := true } }, u) := by
  obtain ⟨hdraft, hrole⟩ := read_of_skipped (o := o) (depth + 1) content
    (p := (r.push frame, u)) hf
  simp only [readItem, hstart]
  rw [leave_read frame r u (depth + 1) content rfl, closeFrame_skipped hrole, hdraft,
    tally_of_skipped content (by exact hf)]
  rfl

/-- A structural element, from its start to its end. -/
theorem passes_structural (hf : r.innermost.StandsAt (some above))
    (ha : ∀ path, o.projection.admits path = true) (hflat : o.isFlattened (depth + 1) = false)
    (name : String) (attributes : Entries String) (content : List Item) (t : Tally)
    (ih : ∀ {p : OpenRow × Tally}, p.1.innermost.StandsAt (some (above ++ [name])) →
      Passes o (some (above ++ [name])) (visits o (depth + 1) (above ++ [name]) content p)
        (p.1.draft, p.2)
        ((read o (depth + 1) content p).1.draft, (read o (depth + 1) content p).2)) :
    let q := readItem o depth (.element name attributes content) (r, t)
    Passes o (some above) (visitsItem o depth above (.element name attributes content) (r, t))
        (r.draft, t) (q.1.draft, q.2) ∧
      q.1.innermost = { r.innermost with hasChildren := true } := by
  intro q
  obtain ⟨hr, rfl⟩ := hf
  have hfield : r.startChild o (o.isFlattened (depth + 1)) name attributes t =
      r.startField o name attributes t := by
    rw [hflat, startChild_of_built hr]
  have hskip {u : Tally} (hc : u.flattenCollisions = t.flattenCollisions)
      (hd : u.duplicateAttributes = t.duplicateAttributes)
      (hstart : r.startField o name attributes t =
        (r.push { role := .skipped, path := r.innermost.path ++ [name] }, u)) :
      Passes o (some r.innermost.path) [] (r.draft, t) (q.1.draft, q.2) ∧
        q.1.innermost = { r.innermost with hasChildren := true } := by
    have hq : q = _ := readItem_skipped (by rfl) (hfield.trans hstart) content
    rw [hq]
    exact ⟨.skipped hc hd, rfl⟩
  rw [visitsItem]
  simp only [hflat, Bool.false_eq_true, if_false]
  by_cases hattr : r.innermost.path ++ [name] = attributesPath
  · rw [if_pos (Or.inl hattr)]
    refine hskip (u := { t with reservedCollisions := t.reservedCollisions + 1 }) rfl rfl ?_
    simp only [startField, hattr, if_true]
  cases htaken : r.draft.isTaken r.innermost.path name with
  | true =>
    have hinsert := Draft.insert_of_taken htaken
    rw [if_pos (Or.inr rfl)]
    refine hskip (u := { t with duplicateFields := t.duplicateFields + 1 }) rfl rfl ?_
    simp only [startField, hattr, if_false, ha, Bool.not_true, Bool.false_eq_true, hinsert]
  | false =>
    obtain ⟨d, hinsert⟩ : ∃ d, r.draft.insert r.innermost.path name = some d :=
      ⟨_, Draft.insert_of_free htaken⟩
    let s := collecting o (label (r.innermost.path ++ [name])) attributes (d, t)
    let frame : Frame := { role := .built, path := r.innermost.path ++ [name] }
    have hstart : r.startChild o (o.isFlattened (depth + 1)) name attributes t =
        (({ r with draft := s.1 } : OpenRow).push frame, s.2) := by
      rw [hfield]
      simp only [startField, hattr, if_false, ha, Bool.not_true, Bool.false_eq_true, hinsert,
        collect_eq]
      rfl
    have hinner := innermost_read (o := o) (depth + 1) content
      (p := (({ r with draft := s.1 } : OpenRow).push frame, s.2)) (Or.inl rfl)
    have hpass := ih (p := (({ r with draft := s.1 } : OpenRow).push frame, s.2)) ⟨rfl, rfl⟩
    rw [if_neg (by simp [hattr]), ← hflat, hstart, show q = _ by
      simp only [q, readItem, hstart]
      exact leave_read frame { r with draft := s.1 } s.2 (depth + 1) content rfl]
    rw [closeFrame_built (by rw [hinner]; rfl), hinner]
    exact ⟨.field (e := ⟨name, attributes, content⟩) _ hinsert hpass, rfl⟩

theorem standsAt_congr {f f' : Frame} (h : f.StandsAt place) (hr : f'.role = f.role)
    (hp : f'.path = f.path) : f'.StandsAt place := by
  cases place with
  | none => exact hr.trans h
  | some path => exact ⟨hr.trans h.1, hp.trans h.2⟩

/-- **A row of every column reads its elements** one by one. -/
theorem passes_read (depth : Nat) (ha : ∀ path, o.projection.admits path = true) (items : List Item)
    (hf : p.1.innermost.StandsAt place)
    (hplace : place = some above ∨ place = none ∧ o.isFlattened (depth + 1) = true) :
    Passes o place (visits o depth above items p) (p.1.draft, p.2)
      ((read o depth items p).1.draft, (read o depth items p).2) := by
  induction items using Item.induction generalizing depth above place p with
  | nil => exact .nil
  | text value rest ih =>
    have htext : (p.1.text value).draft = p.1.draft ∧
        (p.1.text value).innermost.role = p.1.innermost.role ∧
        (p.1.text value).innermost.path = p.1.innermost.path := by
      unfold OpenRow.text
      split <;> exact ⟨rfl, rfl, rfl⟩
    rw [visits_text, read_text, ← htext.1]
    exact ih depth (standsAt_congr hf htext.2.1 htext.2.2) hplace
  | element name attributes content rest ihContent ihRest =>
    rw [visits_element, read_cons]
    suffices hitem : Passes o place (visitsItem o depth above (.element name attributes content) p)
        (p.1.draft, p.2) ((readItem o depth (.element name attributes content) p).1.draft,
          (readItem o depth (.element name attributes content) p).2) ∧
        (readItem o depth (.element name attributes content) p).1.innermost =
          { p.1.innermost with hasChildren := true } by
      refine .append hitem.1 (ihRest depth ?_ hplace)
      exact standsAt_congr hf (by rw [hitem.2]) (by rw [hitem.2])
    cases hflat : o.isFlattened (depth + 1) with
    | true =>
      exact passes_flattened hf hflat name attributes content p.2 fun hp =>
        ihContent _ hp (Or.inr ⟨rfl, isFlattened_succ hflat⟩)
    | false =>
      obtain rfl := hplace.resolve_right fun h => by simp [hflat] at h
      exact passes_structural hf ha hflat name attributes content p.2 fun hp =>
        ihContent _ hp (Or.inl rfl)

end OpenRow

/-! ## Rows -/

namespace Element

variable {o : ReaderOptions}

/-- The elements inside a row element that are not skipped, in document order. -/
def visits (o : ReaderOptions) (e : Element) : List Visit :=
  OpenRow.visits o o.dataLevel [] e.content (e.opened o, {})

/-- **The row of an element, with the counters.** -/
theorem passes_row (ha : ∀ path, o.projection.admits path = true) (e : Element) (t : Tally) :
    Passes o (some []) (e.visits o) ((e.opened o).draft, e.tallied o t)
      ((e.readRow o).draft, e.counted o t) := by
  have hstands : (e.opened o).innermost.StandsAt (some []) := ⟨rfl, rfl⟩
  have hpass := OpenRow.passes_read (p := (e.opened o, e.tallied o t)) o.dataLevel ha e.content
    hstands (Or.inl rfl)
  have hvisits : OpenRow.visits o o.dataLevel [] e.content (e.opened o, e.tallied o t) =
      e.visits o := OpenRow.visits_congr e.content rfl
  have hrow : (OpenRow.read o o.dataLevel e.content (e.opened o, e.tallied o t)).1 = e.readRow o :=
    OpenRow.read_fst o.dataLevel e.content rfl
  rw [hvisits, hrow] at hpass
  exact hpass

end Element

end Tabular
