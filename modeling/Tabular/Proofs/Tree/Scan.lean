import Tabular.Proofs.Reader.Passage
import Tabular.Proofs.Tree.Read

/-!
# Scanning element trees

On a nested stream the scan is a function of the tree: the elements at the depth of rows become
rows one by one, and each of them is read on its own.

* `run_inside`, `run_skipped`, `run_outside`: the scan inside a row, inside a skipped element, and
  around the rows;
* `Element.toRow`, `Element.counted`, `ReaderOptions.rowElements`: the row of an element, the
  counters at its end, and which elements are rows;
* `run_row`: the scan of a row element;
* **`run_spells`**: the rows of a stream that walks over some items.
-/

namespace Tabular

/-! ## Scanning inside a row -/

namespace Scan

variable {o : ReaderOptions} {s : Scan}

/-- The state with a row under construction. -/
def within (s : Scan) (p : OpenRow × Tally) : Scan :=
  { s with builder := { s.builder with row := some p.1, tally := p.2 } }

/-- An element is scanned by its start, its content, its end, and the rest. -/
theorem run_element {s₁ s₂ s₃ s₄ : Scan} {name closing : String} {attributes : Entries String}
    {inner events : List Event} {row? : Option Row} {rows later : List Row}
    (hstart : s.feed o (.start name attributes) = .ok (s₁, none))
    (hinner : run o s₁ inner = .ok (s₂, rows))
    (hfinish : s₂.feed o (.finish closing) = .ok (s₃, row?))
    (hrest : run o s₃ events = .ok (s₄, later)) :
    run o s (.start name attributes :: (inner ++ .finish closing :: events)) =
      .ok (s₄, rows ++ (row?.toList ++ later)) := by
  rw [run_cons hstart, run_append hinner, run_cons hfinish, hrest]
  rfl

theorem start_within (hs : s.skipDepth = none) (hd : o.dataLevel ≤ s.openTags.length)
    (name : String) (attributes : Entries String) (p : OpenRow × Tally) :
    (s.within p).start o name attributes = (s.opening name).within
      (p.1.startChild o (o.isFlattened (s.openTags.length + 1)) name attributes p.2) :=
  start_inside (s := s.within p) hs hd name attributes

theorem text_within (hs : s.skipDepth = none) (value : String) (p : OpenRow × Tally) :
    (s.within p).text value = s.within (p.1.text value, p.2) := by
  unfold text
  split
  · next h =>
    simp only [within, hs, Option.isSome_none, Bool.false_or, String.isEmpty_iff] at h
    rw [h, OpenRow.text_empty]
  · rfl

theorem feed_finish_within (hs : s.skipDepth = none) {opened closing : String}
    (hc : Event.closes closing opened = true) {p : OpenRow × Tally} (hp : p.1.outer ≠ []) :
    ((s.opening opened).within p).feed o (.finish closing) =
      .ok (s.within (p.1.leave o p.2), none) := by
  simp only [feed, within, opening, hc, if_true, close, hs]
  rw [Builder.finish_of_inside rfl hp]

/-- **Inside a row the scan reads the items.** -/
theorem run_inside {items : List Item} {events : List Event} (h : Spells items events) :
    ∀ {s : Scan}, s.skipDepth = none → o.dataLevel ≤ s.openTags.length → ∀ p : OpenRow × Tally,
      run o (s.within p) events = .ok (s.within (OpenRow.read o s.openTags.length items p), []) := by
  induction h with
  | nil =>
    intro s _ _ p
    rfl
  | @text value items events _ ih =>
    intro s hs hd p
    have hf : (s.within p).feed o (.text value) = .ok (s.within (p.1.text value, p.2), none) := by
      rw [feed, text_within hs]
    rw [run_cons hf, ih hs hd, OpenRow.read_text]
    rfl
  | @element name closing attributes content items inner events hc _ _ ihContent ihRest =>
    intro s hs hd p
    have hf : (s.within p).feed o (.start name attributes) = .ok ((s.opening name).within
        (p.1.startChild o (o.isFlattened (s.openTags.length + 1)) name attributes p.2), none) := by
      rw [feed, start_within hs hd]
    have hin := ihContent (s := s.opening name) hs (Nat.le_succ_of_le hd)
      (p.1.startChild o (o.isFlattened (s.openTags.length + 1)) name attributes p.2)
    have hout := feed_finish_within (o := o) hs hc (p := OpenRow.read o (s.openTags.length + 1)
      content (p.1.startChild o (o.isFlattened (s.openTags.length + 1)) name attributes p.2))
      (by rw [OpenRow.outer_read, OpenRow.outer_startChild]; exact List.cons_ne_nil _ _)
    exact run_element hf hin hout (ihRest hs hd _)

/-- Inside a skipped element the scan goes on to its end. -/
theorem run_skipped {items : List Item} {events : List Event} (h : Spells items events) :
    ∀ {s : Scan} {d : Nat}, s.skipDepth = some d → d ≤ s.openTags.length →
      run o s events = .ok (s, []) := by
  induction h with
  | nil =>
    intro s d _ _
    rfl
  | @text value items events _ ih =>
    intro s d hs hd
    have hf : s.feed o (.text value) = .ok (s, none) := by
      simp [feed, text, hs]
    rw [run_cons hf, ih hs hd]
    rfl
  | @element name closing attributes content items inner events hc _ _ ihContent ihRest =>
    intro s d hs hd
    have hf : s.feed o (.start name attributes) = .ok (s.opening name, none) := by
      simp [feed, start, hs, opening]
    have hin := ihContent (s := s.opening name) hs (Nat.le_succ_of_le hd)
    have hne : (s.opening name).openTags.length ≠ d := by
      simp only [opening, List.length_cons]
      omega
    have hout : (s.opening name).feed o (.finish closing) = .ok (s, none) := by
      simp only [feed, opening, hc, if_true, close, hs] at hne ⊢
      rw [if_neg hne, ← hs]
    exact run_element hf hin hout (ihRest hs hd)

end Scan

/-! ## Rows -/

namespace Element

/-- The row of an element, where it starts. -/
def opened (o : ReaderOptions) (e : Element) : OpenRow where
  draft :=
    { tag := e.name, attributes := (Collected.ofRow o.projection e.attributes ⟨[], 0⟩).kept }
  innermost := { role := .built, path := [] }

/-- The counters where the row of an element starts. -/
def tallied (o : ReaderOptions) (t : Tally) (e : Element) : Tally :=
  { t with
    duplicateAttributes :=
      (Collected.ofRow o.projection e.attributes ⟨[], t.duplicateAttributes⟩).duplicates }

/-- The counters where the row of an element ends. -/
def counted (o : ReaderOptions) (t : Tally) (e : Element) : Tally :=
  (OpenRow.read o o.dataLevel e.content (e.opened o, e.tallied o t)).2

/-- The row of an element, read to its end. -/
def readRow (o : ReaderOptions) (e : Element) : OpenRow :=
  (OpenRow.read o o.dataLevel e.content (e.opened o, {})).1

/-- The finished row of an element. -/
def toRow (o : ReaderOptions) (ordinal : Int) (e : Element) : Row :=
  (e.readRow o).draft.toRow ordinal

/-- The rows of some elements, numbered from `first` on. -/
def toRows (o : ReaderOptions) (first : Nat) (es : List Element) : List Row :=
  es.mapIdx fun i e => e.toRow o (first + i : Nat)

variable {o : ReaderOptions}

theorem toRows_append (first : Nat) (es later : List Element) :
    toRows o first (es ++ later) = toRows o first es ++ toRows o (first + es.length) later := by
  simp only [toRows, List.mapIdx_append]
  congr 2
  funext i e
  rw [Nat.add_assoc, Nat.add_comm i]

theorem map_toRows {β : Type} {g : Row → β} {g' : Element → β}
    (h : ∀ (ordinal : Int) (e : Element), g (e.toRow o ordinal) = g' e) (first : Nat)
    (es : List Element) : (toRows o first es).map g = es.map g' := by
  refine List.ext_getElem? fun i => ?_
  rw [List.getElem?_map, toRows, List.getElem?_mapIdx, List.getElem?_map]
  cases es[i]? with
  | none => rfl
  | some e => exact congrArg some (h _ e)

theorem ordinal_toRows (first : Nat) (es : List Element) :
    (toRows o first es).map Row.ordinal = (List.range' first es.length).map Int.ofNat := by
  refine List.ext_getElem (by simp [toRows]) fun i h₁ h₂ => ?_
  simp [toRows, toRow, Draft.toRow]

theorem length_toRows (first : Nat) (es : List Element) : (toRows o first es).length = es.length :=
  List.length_mapIdx

end Element

/-- The elements among some items, `depth` levels down, that are rows. -/
def ReaderOptions.rowsAt (o : ReaderOptions) (depth : Nat) (items : List Item) : List Element :=
  (Item.elementsAt depth items).filter fun e => o.levels.isRowName e.name

/-- The elements of a stream that are rows. -/
def ReaderOptions.rowElements (o : ReaderOptions) (items : List Item) : List Element :=
  o.rowsAt (o.dataLevel - 1) items

section Rows

variable {o : ReaderOptions}

theorem rowsAt_nil (depth : Nat) : o.rowsAt depth [] = [] := by
  cases depth <;> rfl

theorem rowsAt_text (depth : Nat) (value : String) (items : List Item) :
    o.rowsAt depth (.text value :: items) = o.rowsAt depth items := by
  cases depth <;> rfl

theorem rowsAt_zero_element (name : String) (attributes : Entries String)
    (content items : List Item) :
    o.rowsAt 0 (.element name attributes content :: items) =
      (if o.levels.isRowName name then [⟨name, attributes, content⟩] else []) ++
        o.rowsAt 0 items := by
  simp only [ReaderOptions.rowsAt, Item.elementsAt, Item.elements, List.filter_cons]
  split <;> rfl

theorem rowsAt_succ_element (depth : Nat) (name : String) (attributes : Entries String)
    (content items : List Item) :
    o.rowsAt (depth + 1) (.element name attributes content :: items) =
      o.rowsAt depth content ++ o.rowsAt (depth + 1) items := by
  simp only [ReaderOptions.rowsAt, Item.elementsAt, Item.elements, List.flatMap_cons,
    List.filter_append]

end Rows

namespace Scan

variable {o : ReaderOptions}

/-- Nothing is under construction or skipped. -/
structure IsOutside (s : Scan) : Prop where
  skipDepth : s.skipDepth = none
  row : s.builder.row = none

/-- The scan stands outside of rows again, at the same depth, behind some rows. -/
structure Passed (s s' : Scan) (rows : List Row) : Prop extends s'.IsOutside where
  openTags : s'.openTags = s.openTags
  sealedRows : s'.builder.sealedRows = s.builder.sealedRows + rows.length

theorem Passed.trans {s s₁ s₂ : Scan} {rows later : List Row} (h₁ : s.Passed s₁ rows)
    (h₂ : s₁.Passed s₂ later) : s.Passed s₂ (rows ++ later) := by
  refine ⟨h₂.toIsOutside, h₂.openTags.trans h₁.openTags, ?_⟩
  rw [h₂.sealedRows, h₁.sealedRows, List.length_append, Nat.add_assoc]

section Outside

variable {s : Scan} {name closing : String} {attributes : Entries String} {content : List Item}
  {inner : List Event}

theorem text_outside (hs : s.IsOutside) (value : String) :
    s.feed o (.text value) = .ok (s, none) := by
  rw [feed, text]
  split
  · rfl
  · rw [Builder.text, hs.row, Option.map_none, ← hs.row]

theorem start_above (attributes : Entries String) (hs : s.IsOutside)
    (hd : s.openTags.length + 1 < o.dataLevel) :
    s.feed o (.start name attributes) = .ok (s.opening name, none) := by
  simp [feed, start, hs.skipDepth, Levels.place, ReaderOptions.levels, hd, opening]

theorem finish_above (hs : (s.opening name).IsOutside)
    (hc : Event.closes closing name = true) :
    (s.opening name).feed o (.finish closing) = .ok (s, none) := by
  have hskip : s.skipDepth = none := hs.skipDepth
  have hrow : s.builder.row = none := hs.row
  simp only [feed, opening, hc, if_true, close, hskip, Builder.finish, hrow]
  rw [← hskip]

/-- An element above the rows hands on what is inside it. -/
theorem run_above {s' : Scan} {rows : List Row} (attributes : Entries String) (hs : s.IsOutside)
    (hd : s.openTags.length + 1 < o.dataLevel) (hc : Event.closes closing name = true)
    (hr : run o (s.opening name) inner = .ok (s', rows)) (hp : (s.opening name).Passed s' rows) :
    ∃ s', run o s (.start name attributes :: (inner ++ [.finish closing])) = .ok (s', rows) ∧
      s.Passed s' rows := by
  have hs' : s' = ({ s' with openTags := s.openTags } : Scan).opening name := by
    obtain ⟨tags, skip, skipped, builder⟩ := s'
    obtain rfl : tags = name :: s.openTags := hp.openTags
    rfl
  have hfinish := finish_above (o := o) (s := { s' with openTags := s.openTags })
    (hs' ▸ hp.toIsOutside) hc
  rw [← hs'] at hfinish
  have hone := run_element (start_above attributes hs hd) hr hfinish (rfl : run o _ [] = _)
  rw [Option.toList_none, List.append_nil, List.append_nil] at hone
  exact ⟨{ s' with openTags := s.openTags }, hone, ⟨⟨hp.skipDepth, hp.row⟩, rfl, hp.sealedRows⟩⟩

theorem place_row (hd : s.openTags.length + 1 = o.dataLevel) :
    o.levels.place (s.openTags.length + 1) name =
      if o.levels.isRowName name then .rowStart else .skipped := by
  simp [Levels.place, ReaderOptions.levels, hd]

/-- An element under another name at the depth of rows is passed over. -/
theorem run_skippedElement (attributes : Entries String) (hs : s.IsOutside)
    (hd : s.openTags.length + 1 = o.dataLevel) (hn : o.levels.isRowName name = false)
    (hc : Event.closes closing name = true)
    (hin : Spells content inner) :
    ∃ s', run o s (.start name attributes :: (inner ++ [.finish closing])) = .ok (s', []) ∧
      s.Passed s' [] := by
  have hstart : s.feed o (.start name attributes) = .ok ({ s.opening name with
      skipDepth := some (s.openTags.length + 1), skippedElements := s.skippedElements + 1 },
      none) := by
    simp [feed, start, hs.skipDepth, place_row hd, hn, opening]
  have hfinish : ({ s.opening name with
      skipDepth := some (s.openTags.length + 1), skippedElements := s.skippedElements + 1 } :
      Scan).feed o (.finish closing) =
        .ok ({ s with skippedElements := s.skippedElements + 1 }, none) := by
    simp [feed, opening, hc, close, hs.skipDepth]
  exact ⟨_, run_element hstart (run_skipped hin rfl (Nat.le_refl _)) hfinish rfl,
    ⟨hs.skipDepth, hs.row⟩, rfl, rfl⟩

/-- The start of a row element. -/
theorem start_row (attributes : Entries String) (hs : s.IsOutside)
    (hd : s.openTags.length + 1 = o.dataLevel) (hn : o.levels.isRowName name = true)
    (content : List Item) :
    s.feed o (.start name attributes) = .ok ((s.opening name).within
      ((⟨name, attributes, content⟩ : Element).opened o,
        (⟨name, attributes, content⟩ : Element).tallied o s.builder.tally), none) := by
  let c := Collected.ofRow o.projection attributes ⟨[], s.builder.tally.duplicateAttributes⟩
  have hkept : c.kept = (Collected.ofRow o.projection attributes ⟨[], 0⟩).kept :=
    Collected.kept_offerAll (c := ⟨[], s.builder.tally.duplicateAttributes⟩) (d := ⟨[], 0⟩) rfl ""
      attributes
  obtain ⟨tags, skip, skipped, builder⟩ := s
  obtain rfl : skip = none := hs.skipDepth
  simp only [feed, start, Option.isSome_none, Bool.false_eq_true, if_false, List.length_cons]
  rw [place_row hd, hn, if_pos rfl]
  simp only [Builder.startRow, opening, within, Element.opened, ← hkept]
  rfl

/-- The end of a row element. -/
theorem finish_row (hs : s.IsOutside) (hc : Event.closes closing name = true)
    {p : OpenRow × Tally} (hp : p.1.outer = []) :
    ((s.opening name).within p).feed o (.finish closing) =
      .ok ({ s with builder := ⟨none, s.builder.sealedRows + 1, p.2⟩ },
        some (p.1.draft.toRow s.builder.sealedRows)) := by
  simp only [feed, within, opening, hc, if_true, close, hs.skipDepth, Builder.finish, hp]

/-- **An element at the depth of rows is read on its own**, and gives its row. -/
theorem run_row (attributes : Entries String) (hs : s.IsOutside)
    (hd : s.openTags.length + 1 = o.dataLevel) (hn : o.levels.isRowName name = true)
    (hc : Event.closes closing name = true) (hin : Spells content inner) :
    let e : Element := ⟨name, attributes, content⟩
    run o s (.start name attributes :: (inner ++ [.finish closing])) =
      .ok ({ s with builder := ⟨none, s.builder.sealedRows + 1, e.counted o s.builder.tally⟩ },
        [e.toRow o s.builder.sealedRows]) := by
  intro e
  have hstart := start_row attributes hs hd hn content
  have hread := run_inside (o := o) hin (s := s.opening name) hs.skipDepth
    (Nat.le_of_eq hd.symm) (e.opened o, e.tallied o s.builder.tally)
  rw [show (s.opening name).openTags.length = o.dataLevel from hd] at hread
  have hfinish := finish_row (o := o) hs hc (p := OpenRow.read o o.dataLevel content
    (e.opened o, e.tallied o s.builder.tally)) (OpenRow.outer_read _ _ _)
  rw [OpenRow.read_fst (p := (e.opened o, e.tallied o s.builder.tally)) (q := (e.opened o, {})) _ _
    rfl] at hfinish
  exact run_element hstart hread hfinish rfl

/-- An element at the depth of rows gives its row. -/
theorem run_rowElement (attributes : Entries String) (hs : s.IsOutside)
    (hd : s.openTags.length + 1 = o.dataLevel) (hn : o.levels.isRowName name = true)
    (hc : Event.closes closing name = true)
    (hin : Spells content inner) :
    ∃ s', run o s (.start name attributes :: (inner ++ [.finish closing])) =
        .ok (s', [Element.toRow o s.builder.sealedRows ⟨name, attributes, content⟩]) ∧
      s.Passed s' [Element.toRow o s.builder.sealedRows ⟨name, attributes, content⟩] :=
  ⟨_, run_row attributes hs hd hn hc hin, ⟨hs.skipDepth, rfl⟩, rfl, rfl⟩

end Outside

/-- **Around the rows the scan turns the elements at the depth of rows into rows.** -/
theorem run_outside {items : List Item} {events : List Event} (h : Spells items events) :
    ∀ {s : Scan} {depth : Nat}, s.IsOutside → s.openTags.length + 1 + depth = o.dataLevel →
      ∃ s', run o s events =
          .ok (s', Element.toRows o s.builder.sealedRows (o.rowsAt depth items)) ∧
        s.Passed s' (Element.toRows o s.builder.sealedRows (o.rowsAt depth items)) := by
  induction h with
  | nil =>
    intro s depth hs hd
    rw [rowsAt_nil]
    exact ⟨s, rfl, hs, rfl, rfl⟩
  | @text value items events _ ih =>
    intro s depth hs hd
    obtain ⟨s', hr, hp⟩ := ih hs hd
    rw [rowsAt_text, run_cons (text_outside hs value), hr]
    exact ⟨s', rfl, hp⟩
  | @element name closing attributes content items inner events hc hin _ ihContent ihRest =>
    intro s depth hs hd
    -- the element on its own, then the rest behind its rows
    suffices hone : ∃ s' es, o.rowsAt depth (.element name attributes content :: items) =
          es ++ o.rowsAt depth items ∧
        run o s (.start name attributes :: (inner ++ [.finish closing])) =
          .ok (s', Element.toRows o s.builder.sealedRows es) ∧
        s.Passed s' (Element.toRows o s.builder.sealedRows es) by
      obtain ⟨s₁, es, hes, hr₁, hp₁⟩ := hone
      obtain ⟨s₂, hr₂, hp₂⟩ := ihRest hp₁.toIsOutside (hp₁.openTags ▸ hd)
      rw [hp₁.sealedRows, Element.length_toRows] at hr₂ hp₂
      rw [hes, Element.toRows_append]
      refine ⟨s₂, ?_, hp₁.trans hp₂⟩
      rw [show Event.start name attributes :: (inner ++ .finish closing :: events) =
        (.start name attributes :: (inner ++ [.finish closing])) ++ events by simp,
        run_append hr₁, hr₂]
      rfl
    cases depth with
    | zero =>
      cases hn : o.levels.isRowName name with
      | false =>
        obtain ⟨s', hr, hp⟩ := run_skippedElement attributes hs hd hn hc hin
        refine ⟨s', [], ?_, hr, hp⟩
        rw [rowsAt_zero_element, hn]
        rfl
      | true =>
        obtain ⟨s', hr, hp⟩ := run_rowElement attributes hs hd hn hc hin
        refine ⟨s', [⟨name, attributes, content⟩], ?_, hr, hp⟩
        rw [rowsAt_zero_element, hn]
        rfl
    | succ depth =>
      have hd' : (s.opening name).openTags.length + 1 + depth = o.dataLevel := by
        simp only [opening, List.length_cons]
        omega
      obtain ⟨s₁, hr₁, hp₁⟩ := ihContent (s := s.opening name) ⟨hs.skipDepth, hs.row⟩ hd'
      obtain ⟨s', hr, hp⟩ := run_above attributes hs (by omega) hc hr₁ hp₁
      exact ⟨s', o.rowsAt depth content, rowsAt_succ_element depth name attributes content items,
        hr, hp⟩

/-- **The rows of a stream that walks over some items are those of its row elements.** -/
theorem run_spells (hd : 1 ≤ o.dataLevel) {items : List Item} {events : List Event}
    (h : Spells items events) :
    ∃ s, run o {} events = .ok (s, Element.toRows o 0 (o.rowElements items)) ∧ s.openTags = [] := by
  have hdepth : ({} : Scan).openTags.length + 1 + (o.dataLevel - 1) = o.dataLevel := by
    simp only [List.length_nil]
    omega
  obtain ⟨s, hr, hp⟩ := run_outside h ⟨rfl, rfl⟩ hdepth
  exact ⟨s, hr, hp.openTags⟩

end Scan

end Tabular
