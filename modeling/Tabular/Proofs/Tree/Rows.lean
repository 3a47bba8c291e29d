import Tabular.Proofs.Reader.Windows
import Tabular.Proofs.Tree.Scan

/-!
# Readers over element trees

* `ReaderOptions.emitted`, **`rest_spells`**: the elements whose rows a reader may give, and the
  batches of a nested stream;
* `Item.events`, `spells_events`: a stream that walks over given items;
* `Item.nest`, **`exists_stream_of_rows`**: some items inside further elements, and a stream with
  given elements as its only rows.
-/

namespace Tabular

/-! ## Batches of nested streams -/

/-- The elements of a stream whose rows the reader may give. -/
def ReaderOptions.emitted (o : ReaderOptions) (items : List Item) : List Element :=
  match o.limit with
  | none => o.rowElements items
  | some limit => (o.rowElements items).take limit

section Passage

variable {o : ReaderOptions}

/-- A stream that is complete can be read. -/
theorem halt_passage_complete (events : List Event) (given : Nat) (s : Scan) (fault : FileFault) :
    (passage o .complete events given s).halt ≠ .unreadable fault := by
  induction events generalizing given s with
  | nil => cases h : s.openTags <;> simp [passage, Ending.halt, h]
  | cons event rest ih =>
    cases hf : s.feed o event with
    | error error => simp [passage_cons_error hf]
    | ok q =>
      obtain ⟨s', _ | row⟩ := q
      · rw [passage_cons_none hf]
        exact ih given s'
      · rw [passage_cons_some hf]
        split
        · simp
        · exact ih (given + 1) s'

theorem handedOut_complete (size : Nat) (events : List Event) (given : Nat) (s : Scan) :
    (passage o .complete events given s).handedOut size =
      (passage o .complete events given s).rows := by
  rw [Passage.handedOut]
  split
  · next fault h => exact absurd h (halt_passage_complete events given s fault)
  · rfl

theorem Element.take_toRows (count first : Nat) (es : List Element) :
    (Element.toRows o first es).take count = Element.toRows o first (es.take count) := by
  refine List.ext_getElem? fun i => ?_
  simp only [Element.toRows, List.getElem?_take, List.getElem?_mapIdx]
  split <;> rfl

/-- **The batches of a nested stream** are windows over the rows of its row elements. -/
theorem rest_spells (hv : o.Valid) {items : List Item} {events : List Event}
    (h : Spells items events) :
    (Reader.start o ⟨events, .complete⟩).rest.result.1 =
      windows o 0 (RowSchema.start o.projection) (Element.toRows o 0 (o.emitted items)) := by
  obtain ⟨s, hr, _⟩ := Scan.run_spells hv.levels_valid.one_le h
  by_cases hl : o.limit = some 0
  · rw [Reader.rest_of_limit_zero hl, ReaderOptions.emitted, hl]
    exact windows_nil.symm
  · have hdone := Reader.finished_rest hv.one_le_batchSize hl ⟨events, .complete⟩
    rw [hdone.batches, handedOut_complete, Reader.window_start]
    refine congrArg (windows o 0 (RowSchema.start o.projection)) ?_
    cases hlimit : o.limit with
    | none =>
      rw [passage_of_run hlimit hr, ReaderOptions.emitted, hlimit]
    | some limit =>
      have hpos : 0 < limit := by
        rw [hlimit] at hl
        exact Nat.pos_of_ne_zero fun h0 => hl (congrArg some h0)
      rw [rows_passage hlimit hpos hr, Nat.sub_zero, Element.take_toRows, ReaderOptions.emitted,
        hlimit]

end Passage

/-! ## Streams of given elements -/

namespace Item

mutual

/-- The walk over an item, each end under the name of its element. -/
def eventsOf : Item → List Event
  | .text value => [.text value]
  | .element name attributes content =>
    .start name attributes :: (events content ++ [.finish name])

/-- The walk over some items. -/
def events : List Item → List Event
  | [] => []
  | item :: rest => eventsOf item ++ events rest

end

end Item

theorem spells_events (items : List Item) : Spells items (Item.events items) := by
  induction items using Item.induction with
  | nil => exact .nil
  | text value rest ih => exact .text ih
  | element name attributes content rest ihContent ihRest =>
    have hc : Event.closes name name = true := by simp [Event.closes]
    rw [Item.events, Item.eventsOf, List.cons_append, List.append_assoc]
    exact .element hc ihContent ihRest

/-- Some items inside so many elements. -/
def Item.nest (name : String) : Nat → List Item → List Item
  | 0, items => items
  | depth + 1, items => [.element name [] (nest name depth items)]

theorem rowsAt_nest {o : ReaderOptions} (name : String) (depth : Nat) (items : List Item) :
    o.rowsAt depth (Item.nest name depth items) = o.rowsAt 0 items := by
  induction depth with
  | zero => rfl
  | succ depth ih => rw [Item.nest, rowsAt_succ_element, rowsAt_nil, List.append_nil, ih]

/-- The element among items. -/
def Element.toItem (e : Element) : Item :=
  .element e.name e.attributes e.content

theorem rowsAt_zero_toItem {o : ReaderOptions} (es : List Element) :
    o.rowsAt 0 (es.map Element.toItem) = es.filter fun e => o.levels.isRowName e.name := by
  induction es with
  | nil => rfl
  | cons e rest ih =>
    rw [List.map_cons, Element.toItem, rowsAt_zero_element, ih, List.filter_cons]
    split <;> rfl

/-- **There is a stream with given elements as its only rows.** -/
theorem exists_stream_of_rows {o : ReaderOptions} {es : List Element}
    (h : ∀ e ∈ es, o.levels.isRowName e.name = true) :
    ∃ items events, Spells items events ∧ o.rowElements items = es := by
  refine ⟨_, _, spells_events (Item.nest "" (o.dataLevel - 1) (es.map Element.toItem)), ?_⟩
  rw [ReaderOptions.rowElements, rowsAt_nest, rowsAt_zero_toItem, List.filter_eq_self]
  exact h

theorem exists_stream {o : ReaderOptions} {e : Element} (he : o.levels.isRowName e.name = true) :
    ∃ items events, Spells items events ∧ o.rowElements items = [e] :=
  exists_stream_of_rows fun _ hmem => List.mem_singleton.mp hmem ▸ he

theorem emitted_singleton {o : ReaderOptions} (hl : o.limit ≠ some 0) {items : List Item}
    {e : Element} (h : o.rowElements items = [e]) : o.emitted items = [e] := by
  rw [ReaderOptions.emitted]
  split
  · exact h
  · next limit hlimit =>
    rw [h]
    cases limit with
    | zero => exact absurd hlimit hl
    | succ limit => simp

/-- A name that starts rows. -/
def ReaderOptions.rowName (o : ReaderOptions) : String :=
  o.rowTag.getD "row"

theorem isRowName_rowName (o : ReaderOptions) : o.levels.isRowName o.rowName = true := by
  unfold Levels.isRowName ReaderOptions.rowName ReaderOptions.levels
  cases o.rowTag <;> simp

end Tabular
