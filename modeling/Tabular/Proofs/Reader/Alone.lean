import Tabular.Proofs.Reader.Cut
import Tabular.Proofs.Tree.Rows

/-!
# Batches on their own

Where every batch has a schema of its own, nothing of the stream around its rows is left in it: it
is the only batch of any stream that has just these rows.

* `Row.content`, **`RowSchema.foldAll_congr`**: the number of a row has no say in its record;
* `Element.content_toRows_window`: the rows of a window, in a stream of their own;
* `Batch.numbered`, **`numbered_windowBatch`**: a window without rows before it;
* **`rest_alone`**: the batch with a number, and the stream that has its rows alone.
-/

namespace Tabular

variable {o : ReaderOptions}

/-! ## Rows told apart by their numbers -/

/-- What a schema takes of a row. -/
def Row.content (row : Row) : Entries (Option String) × List Field :=
  (row.attributes, row.fields)

namespace Shape

variable {row row' : Int} {path : Path} {ss : List Shape} {f : Field} {rest : List Field}

/-- The same shapes and records come out, whatever the conflicts are. -/
def Absorbed.Same (a b : Absorbed) : Prop :=
  a.shapes = b.shapes ∧ a.entries = b.entries

theorem same_absorb_cons (hf : (absorbField row path ss f).Same (absorbField row' path ss f))
    (hr : ∀ ss, (absorb row path ss rest).Same (absorb row' path ss rest)) :
    (absorb row path ss (f :: rest)).Same (absorb row' path ss (f :: rest)) := by
  obtain ⟨hshapes, hentries⟩ := hf
  obtain ⟨hshapes', hentries'⟩ := hr (absorbField row' path ss f).shapes
  rw [absorb, absorb, hshapes]
  exact ⟨hshapes', by rw [hentries, hentries']⟩

theorem same_absorb (row row' : Int) (path : Path) (ss : List Shape) (fs : List Field) :
    (absorb row path ss fs).Same (absorb row' path ss fs) := by
  induction fs using Field.induction generalizing path ss with
  | nil => exact ⟨rfl, rfl⟩
  | scalar name handle value rest ih =>
    refine same_absorb_cons ?_ (ih path)
    simp only [absorbField]
    split <;> exact ⟨rfl, rfl⟩
  | map name handle fields rest ihFields ihRest =>
    refine same_absorb_cons ?_ (ihRest path)
    simp only [absorbField]
    split
    · obtain ⟨hshapes, hentries⟩ := ihFields (path ++ [name]) []
      exact ⟨by rw [hshapes], by rw [hentries]⟩
    · exact ⟨rfl, rfl⟩
    · next inner _ =>
      obtain ⟨hshapes, hentries⟩ := ihFields (path ++ [name]) inner
      exact ⟨by rw [hshapes], by rw [hentries]⟩

end Shape

namespace RowSchema

theorem fold_congr {row row' : Row} (h : row.content = row'.content) (s : RowSchema) :
    (s.fold row).schema = (s.fold row').schema ∧ (s.fold row).record = (s.fold row').record := by
  obtain ⟨hattributes, hfields⟩ := Prod.mk.inj h
  have hattributed : s.attributed row = s.attributed row' := by
    rw [attributed, attributed, hattributes]
  have hopening : s.opening row = s.opening row' := by
    rw [opening, opening, hattributes]
  obtain ⟨hshapes, hentries⟩ :=
    Shape.same_absorb row.ordinal row'.ordinal [] (s.attributed row') row'.fields
  refine ⟨congrArg (RowSchema.mk s.projection (s.rows + 1)) ?_, ?_⟩
  · exact (shapes_fold s row).trans (hattributed ▸ hfields ▸ hshapes)
  · rw [record_fold, record_fold, hopening, hattributed, hfields, hentries]

/-- **Rows with the same content** give the same records and the same schema. -/
theorem foldAll_congr {rows rows' : List Row} (h : rows.map Row.content = rows'.map Row.content)
    (s : RowSchema) : s.foldAll rows = s.foldAll rows' := by
  induction rows generalizing rows' s with
  | nil =>
    obtain rfl := List.map_eq_nil_iff.mp h.symm
    rfl
  | cons row rest ih =>
    obtain ⟨row', rest', rfl, hrow, hrest⟩ := List.map_eq_cons_iff.mp h.symm
    obtain ⟨hschema, hrecord⟩ := fold_congr hrow.symm s
    simp only [foldAll, hschema, hrecord, ih hrest.symm]

end RowSchema

/-! ## Windows without rows before them -/

/-- The batch under another number. -/
def Batch.numbered (index : Nat) (b : Batch) : Batch :=
  { b with index }

/-- **A window under a schema of its own** does not depend on the rows before it. -/
theorem numbered_windowBatch (hp : o.pinSchema = false) {now now' : List Row}
    (h : now.map Row.content = now'.map Row.content) (before before' : List Row) (index : Nat)
    (index' : Nat) : (windowBatch o before now index).numbered index' =
      windowBatch o before' now' index' := by
  have hnone : ∀ rows, takenBefore o rows = [] := fun rows => by
    rw [takenBefore, hp]
    rfl
  rw [windowBatch, windowBatch, windowAfter, windowAfter, hnone, hnone,
    RowSchema.foldAll_congr h]
  rfl

namespace Element

theorem toRows_eq_nil {first : Nat} {es : List Element} : toRows o first es = [] ↔ es = [] := by
  rw [← List.length_eq_zero_iff, length_toRows, List.length_eq_zero_iff]

theorem content_toRow (n n' : Int) (e : Element) :
    (e.toRow o n).content = (e.toRow o n').content := rfl

/-- The rows of a window, in a stream of their own. -/
theorem content_toRows_window (es : List Element) (first count : Nat) :
    (((toRows o 0 es).drop first).take count).map Row.content =
      (toRows o 0 ((es.drop first).take count)).map Row.content := by
  rw [List.map_take, List.map_drop, map_toRows (fun n e => content_toRow n 0 e),
    map_toRows (fun n e => content_toRow n 0 e), List.map_take, List.map_drop]

end Element

/-! ## Streams -/

namespace Reader

/-- The batches of a nested stream whose rows are not limited. -/
theorem result_of_spells (hv : o.Valid) (hl : o.limit = none) {items : List Item}
    {events : List Event} (h : Spells items events) :
    (start o ⟨events, .complete⟩).rest.result =
      (windows o 0 (windowAfter o []) (Element.toRows o 0 (o.rowElements items)), none) := by
  obtain ⟨s, hr, ht⟩ := Scan.run_spells hv.levels_valid.one_le h
  rw [result_rest hv.one_le_batchSize (by rw [hl]; nofun), passage_of_run hl hr, ht, windowAfter_nil]
  rfl

/-- **Batches are independent of each other**, where each has a schema of its own. For every nested
stream and every number there is a stream with just the row elements of the batch with that number,
and every such stream gives that batch and no other one; it gives none where the rows of the first
stream end before. -/
theorem rest_alone (hv : o.Valid) (hp : o.pinSchema = false) (hl : o.limit = none)
    {events : List Event} (h : Event.Nested [] events) :
    (∃ items, Spells items events) ∧ ∀ items, Spells items events → ∀ k,
      let es := ((o.rowElements items).drop (k * o.batchSize)).take o.batchSize
      (∃ items' events', Spells items' events' ∧ o.rowElements items' = es) ∧
      ∀ items' events', Spells items' events' → o.rowElements items' = es →
        (start o ⟨events', .complete⟩).rest.result =
          (((start o ⟨events, .complete⟩).rest.result.1[k]?.map (Batch.numbered 0)).toList, none) := by
  refine ⟨nested_iff_spells.mp h, fun items hi k => ⟨?_, fun items' events' hi' hes => ?_⟩⟩
  · refine exists_stream_of_rows fun e he => ?_
    have hmem := List.mem_of_mem_drop (List.mem_of_mem_take he)
    exact (List.mem_filter.mp hmem).2
  · have hb := hv.one_le_batchSize
    have hcontent := Element.content_toRows_window (o := o) (o.rowElements items)
      (k * o.batchSize) o.batchSize
    rw [result_of_spells hv hl hi', result_of_spells hv hl hi, hes, getElem?_windows hb,
      Element.length_toRows]
    split
    · next hlt =>
      have hne : ((o.rowElements items).drop (k * o.batchSize)).take o.batchSize ≠ [] := by
        rw [← List.length_pos_iff, List.length_take, List.length_drop]
        omega
      rw [windows_last (mt Element.toRows_eq_nil.mp hne) (by
        rw [Element.length_toRows, List.length_take]
        exact Nat.min_le_left _ _), Option.map_some, numbered_windowBatch hp hcontent]
      rfl
    · next hle =>
      rw [List.drop_of_length_le (Nat.le_of_not_lt hle), List.take_nil]
      exact congrArg (·, none) windows_nil

/-- Three rows in batches of two, with a skipped element and text around them: the second batch is
that of a stream with the third row alone. -/
theorem rest_alone_third :
    let o : ReaderOptions := { batchSize := 2, rowTag := some "r" }
    let events : List Event :=
      [.start "t" [("n", "1")], .start "r" [("id", "1")], .start "a" [], .finish "a", .finish "r",
        .text "x", .start "s" [], .start "r" [], .finish "r", .finish "s", .start "r" [],
        .finish "r", .start "r" [], .start "a" [], .text "y", .finish "a", .finish "r", .finish "t"]
    let events' : List Event :=
      [.start "u" [], .start "r" [], .start "a" [], .text "y", .finish "a", .finish "r",
        .finish "u"]
    (o.Valid ∧ Event.Nested [] events) ∧
      (start o ⟨events, .complete⟩).rest.result.1.map Batch.size = [2, 1] ∧
      (start o ⟨events', .complete⟩).rest.result =
        (((start o ⟨events, .complete⟩).rest.result.1[1]?.map (Batch.numbered 0)).toList, none) := by
  intro o events events'
  have hv : o.Valid := ⟨⟨by decide, by simp [o, ReaderOptions.levels]⟩, by decide⟩
  let third : Item := .element "r" [] [.element "a" [] [.text "y"]]
  have hi : Spells [.element "t" [("n", "1")] [.element "r" [("id", "1")] [.element "a" [] []],
      .text "x", .element "s" [] [.element "r" [] []], .element "r" [] [], third]] events :=
    spells_events _
  have hi' : Spells [.element "u" [] [third]] events' := spells_events _
  have hn : Event.Nested [] events := nested_iff_spells.mpr ⟨_, hi⟩
  refine ⟨⟨hv, hn⟩, by decide +kernel, ?_⟩
  exact ((rest_alone hv rfl rfl hn).2 _ hi 1).2 _ _ hi' rfl

end Reader

end Tabular
