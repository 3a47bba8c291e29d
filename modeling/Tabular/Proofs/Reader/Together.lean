import Tabular.Proofs.Schema.Narrow

/-!
# Batches of two readings

One reader for every column and one for a projection, over the same source: where their readings go
the same way, so do the readers, and their batches come in pairs.

* `RowSchema.Together`: the schemas of a pair of batches, with the records of the wide one;
* `Value.Alike`, **`Together.alike`**: a path that is asked for in a pair of records;
* `SameCourse`, **`rest_together`**: what two readers do, and the pairs of their batches.
-/

namespace Tabular

variable {o : ReaderOptions} {p : Projection}

/-! ## Schemas of a pair of batches -/

namespace RowSchema

variable {w n : RowSchema} {records : List (Entries Value)}

/-- Two schemas behind the same rows, where some records came to the wide one. -/
structure Together (p : Projection) (w n : RowSchema) (records : List (Entries Value)) : Prop
    extends Thinned p w n where
  distinctWide : Shape.Distinct w.shapes
  distinctNarrow : Shape.Distinct n.shapes
  hasAttributes : w.HasAttributes
  fits : ∀ record ∈ records, Shape.Fits w.shapes record
  isCell : ∀ record ∈ records, (Value.map record).IsCell

theorem together_start (p : Projection) : Together p (start .all) (start p) [] :=
  ⟨thinned_start p, distinct_start .all, distinct_start p, hasAttributes_start .all,
    (fun _ hr => by cases hr), (fun _ hr => by cases hr)⟩

theorem Together.foldAll (h : Together p w n records) {rows rows' : List Row}
    (hr : List.Forall₂ (Row.Thinned p) rows rows') :
    Together p (w.foldAll rows).1 (n.foldAll rows').1 (w.foldAll rows).2 ∧
      (n.foldAll rows').2 = (w.foldAll rows).2.map (Value.thinEntries p.admits) := by
  obtain ⟨ht, hrecords⟩ := h.toThinned.foldAll hr
  exact ⟨⟨ht, distinct_foldAll rows h.distinctWide, distinct_foldAll rows' h.distinctNarrow,
    h.hasAttributes.foldAll rows, fits_foldAll h.hasAttributes rows, isCell_foldAll w rows⟩,
    hrecords⟩

/-- A column of the batch of some records. -/
theorem column_ofRecords {s : RowSchema} (h : Shape.Distinct s.shapes)
    (records : List (Entries Value)) (index : Nat) (path : Path) :
    (Batch.ofRecords s.snapshot records index).column path = records.map fun record =>
      (Value.map (Snapshot.padWith (Shape.branches s.rows [] s.held) record)).follow path := by
  have hb : s.snapshot.branches = Shape.branches s.rows [] s.held :=
    Shape.branches_columns (distinct_held h)
  rw [Batch.ofRecords, Batch.column, hb, List.map_map]
  rfl

theorem Thinned.held_wide (h : Thinned p w n) : w.held = w.shapes := by
  rw [held, h.all]
  rfl

end RowSchema

/-! ## Values of a pair of records -/

/-- The same text, null twice, or two maps. -/
inductive Value.Alike : Value → Value → Prop where
  | null : Alike .null .null
  | text (s : String) : Alike (.text s) (.text s)
  | map (es es' : List (String × Value)) : Alike (.map es) (.map es')

theorem Value.Alike.of_isMap {v v' : Value} (h : v.isMap = true) (h' : v'.isMap = true) :
    Alike v v' := by
  cases v with
  | map es =>
    cases v' with
    | map es' => exact .map es es'
    | _ => cases h'
  | _ => cases h

/-- **What two records show at a path**, where the narrow one has the kept part of a value. -/
theorem Shows.alike {kw kn : Option Kind} {path : Path} {given given' shown shown' : Value}
    {keep : Keep} (h : Shows kw path given shown) (h' : Shows kn path given' shown')
    (hkind : ∀ kind, kw = some kind → kn = some kind)
    (hnone : kw = none → given = .null ∧ path ≠ attributesPath)
    (hthin : given' = Value.thin keep given) (hcell : given.IsCell) : Value.Alike shown shown' := by
  have hmap : given'.isMap = given.isMap := by rw [hthin, Value.isMap_thin]
  cases kw with
  | none =>
    obtain ⟨rfl, hp⟩ := hnone rfl
    obtain rfl : shown = .null := h
    rw [hthin, Value.thin_of_not_isMap rfl] at h'
    rw [h'.null hp]
    exact .null
  | some kind =>
    rw [hkind kind rfl] at h'
    cases kind with
    | scalar =>
      rw [Shows] at h h'
      cases hm : given.isMap with
      | true =>
        rw [if_pos hm] at h
        rw [if_pos (hmap.trans hm)] at h'
        rw [h, h']
        exact .null
      | false =>
        rw [if_neg (by simp [hm])] at h
        rw [if_neg (by simp [hmap, hm]), hthin, Value.thin_of_not_isMap hm] at h'
        rw [h, h']
        cases hcell with
        | null => exact .null
        | text s => exact .text s
        | map es _ => cases hm
    | map =>
      rw [Shows] at h h'
      rw [hmap] at h'
      split at h
      · next hc =>
        rw [if_pos hc] at h'
        exact .of_isMap h h'
      · next hc =>
        rw [if_neg hc] at h'
        rw [h, h']
        exact .null

/-- **A path that is asked for in a pair of records.** -/
theorem RowSchema.Together.alike {w n : RowSchema} {records : List (Entries Value)}
    (h : Together p w n records) {path : Path} (hp : path ≠ []) (hk : p.admits path = true)
    {record : Entries Value} (hr : record ∈ records) :
    Value.Alike
      ((Value.map (Snapshot.padWith (Shape.branches w.rows [] w.held) record)).follow path)
      ((Value.map (Snapshot.padWith (Shape.branches n.rows [] n.held)
        (Value.thinEntries p.admits record))).follow path) := by
  obtain ⟨keep, hthin⟩ := Value.follow_thin p.closed_admits (Or.inr hk) (.map record)
  have hattr : Shape.kindAt attributesPath w.shapes = some .map := h.hasAttributes h.wants
  rw [h.held_wide]
  refine (follow_padWith h.distinctWide hp [] record).alike
    (follow_padWith (distinct_held h.distinctNarrow) hp [] _) ?_ ?_ hthin
    ((h.isCell record hr).follow path)
  · intro kind hkind
    refine grows_held n path kind ?_
    rw [h.shapes, Shape.kindAt_thin p.closed_admits hk]
    exact hkind
  · intro hnone
    refine ⟨h.fits record hr path hp hnone, ?_⟩
    rintro rfl
    rw [hattr] at hnone
    cases hnone

/-! ## Pairs of batches -/

/-- The windows over the rows of two readings come in pairs. -/
theorem windows_together {R : Batch → Batch → Prop}
    (hR : ∀ w n records index, RowSchema.Together p w n records →
      R (Batch.ofRecords w.snapshot records index)
        (Batch.ofRecords n.snapshot (records.map (Value.thinEntries p.admits)) index))
    (hb : 0 < o.batchSize) {rows rows' : List Row} (hr : List.Forall₂ (Row.Thinned p) rows rows')
    (index : Nat) {w n : RowSchema} {records : List (Entries Value)}
    (h : RowSchema.Together p w n records) :
    List.Forall₂ R (windows (o.projected .all) index w rows)
      (windows (o.projected p) index n rows') := by
  refine windows_induction (motive := fun rows rows' => List.Forall₂ (Row.Thinned p) rows rows' →
    ∀ index w n records, RowSchema.Together p w n records →
      List.Forall₂ R (windows (o.projected .all) index w rows)
        (windows (o.projected p) index n rows')) hb ?_ ?_ hr.length_eq hr index w n records h
  · intro _ index w n records _
    rw [windows_nil, windows_nil]
    exact .nil
  · intro rows rows' hne hne' ih hr index w n records h
    rw [windows_of_ne_nil hne (by exact hb), windows_of_ne_nil hne' (by exact hb)]
    obtain ⟨hnow, hrecords⟩ := h.foldAll (List.forall₂_take o.batchSize hr)
    have hrest := ih (List.forall₂_drop o.batchSize hr) (index + 1)
    refine .cons ?_ ?_
    · have hone := hR _ _ _ index hnow
      rw [← hrecords] at hone
      exact hone
    · have hpinned : ∀ q, (o.projected q).pinSchema = o.pinSchema := fun _ => rfl
      rw [hpinned, hpinned]
      cases o.pinSchema with
      | true =>
        rw [if_pos rfl, if_pos rfl]
        exact hrest _ _ _ hnow
      | false =>
        rw [if_neg Bool.false_ne_true, if_neg Bool.false_ne_true]
        exact hrest _ _ _ (RowSchema.together_start p)

/-- Two drained readers failed alike and have the same counts. -/
structure SameCourse (c c' : Called (List Batch × Option ReadFailure)) : Prop where
  failure : c'.result.2 = c.result.2
  rowsEmitted : c'.reader.rowsEmitted = c.reader.rowsEmitted
  rowsDiscarded : c'.reader.rowsDiscarded = c.reader.rowsDiscarded
  skippedElements : c'.reader.scan.skippedElements = c.reader.scan.skippedElements
  eventsConsumed : c'.reader.eventsConsumed = c.reader.eventsConsumed
  limitReached : c'.reader.limitReached = c.reader.limitReached

/-- **Two readers over the same source**, where nothing matters that only the narrow one sees. -/
theorem rest_together {R : Batch → Batch → Prop}
    (hR : ∀ w n records index, RowSchema.Together p w n records →
      R (Batch.ofRecords w.snapshot records index)
        (Batch.ofRecords n.snapshot (records.map (Value.thinEntries p.admits)) index))
    (ho : o.Narrows p) (hd : 1 ≤ o.dataLevel) (hb : 0 < o.batchSize) (source : EventSource)
    (hs : SettledAlong o p {} source.events) :
    SameCourse (Reader.start (o.projected .all) source).rest
        (Reader.start (o.projected p) source).rest ∧
      List.Forall₂ R (Reader.start (o.projected .all) source).rest.result.1
        (Reader.start (o.projected p) source).rest.result.1 := by
  by_cases hl : o.limit = some 0
  · rw [Reader.rest_of_limit_zero (by exact hl), Reader.rest_of_limit_zero (by exact hl)]
    exact ⟨⟨rfl, rfl, rfl, rfl, rfl, rfl⟩, .nil⟩
  · have hw := Reader.finished_rest (o := o.projected .all) hb hl source
    have hn := Reader.finished_rest (o := o.projected p) hb hl source
    have hp := narrowed_passage ho hd source.ending source.events 0 (Scan.narrowed_empty o p) hs
    refine ⟨⟨?_, ?_, ?_, ?_, ?_, ?_⟩, ?_⟩
    · rw [hn.failure, hw.failure, hp.halt]
    · rw [hn.rowsEmitted, hw.rowsEmitted, hp.rows.length_eq]
      rfl
    · rw [hn.rowsDiscarded, hw.rowsDiscarded, hp.discards]
      rfl
    · rw [hn.skippedElements, hw.skippedElements, hp.skippedElements]
    · rw [hn.eventsConsumed, hw.eventsConsumed, hp.taken]
      rfl
    · rw [hn.limitReached, hw.limitReached, hp.halt]
      rfl
    · rw [hn.batches, hw.batches, Reader.window_start, Reader.window_start]
      exact windows_together hR hb (hp.handedOut o.batchSize) 0 (RowSchema.together_start p)

end Tabular
