import Tabular.Proofs.Reader.Together

/-!
# A projection is a restriction

Without flattening, and where rows keep the attributes of their own element only, a reader for some
columns does what a reader for every column does, and shows the same at each path that it was asked
for.

* `Batch.Restricts`: a batch of fewer columns with the same rows;
* **`rest_restricts`**: the batches of both readers.
-/

namespace Tabular

/-- The narrow batch has the same rows, and they show the same at the paths of a projection. -/
structure Batch.Restricts (p : Projection) (wide narrow : Batch) : Prop where
  size : narrow.size = wide.size
  column : ∀ path, p.admits path = true →
    List.Forall₂ Value.Alike (wide.column path) (narrow.column path)

theorem Projection.ne_nil_of_admits {requests : List Path} {path : Path}
    (h : (columns requests).admits path = true) : path ≠ [] := by
  obtain ⟨r, _, h⟩ := admits_columns_iff.mp h
  rcases h with h | h
  · exact (leadsTo_iff.mp h).1
  · obtain ⟨_, _, hlen⟩ := liesBelow_iff.mp h
    rintro rfl
    exact Nat.not_lt_zero _ hlen

/-- The batches of a pair of schemas restrict each other. -/
theorem RowSchema.Together.restricts {requests : List Path} {w n : RowSchema}
    {records : List (Entries Value)} (h : Together (.columns requests) w n records) (index : Nat) :
    Batch.Restricts (.columns requests) (Batch.ofRecords w.snapshot records index)
      (Batch.ofRecords n.snapshot
        (records.map (Value.thinEntries (Projection.columns requests).admits)) index) := by
  refine ⟨?_, fun path hk => ?_⟩
  · rw [size_ofRecords, size_ofRecords, List.length_map]
  · rw [column_ofRecords h.distinctWide, column_ofRecords h.distinctNarrow, List.map_map,
      List.forall₂_map_left_iff, List.forall₂_map_right_iff, List.forall₂_same]
    exact fun record hr => h.alike (Projection.ne_nil_of_admits hk) hk hr

/-- **A projection is a restriction**: with it a reader takes the same events, fails alike, has the
same counts, and gives batches of the same sizes that show the same text, null or a map at every
path it was asked for. -/
theorem rest_restricts {o : ReaderOptions} (hv : o.Valid) (hf : o.flattenLevel = none)
    (hs : o.attributeScope = .row) {requests : List Path} (hp : o.projection = .columns requests)
    (source : EventSource) :
    SameCourse (Reader.start { o with projection := .all } source).rest
        (Reader.start o source).rest ∧
      List.Forall₂ (Batch.Restricts o.projection)
        (Reader.start { o with projection := .all } source).rest.result.1
        (Reader.start o source).rest.result.1 := by
  have hn : o.Narrows (.columns requests) := ⟨Or.inl hs, fun h => absurd hf h⟩
  have hsame : o.projected (.columns requests) = o := by
    rw [ReaderOptions.projected, ← hp]
  have h := rest_together (fun w n records index h => h.restricts index) hn
    hv.levels_valid.one_le hv.one_le_batchSize source (settledAlong_of_nested hf _ _)
  rw [hsame] at h
  rw [hp]
  exact h

/-- A nested column of a stream that breaks off, where a text and a map share its name. -/
theorem rest_restricts_nested :
    let o : ReaderOptions :=
      { projection := .columns [["a", "b"]], batchSize := 2, limit := some 5, pinSchema := true }
    let source : EventSource :=
      ⟨[.start "r" [], .start "row" [("id", "1")], .start "a" [], .start "b" [], .text "x",
        .finish "b", .start "c" [], .finish "c", .finish "a", .finish "row", .start "row" [],
        .start "a" [], .text "y", .finish "a", .finish "row", .start "row" []], .malformed 3⟩
    SameCourse (Reader.start { o with projection := .all } source).rest
        (Reader.start o source).rest ∧
      List.Forall₂ (Batch.Restricts o.projection)
        (Reader.start { o with projection := .all } source).rest.result.1
        (Reader.start o source).rest.result.1 :=
  rest_restricts ⟨⟨by decide, by simp [ReaderOptions.levels]⟩, by decide⟩ rfl rfl rfl _

end Tabular
