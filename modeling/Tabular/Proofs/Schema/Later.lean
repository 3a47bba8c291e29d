import Tabular.Proofs.Schema.Conform

/-!
# Snapshots of longer runs

A schema that takes further rows keeps what its records show. The texts that a snapshot shows are
shown by every later one, and a record that was padded by a snapshot is padded by any other to what
the record itself is padded to.

* `carries_of_mem`, `opensAt_of_mem`: the records of some rows and the schema after them;
* **`follow_pad_append`**: text columns of a snapshot, and of one after further rows;
* **`pad_pad`**: one padding after another.
-/

namespace Tabular.RowSchema

variable {p : Projection} {rows : List Row} {record : Entries Value} {c : Column}

/-- The record of each row is carried by the schema after all of them. -/
theorem carries_of_mem (hr : Row.AllRegular rows)
    (h : record ∈ ((start p).foldAll rows).2) :
    Shape.Carries ((start p).foldAll rows).1.shapes record := by
  obtain ⟨i, hi⟩ := List.mem_iff_getElem?.mp h
  rw [getElem?_foldAll, Option.map_eq_some_iff] at hi
  obtain ⟨row, hrow, rfl⟩ := hi
  exact (carries_fold_start (hr.take i) (hr.of_getElem? hrow) p).mono
    (grows_foldAll_of_getElem? (start p) hrow)

theorem opensAt_of_mem (hr : Row.AllRegular rows) (h : record ∈ ((start p).foldAll rows).2) :
    Shape.OpensAt [] ((start p).foldAll rows).1.held record := by
  obtain ⟨i, hi⟩ := List.mem_iff_getElem?.mp h
  rw [getElem?_foldAll, Option.map_eq_some_iff] at hi
  obtain ⟨row, hrow, rfl⟩ := hi
  exact opensAt_fold_start (hr.take i) (hr.of_getElem? hrow) hr p

/-- **A text column shows the same after further rows.** The column may be a map there, where none
of the rows so far has anything for it. -/
theorem follow_pad_append (hr : Row.AllRegular rows) (h : record ∈ ((start p).foldAll rows).2)
    (hc : c ∈ (snapshotAfter p rows).columns) (hk : c.kind = .scalar) (later : List Row) :
    (Value.map ((snapshotAfter p (rows ++ later)).pad record)).follow c.path =
      (Value.map ((snapshotAfter p rows).pad record)).follow c.path := by
  obtain ⟨hpath, hkind⟩ := kindAt_of_mem_columns hc
  have hattr : c.path ≠ attributesPath := by
    intro heq
    rw [kind_of_attributes hr hc heq] at hk
    cases hk
  have hnow := shows_pad hc record
  have hlater : Shows (Shape.kindAt c.path ((start p).foldAll (rows ++ later)).1.held) c.path
      ((Value.map record).follow c.path)
      ((Value.map ((snapshotAfter p (rows ++ later)).pad record)).follow c.path) := by
    rw [pad_snapshotAfter]
    exact follow_padWith (distinct_held (distinct_after p _)) hpath [] record
  cases hv : (Value.map record).at? c.path with
  | none =>
    rw [Value.follow_eq c.path (.map record), hv, Option.getD_none] at hnow hlater
    rw [hnow.null hattr, hlater.null hattr]
  | some v =>
    -- a row had it, so its kind is known from then on
    obtain ⟨kind, hknown, -⟩ := carries_of_mem hr h c.path hpath v hv
    have hscalar : kind = .scalar := by
      rw [← hk, ← Option.some.injEq, ← hkind]
      exact (grows_held _ _ _ hknown).symm
    rw [hscalar] at hknown
    rw [grows_held _ _ _ (grows_foldAll_append (start p) rows later _ _ hknown)] at hlater
    rw [hk] at hnow
    exact hlater.trans hnow.symm

/-- **A padding is not seen by the next one.** -/
theorem pad_pad (hr : Row.AllRegular rows) (h : record ∈ ((start p).foldAll rows).2)
    (rows' : List Row) :
    (snapshotAfter p rows').pad ((snapshotAfter p rows).pad record) =
      (snapshotAfter p rows').pad record := by
  have hcarries := (carries_of_mem hr h).mono (grows_held _)
  have hpadded := Shape.padded_padWith ((start p).foldAll rows).1.rows
    (distinct_held (distinct_after p rows)) hcarries (opensAt_of_mem hr h)
  rw [pad_snapshotAfter, pad_snapshotAfter, pad_snapshotAfter]
  exact Shape.padWith_of_padded hpadded _ _ _

end Tabular.RowSchema
