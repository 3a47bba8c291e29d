import Tabular.Proofs.Reader.Conform
import Tabular.Proofs.Reader.Stops
import Tabular.Proofs.Schema.Later

/-!
# One window among all

The window with some number, told by the number and the rows alone, and what becomes of it where
the rows end sooner.

* **`getElem?_windows`**: the window with a number;
* `EvenlyCut`, **`evenlyCut_windows`**: numbers and sizes of windows;
* `length_rows_windows`: all rows of the windows;
* `Batch.Begins`, **`begins_windows`**: the windows of fewer rows;
* `EventSource.Whole`: sources that do not break off for want of a file;
* `Passage.handedOut_of_failure`, **`exists_handedOut`**: the rows that are handed out.
-/

namespace Tabular

variable {o : ReaderOptions} {rows before now : List Row} {batch whole : Batch} {n n' i : Nat}

/-! ## Windows by their numbers -/

/-- **The window with a number** begins behind all rows of the windows before it. -/
theorem getElem?_windows (hb : 0 < o.batchSize) (index : Nat) (before rows : List Row) (i : Nat) :
    (windows o index (windowAfter o before) rows)[i]? =
      if i * o.batchSize < rows.length then
        some (windowBatch o (before ++ rows.take (i * o.batchSize))
          ((rows.drop (i * o.batchSize)).take o.batchSize) (index + i))
      else none := by
  refine windows_induction (motive := fun rows _ => ∀ index before i,
    (windows o index (windowAfter o before) rows)[i]? =
      if i * o.batchSize < rows.length then
        some (windowBatch o (before ++ rows.take (i * o.batchSize))
          ((rows.drop (i * o.batchSize)).take o.batchSize) (index + i))
      else none) hb ?_ ?_ (rfl : rows.length = _) index before i
  · intro index before i
    rw [windows_nil, List.length_nil, if_neg (Nat.not_lt_zero _)]
    rfl
  · intro rows _ hne _ ih index before i
    rw [windows_of_ne_nil hne hb, ← windowAfter_append]
    cases i with
    | zero =>
      rw [List.getElem?_cons_zero, Nat.zero_mul, if_pos (List.length_pos_iff.mpr hne),
        List.take_zero, List.append_nil]
      rfl
    | succ i =>
      have hlt : i * o.batchSize < (rows.drop o.batchSize).length ↔
          (i + 1) * o.batchSize < rows.length := by
        rw [List.length_drop, Nat.succ_mul]
        omega
      rw [List.getElem?_cons_succ, ih, Nat.succ_mul, Nat.add_comm (i * o.batchSize), List.take_add,
        List.append_assoc, List.drop_drop, Nat.add_right_comm, Nat.add_assoc index]
      simp only [hlt, Nat.succ_mul, Nat.add_comm (i * o.batchSize)]

/-- The windows of the rows up to some number, each by its own number. -/
theorem getElem?_windows_take (hb : 0 < o.batchSize) (rows : List Row) (n i : Nat) :
    (windows o 0 (RowSchema.start o.projection) (rows.take n))[i]? =
      if i * o.batchSize < min n rows.length then
        some (windowBatch o (rows.take (i * o.batchSize))
          ((rows.drop (i * o.batchSize)).take (min o.batchSize (n - i * o.batchSize))) i)
      else none := by
  rw [← windowAfter_nil, getElem?_windows hb, List.length_take]
  split
  · next hlt =>
    rw [List.nil_append, List.take_take, Nat.min_eq_left (by omega), List.drop_take,
      List.take_take, Nat.zero_add]
  · rfl

/-- As many windows as the rows begin. -/
theorem lt_length_windows (hb : 0 < o.batchSize) :
    i < (windows o 0 (RowSchema.start o.projection) rows).length ↔
      i * o.batchSize < rows.length := by
  rw [← not_iff_not, Nat.not_lt, ← List.getElem?_eq_none_iff, ← windowAfter_nil,
    getElem?_windows hb]
  simp

/-- Batches are numbered from zero on, none of them is empty, and all but the last one are full. -/
def EvenlyCut (size : Nat) (batches : List Batch) : Prop :=
  ∀ i batch, batches[i]? = some batch → batch.index = i ∧ 1 ≤ batch.size ∧ batch.size ≤ size ∧
    (i + 1 < batches.length → batch.size = size)

/-- **Windows are cut evenly.** -/
theorem evenlyCut_windows (hb : 0 < o.batchSize) (rows : List Row) :
    EvenlyCut o.batchSize (windows o 0 (RowSchema.start o.projection) rows) := by
  intro i batch hi
  rw [← windowAfter_nil, getElem?_windows hb, Option.ite_none_right_eq_some] at hi
  obtain ⟨hlt, hbatch⟩ := hi
  rw [Option.some.injEq] at hbatch
  subst hbatch
  rw [size_windowBatch, List.length_take, List.length_drop]
  refine ⟨Nat.zero_add i, by omega, by omega, fun hnext => ?_⟩
  rw [lt_length_windows hb, Nat.succ_mul] at hnext
  omega

/-- The windows of some rows have as many rows in all. -/
theorem length_rows_windows (hb : 0 < o.batchSize) (rows : List Row) :
    ((windows o 0 (RowSchema.start o.projection) rows).flatMap Batch.rows).length =
      rows.length := by
  rw [← windowAfter_nil]
  exact (shownAs_windows hb 0 [] rows).length_eq.symm

/-! ## Windows of fewer rows -/

/-- A batch begins another one: each of its rows has the values of the same row there, at every text
column of its own schema. -/
structure Batch.Begins (batch whole : Batch) : Prop where
  index : batch.index = whole.index
  texts : ∀ (j : Nat) (row : Entries Value), batch.rows[j]? = some row →
    ∃ row', whole.rows[j]? = some row' ∧ ∀ c ∈ batch.schema.columns, c.kind = .scalar →
      (Value.map row).follow c.path = (Value.map row').follow c.path

theorem Batch.Begins.refl (batch : Batch) : batch.Begins batch :=
  ⟨rfl, fun _ row hrow => ⟨row, hrow, fun _ _ _ => rfl⟩⟩

/-- **A window begins the one with further rows.** -/
theorem begins_windowBatch (hr : Row.AllRegular (before ++ now)) (later : List Row) (index : Nat) :
    (windowBatch o before now index).Begins (windowBatch o before (now ++ later) index) := by
  refine ⟨rfl, fun j row hrow => ?_⟩
  have htaken : Row.AllRegular (takenBefore o before ++ now) := by
    intro row hrow
    refine hr row (List.mem_append.mpr ((List.mem_append.mp hrow).imp_left fun h => ?_))
    exact takenBefore_subset o before h
  rw [rows_windowBatch, List.getElem?_map, Option.map_eq_some_iff] at hrow
  obtain ⟨record, hrecord, rfl⟩ := hrow
  have hmem := mem_foldAll_of_mem_window (List.mem_of_getElem? hrecord)
  have hboth : ((windowAfter o before).foldAll (now ++ later)).2[j]? = some record := by
    rw [RowSchema.foldAll_append]
    exact (List.getElem?_append_left (List.getElem?_eq_some_iff.mp hrecord).1).trans hrecord
  refine ⟨(RowSchema.snapshotAfter o.projection (takenBefore o before ++ (now ++ later))).pad
    record, ?_, fun c hc hk => ?_⟩
  · rw [rows_windowBatch, List.getElem?_map, hboth]
    rfl
  · rw [schema_windowBatch] at hc
    rw [← List.append_assoc]
    exact (RowSchema.follow_pad_append htaken hmem hc hk later).symm

/-- A full window is the same among the windows of fewer rows. -/
theorem getElem?_windows_of_full (hb : 0 < o.batchSize) (rows : List Row)
    (hn : (i + 1) * o.batchSize ≤ n) (hn' : (i + 1) * o.batchSize ≤ n') :
    (windows o 0 (RowSchema.start o.projection) (rows.take n))[i]? =
      (windows o 0 (RowSchema.start o.projection) (rows.take n'))[i]? := by
  rw [Nat.succ_mul] at hn hn'
  have hlt : i * o.batchSize < min n rows.length ↔ i * o.batchSize < min n' rows.length := by omega
  have hsize : o.batchSize ≤ n - i * o.batchSize := by omega
  have hsize' : o.batchSize ≤ n' - i * o.batchSize := by omega
  rw [getElem?_windows_take hb, getElem?_windows_take hb, Nat.min_eq_left hsize,
    Nat.min_eq_left hsize']
  simp only [hlt]

/-- **The windows of fewer rows begin those of more**, and of any number of full windows. -/
theorem begins_windows (hb : 0 < o.batchSize) (hr : Row.AllRegular rows)
    (hn : n ≤ n' ∨ o.batchSize ∣ n')
    (h : (windows o 0 (RowSchema.start o.projection) (rows.take n))[i]? = some batch)
    (h' : (windows o 0 (RowSchema.start o.projection) (rows.take n'))[i]? = some whole) :
    batch.Begins whole := by
  rcases Nat.lt_or_ge n' n with hlt | hle
  · -- the last window that both have is full
    obtain ⟨count, rfl⟩ := hn.resolve_left (Nat.not_le_of_lt hlt)
    have hi := (lt_length_windows hb).mp (List.getElem?_eq_some_iff.mp h').1
    rw [List.length_take] at hi
    have hcount : i < count := by
      refine Nat.lt_of_mul_lt_mul_right (a := o.batchSize) ?_
      rw [Nat.mul_comm count]
      exact Nat.lt_of_lt_of_le hi (Nat.min_le_left _ _)
    have hfull : (i + 1) * o.batchSize ≤ o.batchSize * count := by
      rw [Nat.mul_comm o.batchSize]
      exact Nat.mul_le_mul_right _ hcount
    rw [getElem?_windows_of_full hb rows (Nat.le_trans hfull (Nat.le_of_lt hlt)) hfull, h',
      Option.some.injEq] at h
    exact h ▸ .refl whole
  · rw [getElem?_windows_take hb, Option.ite_none_right_eq_some, Option.some.injEq] at h h'
    obtain ⟨-, rfl⟩ := h
    obtain ⟨-, rfl⟩ := h'
    generalize hnow : (rows.drop (i * o.batchSize)).take (min o.batchSize (n - i * o.batchSize)) =
      now
    generalize hall : (rows.drop (i * o.batchSize)).take
      (min o.batchSize (n' - i * o.batchSize)) = all
    have hprefix : now <+: all := by
      rw [← hnow, ← hall]
      exact List.take_prefix_take_left (by omega)
    obtain ⟨later, rfl⟩ := hprefix
    refine begins_windowBatch (fun row hrow => hr row ?_) later i
    rcases List.mem_append.mp hrow with hrow | hrow
    · exact List.mem_of_mem_take hrow
    · rw [← hnow] at hrow
      exact List.mem_of_mem_drop (List.mem_of_mem_take hrow)

/-! ## Rows that are handed out -/

/-- A file that cannot be read has given no event. -/
def EventSource.Whole (source : EventSource) : Prop :=
  ∀ fault, source.ending = .unreadable fault → source.events = []

variable {source : EventSource}

theorem ending_of_unreadable {ending : Ending} {fault : FileFault} {events : List Event}
    {given : Nat} {s : Scan} (h : (passage o ending events given s).halt = .unreadable fault) :
    ending = .unreadable fault := by
  obtain ⟨hhalt, -⟩ | ⟨error, hhalt⟩ | ⟨tags, hhalt⟩ := halt_passage_cases o ending events given s
  · cases hhalt.symm.trans h
  · cases hhalt.symm.trans h
  · rw [hhalt] at h
    cases ending with
    | complete => cases tags <;> cases h
    | malformed line => cases h
    | unreadable found =>
      cases h
      rfl

/-- All rows are handed out where nothing fails. -/
theorem Passage.handedOut_of_failure {p : Passage} (h : p.halt.failure = none) (size : Nat) :
    p.handedOut size = p.rows := by
  cases hp : p.halt with
  | unreadable fault =>
    rw [hp] at h
    cases h
  | _ => simp only [handedOut, hp]

/-- All rows are handed out unless a file breaks off. -/
theorem handedOut_of_whole (h : source.Whole) (o : ReaderOptions) (size : Nat) :
    (passage o source.ending source.events 0 {}).handedOut size =
      (passage o source.ending source.events 0 {}).rows := by
  generalize hp : passage o source.ending source.events 0 {} = p
  cases hu : p.halt with
  | unreadable fault =>
    rw [← hp] at hu
    have hrows : p.rows = [] := by
      rw [← hp, h fault (ending_of_unreadable hu)]
      rfl
    rw [Passage.handedOut, hrows]
    split <;> simp
  | _ => simp only [Passage.handedOut, hu]

/-- **The rows that are handed out** fill all windows that rows can fill, and are all rows unless
they fill nothing but windows. -/
theorem exists_handedOut (o : ReaderOptions) (source : EventSource) {size : Nat} (hs : 0 < size)
    (hrows : (passage o source.ending source.events 0 {}).rows = rows) :
    ∃ n, (passage o source.ending source.events 0 {}).handedOut size = rows.take n ∧
      (∀ i, i * size ≤ rows.length → i * size ≤ n) ∧ (n = rows.length ∨ size ∣ n) ∧
      (source.Whole → n = rows.length) := by
  by_cases hw : source.Whole
  · refine ⟨rows.length, ?_, fun _ hi => hi, Or.inl rfl, fun _ => rfl⟩
    rw [handedOut_of_whole hw, hrows, List.take_length]
  · unfold Passage.handedOut
    rw [hrows]
    split
    · refine ⟨_, rfl, fun i hi => ?_, Or.inr (Nat.dvd_mul_left _ _), fun h => absurd h hw⟩
      exact Nat.mul_le_mul_right size ((Nat.le_div_iff_mul_le hs).mpr hi)
    · exact ⟨rows.length, List.take_length.symm, fun _ hi => hi, Or.inl rfl, fun _ => rfl⟩

end Tabular
