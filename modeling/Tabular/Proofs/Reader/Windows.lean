import Tabular.Proofs.Reader.Passage

/-!
# Batches as windows over rows

The batches of a reader are its rows, cut into windows of the batch size, with each window under
the schema of its rows, or of all rows so far where the schema is pinned.

* `RowSchema.foldAll`: some rows under a schema, with their records;
* `windows`: the batches of some rows;
* `Counted`, `Finished`: what a reader that was drained leaves behind, in terms of its passage;
* `calls_induction`: the calls of a reader, one full batch after another;
* **`finished_batches`**, **`finished_rest`**: a drained reader is finished;
* `result_rest`: its batches, from its source.
-/

namespace Tabular

/-- The schema after some rows, and their records. -/
def RowSchema.foldAll (s : RowSchema) : List Row → RowSchema × List (Entries Value)
  | [] => (s, [])
  | row :: rest =>
    let folded := s.fold row
    let later := folded.schema.foldAll rest
    (later.1, folded.record :: later.2)

/-- The batches of some rows, numbered from `index` on, where the first window has the given
schema. -/
def windows (o : ReaderOptions) (index : Nat) (schema : RowSchema) (rows : List Row) : List Batch :=
  if _h : rows = [] ∨ o.batchSize = 0 then []
  else
    let now := schema.foldAll (rows.take o.batchSize)
    let next := if o.pinSchema then now.1 else RowSchema.start o.projection
    Batch.ofRecords now.1.snapshot now.2 index :: windows o (index + 1) next (rows.drop o.batchSize)
termination_by rows.length
decreasing_by
  have : rows.length ≠ 0 := fun h => _h (Or.inl (List.length_eq_zero_iff.mp h))
  have : o.batchSize ≠ 0 := fun h => _h (Or.inr h)
  rw [List.length_drop]
  omega

section Windows

variable {o : ReaderOptions} {index : Nat} {schema : RowSchema}

theorem windows_nil : windows o index schema [] = [] := by
  rw [windows, dif_pos (Or.inl rfl)]

theorem windows_of_ne_nil {rows : List Row} (hr : rows ≠ []) (hb : 0 < o.batchSize) :
    windows o index schema rows =
      Batch.ofRecords (schema.foldAll (rows.take o.batchSize)).1.snapshot
        (schema.foldAll (rows.take o.batchSize)).2 index ::
      windows o (index + 1)
        (if o.pinSchema then (schema.foldAll (rows.take o.batchSize)).1
          else RowSchema.start o.projection)
        (rows.drop o.batchSize) := by
  rw [windows, dif_neg fun h => h.elim hr (by omega)]

/-- A full window comes before the windows of the rows that follow. -/
theorem windows_append {now later : List Row} (hb : 0 < o.batchSize)
    (hn : now.length = o.batchSize) :
    windows o index schema (now ++ later) =
      Batch.ofRecords (schema.foldAll now).1.snapshot (schema.foldAll now).2 index ::
      windows o (index + 1)
        (if o.pinSchema then (schema.foldAll now).1 else RowSchema.start o.projection) later := by
  have hne : now ++ later ≠ [] := by
    intro h
    have := congrArg List.length h
    rw [List.length_append, List.length_nil] at this
    omega
  rw [windows_of_ne_nil hne hb, ← hn, List.take_left, List.drop_left]

/-- Rows that fit into one window. -/
theorem windows_of_length_le {rows : List Row} (hr : rows ≠ []) (hn : rows.length ≤ o.batchSize) :
    windows o index schema rows =
      [Batch.ofRecords (schema.foldAll rows).1.snapshot (schema.foldAll rows).2 index] := by
  have hpos : 0 < rows.length := List.length_pos_iff.mpr hr
  rw [windows_of_ne_nil hr (by omega), List.take_of_length_le hn, List.drop_of_length_le hn,
    windows_nil]

/-- Windows depend on three options only. -/
theorem windows_congr {o' : ReaderOptions} (hb : o'.batchSize = o.batchSize)
    (hp : o'.pinSchema = o.pinSchema) (hj : o'.projection = o.projection) (index : Nat)
    (schema : RowSchema) (rows : List Row) :
    windows o' index schema rows = windows o index schema rows := by
  induction index, schema, rows using windows.induct o with
  | case1 index schema rows h => rw [windows, windows, dif_pos h, dif_pos (hb ▸ h)]
  | case2 index schema rows h now next ih =>
    rw [windows, windows, dif_neg h, dif_neg (hb ▸ h)]
    simp only [hb, hp, hj]
    exact congrArg _ ih

/-- Two lists of one length are taken apart window by window. -/
theorem windows_induction {size : Nat} {motive : List Row → List Row → Prop} (hsize : 0 < size)
    (nil : motive [] [])
    (window : ∀ rows rows', rows ≠ [] → rows' ≠ [] → motive (rows.drop size) (rows'.drop size) →
      motive rows rows') {rows rows' : List Row} (hlen : rows.length = rows'.length) :
    motive rows rows' := by
  generalize hcount : rows.length = count
  induction count using Nat.strongRecOn generalizing rows rows' with
  | ind count ih =>
    by_cases hne : rows = []
    · subst hne
      obtain rfl := List.length_eq_zero_iff.mp hlen.symm
      exact nil
    · have hpos : 0 < rows.length := List.length_pos_iff.mpr hne
      have hdrop : (rows.drop size).length < count := by
        rw [List.length_drop]
        omega
      have hlater : (rows.drop size).length = (rows'.drop size).length := by
        rw [List.length_drop, List.length_drop, hlen]
      refine window rows rows' hne (List.length_pos_iff.mp (hlen ▸ hpos)) (ih _ hdrop hlater rfl)

end Windows

/-! ## The batch of a filling -/

namespace Filling

theorem schema_foldl_add (rows : List Row) (f : Filling) :
    (rows.foldl (fun f row => f.add row) f).schema = (f.schema.foldAll rows).1 := by
  induction rows generalizing f with
  | nil => rfl
  | cons row rest ih => exact ih (f.add row)

theorem records_foldl_add (rows : List Row) (f : Filling) :
    (rows.foldl (fun f row => f.add row) f).records =
      (f.schema.foldAll rows).2.reverse ++ f.records := by
  induction rows generalizing f with
  | nil => rfl
  | cons row rest ih =>
    rw [List.foldl_cons, ih]
    simp [add, RowSchema.foldAll]

theorem rowsEmitted_foldl_add (rows : List Row) (f : Filling) :
    (rows.foldl (fun f row => f.add row) f).rowsEmitted = f.rowsEmitted + rows.length := by
  induction rows generalizing f with
  | nil => rfl
  | cons row rest ih =>
    rw [List.foldl_cons, ih, List.length_cons]
    simp only [add]
    omega

end Filling

theorem RowSchema.length_foldAll (s : RowSchema) (rows : List Row) :
    (s.foldAll rows).2.length = rows.length := by
  induction rows generalizing s with
  | nil => rfl
  | cons row rest ih => simp [RowSchema.foldAll, ih]

theorem RowSchema.size_ofRecords (s : Snapshot) (records : List (Entries Value)) (index : Nat) :
    (Batch.ofRecords s records index).size = records.length :=
  List.length_map _

/-! ## Drained readers -/

/-- The failure that a reader reports where its passage stopped. -/
def Halt.failure : Halt → Option ReadFailure
  | .broken error => some (.malformed error)
  | .unreadable fault => some (.unreadable fault)
  | .full | .limit | .drained => none

/-- The rows that batches of some size hand out: a file that cannot be read takes the rows of the
unfinished batch with it. -/
def Passage.handedOut (size : Nat) (p : Passage) : List Row :=
  match p.halt with
  | .unreadable _ => p.rows.take (p.rows.length / size * size)
  | _ => p.rows

theorem Passage.handedOut_behind {rows : List Row} {size : Nat} (hs : 0 < size)
    (hlen : rows.length = size) (taken : Nat) (p : Passage) :
    (p.behind rows taken).handedOut size = rows ++ p.handedOut size := by
  cases hp : p.halt with
  | unreadable fault =>
    have hdiv : (rows.length + p.rows.length) / size * size =
        rows.length + p.rows.length / size * size := by
      rw [hlen, Nat.add_comm, Nat.add_div_right _ hs, Nat.succ_mul, Nat.add_comm]
    simp only [handedOut, behind, hp, List.length_append, hdiv]
    rw [List.take_length_add_append]
  | full => simp only [handedOut, behind, hp]
  | limit => simp only [handedOut, behind, hp]
  | drained => simp only [handedOut, behind, hp]
  | broken error => simp only [handedOut, behind, hp]

/-- A row was under construction when the passage broke off. -/
def Passage.discards (p : Passage) : Bool :=
  match p.halt with
  | .broken _ => p.scan.builder.isActive
  | _ => false

/-- What a reader that was drained leaves behind, in terms of its passage. -/
structure Finished (r : Reader) (p : Passage) (c : Called (List Batch × Option ReadFailure)) :
    Prop where
  batches : c.result.1 = windows r.options r.batchesEmitted r.window
    (p.handedOut r.options.batchSize)
  failure : c.result.2 = p.halt.failure
  rowsEmitted : c.reader.rowsEmitted = r.rowsEmitted + p.rows.length
  eventsConsumed : c.reader.eventsConsumed = r.eventsConsumed + p.taken
  skippedElements : c.reader.scan.skippedElements = p.scan.skippedElements
  rowsDiscarded : c.reader.rowsDiscarded = r.rowsDiscarded + if p.discards then 1 else 0
  limitReached : c.reader.limitReached = (r.limitReached || p.halt == .limit)

/-- A reader that has counted a passage. -/
structure Counted (r : Reader) (p : Passage) (r' : Reader) : Prop where
  rowsEmitted : r'.rowsEmitted = r.rowsEmitted + p.rows.length
  eventsConsumed : r'.eventsConsumed = r.eventsConsumed + p.taken
  skippedElements : r'.scan.skippedElements = p.scan.skippedElements
  rowsDiscarded : r'.rowsDiscarded = r.rowsDiscarded + if p.discards then 1 else 0
  limitReached : r'.limitReached = (r.limitReached || p.halt == .limit)

theorem Counted.finished {r : Reader} {p : Passage} {c : Called (List Batch × Option ReadFailure)}
    (h : Counted r p c.reader) (hb : c.result.1 = windows r.options r.batchesEmitted r.window
      (p.handedOut r.options.batchSize)) (hf : c.result.2 = p.halt.failure) : Finished r p c :=
  ⟨hb, hf, h.rowsEmitted, h.eventsConsumed, h.skippedElements, h.rowsDiscarded, h.limitReached⟩

namespace Reader

/-- The passage of the events that a reader has left. -/
def passage (r : Reader) : Passage :=
  Tabular.passage r.options r.source.ending r.source.events r.rowsEmitted r.scan

/-- The filling that a call starts with. -/
def emptied (r : Reader) : Filling where
  scan := r.scan
  schema := r.window
  rowsEmitted := r.rowsEmitted
  eventsConsumed := r.eventsConsumed
  room := r.options.batchSize

theorem nextBatch_eq {r : Reader} (he : r.error = none) (hx : r.exhausted = false) {f : Filling}
    {halt : Halt} {left : List Event}
    (h : fill r.options r.source.ending r.source.events r.emptied = (f, halt, left)) :
    r.nextBatch = settle f halt (r.absorb f left) := by
  simp only [nextBatch, he, hx]
  unfold emptied at h
  simp only [h]

theorem records_gather (r : Reader) (rows : List Row) (scan : Scan) (taken : Nat) :
    (r.emptied.gather rows scan taken).records.reverse = (r.window.foldAll rows).2 := by
  simp [Filling.gather, Filling.records_foldl_add, emptied]

theorem isEmpty_records_gather (r : Reader) (rows : List Row) (scan : Scan) (taken : Nat) :
    (r.emptied.gather rows scan taken).records.isEmpty = rows.isEmpty := by
  rw [← List.isEmpty_reverse, records_gather, Bool.eq_iff_iff, List.isEmpty_iff, List.isEmpty_iff,
    ← List.length_eq_zero_iff, ← List.length_eq_zero_iff, RowSchema.length_foldAll]

theorem schema_gather (r : Reader) (rows : List Row) (scan : Scan) (taken : Nat) :
    (r.emptied.gather rows scan taken).schema = (r.window.foldAll rows).1 :=
  Filling.schema_foldl_add rows r.emptied

theorem rowsEmitted_gather (r : Reader) (rows : List Row) (scan : Scan) (taken : Nat) :
    (r.emptied.gather rows scan taken).rowsEmitted = r.rowsEmitted + rows.length :=
  Filling.rowsEmitted_foldl_add rows r.emptied

/-- The batch of some rows under the schema of a reader. -/
def batchOf (r : Reader) (rows : List Row) : Batch :=
  Batch.ofRecords (r.window.foldAll rows).1.snapshot (r.window.foldAll rows).2 r.batchesEmitted

/-- A reader after so many batches. -/
def counted (n : Nat) (r : Reader) : Reader :=
  { r with batchesEmitted := n }

/-- The schema that the rows behind a filling go to. -/
theorem window_absorb_gather (r : Reader) (rows : List Row) (scan : Scan) (taken : Nat)
    (left : List Event) (n : Nat) :
    ((r.absorb (r.emptied.gather rows scan taken) left).counted n).window =
      if r.options.pinSchema then (r.window.foldAll rows).1
      else RowSchema.start r.options.projection := by
  simp only [counted, absorb, schema_gather, window]
  cases r.options.pinSchema <;> rfl

theorem emit_gather_of_ne_nil (r : Reader) {rows : List Row} (hr : rows ≠ []) (scan : Scan)
    (taken : Nat) (c : Called Unit) (hc : c.reader.batchesEmitted = r.batchesEmitted) :
    emit (r.emptied.gather rows scan taken) c =
      ⟨c.reader.counted (r.batchesEmitted + 1), .ok (some (r.batchOf rows)), c.lines⟩ := by
  rw [emit, isEmpty_records_gather, if_neg (by simpa using hr), records_gather, schema_gather, hc]
  rfl

theorem emit_gather_nil (r : Reader) (scan : Scan) (taken : Nat) (c : Called Unit) :
    emit (r.emptied.gather [] scan taken) c = ⟨c.reader, .ok none, c.lines⟩ := rfl

theorem batches_ok {r : Reader} {b : Batch} (h : r.nextBatch.result = .ok (some b)) (calls : Nat) :
    (batches (calls + 1) r).result =
        (b :: (batches calls r.nextBatch.reader).result.1,
          (batches calls r.nextBatch.reader).result.2) ∧
      (batches (calls + 1) r).reader = (batches calls r.nextBatch.reader).reader := by
  rw [batches]
  simp only [h, and_self]

theorem batches_done {r : Reader} (h : r.nextBatch.result = .ok none) (calls : Nat) :
    (batches (calls + 1) r).result = ([], none) ∧
      (batches (calls + 1) r).reader = r.nextBatch.reader := by
  rw [batches]
  simp only [h, and_self]

theorem batches_error {r : Reader} {failure : ReadFailure}
    (h : r.nextBatch.result = .error failure) (calls : Nat) :
    (batches (calls + 1) r).result = ([], some failure) ∧
      (batches (calls + 1) r).reader = r.nextBatch.reader := by
  rw [batches]
  simp only [h, and_self]

theorem nextBatch_of_exhausted {r : Reader} (he : r.error = none) (hx : r.exhausted = true) :
    r.nextBatch = ⟨r, .ok none, []⟩ := by
  simp only [nextBatch, he, hx]

theorem nextBatch_of_error {r : Reader} {error : Malformed} (he : r.error = some error) :
    r.nextBatch = ⟨r, .error (.malformed error), []⟩ := by
  simp only [nextBatch, he]

/-- The last rows come as one batch, and the error that was held back comes after them. -/
theorem batches_of_emit {r r' : Reader} {rows : List Row} {scan : Scan} {taken : Nat}
    {lines : List LogLine}
    (hn : r.nextBatch = emit (r.emptied.gather rows scan taken) ⟨r', (), lines⟩)
    (hb : r'.batchesEmitted = r.batchesEmitted) (hx : r'.exhausted = true)
    (he : r'.error = none ∨ rows ≠ []) (hlen : rows.length ≤ r.options.batchSize) (calls : Nat) :
    (batches (calls + 2) r).result =
        (windows r.options r.batchesEmitted r.window rows, r'.error.map .malformed) ∧
      ∃ n, (batches (calls + 2) r).reader = r'.counted n := by
  by_cases hr : rows = []
  · subst hr
    rw [emit_gather_nil] at hn
    obtain ⟨h₁, h₂⟩ := batches_done (congrArg Called.result hn) (calls + 1)
    refine ⟨?_, r'.batchesEmitted, ?_⟩
    · rw [h₁, windows_nil, he.resolve_right (by simp)]
      rfl
    · rw [h₂, hn]
      rfl
  · rw [emit_gather_of_ne_nil r hr scan taken _ hb] at hn
    obtain ⟨h₁, h₂⟩ := batches_ok (congrArg Called.result hn) (calls + 1)
    rw [h₁, h₂, hn, windows_of_length_le hr hlen]
    cases hr' : r'.error with
    | none =>
      have hlast := nextBatch_of_exhausted
        (r := r'.counted (r.batchesEmitted + 1)) hr' hx
      obtain ⟨h₃, h₄⟩ := batches_done (congrArg Called.result hlast) calls
      refine ⟨?_, r.batchesEmitted + 1, ?_⟩
      · rw [h₃]
        rfl
      · rw [h₄, hlast]
    | some error =>
      have hlast := nextBatch_of_error
        (r := r'.counted (r.batchesEmitted + 1)) hr'
      obtain ⟨h₃, h₄⟩ := batches_error (congrArg Called.result hlast) calls
      refine ⟨?_, r.batchesEmitted + 1, ?_⟩
      · rw [h₃]
        rfl
      · rw [h₄, hlast]

/-- A reader whose last batch is emitted is finished. -/
theorem finished_of_emit {r r' : Reader} {p : Passage} {lines : List LogLine}
    (hn : r.nextBatch = emit (r.emptied.gather p.rows p.scan p.taken) ⟨r', (), lines⟩)
    (hb : r'.batchesEmitted = r.batchesEmitted) (hx : r'.exhausted = true)
    (he : r'.error = none ∨ p.rows ≠ []) (hlen : p.rows.length ≤ r.options.batchSize)
    (hp : p.handedOut r.options.batchSize = p.rows) (hf : r'.error.map .malformed = p.halt.failure)
    (hc : Counted r p r') (calls : Nat) : Finished r p (batches (calls + 2) r) := by
  obtain ⟨h₁, n, h₂⟩ := batches_of_emit hn hb hx he hlen calls
  refine Counted.finished ?_ ?_ ?_
  · rw [h₂]
    exact ⟨hc.rowsEmitted, hc.eventsConsumed, hc.skippedElements, hc.rowsDiscarded, hc.limitReached⟩
  · rw [h₁, hp]
  · rw [h₁, hf]

/-- A reader after it took what its passage has. -/
def past (r : Reader) (p : Passage) : Reader :=
  r.absorb (r.emptied.gather p.rows p.scan p.taken) p.left

/-- A malformed source: the rows before the error come first. -/
theorem finished_of_broken {r : Reader} {p : Passage} {error : Malformed}
    (hp : p.halt = .broken error) (hlen : p.rows.length ≤ r.options.batchSize)
    (hn : r.nextBatch = settle (r.emptied.gather p.rows p.scan p.taken) (.broken error) (r.past p))
    (calls : Nat) : Finished r p (batches (calls + 2) r) := by
  have hdrop : (if p.scan.builder.isActive then r.rowsDiscarded + 1 else r.rowsDiscarded) =
      r.rowsDiscarded + if p.discards then 1 else 0 := by
    simp only [Passage.discards, hp]
    split <;> rfl
  have hcounted : Counted r p ((r.past p).fail error) := by
    refine ⟨rowsEmitted_gather r p.rows p.scan p.taken, rfl, rfl, hdrop, ?_⟩
    rw [hp]
    exact (Bool.or_false _).symm
  by_cases hr : p.rows = []
  · -- the error comes at once
    have hn' : r.nextBatch.result = .error (.malformed error) ∧
        r.nextBatch.reader = (r.past p).fail error := by
      rw [hn, settle]
      simp [isEmpty_records_gather, hr]
    obtain ⟨h₁, h₂⟩ := batches_error hn'.1 (calls + 1)
    rw [hn'.2] at h₂
    refine Counted.finished (h₂ ▸ hcounted) ?_ ?_
    · rw [h₁, Passage.handedOut, hp, hr, windows_nil]
    · rw [h₁, hp]
      rfl
  · have hn' : ∃ lines, r.nextBatch = emit (r.emptied.gather p.rows p.scan p.taken)
        ⟨(r.past p).fail error, (), lines⟩ := by
      rw [hn, settle]
      simp only [isEmpty_records_gather, List.isEmpty_iff, hr, if_false]
      exact ⟨_, rfl⟩
    obtain ⟨lines, hn'⟩ := hn'
    refine finished_of_emit hn' rfl rfl (Or.inr hr) hlen ?_ ?_ hcounted calls
    · simp only [Passage.handedOut, hp]
    · rw [hp]
      rfl

/-- A file that cannot be read: the rows of the unfinished batch are lost. -/
theorem finished_of_unreadable {r : Reader} {p : Passage} {fault : FileFault}
    (hp : p.halt = .unreadable fault) (hlen : p.rows.length < r.options.batchSize)
    (hn : r.nextBatch =
      settle (r.emptied.gather p.rows p.scan p.taken) (.unreadable fault) (r.past p))
    (calls : Nat) : Finished r p (batches (calls + 2) r) := by
  obtain ⟨h₁, h₂⟩ := batches_error (congrArg Called.result hn) (calls + 1)
  rw [hn] at h₂
  refine Counted.finished ?_ ?_ ?_
  · rw [h₂]
    refine ⟨rowsEmitted_gather r p.rows p.scan p.taken, rfl, rfl, ?_, ?_⟩
    · rw [Passage.discards, hp]
      rfl
    · rw [hp]
      exact (Bool.or_false _).symm
  · rw [h₁, Passage.handedOut, hp]
    simp only [Nat.div_eq_of_lt hlen, Nat.zero_mul, List.take_zero, windows_nil]
  · rw [h₁, hp]
    rfl

/-- A reader is finished once its passage fits into a batch. -/
theorem finished_of_fill {r : Reader} {p : Passage} (he : r.error = none)
    (hx : r.exhausted = false) (hlen : p.rows.length ≤ r.options.batchSize)
    (hlast : p.rows.length = r.options.batchSize → p.halt = .limit) (hne : p.halt ≠ .full)
    (h : fill r.options r.source.ending r.source.events r.emptied =
      (r.emptied.gather p.rows p.scan p.taken, p.halt, p.left)) (calls : Nat) :
    Finished r p (batches (calls + 2) r) := by
  have hn := nextBatch_eq he hx h
  have hrows := rowsEmitted_gather r p.rows p.scan p.taken
  cases hp : p.halt with
  | full => exact absurd hp hne
  | limit | drained =>
    rw [hp] at hn
    refine finished_of_emit hn rfl rfl (Or.inl he) hlen ?_ ?_ ⟨hrows, rfl, rfl, ?_, ?_⟩ calls
    · simp only [Passage.handedOut, hp]
    · exact (congrArg _ he).trans (by rw [hp]; rfl)
    · simp only [Passage.discards, hp]
      rfl
    · simp [hp, absorb]
  | broken error =>
    rw [hp] at hn
    exact finished_of_broken hp hlen hn calls
  | unreadable fault =>
    rw [hp] at hn
    have hroom : p.rows.length ≠ r.options.batchSize := by
      intro heq
      rw [hlast heq] at hp
      cases hp
    exact finished_of_unreadable hp (by omega) hn calls

/-- A full batch, and then a reader that finishes. -/
theorem finished_of_next {r next : Reader} {rows : List Row} {taken calls : Nat} {p : Passage}
    (hb : 0 < r.options.batchSize) (hres : r.nextBatch.result = .ok (some (r.batchOf rows)))
    (hnext : r.nextBatch.reader = next) (hlen : rows.length = r.options.batchSize)
    (ho : next.options = r.options) (hi : next.batchesEmitted = r.batchesEmitted + 1)
    (hw : next.window = if r.options.pinSchema then (r.window.foldAll rows).1
      else RowSchema.start r.options.projection)
    (hrows : next.rowsEmitted = r.rowsEmitted + rows.length)
    (htaken : next.eventsConsumed = r.eventsConsumed + taken)
    (hdrop : next.rowsDiscarded = r.rowsDiscarded) (hlimit : next.limitReached = r.limitReached)
    (h : Finished next p (batches calls next)) :
    Finished r (p.behind rows taken) (batches (calls + 1) r) := by
  obtain ⟨h₁, h₂⟩ := batches_ok hres calls
  rw [hnext] at h₁ h₂
  refine ⟨?_, ?_, ?_, ?_, ?_, ?_, ?_⟩
  · rw [h₁, Passage.handedOut_behind hb hlen, windows_append hb hlen]
    simp only [h.batches, ho, hi, hw]
    rfl
  · rw [h₁]
    exact h.failure
  · rw [h₂, h.rowsEmitted, hrows, Passage.rows_behind, List.length_append, Nat.add_assoc]
  · rw [h₂, h.eventsConsumed, htaken, Passage.taken_behind, Nat.add_assoc]
  · rw [h₂]
    exact h.skippedElements
  · rw [h₂, h.rowsDiscarded, hdrop]
    rfl
  · rw [h₂, h.limitReached, hlimit]
    rfl

/-- The reader after a full batch of some rows. -/
def following (r : Reader) (rows : List Row) (scan : Scan) (taken : Nat) (left : List Event) :
    Reader :=
  (r.absorb (r.emptied.gather rows scan taken) left).counted (r.batchesEmitted + 1)

/-- The calls of a reader come one by one: each gives a full batch, and the passage goes on behind
it, until the rest of the passage fits into a batch. -/
theorem calls_induction {motive : Nat → Reader → Prop}
    (full : ∀ calls r rows scan taken left, 0 < r.options.batchSize →
      rows.length = r.options.batchSize →
      r.nextBatch = ⟨r.following rows scan taken left, .ok (some (r.batchOf rows)),
        (r.emptied.gather rows scan taken).conflicts.reverse.map conflictLine⟩ →
      r.passage = (r.following rows scan taken left).passage.behind rows taken →
      motive calls (r.following rows scan taken left) → motive (calls + 1) r)
    (last : ∀ calls r p, r.passage = p → r.error = none → r.exhausted = false →
      p.rows.length ≤ r.options.batchSize →
      (p.rows.length = r.options.batchSize → p.halt = .limit) →
      fill r.options r.source.ending r.source.events r.emptied =
        (r.emptied.gather p.rows p.scan p.taken, p.halt, p.left) → motive (calls + 2) r)
    (calls : Nat) (r : Reader) (hb : 0 < r.options.batchSize) (he : r.error = none)
    (hx : r.exhausted = false) (hc : r.passage.rows.length + 2 ≤ calls) : motive calls r := by
  induction calls generalizing r with
  | zero => omega
  | succ calls ih =>
    rcases fill_cases r.options r.source.ending r.source.events r.emptied hb with
      ⟨rows, scan, taken, left, hlen, hfill, hp⟩ | ⟨p, hp, hlen, hlast, hfill⟩
    · have hn := nextBatch_eq he hx hfill
      have hr : rows ≠ [] := by
        intro h
        rw [h] at hlen
        exact absurd hlen (Nat.ne_of_lt hb)
      rw [settle, emit_gather_of_ne_nil r hr _ _ _ rfl] at hn
      have hrows : (r.following rows scan taken left).rowsEmitted = r.rowsEmitted + rows.length :=
        rowsEmitted_gather r rows scan taken
      replace hlen : rows.length = r.options.batchSize := hlen
      have hpass : r.passage = (r.following rows scan taken left).passage.behind rows taken := by
        have hroom : r.emptied.rowsEmitted + r.emptied.room =
            (r.following rows scan taken left).rowsEmitted := by
          rw [hrows, hlen]
          rfl
        rw [hroom] at hp
        exact hp
      refine full calls r rows scan taken left hb hlen hn hpass (ih _ hb he hx ?_)
      rw [hpass, Passage.rows_behind, List.length_append] at hc
      omega
    · obtain ⟨calls, rfl⟩ : ∃ n, calls = n + 1 := ⟨calls - 1, by omega⟩
      exact last calls r p hp he hx hlen hlast hfill

/-- **A reader that still has all of its calls to make is finished after enough of them.** -/
theorem finished_batches (calls : Nat) (r : Reader) (hb : 0 < r.options.batchSize)
    (he : r.error = none) (hx : r.exhausted = false) (hc : r.passage.rows.length + 2 ≤ calls) :
    Finished r r.passage (batches calls r) := by
  refine calls_induction (motive := fun calls r => Finished r r.passage (batches calls r))
    ?_ ?_ calls r hb he hx hc
  · intro calls r rows scan taken left hb hlen hn hpass hdone
    rw [hpass]
    exact finished_of_next hb (congrArg Called.result hn) (congrArg Called.reader hn) hlen rfl rfl
      (window_absorb_gather r rows scan taken left _) (rowsEmitted_gather r rows scan taken)
      rfl rfl rfl hdone
  · rintro calls r p hp he hx hlen hlast hfill
    rw [hp]
    exact finished_of_fill he hx hlen hlast (hp ▸ halt_passage_ne_full _ _ _) hfill calls

theorem window_start (o : ReaderOptions) (source : EventSource) :
    (start o source).window = RowSchema.start o.projection := by
  unfold window start
  cases o.pinSchema <;> rfl

/-- **A drained reader is finished.** -/
theorem finished_rest {o : ReaderOptions} (hb : 0 < o.batchSize) (hl : o.limit ≠ some 0)
    (source : EventSource) :
    Finished (start o source) (Tabular.passage o source.ending source.events 0 {})
      (start o source).rest := by
  have hx : (start o source).exhausted = false := decide_eq_false hl
  exact finished_batches _ (start o source) hb rfl hx
    (Nat.add_le_add_right (length_rows_passage _ _ _) 2)

/-- What all calls give: the windows over the rows that are handed out, and what ended them. -/
theorem result_rest {o : ReaderOptions} (hb : 0 < o.batchSize) (hl : o.limit ≠ some 0)
    (source : EventSource) :
    (start o source).rest.result = (windows o 0 (RowSchema.start o.projection)
      ((Tabular.passage o source.ending source.events 0 {}).handedOut o.batchSize),
      (Tabular.passage o source.ending source.events 0 {}).halt.failure) := by
  have hfinished := finished_rest hb hl source
  refine Prod.ext (hfinished.batches.trans ?_) hfinished.failure
  rw [window_start]
  rfl

/-- A reader that may give no row takes no event. -/
theorem rest_of_limit_zero {o : ReaderOptions} (hl : o.limit = some 0) (source : EventSource) :
    (start o source).rest = ⟨start o source, ([], none), []⟩ := by
  have hx : (start o source).exhausted = true := decide_eq_true hl
  rw [rest, batches, nextBatch_of_exhausted rfl hx]

end Reader

end Tabular
