import Tabular.Proofs.Reader.Filled

/-!
# What a drained reader has left

Besides its batches and counters a drained reader has the events behind its passage, the conflicts
of all its rows, and the error that every later call fails with.

* `RowSchema.conflictsAll`, `windowConflicts`: the conflicts of some rows, under one schema and
  window by window;
* `Drained`, **`drained_batches`**, **`drained_rest`**: what is left behind a passage;
* `conflictLines`, **`conflictLines_rest`**: the conflicts that are logged;
* `batchesEmitted_batches`: the number of batches;
* `Passage.diagnostics`, **`diagnostics_rest`**: the counters;
* `nextBatch_of_stopped`, `reader_batches_succ`: the calls of a reader that has stopped.
-/

namespace Tabular

/-! ## Conflicts -/

namespace RowSchema

/-- The conflicts of some rows that come one after another. -/
def conflictsAll (s : RowSchema) : List Row → List Conflict
  | [] => []
  | row :: rest => (s.fold row).conflicts ++ (s.fold row).schema.conflictsAll rest

theorem conflictsAll_append (s : RowSchema) (now later : List Row) :
    s.conflictsAll (now ++ later) =
      s.conflictsAll now ++ (s.foldAll now).1.conflictsAll later := by
  induction now generalizing s with
  | nil => rfl
  | cons row rest ih =>
    rw [List.cons_append, conflictsAll, ih, conflictsAll, List.append_assoc]
    rfl

end RowSchema

/-- The conflicts of some rows, where the first window has the given schema. -/
def windowConflicts (o : ReaderOptions) (schema : RowSchema) (rows : List Row) : List Conflict :=
  if _h : rows = [] ∨ o.batchSize = 0 then []
  else
    let now := rows.take o.batchSize
    let next := if o.pinSchema then (schema.foldAll now).1 else RowSchema.start o.projection
    schema.conflictsAll now ++ windowConflicts o next (rows.drop o.batchSize)
termination_by rows.length
decreasing_by
  have : rows.length ≠ 0 := fun h => _h (Or.inl (List.length_eq_zero_iff.mp h))
  have : o.batchSize ≠ 0 := fun h => _h (Or.inr h)
  rw [List.length_drop]
  omega

section Conflicts

variable {o : ReaderOptions} {schema : RowSchema} {now rows : List Row}

theorem windowConflicts_nil : windowConflicts o schema [] = [] := by
  rw [windowConflicts, dif_pos (Or.inl rfl)]

theorem windowConflicts_of_ne_nil (hr : rows ≠ []) (hb : 0 < o.batchSize) :
    windowConflicts o schema rows = schema.conflictsAll (rows.take o.batchSize) ++
      windowConflicts o
        (if o.pinSchema then (schema.foldAll (rows.take o.batchSize)).1
          else RowSchema.start o.projection)
        (rows.drop o.batchSize) := by
  rw [windowConflicts, dif_neg fun h => h.elim hr (Nat.ne_of_gt hb)]

/-- The conflicts of windows depend on three options only. -/
theorem windowConflicts_congr {o' : ReaderOptions} (hb : o'.batchSize = o.batchSize)
    (hp : o'.pinSchema = o.pinSchema) (hj : o'.projection = o.projection) (schema : RowSchema)
    (rows : List Row) : windowConflicts o' schema rows = windowConflicts o schema rows := by
  induction schema, rows using windowConflicts.induct o with
  | case1 schema rows h => rw [windowConflicts, windowConflicts, dif_pos h, dif_pos (hb ▸ h)]
  | case2 schema rows h now next ih =>
    rw [windowConflicts, windowConflicts, dif_neg h, dif_neg (hb ▸ h)]
    simp only [hb, hp, hj]
    exact congrArg _ ih

/-- The conflicts of a full window come before those of the rows that follow. -/
theorem windowConflicts_append (hb : 0 < o.batchSize) (hn : now.length = o.batchSize)
    (later : List Row) :
    windowConflicts o schema (now ++ later) = schema.conflictsAll now ++
      windowConflicts o
        (if o.pinSchema then (schema.foldAll now).1 else RowSchema.start o.projection) later := by
  have hne : now ++ later ≠ [] := by
    intro h
    have := congrArg List.length h
    rw [List.length_append, List.length_nil] at this
    omega
  rw [windowConflicts_of_ne_nil hne hb, ← hn, List.take_left, List.drop_left]

theorem windowConflicts_of_length_le (hb : 0 < o.batchSize) (hn : rows.length ≤ o.batchSize) :
    windowConflicts o schema rows = schema.conflictsAll rows := by
  by_cases hr : rows = []
  · rw [hr, windowConflicts_nil]
    rfl
  · rw [windowConflicts_of_ne_nil hr hb, List.take_of_length_le hn, List.drop_of_length_le hn,
      windowConflicts_nil, List.append_nil]

/-- **A pinned schema meets the same conflicts**, wherever its windows end. -/
theorem windowConflicts_of_pinned (hb : 0 < o.batchSize) (hp : o.pinSchema = true)
    (schema : RowSchema) (rows : List Row) :
    windowConflicts o schema rows = schema.conflictsAll rows := by
  refine windows_induction (motive := fun rows _ => ∀ schema : RowSchema,
    windowConflicts o schema rows = schema.conflictsAll rows)
    hb ?_ ?_ (rfl : rows.length = _) schema
  · intro schema
    rw [windowConflicts_nil]
    rfl
  · intro rows _ hne _ ih schema
    rw [windowConflicts_of_ne_nil hne hb, if_pos hp, ih, ← RowSchema.conflictsAll_append,
      List.take_append_drop]

end Conflicts

theorem Filling.conflicts_foldl_add (rows : List Row) (f : Filling) :
    (rows.foldl (fun f row => f.add row) f).conflicts =
      (f.schema.conflictsAll rows).reverse ++ f.conflicts := by
  induction rows generalizing f with
  | nil => rfl
  | cons row rest ih =>
    rw [List.foldl_cons, ih]
    simp [add, RowSchema.conflictsAll]

/-! ## Drained readers -/

/-- The error that a reader keeps where its passage stopped. -/
def Halt.error : Halt → Option Malformed
  | .broken error => some error
  | .full | .limit | .drained | .unreadable _ => none

/-- What a reader has left behind a passage. It stops unless the file cannot be read. -/
structure Drained (r : Reader) (p : Passage) (r' : Reader) : Prop where
  options : r'.options = r.options
  tally : r'.scan.builder.tally = p.scan.builder.tally
  schemaConflicts : r'.schemaConflicts =
    r.schemaConflicts + (windowConflicts r.options r.window p.rows).length
  conflicts : r'.conflicts =
    (r.conflicts ++ windowConflicts r.options r.window p.rows).take keptConflicts
  error : r'.error = p.halt.error
  stopped : (∀ fault, p.halt ≠ .unreadable fault) →
    r'.exhausted = true ∧ r'.source.events = p.left

namespace Reader

variable {r next : Reader} {rows : List Row} {scan : Scan} {taken : Nat} {left : List Event}
  {p : Passage}

/-! ### Stopped readers -/

theorem nextBatch_of_stopped (h : r.exhausted = true) :
    r.nextBatch = ⟨r, match r.error with
      | some error => .error (.malformed error)
      | none => .ok none, []⟩ := by
  cases he : r.error with
  | some error => exact nextBatch_of_error he
  | none => exact nextBatch_of_exhausted he h

/-- Further calls leave a reader that has stopped as it is. -/
theorem reader_batches_of_exhausted (h : r.exhausted = true) (calls : Nat) :
    (batches calls r).reader = r := by
  cases calls with
  | zero => rfl
  | succ calls =>
    have hn := nextBatch_of_stopped h
    cases he : r.error with
    | some error =>
      rw [he] at hn
      rw [(batches_error (congrArg Called.result hn) calls).2, hn]
    | none =>
      rw [he] at hn
      rw [(batches_done (congrArg Called.result hn) calls).2, hn]

/-- After a call that stops a reader, further calls leave it as it is. -/
theorem reader_batches_succ (h : r.nextBatch.reader.exhausted = true) (calls : Nat) :
    (batches (calls + 1) r).reader = r.nextBatch.reader := by
  cases hn : r.nextBatch.result with
  | error failure => exact (batches_error hn calls).2
  | ok batch? =>
    cases batch? with
    | none => exact (batches_done hn calls).2
    | some batch => rw [(batches_ok hn calls).2, reader_batches_of_exhausted h]

/-! ### Behind a passage -/

theorem conflicts_gather (r : Reader) (rows : List Row) (scan : Scan) (taken : Nat) :
    (r.emptied.gather rows scan taken).conflicts.reverse = r.window.conflictsAll rows := by
  simp [Filling.gather, Filling.conflicts_foldl_add, emptied]

theorem conflicts_absorb_gather (r : Reader) (rows : List Row) (scan : Scan) (taken : Nat)
    (left : List Event) :
    (r.absorb (r.emptied.gather rows scan taken) left).schemaConflicts =
        r.schemaConflicts + (r.window.conflictsAll rows).length ∧
      (r.absorb (r.emptied.gather rows scan taken) left).conflicts =
        (r.conflicts ++ r.window.conflictsAll rows).take keptConflicts := by
  simp only [absorb, conflicts_gather, and_self]

/-- The call that ends with the passage stops a reader of a file that can be read. -/
theorem exhausted_nextBatch (he : r.error = none) (hx : r.exhausted = false)
    (hne : p.halt ≠ .full) (hu : ∀ fault, p.halt ≠ .unreadable fault)
    (h : fill r.options r.source.ending r.source.events r.emptied =
      (r.emptied.gather p.rows p.scan p.taken, p.halt, p.left)) :
    r.nextBatch.reader.exhausted = true := by
  rw [nextBatch_eq he hx h, (settle_gather r p.rows p.scan p.taken p.left p.halt hu).2]
  cases hp : p.halt with
  | full => exact absurd hp hne
  | unreadable fault => exact absurd hp (hu fault)
  | _ => rfl

/-- The call that ends with the passage. -/
theorem reader_nextBatch_of_fill (he : r.error = none) (hx : r.exhausted = false)
    (hne : p.halt ≠ .full)
    (h : fill r.options r.source.ending r.source.events r.emptied =
      (r.emptied.gather p.rows p.scan p.taken, p.halt, p.left)) (calls : Nat) :
    ∃ n, (batches (calls + 1) r).reader = ((r.past p).halted p.halt).counted n := by
  have hn := nextBatch_eq he hx h
  by_cases hu : ∃ fault, p.halt = .unreadable fault
  · obtain ⟨fault, hu⟩ := hu
    rw [hu] at hn ⊢
    rw [(batches_error (congrArg Called.result hn) calls).2, hn]
    exact ⟨(r.past p).batchesEmitted, rfl⟩
  · have hread : ∀ fault, p.halt ≠ .unreadable fault := fun fault hf => hu ⟨fault, hf⟩
    rw [reader_batches_succ (exhausted_nextBatch he hx hne hread h), hn,
      (settle_gather r p.rows p.scan p.taken p.left p.halt hread).2]
    exact ⟨_, rfl⟩

theorem drained_halted (he : r.error = none) (hb : 0 < r.options.batchSize)
    (hlen : p.rows.length ≤ r.options.batchSize) (hne : p.halt ≠ .full) (n : Nat) :
    Drained r p (((r.past p).halted p.halt).counted n) := by
  obtain ⟨hcount, hkept⟩ := conflicts_absorb_gather r p.rows p.scan p.taken p.left
  rw [← windowConflicts_of_length_le hb hlen] at hcount hkept
  cases hp : p.halt with
  | full => exact absurd hp hne
  | broken error => exact ⟨rfl, rfl, hcount, hkept, by rw [hp]; rfl, fun _ => ⟨rfl, rfl⟩⟩
  | limit => exact ⟨rfl, rfl, hcount, hkept, by rw [hp]; exact he, fun _ => ⟨rfl, rfl⟩⟩
  | drained => exact ⟨rfl, rfl, hcount, hkept, by rw [hp]; exact he, fun _ => ⟨rfl, rfl⟩⟩
  | unreadable fault =>
    exact ⟨rfl, rfl, hcount, hkept, by rw [hp]; exact he, fun h => absurd hp (h fault)⟩

/-- Conflicts are kept up to a number, whether they come at once or one after another. -/
theorem take_append_of_taken (n : Nat) (kept more : List Conflict) :
    (kept.take n ++ more).take n = (kept ++ more).take n := by
  have hroom : n - min n kept.length = n - kept.length := by omega
  rw [List.take_append, List.take_append, List.take_take, Nat.min_self, List.length_take, hroom]

/-- What is left behind a full batch and the passage that follows it. -/
theorem drained_of_following {r' : Reader} (hb : 0 < r.options.batchSize)
    (hlen : rows.length = r.options.batchSize)
    (h : Drained (r.following rows scan taken left) p r') : Drained r (p.behind rows taken) r' := by
  obtain ⟨hcount, hkept⟩ := conflicts_absorb_gather r rows scan taken left
  have hnext : windowConflicts r.options r.window (rows ++ p.rows) =
      r.window.conflictsAll rows ++ windowConflicts (r.following rows scan taken left).options
        (r.following rows scan taken left).window p.rows := by
    rw [windowConflicts_append hb hlen]
    exact congrArg (_ ++ windowConflicts r.options · p.rows)
      (window_absorb_gather r rows scan taken left _).symm
  refine ⟨h.options, h.tally, ?_, ?_, h.error, h.stopped⟩
  · rw [h.schemaConflicts, Passage.rows_behind, hnext, List.length_append, ← Nat.add_assoc]
    exact congrArg (· + _) hcount
  · -- what was cut off before would be cut off now
    rw [h.conflicts, Passage.rows_behind, hnext, ← List.append_assoc]
    show ((r.absorb _ left).conflicts ++ _).take keptConflicts = _
    rw [hkept, take_append_of_taken]

/-- **What is left once all calls were made.** -/
theorem drained_batches (calls : Nat) (r : Reader) (hb : 0 < r.options.batchSize)
    (he : r.error = none) (hx : r.exhausted = false) (hc : r.passage.rows.length + 2 ≤ calls) :
    Drained r r.passage (batches calls r).reader := by
  refine calls_induction (motive := fun calls r => 0 < r.options.batchSize →
    Drained r r.passage (batches calls r).reader) ?_ ?_ calls r hb he hx hc hb
  · intro calls r rows scan taken left hb hlen hn hpass hdone _
    rw [hpass, (batches_ok (congrArg Called.result hn) calls).2, hn]
    exact drained_of_following hb hlen (hdone hb)
  · rintro calls r p rfl he hx hlen hlast hfill hb
    have hne : r.passage.halt ≠ .full := halt_passage_ne_full _ _ _
    obtain ⟨n, hn⟩ := reader_nextBatch_of_fill he hx hne hfill (calls + 1)
    rw [hn]
    exact drained_halted he hb hlen hne n

/-- **What is left of a source.** -/
theorem drained_rest {o : ReaderOptions} (hb : 0 < o.batchSize) (hl : o.limit ≠ some 0)
    (source : EventSource) :
    Drained (start o source) (Tabular.passage o source.ending source.events 0 {})
      (start o source).rest.reader :=
  drained_batches _ (start o source) hb rfl (decide_eq_false hl)
    (Nat.add_le_add_right (length_rows_passage _ _ _) 2)

/-! ### Logged conflicts -/

/-- The lines of a call that tell of conflicts. -/
def conflictLines {α : Type} (c : Called α) : List LogLine :=
  c.lines.filter fun line => line.log == "xmlrows.schema"

theorem filter_conflictLine (conflicts : List Conflict) :
    (conflicts.map conflictLine).filter (fun line => line.log == "xmlrows.schema") =
      conflicts.map conflictLine := by
  refine List.filter_eq_self.mpr fun line hline => ?_
  obtain ⟨conflict, -, rfl⟩ := List.mem_map.mp hline
  rfl

theorem lines_emit (f : Filling) (c : Called Unit) : (emit f c).lines = c.lines := by
  unfold emit
  split <;> rfl

/-- A call tells of the conflicts that its batch met, whatever stopped it. -/
theorem conflictLines_settle (f : Filling) (halt : Halt) (r : Reader) :
    conflictLines (settle f halt r) = f.conflicts.reverse.map conflictLine := by
  have hlines : ∃ lines, (settle f halt r).lines = f.conflicts.reverse.map conflictLine ++ lines ∧
      ∀ line ∈ lines, line.log = "xmlrows.reader" := by
    cases halt with
    | full => exact ⟨[], (lines_emit f _).trans (List.append_nil _).symm, nofun⟩
    | limit => exact ⟨_, lines_emit f _, by simp [limitLine, summaryLine, line]⟩
    | drained => exact ⟨_, lines_emit f _, by simp [summaryLine, line]⟩
    | broken error =>
      unfold settle
      simp only
      split
      · exact ⟨_, rfl, by simp [summaryLine, line]⟩
      · exact ⟨_, lines_emit f _, by simp [summaryLine, flushLine, line]⟩
    | unreadable fault => exact ⟨[], (List.append_nil _).symm, nofun⟩
  obtain ⟨lines, hlines, hlog⟩ := hlines
  have hnone : lines.filter (fun line => line.log == "xmlrows.schema") = [] :=
    List.filter_eq_nil_iff.mpr fun line hline => by simp [hlog line hline]
  rw [conflictLines, hlines, List.filter_append, filter_conflictLine, hnone, List.append_nil]

theorem conflictLines_batches_ok {b : Batch} (h : r.nextBatch.result = .ok (some b))
    (calls : Nat) : conflictLines (batches (calls + 1) r) =
      conflictLines r.nextBatch ++ conflictLines (batches calls r.nextBatch.reader) := by
  rw [batches]
  simp only [h, conflictLines, List.filter_append]

theorem lines_batches_of_exhausted (h : r.exhausted = true) (calls : Nat) :
    (batches calls r).lines = [] := by
  cases calls with
  | zero => rfl
  | succ calls =>
    rw [batches, nextBatch_of_stopped h]
    cases r.error <;> rfl

/-- After a call that stops a reader, or that fails, further calls log nothing. -/
theorem lines_batches_succ (h : r.nextBatch.reader.exhausted = true ∨
      ∃ failure, r.nextBatch.result = .error failure) (calls : Nat) :
    (batches (calls + 1) r).lines = r.nextBatch.lines := by
  rw [batches]
  cases hn : r.nextBatch.result with
  | error failure => rfl
  | ok batch? =>
    cases batch? with
    | none => rfl
    | some batch =>
      have hx : r.nextBatch.reader.exhausted = true := by
        rcases h with hx | ⟨failure, hf⟩
        · exact hx
        · rw [hn] at hf
          cases hf
      simp only [lines_batches_of_exhausted hx, List.append_nil]

/-- The call that ends with the passage stops the reader or fails. -/
theorem nextBatch_ends (he : r.error = none) (hx : r.exhausted = false) (hne : p.halt ≠ .full)
    (h : fill r.options r.source.ending r.source.events r.emptied =
      (r.emptied.gather p.rows p.scan p.taken, p.halt, p.left)) :
    r.nextBatch.reader.exhausted = true ∨ ∃ failure, r.nextBatch.result = .error failure := by
  by_cases hu : ∃ fault, p.halt = .unreadable fault
  · obtain ⟨fault, hu⟩ := hu
    rw [nextBatch_eq he hx h, hu]
    exact .inr ⟨_, rfl⟩
  · exact .inl (exhausted_nextBatch he hx hne (fun fault hf => hu ⟨fault, hf⟩) h)

/-- **The conflicts of a passage are logged in full**, in order. -/
theorem conflictLines_batches (calls : Nat) (r : Reader) (hb : 0 < r.options.batchSize)
    (he : r.error = none) (hx : r.exhausted = false) (hc : r.passage.rows.length + 2 ≤ calls) :
    conflictLines (batches calls r) =
      (windowConflicts r.options r.window r.passage.rows).map conflictLine := by
  refine calls_induction (motive := fun calls r => 0 < r.options.batchSize →
    conflictLines (batches calls r) =
      (windowConflicts r.options r.window r.passage.rows).map conflictLine)
    ?_ ?_ calls r hb he hx hc hb
  · intro calls r rows scan taken left hb hlen hn hpass hlater _
    rw [conflictLines_batches_ok (congrArg Called.result hn), hn, hlater hb, hpass,
      Passage.rows_behind, windowConflicts_append hb hlen, List.map_append, conflictLines]
    simp only [filter_conflictLine, conflicts_gather]
    rw [show (r.following rows scan taken left).window = _ from
      window_absorb_gather r rows scan taken left _]
    rfl
  · rintro calls r p rfl he hx hlen hlast hfill hb
    have hne : r.passage.halt ≠ .full := halt_passage_ne_full _ _ _
    rw [conflictLines, lines_batches_succ (nextBatch_ends he hx hne hfill), ← conflictLines,
      nextBatch_eq he hx hfill, conflictLines_settle, conflicts_gather,
      windowConflicts_of_length_le hb hlen]

theorem conflictLines_rest {o : ReaderOptions} (hb : 0 < o.batchSize) (hl : o.limit ≠ some 0)
    (source : EventSource) :
    conflictLines (start o source).rest = (windowConflicts o (RowSchema.start o.projection)
      (Tabular.passage o source.ending source.events 0 {}).rows).map conflictLine := by
  have hlines := conflictLines_batches _ (start o source) hb rfl (decide_eq_false hl)
    (Nat.add_le_add_right (length_rows_passage _ _ _) 2)
  rw [window_start] at hlines
  exact hlines

/-! ### Counters -/

theorem batchesEmitted_emit (f : Filling) (c : Called Unit) :
    (emit f c).reader.batchesEmitted = c.reader.batchesEmitted +
      if (emit f c).result matches .ok (some _) then 1 else 0 := by
  unfold emit
  split <;> rfl

theorem batchesEmitted_settle (f : Filling) (halt : Halt) (r : Reader) :
    (settle f halt r).reader.batchesEmitted = r.batchesEmitted +
      if (settle f halt r).result matches .ok (some _) then 1 else 0 := by
  cases halt with
  | broken error =>
    unfold settle
    simp only
    split
    · rfl
    · exact batchesEmitted_emit f _
  | unreadable fault => rfl
  | full => exact batchesEmitted_emit f _
  | limit => exact batchesEmitted_emit f _
  | drained => exact batchesEmitted_emit f _

theorem batchesEmitted_nextBatch (r : Reader) : r.nextBatch.reader.batchesEmitted =
    r.batchesEmitted + if r.nextBatch.result matches .ok (some _) then 1 else 0 := by
  cases he : r.error with
  | some error =>
    rw [nextBatch_of_error he]
    rfl
  | none =>
    cases hx : r.exhausted with
    | true =>
      rw [nextBatch_of_exhausted he hx]
      rfl
    | false =>
      rw [nextBatch_eq he hx rfl]
      exact batchesEmitted_settle _ _ _

theorem batchesEmitted_batches (calls : Nat) (r : Reader) :
    (batches calls r).reader.batchesEmitted =
      r.batchesEmitted + (batches calls r).result.1.length := by
  induction calls generalizing r with
  | zero => rfl
  | succ calls ih =>
    have hnext := batchesEmitted_nextBatch r
    cases hr : r.nextBatch.result with
    | error failure =>
      obtain ⟨hresult, hreader⟩ := batches_error hr calls
      rw [hresult, hreader, hnext, hr]
      rfl
    | ok batch? =>
      cases batch? with
      | none =>
        obtain ⟨hresult, hreader⟩ := batches_done hr calls
        rw [hresult, hreader, hnext, hr]
        rfl
      | some batch =>
        obtain ⟨hresult, hreader⟩ := batches_ok hr calls
        rw [hresult, hreader, ih, hnext, hr, List.length_cons]
        simp only [if_true]
        omega
end Reader

/-- The counters of a reader that has drained a source, but for the number of batches. -/
def Passage.diagnostics (p : Passage) (conflicts : List Conflict) : Diagnostics where
  rowsEmitted := p.rows.length
  eventsConsumed := p.taken
  schemaConflicts := conflicts.length
  conflicts := conflicts.take keptConflicts
  duplicateFields := p.scan.builder.tally.duplicateFields
  duplicateAttributes := p.scan.builder.tally.duplicateAttributes
  flattenCollisions := p.scan.builder.tally.flattenCollisions
  reservedCollisions := p.scan.builder.tally.reservedCollisions
  skippedElements := p.scan.skippedElements
  rowsDiscarded := if p.discards then 1 else 0
  limitReached := p.halt == .limit

/-- **The counters of a drained reader.** -/
theorem Reader.diagnostics_rest {o : ReaderOptions} (hb : 0 < o.batchSize) (hl : o.limit ≠ some 0)
    (source : EventSource) :
    (start o source).rest.reader.diagnostics =
      { (Tabular.passage o source.ending source.events 0 {}).diagnostics
          (windowConflicts o (RowSchema.start o.projection)
            (Tabular.passage o source.ending source.events 0 {}).rows) with
        batchesEmitted := (start o source).rest.result.1.length } := by
  have hfinished := finished_rest hb hl source
  have hdrained := drained_rest hb hl source
  have hbatches : (start o source).rest.reader.batchesEmitted =
      0 + (start o source).rest.result.1.length := batchesEmitted_batches _ (start o source)
  generalize Tabular.passage o source.ending source.events 0 {} = p at hfinished hdrained ⊢
  have hreached : (start o source).limitReached = false := decide_eq_false hl
  have hcount := hdrained.schemaConflicts
  have hkept := hdrained.conflicts
  rw [window_start] at hcount hkept
  unfold diagnostics Passage.diagnostics
  rw [hfinished.rowsEmitted, hbatches, hfinished.eventsConsumed, hcount, hkept, hdrained.tally,
    hfinished.skippedElements, hfinished.rowsDiscarded, hfinished.limitReached, hreached]
  simp only [start, Nat.zero_add, List.nil_append, Bool.false_or]

end Tabular
