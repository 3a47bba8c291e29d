import Tabular.Proofs.Reader.Sealed
import Tabular.Proofs.Reader.Windows

/-!
# Filled batches

What one filling reads of its events, and why it stops.

* `Filled`, **`filled_fill`**: the rows of the events it took, up to one that is at fault;
* `Reader.halted`, `Reader.yielded`: what a halt leaves of the reader, and what a call yields;
* **`settle_gather`**: the call that ends with a filling.
-/

namespace Tabular

variable {o : ReaderOptions} {ending : Ending} {event : Event} {rest : List Event} {f : Filling}
  {s : Scan} {row : Row}

/-- What a filling comes to: it is full or has reached the limit with a row that has just been
finished, it has taken all events, or one of them is at fault. -/
inductive Filled (o : ReaderOptions) (ending : Ending) (events : List Event) (f : Filling) :
    Filling × Halt × List Event → Prop
  | full (rows : List Row) (scan : Scan) (read left : List Event) (split : events = read ++ left)
      (run : f.scan.run o read = .ok (scan, rows)) (gained : rows ≠ [])
      (room : rows.length = f.room) (idle : scan.builder.row = none) :
      Filled o ending events f (f.gather rows scan read.length, .full, left)
  | limit (rows : List Row) (scan : Scan) (read left : List Event) (split : events = read ++ left)
      (run : f.scan.run o read = .ok (scan, rows)) (gained : rows ≠ [])
      (room : rows.length ≤ f.room) (idle : scan.builder.row = none) :
      Filled o ending events f (f.gather rows scan read.length, .limit, left)
  | ended (rows : List Row) (scan : Scan) (run : f.scan.run o events = .ok (scan, rows))
      (room : rows.length < f.room) :
      Filled o ending events f
        (f.gather rows scan events.length, ending.halt scan.openTags, [])
  | fault (rows : List Row) (scan : Scan) (read : List Event) (event : Event) (left : List Event)
      (error : Malformed) (split : events = read ++ event :: left)
      (run : f.scan.run o read = .ok (scan, rows)) (feed : scan.feed o event = .error error)
      (room : rows.length < f.room) :
      Filled o ending events f (f.gather rows scan (read.length + 1), .broken error, left)

namespace Filled

/-- The event before a run. -/
theorem run_cons_of_feed {row? : Option Row} {s' : Scan} {read : List Event} {rows : List Row}
    {scan : Scan} (hf : s.feed o event = .ok (s', row?)) (h : s'.run o read = .ok (scan, rows)) :
    s.run o (event :: read) = .ok (scan, row?.toList ++ rows) := by
  rw [Scan.run_cons hf, h]
  rfl

theorem cons_none (hf : f.scan.feed o event = .ok (s, none)) {q : Filling × Halt × List Event}
    (h : Filled o ending rest (f.moved s) q) : Filled o ending (event :: rest) f q := by
  cases h with
  | full rows scan read left split run gained room idle =>
    subst split
    rw [Filling.gather_moved, Nat.add_comm]
    exact .full rows scan (event :: read) left rfl (run_cons_of_feed hf run) gained room idle
  | limit rows scan read left split run gained room idle =>
    subst split
    rw [Filling.gather_moved, Nat.add_comm]
    exact .limit rows scan (event :: read) left rfl (run_cons_of_feed hf run) gained room idle
  | ended rows scan run room =>
    rw [Filling.gather_moved, Nat.add_comm]
    exact .ended rows scan (run_cons_of_feed hf run) room
  | fault rows scan read fault left error split run feed room =>
    subst split
    rw [Filling.gather_moved, Nat.add_comm]
    exact .fault rows scan (event :: read) fault left error rfl (run_cons_of_feed hf run) feed room

theorem cons_some (hf : f.scan.feed o event = .ok (s, some row)) (hroom : f.room - 1 ≠ 0)
    {q : Filling × Halt × List Event} (h : Filled o ending rest ((f.moved s).add row) q) :
    Filled o ending (event :: rest) f q := by
  have hone : ((f.moved s).add row).room = f.room - 1 := rfl
  cases h with
  | full rows scan read left split run gained room idle =>
    subst split
    rw [Filling.gather_add, Nat.add_comm]
    refine .full (row :: rows) scan (event :: read) left rfl (run_cons_of_feed hf run)
      (List.cons_ne_nil row rows) ?_ idle
    rw [List.length_cons]
    omega
  | limit rows scan read left split run gained room idle =>
    subst split
    rw [Filling.gather_add, Nat.add_comm]
    refine .limit (row :: rows) scan (event :: read) left rfl (run_cons_of_feed hf run)
      (List.cons_ne_nil row rows) ?_ idle
    rw [List.length_cons]
    omega
  | ended rows scan run room =>
    rw [Filling.gather_add, Nat.add_comm]
    refine .ended (row :: rows) scan (run_cons_of_feed hf run) ?_
    rw [List.length_cons]
    omega
  | fault rows scan read fault left error split run feed room =>
    subst split
    rw [Filling.gather_add, Nat.add_comm]
    refine .fault (row :: rows) scan (event :: read) fault left error rfl
      (run_cons_of_feed hf run) feed ?_
    rw [List.length_cons]
    omega

end Filled

/-- **A filling takes the rows of the events that it reads**, and stops behind the row that fills
the batch or reaches the limit, at the end, or at a fault. -/
theorem filled_fill (o : ReaderOptions) (ending : Ending) (events : List Event) (f : Filling)
    (hroom : 0 < f.room) : Filled o ending events f (fill o ending events f) := by
  induction events generalizing f with
  | nil =>
    rw [fill, Filling.atEnd_eq]
    exact .ended [] f.scan rfl hroom
  | cons event rest ih =>
    cases hf : f.scan.feed o event with
    | error error =>
      rw [fill_cons_error hf]
      exact .fault [] f.scan [] event rest error rfl rfl hf hroom
    | ok q =>
      obtain ⟨s, row?⟩ := q
      cases row? with
      | none =>
        rw [fill_cons_none hf]
        exact (ih (f.moved s) hroom).cons_none hf
      | some row =>
        have hrun : f.scan.run o [event] = .ok (s, [row]) := Filled.run_cons_of_feed hf rfl
        have hidle := Scan.row_of_feed hf
        have hne : [row] ≠ [] := List.cons_ne_nil row []
        rw [fill_cons_some hf]
        split
        · exact .limit [row] s [event] rest rfl hrun hne hroom hidle
        · split
          · next hone =>
            refine .full [row] s [event] rest rfl hrun hne ?_ hidle
            rw [List.length_singleton]
            omega
          · next hone =>
            exact (ih ((f.moved s).add row) (Nat.pos_of_ne_zero hone)).cons_some hf hone

/-! ## Calls that end with a filling -/

namespace Reader

variable {r : Reader} {rows : List Row}

/-- The reader that a halt leaves behind, before a batch is counted. -/
def halted (r : Reader) : Halt → Reader
  | .full => r
  | .limit => { r with limitReached := true, exhausted := true }
  | .drained => { r with exhausted := true }
  | .broken error => r.fail error
  | .unreadable _ => { r with source := ⟨[], .complete⟩ }

/-- The batch that a call yields, if it does. -/
def yielded (c : Called (Except ReadFailure (Option Batch))) : List Batch :=
  match c.result with
  | .ok (some batch) => [batch]
  | .ok none | .error _ => []

/-- The batch of some rows, if there are any. -/
def batchesOf (r : Reader) (rows : List Row) : List Batch :=
  if rows = [] then [] else [r.batchOf rows]

theorem emit_gather (r : Reader) (rows : List Row) (scan : Scan) (taken : Nat) (c : Called Unit)
    (hc : c.reader.batchesEmitted = r.batchesEmitted) :
    yielded (emit (r.emptied.gather rows scan taken) c) = r.batchesOf rows ∧
      (emit (r.emptied.gather rows scan taken) c).reader =
        c.reader.counted (r.batchesEmitted + (r.batchesOf rows).length) := by
  unfold batchesOf
  by_cases hr : rows = []
  · subst hr
    rw [emit_gather_nil, if_pos rfl, List.length_nil, Nat.add_zero, ← hc]
    exact ⟨rfl, rfl⟩
  · rw [emit_gather_of_ne_nil r hr scan taken c hc, if_neg hr]
    exact ⟨rfl, rfl⟩

/-- **A call hands out the rows that it gathered**, except where the file cannot be read. -/
theorem settle_gather (r : Reader) (rows : List Row) (scan : Scan) (taken : Nat)
    (left : List Event) (halt : Halt) (hh : ∀ fault, halt ≠ .unreadable fault) :
    let f := r.emptied.gather rows scan taken
    yielded (settle f halt (r.absorb f left)) = r.batchesOf rows ∧
      (settle f halt (r.absorb f left)).reader =
        ((r.absorb f left).halted halt).counted
          (r.batchesEmitted + (r.batchesOf rows).length) := by
  cases halt with
  | full => exact emit_gather r rows scan taken _ rfl
  | limit => exact emit_gather r rows scan taken _ rfl
  | drained => exact emit_gather r rows scan taken _ rfl
  | unreadable fault => exact absurd rfl (hh fault)
  | broken error =>
    by_cases hr : rows = []
    · -- the error comes at once
      subst hr
      have hnone : (r.emptied.gather [] scan taken).records.isEmpty = true := rfl
      simp only [settle, hnone, if_true]
      exact ⟨rfl, rfl⟩
    · have hsome : (r.emptied.gather rows scan taken).records.isEmpty = false := by
        rw [isEmpty_records_gather]
        simpa using hr
      simp only [settle, hsome, Bool.false_eq_true, if_false]
      exact emit_gather r rows scan taken _ rfl

end Reader

end Tabular
