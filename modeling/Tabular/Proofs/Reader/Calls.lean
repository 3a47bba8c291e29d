import Tabular.Proofs.Reader.Filled
import Tabular.Proofs.Schema.Apart

/-!
# Sequences of calls

What a reader has done after some calls, in whatever order they came: the rows that it handed out
are the first ones of its source, cut into windows, and every element at the depth of rows that it
read was handed out, discarded or skipped.

* `windowAfter`, `windowBatch`, **`windows_concat`**: one more window behind full ones;
* `Row.ShownAs`, **`shownAs_windows`**: the rows that batches show;
* `ReadUpTo`: what a beginning of a source comes to;
* `Live`, `Balanced`, `Account`: what is true between two calls;
* `Account.of_live`, `Account.of_lost`, `Account.of_unreadable`: one call of a reader that has not
  stopped, and those where a file breaks off;
* `Call`, `after`, **`account_after`**: calls in any order keep the account;
* **`rows_accounted`**: no row is lost, repeated or left half-built.
-/

namespace Tabular

open Event (startsAt)

variable {o : ReaderOptions} {source : EventSource} {index : Nat} {before rows now : List Row}

/-! ## Windows behind windows -/

/-- The rows before a window that its schema has taken: all, where it is pinned. -/
def takenBefore (o : ReaderOptions) (before : List Row) : List Row :=
  if o.pinSchema then before else []

/-- The schema of the window that comes behind some rows. -/
def windowAfter (o : ReaderOptions) (before : List Row) : RowSchema :=
  ((RowSchema.start o.projection).foldAll (takenBefore o before)).1

theorem windowAfter_nil (o : ReaderOptions) : windowAfter o [] = RowSchema.start o.projection := by
  unfold windowAfter takenBefore
  split <;> rfl

theorem windowAfter_append (o : ReaderOptions) (before rows : List Row) :
    windowAfter o (before ++ rows) =
      if o.pinSchema then ((windowAfter o before).foldAll rows).1
      else RowSchema.start o.projection := by
  unfold windowAfter takenBefore
  split
  · rw [RowSchema.foldAll_append]
  · rfl

/-- The batch of a window that comes behind some rows. -/
def windowBatch (o : ReaderOptions) (before now : List Row) (index : Nat) : Batch :=
  Batch.ofRecords ((windowAfter o before).foldAll now).1.snapshot
    ((windowAfter o before).foldAll now).2 index

theorem windows_full (hb : 0 < o.batchSize) (hn : now.length = o.batchSize) (index : Nat)
    (before later : List Row) :
    windows o index (windowAfter o before) (now ++ later) =
      windowBatch o before now index ::
        windows o (index + 1) (windowAfter o (before ++ now)) later := by
  rw [windows_append hb hn, windowAfter_append]
  rfl

theorem windows_last (hne : now ≠ []) (hn : now.length ≤ o.batchSize) (index : Nat)
    (before : List Row) :
    windows o index (windowAfter o before) now = [windowBatch o before now index] :=
  windows_of_length_le hne hn

/-- Rows that fill some windows are rows of the first and of the others. -/
theorem exists_window {n size : Nat} (h : rows.length = (n + 1) * size) :
    ∃ first later, rows = first ++ later ∧ first.length = size ∧ later.length = n * size := by
  rw [Nat.succ_mul] at h
  refine ⟨rows.take size, rows.drop size, (List.take_append_drop size rows).symm, ?_, ?_⟩
  · rw [List.length_take]
    omega
  · rw [List.length_drop]
    omega

/-- **One more window** behind full ones. -/
theorem windows_concat {n : Nat} (hb : 0 < o.batchSize) (hrows : rows.length = n * o.batchSize)
    (hne : now ≠ []) (hnow : now.length ≤ o.batchSize) (index : Nat) (before : List Row) :
    windows o index (windowAfter o before) (rows ++ now) =
      windows o index (windowAfter o before) rows ++
        [windowBatch o (before ++ rows) now (index + n)] := by
  induction n generalizing rows before index with
  | zero =>
    obtain rfl := List.length_eq_zero_iff.mp (hrows.trans (Nat.zero_mul _))
    rw [List.nil_append, windows_nil, List.append_nil, windows_last hne hnow]
    rfl
  | succ n ih =>
    obtain ⟨first, later, rfl, hfirst, hlater⟩ := exists_window hrows
    rw [List.append_assoc, windows_full hb hfirst, windows_full hb hfirst, ih hlater,
      List.cons_append, List.append_assoc, Nat.add_assoc, Nat.add_comm 1]

/-- The entries are the record that the row comes to behind some rows, in the shape of some
schema. -/
def Row.ShownAs (p : Projection) (row : Row) (shown : Entries Value) : Prop :=
  ∃ before, ∃ s : Snapshot,
    shown = s.pad (((RowSchema.start p).foldAll before).1.fold row).record

theorem shownAs_foldAll (p : Projection) (before rows : List Row) (s : Snapshot) :
    List.Forall₂ (Row.ShownAs p) rows
      ((((RowSchema.start p).foldAll before).1.foldAll rows).2.map s.pad) := by
  induction rows generalizing before with
  | nil => exact .nil
  | cons row rest ih =>
    refine .cons ⟨before, s, rfl⟩ ?_
    rw [← RowSchema.foldAll_concat]
    exact ih (before ++ [row])

/-- **The batches of some rows show them one by one, in their order.** -/
theorem shownAs_windows (hb : 0 < o.batchSize) (index : Nat) (before rows : List Row) :
    List.Forall₂ (Row.ShownAs o.projection) rows
      ((windows o index (windowAfter o before) rows).flatMap Batch.rows) := by
  refine windows_induction (motive := fun rows _ => ∀ index before,
    List.Forall₂ (Row.ShownAs o.projection) rows
      ((windows o index (windowAfter o before) rows).flatMap Batch.rows)) hb ?_ ?_ rfl index before
  · intro index before
    rw [windows_nil]
    exact .nil
  · intro rows _ hne _ ih index before
    rw [windows_of_ne_nil hne hb, ← windowAfter_append, List.flatMap_cons]
    have hnow := shownAs_foldAll o.projection (takenBefore o before) (rows.take o.batchSize)
      ((windowAfter o before).foldAll (rows.take o.batchSize)).1.snapshot
    have hlater := ih (index + 1) (before ++ rows.take o.batchSize)
    have hboth : List.Forall₂ (Row.ShownAs o.projection)
        (rows.take o.batchSize ++ rows.drop o.batchSize) (_ ++ _) := List.rel_append hnow hlater
    rw [List.take_append_drop] at hboth
    exact hboth

/-! ## Reading a source -/

/-- The events of a source up to some place finish these rows and lead to this state. -/
structure ReadUpTo (o : ReaderOptions) (source : EventSource) (read left : List Event)
    (scan : Scan) (rows : List Row) : Prop where
  split : source.events = read ++ left
  run : Scan.run o {} read = .ok (scan, rows)

namespace ReadUpTo

variable {read later left : List Event} {scan scan' : Scan}

theorem further (h : ReadUpTo o source read (later ++ left) scan rows)
    (hr : scan.run o later = .ok (scan', now)) :
    ReadUpTo o source (read ++ later) left scan' (rows ++ now) where
  split := by rw [h.split, List.append_assoc]
  run := by
    rw [Scan.run_append h.run, hr]
    rfl

/-- What was read is a beginning of what the source has. -/
theorem sealed (h : ReadUpTo o source read left scan rows) :
    Scan.sealed o {} source.events = rows ++ Scan.sealed o scan left := by
  rw [h.split, Scan.sealed_of_run h.run]

theorem balance (h : ReadUpTo o source read left scan rows) (hd : 1 ≤ o.dataLevel) :
    startsAt o.dataLevel 0 read = rows.length + scan.inProgress + scan.skippedElements := by
  have hb := (Scan.follows_run (Scan.steady_empty hd) h.run).balance
  have hnone : ({} : Scan).inProgress = 0 := rfl
  rw [hnone] at hb
  exact hb

theorem steady (h : ReadUpTo o source read left scan rows) (hd : 1 ≤ o.dataLevel) :
    scan.Steady o :=
  (Scan.follows_run (Scan.steady_empty hd) h.run).steady

end ReadUpTo

/-- An event at fault starts no element. -/
theorem Event.isStart_of_feed_error {scan : Scan} {event : Event} {error : Malformed}
    (h : scan.feed o event = .error error) : event.isStart = false := by
  cases event with
  | start name attributes => cases h
  | text value => rfl
  | finish name => rfl

theorem Event.startsAt_concat {event : Event} (h : event.isStart = false) (level depth : Nat)
    (events : List Event) :
    startsAt level depth (events ++ [event]) = startsAt level depth events := by
  induction events generalizing depth with
  | nil => simp [startsAt, h]
  | cons first rest ih => rw [List.cons_append, startsAt, startsAt, ih]

/-! ## Between two calls -/

namespace Reader

variable {r r' : Reader} {given : List Batch} {handed : Nat}

/-- The reader goes on: it has handed out the rows that it read, in full batches. -/
structure Live (o : ReaderOptions) (source : EventSource) (r : Reader) (rows : List Row) :
    Prop where
  ending : r.source.ending = source.ending
  read : ∃ read, ReadUpTo o source read r.source.events r.scan rows ∧
    r.eventsConsumed = read.length
  emitted : r.rowsEmitted = rows.length
  whole : rows.length = r.batchesEmitted * o.batchSize
  window : r.window = windowAfter o rows
  discarded : r.rowsDiscarded = 0
  idle : r.scan.builder.row = none

/-- Every element at the depth of rows that was read is a row that was handed out, was discarded, or
was skipped. -/
structure Balanced (o : ReaderOptions) (source : EventSource) (r : Reader) : Prop where
  starts : startsAt o.dataLevel 0 (source.events.take r.eventsConsumed) =
    r.rowsEmitted + r.rowsDiscarded + r.scan.skippedElements
  idle : r.scan.builder.row = none

/-- The batches given so far hold the first rows of the source. A reader that has not stopped can go
on, unless the file cannot be read. -/
structure Account (o : ReaderOptions) (source : EventSource) (r : Reader) (given : List Batch)
    (handed : Nat) : Prop where
  options : r.options = o
  given : given = windows o 0 (RowSchema.start o.projection)
    ((Scan.sealed o {} source.events).take handed)
  handed_le : handed ≤ (Scan.sealed o {} source.events).length
  live : r.error = none → r.exhausted = false →
    (∃ rows, Live o source r rows ∧ rows.length = handed) ∨
      r.source.events = [] ∧ ∃ fault, source.ending = .unreadable fault
  balanced : (∀ fault, source.ending ≠ .unreadable fault) →
    Balanced o source r ∧ r.rowsEmitted = handed

theorem account_start (o : ReaderOptions) (source : EventSource) :
    Account o source (start o source) [] 0 where
  options := rfl
  given := by rw [List.take_zero, windows_nil]
  handed_le := Nat.zero_le _
  live _ _ := by
    refine Or.inl ⟨[], ⟨rfl, ⟨[], ⟨rfl, rfl⟩, rfl⟩, rfl, (Nat.zero_mul _).symm, ?_, rfl, rfl⟩, rfl⟩
    rw [window_start, windowAfter_nil]
  balanced _ := ⟨⟨rfl, rfl⟩, rfl⟩

/-! ### One call -/

/-- The reader has stopped for good, and gave up a row under construction. -/
structure Stopped (r r' : Reader) : Prop where
  options : r'.options = r.options
  exhausted : r'.exhausted = true
  emitted : r'.rowsEmitted = r.rowsEmitted
  consumed : r'.eventsConsumed = r.eventsConsumed
  skipped : r'.scan.skippedElements = r.scan.skippedElements
  discarded : r'.rowsDiscarded = r.rowsDiscarded + r.scan.inProgress
  idle : r'.scan.builder.row = none

theorem stopped_of_idle {r r' : Reader} (hs : r.scan.builder.row = none)
    (hr : r' = { r with exhausted := true, limitReached := r'.limitReached }) : Stopped r r' := by
  have hzero := Scan.inProgress_of_none hs
  rw [hr]
  exact ⟨rfl, rfl, rfl, rfl, rfl, by rw [hzero]; rfl, hs⟩

theorem stopped_fail (r : Reader) (error : Malformed) : Stopped r (r.fail error) := by
  refine ⟨rfl, rfl, rfl, rfl, rfl, ?_, rfl⟩
  show (if r.scan.builder.isActive then r.rowsDiscarded + 1 else r.rowsDiscarded) = _
  unfold Scan.inProgress
  split <;> rfl

/-- A reader stops at the end of its events, unless the file breaks off there. -/
theorem stopped_ending {ending : Ending} (hs : r.scan.Steady o) (hd : 1 ≤ o.dataLevel)
    (hno : ∀ fault, ending ≠ .unreadable fault) :
    (∀ fault, ending.halt r.scan.openTags ≠ .unreadable fault) ∧
      Stopped r (r.halted (ending.halt r.scan.openTags)) := by
  cases ending with
  | complete =>
    cases ht : r.scan.openTags with
    | nil => exact ⟨nofun, stopped_of_idle (hs.row_of_openTags ht hd) rfl⟩
    | cons opened rest => exact ⟨nofun, stopped_fail r _⟩
  | malformed line => exact ⟨nofun, stopped_fail r _⟩
  | unreadable fault => exact absurd rfl (hno fault)

/-- The rows that a call gathers are one more window. -/
theorem Live.windows_batchesOf (h : Live o source r rows) (hb : 0 < o.batchSize)
    (hnow : now.length ≤ o.batchSize) :
    windows o 0 (RowSchema.start o.projection) rows ++ r.batchesOf now =
      windows o 0 (RowSchema.start o.projection) (rows ++ now) := by
  unfold batchesOf
  split
  · next hne =>
    rw [hne, List.append_nil, List.append_nil]
  · next hne =>
    have hone := windows_concat hb h.whole hne hnow 0 []
    rw [windowAfter_nil, List.nil_append, Nat.zero_add] at hone
    rw [hone, batchOf, h.window]
    rfl

/-- The account of the batches after a call that gathers some rows. -/
theorem Account.given_append (h : Account o source r given handed) (hl : Live o source r rows)
    (hlen : rows.length = handed) (hb : 0 < o.batchSize) (hnow : now.length ≤ o.batchSize)
    {read left : List Event} {scan : Scan}
    (hr : ReadUpTo o source read left scan (rows ++ now)) :
    given ++ r.batchesOf now = windows o 0 (RowSchema.start o.projection)
        ((Scan.sealed o {} source.events).take (rows ++ now).length) ∧
      (rows ++ now).length ≤ (Scan.sealed o {} source.events).length := by
  have hbefore : (Scan.sealed o {} source.events).take handed = rows := by
    rw [hr.sealed, ← hlen, List.append_assoc, List.take_left]
  constructor
  · rw [h.given, hbefore, hl.windows_batchesOf hb hnow, hr.sealed, List.take_left]
  · rw [hr.sealed]
    exact (List.sublist_append_left (rows ++ now) _).length_le

/-- The account after a call that stops the reader. -/
theorem Account.of_stopped (h : Account o source r given handed) (hv : o.Valid)
    (he : r.error = none) (hx : r.exhausted = false) (hl : Live o source r rows)
    (hlen : rows.length = handed) (hnow : now.length ≤ o.batchSize) {halt : Halt}
    (hhalt : ∀ fault, halt ≠ .unreadable fault) {scan : Scan} {taken : Nat} {left' : List Event}
    (hq : fill r.options r.source.ending r.source.events r.emptied =
      (r.emptied.gather now scan taken, halt, left'))
    (hs : Stopped (r.absorb (r.emptied.gather now scan taken) left')
      ((r.absorb (r.emptied.gather now scan taken) left').halted halt))
    {read left : List Event} (hr : ReadUpTo o source read left scan (rows ++ now))
    (hstarts : startsAt o.dataLevel 0 (source.events.take (r.eventsConsumed + taken)) =
      startsAt o.dataLevel 0 read) :
    ∃ handed', Account o source r.nextBatch.reader (given ++ yielded r.nextBatch) handed' := by
  obtain ⟨hyielded, hreader⟩ := settle_gather r now scan taken left' halt hhalt
  obtain ⟨hgiven, hle⟩ := h.given_append hl hlen hv.one_le_batchSize hnow hr
  rw [nextBatch_eq he hx hq, hyielded, hreader]
  generalize (r.absorb (r.emptied.gather now scan taken) left').halted halt = r' at hs
  have hemitted : r'.rowsEmitted = (rows ++ now).length := by
    rw [hs.emitted, List.length_append, ← hl.emitted]
    exact rowsEmitted_gather r now scan taken
  have hdiscarded : r'.rowsDiscarded = scan.inProgress := by
    rw [hs.discarded]
    show r.rowsDiscarded + scan.inProgress = _
    rw [hl.discarded, Nat.zero_add]
  refine ⟨_, hs.options.trans h.options, hgiven, hle, fun _ hx => ?_,
    fun _ => ⟨⟨?_, hs.idle⟩, hemitted⟩⟩
  · have hstopped := hs.exhausted
    rw [show r'.exhausted = false from hx] at hstopped
    cases hstopped
  · show startsAt o.dataLevel 0 (source.events.take r'.eventsConsumed) =
      r'.rowsEmitted + r'.rowsDiscarded + r'.scan.skippedElements
    rw [hs.consumed, hemitted, hdiscarded, hs.skipped]
    exact hstarts.trans (hr.balance hv.levels_valid.one_le)

/-- The reader after a full batch goes on. -/
theorem Live.of_full (h : Live o source r rows) (ho : r.options = o) {read left : List Event}
    {scan : Scan} (hread : ReadUpTo o source read left scan (rows ++ now)) {taken : Nat}
    (htaken : r.eventsConsumed + taken = read.length) (hne : now ≠ [])
    (hnow : now.length = o.batchSize) (hidle : scan.builder.row = none) :
    Live o source ((r.absorb (r.emptied.gather now scan taken) left).counted
      (r.batchesEmitted + (r.batchesOf now).length)) (rows ++ now) where
  ending := h.ending
  read := ⟨read, hread, htaken⟩
  emitted := by
    rw [List.length_append, ← h.emitted]
    exact rowsEmitted_gather r now scan taken
  whole := by
    rw [List.length_append, h.whole, hnow, batchesOf, if_neg hne]
    exact (Nat.succ_mul _ _).symm
  window := by
    rw [windowAfter_append, ← h.window, ← ho]
    exact window_absorb_gather r now scan taken left _
  discarded := h.discarded
  idle := hidle

theorem Live.balanced (h : Live o source r rows) (hd : 1 ≤ o.dataLevel) :
    Balanced o source r ∧ r.rowsEmitted = rows.length := by
  obtain ⟨read, hread, hconsumed⟩ := h.read
  have hbalance := hread.balance hd
  rw [Scan.inProgress_of_none h.idle] at hbalance
  refine ⟨⟨?_, h.idle⟩, h.emitted⟩
  rw [hread.split, hconsumed, List.take_left, hbalance, h.emitted, h.discarded]

/-- The account after a call whose file breaks off: the rows of this call are lost. -/
theorem Account.of_lost (h : Account o source r given handed) (he : r.error = none)
    (hx : r.exhausted = false) {f : Filling} {fault : FileFault} {left : List Event}
    (hq : fill r.options r.source.ending r.source.events r.emptied = (f, .unreadable fault, left))
    (hend : source.ending = .unreadable fault) :
    ∃ handed', Account o source r.nextBatch.reader (given ++ yielded r.nextBatch) handed' := by
  rw [nextBatch_eq he hx hq]
  show ∃ handed', Account o source _ (given ++ []) handed'
  rw [List.append_nil]
  exact ⟨handed, h.options, h.given, h.handed_le, fun _ _ => Or.inr ⟨rfl, fault, hend⟩,
    fun hno => absurd hend (hno fault)⟩

/-- The account after a call of a reader that goes on. -/
theorem Account.of_live (h : Account o source r given handed) (hv : o.Valid)
    (he : r.error = none) (hx : r.exhausted = false) (hl : Live o source r rows)
    (hlen : rows.length = handed) :
    ∃ handed', Account o source r.nextBatch.reader (given ++ yielded r.nextBatch) handed' := by
  obtain rfl := h.options
  obtain ⟨read, hread, hconsumed⟩ := hl.read
  have hb := hv.one_le_batchSize
  have hd := hv.levels_valid.one_le
  -- the events that were read, with those of the call
  have htake : ∀ {more left : List Event}, source.events = read ++ more ++ left →
      source.events.take (r.eventsConsumed + more.length) = read ++ more := by
    intro more left hsplit
    rw [hsplit, hconsumed, ← List.length_append, List.take_left]
  have hfilled := filled_fill r.options r.source.ending r.source.events r.emptied hb
  generalize hq : fill r.options r.source.ending r.source.events r.emptied = q at hfilled
  cases hfilled with
  | full now scan more left split run gained room idle =>
    rw [split] at hread
    have hmore := hread.further run
    obtain ⟨hy, hr⟩ := settle_gather r now scan more.length left .full (by simp)
    obtain ⟨hgiven, hle⟩ := h.given_append hl hlen hb (Nat.le_of_eq room) hmore
    have hlive : Live r.options source _ (rows ++ now) := hl.of_full rfl hmore
      (by rw [hconsumed, List.length_append]) gained room idle
    rw [nextBatch_eq he hx hq, hy, hr]
    exact ⟨_, rfl, hgiven, hle, fun _ _ => Or.inl ⟨_, hlive, rfl⟩, fun _ => hlive.balanced hd⟩
  | limit now scan more left split run gained room idle =>
    rw [split] at hread
    have hmore := hread.further run
    exact h.of_stopped hv he hx hl hlen room (by simp) hq (stopped_of_idle idle rfl) hmore
      (congrArg _ (htake hmore.split))
  | ended now scan run room =>
    rw [← List.append_nil r.source.events] at hread
    have hmore := hread.further run
    by_cases hno : ∀ fault, r.source.ending ≠ .unreadable fault
    · have hsteady := hmore.steady hd
      obtain ⟨hhalt, hs⟩ := stopped_ending hsteady hd hno
        (r := r.absorb (r.emptied.gather now scan r.source.events.length) [])
      exact h.of_stopped hv he hx hl hlen (Nat.le_of_lt room) hhalt hq hs hmore
        (congrArg _ (htake hmore.split))
    · obtain ⟨fault, hend⟩ := not_forall_not.mp hno
      have hhalt : r.source.ending.halt scan.openTags = .unreadable fault := by rw [hend]; rfl
      rw [hhalt] at hq
      exact h.of_lost he hx hq (hl.ending.symm.trans hend)
  | fault now scan more event left error split run feed room =>
    rw [split] at hread
    have hmore := hread.further run
    have hsplit : source.events = read ++ (more ++ [event]) ++ left := by
      rw [hmore.split]
      simp
    have htaken := htake hsplit
    rw [List.length_append, List.length_singleton] at htaken
    refine h.of_stopped hv he hx hl hlen (Nat.le_of_lt room) (by simp) hq (stopped_fail _ error)
      hmore ?_
    rw [htaken, ← List.append_assoc]
    exact Event.startsAt_concat (Event.isStart_of_feed_error feed) _ _ _

/-- The account after a call of a reader whose file could not be read. -/
theorem Account.of_unreadable (h : Account o source r given handed) (he : r.error = none)
    (hx : r.exhausted = false) (hempty : r.source.events = []) {fault : FileFault}
    (hend : source.ending = .unreadable fault) :
    ∃ handed', Account o source r.nextBatch.reader (given ++ yielded r.nextBatch) handed' := by
  have hfill : fill r.options r.source.ending r.source.events r.emptied =
      (r.emptied.gather [] r.scan 0, r.emptied.atEnd r.source.ending, []) := by
    rw [hempty, fill]
    rfl
  -- whatever the halt is, there is no row to give
  have hnothing : ∀ halt c, c = settle (r.emptied.gather [] r.scan 0) halt
      (r.absorb (r.emptied.gather [] r.scan 0) []) →
      yielded c = [] ∧ c.reader.options = r.options ∧ c.reader.source.events = [] := by
    rintro halt c rfl
    cases halt <;> exact ⟨rfl, rfl, rfl⟩
  have hcall := nextBatch_eq he hx hfill
  obtain ⟨hyielded, hoptions, hevents⟩ := hnothing _ _ hcall
  rw [hyielded, List.append_nil]
  exact ⟨handed, hoptions.trans h.options, h.given, h.handed_le,
    fun _ _ => Or.inr ⟨hevents, fault, hend⟩, fun hno => absurd hend (hno fault)⟩

/-- **A call keeps the account.** -/
theorem Account.nextBatch (h : Account o source r given handed) (hv : o.Valid) :
    ∃ handed', Account o source r.nextBatch.reader (given ++ yielded r.nextBatch) handed' := by
  cases he : r.error with
  | some error =>
    rw [nextBatch_of_error he]
    show ∃ handed', Account o source r (given ++ []) handed'
    rw [List.append_nil]
    exact ⟨handed, h⟩
  | none =>
    cases hx : r.exhausted with
    | true =>
      rw [nextBatch_of_exhausted he hx]
      show ∃ handed', Account o source r (given ++ []) handed'
      rw [List.append_nil]
      exact ⟨handed, h⟩
    | false =>
      rcases h.live he hx with ⟨rows, hl, hlen⟩ | ⟨hempty, fault, hend⟩
      · exact h.of_live hv he hx hl hlen
      · exact h.of_unreadable he hx hempty hend

/-- Closing a reader keeps the account. -/
theorem Account.close (h : Account o source r given handed) :
    Account o source r.close.reader given handed := by
  unfold Reader.close
  split
  · exact h
  · exact ⟨h.options, h.given, h.handed_le, fun _ hx => (by cases hx), fun hno =>
      ⟨⟨(h.balanced hno).1.starts, (h.balanced hno).1.idle⟩, (h.balanced hno).2⟩⟩

end Reader

/-! ## All calls -/

/-- A call of a reader. -/
inductive Call where
  | nextBatch
  | close
  deriving Repr, DecidableEq, Inhabited

namespace Reader

variable {r : Reader} {given : List Batch} {handed : Nat}

/-- The reader after a call, and the batch that the call gave, if it gave one. -/
def call (r : Reader) : Call → Reader × List Batch
  | .nextBatch => (r.nextBatch.reader, yielded r.nextBatch)
  | .close => (r.close.reader, [])

/-- The reader after some calls, and the batches that they gave. -/
def after (r : Reader) : List Call → Reader × List Batch
  | [] => (r, [])
  | c :: rest =>
    let now := r.call c
    let later := now.1.after rest
    (later.1, now.2 ++ later.2)

theorem account_call (h : Account o source r given handed) (hv : o.Valid) (c : Call) :
    ∃ handed', Account o source (r.call c).1 (given ++ (r.call c).2) handed' := by
  cases c with
  | nextBatch => exact h.nextBatch hv
  | close =>
    refine ⟨handed, ?_⟩
    rw [call, List.append_nil]
    exact h.close

/-- **All calls keep the account**, in whatever order they come. -/
theorem account_after (h : Account o source r given handed) (hv : o.Valid) (calls : List Call) :
    ∃ handed', Account o source (r.after calls).1 (given ++ (r.after calls).2) handed' := by
  induction calls generalizing r given handed with
  | nil =>
    refine ⟨handed, ?_⟩
    rw [after, List.append_nil]
    exact h
  | cons c rest ih =>
    obtain ⟨next, hnext⟩ := account_call h hv c
    rw [after, ← List.append_assoc]
    exact ih hnext

/-- The batches of some calls are the first rows of the source, cut into windows. -/
theorem batches_after (o : ReaderOptions) (hv : o.Valid) (source : EventSource)
    (calls : List Call) :
    ∃ handed ≤ (Scan.sealed o {} source.events).length,
      ((start o source).after calls).2 = windows o 0 (RowSchema.start o.projection)
        ((Scan.sealed o {} source.events).take handed) := by
  obtain ⟨handed, h⟩ := account_after (account_start o source) hv calls
  exact ⟨handed, h.handed_le, h.given⟩

/-- Each element that started at the depth of rows is a row handed out, a discarded row or a skipped
element; the batches show the rows that were handed out, one by one, which are the first ones that
the source finishes, numbered from zero; and no row is under construction. -/
structure Accounted (o : ReaderOptions) (source : EventSource) (r : Reader) (given : List Batch) :
    Prop where
  starts : startsAt o.dataLevel 0 (source.events.take r.eventsConsumed) =
    r.rowsEmitted + r.rowsDiscarded + r.scan.skippedElements
  size : (given.flatMap Batch.rows).length = r.rowsEmitted
  finished : r.rowsEmitted ≤ (Scan.sealed o {} source.events).length
  batches : given = windows o 0 (RowSchema.start o.projection)
    ((Scan.sealed o {} source.events).take r.rowsEmitted)
  rows : List.Forall₂ (Row.ShownAs o.projection)
    ((Scan.sealed o {} source.events).take r.rowsEmitted) (given.flatMap Batch.rows)
  ordinal : ∀ (n : Nat) (row : Row), (Scan.sealed o {} source.events)[n]? = some row →
    row.ordinal = (n : Int)
  idle : r.scan.builder.row = none

/-- **Row accounting.** Between any two calls of a reader whose source can be read, to its end or to
a fault, no row is lost, repeated or left half-built. -/
theorem rows_accounted (o : ReaderOptions) (hv : o.Valid) (source : EventSource)
    (hsource : ∀ fault, source.ending ≠ .unreadable fault) (calls : List Call) :
    Accounted o source ((start o source).after calls).1 ((start o source).after calls).2 := by
  obtain ⟨handed, h⟩ := account_after (account_start o source) hv calls
  rw [List.nil_append] at h
  generalize ((start o source).after calls).1 = r at h ⊢
  generalize ((start o source).after calls).2 = given at h ⊢
  obtain ⟨hbalanced, hemitted⟩ := h.balanced hsource
  have hgiven := h.given
  rw [← hemitted] at hgiven
  have hle : r.rowsEmitted ≤ (Scan.sealed o {} source.events).length := by
    rw [hemitted]
    exact h.handed_le
  have hshown : List.Forall₂ (Row.ShownAs o.projection)
      ((Scan.sealed o {} source.events).take r.rowsEmitted) (given.flatMap Batch.rows) := by
    rw [hgiven, ← windowAfter_nil]
    exact shownAs_windows hv.one_le_batchSize 0 [] _
  refine ⟨hbalanced.starts, ?_, hle, hgiven, hshown, fun n row hn => ?_, hbalanced.idle⟩
  · rw [← hshown.length_eq, List.length_take, Nat.min_eq_left hle]
  · have hordinal := Scan.ordinal_sealed (Scan.steady_empty hv.levels_valid.one_le) hn
    rw [hordinal]
    exact congrArg Int.ofNat (Nat.zero_add n)

/-- A stream that breaks off inside its third row, and a reader that is closed between two calls. -/
theorem rows_accounted_broken :
    let o : ReaderOptions := { rowTag := some "r", batchSize := 1 }
    let source : EventSource :=
      ⟨[.start "t" [], .start "r" [], .start "a" [], .finish "a", .finish "r", .start "s" [],
        .finish "s", .start "r" [], .finish "r", .start "r" [], .text "x"], .malformed 3⟩
    let calls : List Call := [.nextBatch, .nextBatch, .nextBatch, .close, .nextBatch]
    let r := ((start o source).after calls).1
    (r.rowsEmitted = 2 ∧ r.rowsDiscarded = 1 ∧ r.scan.skippedElements = 1) ∧
      Accounted o source r ((start o source).after calls).2 := by
  intro o source calls r
  have hv : o.Valid := ⟨⟨by decide, by simp [o, ReaderOptions.levels]⟩, by decide⟩
  have hreadable : ∀ fault, source.ending ≠ .unreadable fault := fun fault h => by cases h
  exact ⟨by decide +kernel, rows_accounted o hv source hreadable calls⟩

end Reader

end Tabular
