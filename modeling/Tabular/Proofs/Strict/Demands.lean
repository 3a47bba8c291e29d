import Tabular.Proofs.Reader.Calls
import Tabular.Proofs.Strict.Reader

/-!
# What readers are asked

Demands on a reader, one after another, and its answers. Whatever is asked, and whatever the events
are, nothing that the parts of the reader rely on is breached, and the answers fail with malformed
streams only.

* `Demand`, `Answer`, `Reader.answers`: batches one by one or all that are left, and closing;
* `Strict.Reader.iterate`, `Strict.Reader.answers`: the same for readers by handle, with a bound on
  the batches to come;
* `Reader.Reads`, **`Reads.nextBatch`**: what a reader has read of its source, call by call, why a call
  fails, and the events that a batch takes;
* **`iterate_shows`**, `answer_shows`, **`answers_shows`**: answers breach nothing;
* `Scan.Framed`, `Unbreached`, **`answers_unbreached`**: every sequence of demands.
-/

namespace Tabular

/-- What is asked of a reader. -/
inductive Demand where
  | nextBatch
  /-- Batch after batch, to the end. -/
  | iterate
  | close
  deriving Repr, DecidableEq, Inhabited

/-- The batches that an answer hands out, and what it fails with. -/
structure Answer where
  batches : List Batch := []
  failure : Option ReadFailure := none
  deriving Repr, Inhabited

/-- The answer that a call gives. -/
def Answer.ofCall : Except ReadFailure (Option Batch) → Answer
  | .error failure => ⟨[], some failure⟩
  | .ok batch? => ⟨batch?.toList, none⟩

namespace Reader

/-- The reader after a demand, and its answer. -/
def answer (r : Reader) : Demand → Reader × Answer
  | .nextBatch => (r.nextBatch.reader, .ofCall r.nextBatch.result)
  | .iterate => (r.rest.reader, ⟨r.rest.result.1, r.rest.result.2⟩)
  | .close => (r.close.reader, {})

/-- The reader after some demands, and its answers. -/
def answers (r : Reader) : List Demand → Reader × List Answer
  | [] => (r, [])
  | demand :: rest =>
    let now := r.answer demand
    let later := now.1.answers rest
    (later.1, now.2 :: later.2)

end Reader

namespace Strict.Reader

/-- Batch after batch, in at most so many calls. -/
def iterate : Nat → Reader → Except Breach (Reader × Answer)
  | 0, _ => .error .endless
  | calls + 1, r => do
    match ← r.nextBatch with
    | (r, .error failure) => return (r, ⟨[], some failure⟩)
    | (r, .ok none) => return (r, {})
    | (r, .ok (some batch)) =>
      let later ← iterate calls r
      return (later.1, ⟨batch :: later.2.batches, later.2.failure⟩)

/-- The reader after a demand, and its answer. There are no more batches to come than events. -/
def answer (r : Reader) : Demand → Except Breach (Reader × Answer)
  | .nextBatch => do
    let now ← r.nextBatch
    return (now.1, .ofCall now.2)
  | .iterate => iterate (r.source.events.length + 2) r
  | .close => .ok (r.close, {})

/-- The reader after some demands, and its answers. -/
def answers : List Demand → Reader → Except Breach (Reader × List Answer)
  | [], r => .ok (r, [])
  | demand :: rest, r => do
    let now ← r.answer demand
    let later ← answers rest now.1
    return (later.1, now.2 :: later.2)

end Strict.Reader

/-! ## What a reader has read -/

namespace Reader

variable {o : ReaderOptions} {source : EventSource} {r : Reader}

/-- The options and the ending of the source stay, and a reader that has not failed has read the
events before those that are left. -/
structure Reads (o : ReaderOptions) (source : EventSource) (r : Reader) : Prop where
  options : r.options = o
  ending : r.source.ending = source.ending
  read : r.error = none → ∃ read rows, ReadUpTo o source read r.source.events r.scan rows

theorem reads_start (o : ReaderOptions) (source : EventSource) : (start o source).Reads o source :=
  ⟨rfl, rfl, fun _ => ⟨[], [], rfl, rfl⟩⟩

theorem Reads.sound (h : r.Reads o source) (hd : 1 ≤ o.dataLevel) (he : r.error = none) :
    r.scan.Sound o := by
  obtain ⟨read, rows, hread⟩ := h.read he
  exact (Scan.run_strict (Scan.sound_empty hd) read).2 r.scan rows hread.run

/-- A filling stops for another reason than an unreadable file, and has read the events before those
that are left, unless one of them was at fault. -/
structure Gathers (r : Reader) (rows : List Row) (scan : Scan) (left : List Event) (halt : Halt) :
    Prop where
  readable : ∀ fault, halt ≠ .unreadable fault
  read : (∃ error, halt = .broken error) ∨
    ∃ read, r.source.events = read ++ left ∧ r.scan.run r.options read = .ok (scan, rows)
  shorter : rows ≠ [] → left.length < r.source.events.length

theorem exists_gathers (hb : 0 < r.options.batchSize)
    (hr : ∀ fault, r.source.ending ≠ .unreadable fault) : ∃ rows scan taken left halt,
      fill r.options r.source.ending r.source.events r.emptied =
        (r.emptied.gather rows scan taken, halt, left) ∧ r.Gathers rows scan left halt := by
  have hfilled := filled_fill r.options r.source.ending r.source.events r.emptied hb
  -- where nothing was read, no row has come
  have hshorter : ∀ {read left rows scan}, r.source.events = read ++ left →
      r.scan.run r.options read = .ok (scan, rows) → rows ≠ [] →
        left.length < r.source.events.length := by
    intro read left rows scan hsplit hrun hrows
    cases read with
    | nil =>
      cases hrun
      exact absurd rfl hrows
    | cons event rest =>
      rw [hsplit, List.length_append, List.length_cons]
      omega
  generalize fill r.options r.source.ending r.source.events r.emptied = q at hfilled
  cases hfilled with
  | full rows scan read left split run gained room idle =>
    exact ⟨_, _, _, _, _, rfl, by simp, .inr ⟨read, split, run⟩, hshorter split run⟩
  | limit rows scan read left split run gained room idle =>
    exact ⟨_, _, _, _, _, rfl, by simp, .inr ⟨read, split, run⟩, hshorter split run⟩
  | ended rows scan run room =>
    refine ⟨_, _, _, _, _, rfl, fun fault hh => ?_,
      .inr ⟨_, (List.append_nil _).symm, run⟩, hshorter (List.append_nil _).symm run⟩
    cases hend : r.source.ending with
    | complete =>
      rw [hend] at hh
      cases ht : scan.openTags <;> simp [Ending.halt, ht] at hh
    | malformed line =>
      rw [hend] at hh
      cases hh
    | unreadable fault => exact hr fault hend
  | fault rows scan read event left error split run feed room =>
    refine ⟨_, _, _, _, _, rfl, by simp, .inl ⟨error, rfl⟩, fun _ => ?_⟩
    rw [split, List.length_append, List.length_cons]
    omega

theorem exists_result_emit (f : Filling) (c : Called Unit) :
    ∃ batch?, (emit f c).result = .ok batch? := by
  rw [emit]
  split
  · exact ⟨none, rfl⟩
  · exact ⟨_, rfl⟩

/-- A call fails with malformed streams only, where the file can be read. -/
theorem malformed_of_settle {f : Filling} {halt : Halt} {failure : ReadFailure}
    (hh : ∀ fault, halt ≠ .unreadable fault) (h : (settle f halt r).result = .error failure) :
    ∃ error, failure = .malformed error := by
  -- a batch is no failure
  have hemit : ∀ c, (emit f c).result ≠ .error failure := by
    intro c hc
    obtain ⟨batch?, hok⟩ := exists_result_emit f c
    rw [hok] at hc
    cases hc
  cases halt with
  | full => exact absurd h (hemit _)
  | limit => exact absurd h (hemit _)
  | drained => exact absurd h (hemit _)
  | unreadable fault => exact absurd rfl (hh fault)
  | broken error =>
    simp only [settle] at h
    split at h
    · cases h
      exact ⟨error, rfl⟩
    · exact absurd h (hemit _)

/-- A halt leaves the source, and the scan where it is no fault. -/
theorem halted_of_readable {halt : Halt} (hh : ∀ fault, halt ≠ .unreadable fault) (r : Reader) :
    (r.halted halt).options = r.options ∧ (r.halted halt).source = r.source ∧
      ((r.halted halt).error = none →
        (r.halted halt).scan = r.scan ∧ ∀ error, halt ≠ .broken error) := by
  cases halt with
  | full => exact ⟨rfl, rfl, fun _ => ⟨rfl, by simp⟩⟩
  | limit => exact ⟨rfl, rfl, fun _ => ⟨rfl, by simp⟩⟩
  | drained => exact ⟨rfl, rfl, fun _ => ⟨rfl, by simp⟩⟩
  | broken error => exact ⟨rfl, rfl, fun hnone => (by cases hnone)⟩
  | unreadable fault => exact absurd rfl (hh fault)

/-- **What a call does**: the reader has read more of its source, it fails with malformed streams
only, and a batch takes events. -/
theorem Reads.nextBatch (h : r.Reads o source) (hv : o.Valid)
    (hsource : ∀ fault, source.ending ≠ .unreadable fault) :
    r.nextBatch.reader.Reads o source ∧
      (∀ failure, r.nextBatch.result = .error failure → ∃ error, failure = .malformed error) ∧
      ∀ batch, r.nextBatch.result = .ok (some batch) →
        r.nextBatch.reader.source.events.length < r.source.events.length := by
  obtain ⟨rfl, hending, hread⟩ := h
  cases he : r.error with
  | some error =>
    rw [nextBatch_of_error he]
    refine ⟨⟨rfl, hending, hread⟩, fun failure hf => ?_, fun batch hb => (by cases hb)⟩
    cases hf
    exact ⟨error, rfl⟩
  | none =>
    cases hx : r.exhausted with
    | true =>
      rw [nextBatch_of_exhausted he hx]
      exact ⟨⟨rfl, hending, hread⟩, fun failure hf => (by cases hf), fun batch hb => (by cases hb)⟩
    | false =>
      obtain ⟨rows, scan, taken, left, halt, hfill, hg⟩ :=
        exists_gathers hv.one_le_batchSize fun fault => hending ▸ hsource fault
      obtain ⟨hyielded, hreader⟩ := settle_gather r rows scan taken left halt hg.readable
      have hsame := halted_of_readable hg.readable
        (r.absorb (r.emptied.gather rows scan taken) left)
      rw [nextBatch_eq he hx hfill, hreader]
      generalize (r.absorb (r.emptied.gather rows scan taken) left).halted halt = r' at hsame
      refine ⟨⟨hsame.1, (congrArg EventSource.ending hsame.2.1).trans hending, fun hnone => ?_⟩,
        fun failure hf => malformed_of_settle hg.readable hf, fun batch hb => ?_⟩
      · obtain ⟨hscan, hbroken⟩ := hsame.2.2 hnone
        rcases hg.read with ⟨error, hb⟩ | ⟨more, hsplit, hrun⟩
        · exact absurd hb (hbroken error)
        · obtain ⟨read, before, hbefore⟩ := hread he
          rw [hsplit] at hbefore
          refine ⟨read ++ more, before ++ rows, ?_⟩
          show ReadUpTo r.options source _ r'.source.events r'.scan _
          rw [hsame.2.1, hscan]
          exact hbefore.further hrun
      · rw [yielded, hb] at hyielded
        have hrows : rows ≠ [] := by
          rintro rfl
          cases hyielded
        show r'.source.events.length < r.source.events.length
        rw [hsame.2.1]
        exact hg.shorter hrows

theorem Reads.close (h : r.Reads o source) : r.close.reader.Reads o source := by
  rw [Reader.close]
  split
  · exact h
  · exact ⟨h.options, h.ending, h.read⟩

end Reader

/-! ## Answers -/

namespace Strict.Reader

variable {o : ReaderOptions} {source : EventSource} {s : Reader} {r : Tabular.Reader}

/-- **Iteration breaches nothing**: it is over before the calls are used up that the events allow
for, and fails with malformed streams only. -/
theorem iterate_shows (h : s.Shows r) (hr : r.Reads o source) (hv : o.Valid)
    (hsource : ∀ fault, source.ending ≠ .unreadable fault) {calls : Nat}
    (hcalls : r.source.events.length < calls) :
    (∃ s', iterate calls s = .ok (s',
      ⟨(Tabular.Reader.batches calls r).result.1, (Tabular.Reader.batches calls r).result.2⟩) ∧
        s'.Shows (Tabular.Reader.batches calls r).reader) ∧
      (Tabular.Reader.batches calls r).reader.Reads o source ∧
      ∀ failure, (Tabular.Reader.batches calls r).result.2 = some failure →
        ∃ error, failure = .malformed error := by
  induction calls generalizing s r with
  | zero => omega
  | succ calls ih =>
    obtain ⟨s₁, hnext, hs₁⟩ := nextBatch_shows h fun he =>
      hr.options ▸ hr.sound hv.levels_valid.one_le he
    obtain ⟨hr₁, hmalformed, hshorter⟩ := hr.nextBatch hv hsource
    rw [iterate, hnext]
    cases hresult : r.nextBatch.result with
    | error failure =>
      obtain ⟨hanswer, hreader⟩ := Tabular.Reader.batches_error hresult calls
      rw [hanswer, hreader]
      refine ⟨⟨s₁, rfl, hs₁⟩, hr₁, fun failure' hf => ?_⟩
      cases hf
      exact hmalformed failure hresult
    | ok batch? =>
      cases batch? with
      | none =>
        obtain ⟨hanswer, hreader⟩ := Tabular.Reader.batches_done hresult calls
        rw [hanswer, hreader]
        exact ⟨⟨s₁, rfl, hs₁⟩, hr₁, fun failure hf => (by cases hf)⟩
      | some batch =>
        obtain ⟨hanswer, hreader⟩ := Tabular.Reader.batches_ok hresult calls
        have hless := hshorter batch hresult
        obtain ⟨⟨s₂, hlater, hs₂⟩, hr₂, hf₂⟩ := ih hs₁ hr₁ (by omega)
        rw [hanswer, hreader]
        refine ⟨⟨s₂, ?_, hs₂⟩, hr₂, hf₂⟩
        show (iterate calls s₁ >>= fun later => _) = _
        rw [hlater]
        rfl

/-- **An answer breaches nothing**, and fails with malformed streams only. -/
theorem answer_shows (h : s.Shows r) (hr : r.Reads o source) (hv : o.Valid)
    (hsource : ∀ fault, source.ending ≠ .unreadable fault) (demand : Demand) :
    (∃ s', s.answer demand = .ok (s', (r.answer demand).2) ∧ s'.Shows (r.answer demand).1) ∧
      (r.answer demand).1.Reads o source ∧
      ∀ failure, (r.answer demand).2.failure = some failure →
        ∃ error, failure = .malformed error := by
  cases demand with
  | nextBatch =>
    obtain ⟨s', hnext, hs'⟩ := nextBatch_shows h fun he =>
      hr.options ▸ hr.sound hv.levels_valid.one_le he
    obtain ⟨hr', hmalformed, -⟩ := hr.nextBatch hv hsource
    refine ⟨⟨s', ?_, hs'⟩, hr', fun failure hf => hmalformed failure ?_⟩
    · rw [answer, hnext]
      rfl
    · rw [Tabular.Reader.answer] at hf
      cases hresult : r.nextBatch.result with
      | error failure' =>
        rw [hresult] at hf
        cases hf
        rfl
      | ok batch? =>
        rw [hresult] at hf
        cases hf
  | iterate =>
    rw [answer, h.source]
    exact iterate_shows h hr hv hsource (Nat.lt_add_of_pos_right Nat.two_pos)
  | close =>
    exact ⟨⟨s.close, rfl, close_shows h⟩, hr.close, fun failure hf => (by cases hf)⟩

/-- **All answers breach nothing**, and fail with malformed streams only. -/
theorem answers_shows (h : s.Shows r) (hr : r.Reads o source) (hv : o.Valid)
    (hsource : ∀ fault, source.ending ≠ .unreadable fault) (demands : List Demand) :
    (∃ s', s.answers demands = .ok (s', (r.answers demands).2) ∧ s'.Shows (r.answers demands).1) ∧
      (r.answers demands).1.Reads o source ∧
      ∀ answer ∈ (r.answers demands).2, ∀ failure, answer.failure = some failure →
        ∃ error, failure = .malformed error := by
  induction demands generalizing s r with
  | nil => exact ⟨⟨s, rfl, h⟩, hr, fun answer ha => (by cases ha)⟩
  | cons demand rest ih =>
    obtain ⟨⟨s₁, hnow, hs₁⟩, hr₁, hf₁⟩ := answer_shows h hr hv hsource demand
    obtain ⟨⟨s₂, hlater, hs₂⟩, hr₂, hf₂⟩ := ih hs₁ hr₁
    refine ⟨⟨s₂, ?_, hs₂⟩, hr₂, fun answer ha => ?_⟩
    · rw [answers, hnow]
      show (answers rest s₁ >>= fun later => _) = _
      rw [hlater]
      rfl
    · rcases List.mem_cons.mp ha with rfl | ha
      · exact hf₁
      · exact hf₂ answer ha

end Strict.Reader

/-! ## Every sequence of demands -/

/-- A row is under construction just where no element is skipped and the open ones reach down to the
depth of rows, with a frame for each of those that do. -/
structure Strict.Scan.Framed (o : ReaderOptions) (s : Strict.Scan) : Prop where
  active : s.builder.isActive = true ↔ s.skipDepth = none ∧ o.dataLevel ≤ s.openTags.length
  frames : s.builder.isActive = true →
    s.builder.stack.length = s.openTags.length - o.dataLevel + 1

/-- What holds of a reader by handle and of its answers: they fail with malformed streams only, a
reader that has not failed has come to its scan by the events that it read, and between any two
events of a run that has not failed the open elements tell the frames. -/
structure Unbreached (o : ReaderOptions) (source : EventSource) (r : Strict.Reader)
    (answers : List Answer) : Prop where
  malformed : ∀ answer ∈ answers, ∀ failure, answer.failure = some failure →
    ∃ error, failure = .malformed error
  read : r.error = none → ∃ read rows, source.events = read ++ r.source.events ∧
    Strict.Scan.run o {} read = .ok (.ok (r.scan, rows))
  between : ∀ read left, source.events = read ++ left →
    (∃ error, Strict.Scan.run o {} read = .ok (.error error)) ∨
      ∃ s rows, Strict.Scan.run o {} read = .ok (.ok (s, rows)) ∧ s.Framed o

variable {o : ReaderOptions} {source : EventSource}

theorem Scan.Sound.framed {s : Scan} (h : s.Sound o) : s.strict.Framed o :=
  ⟨h.isActive_iff, h.length_stack⟩

/-- The scan by handle of events from the start. -/
theorem run_empty_strict (hd : 1 ≤ o.dataLevel) (events : List Event) :
    Strict.Scan.run o {} events = .ok ((Scan.run o {} events).map fun q => (q.1.strict, q.2)) :=
  (Scan.run_strict (Scan.sound_empty hd) events).1

theorem framed_run (hd : 1 ≤ o.dataLevel) (events : List Event) :
    (∃ error, Strict.Scan.run o {} events = .ok (.error error)) ∨
      ∃ s rows, Strict.Scan.run o {} events = .ok (.ok (s, rows)) ∧ s.Framed o := by
  have hsound := (Scan.run_strict (Scan.sound_empty hd) events).2
  rw [run_empty_strict hd]
  cases hr : Scan.run o {} events with
  | error error => exact Or.inl ⟨error, rfl⟩
  | ok q => exact Or.inr ⟨q.1.strict, q.2, rfl, (hsound q.1 q.2 hr).framed⟩

/-- **Nothing but a malformed stream makes a reader fail.** Whatever the events are and whatever is
asked, no handle, frame, row or path is missing where one is looked up, no text is set for a field
that was refused, iteration comes to its end, and the answers are those of the reader. -/
theorem answers_unbreached (o : ReaderOptions) (hv : o.Valid) (source : EventSource)
    (hsource : ∀ fault, source.ending ≠ .unreadable fault) (demands : List Demand) :
    ∃ r, (Strict.Reader.start o source).answers demands =
        .ok (r, ((Reader.start o source).answers demands).2) ∧
      Unbreached o source r ((Reader.start o source).answers demands).2 := by
  have hd := hv.levels_valid.one_le
  obtain ⟨⟨r, hanswers, hr⟩, hreads, hfailure⟩ := Strict.Reader.answers_shows
    (Strict.Reader.shows_start o source) (Reader.reads_start o source) hv hsource demands
  refine ⟨r, hanswers, hfailure, fun he => ?_, fun read left _ => framed_run hd read⟩
  obtain ⟨read, rows, hread⟩ := hreads.read (hr.error.symm.trans he)
  refine ⟨read, rows, ?_, ?_⟩
  · rw [hr.source]
    exact hread.split
  · rw [run_empty_strict hd, hread.run, hr.scan]
    rfl

/-- A stream with a column that was refused, an element under the reserved name and a skipped one,
which is malformed inside its second row. -/
theorem answers_unbreached_mismatched :
    let o : ReaderOptions := { rowTag := some "r", flattenLevel := some 3, batchSize := 1 }
    let source : EventSource :=
      ⟨[.start "t" [], .start "r" [], .start "a" [], .start "b" [], .text "x", .finish "b",
        .finish "a", .start "b" [], .text "y", .finish "b", .start "attributes" [], .start "z" [],
        .finish "z", .finish "attributes", .finish "r", .start "s" [], .text "y", .finish "s",
        .start "r" [], .start "a" [], .finish "q", .finish "a"], .complete⟩
    let demands : List Demand := [.nextBatch, .iterate, .close, .nextBatch]
    let answers := ((Reader.start o source).answers demands).2
    (answers.map fun answer => (answer.batches.length, answer.failure)) =
        [(1, none), (0, some (.malformed (.mismatchedEnd "q" "a"))), (0, none),
          (0, some (.malformed (.mismatchedEnd "q" "a")))] ∧
      ∃ r, (Strict.Reader.start o source).answers demands = .ok (r, answers) ∧
        Unbreached o source r answers := by
  intro o source demands answers
  have hv : o.Valid := ⟨⟨by decide, by simp [o, ReaderOptions.levels]⟩, by decide⟩
  have hreadable : ∀ fault, source.ending ≠ .unreadable fault := fun fault h => by cases h
  exact ⟨by decide +kernel, answers_unbreached o hv source hreadable demands⟩

end Tabular
