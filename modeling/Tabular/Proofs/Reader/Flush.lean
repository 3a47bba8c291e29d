import Tabular.Proofs.Reader.Calls
import Tabular.Proofs.Reader.Drained
import Tabular.Proofs.Reader.Fault

/-!
# Rows before a fault

A reader hands out all rows that come before a fault of its source, in the batches that they would
be in without the fault, and fails at every call from then on. A reader that has stopped, for this
or another reason, stays as it is.

* `sealed_finishes`, **`exists_nested_sealed`**: the finished rows of a stream, in a nested one;
* **`after_of_exhausted`**: calls of a reader that has stopped;
* **`rest_flushes`**: the batches before a fault, and the calls after it.
-/

namespace Tabular

variable {o : ReaderOptions} {source : EventSource} {events : List Event} {taken : Nat}
  {error : Malformed}

namespace Scan

variable {s : Scan}

/-- Outside of rows an end finishes none. -/
theorem feed_finish_of_none {s' : Scan} {name : String} {row? : Option Row}
    (h : s.builder.row = none) (hf : s.feed o (.finish name) = .ok (s', row?)) :
    s'.builder.row = none ∧ row? = none := by
  have hstep := builder_feed hf
  generalize s'.builder = b at hstep ⊢
  cases hstep with
  | idle event => exact ⟨h, rfl⟩
  | finish name =>
    rw [Builder.finish_of_none h]
    exact ⟨h, rfl⟩

theorem sealed_finishes (h : s.builder.row = none) (o : ReaderOptions) (names : List String) :
    sealed o s (names.map .finish) = [] := by
  induction names generalizing s with
  | nil => rfl
  | cons name rest ih =>
    rw [List.map_cons, sealed]
    cases hf : s.feed o (.finish name) with
    | error error => rfl
    | ok q =>
      obtain ⟨hrow, hgiven⟩ := feed_finish_of_none h hf
      simp only [hgiven, Option.toList_none, List.nil_append]
      exact ih hrow

/-- **The finished rows of a stream are those of a nested one.** -/
theorem exists_nested_sealed (o : ReaderOptions) (events : List Event) :
    ∃ nested, Event.Nested [] nested ∧ sealed o {} nested = sealed o {} events := by
  by_cases hnone : sealed o {} events = []
  · exact ⟨[], .nil, hnone.symm⟩
  · -- the events up to the end of the last row, and an end for each open element
    obtain ⟨n, hn⟩ := Nat.exists_eq_succ_of_ne_zero (mt List.length_eq_zero_iff.mp hnone)
    obtain ⟨before, name, after, s₁, s₂, rows, row, rfl, hrun, hfeed, hlen⟩ :=
      exists_finish_of_sealed (by omega : n < (sealed o {} events).length)
    have hread : run o {} (before ++ [.finish name]) = .ok (s₂, rows ++ [row]) := by
      rw [run_append hrun, run_cons hfeed]
      rfl
    have hall := sealed_of_run hread after
    rw [List.append_assoc, List.singleton_append] at hall
    refine ⟨before ++ [.finish name] ++ s₂.openTags.map .finish, ?_, ?_⟩
    · have hopen := openTags_run o {} (before ++ [.finish name])
      rw [hread] at hopen
      rw [Event.nested_iff_openAfter, Event.openAfter_append hopen.symm,
        ← Event.nested_iff_openAfter]
      exact Event.nested_finishes s₂.openTags
    · have hleft : sealed o s₂ after = [] := by
        have hlength := congrArg List.length hall
        rw [hn, List.length_append, List.length_append, List.length_singleton] at hlength
        exact List.length_eq_zero_iff.mp (by omega)
      rw [sealed_of_run hread, sealed_finishes (row_of_feed hfeed), hall, hleft]

end Scan

namespace Reader

variable {r : Reader}

/-! ## Readers that have stopped -/

theorem call_of_exhausted (h : r.exhausted = true) (c : Call) : r.call c = (r, []) := by
  cases c with
  | nextBatch =>
    rw [call, nextBatch_of_stopped h]
    cases r.error <;> rfl
  | close =>
    rw [call, close, if_pos h]

/-- **A reader that has stopped stays as it is**, and gives no further batch. -/
theorem after_of_exhausted (h : r.exhausted = true) (calls : List Call) :
    r.after calls = (r, []) := by
  induction calls with
  | nil => rfl
  | cons c rest ih =>
    rw [after, call_of_exhausted h c]
    simp only [ih, List.append_nil]

/-! ## Rows before a fault -/

theorem limit_ne_zero {n : Nat} (he : o.isEnough n = false) : o.limit ≠ some 0 := by
  intro hl
  exact absurd (ReaderOptions.isEnough_eq_false_iff.mp he 0 hl) (Nat.not_lt_zero n)

/-- What comes of a source that is at fault before the row limit. -/
theorem finished_of_fails (hb : 0 < o.batchSize) (hf : source.Fails taken error)
    (he : o.isEnough (Scan.sealed o {} source.events).length = false) :
    (start o source).rest.result = (windows o 0 (RowSchema.start o.projection)
        (Scan.sealed o {} source.events), some (.malformed error)) ∧
      (start o source).rest.reader.exhausted = true ∧
      (start o source).rest.reader.error = some error := by
  have hresult := result_rest hb (limit_ne_zero he) source
  have hdrained := drained_rest hb (limit_ne_zero he) source
  obtain ⟨scan, left, hp⟩ := passage_of_fails hf he
  rw [hp] at hresult hdrained
  exact ⟨hresult, (hdrained.stopped fun fault h => by cases h).1, hdrained.error⟩

/-- What comes of a nested stream whose rows do not reach the row limit. -/
theorem result_of_nested (hb : 0 < o.batchSize) (h : Event.Nested [] events)
    (he : o.isEnough (Scan.sealed o {} events).length = false) :
    (start o ⟨events, .complete⟩).rest.result =
      (windows o 0 (RowSchema.start o.projection) (Scan.sealed o {} events), none) := by
  obtain ⟨scan, hp⟩ := passage_of_nested h he
  rw [result_rest hb (limit_ne_zero he), hp]
  rfl

/-- **No finished row is lost at a fault.** A source that is at fault before the row limit gives the
batches of every nested stream with its finished rows, and there is such a stream; the call behind
them fails, and so does every later one, in whatever order calls come. And a reader that calls have
stopped takes no event from then on, keeps its counters, and answers every call with the error that
it keeps, or with nothing. -/
theorem rest_flushes (hb : 0 < o.batchSize) (source : EventSource) :
    (∀ taken error, source.Fails taken error →
      (∀ limit, o.limit = some limit → (Scan.sealed o {} source.events).length < limit) →
      let c := (start o source).rest
      c.result.2 = some (.malformed error) ∧
        (∀ events, Event.Nested [] events →
          Scan.sealed o {} events = Scan.sealed o {} source.events →
          (start o ⟨events, .complete⟩).rest.result = (c.result.1, none)) ∧
        (∃ events, Event.Nested [] events ∧
          Scan.sealed o {} events = Scan.sealed o {} source.events) ∧
        ∀ later, (c.reader.after later).1.nextBatch.result = .error (.malformed error)) ∧
    ∀ calls, let r := ((start o source).after calls).1
      r.exhausted = true → ∀ later, r.after later = (r, []) ∧
        (r.after later).1.nextBatch.result = match r.error with
          | some error => .error (.malformed error)
          | none => .ok none := by
  constructor
  · intro taken error hf hlimit c
    have he := ReaderOptions.isEnough_eq_false_iff.mpr hlimit
    obtain ⟨hresult, hstopped, herror⟩ := finished_of_fails hb hf he
    refine ⟨congrArg Prod.snd hresult, fun events hnested hsealed => ?_,
      Scan.exists_nested_sealed o source.events, fun later => ?_⟩
    · rw [result_of_nested hb hnested (by rw [hsealed]; exact he), hsealed]
      exact Prod.ext (congrArg Prod.fst hresult).symm rfl
    · rw [after_of_exhausted hstopped, nextBatch_of_error herror]
  · intro calls r hstopped later
    rw [after_of_exhausted hstopped later, nextBatch_of_stopped hstopped]
    exact ⟨rfl, rfl⟩

/-- A stream that breaks off inside its third row, where two rows fill a batch: the error comes at
the call behind the batch, and also once the reader was closed. A reader that is closed before the
fault gives nothing more. -/
theorem rest_flushes_broken :
    let o : ReaderOptions := { batchSize := 2, limit := some 3, pinSchema := true }
    let source : EventSource :=
      ⟨[.start "t" [], .start "r" [], .text "1", .finish "r", .start "r" [], .finish "r",
        .start "r" [], .start "b" [], .finish "a", .finish "r"], .malformed 7⟩
    let events : List Event :=
      [.start "t" [], .start "r" [], .text "1", .finish "r", .start "r" [], .finish "r", .finish ""]
    let c := (start o source).rest
    let r := ((start o source).after [.close]).1
    0 < o.batchSize ∧ (source.Fails 9 (.mismatchedEnd "a" "b") ∧
      (∀ limit, o.limit = some limit → (Scan.sealed o {} source.events).length < limit) ∧
      Event.Nested [] events ∧
      Scan.sealed o {} events = Scan.sealed o {} source.events) ∧
      c.result.1.map Batch.size = [2] ∧ c.result.2 = some (.malformed (.mismatchedEnd "a" "b")) ∧
      (start o ⟨events, .complete⟩).rest.result = (c.result.1, none) ∧
      (c.reader.after [.close, .nextBatch, .close]).1.nextBatch.result =
        .error (.malformed (.mismatchedEnd "a" "b")) ∧
      r.exhausted = true ∧ r.after [.nextBatch, .close] = (r, []) ∧
      (r.after [.nextBatch, .close]).1.nextBatch.result = .ok none := by
  intro o source events
  have hb : 0 < o.batchSize := by decide
  have hf : source.Fails 9 (.mismatchedEnd "a" "b") :=
    .event (source.events.take 8) [.finish "r"] (.finish "a") ["b", "r", "t"] _ rfl rfl rfl
  have hl : ∀ limit, o.limit = some limit → (Scan.sealed o {} source.events).length < limit := by
    rintro limit ⟨⟩
    decide +kernel
  have hn : Event.Nested [] events := Event.nested_iff_openAfter.mpr rfl
  have hs : Scan.sealed o {} events = Scan.sealed o {} source.events := rfl
  obtain ⟨hfault, hstopped⟩ := rest_flushes hb source
  obtain ⟨herror, hsame, -, hlater⟩ := hfault _ _ hf hl
  refine ⟨hb, ⟨hf, hl, hn, hs⟩, ?_, herror, hsame events hn hs,
    hlater [.close, .nextBatch, .close], rfl, hstopped [.close] rfl [.nextBatch, .close]⟩
  decide +kernel

end Reader

end Tabular
