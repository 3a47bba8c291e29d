import Tabular.Proofs.Reader.Stops
import Tabular.Proofs.Reader.Windows

/-!
# Faults of streams

Whether a stream is nested shows in the names that are open after each event. A reader goes by the
same names, whatever its options are, so it rejects a stream at the first event at fault.

* `Event.reopen`, `Event.openAfter`: the open names after one event, and after some;
* `nested_iff_openAfter`, **`exists_nested_iff`**: the nested streams and their beginnings;
* `openTags_feed`, `openTags_run`: the open names of a scan;
* `EventSource.Fails`: the first fault of a source, and the events up to it;
* **`passage_of_fails`**, `passage_of_nested`: a fault before the row limit, and none;
* **`rest_accepts`**: a reader without a row limit accepts the nested streams.
-/

namespace Tabular

/-! ## Open names -/

namespace Event

/-- The open names after one more event, innermost first, or what is wrong with the event. -/
def reopen : List String → Event → Except Malformed (List String)
  | tags, .start name _ => .ok (name :: tags)
  | tags, .text _ => .ok tags
  | [], .finish name => .error (.unexpectedEnd name)
  | opened :: outer, .finish name =>
    if closes name opened then .ok outer else .error (.mismatchedEnd name opened)

/-- The open names after some events, or what is wrong with the first event at fault. -/
def openAfter : List String → List Event → Except Malformed (List String)
  | tags, [] => .ok tags
  | tags, event :: rest =>
    match reopen tags event with
    | .error error => .error error
    | .ok tags => openAfter tags rest

variable {tags tags' : List String} {event : Event} {before after events rest : List Event}
  {error : Malformed}

theorem reopen_of_closes {name opened : String} (h : closes name opened = true)
    (outer : List String) : reopen (opened :: outer) (.finish name) = .ok outer :=
  if_pos h

/-- An end that is not at fault closes the innermost name. -/
theorem exists_of_reopen_finish {name : String} (h : reopen tags (.finish name) = .ok tags') :
    ∃ opened, tags = opened :: tags' ∧ closes name opened = true := by
  cases tags with
  | nil => cases h
  | cons opened outer =>
    by_cases hc : closes name opened = true
    · rw [reopen_of_closes hc] at h
      exact ⟨opened, congrArg _ (Except.ok.inj h), hc⟩
    · rw [reopen, if_neg hc] at h
      cases h

theorem openAfter_cons (h : reopen tags event = .ok tags') (rest : List Event) :
    openAfter tags (event :: rest) = openAfter tags' rest := by
  simp only [openAfter, h]

theorem exists_reopen_of_openAfter (h : openAfter tags (event :: rest) = .ok tags') :
    ∃ next, reopen tags event = .ok next ∧ openAfter next rest = .ok tags' := by
  cases hr : reopen tags event with
  | error error => simp [openAfter, hr] at h
  | ok next => exact ⟨next, rfl, by rwa [openAfter_cons hr] at h⟩

theorem openAfter_append (h : openAfter tags before = .ok tags') (after : List Event) :
    openAfter tags (before ++ after) = openAfter tags' after := by
  induction before generalizing tags with
  | nil =>
    cases h
    rfl
  | cons event rest ih =>
    cases hr : reopen tags event with
    | error error => simp [openAfter, hr] at h
    | ok next =>
      rw [openAfter_cons hr] at h
      rw [List.cons_append, openAfter_cons hr, ih h]

/-- What is wrong with some events is wrong with one of them, and with none before it. -/
theorem exists_fault (h : openAfter tags events = .error error) :
    ∃ before event after tags', events = before ++ event :: after ∧
      openAfter tags before = .ok tags' ∧ reopen tags' event = .error error := by
  induction events generalizing tags with
  | nil => cases h
  | cons event rest ih =>
    cases hr : reopen tags event with
    | error found =>
      simp only [openAfter, hr] at h
      exact ⟨[], event, rest, tags, rfl, rfl, hr.trans h⟩
    | ok next =>
      rw [openAfter_cons hr] at h
      obtain ⟨before, fault, after, tags', rfl, hbefore, hfault⟩ := ih h
      exact ⟨event :: before, fault, after, tags', rfl, (openAfter_cons hr before).trans hbefore,
        hfault⟩

/-- **The nested streams** have no event at fault and leave nothing open. -/
theorem nested_iff_openAfter : Nested tags events ↔ openAfter tags events = .ok [] := by
  constructor
  · intro h
    induction h with
    | nil => rfl
    | start _ ih => exact ih
    | text _ ih => exact ih
    | finish hc _ ih =>
      rw [openAfter_cons (reopen_of_closes hc _)]
      exact ih
  · intro h
    induction events generalizing tags with
    | nil =>
      cases h
      exact .nil
    | cons event rest ih =>
      cases event with
      | start name attributes => exact .start (ih h)
      | text value => exact .text (ih h)
      | finish name =>
        cases tags with
        | nil => cases h
        | cons opened outer =>
          by_cases hc : closes name opened = true
          · rw [openAfter_cons (reopen_of_closes hc outer)] at h
            exact .finish hc (ih h)
          · have hr : reopen (opened :: outer) (.finish name) =
                .error (.mismatchedEnd name opened) := if_neg hc
            simp [openAfter, hr] at h

/-- Every open name can be closed. -/
theorem nested_finishes (tags : List String) : Nested tags (tags.map .finish) := by
  induction tags with
  | nil => exact .nil
  | cons opened outer ih => exact .finish (by simp [closes]) ih

/-- **The beginnings of nested streams** have no event at fault. -/
theorem exists_nested_iff :
    (∃ later, Nested tags (events ++ later)) ↔ ∃ tags', openAfter tags events = .ok tags' := by
  constructor
  · rintro ⟨later, h⟩
    rw [nested_iff_openAfter] at h
    cases ho : openAfter tags events with
    | ok tags' => exact ⟨tags', rfl⟩
    | error error =>
      obtain ⟨before, event, after, tags', rfl, hbefore, hfault⟩ := exists_fault ho
      rw [List.append_assoc, openAfter_append hbefore, List.cons_append] at h
      simp [openAfter, hfault] at h
  · rintro ⟨tags', h⟩
    refine ⟨tags'.map .finish, ?_⟩
    rw [nested_iff_openAfter, openAfter_append h, ← nested_iff_openAfter]
    exact nested_finishes tags'

theorem nested_take (h : ∃ later, Nested tags (events ++ later)) (n : Nat) :
    ∃ later, Nested tags (events.take n ++ later) := by
  obtain ⟨later, hnested⟩ := h
  refine ⟨events.drop n ++ later, ?_⟩
  rwa [← List.append_assoc, List.take_append_drop]

end Event

/-! ## Open names of a scan -/

namespace Scan

variable {o : ReaderOptions} {s s' : Scan} {event : Event} {events : List Event}
  {rows : List Row} {row? : Option Row} {error : Malformed} {tags : List String}

theorem openTags_start (o : ReaderOptions) (name : String) (attributes : Entries String)
    (s : Scan) : (s.start o name attributes).openTags = name :: s.openTags := by
  simp only [start]
  split
  · rfl
  · split <;> rfl

theorem openTags_text (value : String) (s : Scan) : (s.text value).openTags = s.openTags := by
  unfold text
  split <;> rfl

theorem openTags_close (o : ReaderOptions) (depth : Nat) (s : Scan) :
    (s.close o depth).1.openTags = s.openTags := by
  unfold close
  split
  · split <;> rfl
  · rfl

/-- **A scan checks an event by its open names.** -/
theorem openTags_feed (o : ReaderOptions) (s : Scan) (event : Event) :
    (s.feed o event).map (fun q => q.1.openTags) = event.reopen s.openTags := by
  cases event with
  | start name attributes => exact congrArg Except.ok (openTags_start o name attributes s)
  | text value => exact congrArg Except.ok (openTags_text value s)
  | finish name =>
    unfold feed Event.reopen
    cases s.openTags with
    | nil => rfl
    | cons opened outer =>
      simp only
      split
      · exact congrArg Except.ok (openTags_close o _ _)
      · rfl

theorem reopen_of_feed (h : s.feed o event = .ok (s', row?)) :
    event.reopen s.openTags = .ok s'.openTags := by
  rw [← openTags_feed o, h]
  rfl

theorem feed_eq_error_iff :
    s.feed o event = .error error ↔ event.reopen s.openTags = .error error := by
  rw [← openTags_feed o]
  cases s.feed o event <;> simp [Except.map]

/-- **A scan of some events**, by the names that are open after them. -/
theorem openTags_run (o : ReaderOptions) (s : Scan) (events : List Event) :
    (s.run o events).map (fun q => q.1.openTags) = Event.openAfter s.openTags events := by
  induction events generalizing s with
  | nil => rfl
  | cons event rest ih =>
    cases hf : s.feed o event with
    | error error =>
      simp only [run, Event.openAfter, hf, feed_eq_error_iff.mp hf]
      rfl
    | ok q =>
      rw [run_cons hf, Event.openAfter_cons (reopen_of_feed hf), ← ih]
      cases run o q.1 rest <;> rfl

theorem exists_run (h : Event.openAfter s.openTags events = .ok tags) (o : ReaderOptions) :
    ∃ s' rows, s.run o events = .ok (s', rows) ∧ s'.openTags = tags := by
  rw [← openTags_run o] at h
  cases hr : s.run o events with
  | error error =>
    rw [hr] at h
    cases h
  | ok q =>
    rw [hr] at h
    cases h
    exact ⟨q.1, q.2, rfl, rfl⟩

end Scan

/-! ## The first fault of a source -/

open Event (openAfter)

/-- A source has its first fault after so many events: an end closes nothing or something else than
it names, the document is not well-formed, or the events end inside an element. -/
inductive EventSource.Fails (source : EventSource) : Nat → Malformed → Prop
  | event (before after : List Event) (event : Event) (tags : List String) (error : Malformed)
      (split : source.events = before ++ event :: after) (begins : openAfter [] before = .ok tags)
      (fault : event.reopen tags = .error error) : Fails source (before.length + 1) error
  | document (tags : List String) (line : Nat) (begins : openAfter [] source.events = .ok tags)
      (ending : source.ending = .malformed line) :
      Fails source source.events.length (.document line)
  | inside (opened : String) (outer : List String)
      (begins : openAfter [] source.events = .ok (opened :: outer))
      (ending : source.ending = .complete) :
      Fails source source.events.length (.endedInside opened)

/-- A stream that is not nested has a first fault. -/
theorem exists_fails {events : List Event} (h : ¬ Event.Nested [] events) :
    ∃ taken error, EventSource.Fails ⟨events, .complete⟩ taken error := by
  rw [Event.nested_iff_openAfter] at h
  cases ho : openAfter [] events with
  | error error =>
    obtain ⟨before, event, after, tags, rfl, hbefore, hfault⟩ := Event.exists_fault ho
    exact ⟨_, error, .event before after event tags error rfl hbefore hfault⟩
  | ok tags =>
    cases tags with
    | nil => exact absurd ho h
    | cons opened outer => exact ⟨_, _, .inside opened outer ho rfl⟩

/-- Before its first fault a source begins a nested stream. -/
theorem EventSource.Fails.begins {source : EventSource} {taken n : Nat} {error : Malformed}
    (h : source.Fails taken error) (hn : n < taken) :
    ∃ later, Event.Nested [] (source.events.take n ++ later) := by
  cases h with
  | event before after event tags error split begins fault =>
    have hle : n ≤ before.length := Nat.le_of_lt_succ hn
    rw [split, List.take_append_of_le_length hle]
    exact Event.nested_take (Event.exists_nested_iff.mpr ⟨tags, begins⟩) n
  | document tags line begins ending =>
    exact Event.nested_take (Event.exists_nested_iff.mpr ⟨tags, begins⟩) n
  | inside opened outer begins ending =>
    exact Event.nested_take (Event.exists_nested_iff.mpr ⟨_, begins⟩) n

/-! ## Passages up to a fault -/

variable {o : ReaderOptions} {source : EventSource} {events : List Event} {taken : Nat}
  {error : Malformed}

/-- Events that leave some names open, below the row limit, are passed to their end. -/
theorem passage_of_openAfter {tags : List String} (h : Event.openAfter [] events = .ok tags)
    (he : o.isEnough (Scan.sealed o {} events).length = false) (ending : Ending) :
    ∃ scan, passage o ending events 0 {} =
      ⟨Scan.sealed o {} events, scan, events.length, ending.halt tags, []⟩ := by
  obtain ⟨scan, rows, hrun, rfl⟩ := Scan.exists_run (s := {}) h o
  rw [Scan.sealed_eq_of_run hrun] at he ⊢
  exact ⟨scan, passage_of_run_below hrun (by rwa [Nat.zero_add])⟩

/-- **A fault that comes before the row limit** ends the passage, behind all rows before it. -/
theorem passage_of_fails (hf : source.Fails taken error)
    (he : o.isEnough (Scan.sealed o {} source.events).length = false) :
    ∃ scan left, passage o source.ending source.events 0 {} =
      ⟨Scan.sealed o {} source.events, scan, taken, .broken error, left⟩ := by
  cases hf with
  | event before after event tags error split begins fault =>
    obtain ⟨scan, rows, hrun, htags⟩ := Scan.exists_run (s := {}) begins o
    have hfeed : scan.feed o event = .error error := Scan.feed_eq_error_iff.mpr (htags ▸ fault)
    have hsealed : Scan.sealed o {} source.events = rows := by
      rw [split, Scan.sealed_of_run hrun, Scan.sealed, hfeed, List.append_nil]
    rw [hsealed, ← Nat.zero_add rows.length] at he
    refine ⟨scan, after, ?_⟩
    rw [hsealed, split, passage_append hrun he, passage_cons_error hfeed]
    simp [Passage.behind]
  | document tags line begins ending =>
    obtain ⟨scan, hpassage⟩ := passage_of_openAfter begins he source.ending
    exact ⟨scan, [], by rw [hpassage, ending]; rfl⟩
  | inside opened outer begins ending =>
    obtain ⟨scan, hpassage⟩ := passage_of_openAfter begins he source.ending
    exact ⟨scan, [], by rw [hpassage, ending]; rfl⟩

/-- A nested stream is passed to its end. -/
theorem passage_of_nested (h : Event.Nested [] events)
    (he : o.isEnough (Scan.sealed o {} events).length = false) :
    ∃ scan, passage o .complete events 0 {} =
      ⟨Scan.sealed o {} events, scan, events.length, .drained, []⟩ :=
  passage_of_openAfter (Event.nested_iff_openAfter.mp h) he .complete

/-! ## Readers without a row limit -/

namespace Reader

/-- The reading of a stream that is not nested, without a row limit. -/
theorem rest_of_fails (hb : 0 < o.batchSize) (hl : o.limit = none) (hf : source.Fails taken error) :
    (start o source).rest.result.2 = some (.malformed error) ∧
      (start o source).rest.reader.eventsConsumed = taken := by
  have hfinished := finished_rest hb (by simp [hl]) source
  have he : o.isEnough (Scan.sealed o {} source.events).length = false := by
    rw [ReaderOptions.isEnough, hl]
  obtain ⟨scan, left, hp⟩ := passage_of_fails hf he
  rw [hp] at hfinished
  exact ⟨hfinished.failure, hfinished.eventsConsumed.trans (Nat.zero_add taken)⟩

/-- The reading of a nested stream, without a row limit. -/
theorem rest_of_nested (hb : 0 < o.batchSize) (hl : o.limit = none) (h : Event.Nested [] events) :
    (start o ⟨events, .complete⟩).rest.result.2 = none ∧
      (start o ⟨events, .complete⟩).rest.reader.eventsConsumed = events.length := by
  have hfinished := finished_rest hb (by simp [hl]) ⟨events, .complete⟩
  have he : o.isEnough (Scan.sealed o {} events).length = false := by
    rw [ReaderOptions.isEnough, hl]
  obtain ⟨scan, hp⟩ := passage_of_nested h he
  rw [hp] at hfinished
  exact ⟨hfinished.failure, hfinished.eventsConsumed.trans (Nat.zero_add events.length)⟩

/-- **A reader without a row limit accepts just the nested streams**, and rejects any other at its
first fault, whatever its options are. -/
theorem rest_accepts (hb : 0 < o.batchSize) (hl : o.limit = none) (events : List Event) :
    let c := (start o ⟨events, .complete⟩).rest
    ((∃ error, c.result.2 = some (.malformed error)) ↔ ¬ Event.Nested [] events) ∧
      (c.result.2 = none ↔ Event.Nested [] events) ∧
      (∀ taken error, c.result.2 = some (.malformed error) ∧ c.reader.eventsConsumed = taken ↔
        EventSource.Fails ⟨events, .complete⟩ taken error) ∧
      ∀ n < c.reader.eventsConsumed, ∃ later, Event.Nested [] (events.take n ++ later) := by
  intro c
  by_cases h : Event.Nested [] events
  · obtain ⟨hnone, htaken⟩ : c.result.2 = none ∧ c.reader.eventsConsumed = events.length :=
      rest_of_nested hb hl h
    refine ⟨by simp [hnone, h], by simp [hnone, h], fun taken error => ?_, fun n _ => ?_⟩
    · constructor
      · rintro ⟨hsome, -⟩
        rw [hnone] at hsome
        cases hsome
      · intro hf
        obtain ⟨hsome, -⟩ := rest_of_fails hb hl hf
        cases hnone.symm.trans hsome
    · exact Event.nested_take ⟨[], by rwa [List.append_nil]⟩ n
  · obtain ⟨taken, error, hf⟩ := exists_fails h
    obtain ⟨hsome, htaken⟩ : c.result.2 = some (.malformed error) ∧
        c.reader.eventsConsumed = taken := rest_of_fails hb hl hf
    refine ⟨by simp [hsome, h], by simp [hsome, h], fun taken' error' => ?_, fun n hn => ?_⟩
    · constructor
      · rintro ⟨hsome', htaken'⟩
        rw [hsome] at hsome'
        rw [htaken] at htaken'
        cases hsome'
        rwa [← htaken']
      · intro hf'
        exact rest_of_fails hb hl hf'
    · rw [htaken] at hn
      exact hf.begins hn

/-- A stream whose only fault lies inside a skipped element, behind a second top-level element. -/
theorem rest_accepts_skipped :
    let o : ReaderOptions := { rowTag := some "r", batchSize := 1, flattenLevel := some 2 }
    let events : List Event :=
      [.text "x", .start "t" [], .finish "t", .start "u" [], .start "s" [], .start "r" [],
        .finish "", .finish "u", .finish "u"]
    let c := (start o ⟨events, .complete⟩).rest
    (0 < o.batchSize ∧ o.limit = none) ∧
      (c.result.2 = some (.malformed (.mismatchedEnd "u" "s")) ∧ c.reader.eventsConsumed = 8) ∧
      ((∃ error, c.result.2 = some (.malformed error)) ↔ ¬ Event.Nested [] events) ∧
      (c.result.2 = none ↔ Event.Nested [] events) ∧
      (∀ taken error, c.result.2 = some (.malformed error) ∧ c.reader.eventsConsumed = taken ↔
        EventSource.Fails ⟨events, .complete⟩ taken error) ∧
      ∀ n < c.reader.eventsConsumed, ∃ later, Event.Nested [] (events.take n ++ later) :=
  ⟨⟨by decide, rfl⟩, by decide +kernel, rest_accepts (by decide) rfl _⟩

end Reader

end Tabular
