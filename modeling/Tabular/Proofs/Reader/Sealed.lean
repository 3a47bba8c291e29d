import Tabular.Proofs.Reader.Scan
import Tabular.Proofs.Row.Reserved

/-!
# Rows on their way through a scan

Every element at the depth of rows is finished as a row, still under construction, or skipped.

* `Event.startsAt`: the elements of a stream that start at a depth;
* `Scan.Steady`: how the open elements, the skipped one and the row under construction agree;
* `Scan.Follows`, `follows_feed`, **`follows_run`**: nothing is lost between two states;
* `Scan.sealed`, **`exists_finish_of_sealed`**: the rows of a stream, up to the first event at
  fault, and where each of them ends;
* `Scan.Fields`, **`isRegular_sealed`**: what is stable in a row holds of every finished one.
-/

namespace Tabular

/-! ## Elements at a depth -/

namespace Event

/-- The event starts an element. -/
def isStart : Event → Bool
  | .start .. => true
  | .text _ | .finish _ => false

/-- The number of open elements after an event, where there were so many before it. -/
def depthAfter (depth : Nat) : Event → Nat
  | .start .. => depth + 1
  | .text _ => depth
  | .finish _ => depth - 1

/-- The number of elements that start at a level, inside so many open ones. -/
def startsAt (level : Nat) : Nat → List Event → Nat
  | _, [] => 0
  | depth, event :: rest =>
    (if event.isStart && depth + 1 == level then 1 else 0) +
      startsAt level (event.depthAfter depth) rest

end Event

namespace Scan

variable {o : ReaderOptions} {s s' s'' : Scan} {event : Event} {events : List Event}
  {rows later : List Row} {row? : Option Row}

/-! ## States between two events -/

/-- The open elements tell what the scan is doing: it is around the rows, inside one, with a frame
for each open element of it, or inside a skipped element at the depth of rows. -/
inductive Steady (o : ReaderOptions) (s : Scan) : Prop where
  | outside (skip : s.skipDepth = none) (row : s.builder.row = none)
      (depth : s.openTags.length < o.dataLevel)
  | inside (r : OpenRow) (skip : s.skipDepth = none) (row : s.builder.row = some r)
      (depth : s.openTags.length = o.dataLevel + r.outer.length)
  | skipping (skip : s.skipDepth = some o.dataLevel) (row : s.builder.row = none)
      (depth : o.dataLevel ≤ s.openTags.length)

theorem steady_empty (hd : 1 ≤ o.dataLevel) : Steady o {} :=
  .outside rfl rfl hd

theorem Steady.row_of_openTags (h : s.Steady o) (ht : s.openTags = []) (hd : 1 ≤ o.dataLevel) :
    s.builder.row = none := by
  cases h with
  | outside skip row depth => exact row
  | inside r skip row depth =>
    rw [ht, List.length_nil] at depth
    omega
  | skipping skip row depth => exact row

/-- The number of rows under construction. -/
def inProgress (s : Scan) : Nat :=
  if s.builder.isActive then 1 else 0

theorem inProgress_of_none (h : s.builder.row = none) : s.inProgress = 0 := by
  simp [inProgress, Builder.isActive, h]

theorem inProgress_of_some {r : OpenRow} (h : s.builder.row = some r) : s.inProgress = 1 := by
  simp [inProgress, Builder.isActive, h]

theorem inProgress_congr (h : s'.builder = s.builder) : s'.inProgress = s.inProgress := by
  rw [inProgress, inProgress, h]

/-- Between two states so many elements started at the depth of rows, and some rows were finished;
the rows are numbered in order. -/
structure Follows (o : ReaderOptions) (s s' : Scan) (starts : Nat) (rows : List Row) : Prop where
  steady : s'.Steady o
  balance : starts + s.inProgress + s.skippedElements =
    rows.length + s'.inProgress + s'.skippedElements
  sealedRows : s'.builder.sealedRows = s.builder.sealedRows + rows.length
  ordinal : ∀ n row, rows[n]? = some row → row.ordinal = ((s.builder.sealedRows + n : Nat) : Int)

theorem Follows.refl (h : s.Steady o) : Follows o s s 0 [] where
  steady := h
  balance := by simp
  sealedRows := rfl
  ordinal n row hn := by simp at hn

theorem Follows.trans {starts starts' : Nat} (h : Follows o s s' starts rows)
    (h' : Follows o s' s'' starts' later) : Follows o s s'' (starts + starts') (rows ++ later) where
  steady := h'.steady
  balance := by
    have h₁ := h.balance
    have h₂ := h'.balance
    rw [List.length_append]
    omega
  sealedRows := by
    rw [h'.sealedRows, h.sealedRows, List.length_append, Nat.add_assoc]
  ordinal n row hn := by
    rw [List.getElem?_append] at hn
    split at hn
    · exact h.ordinal n row hn
    · have := h'.ordinal _ row hn
      rw [this, h.sealedRows]
      congr 1
      omega

/-- An event that finishes no row. -/
theorem Follows.of_none {starts : Nat} (hs : s'.Steady o)
    (hb : starts + s.inProgress + s.skippedElements = s'.inProgress + s'.skippedElements)
    (hn : s'.builder.sealedRows = s.builder.sealedRows) :
    Follows o s s' starts (none : Option Row).toList where
  steady := hs
  balance := by simpa using hb
  sealedRows := hn
  ordinal n row hrow := by simp at hrow

/-- A change of what surrounds the rows. -/
theorem Follows.of_same (hs : s'.Steady o) (hb : s'.builder = s.builder)
    (hk : s'.skippedElements = s.skippedElements) :
    Follows o s s' 0 (none : Option Row).toList :=
  .of_none hs (by rw [inProgress_congr hb, hk, Nat.zero_add]) (by rw [hb])

/-! ## One event -/

theorem follows_start (h : s.Steady o) (name : String) (attributes : Entries String) :
    Follows o s (s.start o name attributes) (if s.openTags.length + 1 == o.dataLevel then 1 else 0)
      (none : Option Row).toList := by
  cases h with
  | skipping skip row depth =>
    rw [start_of_skipping (by simp [skip]), if_neg (by simp; omega)]
    exact .of_same (.skipping skip row (Nat.le_succ_of_le depth)) rfl rfl
  | inside r skip row depth =>
    rw [start_inside skip (by omega), if_neg (by simp; omega)]
    generalize o.isFlattened (s.openTags.length + 1) = flattened
    have hrow : (s.builder.startChild o flattened name attributes).row =
        some (r.startChild o flattened name attributes s.builder.tally).1 := by
      simp only [Builder.startChild, row]
    have hsealed : (s.builder.startChild o flattened name attributes).sealedRows =
        s.builder.sealedRows := by
      simp only [Builder.startChild, row]
    -- one more frame for one more open element
    refine .of_none (.inside _ skip hrow ?_) ?_ hsealed
    · simp only [opening, List.length_cons, OpenRow.outer_startChild]
      omega
    · rw [inProgress_of_some row, inProgress_of_some hrow]
      simp [opening]
  | outside skip row depth =>
    rw [start_of_place skip]
    by_cases hd : s.openTags.length + 1 = o.dataLevel
    · rw [if_pos (by simpa using hd)]
      have hplace : o.levels.place (s.openTags.length + 1) name =
          if o.levels.isRowName name then .rowStart else .skipped := by
        simp [Levels.place, ReaderOptions.levels, hd]
      rw [hplace]
      by_cases hname : o.levels.isRowName name = true
      · rw [if_pos hname]
        refine .of_none (.inside _ skip rfl ?_) ?_ rfl
        · simp [opening, hd]
        · rw [inProgress_of_none row, inProgress_of_some rfl]
          show 1 + 0 + s.skippedElements = 1 + s.skippedElements
          omega
      · rw [if_neg hname]
        refine .of_none (.skipping (by simp [hd]) row ?_) ?_ rfl
        · simp [opening, ← hd]
        · rw [inProgress_of_none row, inProgress_of_none (s := { s.opening name with
            skipDepth := some (s.openTags.length + 1)
            skippedElements := s.skippedElements + 1 }) row]
          show 1 + 0 + s.skippedElements = 0 + (s.skippedElements + 1)
          omega
    · rw [if_neg (by simpa using hd)]
      have hlt : s.openTags.length + 1 < o.dataLevel := by omega
      have hplace : o.levels.place (s.openTags.length + 1) name = .outside := by
        simp [Levels.place, ReaderOptions.levels, hlt]
      rw [hplace]
      exact .of_same (.outside skip row hlt) rfl rfl

theorem follows_text (h : s.Steady o) (value : String) :
    Follows o s (s.text value) 0 (none : Option Row).toList := by
  unfold text
  split
  · exact .refl h
  · cases h with
    | outside skip row depth =>
      refine .of_none (.outside skip (by simp [Builder.text, row]) depth) ?_ rfl
      simp [inProgress, Builder.text, Builder.isActive, row]
    | inside r skip row depth =>
      refine .of_none (.inside (r.text value) skip (by simp [Builder.text, row]) ?_) ?_ rfl
      · simpa [OpenRow.outer_text] using depth
      · simp [inProgress, Builder.text, Builder.isActive, row]
    | skipping skip row depth =>
      refine .of_none (.skipping skip (by simp [Builder.text, row]) depth) ?_ rfl
      simp [inProgress, Builder.text, Builder.isActive, row]

/-- The innermost element ends; only the end of a row element finishes a row. -/
theorem follows_close (h : s.Steady o) {opened : String} {rest : List String}
    (ht : s.openTags = opened :: rest) :
    Follows o s (({ s with openTags := rest } : Scan).close o s.openTags.length).1 0
      (({ s with openTags := rest } : Scan).close o s.openTags.length).2.toList := by
  have hlen : s.openTags.length = rest.length + 1 := by rw [ht, List.length_cons]
  cases h with
  | outside skip row depth =>
    have hclose : ({ s with openTags := rest } : Scan).close o s.openTags.length =
        ({ s with openTags := rest }, none) := by
      simp only [close, skip, Builder.finish_of_none row]
    rw [hclose]
    refine .of_same (.outside skip row ?_) rfl rfl
    show rest.length < o.dataLevel
    omega
  | skipping skip row depth =>
    have hclose : ({ s with openTags := rest } : Scan).close o s.openTags.length =
        (if s.openTags.length = o.dataLevel then { s with openTags := rest, skipDepth := none }
          else { s with openTags := rest }, none) := by
      simp only [close, skip]
    rw [hclose]
    split
    · refine .of_same (.outside rfl row ?_) rfl rfl
      show rest.length < o.dataLevel
      omega
    · refine .of_same (.skipping skip row ?_) rfl rfl
      show o.dataLevel ≤ rest.length
      omega
  | inside r skip row depth =>
    have hclose : ({ s with openTags := rest } : Scan).close o s.openTags.length =
        ({ s with openTags := rest, builder := (s.builder.finish o).1 },
          (s.builder.finish o).2) := by
      simp only [close, skip]
    rw [hclose]
    by_cases ho : r.outer = []
    · rw [Builder.finish_of_row row ho]
      rw [ho, List.length_nil, Nat.add_zero] at depth
      refine ⟨.outside skip rfl ?_, ?_, rfl, ?_⟩
      · show rest.length < o.dataLevel
        omega
      · rw [inProgress_of_some row, inProgress_of_none rfl]
        simp only [Option.toList_some, List.length_singleton, Nat.zero_add, Nat.add_zero]
      · intro n q hn
        rw [Option.toList_some, List.getElem?_singleton] at hn
        obtain ⟨rfl, hq⟩ := Option.ite_none_right_eq_some.mp hn
        cases hq
        rfl
    · rw [Builder.finish_of_inside row ho]
      refine .of_none (.inside _ skip rfl ?_) ?_ rfl
      · obtain ⟨frame, outer, houter⟩ := List.exists_cons_of_ne_nil ho
        rw [houter, List.length_cons] at depth
        simp only [OpenRow.leave, houter]
        omega
      · rw [inProgress_of_some row, inProgress_of_some rfl, Nat.zero_add]

/-- **No row element is lost at an event.** -/
theorem follows_feed (h : s.Steady o) (hf : s.feed o event = .ok (s', row?)) :
    Follows o s s'
        (if event.isStart && s.openTags.length + 1 == o.dataLevel then 1 else 0) row?.toList ∧
      s'.openTags.length = event.depthAfter s.openTags.length := by
  cases event with
  | start name attributes =>
    obtain ⟨rfl, rfl⟩ : s.start o name attributes = s' ∧ none = row? := by simpa [feed] using hf
    refine ⟨by simpa [Event.isStart] using follows_start h name attributes, ?_⟩
    simp only [start]
    split
    · rfl
    · split <;> rfl
  | text value =>
    obtain ⟨rfl, rfl⟩ : s.text value = s' ∧ none = row? := by simpa [feed] using hf
    refine ⟨by simpa [Event.isStart] using follows_text h value, ?_⟩
    simp only [text]
    split <;> rfl
  | finish name =>
    obtain ⟨opened, rest, ht, hclosed⟩ := feed_finish hf
    have hclose := follows_close h ht
    rw [hclosed] at hclose
    refine ⟨by simpa [Event.isStart] using hclose, ?_⟩
    rw [show s' = (s', row?).1 from rfl, ← hclosed, ht]
    simp only [close]
    split
    · split <;> rfl
    · rfl

/-- Once a row is finished none is under construction. -/
theorem row_of_feed {row : Row} (hf : s.feed o event = .ok (s', some row)) :
    s'.builder.row = none := by
  have hstep := builder_feed hf
  generalize s'.builder = b, hrow : some row = row? at hstep
  cases hstep with
  | finish name =>
    cases hr : s.builder.row with
    | none =>
      rw [Builder.finish_of_none hr] at hrow
      cases hrow
    | some r =>
      by_cases ho : r.outer = []
      · rw [Builder.finish_of_row hr ho]
      · rw [Builder.finish_of_inside hr ho] at hrow
        cases hrow
  | _ => cases hrow

/-! ## Runs -/

/-- **No row element is lost on a run.** -/
theorem follows_run (h : s.Steady o) (hr : s.run o events = .ok (s', rows)) :
    Follows o s s' (Event.startsAt o.dataLevel s.openTags.length events) rows := by
  induction events generalizing s rows with
  | nil =>
    simp only [run, Except.ok.injEq, Prod.mk.injEq] at hr
    obtain ⟨rfl, rfl⟩ := hr
    exact .refl h
  | cons event rest ih =>
    obtain ⟨s₁, row?, later, hf, hrest, rfl⟩ := run_cons_eq_ok hr
    obtain ⟨hstep, hdepth⟩ := follows_feed h hf
    rw [Event.startsAt, ← hdepth]
    exact hstep.trans (ih hstep.steady hrest)

/-- The rows that some events finish, up to the first event at fault. -/
def sealed (o : ReaderOptions) : Scan → List Event → List Row
  | _, [] => []
  | s, event :: rest =>
    match s.feed o event with
    | .error _ => []
    | .ok (s, row?) => row?.toList ++ sealed o s rest

theorem sealed_of_run (hr : s.run o events = .ok (s', rows)) (left : List Event) :
    sealed o s (events ++ left) = rows ++ sealed o s' left := by
  induction events generalizing s rows with
  | nil =>
    simp only [run, Except.ok.injEq, Prod.mk.injEq] at hr
    obtain ⟨rfl, rfl⟩ := hr
    rfl
  | cons event rest ih =>
    obtain ⟨s₁, row?, later, hf, hrest, rfl⟩ := run_cons_eq_ok hr
    simp only [List.cons_append, sealed, hf, ih hrest, List.append_assoc]

theorem sealed_eq_of_run (hr : s.run o events = .ok (s', rows)) : sealed o s events = rows := by
  have hsealed := sealed_of_run hr []
  rwa [sealed, List.append_nil, List.append_nil] at hsealed

/-- Only an end finishes a row. -/
theorem exists_finish_of_feed {row : Row} (hf : s.feed o event = .ok (s', some row)) :
    ∃ name, event = .finish name := by
  cases event with
  | start name attributes => simp [feed] at hf
  | text value => simp [feed] at hf
  | finish name => exact ⟨name, rfl⟩

/-- **Where a row ends**: the events up to there finish this row and those before it. -/
theorem exists_finish_of_sealed {n : Nat} (hn : n < (sealed o s events).length) :
    ∃ before name after s₁ s₂ rows row, events = before ++ .finish name :: after ∧
      s.run o before = .ok (s₁, rows) ∧ s₁.feed o (.finish name) = .ok (s₂, some row) ∧
      rows.length = n := by
  induction events generalizing s n with
  | nil => cases hn
  | cons event rest ih =>
    cases hf : s.feed o event with
    | error error => simp [sealed, hf] at hn
    | ok q =>
      obtain ⟨s', row?⟩ := q
      simp only [sealed, hf] at hn
      cases row? with
      | none =>
        obtain ⟨before, name, after, s₁, s₂, rows, row, rfl, hrun, hfeed, hlen⟩ := ih hn
        refine ⟨event :: before, name, after, s₁, s₂, rows, row, rfl, ?_, hfeed, hlen⟩
        rw [run_cons hf, hrun]
        rfl
      | some row =>
        cases n with
        | zero =>
          obtain ⟨name, rfl⟩ := exists_finish_of_feed hf
          exact ⟨[], name, rest, s, s', [], row, rfl, rfl, hf, rfl⟩
        | succ n =>
          rw [Option.toList_some, List.singleton_append, List.length_cons] at hn
          obtain ⟨before, name, after, s₁, s₂, rows, last, rfl, hrun, hfeed, hlen⟩ :=
            ih (Nat.lt_of_succ_lt_succ hn)
          refine ⟨event :: before, name, after, s₁, s₂, row :: rows, last, rfl, ?_, hfeed,
            congrArg (· + 1) hlen⟩
          rw [run_cons hf, hrun]
          rfl

/-- The rows come numbered in order. -/
theorem ordinal_sealed (h : s.Steady o) {n : Nat} {row : Row}
    (hn : (sealed o s events)[n]? = some row) :
    row.ordinal = ((s.builder.sealedRows + n : Nat) : Int) := by
  induction events generalizing s n with
  | nil => simp [sealed] at hn
  | cons event rest ih =>
    rw [sealed] at hn
    split at hn
    · simp at hn
    · next s₁ row? hf =>
      obtain ⟨hstep, -⟩ := follows_feed h hf
      rw [List.getElem?_append] at hn
      split at hn
      · exact hstep.ordinal n row hn
      · rw [ih hstep.steady hn, hstep.sealedRows]
        congr 1
        omega

/-! ## Fields of rows -/

/-- A property of the fields of the row under construction. -/
def Fields (P : List Field → Prop) (s : Scan) : Prop :=
  ∀ r, s.builder.row = some r → P r.draft.fields

variable {P : List Field → Prop}

theorem fields_of_none (h : s.builder.row = none) : Fields P s := by
  intro r hr
  rw [h] at hr
  cases hr

theorem fields_startChild (hP : Field.Stable P) (h : Fields P s) (flattened : Bool) (name : String)
    (attributes : Entries String) :
    ∀ r, (s.builder.startChild o flattened name attributes).row = some r → P r.draft.fields := by
  intro r hr
  unfold Builder.startChild at hr
  split at hr
  · next hnone =>
    rw [hnone] at hr
    cases hr
  · next q hq =>
    cases hr
    exact hP.startChild (h q hq) flattened name attributes _

theorem fields_finish (hP : Field.Stable P) (h : Fields P s) :
    (∀ r, (s.builder.finish o).1.row = some r → P r.draft.fields) ∧
      ∀ row, (s.builder.finish o).2 = some row → P row.fields := by
  cases hr : s.builder.row with
  | none =>
    rw [Builder.finish_of_none hr]
    refine ⟨fields_of_none hr, ?_⟩
    rintro row ⟨⟩
  | some r =>
    by_cases ho : r.outer = []
    · rw [Builder.finish_of_row hr ho]
      constructor
      · rintro q ⟨⟩
      · rintro row ⟨⟩
        exact h r hr
    · rw [Builder.finish_of_inside hr ho]
      constructor
      · rintro q ⟨⟩
        exact hP.leave (h r hr) _
      · rintro row ⟨⟩

/-- **What is stable is kept at an event, and holds of the row that it finishes.** -/
theorem fields_feed (hP : Field.Stable P) (hnil : P []) (h : Fields P s)
    (hf : s.feed o event = .ok (s', row?)) :
    Fields P s' ∧ ∀ row, row? = some row → P row.fields := by
  have hstep := builder_feed hf
  unfold Fields
  generalize s'.builder = b at hstep ⊢
  cases hstep with
  | idle event => exact ⟨h, fun _ hrow => by cases hrow⟩
  | row name attributes =>
    refine ⟨fun r hr => ?_, fun _ hrow => by cases hrow⟩
    cases hr
    exact hnil
  | child flattened name attributes =>
    exact ⟨fields_startChild hP h flattened name attributes, fun _ hrow => by cases hrow⟩
  | text value =>
    refine ⟨fun r hr => ?_, fun _ hrow => by cases hrow⟩
    obtain ⟨q, hq, rfl⟩ := Option.map_eq_some_iff.mp hr
    exact Field.Stable.text (h q hq) value
  | finish name => exact fields_finish hP h

theorem fields_sealed (hP : Field.Stable P) (hnil : P []) (h : Fields P s) :
    ∀ row ∈ sealed o s events, P row.fields := by
  induction events generalizing s with
  | nil => exact fun row hr => by cases hr
  | cons event rest ih =>
    rw [sealed]
    split
    · exact fun row hr => by cases hr
    · next s₁ row? hf =>
      obtain ⟨hs₁, hrow⟩ := fields_feed hP hnil h hf
      intro row hr
      rcases List.mem_append.mp hr with hr | hr
      · exact hrow row (Option.mem_toList.mp hr)
      · exact ih hs₁ row hr

/-- **Every row that is finished is regular.** -/
theorem isRegular_sealed (o : ReaderOptions) (events : List Event) :
    ∀ row ∈ sealed o {} events, row.IsRegular := by
  intro row hr
  obtain ⟨hdistinct, hunreserved⟩ := fields_sealed stable_regular
    ⟨Field.distinct_nil, List.not_mem_nil⟩ (fields_of_none rfl) row hr
  exact ⟨hdistinct, hunreserved⟩

end Scan

end Tabular
