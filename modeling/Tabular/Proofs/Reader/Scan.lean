import Tabular.Proofs.Row.Steps
import Tabular.Reader.Run

/-!
# Scanning events one by one

* `Scan.run`, `run_append`: the state after some events and the rows they finish;
* `Scan.opening`, `start_of_skipping`, `start_of_place`: the start of an element, by the place it
  has;
* `start_inside`: inside a row it starts a child;
* `feed_finish`, `Builder.Step`, **`builder_feed`**: what an end closes, and what an event does to the
  row under construction.
-/

namespace Tabular

namespace Scan

/-- The state after some events and the rows they finish, or what is wrong with one of them. -/
def run (o : ReaderOptions) : Scan → List Event → Except Malformed (Scan × List Row)
  | s, [] => .ok (s, [])
  | s, event :: rest =>
    match s.feed o event with
    | .error error => .error error
    | .ok (s, row?) => (run o s rest).map fun r => (r.1, row?.toList ++ r.2)

variable {o : ReaderOptions} {s s' : Scan}

theorem run_cons {event : Event} {row? : Option Row} (h : s.feed o event = .ok (s', row?))
    (rest : List Event) :
    run o s (event :: rest) = (run o s' rest).map fun r => (r.1, row?.toList ++ r.2) := by
  simp only [run, h]

theorem run_cons_eq_ok {event : Event} {rest : List Event} {rows : List Row}
    (h : run o s (event :: rest) = .ok (s', rows)) :
    ∃ s₁ row? rows₂, s.feed o event = .ok (s₁, row?) ∧ run o s₁ rest = .ok (s', rows₂) ∧
      rows = row?.toList ++ rows₂ := by
  cases hf : s.feed o event with
  | error error => simp [run, hf] at h
  | ok p =>
    rw [run_cons hf] at h
    cases hr : run o p.1 rest with
    | error error => simp [hr, Except.map] at h
    | ok q =>
      simp only [hr, Except.map, Except.ok.injEq, Prod.mk.injEq] at h
      obtain ⟨rfl, rfl⟩ := h
      exact ⟨p.1, p.2, q.2, rfl, hr, rfl⟩

theorem run_append {before : List Event} {rows : List Row} (h : run o s before = .ok (s', rows))
    (after : List Event) :
    run o s (before ++ after) = (run o s' after).map fun r => (r.1, rows ++ r.2) := by
  induction before generalizing s rows with
  | nil =>
    simp only [run, Except.ok.injEq, Prod.mk.injEq] at h
    obtain ⟨rfl, rfl⟩ := h
    simp only [List.nil_append]
    cases run o s after <;> rfl
  | cons event before ih =>
    obtain ⟨s₁, row?, rows₂, hf, hr, rfl⟩ := run_cons_eq_ok h
    rw [List.cons_append, run_cons hf, ih hr]
    cases run o s' after <;> simp [Except.map]

/-! ## Starts -/

/-- The state with another innermost open name. -/
def opening (name : String) (s : Scan) : Scan :=
  { s with openTags := name :: s.openTags }

theorem start_of_skipping (h : s.skipDepth.isSome = true) (name : String)
    (attributes : Entries String) : s.start o name attributes = s.opening name := by
  rw [start]
  exact if_pos h

theorem start_of_place (h : s.skipDepth = none) (name : String) (attributes : Entries String) :
    s.start o name attributes =
      match o.levels.place (s.openTags.length + 1) name with
      | .outside => s.opening name
      | .skipped =>
        { s.opening name with
          skipDepth := some (s.openTags.length + 1)
          skippedElements := s.skippedElements + 1 }
      | .rowStart => { s.opening name with builder := s.builder.startRow o name attributes }
      | .structural =>
        { s.opening name with builder := s.builder.startChild o false name attributes }
      | .flattened =>
        { s.opening name with builder := s.builder.startChild o true name attributes } := by
  rw [start]
  exact if_neg (by simp [h])

theorem start_inside (h : s.skipDepth = none) (hd : o.dataLevel ≤ s.openTags.length) (name : String)
    (attributes : Entries String) :
    s.start o name attributes =
      { s.opening name with
        builder := s.builder.startChild o (o.isFlattened (s.openTags.length + 1)) name
          attributes } := by
  rw [start_of_place h, place_inside hd]
  cases o.isFlattened (s.openTags.length + 1) <;> rfl

/-! ## Events -/

/-- An end closes the innermost open element. -/
theorem feed_finish {name : String} {row? : Option Row}
    (h : s.feed o (.finish name) = .ok (s', row?)) :
    ∃ opened rest, s.openTags = opened :: rest ∧
      ({ s with openTags := rest } : Scan).close o s.openTags.length = (s', row?) := by
  simp only [feed] at h
  split at h
  · cases h
  · next opened rest ht =>
    split at h
    · exact ⟨opened, rest, ht, Except.ok.inj h⟩
    · cases h

end Scan

/-- What an event can do to the row under construction, and the row that it finishes. -/
inductive Builder.Step (o : ReaderOptions) (b : Builder) : Event → Builder → Option Row → Prop where
  | idle (event : Event) : Step o b event b none
  | row (name : String) (attributes : Entries String) :
    Step o b (.start name attributes) (b.startRow o name attributes) none
  | child (flattened : Bool) (name : String) (attributes : Entries String) :
    Step o b (.start name attributes) (b.startChild o flattened name attributes) none
  | text (value : String) : Step o b (.text value) (b.text value) none
  | finish (name : String) : Step o b (.finish name) (b.finish o).1 (b.finish o).2

namespace Scan

/-- **Every event is a step of the builder.** -/
theorem builder_feed {o : ReaderOptions} {s s' : Scan} {event : Event} {row? : Option Row}
    (h : s.feed o event = .ok (s', row?)) : s.builder.Step o event s'.builder row? := by
  cases event with
  | start name attributes =>
    cases h
    by_cases hskip : s.skipDepth.isSome = true
    · rw [start_of_skipping hskip]
      exact .idle _
    · rw [start_of_place (by simpa using hskip)]
      split
      · exact .idle _
      · exact .idle _
      · exact .row name attributes
      · exact .child false name attributes
      · exact .child true name attributes
  | text value =>
    cases h
    unfold text
    split
    · exact .idle _
    · exact .text value
  | finish name =>
    obtain ⟨opened, rest, -, hclose⟩ := feed_finish h
    simp only [close] at hclose
    split at hclose
    · cases hclose
      split <;> exact .idle _
    · cases hclose
      exact .finish name

end Scan

end Tabular
