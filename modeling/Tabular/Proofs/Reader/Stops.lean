import Tabular.Proofs.Reader.Passage
import Tabular.Proofs.Reader.Sealed

/-!
# Where passages stop

A passage stops at the row limit, at an event at fault or at the end of the events, and has the
first of the finished rows.

* **`halt_passage_cases`**: what stops a passage;
* **`passage_congr`**: options that do not matter to it;
* `isPrefix_rows_passage`, `rows_passage_of_limit_none`: the rows of a passage;
* **`exists_passage_limit`**: a passage up to the row limit.
-/

namespace Tabular

variable {o o' : ReaderOptions} {ending : Ending} {events : List Event} {given limit : Nat}
  {s : Scan}

/-- **What stops a passage**: the row limit, an event at fault, or the end of the events. -/
theorem halt_passage_cases (o : ReaderOptions) (ending : Ending) (events : List Event)
    (given : Nat) (s : Scan) :
    (passage o ending events given s).halt = .limit ∧ o.limit ≠ none ∨
      (∃ error, (passage o ending events given s).halt = .broken error) ∨
      ∃ tags, (passage o ending events given s).halt = ending.halt tags := by
  induction events generalizing given s with
  | nil => exact .inr (.inr ⟨s.openTags, rfl⟩)
  | cons event rest ih =>
    cases hf : s.feed o event with
    | error error =>
      rw [passage_cons_error hf]
      exact .inr (.inl ⟨error, rfl⟩)
    | ok q =>
      obtain ⟨s', _ | row⟩ := q
      · rw [passage_cons_none hf]
        exact ih given s'
      · rw [passage_cons_some hf]
        split
        · next he =>
          refine .inl ⟨rfl, fun hl => ?_⟩
          rw [ReaderOptions.isEnough, hl] at he
          cases he
        · exact ih (given + 1) s'

/-- **Options that scan alike and have enough alike** make for one passage. -/
theorem passage_congr (hfeed : ∀ (s : Scan) event, s.feed o event = s.feed o' event)
    (he : ∀ n ≤ given + (Scan.sealed o s events).length, o.isEnough n = o'.isEnough n) :
    passage o ending events given s = passage o' ending events given s := by
  induction events generalizing given s with
  | nil => rfl
  | cons event rest ih =>
    cases hf : s.feed o event with
    | error error =>
      rw [passage_cons_error hf, passage_cons_error (hfeed s event ▸ hf)]
    | ok q =>
      obtain ⟨s', row?⟩ := q
      simp only [Scan.sealed, hf, List.length_append] at he
      cases row? with
      | none =>
        rw [passage_cons_none hf, passage_cons_none (hfeed s event ▸ hf), ih (by simpa using he)]
      | some row =>
        rw [Option.toList_some, List.length_singleton, ← Nat.add_assoc] at he
        rw [passage_cons_some hf, passage_cons_some (hfeed s event ▸ hf), ih he,
          he (given + 1) (Nat.le_add_right _ _)]

/-! ## Rows of a passage -/

/-- The rows of a passage are the first finished ones. -/
theorem isPrefix_rows_passage (o : ReaderOptions) (ending : Ending) (events : List Event)
    (given : Nat) (s : Scan) :
    (passage o ending events given s).rows <+: Scan.sealed o s events := by
  induction events generalizing given s with
  | nil => exact List.nil_prefix
  | cons event rest ih =>
    rw [Scan.sealed]
    cases hf : s.feed o event with
    | error error => simp only [passage_cons_error hf, List.nil_prefix]
    | ok q =>
      obtain ⟨s', row?⟩ := q
      cases row? with
      | none =>
        rw [passage_cons_none hf]
        exact ih given s'
      | some row =>
        rw [passage_cons_some hf]
        split
        · exact (List.prefix_cons_inj row).mpr List.nil_prefix
        · exact (List.prefix_cons_inj row).mpr (ih (given + 1) s')

/-- Without a limit a passage has all finished rows. -/
theorem rows_passage_of_limit_none (hl : o.limit = none) (given : Nat) (s : Scan) :
    (passage o ending events given s).rows = Scan.sealed o s events := by
  induction events generalizing given s with
  | nil => rfl
  | cons event rest ih =>
    cases hf : s.feed o event with
    | error error => simp [passage_cons_error hf, Scan.sealed, hf]
    | ok q =>
      obtain ⟨s', row?⟩ := q
      simp only [Scan.sealed, hf]
      cases row? with
      | none =>
        rw [passage_cons_none hf]
        exact ih given s'
      | some row =>
        have hone : ¬ o.isEnough (given + 1) = true := by simp [ReaderOptions.isEnough, hl]
        rw [passage_cons_some hf, if_neg hone]
        exact congrArg (row :: ·) (ih (given + 1) s')

/-- **A passage that reaches the limit** stops at the end of the last row that may be given. -/
theorem exists_passage_limit (hl : o.limit = some limit) (hpos : 0 < limit)
    (hn : limit ≤ (Scan.sealed o {} events).length) (ending : Ending) :
    ∃ before name left scan, events = before ++ .finish name :: left ∧
      (Scan.sealed o {} before).length + 1 = limit ∧
      (Scan.sealed o {} (before ++ [.finish name])).length = limit ∧
      passage o ending events 0 {} =
        ⟨(Scan.sealed o {} events).take limit, scan, before.length + 1, .limit, left⟩ := by
  obtain ⟨given, rfl⟩ := Nat.exists_eq_succ_of_ne_zero (Nat.ne_of_gt hpos)
  obtain ⟨before, name, left, s₁, s₂, rows, row, rfl, hrun, hfeed, hlen⟩ :=
    Scan.exists_finish_of_sealed hn
  have hread : Scan.run o {} (before ++ [.finish name]) = .ok (s₂, rows ++ [row]) := by
    rw [Scan.run_append hrun, Scan.run_cons hfeed]
    rfl
  have hall := Scan.sealed_of_run hread left
  rw [List.append_assoc, List.singleton_append] at hall
  have hlen' : (rows ++ [row]).length = given + 1 := by
    rw [List.length_append, hlen, List.length_singleton]
  refine ⟨before, name, left, s₂, rfl, ?_, ?_, ?_⟩
  · rw [Scan.sealed_eq_of_run hrun, hlen]
  · rw [Scan.sealed_eq_of_run hread, hlen']
  · have hbelow : o.isEnough (0 + rows.length) = false := by
      rw [ReaderOptions.isEnough_eq_false_iff, hl, Nat.zero_add, hlen]
      rintro _ ⟨⟩
      exact Nat.lt_succ_self given
    have hreached : o.isEnough (0 + rows.length + 1) = true := by
      simp [ReaderOptions.isEnough, hl, hlen]
    rw [passage_append hrun hbelow, passage_cons_some hfeed, if_pos hreached, hall,
      List.take_left' hlen']
    simp [Passage.behind]

end Tabular
