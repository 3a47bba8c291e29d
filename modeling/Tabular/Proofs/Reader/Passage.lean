import Tabular.Proofs.Reader.Scan

/-!
# Passages

What a reader takes from its source does not depend on how its rows are cut into batches. The
passage of a source is the reading of it without batches.

* `Passage`, `passage`: the rows up to the row limit, a fault or the end, and what stopped there;
* **`passage_append`**: events one after another;
* `passage_of_run`, `rows_passage`: without a limit, the rows of the scan, and otherwise the first
  of them;
* `Filling.FillsUp`, `Filling.RunsOut`, **`fill_cases`**: a batch takes as many rows of the passage
  as fit into it.
-/

namespace Tabular

/-! ## Reading without batches -/

/-- As many rows as the reader may give. -/
def ReaderOptions.isEnough (o : ReaderOptions) (rows : Nat) : Bool :=
  match o.limit with
  | none => false
  | some limit => limit ≤ rows

theorem ReaderOptions.isEnough_eq_false_iff {o : ReaderOptions} {n : Nat} :
    o.isEnough n = false ↔ ∀ limit, o.limit = some limit → n < limit := by
  unfold isEnough
  cases o.limit <;> simp

theorem ReaderOptions.isEnough_of_le {o : ReaderOptions} {n m : Nat} (h : o.isEnough n = false)
    (hm : m ≤ n) : o.isEnough m = false := by
  rw [isEnough_eq_false_iff] at h ⊢
  exact fun limit hl => Nat.lt_of_le_of_lt hm (h limit hl)

/-- What is left to say at the end of the events. -/
def Ending.halt (ending : Ending) (openTags : List String) : Halt :=
  match ending with
  | .malformed line => .broken (.document line)
  | .unreadable fault => .unreadable fault
  | .complete =>
    match openTags with
    | [] => .drained
    | opened :: _ => .broken (.endedInside opened)

theorem Filling.atEnd_eq (ending : Ending) (f : Filling) :
    f.atEnd ending = ending.halt f.scan.openTags := by
  cases ending <;> rfl

/-- A reading without batches: the rows, the state at the end and the number of events taken, and
what stopped it before which events. -/
structure Passage where
  rows : List Row
  scan : Scan
  taken : Nat
  halt : Halt
  left : List Event

/-- The passage that comes after `rows` and `taken` events. -/
def Passage.behind (rows : List Row) (taken : Nat) (p : Passage) : Passage :=
  { p with rows := rows ++ p.rows, taken := taken + p.taken }

/-- Takes events until something stops it, where `given` rows were given before. -/
def passage (o : ReaderOptions) (ending : Ending) : List Event → Nat → Scan → Passage
  | [], _, s => ⟨[], s, 0, ending.halt s.openTags, []⟩
  | event :: rest, given, s =>
    match s.feed o event with
    | .error error => ⟨[], s, 1, .broken error, rest⟩
    | .ok (s, none) => (passage o ending rest given s).behind [] 1
    | .ok (s, some row) =>
      if o.isEnough (given + 1) then ⟨[row], s, 1, .limit, rest⟩
      else (passage o ending rest (given + 1) s).behind [row] 1

section Passage

variable {o : ReaderOptions} {ending : Ending} {event : Event} {rest : List Event} {given : Nat}
  {s s' : Scan}

theorem passage_cons_error {error : Malformed} (h : s.feed o event = .error error) :
    passage o ending (event :: rest) given s = ⟨[], s, 1, .broken error, rest⟩ := by
  rw [passage]
  simp only [h]

theorem passage_cons_none (h : s.feed o event = .ok (s', none)) :
    passage o ending (event :: rest) given s = (passage o ending rest given s').behind [] 1 := by
  rw [passage]
  simp only [h]

theorem passage_cons_some {row : Row} (h : s.feed o event = .ok (s', some row)) :
    passage o ending (event :: rest) given s =
      if o.isEnough (given + 1) then ⟨[row], s', 1, .limit, rest⟩
      else (passage o ending rest (given + 1) s').behind [row] 1 := by
  rw [passage]
  simp only [h]

@[simp] theorem Passage.rows_behind (rows : List Row) (taken : Nat) (p : Passage) :
    (p.behind rows taken).rows = rows ++ p.rows := rfl

@[simp] theorem Passage.scan_behind (rows : List Row) (taken : Nat) (p : Passage) :
    (p.behind rows taken).scan = p.scan := rfl

@[simp] theorem Passage.taken_behind (rows : List Row) (taken : Nat) (p : Passage) :
    (p.behind rows taken).taken = taken + p.taken := rfl

theorem Passage.behind_behind (rows rows' : List Row) (taken taken' : Nat) (p : Passage) :
    (p.behind rows' taken').behind rows taken = p.behind (rows ++ rows') (taken + taken') := by
  simp only [Passage.behind, List.append_assoc, Nat.add_assoc]

/-- A passage has no more rows than events. -/
theorem length_rows_passage (events : List Event) (given : Nat) (s : Scan) :
    (passage o ending events given s).rows.length ≤ events.length := by
  induction events generalizing given s with
  | nil => exact Nat.le_refl _
  | cons event rest ih =>
    cases hf : s.feed o event with
    | error error => simp [passage_cons_error hf]
    | ok p =>
      obtain ⟨s', _ | row⟩ := p
      · rw [passage_cons_none hf]
        exact Nat.le_succ_of_le (by simpa using ih given s')
      · rw [passage_cons_some hf]
        split
        · simp
        · have := ih (given + 1) s'
          simp only [Passage.rows_behind, List.length_append, List.length_cons, List.length_nil]
          omega

theorem halt_passage_ne_full (events : List Event) (given : Nat) (s : Scan) :
    (passage o ending events given s).halt ≠ .full := by
  induction events generalizing given s with
  | nil =>
    cases ending with
    | complete => cases h : s.openTags <;> simp [passage, Ending.halt, h]
    | malformed line => simp [passage, Ending.halt]
    | unreadable fault => simp [passage, Ending.halt]
  | cons event rest ih =>
    cases hf : s.feed o event with
    | error error => simp [passage_cons_error hf]
    | ok p =>
      obtain ⟨s', _ | row⟩ := p
      · rw [passage_cons_none hf]
        exact ih given s'
      · rw [passage_cons_some hf]
        split
        · simp
        · exact ih (given + 1) s'

/-- **A passage goes on behind some events** while their rows do not reach the row limit. -/
theorem passage_append {before : List Event} {rows : List Row} (h : s.run o before = .ok (s', rows))
    (he : o.isEnough (given + rows.length) = false) (after : List Event) :
    passage o ending (before ++ after) given s =
      (passage o ending after (given + rows.length) s').behind rows before.length := by
  induction before generalizing given s rows with
  | nil =>
    cases h
    simp [Passage.behind]
  | cons event rest ih =>
    obtain ⟨s₁, row?, later, hf, hr, rfl⟩ := Scan.run_cons_eq_ok h
    rw [List.cons_append]
    cases row? with
    | none =>
      rw [passage_cons_none hf, ih hr he, Passage.behind_behind, Nat.add_comm]
      rfl
    | some row =>
      have hlen : given + ((some row).toList ++ later).length = given + 1 + later.length := by
        simp only [Option.toList_some, List.singleton_append, List.length_cons]
        omega
      rw [hlen] at he ⊢
      have hone : o.isEnough (given + 1) = false :=
        ReaderOptions.isEnough_of_le he (Nat.le_add_right _ _)
      rw [passage_cons_some hf, if_neg (by simp [hone]), ih hr he, Passage.behind_behind,
        Nat.add_comm]
      rfl

/-- The passage of events without a fault. -/
theorem passage_of_run_below {events : List Event} {rows : List Row}
    (h : s.run o events = .ok (s', rows)) (he : o.isEnough (given + rows.length) = false) :
    passage o ending events given s =
      ⟨rows, s', events.length, ending.halt s'.openTags, []⟩ := by
  have happend : passage o ending (events ++ []) given s = _ := passage_append h he []
  rw [List.append_nil] at happend
  simpa [passage, Passage.behind] using happend

/-- **Without a row limit the passage has all rows of the scan.** -/
theorem passage_of_run (hl : o.limit = none) {events : List Event} {rows : List Row}
    (h : s.run o events = .ok (s', rows)) :
    passage o ending events given s =
      ⟨rows, s', events.length, ending.halt s'.openTags, []⟩ :=
  passage_of_run_below h (by rw [ReaderOptions.isEnough, hl])

/-- The rows of a passage are the first rows of the scan, as many as the reader may give. -/
theorem rows_passage {limit : Nat} (hl : o.limit = some limit) {events : List Event}
    {rows : List Row} (hg : given < limit) (h : s.run o events = .ok (s', rows)) :
    (passage o ending events given s).rows = rows.take (limit - given) := by
  have hn : ∀ n, o.isEnough n = decide (limit ≤ n) := fun n => by rw [ReaderOptions.isEnough, hl]
  induction events generalizing given s rows with
  | nil =>
    simp only [Scan.run, Except.ok.injEq, Prod.mk.injEq] at h
    obtain ⟨rfl, rfl⟩ := h
    simp [passage]
  | cons event rest ih =>
    obtain ⟨s₁, row?, rows₂, hf, hr, rfl⟩ := Scan.run_cons_eq_ok h
    cases row? with
    | none =>
      rw [passage_cons_none hf]
      exact ih hg hr
    | some row =>
      rw [passage_cons_some hf, hn]
      by_cases he : limit ≤ given + 1
      · have hone : limit - given = 1 := by omega
        simp [he, hone]
      · have hsub : limit - given = (limit - (given + 1)) + 1 := by omega
        simp [he, ih (by omega : given + 1 < limit) hr, hsub]

end Passage

/-! ## Filling batches from a passage -/

namespace Filling

/-- The filling one event later. -/
def moved (scan : Scan) (f : Filling) : Filling :=
  { f with scan := scan, eventsConsumed := f.eventsConsumed + 1 }

/-- The filling with some rows more, at another state and after further events. -/
def gather (rows : List Row) (scan : Scan) (taken : Nat) (f : Filling) : Filling :=
  { rows.foldl (fun f row => f.add row) f with
    scan := scan
    eventsConsumed := f.eventsConsumed + taken }

theorem foldl_add_moved : ∀ (rows : List Row) (f : Filling) (scan : Scan),
    rows.foldl (fun f row => f.add row) (f.moved scan) =
      { rows.foldl (fun f row => f.add row) f with
        scan := scan
        eventsConsumed := f.eventsConsumed + 1 }
  | [], _, _ => rfl
  | row :: rest, f, scan => foldl_add_moved rest (f.add row) scan

theorem gather_moved (rows : List Row) (scan between : Scan) (taken : Nat) (f : Filling) :
    (f.moved between).gather rows scan taken = f.gather rows scan (1 + taken) := by
  rw [gather, foldl_add_moved]
  simp only [gather, moved, Nat.add_assoc]

theorem gather_add (rows : List Row) (row : Row) (scan between : Scan) (taken : Nat)
    (f : Filling) :
    ((f.moved between).add row).gather rows scan taken = f.gather (row :: rows) scan (1 + taken) := by
  rw [← gather_moved (row :: rows) scan between taken f]
  rfl

theorem add_moved_eq_gather (row : Row) (scan : Scan) (f : Filling) :
    (f.moved scan).add row = f.gather [row] scan 1 := by
  rw [← gather_add [] row scan scan 0 f]
  rfl

end Filling

section Fill

variable {o : ReaderOptions} {ending : Ending} {event : Event} {rest : List Event} {f : Filling}
  {s : Scan} {row : Row}

theorem fill_cons_error {error : Malformed} (h : f.scan.feed o event = .error error) :
    fill o ending (event :: rest) f = (f.gather [] f.scan 1, .broken error, rest) := by
  rw [fill]
  simp only [h]
  rfl

theorem fill_cons_none (h : f.scan.feed o event = .ok (s, none)) :
    fill o ending (event :: rest) f = fill o ending rest (f.moved s) := by
  rw [fill]
  simp only [h]
  rfl

theorem fill_cons_some (h : f.scan.feed o event = .ok (s, some row)) :
    fill o ending (event :: rest) f =
      if o.isEnough (f.rowsEmitted + 1) then (f.gather [row] s 1, .limit, rest)
      else if f.room - 1 = 0 then (f.gather [row] s 1, .full, rest)
      else fill o ending rest ((f.moved s).add row) := by
  rw [fill]
  simp only [h]
  rw [← Filling.add_moved_eq_gather]
  rfl

/-- A filling becomes full, and the passage goes on behind it. -/
def Filling.FillsUp (o : ReaderOptions) (ending : Ending) (events : List Event) (f : Filling) :
    Prop :=
  ∃ rows scan taken left, rows.length = f.room ∧
    fill o ending events f = (f.gather rows scan taken, .full, left) ∧
    passage o ending events f.rowsEmitted f.scan =
      (passage o ending left (f.rowsEmitted + f.room) scan).behind rows taken

/-- A filling takes all rows of the passage, and stops where that stops. -/
def Filling.RunsOut (o : ReaderOptions) (ending : Ending) (events : List Event) (f : Filling) :
    Prop :=
  ∃ p, passage o ending events f.rowsEmitted f.scan = p ∧ p.rows.length ≤ f.room ∧
    (p.rows.length = f.room → p.halt = .limit) ∧
    fill o ending events f = (f.gather p.rows p.scan p.taken, p.halt, p.left)

theorem Filling.FillsUp.cons_none (hf : f.scan.feed o event = .ok (s, none))
    (h : (f.moved s).FillsUp o ending rest) : f.FillsUp o ending (event :: rest) := by
  obtain ⟨rows, scan, taken, left, hlen, hfill, hp⟩ := h
  refine ⟨rows, scan, 1 + taken, left, hlen, ?_, ?_⟩
  · rw [fill_cons_none hf, hfill, Filling.gather_moved]
  · rw [passage_cons_none hf, show passage o ending rest f.rowsEmitted s = _ from hp,
      Passage.behind_behind]
    rfl

theorem Filling.RunsOut.cons_none (hf : f.scan.feed o event = .ok (s, none))
    (h : (f.moved s).RunsOut o ending rest) : f.RunsOut o ending (event :: rest) := by
  obtain ⟨p, hp, hlen, hlast, hfill⟩ := h
  refine ⟨p.behind [] 1, ?_, hlen, hlast, ?_⟩
  · rw [passage_cons_none hf, show passage o ending rest f.rowsEmitted s = p from hp]
  · rw [fill_cons_none hf, hfill, Filling.gather_moved]
    rfl

theorem Filling.FillsUp.cons_some (hf : f.scan.feed o event = .ok (s, some row))
    (he : ¬ o.isEnough (f.rowsEmitted + 1) = true) (hroom : f.room - 1 ≠ 0)
    (h : ((f.moved s).add row).FillsUp o ending rest) : f.FillsUp o ending (event :: rest) := by
  obtain ⟨rows, scan, taken, left, hlen, hfill, hp⟩ := h
  replace hlen : rows.length = f.room - 1 := hlen
  replace hp : passage o ending rest (f.rowsEmitted + 1) s =
    (passage o ending left (f.rowsEmitted + 1 + (f.room - 1)) scan).behind rows taken := hp
  rw [show f.rowsEmitted + 1 + (f.room - 1) = f.rowsEmitted + f.room by omega] at hp
  refine ⟨row :: rows, scan, 1 + taken, left, ?_, ?_, ?_⟩
  · rw [List.length_cons, hlen]
    omega
  · rw [fill_cons_some hf, if_neg he, if_neg hroom, hfill, Filling.gather_add]
  · rw [passage_cons_some hf, if_neg he, hp, Passage.behind_behind]
    rfl

theorem Filling.RunsOut.cons_some (hf : f.scan.feed o event = .ok (s, some row))
    (he : ¬ o.isEnough (f.rowsEmitted + 1) = true) (hroom : f.room - 1 ≠ 0)
    (h : ((f.moved s).add row).RunsOut o ending rest) : f.RunsOut o ending (event :: rest) := by
  obtain ⟨p, hp, hlen, hlast, hfill⟩ := h
  replace hlen : p.rows.length ≤ f.room - 1 := hlen
  replace hlast : p.rows.length = f.room - 1 → p.halt = .limit := hlast
  have hlength : (p.behind [row] 1).rows.length = p.rows.length + 1 := by
    rw [Passage.rows_behind, List.length_append, List.length_singleton, Nat.add_comm]
  refine ⟨p.behind [row] 1, ?_, ?_, ?_, ?_⟩
  · rw [passage_cons_some hf, if_neg he,
      show passage o ending rest (f.rowsEmitted + 1) s = p from hp]
  · omega
  · exact fun h => hlast (by omega)
  · rw [fill_cons_some hf, if_neg he, if_neg hroom, hfill, Filling.gather_add]
    rfl

/-- **A batch takes as many rows of the passage as fit into it.** -/
theorem fill_cases (o : ReaderOptions) (ending : Ending) (events : List Event) (f : Filling)
    (hroom : 0 < f.room) : f.FillsUp o ending events ∨ f.RunsOut o ending events := by
  induction events generalizing f with
  | nil =>
    refine Or.inr ⟨_, rfl, Nat.zero_le _, ?_, ?_⟩
    · intro h
      exact absurd h (Nat.ne_of_lt hroom)
    · rw [fill, Filling.atEnd_eq]
      rfl
  | cons event rest ih =>
    cases hf : f.scan.feed o event with
    | error error =>
      refine Or.inr ⟨_, rfl, ?_⟩
      rw [fill_cons_error hf, passage_cons_error hf]
      exact ⟨Nat.zero_le _, fun h => absurd h (Nat.ne_of_lt hroom), rfl⟩
    | ok q =>
      obtain ⟨s, row?⟩ := q
      cases row? with
      | none => exact (ih (f.moved s) hroom).imp (.cons_none hf) (.cons_none hf)
      | some row =>
        by_cases he : o.isEnough (f.rowsEmitted + 1) = true
        · refine Or.inr ⟨_, rfl, ?_⟩
          rw [fill_cons_some hf, passage_cons_some hf, if_pos he, if_pos he]
          exact ⟨hroom, fun _ => rfl, rfl⟩
        · by_cases hone : f.room - 1 = 0
          · have hroom1 : f.room = 1 := by omega
            refine Or.inl ⟨[row], s, 1, rest, hroom1.symm, ?_, ?_⟩
            · rw [fill_cons_some hf, if_neg he, if_pos hone]
            · rw [passage_cons_some hf, if_neg he, hroom1]
          · exact (ih ((f.moved s).add row) (Nat.pos_of_ne_zero hone)).imp
              (.cons_some hf he hone) (.cons_some hf he hone)

end Fill

end Tabular
