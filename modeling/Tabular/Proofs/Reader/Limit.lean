import Tabular.Proofs.Reader.Cut
import Tabular.Proofs.Reader.Flush

/-!
# Row limits

A row limit cuts off what a reader without one gives. No event is taken behind the last row that
may be given, and all batches but the last one are what they are without the limit.

* `ReaderOptions.limitedTo`, `windows_limitedTo`: windows do not depend on the limit;
* `passage_limitedTo`: passages that do not reach it;
* `Limited`, **`rest_limited`**: the batches and counters of a reader with a limit.
-/

namespace Tabular

variable {o : ReaderOptions} {source : EventSource} {events : List Event} {limit : Nat}

/-! ## Options that differ in the limit -/

/-- The options with another row limit. -/
def ReaderOptions.limitedTo (limit : Option Nat) (o : ReaderOptions) : ReaderOptions :=
  { o with limit }

theorem Scan.sealed_limitedTo (o : ReaderOptions) (limit : Option Nat) (s : Scan)
    (events : List Event) : sealed (o.limitedTo limit) s events = sealed o s events := by
  induction events generalizing s with
  | nil => rfl
  | cons event rest ih =>
    rw [sealed, sealed, show s.feed (o.limitedTo limit) event = s.feed o event from rfl]
    simp only [ih]

/-- Windows do not depend on the limit. -/
theorem windows_limitedTo (limit : Option Nat) (rows : List Row) :
    windows (o.limitedTo limit) 0 (RowSchema.start o.projection) rows =
      windows o 0 (RowSchema.start o.projection) rows :=
  windows_congr (by rfl) (by rfl) (by rfl) 0 _ rows

/-- A passage that does not reach the limit is that without one. -/
theorem passage_limitedTo (hn : (Scan.sealed o {} events).length < limit) (ending : Ending) :
    passage (o.limitedTo (some limit)) ending events 0 {} =
      passage (o.limitedTo none) ending events 0 {} := by
  refine passage_congr (fun _ _ => rfl) fun n hle => ?_
  rw [Nat.zero_add, Scan.sealed_limitedTo] at hle
  exact decide_eq_false (Nat.not_le_of_lt (Nat.lt_of_le_of_lt hle hn))

/-- Without a limit none is reached. -/
theorem halt_passage_ne_limit (hl : o.limit = none) (ending : Ending) (events : List Event)
    (given : Nat) (s : Scan) :
    (passage o ending events given s).halt ≠ .limit := by
  obtain ⟨-, hsome⟩ | ⟨error, hhalt⟩ | ⟨tags, hhalt⟩ := halt_passage_cases o ending events given s
  · exact absurd hl hsome
  · rw [hhalt]
    nofun
  · rw [hhalt]
    cases ending with
    | complete => cases tags <;> nofun
    | malformed line => nofun
    | unreadable fault => nofun

/-! ## Readers with a limit -/

/-- What a limit does to a reader: it gives as many of the rows as it may and takes no event behind
the last one, nothing that is wrong there is reported, and its batches begin those without a limit,
and are the same but for the last one. -/
structure Limited (o : ReaderOptions) (source : EventSource) (limit : Nat)
    (limited unlimited : Called (List Batch × Option ReadFailure)) : Prop where
  finished : unlimited.reader.rowsEmitted = (Scan.sealed o {} source.events).length
  rowsEmitted : limited.reader.rowsEmitted = min limit unlimited.reader.rowsEmitted
  rows : source.Whole → (limited.result.1.flatMap Batch.rows).length =
    min limit unlimited.reader.rowsEmitted
  limitReached : limited.reader.limitReached = true ↔ limit ≤ unlimited.reader.rowsEmitted
  idle : limit = 0 → limited.reader.eventsConsumed = 0 ∧ limited.reader.source = source
  taken : 0 < limit → limit ≤ unlimited.reader.rowsEmitted → ∃ before name left,
    source.events = before ++ .finish name :: left ∧
      (Scan.sealed o {} before).length + 1 = limit ∧
      (Scan.sealed o {} (before ++ [.finish name])).length = limit ∧
      limited.reader.eventsConsumed = before.length + 1 ∧ limited.reader.source.events = left
  quiet : limit ≤ unlimited.reader.rowsEmitted → limited.result.2 = none ∧
    ∀ calls, (limited.reader.after calls).1.nextBatch.result = .ok none
  evenly : EvenlyCut o.batchSize limited.result.1 ∧ EvenlyCut o.batchSize unlimited.result.1
  same : ∀ i batch, i + 1 < limited.result.1.length → limited.result.1[i]? = some batch →
    unlimited.result.1[i]? = some batch
  begins : ∀ (i : Nat) (batch whole : Batch), limited.result.1[i]? = some batch →
    unlimited.result.1[i]? = some whole → batch.Begins whole
  covered : source.Whole → limited.result.1.length ≤ unlimited.result.1.length

namespace Reader

/-- What comes of a source where rows are not limited. -/
theorem rest_unlimited (hb : 0 < o.batchSize) (source : EventSource) :
    (start (o.limitedTo none) source).rest.reader.rowsEmitted =
        (Scan.sealed o {} source.events).length ∧
      ∃ n, (start (o.limitedTo none) source).rest.result.1 =
          windows o 0 (RowSchema.start o.projection) ((Scan.sealed o {} source.events).take n) ∧
        (∀ i, i * o.batchSize ≤ (Scan.sealed o {} source.events).length → i * o.batchSize ≤ n) ∧
        (n = (Scan.sealed o {} source.events).length ∨ o.batchSize ∣ n) ∧
        (source.Whole → n = (Scan.sealed o {} source.events).length) := by
  have hne : (o.limitedTo none).limit ≠ some 0 := nofun
  have hrows : (Tabular.passage (o.limitedTo none) source.ending source.events 0 {}).rows =
      Scan.sealed o {} source.events := by
    rw [rows_passage_of_limit_none rfl, Scan.sealed_limitedTo]
  have hfinished := finished_rest (o := o.limitedTo none) hb hne source
  have hresult := result_rest (o := o.limitedTo none) hb hne source
  obtain ⟨n, hn, hfull, hall⟩ := exists_handedOut (o.limitedTo none) source hb hrows
  refine ⟨?_, n, ?_, hfull, hall⟩
  · rw [hfinished.rowsEmitted, hrows]
    exact Nat.zero_add _
  · rw [hresult, show (o.limitedTo none).batchSize = o.batchSize from rfl, hn]
    exact windows_limitedTo none _

/-- A reader that may give no row. -/
theorem limited_zero (hb : 0 < o.batchSize) (source : EventSource) :
    Limited o source 0 (start (o.limitedTo (some 0)) source).rest
      (start (o.limitedTo none) source).rest := by
  obtain ⟨hfinished, _, hbatches, -⟩ := rest_unlimited hb source
  have hidle : (start (o.limitedTo (some 0)) source).exhausted = true := rfl
  rw [rest_of_limit_zero rfl]
  exact {
    finished := hfinished
    rowsEmitted := (Nat.zero_min _).symm
    rows := fun _ => (Nat.zero_min _).symm
    limitReached := ⟨fun _ => Nat.zero_le _, fun _ => rfl⟩
    idle := fun _ => ⟨rfl, rfl⟩
    taken := fun h => absurd h (Nat.lt_irrefl 0)
    quiet := fun _ => ⟨rfl, fun calls => by
      rw [after_of_exhausted hidle, nextBatch_of_exhausted rfl hidle]⟩
    evenly := ⟨nofun, hbatches ▸ evenlyCut_windows hb _⟩
    same := nofun
    begins := nofun
    covered := fun _ => Nat.zero_le _ }

/-- A reader that may give no more rows than there are. -/
theorem limited_reached (hb : 0 < o.batchSize) (hpos : 0 < limit)
    (hn : limit ≤ (Scan.sealed o {} source.events).length) :
    Limited o source limit (start (o.limitedTo (some limit)) source).rest
      (start (o.limitedTo none) source).rest := by
  obtain ⟨hall, n, hwhole, hfull, hcut, hread⟩ := rest_unlimited hb source
  have hne : (o.limitedTo (some limit)).limit ≠ some 0 := by
    rintro ⟨⟩
    exact absurd hpos (Nat.lt_irrefl 0)
  obtain ⟨before, name, left, scan, hsplit, hbefore, hupto, hp⟩ :=
    exists_passage_limit (o := o.limitedTo (some limit)) rfl hpos
      (by rwa [Scan.sealed_limitedTo]) source.ending
  rw [Scan.sealed_limitedTo] at hbefore hupto hp
  have hfinished := finished_rest (o := o.limitedTo (some limit)) hb hne source
  have hdrained := drained_rest (o := o.limitedTo (some limit)) hb hne source
  have hresult := result_rest (o := o.limitedTo (some limit)) hb hne source
  rw [hp] at hfinished hdrained hresult
  have hlength : ((Scan.sealed o {} source.events).take limit).length = limit :=
    List.length_take_of_le hn
  have hbatches : (start (o.limitedTo (some limit)) source).rest.result.1 =
      windows o 0 (RowSchema.start o.projection)
        ((Scan.sealed o {} source.events).take limit) := by
    rw [hresult]
    exact windows_limitedTo (some limit) _
  obtain ⟨hstopped, hleft⟩ := hdrained.stopped nofun
  exact {
    finished := hall
    rowsEmitted := by
      rw [hall, Nat.min_eq_left hn, hfinished.rowsEmitted]
      exact (Nat.zero_add _).trans hlength
    rows := fun _ => by rw [hbatches, length_rows_windows hb, hlength, hall, Nat.min_eq_left hn]
    limitReached := ⟨fun _ => hall ▸ hn, fun _ => by simp [hfinished.limitReached]⟩
    idle := fun h => absurd h (Nat.ne_of_gt hpos)
    taken := fun _ _ => ⟨before, name, left, hsplit, hbefore, hupto,
      hfinished.eventsConsumed.trans (Nat.zero_add _), hleft⟩
    quiet := fun _ => ⟨hfinished.failure, fun calls => by
      rw [after_of_exhausted hstopped, nextBatch_of_exhausted hdrained.error hstopped]⟩
    evenly := ⟨hbatches ▸ evenlyCut_windows hb _, hwhole ▸ evenlyCut_windows hb _⟩
    same := fun i batch hi h => by
      rw [hbatches, lt_length_windows hb, hlength] at hi
      rw [hbatches] at h
      rw [hwhole, ← getElem?_windows_of_full hb _ (Nat.le_of_lt hi)
        (hfull (i + 1) (Nat.le_of_lt (Nat.lt_of_lt_of_le hi hn)))]
      exact h
    begins := fun i batch whole h h' =>
      begins_windows hb (Scan.isRegular_sealed o source.events) (hcut.imp_left fun h => h ▸ hn)
        (hbatches ▸ h) (hwhole ▸ h')
    covered := fun hw => by
      refine forall_lt_iff_le.mp fun i hi => ?_
      rw [hbatches, lt_length_windows hb, hlength] at hi
      rw [hwhole, lt_length_windows hb, hread hw, List.take_length]
      exact Nat.lt_of_lt_of_le hi hn }

/-- A reader that may give more rows than there are. -/
theorem limited_below (hb : 0 < o.batchSize)
    (hn : (Scan.sealed o {} source.events).length < limit) :
    Limited o source limit (start (o.limitedTo (some limit)) source).rest
      (start (o.limitedTo none) source).rest := by
  obtain ⟨hall, n, hwhole, hfull, hcut, hread⟩ := rest_unlimited hb source
  have hpos : 0 < limit := Nat.zero_lt_of_lt hn
  have hne : (o.limitedTo (some limit)).limit ≠ some 0 := by
    rintro ⟨⟩
    exact absurd hpos (Nat.lt_irrefl 0)
  have hp := passage_limitedTo hn source.ending
  have hhalt := halt_passage_ne_limit (o := o.limitedTo none) rfl source.ending source.events 0 {}
  have hfinished := finished_rest (o := o.limitedTo (some limit)) hb hne source
  have hunlimited := finished_rest (o := o.limitedTo none) hb nofun source
  rw [hp] at hfinished
  have hsame : (start (o.limitedTo (some limit)) source).rest.result =
      (start (o.limitedTo none) source).rest.result := by
    rw [result_rest (o := o.limitedTo (some limit)) hb hne, hp,
      result_rest (o := o.limitedTo none) hb nofun]
    exact Prod.ext ((windows_limitedTo _ _).trans (windows_limitedTo _ _).symm) rfl
  have hover : ¬ limit ≤ (start (o.limitedTo none) source).rest.reader.rowsEmitted :=
    hall ▸ Nat.not_le_of_lt hn
  exact {
    finished := hall
    rowsEmitted := by
      rw [Nat.min_eq_right (Nat.le_of_not_le hover), hfinished.rowsEmitted,
        hunlimited.rowsEmitted]
      rfl
    rows := fun hw => by
      rw [hsame, hwhole, length_rows_windows hb, hread hw, List.take_length, hall,
        Nat.min_eq_right (Nat.le_of_lt hn)]
    limitReached := by
      have hstart : (start (o.limitedTo (some limit)) source).limitReached = false :=
        decide_eq_false hne
      simp [hfinished.limitReached, hstart, hhalt, hover]
    idle := fun h => absurd h (Nat.ne_of_gt hpos)
    taken := fun _ h => absurd h hover
    quiet := fun h => absurd h hover
    evenly := ⟨hsame ▸ hwhole ▸ evenlyCut_windows hb _, hwhole ▸ evenlyCut_windows hb _⟩
    same := fun i batch _ h => hsame ▸ h
    begins := fun i batch whole h h' => by
      rw [hsame, h', Option.some.injEq] at h
      exact h ▸ .refl whole
    covered := fun _ => Nat.le_of_eq (congrArg (·.1.length) hsame) }

/-- **A row limit cuts off what a reader without one gives**, at whatever events. -/
theorem rest_limited (hb : 0 < o.batchSize) (source : EventSource) (limit : Nat) :
    Limited o source limit (start (o.limitedTo (some limit)) source).rest
      (start (o.limitedTo none) source).rest := by
  rcases Nat.lt_or_ge (Scan.sealed o {} source.events).length limit with hlt | hle
  · exact limited_below hb hlt
  · rcases Nat.eq_zero_or_pos limit with rfl | hpos
    · exact limited_zero hb source
    · exact limited_reached hb hpos hle

/-- A limit of one row where the second row, of the same batch, has a map at the requested path, and
a stream that breaks off behind it. -/
theorem rest_limited_placeholder :
    let o : ReaderOptions := { batchSize := 2, projection := .columns [["a"]] }
    let source : EventSource :=
      ⟨[.start "t" [], .start "r" [], .finish "r", .start "r" [], .start "a" [], .start "b" [],
        .finish "b", .finish "a", .finish "r", .finish "s"], .complete⟩
    let limited := (start (o.limitedTo (some 1)) source).rest
    let unlimited := (start (o.limitedTo none) source).rest
    (0 < o.batchSize ∧ source.Whole) ∧
      limited.result.1.map Batch.schema = [⟨[⟨["a"], .scalar, true⟩]⟩] ∧
      limited.result.2 = none ∧ limited.reader.eventsConsumed = 3 ∧
      unlimited.result.1.map Batch.schema =
        [⟨[⟨["a"], .map, true⟩, ⟨["a", "b"], .scalar, true⟩]⟩] ∧
      unlimited.result.2 = some (.malformed (.mismatchedEnd "s" "t")) ∧
      Limited o source 1 limited unlimited := by
  refine ⟨⟨by decide, nofun⟩, ?_, ?_, ?_, ?_, ?_, rest_limited (by decide) _ 1⟩ <;> decide +kernel

end Reader

end Tabular
