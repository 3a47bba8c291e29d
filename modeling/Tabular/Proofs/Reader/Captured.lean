import Tabular.Proofs.Reader.Flattened
import Tabular.Proofs.Schema.Captured
import Tabular.Proofs.Tree.Offers

/-!
# Captured attributes under a projection

A reader for the attributes, and one for every column, where rows keep the attributes of every
element inside them. A repeat is skipped by the one with its attributes, and passed through by the
other.

* `windows_sameAttributes`: the batches of two readers show the same attributes just if their rows
  have the same;
* `KeepsAttributes`, **`keepsAttributes_iff`**: the streams over which the readers agree;
* **`rest_sameAttributes`**: the options under which they agree over all nested streams.
-/

namespace Tabular

variable {o : ReaderOptions}

/-! ## Windows -/

/-- The windows over rows show the same attributes just if the rows have the same. -/
theorem windows_sameAttributes (hp : o.projection.Captures) (hb : 0 < o.batchSize)
    {rows rows' : List Row} (hlen : rows.length = rows'.length) (hr : ∀ row ∈ rows, row.IsPlain)
    (hr' : ∀ row ∈ rows', row.IsPlain) {w n : RowSchema} (hw : w.Captures) (hn : n.Captures)
    (hknows : ∀ key, w.knows key = n.knows key) (index : Nat) :
    List.Forall₂ Batch.SameAttributes (windows (o.projected .all) index w rows)
        (windows o index n rows') ↔
      List.Forall₂ Row.SameAttributes rows rows' := by
  refine windows_induction (motive := fun rows rows' => (∀ row ∈ rows, row.IsPlain) →
    (∀ row ∈ rows', row.IsPlain) → ∀ index w n, w.Captures → n.Captures →
      (∀ key, w.knows key = n.knows key) →
        (List.Forall₂ Batch.SameAttributes (windows (o.projected .all) index w rows)
            (windows o index n rows') ↔ List.Forall₂ Row.SameAttributes rows rows'))
    hb ?_ ?_ hlen hr hr' index w n hw hn hknows
  · intro _ _ index w n _ _ _
    rw [windows_nil, windows_nil]
    exact ⟨fun _ => .nil, fun _ => .nil⟩
  · intro rows rows' hne hne' ih hr hr' index w n hw hn hknows
    have hnow : ∀ row ∈ rows.take o.batchSize, row.IsPlain :=
      fun row hmem => hr row (List.mem_of_mem_take hmem)
    have hnow' : ∀ row ∈ rows'.take o.batchSize, row.IsPlain :=
      fun row hmem => hr' row (List.mem_of_mem_take hmem)
    have hsplit : List.Forall₂ Row.SameAttributes rows rows' ↔
        List.Forall₂ Row.SameAttributes (rows.take o.batchSize) (rows'.take o.batchSize) ∧
          List.Forall₂ Row.SameAttributes (rows.drop o.batchSize) (rows'.drop o.batchSize) := by
      constructor
      · exact fun h => ⟨List.forall₂_take _ h, List.forall₂_drop _ h⟩
      · rintro ⟨h, h'⟩
        rw [← List.take_append_drop o.batchSize rows, ← List.take_append_drop o.batchSize rows']
        exact List.rel_append h h'
    rw [windows_of_ne_nil hne (by exact hb), windows_of_ne_nil hne' hb, List.forall₂_cons, hsplit]
    refine Iff.trans (and_congr_left fun _ => RowSchema.sameAttributes_iff hw hn hnow hnow' hknows
      index) (and_congr_right fun hsame => ?_)
    refine ih (fun row hmem => hr row (List.mem_of_mem_drop hmem))
      (fun row hmem => hr' row (List.mem_of_mem_drop hmem)) (index + 1) _ _ ?_ ?_ ?_
    · split
      · exact hw.foldAll hnow
      · exact RowSchema.captures_start (Or.inl rfl)
    · split
      · exact hn.foldAll hnow'
      · exact RowSchema.captures_start hp
    · intro key
      have hpinned : (o.projected .all).pinSchema = o.pinSchema := rfl
      rw [hpinned]
      split
      · exact RowSchema.knows_foldAll_congr hw hn hnow hnow' hknows hsame key
      · rw [RowSchema.knows_start hp]
        exact RowSchema.knows_start (Or.inl rfl) key

/-! ## Rows of elements -/

/-- Two rows of each element are alike just if those of all elements are. -/
theorem Element.forall₂_toRows {o o' : ReaderOptions} {R : Row → Row → Prop} {P : Element → Prop}
    (h : ∀ e i, R (e.toRow o i) (e.toRow o' i) ↔ P e) (es : List Element) (first : Nat) :
    List.Forall₂ R (toRows o first es) (toRows o' first es) ↔ ∀ e ∈ es, P e := by
  induction es generalizing first with
  | nil => exact ⟨fun _ _ he => (by cases he), fun _ => .nil⟩
  | cons e rest ih =>
    have hcons : ∀ o : ReaderOptions,
        toRows o first (e :: rest) = e.toRow o first :: toRows o (first + 1) rest :=
      fun o => toRows_append first [e] rest
    rw [hcons, hcons, List.forall₂_cons, h, ih, List.forall_mem_cons]

theorem Element.isPlain_toRow (hs : o.attributeScope = .all) (hp : o.projection.Captures)
    (ordinal : Int) (e : Element) : (e.toRow o ordinal).IsPlain := by
  refine ⟨e.unreserved_toRow o ordinal, fun key hkey => ?_⟩
  rw [get?_attributes_toRow hs hp.wantsAttributes hp.admitsAttribute] at hkey
  cases hv : Entries.get? key (e.attributes ++ e.offered o) with
  | none =>
    rw [hv] at hkey
    cases hkey
  | some v =>
    rw [hv] at hkey
    cases hkey

theorem Element.isPlain_toRows (hs : o.attributeScope = .all) (hp : o.projection.Captures)
    (first : Nat) (es : List Element) : ∀ row ∈ toRows o first es, row.IsPlain := by
  intro row hrow
  obtain ⟨i, hi, rfl⟩ := List.mem_mapIdx.mp hrow
  exact isPlain_toRow hs hp _ _

/-! ## Whole readings -/

/-- A reader for the attributes shows of them what a reader for every column shows. -/
def KeepsAttributes (o : ReaderOptions) (source : EventSource) : Prop :=
  List.Forall₂ Batch.SameAttributes
    (Reader.start { o with projection := .all } source).rest.result.1
    (Reader.start o source).rest.result.1

/-- The attributes that the elements inside a row have, with those of the row element before them. -/
def Element.allAttributes (o : ReaderOptions) (e : Element) : Entries String :=
  e.attributes ++ Item.offers o o.dataLevel [] e.content

/-- Those of them that a reader for every column does not skip with a repeat. -/
def Element.unskippedAttributes (o : ReaderOptions) (e : Element) : Entries String :=
  e.attributes ++ e.offered (o.projected .all)

/-- A reader for the attributes skips no element as a repeat. -/
theorem Element.offered_attributes (hp : o.projection = .ofNames [attributesName]) (e : Element) :
    e.offered o = Item.offers o o.dataLevel [] e.content := by
  refine OpenRow.offered_eq_offers e.content (.row rfl rfl fun name hname => ?_)
  rw [hp, Bool.eq_false_iff, ne_eq, Projection.admits_ofNames, List.mem_singleton]
  exact hname

/-- **The streams over which the readers agree**: those in whose rows the first attribute of each
key is none that is skipped with a repeat. -/
theorem keepsAttributes_iff (hv : o.Valid) (hs : o.attributeScope = .all)
    (hp : o.projection = .ofNames [attributesName]) {items : List Item} {events : List Event}
    (h : Spells items events) :
    KeepsAttributes o ⟨events, .complete⟩ ↔ ∀ e ∈ o.emitted items, ∀ key,
      Entries.get? key (e.unskippedAttributes o) = Entries.get? key (e.allAttributes o) := by
  have hcaptures : o.projection.Captures := Or.inr hp
  have hwide : (o.projected .all).projection.Captures := Or.inl rfl
  have hscope : (o.projected .all).attributeScope = .all := hs
  have hemitted : (o.projected .all).emitted items = o.emitted items := rfl
  have hlen : (Element.toRows (o.projected .all) 0 (o.emitted items)).length =
      (Element.toRows o 0 (o.emitted items)).length := by
    rw [Element.length_toRows, Element.length_toRows]
  have hrest := rest_spells (valid_projected_all hv) h
  rw [hemitted] at hrest
  rw [KeepsAttributes, rest_spells hv h]
  refine Iff.trans (iff_of_eq (congrArg (fun bs => List.Forall₂ Batch.SameAttributes bs _) hrest)) ?_
  refine Iff.trans (windows_sameAttributes hcaptures hv.one_le_batchSize hlen
    (Element.isPlain_toRows hscope hwide 0 _) (Element.isPlain_toRows hs hcaptures 0 _)
    (RowSchema.captures_start hwide) (RowSchema.captures_start hcaptures)
    (fun key => by rw [RowSchema.knows_start hwide, RowSchema.knows_start hcaptures]) 0) ?_
  refine Element.forall₂_toRows (fun e i => forall_congr' fun key => ?_) _ 0
  rw [Element.get?_attributes_toRow hscope hwide.wantsAttributes hwide.admitsAttribute,
    Element.get?_attributes_toRow hs hcaptures.wantsAttributes hcaptures.admitsAttribute,
    Element.offered_attributes hp]
  exact Option.map_inj_right fun _ _ h => Option.some.inj h

/-- Where every field is flattened, no element is skipped. -/
theorem Element.unskipped_of_flat (hf : o.flattenLevel = some o.dataLevel) (e : Element) :
    e.unskippedAttributes o = e.allAttributes o := by
  have hflat : (o.projected .all).isFlattened (o.dataLevel + 1) = true := by
    have hlevel : (o.projected .all).flattenLevel = some o.dataLevel := hf
    rw [ReaderOptions.isFlattened, hlevel]
    exact decide_eq_true (Nat.lt_succ_self _)
  have hoffered : OpenRow.offered (o.projected .all) o.dataLevel e.content
      (e.opened (o.projected .all), {}) = Item.offers (o.projected .all) o.dataLevel [] e.content :=
    OpenRow.offered_eq_offers e.content (.flat (by simp [opened]) hflat)
  rw [Item.offers_projected] at hoffered
  exact congrArg (e.attributes ++ ·) hoffered

/-- An element that comes twice, with an attribute the second time. -/
def Item.twiceWith (attributes : Entries String) : List Item :=
  [.element "x" [] [], .element "x" attributes []]

/-- **An attribute of a repeat**: the wide reader skips it with the repeat. -/
theorem not_keepsAttributes (hv : o.Valid) (hs : o.attributeScope = .all)
    (hp : o.projection = .ofNames [attributesName]) (hl : o.limit ≠ some 0)
    (hf : o.flattenLevel ≠ some o.dataLevel) {items : List Item} {events : List Event} {e : Element}
    (h : Spells items events) (he : o.rowElements items = [e]) (ha : e.attributes = [])
    (hc : e.content = Item.twiceWith [("q", "1")]) : ¬ KeepsAttributes o ⟨events, .complete⟩ := by
  have hflat : o.isFlattened (o.dataLevel + 1) = false := by
    rw [ReaderOptions.isFlattened]
    cases hlevel : o.flattenLevel with
    | none => rfl
    | some f =>
      have hle := hv.levels_valid.le_flatten f hlevel
      have hne : f ≠ o.dataLevel := by
        rintro rfl
        exact hf hlevel
      have hdata : o.levels.dataLevel = o.dataLevel := rfl
      exact decide_eq_false (by omega)
  have hname : "x" ≠ attributesName := by decide
  have hunskipped : e.unskippedAttributes o = [] := by
    rw [Element.unskippedAttributes, Element.offered, ha, hc]
    exact OpenRow.offered_repeat (o := o.projected .all) (p := (e.opened (o.projected .all), {}))
      hflat rfl rfl hname rfl rfl [("q", "1")] []
  have hall : e.allAttributes o = [("x_q", "1")] := by
    have hattr : ¬ [] ++ ["x"] = attributesPath := by decide
    rw [Element.allAttributes, ha, hc]
    simp only [Item.twiceWith, Item.offers, Item.offersIn, hflat, Bool.false_eq_true, if_false, hattr]
    rfl
  rw [keepsAttributes_iff hv hs hp h, emitted_singleton hl he]
  intro hkeeps
  have hkey := hkeeps e (List.mem_singleton_self e) "x_q"
  rw [hunskipped, hall] at hkey
  cases hkey

/-- **Captured attributes under a projection.** A reader for the attributes shows of them what a
reader for every column shows just for those nested streams in whose rows no attribute is the first
of its key and skipped with a repeat. That is so for all nested streams just if every field is
flattened. -/
theorem rest_sameAttributes (hv : o.Valid) (hs : o.attributeScope = .all)
    (hp : o.projection = .ofNames [attributesName]) (hl : o.limit ≠ some 0) :
    (∀ items events, Spells items events →
      (KeepsAttributes o ⟨events, .complete⟩ ↔ ∀ e ∈ o.emitted items, ∀ key,
        Entries.get? key (e.unskippedAttributes o) = Entries.get? key (e.allAttributes o))) ∧
      ((∀ events, Event.Nested [] events → KeepsAttributes o ⟨events, .complete⟩) ↔
        o.flattenLevel = some o.dataLevel) := by
  refine ⟨fun items events h => keepsAttributes_iff hv hs hp h, fun hall => ?_, fun hf events h => ?_⟩
  · by_contra hf
    obtain ⟨items, events, hspells, he⟩ := exists_stream
      (e := ⟨o.rowName, [], Item.twiceWith [("q", "1")]⟩) (isRowName_rowName o)
    exact not_keepsAttributes hv hs hp hl hf hspells he rfl rfl
      (hall events (nested_iff_spells.mpr ⟨items, hspells⟩))
  · obtain ⟨items, hspells⟩ := nested_iff_spells.mp h
    rw [keepsAttributes_iff hv hs hp hspells]
    intro e _ key
    rw [e.unskipped_of_flat hf]

/-- The attributes of rows whose fields are all flattened. -/
theorem rest_sameAttributes_flat :
    let o : ReaderOptions :=
      { flattenLevel := some 2, attributeScope := .all, projection := .ofNames [attributesName] }
    ∀ events, Event.Nested [] events → KeepsAttributes o ⟨events, .complete⟩ :=
  (rest_sameAttributes ⟨⟨by decide, by simp [ReaderOptions.levels]⟩, by decide⟩ rfl rfl (by decide)).2.mpr rfl

/-- An attribute of the second of two elements with the same name. -/
theorem not_keepsAttributes_repeat :
    let o : ReaderOptions := { attributeScope := .all, projection := .ofNames [attributesName] }
    let events : List Event :=
      [.start "t" [], .start "r" [], .start "x" [], .finish "x", .start "x" [("q", "1")],
        .finish "x", .finish "r", .finish "t"]
    o.Valid ∧ Event.Nested [] events ∧ ¬ KeepsAttributes o ⟨events, .complete⟩ := by
  intro o events
  have hv : o.Valid := ⟨⟨by decide, by simp [o, ReaderOptions.levels]⟩, by decide⟩
  have hs : Spells [.element "t" [] [.element "r" [] (Item.twiceWith [("q", "1")])]] events :=
    spells_events _
  exact ⟨hv, nested_iff_spells.mpr ⟨_, hs⟩,
    not_keepsAttributes hv rfl rfl (by decide) (by decide) hs rfl rfl rfl⟩

end Tabular
