import Tabular.Proofs.Options.Loaded
import Tabular.Proofs.Value.Firsts

/-!
# Refused options

A map of loose values is loaded as valid options, or refused with a complaint about the options.
There is one way out: a projection is taken apart item by item, and where a value that has no items
stands in the place of a collection, that is what fails.

* `Projection.Uncollected`: where such a value stands in a request;
* `mapM_eq_error_iff`: a list of readings fails with its first fault;
* `Projection.ofValue_eq_noCollection_iff`: a request fails like this just where one stands;
* `OptionsError.isConfiguration`: the error is a complaint about the options;
* **`ofValues_valid_or_refused`**: what loading gives for every map of values.
-/

namespace Tabular

/-- The value has items: the characters of a text, the items of a list, the keys of a map. -/
def Value.isCollection : Value → Bool
  | .text _ | .list _ | .map _ => true
  | _ => false

/-! ## Lists of readings -/

/-- A list of readings fails with the fault of the first item that cannot be read. -/
theorem mapM_eq_error_iff {α β ε : Type} {f : α → Except ε β} {items : List α} {error : ε} :
    items.mapM f = .error error ↔ ∃ before item after, items = before ++ item :: after ∧
      (∀ i ∈ before, ∃ b, f i = .ok b) ∧ f item = .error error := by
  induction items with
  | nil => exact ⟨nofun, fun ⟨_, _, _, h, _⟩ => by simp at h⟩
  | cons first rest ih =>
    rw [List.mapM_cons]
    cases hf : f first with
    | error fault =>
      constructor
      · intro h
        cases h
        exact ⟨[], first, rest, rfl, List.forall_mem_nil _, hf⟩
      · rintro ⟨before, item, after, hitems, hbefore, hitem⟩
        cases before with
        | nil =>
          cases hitems
          cases hf.symm.trans hitem
          rfl
        | cons b before =>
          cases hitems
          obtain ⟨b, hb⟩ := hbefore _ List.mem_cons_self
          cases hf.symm.trans hb
    | ok b =>
      have hbind : (do let b ← Except.ok b; let bs ← rest.mapM f; pure (b :: bs)) =
          Except.error error ↔ rest.mapM f = .error error := by
        cases rest.mapM f <;> simp [bind, Except.bind, pure, Except.pure]
      rw [hbind, ih]
      constructor
      · rintro ⟨before, item, after, rfl, hbefore, hitem⟩
        exact ⟨first :: before, item, after, rfl, List.forall_mem_cons.mpr ⟨⟨b, hf⟩, hbefore⟩, hitem⟩
      · rintro ⟨before, item, after, hitems, hbefore, hitem⟩
        cases before with
        | nil =>
          cases hitems
          cases hf.symm.trans hitem
        | cons b before =>
          cases hitems
          exact ⟨before, item, after, rfl, (List.forall_mem_cons.mp hbefore).2, hitem⟩

/-! ## Requests that cannot be taken apart -/

namespace Projection

variable {v w : Value} {items : List Value}

/-- Where a request is taken apart, `w` has no items: it is the whole request, or an item that no
star stands beside and that comes behind readable ones. -/
inductive Uncollected : Value → Value → Prop where
  | whole {w : Value} (hnull : w ≠ .null) (h : w.isCollection = false) : Uncollected w w
  | item {before after : List Value} {w : Value}
      (hstar : ∀ item ∈ before ++ w :: after, isStarItem item = false)
      (hbefore : ∀ item ∈ before, ∃ path, pathOfItem item = .ok path)
      (h : w.isCollection = false) : Uncollected (.list (before ++ w :: after)) w

theorem pathOfItem_eq_noCollection_iff :
    pathOfItem v = .error (.noCollection w) ↔ v = w ∧ v.isCollection = false := by
  have hitems : ∀ given items, pathOfItems given items ≠ .error (.noCollection w) := by
    intro given items
    unfold pathOfItems
    split
    · split <;> nofun
    · nofun
  cases v with
  | text s =>
    rw [pathOfItem]
    cases Path.parse s <;> simp [Except.mapError, Value.isCollection]
  | list items => simpa [pathOfItem, Value.isCollection] using hitems _ _
  | map es => simpa [pathOfItem, Value.isCollection] using hitems _ _
  | _ => simp [pathOfItem, Value.isCollection]

theorem uncollected_list_iff : Uncollected (.list items) w ↔
    (∀ item ∈ items, isStarItem item = false) ∧ ∃ before after, items = before ++ w :: after ∧
      (∀ item ∈ before, ∃ path, pathOfItem item = .ok path) ∧ w.isCollection = false := by
  constructor
  · intro h
    cases h with
    | whole _ h => cases h
    | item hstar hbefore h => exact ⟨hstar, _, _, rfl, hbefore, h⟩
  · rintro ⟨hstar, before, after, rfl, hbefore, h⟩
    exact .item hstar hbefore h

theorem ofItems_eq_noCollection_iff :
    ofItems items = .error (.noCollection w) ↔ Uncollected (.list items) w := by
  have hmap : (items.mapM pathOfItem).map ofPaths = .error (.noCollection w) ↔
      items.mapM pathOfItem = .error (.noCollection w) := by
    cases items.mapM pathOfItem <;> simp [Except.map]
  rw [uncollected_list_iff]
  unfold ofItems
  split
  · next hempty => simp [List.isEmpty_iff.mp hempty]
  · split
    · next hstar =>
      obtain ⟨item, hitem, hstar⟩ := List.any_eq_true.mp hstar
      exact ⟨nofun, fun h => absurd hstar (by simp [h.1 item hitem])⟩
    · next hstar =>
      have hnone : ∀ item ∈ items, isStarItem item = false := by simpa using hstar
      rw [hmap, mapM_eq_error_iff]
      constructor
      · rintro ⟨before, item, after, hitems, hbefore, hitem⟩
        obtain ⟨rfl, h⟩ := pathOfItem_eq_noCollection_iff.mp hitem
        exact ⟨hnone, before, after, hitems, hbefore, h⟩
      · rintro ⟨-, before, after, hitems, hbefore, h⟩
        exact ⟨before, w, after, hitems, hbefore, pathOfItem_eq_noCollection_iff.mpr ⟨rfl, h⟩⟩

/-- Names can always be taken apart. -/
theorem ofItems_texts_ne (names : List String) :
    ofItems (names.map .text) ≠ .error (.noCollection w) := by
  rw [ne_eq, ofItems_eq_noCollection_iff, uncollected_list_iff]
  rintro ⟨-, before, after, hitems, -, h⟩
  have hw : w ∈ names.map Value.text := hitems ▸ by simp
  obtain ⟨name, -, rfl⟩ := List.mem_map.mp hw
  cases h

/-- **A request fails for want of a collection** just where one is wanting. -/
theorem ofValue_eq_noCollection_iff :
    ofValue v = .error (.noCollection w) ↔ Uncollected v w := by
  cases v with
  | list items => exact ofItems_eq_noCollection_iff
  | text s =>
    refine ⟨fun h => ?_, fun h => by cases h with | whole _ h => cases h⟩
    unfold ofValue at h
    simp only at h
    split at h
    · cases h
    · exact absurd h (ofItems_texts_ne _)
  | map es =>
    refine ⟨fun h => ?_, fun h => by cases h with | whole _ h => cases h⟩
    have hnames : es.map (fun e => Value.text e.1) = (es.map Prod.fst).map .text := by simp
    rw [ofValue, hnames] at h
    exact absurd h (ofItems_texts_ne _)
  | null => exact ⟨nofun, fun h => by cases h with | whole hnull => exact absurd rfl hnull⟩
  | bool | int | decimal | unwritable =>
    constructor
    · intro h
      cases h
      exact .whole nofun rfl
    · intro h
      cases h
      rfl

end Projection

/-! ## Refusals -/

/-- The error is a complaint about the options, in the words of the options. -/
def OptionsError.isConfiguration : OptionsError → Bool
  | .projection (.noCollection _) => false
  | _ => true

namespace ReaderOptions

open Options (Checker)

variable {c : Checker} {given : Entries Value} {o : ReaderOptions}

theorem ofInts_of_valid (h : o.Valid) :
    Levels.ofInts o.dataLevel (o.flattenLevel.map Int.ofNat) o.rowTag = .ok o.levels := by
  have hd : ¬ (o.dataLevel : Int) < 1 := by
    have := h.levels_valid.one_le
    simp only [levels] at this
    omega
  unfold Levels.ofInts
  rw [if_neg hd]
  cases hf : o.flattenLevel with
  | none => simp [levels, hf]
  | some f =>
    have hle : o.dataLevel ≤ f := h.levels_valid.le_flatten f hf
    have hlt : ¬ (Int.ofNat f) < o.dataLevel := by simpa using hle
    simp [levels, hf, hle]

theorem loadWith_ne_projection (projection : Projection) (given : Entries Setting)
    (error : ProjectionError) : loadWith c projection given ≠ .error (.projection error) := by
  unfold loadWith
  simp only
  split
  · unfold checkLevels
    split
    · nofun
    · split <;> nofun
  · nofun

theorem load_eq_projection_iff {given : Entries Setting} {error : ProjectionError} :
    load c given = .error (.projection error) ↔ loadProjection given = .error error := by
  unfold load
  cases loadProjection given with
  | error fault => simp
  | ok projection => simpa using loadWith_ne_projection projection given error

theorem loadProjection_values (given : Entries Value) :
    loadProjection (given.map fun e => (e.1, .value e.2)) =
      match Entries.get? "projection" given with
      | none => .ok .all
      | some v => Projection.ofValue v := by
  rw [loadProjection, Entries.get?_map]
  cases Entries.get? "projection" given <;> rfl

theorem named_of_ofValues (h : ofValues c given = .ok o) : o.projection.Named := by
  have hprojection := (of_load h).1
  rw [loadProjection_values] at hprojection
  cases hv : Entries.get? "projection" given with
  | none =>
    rw [hv] at hprojection
    rw [← Except.ok.inj hprojection]
    exact Projection.named_all
  | some v =>
    rw [hv] at hprojection
    exact Projection.named_of_ofValue hprojection

theorem ofValues_eq_noCollection_iff {w : Value} :
    ofValues c given = .error (.projection (.noCollection w)) ↔
      ∃ v, Entries.get? "projection" given = some v ∧ Projection.Uncollected v w := by
  rw [ofValues, load_eq_projection_iff, loadProjection_values]
  cases Entries.get? "projection" given with
  | none => simp
  | some v => simpa using Projection.ofValue_eq_noCollection_iff

/-- **Loose values give options that are in order, whose levels hold, or a complaint about the
options**, unless the projection has to be taken apart where it has no items. That is so whatever a
checker takes the values for. -/
theorem ofValues_valid_or_refused (c : Checker) (given : Entries Value) :
    ((∃ o, ofValues c given = .ok o ∧ o.Valid ∧ o.projection.Named ∧
        Levels.ofInts o.dataLevel (o.flattenLevel.map Int.ofNat) o.rowTag = .ok o.levels) ∨
      (∃ error, ofValues c given = .error error ∧ error.isConfiguration = true) ∨
      ∃ w, ofValues c given = .error (.projection (.noCollection w))) ∧
    ∀ w, ofValues c given = .error (.projection (.noCollection w)) ↔
      ∃ v, Entries.get? "projection" given = some v ∧ Projection.Uncollected v w := by
  refine ⟨?_, fun w => ofValues_eq_noCollection_iff⟩
  cases h : ofValues c given with
  | ok o =>
    have hv := valid_of_load h
    exact Or.inl ⟨o, rfl, hv, named_of_ofValues h, ofInts_of_valid hv⟩
  | error error =>
    refine Or.inr ?_
    cases error with
    | invalid complaints => exact Or.inl ⟨_, rfl, rfl⟩
    | projection fault =>
      cases fault with
      | noCollection w => exact Or.inr ⟨w, rfl⟩
      | path | invalidPath | nothing => exact Or.inl ⟨_, rfl, rfl⟩

/-- A number has no items. -/
theorem not_refused_number : ¬ ∀ given : Entries Value,
    (∃ o, ofValues .lax given = .ok o ∧ o.Valid) ∨
      ∃ error, ofValues .lax given = .error error ∧ error.isConfiguration = true := by
  intro h
  have hload : ofValues .lax [("projection", .int 5)] =
      .error (.projection (.noCollection (.int 5))) := rfl
  rcases h [("projection", .int 5)] with ⟨o, ho, -⟩ | ⟨error, herror, hconfiguration⟩
  · cases hload.symm.trans ho
  · cases hload.symm.trans herror
    cases hconfiguration

end ReaderOptions

end Tabular
