import Mathlib.Data.List.Basic
import Tabular.Options.Basic
import Tabular.Options.Lax
import Tabular.Proofs.Column.Format
import Tabular.Proofs.Value.Firsts

/-!
# Loaded options

Whatever map of settings options are loaded from, and whatever a checker takes its values for, the
options are in order.

* `Projection.Named`, **`named_of_ofValue`**: a projection that was read names something;
* `of_field`, `given?_of_mem`: what a field that could be read satisfies, and where it is given;
* **`Checker.lax_lawful`**: the lax checker is a lawful one;
* **`valid_of_load`**: loaded options are valid;
* `pinSchema_of_load`: an option that was given.
-/

namespace Tabular

/-! ## Paths that were read -/

namespace Path

variable {path : Path} {text : String}

theorem isNamed_iff : isNamed path = true ↔ path ≠ [] ∧ ∀ name ∈ path, name ≠ "" := by
  simp [isNamed]

theorem isNamed_of_parse (h : parse text = .ok path) : isNamed path = true :=
  isNamed_iff.mpr (ne_empty_of_parse h)

end Path

/-! ## Projections that were read -/

namespace Projection

variable {p : Projection} {items : List Value} {paths : List Path} {path : Path} {v : Value}

/-- A projection to some paths has at least one, with a name in every place. -/
def Named (p : Projection) : Prop :=
  ∀ requests, p = .columns requests → requests ≠ [] ∧ ∀ path ∈ requests, Path.isNamed path = true

theorem named_all : Named .all :=
  nofun

theorem isNamed_of_pathOfItem (h : pathOfItem v = .ok path) : Path.isNamed path = true := by
  have hitems : ∀ given items, pathOfItems given items = .ok path → Path.isNamed path = true := by
    intro given items h
    unfold pathOfItems at h
    split at h
    · split at h
      · next hnamed =>
        cases h
        exact hnamed
      · cases h
    · cases h
  cases v with
  | text s =>
    cases hs : Path.parse s with
    | error e => simp [pathOfItem, hs, Except.mapError] at h
    | ok q =>
      simp only [pathOfItem, hs, Except.mapError, Except.ok.injEq] at h
      exact h ▸ Path.isNamed_of_parse hs
  | list items => exact hitems _ _ h
  | map es => exact hitems _ _ h
  | _ => cases h

theorem isNamed_of_mapM (h : items.mapM pathOfItem = .ok paths) :
    paths.length = items.length ∧ ∀ path ∈ paths, Path.isNamed path = true := by
  induction items generalizing paths with
  | nil =>
    cases h
    exact ⟨rfl, nofun⟩
  | cons item rest ih =>
    rw [List.mapM_cons] at h
    cases hitem : pathOfItem item with
    | error e =>
      rw [hitem] at h
      cases h
    | ok path =>
      rw [hitem] at h
      cases hrest : rest.mapM pathOfItem with
      | error e =>
        rw [hrest] at h
        cases h
      | ok later =>
        rw [hrest] at h
        cases h
        obtain ⟨hlength, hall⟩ := ih hrest
        refine ⟨congrArg Nat.succ hlength, fun q hq => ?_⟩
        rcases List.mem_cons.mp hq with rfl | hq
        · exact isNamed_of_pathOfItem hitem
        · exact hall q hq

theorem named_of_ofItems (h : ofItems items = .ok p) : p.Named := by
  unfold ofItems at h
  split at h
  · cases h
  · next hne =>
    split at h
    · cases h
      exact named_all
    · cases hpaths : items.mapM pathOfItem with
      | error e =>
        rw [hpaths] at h
        cases h
      | ok paths =>
        rw [hpaths] at h
        cases h
        obtain ⟨hlength, hall⟩ := isNamed_of_mapM hpaths
        rintro requests hrequests
        cases hrequests
        refine ⟨?_, fun path hpath => hall path (List.mem_eraseDups.mp hpath)⟩
        obtain ⟨path, rest, rfl⟩ : ∃ path rest, paths = path :: rest := by
          refine List.exists_cons_of_ne_nil ?_
          rintro rfl
          cases items with
          | nil => exact hne rfl
          | cons item rest => cases hlength
        rw [List.eraseDups_cons]
        exact List.cons_ne_nil path _

/-- **A projection that was read names something.** -/
theorem named_of_ofValue (h : ofValue v = .ok p) : p.Named := by
  unfold ofValue at h
  split at h
  · cases h
    exact named_all
  · split at h
    · cases h
      exact named_all
    · exact named_of_ofItems h
  · exact named_of_ofItems h
  · exact named_of_ofItems h
  · cases h

end Projection

/-! ## Fields -/

namespace Options

section Field

variable {c : Checker} {α β : Type} {names : List String} {default b : β}
  {read : α → Except Fault β} {given : Entries α}

/-- A field that could be read is its default or was read. -/
theorem of_field {P : β → Prop} (hdefault : P default) (hread : ∀ a b, read a = .ok b → P b)
    (h : field c names default read given = .ok b) : P b := by
  unfold field at h
  split at h
  · cases h
    exact hdefault
  · next a _ =>
    cases hr : read a with
    | error fault =>
      rw [hr] at h
      cases h
    | ok b' =>
      rw [hr] at h
      cases h
      exact hread a _ hr

theorem le_of_readNat {least n : Nat} {v : Value} (h : readNat c least v = .ok n) : least ≤ n := by
  unfold readNat at h
  split at h
  · split at h
    · cases h
    · next hle =>
      cases h
      omega
  · cases h

/-- A field of whose keys the map can have just one is found where it has that. -/
theorem given?_of_mem (hc : c.Lawful) {name : String} (hname : name ∈ names)
    (hothers : ∀ other ∈ names, other ≠ name → Entries.get? other given = none) :
    given? c names given = (Entries.get? name given).map (name, ·) := by
  unfold given?
  cases hkey : c.key? names (Entries.keys given) with
  | some key =>
    obtain ⟨hmem, hgiven⟩ := hc.mem_of_key? hkey
    obtain rfl : key = name := by
      by_contra hne
      have hsome := Entries.has_iff.mpr hgiven
      rw [Entries.has, hothers key hmem hne] at hsome
      cases hsome
    rfl
  | none =>
    cases hget : Entries.get? name given with
    | none => rfl
    | some a =>
      have hgiven : name ∈ Entries.keys given := Entries.has_iff.mp (Option.isSome_of_eq_some hget)
      have hsome := hc.isSome_key? hname hgiven
      rw [hkey] at hsome
      cases hsome

theorem given?_single (hc : c.Lawful) (name : String) (given : Entries α) :
    given? c [name] given = (Entries.get? name given).map (name, ·) :=
  given?_of_mem hc (List.mem_singleton_self name)
    fun _ hother hne => absurd (List.mem_singleton.mp hother) hne

end Field

/-! ## The lax checker -/

/-- **The lax checker is lawful.** -/
theorem Checker.lax_lawful : Checker.lax.Lawful where
  integer_int _ := rfl
  truth_bool _ := rfl
  text_eq_ok_iff {v s} := by
    cases v with
    | text t => simp [lax, Lax.readText]
    | _ => simp [lax, Lax.readText]
  word_text {α words s a} h := by
    show Lax.readWord words (.text s) = .ok a
    simp [Lax.readWord, h]
  mem_of_key? {names given key} h := by
    have hfound : Lax.firstKey? names given = some key := h
    exact ⟨List.mem_of_find?_eq_some hfound, by simpa using List.find?_some hfound⟩
  isSome_key? {names given key} hname hgiven := by
    show (Lax.firstKey? names given).isSome
    rw [Lax.firstKey?, List.find?_isSome]
    exact ⟨key, hname, by simpa using hgiven⟩
  strays_eq {fields given} hsingle := by
    show Lax.unusedKeys fields given = _
    refine List.filter_congr fun key hkey => congrArg (! ·) ?_
    rw [Bool.eq_iff_iff, List.contains_iff_mem, List.mem_filterMap, List.any_eq_true]
    constructor
    · rintro ⟨names, hnames, hfirst⟩
      exact ⟨names, hnames, by simpa using List.mem_of_find?_eq_some hfirst⟩
    · rintro ⟨names, hnames, hname⟩
      -- the first key that is given is the only one
      have hsome : (Lax.firstKey? names given).isSome := by
        rw [Lax.firstKey?, List.find?_isSome]
        exact ⟨key, by simpa using hname, by simpa using hkey⟩
      obtain ⟨first, hfirst⟩ := Option.isSome_iff_exists.mp hsome
      have hmem := List.mem_of_find?_eq_some hfirst
      have hgiven : first ∈ given := by simpa using List.find?_some hfirst
      rw [hsingle names hnames first hmem key (by simpa using hname) hgiven hkey] at hfirst
      exact ⟨names, hnames, hfirst⟩

end Options

/-! ## Loading -/

namespace ReaderOptions

open Options (Checker field of_field readNat)

variable {c : Checker} {given : Entries Setting} {o : ReaderOptions} {projection : Projection}

theorem of_checkLevels {o' : ReaderOptions} (h : checkLevels o' = .ok o) :
    o' = o ∧ ∀ f, o.flattenLevel = some f → o.dataLevel ≤ f := by
  unfold checkLevels at h
  split at h
  · next hf =>
    cases h
    exact ⟨rfl, by simp [hf]⟩
  · next f hf =>
    split at h
    · cases h
    · next hle =>
      cases h
      refine ⟨rfl, fun g hg => ?_⟩
      rw [hf] at hg
      cases hg
      exact Nat.not_lt.mp hle

/-- Options that were loaded, field by field. -/
theorem of_loadWith (h : loadWith c projection given = .ok o) :
    o.projection = projection ∧ (∀ f, o.flattenLevel = some f → o.dataLevel ≤ f) ∧
      field c ["dataLevel", "data_level"] 2 (loose (readNat c 1)) given = .ok o.dataLevel ∧
      field c ["batch_size"] 4096 (loose (readNat c 1)) given = .ok o.batchSize ∧
      field c ["pin_schema"] false (loose c.truth) given = .ok o.pinSchema := by
  unfold loadWith at h
  simp only at h
  split at h
  · next hd _ _ _ hb hp _ _ _ =>
    obtain ⟨rfl, hlevels⟩ := of_checkLevels h
    exact ⟨rfl, hlevels, hd, hb, hp⟩
  · cases h

theorem of_load (h : load c given = .ok o) :
    loadProjection given = .ok o.projection ∧ loadWith c o.projection given = .ok o := by
  unfold load at h
  split at h
  · cases h
  · next projection hp =>
    have hsame : o.projection = projection := (of_loadWith h).1
    rw [hsame]
    exact ⟨hp, h⟩

theorem le_of_loose_readNat {least n : Nat} {s : Setting} (h : loose (readNat c least) s = .ok n) :
    least ≤ n := by
  cases s with
  | value v => exact Options.le_of_readNat h
  | projection p => exact Options.le_of_readNat h

/-- **Loaded options are valid.** -/
theorem valid_of_load (h : load c given = .ok o) : o.Valid := by
  obtain ⟨-, hlevels, hd, hb, -⟩ := of_loadWith (of_load h).2
  refine ⟨⟨?_, hlevels⟩, ?_⟩
  · exact of_field (by decide) (fun _ _ => le_of_loose_readNat) hd
  · exact of_field (by decide) (fun _ _ => le_of_loose_readNat) hb

/-- An option that says whether one schema serves all batches is followed. -/
theorem pinSchema_of_load (hc : c.Lawful) {b : Bool}
    (hgiven : Entries.get? "pin_schema" given = some (.value (.bool b)))
    (h : load c given = .ok o) : o.pinSchema = b := by
  obtain ⟨-, -, -, -, hpin⟩ := of_loadWith (of_load h).2
  have hread : loose c.truth (.value (.bool b)) = .ok b := hc.truth_bool b
  simp only [field, Options.given?_single hc, hgiven, Option.map_some, hread] at hpin
  exact (Except.ok.inj hpin).symm

end ReaderOptions

end Tabular
