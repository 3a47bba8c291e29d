import Tabular.Proofs.Reader.Sealed
import Tabular.Proofs.Schema.Apart
import Tabular.Proofs.Schema.Pad

/-!
# Later schemas cover earlier rows

What a record has at a path is something that the column there can hold, in the schema after its
row and in every later one. So padding adds nulls only, and a second padding sees nothing of the
first.

* `Kind.Bears`, `Shape.Carries`, **`carries_absorb`**: records whose values their shapes can hold;
* **`padded_padWith`**: such a record loses nothing when it is padded;
* **`padWith_of_padded`**: added nulls are not seen by padding;
* **`pad_covers`**: both, for the records of one schema and its snapshots.
-/

namespace Tabular

/-- A column of some kind can hold the value: null, or a map just in a map. -/
def Kind.Bears : Kind → Value → Prop
  | .scalar, v => v.isMap = false
  | .map, v => v.isMap = true ∨ v = .null

theorem Kind.bears_null (kind : Kind) : kind.Bears .null := by
  cases kind with
  | scalar => rfl
  | map => exact Or.inr rfl

namespace Shape

open Tabular.Field (Agrees)

variable {rows : Nat} {above path : Path} {ss ss' : List Shape} {es es' : Entries Value}
  {fs : List Field} {name : String}

/-- Every value of a record is one that the shape at its path can hold. -/
def Carries (ss : List Shape) (es : Entries Value) : Prop :=
  ∀ path, path ≠ [] → ∀ v, (Value.map es).at? path = some v →
    ∃ kind, kindAt path ss = some kind ∧ kind.Bears v

theorem Carries.mono (h : Carries ss es) (hg : Grows ss ss') : Carries ss' es := by
  intro path hp v hv
  obtain ⟨kind, hkind, hbears⟩ := h path hp v hv
  exact ⟨kind, hg path kind hkind, hbears⟩

/-- **The record of some fields is carried by their shapes.** -/
theorem carries_absorb (hd : Field.Distinct fs) (row : Int) (above : Path) (ss : List Shape) :
    Carries (absorb row above ss fs).shapes (absorb row above ss fs).entries := by
  intro path hp v hv
  obtain ⟨htaken, hleft⟩ := at?_absorb hd row above ss hp
  rw [hv] at htaken hleft
  by_cases ha : Agrees (kindAt · ss) fs path
  · have hshows := htaken ha
    have hsome := ha.kindAt_ne_none hp
    rw [kindAt_absorb_of_agrees hd row above hp ha, Field.kindAt]
    rw [Field.kindAt] at hsome
    cases hf : Field.find? path fs with
    | none =>
      rw [hf] at hsome
      exact absurd rfl hsome
    | some f =>
      rw [hf] at hshows
      refine ⟨f.kind, rfl, ?_⟩
      cases f with
      | scalar n k text =>
        cases hshows
        exact isMap_ofText? text
      | map n k inner =>
        obtain ⟨entries, he⟩ := hshows
        cases he
        exact Or.inl rfl
  · -- a clash leaves a null under a kind that is known
    have hnull := hleft ha
    split at hnull
    · next hreached =>
      cases hnull
      obtain ⟨expected, found, hclash⟩ := (Field.exists_clashes_iff hp).mpr ⟨ha, hreached⟩
      have hexpects : kindAt path ss = some expected := hclash.expects
      rw [kindAt_absorb hd, hexpects]
      exact ⟨expected, rfl, expected.bears_null⟩
    · cases hnull

/-! ## Padding adds nulls -/

/-- Where attributes have a column, the record has a map for them. -/
def OpensAt (above : Path) (ss : List Shape) (es : Entries Value) : Prop :=
  ∀ name, above ++ [name] = attributesPath → (named? name ss).isSome = true →
    ∃ inner, Entries.get? name es = some (.map inner)

theorem opensAt_below (above : Path) (name : String) (ss : List Shape) (es : Entries Value) :
    OpensAt (above ++ [name]) ss es := by
  intro m hm
  have := congrArg List.length hm
  simp [attributesPath] at this

theorem Carries.inner {s : Shape} {inner : Entries Value} (h : Carries ss es)
    (hs : named? name ss = some s) (hv : Entries.get? name es = some (.map inner)) :
    Carries s.shapes inner := by
  intro path hp v hat
  have hbelow : (Value.map es).at? (name :: path) = some v := by
    rw [Value.at?_cons, hv]
    exact hat
  obtain ⟨kind, hkind, hbears⟩ := h (name :: path) (List.cons_ne_nil name path) v hbelow
  rw [kindAt_cons hp, hs] at hkind
  exact ⟨kind, hkind, hbears⟩

/-- What a record has at a path is kept. -/
theorem kept_padWith (h : Distinct ss) (hc : Carries ss es) (ho : OpensAt above ss es) {u : Value}
    (hu : (Value.map es).at? path = some u) :
    ∃ u', (Value.map (Snapshot.padWith (branches rows above ss) es)).at? path = some u' ∧
      Value.Keeps u u' := by
  induction path generalizing above ss es with
  | nil =>
    cases hu
    exact ⟨_, rfl, rfl, fun hm => by cases hm⟩
  | cons n rest ih =>
    rw [Value.at?_cons, Option.bind_eq_some_iff] at hu
    obtain ⟨v, hv, hrest⟩ := hu
    obtain ⟨kind, hkind, hbears⟩ := hc [n] (List.cons_ne_nil n []) v
      (by rw [Value.at?_cons, hv]; rfl)
    rw [kindAt_singleton, Option.map_eq_some_iff] at hkind
    obtain ⟨s, hs, rfl⟩ := hkind
    rw [Value.at?_cons, get?_padWith h, hs, Option.map_some, Option.bind_some]
    obtain rfl : s.name = n := name_of_named? hs
    cases s with
    | scalar n k =>
      replace hbears : v.isMap = false := hbears
      rw [name] at hv
      rw [pad_scalar, hv, Option.getD_some, if_neg (by rw [hbears]; exact Bool.false_ne_true)]
      exact ⟨u, hrest, .refl u⟩
    | map n k inner =>
      rw [Shape.name] at hv hs
      rw [pad_map, hv, Option.getD_some]
      rcases hbears with hm | rfl
      · cases v with
        | map below =>
          rw [if_pos (by rfl)]
          exact ih (h.named? hs) (hc.inner hs hv) (opensAt_below above n inner below) hrest
        | _ => cases hm
      · have hnot : above ++ [n] ≠ attributesPath := by
          intro hp
          obtain ⟨_, ho⟩ := ho n hp (by rw [hs]; rfl)
          rw [hv] at ho
          cases ho
        rw [if_neg (by simpa [Value.isMap] using hnot)]
        exact ⟨u, hrest, .refl u⟩

/-- **Padding adds nulls only.** -/
theorem padded_padWith (rows : Nat) (h : Distinct ss) (hc : Carries ss es) (ho : OpensAt [] ss es) :
    Value.Padded (.map es) (.map (Snapshot.padWith (branches rows [] ss) es)) where
  kept path u hu := kept_padWith h hc ho hu
  added path hnone := by
    have hp : path ≠ [] := by
      rintro rfl
      cases hnone
    have hshows : Shows (kindAt path ss) path ((Value.map es).follow path)
        ((Value.map (Snapshot.padWith (branches rows [] ss) es)).follow path) :=
      follow_padWith h hp [] es
    rw [Value.follow_eq, Value.follow_eq, hnone, Option.getD_none] at hshows
    have hnull : ((Value.map (Snapshot.padWith (branches rows [] ss) es)).at? path).getD .null =
        .null := by
      by_cases hattr : path = attributesPath
      · -- the record would have a map there
        have hfree : named? attributesName ss = none := by
          rw [← Option.not_isSome_iff_eq_none]
          intro hsome
          obtain ⟨inner, hinner⟩ := ho attributesName rfl hsome
          rw [hattr, attributesPath, Value.at?_cons, hinner] at hnone
          cases hnone
        rw [hattr, attributesPath, kindAt_of_named?_none hfree] at hshows
        rw [hattr]
        exact hshows
      · exact hshows.null hattr
    generalize (Value.map (Snapshot.padWith (branches rows [] ss) es)).at? path = shown at hnull ⊢
    cases shown with
    | none => exact Or.inl rfl
    | some v => exact Or.inr (congrArg some hnull)

/-! ## Padding does not see added nulls -/

/-- **Padding comes to the same** whether nulls were added before or not. -/
theorem padWith_of_padded (h : Value.Padded (.map es) (.map es')) (rows : Nat) (above : Path)
    (ss : List Shape) :
    Snapshot.padWith (branches rows above ss) es' =
      Snapshot.padWith (branches rows above ss) es := by
  induction ss using Shape.induction_below generalizing above es es' with
  | below ss ih =>
    rw [Snapshot.padWith, Snapshot.padWith, padAll_branches, padAll_branches]
    refine congrArg Entries.ofPairs (List.map_congr_left fun s hs => ?_)
    have hvalue := h.getD s.name
    obtain ⟨hmap, hsame⟩ := hvalue.keeps
    refine Prod.ext rfl ?_
    show Branch.pad es' (branchIn rows above s) = Branch.pad es (branchIn rows above s)
    cases s with
    | scalar n k =>
      rw [name] at hmap hsame
      rw [pad_scalar, pad_scalar, hmap]
      split
      · rfl
      · next hm => exact hsame (by simpa using hm)
    | map n k inner =>
      rw [Shape.name] at hmap hvalue
      rw [pad_map, pad_map, hmap]
      split
      · exact congrArg Value.map (ih _ hs hvalue.entries (above ++ [n]))
      · rfl

end Shape

/-! ## Schemas -/

/-- A request for attributes, or for something below them. -/
theorem Projection.wantsAttributes_of_mem_paths {p : Projection} {path : Path}
    (hpath : path ∈ p.paths) (h : path.head? = some attributesName) :
    p.wantsAttributes = true := by
  cases p with
  | all => rfl
  | columns requests =>
    refine List.any_eq_true.mpr ⟨path, hpath, ?_⟩
    cases path with
    | nil => cases h
    | cons n rest =>
      cases h
      simp [leadsTo, attributesPath]

namespace RowSchema

variable {p : Projection} {rows before : List Row} {row : Row}

/-- The attributes of the rows, key by key. -/
theorem kindAt_ofAttributes (hw : p.wantsAttributes = true) {key : String}
    (hrow : row ∈ rows) (hk : key ∈ Entries.keys row.attributes) (ss : List Shape) :
    Shape.kindAt [attributesName, key] (Shape.ofAttributes p rows ++ ss) = some .scalar := by
  have hmem : key ∈ rows.flatMap fun row => Entries.keys row.attributes :=
    List.mem_flatMap.mpr ⟨row, hrow, hk⟩
  have hkind := Shape.kindAt_foldl_touch key
    (rows.flatMap fun row => Entries.keys row.attributes) []
  rw [if_pos hmem] at hkind
  rw [Shape.ofAttributes, if_pos hw]
  exact hkind

/-- **The record of one more row** is carried by the schema after it. -/
theorem carries_fold_start (hr : Row.AllRegular before) (hrow : row.IsRegular) (p : Projection) :
    Shape.Carries (((start p).foldAll (before ++ [row])).1).shapes
      (((start p).foldAll before).1.fold row).record := by
  have hshapes := shapes_foldAll_start p (hr.concat hrow)
  intro path hp v hv
  rw [hshapes]
  by_cases hhead : path.head? = some attributesName
  · obtain ⟨rest, rfl⟩ : ∃ rest, path = attributesName :: rest := by
      cases path with
      | nil => cases hhead
      | cons n rest =>
        cases hhead
        exact ⟨rest, rfl⟩
    rw [Value.at?_cons, get?_attributes_record_start hr hrow, Option.bind_eq_some_iff] at hv
    obtain ⟨w, hw, hrest⟩ := hv
    obtain ⟨hwants, hw⟩ := Option.ite_none_right_eq_some.mp hw
    cases hw
    cases rest with
    | nil =>
      cases hrest
      rw [Shape.ofAttributes, if_pos hwants]
      exact ⟨.map, rfl, Or.inl rfl⟩
    | cons key more =>
      rw [Value.at?_cons, Option.bind_eq_some_iff] at hrest
      obtain ⟨text, htext, hmore⟩ := hrest
      obtain ⟨hkey, -, hmap⟩ := isMap_of_mem_attributeEntries (Entries.mem_of_get? htext)
      have hnil : more = [] := by
        by_contra hne
        rw [Value.at?_of_not_isMap hne hmap] at hmore
        cases hmore
      subst hnil
      cases hmore
      exact ⟨.scalar, kindAt_ofAttributes hwants (List.mem_append_right _
        (List.mem_singleton_self row)) hkey _, hmap⟩
  · rw [at?_record_start hr hrow p hp hhead] at hv
    rw [Shape.kindAt_ofAttributes_append hhead, Shape.ofRows_concat]
    exact Shape.carries_absorb hrow.distinct row.ordinal [] _ path hp v hv

/-- Where no attributes are asked for, room for the requested paths brings no shape for them. -/
theorem named?_held_foldAll (hw : p.wantsAttributes = false) (rows : List Row) :
    Shape.named? attributesName ((start p).foldAll rows).1.held =
      Shape.named? attributesName ((start p).foldAll rows).1.shapes := by
  refine Shape.named?_foldl_hold_of_head?_ne (fun path hpath hhead => ?_) _
  rw [projection_foldAll] at hpath
  have hwants : p.wantsAttributes = true := Projection.wantsAttributes_of_mem_paths hpath hhead
  rw [hw] at hwants
  cases hwants

/-- Without a projection for them there is no column for attributes. -/
theorem named?_held_attributes (hr : Row.AllRegular rows) (hw : p.wantsAttributes = false) :
    Shape.named? attributesName ((start p).foldAll rows).1.held = none := by
  rw [named?_held_foldAll hw, shapes_foldAll_start p hr, Shape.ofAttributes,
    if_neg (by rw [hw]; exact Bool.false_ne_true), List.nil_append]
  exact named?_ofRows_attributes hr

/-- Where attributes have a column every record has a map for them. -/
theorem opensAt_fold_start (hr : Row.AllRegular before) (hrow : row.IsRegular)
    (hrows : Row.AllRegular rows) (p : Projection) :
    Shape.OpensAt [] ((start p).foldAll rows).1.held
      (((start p).foldAll before).1.fold row).record := by
  intro name hname hsome
  obtain rfl : name = attributesName := List.singleton_inj.mp hname
  rw [get?_attributes_record_start hr hrow]
  cases hw : p.wantsAttributes with
  | true => exact ⟨_, if_pos rfl⟩
  | false =>
    rw [named?_held_attributes hrows hw] at hsome
    cases hsome

theorem pad_snapshot {s : RowSchema} (h : Shape.Distinct s.shapes) (record : Entries Value) :
    s.snapshot.pad record = Snapshot.padWith (Shape.branches s.rows [] s.held) record := by
  rw [Snapshot.pad, snapshot, Shape.branches_columns (distinct_held h)]

/-- **Later snapshots cover earlier rows.** Where one schema takes some rows, the snapshot after a
row or after any later one pads the record of the row with nulls only, and any snapshot brings the
padded record to what it brings the record itself to. -/
theorem pad_covers (p : Projection) {rows : List Row} (hr : Row.AllRegular rows) {i j : Nat}
    {record : Entries Value} (hi : ((start p).foldAll rows).2[i]? = some record) (hij : i < j)
    (k : Nat) :
    Value.Padded (.map record) (.map (((start p).foldAll (rows.take j)).1.snapshot.pad record)) ∧
      ((start p).foldAll (rows.take k)).1.snapshot.pad
          (((start p).foldAll (rows.take j)).1.snapshot.pad record) =
        ((start p).foldAll (rows.take k)).1.snapshot.pad record := by
  have hdistinct := fun n => distinct_foldAll (rows.take n) (distinct_start p)
  rw [getElem?_foldAll, Option.map_eq_some_iff] at hi
  obtain ⟨row, hrow, rfl⟩ := hi
  have hregular := hr.of_getElem? hrow
  have hcarries : Shape.Carries ((start p).foldAll (rows.take j)).1.held
      (((start p).foldAll (rows.take i)).1.fold row).record := by
    have hkept : (rows.take j)[i]? = some row := by
      rw [List.getElem?_take_of_lt hij]
      exact hrow
    have hgrows := grows_foldAll_of_getElem? (start p) hkept
    rw [List.take_take, Nat.min_eq_left (Nat.le_of_lt hij)] at hgrows
    exact (carries_fold_start (hr.take i) hregular p).mono (hgrows.trans (grows_held _))
  have hopens := opensAt_fold_start (hr.take i) hregular (hr.take j) p
  have hpadded := Shape.padded_padWith ((start p).foldAll (rows.take j)).1.rows
    (distinct_held (hdistinct j)) hcarries hopens
  rw [← pad_snapshot (hdistinct j)] at hpadded
  refine ⟨hpadded, ?_⟩
  rw [pad_snapshot (hdistinct k), pad_snapshot (hdistinct k)]
  exact Shape.padWith_of_padded hpadded _ _ _

/-- A requested column that is a map only in a later row, with a clash in the row before. -/
theorem pad_covers_placeholder :
    let p : Projection := .columns [["a", "b"], ["c"]]
    let rows := Scan.sealed { projection := p } {} [.start "t" [], .start "r" [], .start "a" [],
      .text "x", .finish "a", .finish "r", .start "r" [], .start "a" [], .start "b" [],
      .finish "b", .finish "a", .start "c" [], .start "d" [], .finish "d", .finish "c",
      .finish "r", .finish "t"]
    ∃ record, ((start p).foldAll rows).2[0]? = some record ∧
      Value.Padded (.map record) (.map (((start p).foldAll (rows.take 1)).1.snapshot.pad record)) ∧
        ((start p).foldAll (rows.take 2)).1.snapshot.pad
            (((start p).foldAll (rows.take 1)).1.snapshot.pad record) =
          ((start p).foldAll (rows.take 2)).1.snapshot.pad record :=
  ⟨_, rfl, pad_covers _ (Scan.isRegular_sealed _ _) rfl Nat.zero_lt_one 2⟩

end RowSchema

end Tabular
