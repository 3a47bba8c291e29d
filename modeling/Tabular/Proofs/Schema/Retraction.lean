import Tabular.Proofs.Schema.Conform

/-!
# Padding is a retraction

The records in the shape of a snapshot are those that padding leaves as they are, and padding brings
every record there.

* `Shape.Exact`: a record with just the names of some shapes, and values of their kinds;
* **`padWith_eq_self`**: such a record is left as it is;
* `exact_of_inShape`, **`pad_eq_self_iff`**: the records in the shape of a snapshot are these;
* **`pad_retracts`**: padding under the snapshot of any rows.
-/

namespace Tabular

/-- Entries under distinct keys are told by their keys and the values there. -/
theorem Entries.map_keys_of_nodup {α : Type} {es : Entries α} (h : (Entries.keys es).Nodup)
    (default : α) :
    (Entries.keys es).map (fun key => (key, (Entries.get? key es).getD default)) = es := by
  induction es with
  | nil => rfl
  | cons e rest ih =>
    rw [Entries.keys, List.map_cons, List.nodup_cons] at h
    have hrest : ∀ key ∈ Entries.keys rest,
        Entries.get? key (e :: rest) = Entries.get? key rest := by
      intro key hkey
      refine if_neg ?_
      rintro rfl
      exact h.1 hkey
    have hsame : (Entries.keys rest).map
        (fun key => (key, (Entries.get? key (e :: rest)).getD default)) = rest := by
      refine Eq.trans (List.map_congr_left fun key hkey => ?_) (ih h.2)
      rw [hrest key hkey]
    rw [Entries.keys, List.map_cons, List.map_cons]
    refine congrArg₂ List.cons ?_ hsame
    rw [Entries.get?, if_pos rfl]
    rfl

namespace Shape

variable {rows : Nat} {above path : Path} {ss below : List Shape} {s : Shape} {name : String}
  {seen : Nat} {es inside : Entries Value}

/-- What stands below a path is what the shape there holds. -/
theorem under_of_find? (h : find? path ss = some s) : under path ss = s.shapes := by
  induction path generalizing ss with
  | nil => cases h
  | cons n rest ih =>
    rw [find?_cons] at h
    rw [under]
    by_cases hr : rest = []
    · subst hr
      rw [if_pos rfl] at h
      rw [h]
      rfl
    · rw [if_neg hr] at h
      exact ih h

/-! ## Records with just the names of shapes -/

/-- A record with just the names of some shapes at every level. It has a map or null at a map, and
no map at a text. The attributes are not null. -/
structure Exact (above : Path) (ss : List Shape) (es : Entries Value) : Prop where
  names : Entries.keys es = ss.map Shape.name
  maps : ∀ path s, find? path ss = some s → s.kind = .map →
    above ++ path ≠ attributesPath ∧ (Value.map es).follow path = .null ∨
      ∃ inside, (Value.map es).follow path = .map inside ∧
        Entries.keys inside = s.shapes.map Shape.name
  texts : ∀ path s, find? path ss = some s → s.kind = .scalar →
    ((Value.map es).follow path).isMap = false

/-- The same holds of the record inside. -/
theorem Exact.inner (h : Exact above ss es) (hn : named? name ss = some (.map name seen below))
    (hes : (Entries.get? name es).getD .null = .map inside) :
    Exact (above ++ [name]) below inside where
  names := by
    have hself := h.maps [name] _ hn rfl
    rw [show (Value.map es).follow [name] = .map inside from hes] at hself
    obtain ⟨-, hnull⟩ | ⟨_, hinside, hkeys⟩ := hself
    · cases hnull
    · cases hinside
      exact hkeys
  maps path s hs hk := by
    have hp : path ≠ [] := by
      rintro rfl
      cases hs
    have hdeep := h.maps (name :: path) s (by rw [find?_cons, if_neg hp, hn]; exact hs) hk
    rw [Value.follow, Value.entries, hes] at hdeep
    rwa [List.append_assoc, List.singleton_append]
  texts path s hs hk := by
    have hp : path ≠ [] := by
      rintro rfl
      cases hs
    have hdeep := h.texts (name :: path) s (by rw [find?_cons, if_neg hp, hn]; exact hs) hk
    rwa [Value.follow, Value.entries, hes] at hdeep

/-- **A record with just the names of some shapes** is left as it is. -/
theorem padWith_eq_self (hd : Distinct ss) (h : Exact above ss es) :
    Snapshot.padWith (branches rows above ss) es = es := by
  induction ss using Shape.induction_below generalizing above es with
  | below ss ih =>
    have hvalue : ∀ s ∈ ss, Branch.pad es (branchIn rows above s) =
        (Entries.get? s.name es).getD .null := by
      intro s hs
      have hn := named?_of_mem hd.nodup hs
      cases s with
      | scalar n k =>
        have htext : ((Entries.get? n es).getD .null).isMap = false := h.texts [n] _ hn rfl
        rw [pad_scalar, htext]
        exact if_neg Bool.false_ne_true
      | map n k inner =>
        rw [Shape.name] at hn ⊢
        rw [pad_map]
        obtain ⟨hattr, hnull⟩ | ⟨inside, hinside, -⟩ := h.maps [n] _ hn rfl
        · have hnull : (Entries.get? n es).getD .null = .null := hnull
          rw [hnull, if_neg (by simpa [Value.isMap] using hattr)]
        · have hinside : (Entries.get? n es).getD .null = .map inside := hinside
          rw [hinside, if_pos (by rfl)]
          exact congrArg Value.map (ih _ hs (hd.named? hn) (h.inner hn hinside))
    have hkeys : (Entries.keys es).Nodup := by
      rw [h.names]
      exact hd.nodup
    have hpairs : Branch.padAll es (branches rows above ss) = es :=
      calc Branch.padAll es (branches rows above ss)
          = ss.map fun s => (s.name, (Entries.get? s.name es).getD .null) := by
            rw [padAll_branches]
            exact List.map_congr_left fun s hs => congrArg (Prod.mk s.name) (hvalue s hs)
        _ = (Entries.keys es).map fun key => (key, (Entries.get? key es).getD .null) := by
            rw [h.names, List.map_map]
            rfl
        _ = es := Entries.map_keys_of_nodup hkeys .null
    rw [Snapshot.padWith, hpairs, Entries.ofPairs_of_nodup hkeys]

end Shape

/-! ## Padding under a snapshot -/

namespace RowSchema

variable {p : Projection} {rows : List Row} {record : Entries Value}

/-- The shapes of a schema tell the columns of its snapshot. -/
theorem exact_of_inShape (h : (snapshotAfter p rows).InShape record) :
    Shape.Exact [] ((start p).foldAll rows).1.held record := by
  have hd := distinct_after p rows
  have hcolumn : ∀ {path s}, Shape.find? path ((start p).foldAll rows).1.held = some s →
      Shape.columnAt ((start p).foldAll rows).1.rows path s ∈ (snapshotAfter p rows).columns :=
    fun hs => (mem_columns_snapshot hd).mpr ⟨_, hs, rfl⟩
  refine ⟨?_, fun path s hs hk => ?_, fun path s hs hk => h.texts _ (hcolumn hs) hk⟩
  · rw [h.names]
    exact names_snapshot hd
  · have hnames : ((snapshotAfter p rows).children path).map Column.name =
        s.shapes.map Shape.name := by
      rw [snapshotAfter, names_children_snapshot hd, Shape.under_of_find? hs]
    rw [← hnames]
    exact h.maps _ (hcolumn hs) hk

/-- **The records that padding leaves as they are** are those in the shape of the snapshot. -/
theorem pad_eq_self_iff :
    (snapshotAfter p rows).pad record = record ↔ (snapshotAfter p rows).InShape record := by
  constructor
  · intro h
    rw [← h]
    exact inShape_pad p rows record
  · intro h
    rw [pad_snapshotAfter]
    exact Shape.padWith_eq_self (distinct_held (distinct_after p rows)) (exact_of_inShape h)

/-- **Padding is a retraction** onto the records in the shape of a snapshot. It brings every value
there, shows what the value has at the path of each column if it is of the column's kind, and leaves
a record as it is just if it is in this shape. -/
theorem pad_retracts (p : Projection) (rows : List Row) :
    let s := snapshotAfter p rows
    (∀ given : Value, s.InShape (s.pad given.entries) ∧
      (∀ c ∈ s.columns, Shows (some c.kind) c.path (given.follow c.path)
        ((Value.map (s.pad given.entries)).follow c.path)) ∧
      s.pad (s.pad given.entries) = s.pad given.entries) ∧
    ∀ record, s.pad record = record ↔ s.InShape record := by
  refine ⟨fun given => ⟨inShape_pad p rows _, fun c hc => ?_,
    pad_eq_self_iff.mpr (inShape_pad p rows _)⟩, fun record => pad_eq_self_iff⟩
  rw [← Value.follow_entries (kindAt_of_mem_columns hc).1]
  exact shows_pad hc _

end RowSchema

end Tabular
