import Mathlib.Data.List.Basic
import Tabular.Proofs.Schema.Growth
import Tabular.Proofs.Value.Reach
import Tabular.Reader.Basic

/-!
# Records in the shape of a schema

The columns of a schema, grouped into trees again, are its shapes, and a padded record has at every
path what the record has there, unless the kind at that path is another one.

* `Shape.branches`, **`branches_columns`**: the trees of the columns of shapes;
* `get?_padWith`: a name in a padded record;
* `Shows`, `shows_pad`, **`follow_padWith`**: a path in a padded record.
-/

namespace Tabular

namespace Shape

theorem induction {motive : List Shape → Prop} (nil : motive [])
    (scalar : ∀ name seen rest, motive rest → motive (.scalar name seen :: rest))
    (map : ∀ name seen shapes rest, motive shapes → motive rest →
      motive (.map name seen shapes :: rest)) (ss : List Shape) : motive ss := by
  refine Shape.rec_1 (motive_1 := fun s => ∀ rest, motive rest → motive (s :: rest))
    (motive_2 := motive) ?_ ?_ nil ?_ ss
  · intro name seen rest h
    exact scalar name seen rest h
  · intro name seen shapes hs rest hr
    exact map name seen shapes rest hs hr
  · intro s rest hs hr
    exact hs rest hr

/-- The induction over what shapes hold. -/
theorem induction_below {motive : List Shape → Prop}
    (below : ∀ ss, (∀ s ∈ ss, motive s.shapes) → motive ss) (ss : List Shape) : motive ss := by
  refine below ss ?_
  induction ss using Shape.induction with
  | nil => exact fun s hs => by cases hs
  | scalar name seen rest ih =>
    intro s hs
    rcases List.mem_cons.mp hs with rfl | hs
    · exact below [] fun t ht => by cases ht
    · exact ih s hs
  | map name seen shapes rest ihShapes ihRest =>
    intro s hs
    rcases List.mem_cons.mp hs with rfl | hs
    · exact below shapes ihShapes
    · exact ihRest s hs

/-! ## Trees of columns -/

mutual

/-- The column of a shape, above those of the shapes that it holds. -/
def branchIn (rows : Nat) (above : Path) : Shape → Branch
  | .scalar n s => .node ⟨above ++ [n], .scalar, !isRequired rows (above ++ [n]) .scalar s⟩ []
  | .map n s ss =>
    .node ⟨above ++ [n], .map, !isRequired rows (above ++ [n]) .map s⟩
      (branches rows (above ++ [n]) ss)

/-- The columns of shapes as trees. -/
def branches (rows : Nat) (above : Path) : List Shape → List Branch
  | [] => []
  | s :: rest => branchIn rows above s :: branches rows above rest

end

variable {rows : Nat} {above : Path} {s : Shape} {ss : List Shape} {name : String}

/-- The path of a column leads through the name of a shape. -/
theorem path_of_mem_columns {c : Column} (h : c ∈ columns rows above ss) :
    ∃ name rest, name ∈ ss.map Shape.name ∧ c.path = above ++ name :: rest := by
  induction ss using Shape.induction generalizing above with
  | nil => cases h
  | scalar n k rest ih =>
    rcases List.mem_append.mp h with h | h
    · cases List.mem_singleton.mp h
      exact ⟨n, [], List.mem_cons_self, rfl⟩
    · obtain ⟨m, path, hm, hp⟩ := ih h
      exact ⟨m, path, List.mem_cons_of_mem _ hm, hp⟩
  | map n k inner rest ihInner ihRest =>
    rcases List.mem_append.mp h with h | h
    · rcases List.mem_cons.mp h with rfl | h
      · exact ⟨n, [], List.mem_cons_self, rfl⟩
      · obtain ⟨m, path, _, hp⟩ := ihInner h
        exact ⟨n, m :: path, List.mem_cons_self, by rw [hp, List.append_assoc]; rfl⟩
    · obtain ⟨m, path, hm, hp⟩ := ihRest h
      exact ⟨m, path, List.mem_cons_of_mem _ hm, hp⟩

theorem named?_of_mem (h : (ss.map Shape.name).Nodup) (hs : s ∈ ss) :
    named? s.name ss = some s := by
  induction ss with
  | nil => cases hs
  | cons a rest ih =>
    rw [List.map_cons, List.nodup_cons] at h
    rw [named?_cons]
    rcases List.mem_cons.mp hs with rfl | hs
    · exact if_pos rfl
    · rw [if_neg, ih h.2 hs]
      intro ha
      exact h.1 (ha ▸ List.mem_map_of_mem hs)

end Shape

namespace Snapshot

/-- Columns as they are seen from a level. -/
def seenAt (level : Nat) (cs : List Column) : List (Path × Column) :=
  cs.map fun c => (c.path.drop level, c)

theorem seenAt_append (level : Nat) (cs later : List Column) :
    seenAt level (cs ++ later) = seenAt level cs ++ seenAt level later :=
  List.map_append

theorem seenFrom_nil (s : Snapshot) : s.seenFrom [] = seenAt 0 s.columns := by
  rw [seenFrom, seenAt, ← List.filterMap_eq_map]
  rfl

theorem seenBelow_append (name : String) (seen later : List (Path × Column)) :
    seenBelow name (seen ++ later) = seenBelow name seen ++ seenBelow name later :=
  List.filterMap_append

theorem length_path_le_depth {s : Snapshot} {c : Column} (hc : c ∈ s.columns) :
    c.path.length ≤ s.depth := by
  suffices h : ∀ (cs : List Column) (n : Nat),
      n ≤ cs.foldl (fun n c => max n c.path.length) n ∧
        ∀ c ∈ cs, c.path.length ≤ cs.foldl (fun n c => max n c.path.length) n from
    (h s.columns 0).2 c hc
  intro cs
  induction cs with
  | nil => exact fun n => ⟨Nat.le_refl n, fun c hc => by cases hc⟩
  | cons a rest ih =>
    intro n
    obtain ⟨hn, hrest⟩ := ih (max n a.path.length)
    refine ⟨Nat.le_trans (Nat.le_max_left _ _) hn, fun c hc => ?_⟩
    rcases List.mem_cons.mp hc with rfl | hc
    · exact Nat.le_trans (Nat.le_max_right _ _) hn
    · exact hrest c hc

end Snapshot

namespace Shape

open Snapshot (seenAt seenBelow grow seenAt_append seenBelow_append)

variable {rows : Nat} {above : Path} {ss : List Shape} {name : String}

/-- No column lies below a name that is no shape's. -/
theorem seenBelow_of_not_mem (h : name ∉ ss.map Shape.name) :
    seenBelow name (seenAt above.length (columns rows above ss)) = [] := by
  rw [seenBelow, List.filterMap_eq_nil_iff]
  intro e he
  obtain ⟨c, hc, rfl⟩ := List.mem_map.mp he
  obtain ⟨n, rest, hn, hp⟩ := path_of_mem_columns hc
  rw [hp, List.drop_left]
  cases rest with
  | nil => rfl
  | cons m rest =>
    refine if_neg ?_
    rintro rfl
    exact h hn

/-- The columns below the name of a shape are those of the shapes that it holds. -/
theorem seenBelow_columnsIn (s : Shape) :
    seenBelow s.name (seenAt above.length (columnsIn rows above s)) =
      seenAt (above.length + 1) (columns rows (above ++ [s.name]) s.shapes) := by
  cases s with
  | scalar n k =>
    simp [columnsIn, seenAt, seenBelow, Shape.shapes, columns]
  | map n k inner =>
    have hhead : (above ++ [n]).drop above.length = [n] := List.drop_left
    simp only [columnsIn, seenAt, seenBelow, List.map_cons, List.filterMap_cons, hhead, Shape.name,
      Shape.shapes]
    rw [List.filterMap_map, ← List.filterMap_eq_map]
    refine List.filterMap_congr fun c hc => ?_
    obtain ⟨m, rest, _, hp⟩ := path_of_mem_columns hc
    have hdrop : (above ++ [n] ++ m :: rest).drop (above.length + 1) = m :: rest := by
      rw [show above.length + 1 = (above ++ [n]).length by simp, List.drop_left]
    simp only [Function.comp_apply, hp, hdrop]
    rw [List.append_assoc, List.drop_left]
    exact if_pos rfl

theorem seenBelow_columns (h : Distinct ss) {s : Shape} (hs : named? name ss = some s) :
    seenBelow name (seenAt above.length (columns rows above ss)) =
      seenAt (above.length + 1) (columns rows (above ++ [name]) s.shapes) := by
  induction ss with
  | nil => cases hs
  | cons a rest ih =>
    rw [columns, seenAt_append, seenBelow_append]
    rw [named?_cons] at hs
    split at hs
    · next ha =>
      cases hs
      subst ha
      rw [seenBelow_columnsIn, seenBelow_of_not_mem h.1, List.append_nil]
    · next ha =>
      have hone : seenBelow name (seenAt above.length (columnsIn rows above a)) = [] := by
        have hfree : name ∉ [a].map Shape.name := by simpa using Ne.symm ha
        have hsingle : seenBelow name (seenAt above.length (columns rows above [a])) = [] :=
          seenBelow_of_not_mem hfree
        rwa [columns, columns, List.append_nil] at hsingle
      rw [hone, List.nil_append, ih h.2.2 hs]

/-- The tree of a column that is one name away. -/
def sprout (depth : Nat) (seen : List (Path × Column)) (e : Path × Column) : Option Branch :=
  match e.1 with
  | [name] => some (.node e.2 (if e.2.kind = .map then grow depth (seenBelow name seen) else []))
  | _ => none

theorem grow_succ (depth : Nat) (seen : List (Path × Column)) :
    grow (depth + 1) seen = seen.filterMap (sprout depth seen) := rfl

/-- A shape sprouts into its tree where the columns below it do. -/
theorem sprout_columnsIn {depth : Nat} {seen : List (Path × Column)} (s : Shape)
    (h : grow depth (seenBelow s.name seen) = branches rows (above ++ [s.name]) s.shapes) :
    (seenAt above.length (columnsIn rows above s)).filterMap (sprout depth seen) =
      [branchIn rows above s] := by
  have hhead : (above ++ [s.name]).drop above.length = [s.name] := List.drop_left
  cases s with
  | scalar n k =>
    rw [Shape.name] at hhead
    simp [columnsIn, seenAt, hhead, sprout, branchIn]
  | map n k inner =>
    rw [Shape.name] at hhead
    have hbelow : (columns rows (above ++ [n]) inner).filterMap
        (sprout depth seen ∘ fun c => (c.path.drop above.length, c)) = [] := by
      refine List.filterMap_eq_nil_iff.mpr fun c hc => ?_
      obtain ⟨m, rest, _, hp⟩ := path_of_mem_columns hc
      rw [Function.comp_apply, hp, List.append_assoc, List.drop_left]
      rfl
    have hgrow : grow depth (seenBelow n seen) = branches rows (above ++ [n]) inner := h
    rw [columnsIn, seenAt, List.map_cons, List.filterMap_cons, hhead, List.filterMap_map, hbelow]
    simp only [sprout, if_pos, hgrow, branchIn]

/-- Shapes sprout into their trees where the columns below each of them do. -/
theorem sprout_columns {depth : Nat} {seen : List (Path × Column)}
    (h : ∀ s ∈ ss, grow depth (seenBelow s.name seen) =
      branches rows (above ++ [s.name]) s.shapes) :
    (seenAt above.length (columns rows above ss)).filterMap (sprout depth seen) =
      branches rows above ss := by
  induction ss with
  | nil => rfl
  | cons s rest ih =>
    rw [columns, seenAt_append, List.filterMap_append, sprout_columnsIn s (h s List.mem_cons_self),
      ih fun t ht => h t (List.mem_cons_of_mem s ht)]
    rfl

theorem mem_columns_of_mem {s : Shape} {c : Column} (hs : s ∈ ss) (hc : c ∈ columnsIn rows above s) :
    c ∈ columns rows above ss := by
  induction ss with
  | nil => cases hs
  | cons a rest ih =>
    rcases List.mem_cons.mp hs with rfl | hs
    · exact List.mem_append_left _ hc
    · exact List.mem_append_right _ (ih hs)

/-- The columns that are one name away, as trees. -/
theorem grow_columns (h : Distinct ss) {depth : Nat}
    (hd : ∀ c ∈ columns rows above ss, c.path.length ≤ above.length + depth) :
    grow depth (seenAt above.length (columns rows above ss)) = branches rows above ss := by
  induction depth generalizing above ss with
  | zero =>
    cases ss with
    | nil => rfl
    | cons s rest =>
      have hmem : ∃ c, c ∈ columnsIn rows above s ∧ c.path = above ++ [s.name] := by
        cases s with
        | scalar n k => exact ⟨_, List.mem_singleton_self _, rfl⟩
        | map n k inner => exact ⟨_, List.mem_cons_self, rfl⟩
      obtain ⟨c, hc, hp⟩ := hmem
      have hlen := hd c (List.mem_append_left _ hc)
      rw [hp, List.length_append, List.length_singleton] at hlen
      omega
  | succ depth ih =>
    have hbelow : ∀ s ∈ ss, grow depth (seenBelow s.name (seenAt above.length
        (columns rows above ss))) = branches rows (above ++ [s.name]) s.shapes := by
      intro s hs
      have hn := named?_of_mem h.nodup hs
      have hlevel : above.length + 1 = (above ++ [s.name]).length := by simp
      rw [seenBelow_columns h hn, hlevel]
      refine ih (h.named? hn) fun c hc => ?_
      rw [← hlevel, Nat.add_assoc, Nat.add_comm 1]
      refine hd c (mem_columns_of_mem hs ?_)
      cases s with
      | scalar n k => cases hc
      | map n k inner => exact List.mem_cons_of_mem _ hc
    rw [grow_succ, sprout_columns hbelow]

/-- **The columns of shapes are their trees.** -/
theorem branches_columns (h : Distinct ss) :
    (⟨columns rows [] ss⟩ : Snapshot).branches = branches rows [] ss := by
  rw [Snapshot.branches, Snapshot.seenFrom_nil]
  show grow _ (seenAt ([] : Path).length (columns rows [] ss)) = _
  refine grow_columns h fun c hc => ?_
  rw [List.length_nil, Nat.zero_add]
  exact Snapshot.length_path_le_depth (s := ⟨columns rows [] ss⟩) hc

end Shape

/-! ## Padded records -/

namespace Entries

/-- Entries under distinct keys are a map already. -/
theorem ofPairs_of_nodup {α : Type} {pairs : Entries α} (h : (keys pairs).Nodup) :
    ofPairs pairs = pairs :=
  putAll_of_disjoint h fun _ _ => List.not_mem_nil

end Entries

namespace Shape

variable {rows : Nat} {above : Path} {ss : List Shape} {name : String} {source : Entries Value}

theorem name_branchIn (s : Shape) : (branchIn rows above s).column.name = s.name := by
  cases s <;> simp [branchIn, Branch.column, Column.name, Shape.name]

theorem padAll_branches (source : Entries Value) (ss : List Shape) :
    Branch.padAll source (branches rows above ss) =
      ss.map fun s => (s.name, Branch.pad source (branchIn rows above s)) := by
  induction ss with
  | nil => rfl
  | cons s rest ih => rw [branches, Branch.padAll, ih, name_branchIn, List.map_cons]

theorem get?_map_named? {α : Type} (g : Shape → α) (name : String) (ss : List Shape) :
    Entries.get? name (ss.map fun s => (s.name, g s)) = (named? name ss).map g := by
  induction ss with
  | nil => rfl
  | cons s rest ih =>
    rw [List.map_cons, Entries.get?, named?_cons, ih]
    split <;> rfl

/-- **A name in a padded record.** -/
theorem get?_padWith (h : Distinct ss) (source : Entries Value) (name : String) :
    Entries.get? name (Snapshot.padWith (branches rows above ss) source) =
      (named? name ss).map fun s => Branch.pad source (branchIn rows above s) := by
  have hkeys : (Entries.keys (Branch.padAll source (branches rows above ss))).Nodup := by
    rw [padAll_branches, Entries.keys, List.map_map]
    exact h.nodup
  rw [Snapshot.padWith, Entries.ofPairs_of_nodup hkeys, padAll_branches]
  exact get?_map_named? (fun s => Branch.pad source (branchIn rows above s)) name ss

theorem pad_scalar (n : String) (seen : Nat) (source : Entries Value) :
    Branch.pad source (branchIn rows above (.scalar n seen)) =
      if ((Entries.get? n source).getD .null).isMap then .null
      else (Entries.get? n source).getD .null := by
  simp [branchIn, Branch.pad, Column.name]

theorem pad_map (n : String) (seen : Nat) (inner : List Shape) (source : Entries Value) :
    Branch.pad source (branchIn rows above (.map n seen inner)) =
      if ((Entries.get? n source).getD .null).isMap || above ++ [n] == attributesPath then
        .map (Snapshot.padWith (branches rows (above ++ [n]) inner)
          ((Entries.get? n source).getD .null).entries)
      else .null := by
  simp [branchIn, Branch.pad, Column.name, Snapshot.padWith]

end Shape

/-- What a padded record has at a path of some kind where the record has a value: that value if it
is of this kind, and otherwise null, except that attributes are a map. -/
def Shows (kind : Option Kind) (path : Path) (given shown : Value) : Prop :=
  match kind with
  | none => shown = .null
  | some .scalar => shown = if given.isMap then .null else given
  | some .map => if given.isMap || path == attributesPath then shown.isMap = true else shown = .null

theorem shows_null (kind : Option Kind) {path : Path} (hp : path ≠ attributesPath) :
    Shows kind path .null .null := by
  cases kind with
  | none => rfl
  | some kind =>
    cases kind with
    | scalar => rfl
    | map =>
      rw [Shows, if_neg (by simpa [Value.isMap] using hp)]

theorem Shows.null {kind : Option Kind} {path : Path} {shown : Value} (hp : path ≠ attributesPath)
    (h : Shows kind path .null shown) : shown = .null := by
  cases kind with
  | none => exact h
  | some kind =>
    cases kind with
    | scalar => exact h
    | map => exact (if_neg (by simpa [Value.isMap] using hp)).mp h

/-- The padded value of a shape, below which the path ends. -/
theorem shows_pad {rows : Nat} (above : Path) (source : Entries Value) (s : Shape) :
    Shows (some s.kind) (above ++ [s.name]) ((Entries.get? s.name source).getD .null)
      (Branch.pad source (Shape.branchIn rows above s)) := by
  cases s with
  | scalar n k =>
    rw [Shape.pad_scalar]
    rfl
  | map n k inner =>
    rw [Shape.pad_map, Shape.name, Shape.kind, Shows]
    split
    · rfl
    · rfl

/-- **A path in a padded record.** -/
theorem follow_padWith {rows : Nat} {ss : List Shape} {path : Path} (h : Shape.Distinct ss)
    (hp : path ≠ []) (above : Path) (source : Entries Value) :
    Shows (Shape.kindAt path ss) (above ++ path) ((Value.map source).follow path)
      ((Value.map (Snapshot.padWith (Shape.branches rows above ss) source)).follow path) := by
  induction path generalizing above ss source with
  | nil => exact absurd rfl hp
  | cons n rest ih =>
    show Shows _ _ (((Entries.get? n source).getD .null).follow rest)
      (((Entries.get? n (Snapshot.padWith _ source)).getD .null).follow rest)
    rw [Shape.get?_padWith h]
    cases hn : Shape.named? n ss with
    | none =>
      rw [Shape.kindAt_of_named?_none hn, Option.map_none]
      exact Value.follow_null rest
    | some s =>
      obtain rfl : s.name = n := Shape.name_of_named? hn
      rw [Option.map_some, Option.getD_some]
      by_cases hr : rest = []
      · subst hr
        rw [Shape.kindAt_singleton, hn]
        exact shows_pad above source s
      · rw [Shape.kindAt_cons hr, hn, Option.bind_some]
        have hlong : above ++ s.name :: rest ≠ attributesPath := by
          obtain ⟨m, rest, rfl⟩ := List.exists_cons_of_ne_nil hr
          intro heq
          have := congrArg List.length heq
          rw [List.length_append] at this
          simp [attributesPath] at this
          omega
        cases s with
        | scalar n k =>
          rw [Shape.name, Shape.pad_scalar, Shape.shapes, Shape.kindAt_nil]
          refine Value.follow_of_not_isMap hr ?_
          split
          · rfl
          · next hm => simpa using hm
        | map n k inner =>
          rw [Shape.name] at hlong
          rw [Shape.name, Shape.pad_map]
          split
          · have hi := ih (h.named? hn) hr (above ++ [n]) ((Entries.get? n source).getD .null).entries
            rw [Value.follow_entries hr, List.append_assoc] at hi
            exact hi
          · next hm =>
            rw [Bool.or_eq_true, not_or, Bool.not_eq_true] at hm
            rw [Value.follow_of_not_isMap hr hm.1, Value.follow_null]
            exact shows_null _ hlong

end Tabular
