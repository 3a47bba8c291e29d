import Tabular.Proofs.Row.Field
import Tabular.Schema.RowSchema

/-!
# Growing shapes

Shapes only grow: what is a text or a map at some path stays one, and no name comes twice.

* `Field.induction`, `Field.induction_below`: the inductions over fields and all they hold;
* `Shape.kindAt`, `Shape.Grows`: the kind at a path, and shapes that keep it;
* `Shape.Distinct`: every name comes once among its neighbours;
* **`Shape.IsGrowth`**, `IsGrowth.absorb`, `IsGrowth.fold`, `IsGrowth.foldl_hold`: what holds of more
  shapes at the end and of changed ones holds of every step;
* `isGrowth_grows`, `grows_absorb`: every step lets shapes grow;
* `kindAt_foldl_touch`, `named?_foldl_hold`: the attributes of rows, and room for some columns of the
  row element;
* **`distinct_absorb`**, `distinct_touch`, `distinct_hold`: and keeps the names distinct.
-/

namespace Tabular

theorem Field.induction {motive : List Field → Prop} (nil : motive [])
    (scalar : ∀ name handle value rest, motive rest → motive (.scalar name handle value :: rest))
    (map : ∀ name handle fields rest, motive fields → motive rest →
      motive (.map name handle fields :: rest)) (fs : List Field) : motive fs := by
  refine Field.rec_1 (motive_1 := fun f => ∀ rest, motive rest → motive (f :: rest))
    (motive_2 := motive) ?_ ?_ nil ?_ fs
  · intro name handle value rest h
    exact scalar name handle value rest h
  · intro name handle fields hf rest hr
    exact map name handle fields rest hf hr
  · intro f rest hf hr
    exact hf rest hr

/-- The induction over what fields hold. -/
theorem Field.induction_below {motive : List Field → Prop}
    (below : ∀ fs, (∀ f ∈ fs, motive f.fields) → motive fs) (fs : List Field) : motive fs := by
  refine below fs ?_
  induction fs using Field.induction with
  | nil => exact fun f hf => by cases hf
  | scalar name handle value rest ih =>
    intro f hf
    rcases List.mem_cons.mp hf with rfl | hf
    · exact below [] fun g hg => by cases hg
    · exact ih f hf
  | map name handle fields rest ihFields ihRest =>
    intro f hf
    rcases List.mem_cons.mp hf with rfl | hf
    · exact below fields ihFields
    · exact ihRest f hf

namespace Shape

variable {s new : Shape} {ss ss' : List Shape} {name key : String} {path : Path}

/-! ## Single shapes -/

@[simp] theorem name_again (s : Shape) : s.again.name = s.name := by
  cases s <;> rfl

@[simp] theorem kind_again (s : Shape) : s.again.kind = s.kind := by
  cases s <;> rfl

@[simp] theorem shapes_again (s : Shape) : s.again.shapes = s.shapes := by
  cases s <;> rfl

@[simp] theorem name_mapShapes (g : List Shape → List Shape) (s : Shape) :
    (s.mapShapes g).name = s.name := by
  cases s <;> rfl

@[simp] theorem kind_mapShapes (g : List Shape → List Shape) (s : Shape) :
    (s.mapShapes g).kind = s.kind := by
  cases s <;> rfl

/-! ## Names -/

theorem named?_cons (name : String) (s : Shape) (rest : List Shape) :
    named? name (s :: rest) = if s.name = name then some s else named? name rest := by
  rw [named?, List.find?_cons]
  by_cases h : s.name = name
  · rw [if_pos h, h, beq_self_eq_true]
  · rw [if_neg h, beq_false_of_ne h]
    rfl

theorem name_of_named? (h : named? name ss = some s) : s.name = name := by
  have := List.find?_some h
  exact eq_of_beq this

theorem named?_eq_none : named? name ss = none ↔ name ∉ ss.map Shape.name := by
  rw [named?, List.find?_eq_none, List.mem_map]
  constructor
  · rintro h ⟨s, hs, rfl⟩
    exact h s hs (beq_self_eq_true _)
  · intro h s hs hn
    exact h ⟨s, hs, by simpa using hn⟩

theorem named?_append_of_some (h : named? name ss = some s) (later : List Shape) :
    named? name (ss ++ later) = some s := by
  rw [named?] at h ⊢
  rw [List.find?_append, h]
  rfl

theorem named?_append_of_none (h : named? name ss = none) (later : List Shape) :
    named? name (ss ++ later) = named? name later := by
  rw [named?] at h ⊢
  rw [List.find?_append, h]
  rfl

theorem names_change (g : Shape → Shape) (hg : ∀ s, (g s).name = s.name) (ss : List Shape) :
    (change name g ss).map Shape.name = ss.map Shape.name := by
  induction ss with
  | nil => rfl
  | cons s rest ih =>
    rw [change]
    split
    · rw [List.map_cons, hg, List.map_cons]
    · rw [List.map_cons, ih, List.map_cons]

theorem named?_change_self (g : Shape → Shape) (hg : ∀ s, (g s).name = s.name) (ss : List Shape) :
    named? name (change name g ss) = (named? name ss).map g := by
  induction ss with
  | nil => rfl
  | cons s rest ih =>
    by_cases hs : s.name = name
    · rw [change, if_pos hs, named?_cons, hg, if_pos hs, named?_cons, if_pos hs]
      rfl
    · rw [change, if_neg hs, named?_cons, if_neg hs, named?_cons, if_neg hs, ih]

theorem named?_change_of_ne (h : name ≠ key) (g : Shape → Shape) (hg : ∀ s, (g s).name = s.name)
    (ss : List Shape) : named? name (change key g ss) = named? name ss := by
  induction ss with
  | nil => rfl
  | cons s rest ih =>
    by_cases hs : s.name = key
    · rw [change, if_pos hs, named?_cons, hg, hs, if_neg (Ne.symm h), named?_cons, hs,
        if_neg (Ne.symm h)]
    · rw [change, if_neg hs, named?_cons, named?_cons, ih]

/-! ## Kinds at paths -/

/-- The kind at a path. -/
def kindAt (path : Path) (ss : List Shape) : Option Kind :=
  (find? path ss).map kind

theorem kindAt_singleton (name : String) (ss : List Shape) :
    kindAt [name] ss = (named? name ss).map kind := rfl

theorem kindAt_cons {rest : Path} (h : rest ≠ []) (name : String) (ss : List Shape) :
    kindAt (name :: rest) ss = (named? name ss).bind fun s => kindAt rest s.shapes := by
  cases rest with
  | nil => exact absurd rfl h
  | cons n rest =>
    rw [kindAt, find?]
    · cases named? name ss <;> rfl
    · exact List.cons_ne_nil n rest

theorem kindAt_of_named?_none (h : named? name ss = none) (rest : Path) :
    kindAt (name :: rest) ss = none := by
  cases rest with
  | nil => rw [kindAt_singleton, h, Option.map_none]
  | cons n rest => rw [kindAt_cons (List.cons_ne_nil n rest), h, Option.bind_none]

theorem kindAt_nil (path : Path) : kindAt path [] = none := by
  cases path with
  | nil => rfl
  | cons n rest => exact kindAt_of_named?_none rfl rest

/-- Every kind at a path is kept. -/
def Grows (ss ss' : List Shape) : Prop :=
  ∀ path kind, kindAt path ss = some kind → kindAt path ss' = some kind

theorem Grows.refl (ss : List Shape) : Grows ss ss :=
  fun _ _ h => h

theorem Grows.trans {ss'' : List Shape} (h : Grows ss ss') (h' : Grows ss' ss'') : Grows ss ss'' :=
  fun path kind hk => h' path kind (h path kind hk)

/-- Shapes grow if each of them does. -/
theorem Grows.of_named? (h : ∀ name s, named? name ss = some s →
    ∃ s', named? name ss' = some s' ∧ s'.kind = s.kind ∧ Grows s.shapes s'.shapes) :
    Grows ss ss' := by
  intro path kind hk
  cases path with
  | nil => cases hk
  | cons n rest =>
    cases hn : named? n ss with
    | none =>
      rw [kindAt_of_named?_none hn] at hk
      cases hk
    | some s =>
      obtain ⟨s', hn', hkind, hgrows⟩ := h n s hn
      by_cases hr : rest = []
      · subst hr
        rw [kindAt_singleton, hn, Option.map_some] at hk
        rw [kindAt_singleton, hn', Option.map_some, hkind, hk]
      · rw [kindAt_cons hr, hn, Option.bind_some] at hk
        rw [kindAt_cons hr, hn', Option.bind_some]
        exact hgrows rest kind hk

theorem grows_append (ss later : List Shape) : Grows ss (ss ++ later) :=
  .of_named? fun _ s hn => ⟨s, named?_append_of_some hn later, rfl, .refl _⟩

theorem grows_change {g : Shape → Shape} (hname : ∀ s, (g s).name = s.name)
    (hkind : ∀ s, (g s).kind = s.kind)
    (h : ∀ s, named? name ss = some s → Grows s.shapes (g s).shapes) :
    Grows ss (change name g ss) := by
  refine .of_named? fun n s hn => ?_
  by_cases hs : n = name
  · subst hs
    exact ⟨g s, by rw [named?_change_self g hname, hn]; rfl, hkind s, h s hn⟩
  · exact ⟨s, by rw [named?_change_of_ne hs g hname, hn], rfl, .refl _⟩

/-! ## Relations that every step obeys -/

/-- A relation of shapes to those with others behind them, and to those with more in one of them. -/
structure IsGrowth (R : List Shape → List Shape → Prop) : Prop where
  refl : ∀ ss, R ss ss
  trans : ∀ {ss ss' ss''}, R ss ss' → R ss' ss'' → R ss ss''
  append : ∀ ss later, R ss (ss ++ later)
  change : ∀ {name ss} {g : Shape → Shape}, (∀ s, (g s).name = s.name) →
    (∀ s, (g s).kind = s.kind) → (∀ s, named? name ss = some s → R s.shapes (g s).shapes) →
      R ss (change name g ss)

namespace IsGrowth

variable {R : List Shape → List Shape → Prop}

/-- A further sighting of a name. -/
theorem again (h : IsGrowth R) (name : String) (ss : List Shape) : R ss (Shape.change name again ss) :=
  h.change name_again kind_again fun s _ => by rw [shapes_again]; exact h.refl _

theorem mapShapes (h : IsGrowth R) {g : List Shape → List Shape} (hg : R s.shapes (g s.shapes)) :
    R s.shapes (s.mapShapes g).shapes := by
  cases s with
  | scalar n k => exact h.refl _
  | map n k inner => exact hg

/-- **The fields of a row.** -/
theorem absorb (h : IsGrowth R) (row : Int) (path : Path) (ss : List Shape) (fs : List Field) :
    R ss (Shape.absorb row path ss fs).shapes := by
  induction fs using Field.induction generalizing path ss with
  | nil => exact h.refl ss
  | scalar name handle value rest ih =>
    refine h.trans ?_ (ih path _)
    simp only [absorbField]
    split
    · exact h.append ss _
    · exact h.again name ss
    · exact h.refl ss
  | map name handle fields rest ihFields ihRest =>
    refine h.trans ?_ (ihRest path _)
    simp only [absorbField]
    split
    · exact h.append ss _
    · exact h.refl ss
    · next inner hn =>
      refine h.change (by simp) (by simp) fun s hs => ?_
      rw [hn] at hs
      cases hs
      exact ihFields (path ++ [name]) inner

theorem touch (h : IsGrowth R) (ss : List Shape) (key : String) : R ss (Shape.touch ss key) := by
  unfold Shape.touch
  split
  · exact h.append ss _
  · exact h.again key ss

theorem foldl_touch (h : IsGrowth R) (keys : List String) (ss : List Shape) :
    R ss (keys.foldl Shape.touch ss) := by
  induction keys generalizing ss with
  | nil => exact h.refl ss
  | cons key rest ih => exact h.trans (h.touch ss key) (ih _)

theorem hold (h : IsGrowth R) (path : Path) (ss : List Shape) : R ss (Shape.hold path ss) := by
  induction path generalizing ss with
  | nil => exact h.refl ss
  | cons n rest ih =>
    rw [Shape.hold]
    split
    · exact h.append ss _
    · exact h.change (by simp) (by simp) fun s _ => h.mapShapes (ih s.shapes)

theorem foldl_hold (h : IsGrowth R) (paths : List Path) (ss : List Shape) :
    R ss (paths.foldl (fun ss path => Shape.hold path ss) ss) := by
  induction paths generalizing ss with
  | nil => exact h.refl ss
  | cons path rest ih => exact h.trans (h.hold path ss) (ih _)

end IsGrowth

theorem isGrowth_grows : IsGrowth Grows :=
  ⟨.refl, .trans, grows_append, grows_change⟩

/-- **Shapes grow with every row.** -/
theorem grows_absorb (row : Int) (path : Path) (ss : List Shape) (fs : List Field) :
    Grows ss (absorb row path ss fs).shapes :=
  isGrowth_grows.absorb row path ss fs

theorem grows_foldl_touch (keys : List String) (ss : List Shape) :
    Grows ss (keys.foldl touch ss) :=
  isGrowth_grows.foldl_touch keys ss

theorem kindAt_touch (key : String) (ss : List Shape) (k : String) :
    kindAt [key] (touch ss k) =
      if key = k then some ((kindAt [key] ss).getD .scalar) else kindAt [key] ss := by
  rw [kindAt_singleton, kindAt_singleton, touch]
  cases hn : named? k ss with
  | none =>
    by_cases hk : key = k
    · subst hk
      rw [if_pos rfl, named?_append_of_none hn, named?_cons, if_pos (by rfl), hn]
      rfl
    · rw [if_neg hk]
      cases hs : named? key ss with
      | none =>
        rw [named?_append_of_none hs, named?_cons, if_neg (by exact Ne.symm hk)]
        rfl
      | some s => rw [named?_append_of_some hs]
  | some s =>
    simp only
    by_cases hk : key = k
    · subst hk
      rw [if_pos rfl, named?_change_self again name_again, hn]
      cases s <;> rfl
    · rw [if_neg hk, named?_change_of_ne hk again name_again]

theorem kindAt_foldl_touch (key : String) (ks : List String) (ss : List Shape) :
    kindAt [key] (ks.foldl touch ss) =
      if key ∈ ks then some ((kindAt [key] ss).getD .scalar) else kindAt [key] ss := by
  induction ks generalizing ss with
  | nil => rfl
  | cons k rest ih =>
    rw [List.foldl_cons, ih, kindAt_touch]
    by_cases hk : key = k
    · subst hk
      rw [if_pos rfl, if_pos List.mem_cons_self, Option.getD_some, ite_self]
    · rw [if_neg hk]
      simp only [List.mem_cons, hk, false_or]

theorem grows_foldl_hold (paths : List Path) (ss : List Shape) :
    Grows ss (paths.foldl (fun ss path => hold path ss) ss) :=
  isGrowth_grows.foldl_hold paths ss

/-- Room for a column of the row element. -/
theorem named?_hold_singleton (key name : String) (ss : List Shape) :
    named? key (hold [name] ss) =
      if key = name then some ((named? key ss).getD (.scalar name 0)) else named? key ss := by
  rw [hold]
  cases hn : named? name ss with
  | none =>
    by_cases hk : key = name
    · subst hk
      rw [if_pos rfl, named?_append_of_none hn, hn]
      exact named?_cons key _ [] |>.trans (if_pos rfl)
    · rw [if_neg hk]
      cases hs : named? key ss with
      | none =>
        rw [named?_append_of_none hs]
        exact (named?_cons key _ []).trans (if_neg (Ne.symm hk))
      | some s => exact named?_append_of_some hs _
  | some s =>
    simp only
    by_cases hk : key = name
    · subst hk
      rw [if_pos rfl, named?_change_self _ (by simp), hn, Option.map_some, Option.getD_some]
      cases s <;> rfl
    · rw [if_neg hk, named?_change_of_ne hk _ (by simp)]

theorem named?_foldl_hold (key : String) (names : List String) (ss : List Shape) :
    named? key ((names.map fun name => [name]).foldl (fun ss path => hold path ss) ss) =
      if key ∈ names then some ((named? key ss).getD (.scalar key 0)) else named? key ss := by
  induction names generalizing ss with
  | nil => rfl
  | cons name rest ih =>
    rw [List.map_cons, List.foldl_cons, ih, named?_hold_singleton]
    by_cases hk : key = name
    · subst hk
      rw [if_pos rfl, if_pos List.mem_cons_self, Option.getD_some, ite_self]
    · rw [if_neg hk]
      simp only [List.mem_cons, hk, false_or]

/-- Room for a path is made under its first name. -/
theorem named?_hold_of_head?_ne {path : Path} (h : path.head? ≠ some key) (ss : List Shape) :
    named? key (hold path ss) = named? key ss := by
  cases path with
  | nil => rfl
  | cons n rest =>
    have hn : key ≠ n := by simpa [eq_comm] using h
    rw [hold]
    cases hs : named? n ss with
    | none =>
      have hempty : named? key (empty (n :: rest)) = none := by
        cases rest with
        | nil => exact (named?_cons key _ []).trans (if_neg (Ne.symm hn))
        | cons m rest => exact (named?_cons key _ []).trans (if_neg (Ne.symm hn))
      cases hk : named? key ss with
      | none => rw [named?_append_of_none hk, hempty]
      | some s => exact named?_append_of_some hk _
    | some s => exact named?_change_of_ne hn _ (by simp) ss

theorem named?_foldl_hold_of_head?_ne {paths : List Path}
    (h : ∀ path ∈ paths, path.head? ≠ some key) (ss : List Shape) :
    named? key (paths.foldl (fun ss path => hold path ss) ss) = named? key ss := by
  induction paths generalizing ss with
  | nil => rfl
  | cons path rest ih =>
    rw [List.foldl_cons, ih fun p hp => h p (List.mem_cons_of_mem path hp),
      named?_hold_of_head?_ne (h path List.mem_cons_self)]

/-! ## Distinct names -/

mutual

/-- The names of the shapes of a map are distinct, and so on below. -/
def DistinctIn : Shape → Prop
  | .scalar .. => True
  | .map _ _ ss => Distinct ss

/-- Every name comes once among its neighbours. -/
def Distinct : List Shape → Prop
  | [] => True
  | s :: rest => s.name ∉ rest.map Shape.name ∧ DistinctIn s ∧ Distinct rest

end

theorem Distinct.nodup (h : Distinct ss) : (ss.map Shape.name).Nodup := by
  induction ss with
  | nil => exact List.nodup_nil
  | cons s rest ih => exact List.nodup_cons.mpr ⟨h.1, ih h.2.2⟩

theorem Distinct.named? (h : Distinct ss) (hn : named? name ss = some s) : Distinct s.shapes := by
  induction ss with
  | nil => cases hn
  | cons a rest ih =>
    rw [named?_cons] at hn
    split at hn
    · cases hn
      cases s with
      | scalar n k => trivial
      | map n k inner => exact h.2.1
    · exact ih h.2.2 hn

theorem Distinct.append (h : Distinct ss) (hn : Shape.named? new.name ss = none)
    (hs : Distinct new.shapes) : Distinct (ss ++ [new]) := by
  have hnew : DistinctIn new := by
    cases new with
    | scalar n k => trivial
    | map n k inner => exact hs
  induction ss with
  | nil => exact ⟨List.not_mem_nil, hnew, trivial⟩
  | cons s rest ih =>
    rw [named?_eq_none, List.map_cons, List.mem_cons, not_or] at hn
    refine ⟨?_, h.2.1, ih h.2.2 (named?_eq_none.mpr hn.2)⟩
    show s.name ∉ (rest ++ [new]).map Shape.name
    rw [List.map_append, List.mem_append, not_or]
    exact ⟨h.1, fun hm => hn.1 (List.mem_singleton.mp hm).symm⟩

theorem Distinct.change (h : Distinct ss) {g : Shape → Shape} (hname : ∀ s, (g s).name = s.name)
    (hg : ∀ s, Shape.named? name ss = some s → Distinct (g s).shapes) :
    Distinct (change name g ss) := by
  induction ss with
  | nil => trivial
  | cons s rest ih =>
    rw [Shape.change]
    split
    · next hs =>
      have hd := hg s (by rw [named?_cons, if_pos hs])
      refine ⟨by rw [hname]; exact h.1, ?_, h.2.2⟩
      generalize g s = t at hd ⊢
      cases t with
      | scalar n k => trivial
      | map n k inner => exact hd
    · next hs =>
      refine ⟨by rw [names_change g hname]; exact h.1, h.2.1, ih h.2.2 fun t ht => ?_⟩
      exact hg t (by rw [named?_cons, if_neg hs, ht])

theorem Distinct.mapShapes {g : List Shape → List Shape} (h : Distinct s.shapes)
    (hg : ∀ ss, Distinct ss → Distinct (g ss)) : Distinct (s.mapShapes g).shapes := by
  cases s with
  | scalar n k => trivial
  | map n k inner => exact hg inner h

theorem Distinct.again (h : Distinct ss) (name : String) : Distinct (Shape.change name again ss) :=
  h.change name_again fun s hs => by rw [shapes_again]; exact h.named? hs

/-- **Names stay distinct with every row.** -/
theorem distinct_absorb (row : Int) (path : Path) (ss : List Shape) (fs : List Field)
    (h : Distinct ss) : Distinct (absorb row path ss fs).shapes := by
  induction fs using Field.induction generalizing path ss with
  | nil => exact h
  | scalar name handle value rest ih =>
    refine ih path _ ?_
    simp only [absorbField]
    split
    · next hn => exact h.append hn trivial
    · exact h.again name
    · exact h
  | map name handle fields rest ihFields ihRest =>
    refine ihRest path _ ?_
    simp only [absorbField]
    split
    · next hn => exact h.append hn (ihFields _ [] trivial)
    · exact h
    · next inner hn =>
      refine h.change (by simp) fun s hs => ?_
      rw [hn] at hs
      cases hs
      exact ihFields (path ++ [name]) inner (h.named? hn)

theorem distinct_touch (h : Distinct ss) (key : String) : Distinct (touch ss key) := by
  unfold touch
  split
  · next hn => exact h.append hn trivial
  · exact h.again key

theorem distinct_foldl_touch (keys : List String) (ss : List Shape) (h : Distinct ss) :
    Distinct (keys.foldl touch ss) := by
  induction keys generalizing ss with
  | nil => exact h
  | cons key rest ih => exact ih _ (distinct_touch h key)

theorem distinct_empty (path : Path) : Distinct (empty path) := by
  induction path with
  | nil => trivial
  | cons n rest ih =>
    cases rest with
    | nil => exact ⟨List.not_mem_nil, trivial, trivial⟩
    | cons m rest => exact ⟨List.not_mem_nil, ih, trivial⟩

theorem distinct_hold (path : Path) (ss : List Shape) (h : Distinct ss) :
    Distinct (hold path ss) := by
  induction path generalizing ss with
  | nil => exact h
  | cons n rest ih =>
    rw [hold]
    split
    · next hn =>
      cases rest with
      | nil => exact h.append hn trivial
      | cons m rest => exact h.append hn (distinct_empty _)
    · exact h.change (by simp) fun s hs => (h.named? hs).mapShapes fun ss => ih ss

theorem distinct_foldl_hold (paths : List Path) (ss : List Shape) (h : Distinct ss) :
    Distinct (paths.foldl (fun ss path => hold path ss) ss) := by
  induction paths generalizing ss with
  | nil => exact h
  | cons path rest ih => exact ih _ (distinct_hold path ss h)

end Shape

/-! ## Schemas -/

namespace Shape.IsGrowth

variable {R : List Shape → List Shape → Prop}

/-- The attributes of a row. -/
theorem withAttributes (h : IsGrowth R) (keys : List String) (ss : List Shape) :
    R ss (RowSchema.withAttributes keys ss) := by
  refine h.change (by simp) (by simp) fun t _ => ?_
  rw [← shapes_again t]
  exact h.mapShapes (h.foldl_touch keys _)

/-- **One more row.** -/
theorem fold (h : IsGrowth R) (s : RowSchema) (row : Row) :
    R s.shapes (s.fold row).schema.shapes := by
  refine h.trans ?_ (h.absorb row.ordinal [] _ row.fields)
  split
  · exact h.withAttributes _ _
  · exact h.refl _

end Shape.IsGrowth

namespace RowSchema

variable {s : RowSchema}

theorem distinct_withAttributes (keys : List String) (ss : List Shape) (h : Shape.Distinct ss) :
    Shape.Distinct (withAttributes keys ss) := by
  refine h.change (by simp) fun t ht => ?_
  refine Shape.Distinct.mapShapes ?_ fun ss => Shape.distinct_foldl_touch keys ss
  rw [Shape.shapes_again]
  exact h.named? ht

theorem grows_fold (s : RowSchema) (row : Row) : Shape.Grows s.shapes (s.fold row).schema.shapes :=
  Shape.isGrowth_grows.fold s row

theorem distinct_fold (row : Row) (h : Shape.Distinct s.shapes) :
    Shape.Distinct (s.fold row).schema.shapes := by
  refine Shape.distinct_absorb row.ordinal [] _ row.fields ?_
  split
  · exact distinct_withAttributes _ _ h
  · exact h

theorem distinct_start (p : Projection) : Shape.Distinct (start p).shapes := by
  rw [start]
  split
  · exact ⟨List.not_mem_nil, trivial, trivial⟩
  · trivial

theorem grows_held (s : RowSchema) : Shape.Grows s.shapes s.held :=
  Shape.grows_foldl_hold _ _

theorem distinct_held (h : Shape.Distinct s.shapes) : Shape.Distinct s.held :=
  Shape.distinct_foldl_hold _ _ h

end RowSchema

end Tabular
