import Mathlib.Data.List.Infix
import Mathlib.Data.List.Nodup
import Tabular.Proofs.Row.Stable
import Tabular.Proofs.Schema.Meet
import Tabular.Proofs.Value.Reach

/-!
# Agreement of fields with shapes

Whether the field at a path is taken does not depend on its own shape only: every name on the way
to it has to be of the kind that its shape has.

* `Field.Agrees`, `agrees_cons`: a path along which fields have the kinds that are known;
* **`kindAt_absorb`**, **`countAt_absorb`**, **`names_under_absorb`**: the shapes after some fields,
  at every path;
* `Field.Shows`, **`at?_absorb`**: the record of the fields;
* `Field.Clashes`, **`mem_conflicts_absorb`**, `nodup_conflicts_absorb`: their conflicts.
-/

namespace Tabular

namespace Field

variable {fs : List Field} {f : Field} {name : String} {path q rest : Path}
  {known known' : Path → Option Kind}

/-! ## Kinds of fields -/

/-- The kind at a path. -/
def kindAt (path : Path) (fs : List Field) : Option Kind :=
  (find? path fs).map kind

theorem find?_cons (name : String) (rest : Path) (fs : List Field) :
    find? (name :: rest) fs =
      (named? name fs).bind fun f => if rest = [] then some f else find? rest f.fields := by
  cases rest with
  | nil => cases h : named? name fs <;> simp [find?, h]
  | cons n rest => rfl

theorem kindAt_cons_of_some (h : named? name fs = some f) (rest : Path) :
    kindAt (name :: rest) fs = if rest = [] then some f.kind else kindAt rest f.fields := by
  rw [kindAt, find?_cons, h, Option.bind_some]
  split <;> rfl

theorem kindAt_cons_of_none (h : named? name fs = none) (rest : Path) :
    kindAt (name :: rest) fs = none := by
  rw [kindAt, find?_cons, h]
  rfl

/-! ## Agreement -/

/-- Every name on the way along a path is there, with the kind that is known at this place, if one
is. -/
def Agrees (known : Path → Option Kind) (fs : List Field) (path : Path) : Prop :=
  ∀ q, q <+: path → q ≠ [] → kindAt q fs ≠ none ∧ (known q = none ∨ known q = kindAt q fs)

instance (known : Path → Option Kind) (fs : List Field) (path : Path) :
    Decidable (Agrees known fs path) :=
  decidable_of_iff
    (∀ q ∈ path.inits, q ≠ [] → kindAt q fs ≠ none ∧ (known q = none ∨ known q = kindAt q fs))
    (by simp only [Agrees, List.mem_inits])

theorem agrees_nil (known : Path → Option Kind) (fs : List Field) : Agrees known fs [] := by
  intro q hq hne
  exact absurd (List.prefix_nil.mp hq) hne

theorem Agrees.of_prefix (h : Agrees known fs path) (hq : q <+: path) : Agrees known fs q :=
  fun q' hq' hne => h q' (hq'.trans hq) hne

theorem agrees_congr (h : ∀ q, q <+: path → q ≠ [] → known q = known' q) :
    Agrees known fs path ↔ Agrees known' fs path := by
  constructor
  · intro ha q hq hne
    rw [← h q hq hne]
    exact ha q hq hne
  · intro ha q hq hne
    rw [h q hq hne]
    exact ha q hq hne

/-- The first name of a path agrees, and the rest of it among the fields below. -/
theorem agrees_cons : Agrees known fs (name :: rest) ↔ ∃ f, named? name fs = some f ∧
    (known [name] = none ∨ known [name] = some f.kind) ∧
      Agrees (fun q => known (name :: q)) f.fields rest := by
  constructor
  · intro h
    obtain ⟨hsome, hknown⟩ := h [name] ⟨rest, rfl⟩ (List.cons_ne_nil name [])
    cases hf : named? name fs with
    | none => exact absurd (kindAt_cons_of_none hf []) hsome
    | some f =>
      rw [kindAt_cons_of_some hf, if_pos rfl] at hknown
      refine ⟨f, rfl, hknown, fun q hq hne => ?_⟩
      have hbelow := h (name :: q) (List.cons_prefix_cons.mpr ⟨rfl, hq⟩) (List.cons_ne_nil name q)
      rwa [kindAt_cons_of_some hf, if_neg hne] at hbelow
  · rintro ⟨f, hf, hknown, hrest⟩ q hq hne
    obtain ⟨m, q, rfl⟩ := List.exists_cons_of_ne_nil hne
    obtain ⟨rfl, hbelow⟩ := List.cons_prefix_cons.mp hq
    rw [kindAt_cons_of_some hf]
    by_cases hq' : q = []
    · subst hq'
      rw [if_pos rfl]
      exact ⟨Option.some_ne_none _, hknown⟩
    · rw [if_neg hq']
      exact hrest q hbelow hq'

theorem Agrees.kindAt_ne_none (h : Agrees known fs path) (hp : path ≠ []) :
    kindAt path fs ≠ none :=
  (h path (List.prefix_refl path) hp).1

/-- A path agrees if all above it does and its own kind does. -/
theorem agrees_iff_dropLast (hp : path ≠ []) : Agrees known fs path ↔
    Agrees known fs path.dropLast ∧ kindAt path fs ≠ none ∧
      (known path = none ∨ known path = kindAt path fs) := by
  constructor
  · intro h
    exact ⟨h.of_prefix (List.dropLast_prefix path), h path (List.prefix_refl path) hp⟩
  · rintro ⟨habove, hself⟩ q hq hne
    rw [← List.dropLast_concat_getLast hp, List.prefix_concat_iff,
      List.dropLast_concat_getLast hp] at hq
    rcases hq with rfl | hq
    · exact hself
    · exact habove q hq hne

/-- The field at a path is of another kind than the known one, though all above it agrees. -/
structure Clashes (known : Path → Option Kind) (fs : List Field) (path : Path)
    (expected found : Kind) : Prop where
  reached : Agrees known fs path.dropLast
  expects : known path = some expected
  finds : kindAt path fs = some found
  ne : expected ≠ found

theorem clashes_iff {expected found : Kind} : Clashes known fs path expected found ↔
    Agrees known fs path.dropLast ∧ known path = some expected ∧ kindAt path fs = some found ∧
      expected ≠ found :=
  ⟨fun h => ⟨h.reached, h.expects, h.finds, h.ne⟩, fun h => ⟨h.1, h.2.1, h.2.2.1, h.2.2.2⟩⟩

/-- A path clashes if it has a field and does not agree, though all above it does. -/
theorem exists_clashes_iff (hp : path ≠ []) :
    (∃ expected found, Clashes known fs path expected found) ↔
    ¬ Agrees known fs path ∧ Agrees known fs path.dropLast ∧ kindAt path fs ≠ none := by
  rw [agrees_iff_dropLast hp]
  constructor
  · rintro ⟨expected, found, hreached, hexpects, hfinds, hne⟩
    refine ⟨?_, hreached, by rw [hfinds]; exact Option.some_ne_none _⟩
    rintro ⟨-, -, h | h⟩
    · rw [hexpects] at h
      cases h
    · rw [hexpects, hfinds] at h
      exact hne (Option.some.inj h)
  · rintro ⟨hno, hreached, hsome⟩
    cases hf : kindAt path fs with
    | none => exact absurd hf hsome
    | some found =>
      cases hk : known path with
      | none => exact absurd ⟨hreached, hsome, Or.inl hk⟩ hno
      | some expected =>
        refine ⟨expected, found, hreached, hk, hf, ?_⟩
        rintro rfl
        exact hno ⟨hreached, hsome, Or.inr (hk.trans hf.symm)⟩

/-- What a record has at a path where fields have the given one, or none: its text, or a map. -/
def Shows (f? : Option Field) (v? : Option Value) : Prop :=
  match f? with
  | none => v? = none
  | some (.scalar _ _ v) => v? = some (.ofText? v)
  | some (.map ..) => ∃ es, v? = some (.map es)

end Field

namespace Shape

open Tabular.Field (Agrees agrees_nil agrees_cons agrees_congr)

variable {ss ss' : List Shape} {fs : List Field} {f : Field} {name : String} {path q rest : Path}

/-! ## Shapes at paths -/

/-- The shapes below a path. -/
def under : Path → List Shape → List Shape
  | [], ss => ss
  | n :: rest, ss => under rest (inner (named? n ss))

/-- How often what stands at a path was seen. -/
def countAt (path : Path) (ss : List Shape) : Nat :=
  seenBefore (find? path ss)

theorem find?_cons (name : String) (rest : Path) (ss : List Shape) :
    find? (name :: rest) ss =
      if rest = [] then named? name ss else find? rest (inner (named? name ss)) := by
  cases rest with
  | nil => rfl
  | cons n rest =>
    rw [find?, if_neg (List.cons_ne_nil n rest)]
    · cases named? name ss with
      | none => cases rest <;> rfl
      | some s => rfl
    · exact List.cons_ne_nil n rest

theorem find?_nil (path : Path) : find? path [] = none := by
  cases path with
  | nil => rfl
  | cons n rest => cases rest <;> rfl

theorem under_nil (path : Path) : under path [] = [] := by
  induction path with
  | nil => rfl
  | cons n rest ih => exact ih

theorem find?_congr (h : named? name ss = named? name ss') (rest : Path) :
    find? (name :: rest) ss = find? (name :: rest) ss' := by
  rw [find?_cons, find?_cons, h]

theorem kindAt_congr (h : named? name ss = named? name ss') (rest : Path) :
    kindAt (name :: rest) ss = kindAt (name :: rest) ss' := by
  rw [kindAt, kindAt, find?_congr h]

theorem kindAt_cons_inner (h : rest ≠ []) (name : String) (ss : List Shape) :
    kindAt (name :: rest) ss = kindAt rest (inner (named? name ss)) := by
  rw [kindAt, find?_cons, if_neg h, kindAt]

theorem countAt_cons_inner (h : rest ≠ []) (name : String) (ss : List Shape) :
    countAt (name :: rest) ss = countAt rest (inner (named? name ss)) := by
  rw [countAt, find?_cons, if_neg h, countAt]

theorem accepts_iff : Accepts (named? name ss) f ↔
    kindAt [name] ss = none ∨ kindAt [name] ss = some f.kind := by
  rw [kindAt_singleton]
  cases named? name ss with
  | none => simp [Accepts]
  | some s => simp [Accepts]

/-- A path agrees with shapes if its first name is accepted, and the rest of it agrees with what
the shape of that name holds. -/
theorem agrees_shapes_cons : Agrees (kindAt · ss) fs (name :: rest) ↔
    ∃ f, Field.named? name fs = some f ∧ Accepts (named? name ss) f ∧
      Agrees (kindAt · (inner (named? name ss))) f.fields rest := by
  have hbelow : ∀ f : Field, Agrees (fun q => kindAt (name :: q) ss) f.fields rest ↔
      Agrees (kindAt · (inner (named? name ss))) f.fields rest :=
    fun f => agrees_congr fun q _ hne => kindAt_cons_inner hne name ss
  simp only [agrees_cons, accepts_iff, hbelow]

theorem not_agrees_of_refused {s : Shape} (hf : Field.named? name fs = some f)
    (hs : named? name ss = some s) (hne : s.kind ≠ f.kind) (rest : Path) :
    ¬ Agrees (kindAt · ss) fs (name :: rest) := by
  rw [agrees_shapes_cons]
  rintro ⟨g, hg, ha, -⟩
  rw [hf] at hg
  cases hg
  exact hne (ha s hs)

theorem not_agrees_of_absent (hf : Field.named? name fs = none) (rest : Path) :
    ¬ Agrees (kindAt · ss) fs (name :: rest) := by
  rw [agrees_shapes_cons]
  rintro ⟨f, hf', -⟩
  rw [hf] at hf'
  cases hf'

theorem agrees_of_taken (hf : Field.named? name fs = some f) (ha : Accepts (named? name ss) f)
    (rest : Path) : Agrees (kindAt · ss) fs (name :: rest) ↔
      Agrees (kindAt · (inner (named? name ss))) f.fields rest := by
  rw [agrees_shapes_cons]
  constructor
  · rintro ⟨g, hg, -, h⟩
    rw [hf] at hg
    cases hg
    exact h
  · intro h
    exact ⟨f, hf, ha, h⟩

/-! ## The shapes after some fields -/

/-- **A kind is added where a path agrees.** -/
theorem kindAt_absorb (hd : Field.Distinct fs) (row : Int) (above : Path) (ss : List Shape)
    (path : Path) :
    kindAt path (absorb row above ss fs).shapes =
      (kindAt path ss).or (if Agrees (kindAt · ss) fs path then Field.kindAt path fs else none) := by
  induction path generalizing above ss fs with
  | nil =>
    rw [if_pos (agrees_nil _ _)]
    rfl
  | cons n rest ih =>
    cases outcome_absorb hd.nodup row above ss n with
    | absent field shape entry =>
      rw [kindAt_congr shape, if_neg (not_agrees_of_absent field rest), Option.or_none]
    | refused f s field before ne shape entry =>
      rw [kindAt_congr (shape.trans before.symm),
        if_neg (not_agrees_of_refused field before ne rest), Option.or_none]
    | taken f s field accepts shape kind seen shapes entry =>
      simp only [agrees_of_taken field accepts, Field.kindAt_cons_of_some field]
      by_cases hr : rest = []
      · subst hr
        rw [if_pos (agrees_nil _ _), if_pos rfl, kindAt_singleton, shape, Option.map_some, kind]
        rcases accepts_iff.mp accepts with h | h
        · rw [h, Option.none_or]
        · rw [h, Option.some_or]
      · rw [if_neg hr, kindAt_cons_inner hr, shape, kindAt_cons_inner hr, inner, Option.map_some,
          Option.getD_some, shapes]
        exact ih (hd.named? field) _ _

/-- Where a path agrees the shapes have the kind of the field. -/
theorem kindAt_absorb_of_agrees (hd : Field.Distinct fs) (row : Int) (above : Path)
    (hp : path ≠ []) (ha : Agrees (kindAt · ss) fs path) :
    kindAt path (absorb row above ss fs).shapes = Field.kindAt path fs := by
  rw [kindAt_absorb hd, if_pos ha]
  have hknown : kindAt path ss = none ∨ kindAt path ss = Field.kindAt path fs :=
    (ha path (List.prefix_refl path) hp).2
  rcases hknown with h | h
  · rw [h, Option.none_or]
  · rw [h, Option.or_self]

/-- **What agrees is seen once more.** -/
theorem countAt_absorb (hd : Field.Distinct fs) (row : Int) (above : Path) (ss : List Shape)
    (hp : path ≠ []) :
    countAt path (absorb row above ss fs).shapes =
      countAt path ss + if Agrees (kindAt · ss) fs path then 1 else 0 := by
  induction path generalizing above ss fs with
  | nil => exact absurd rfl hp
  | cons n rest ih =>
    cases outcome_absorb hd.nodup row above ss n with
    | absent field shape entry =>
      rw [if_neg (not_agrees_of_absent field rest), countAt, find?_congr shape]
      rfl
    | refused f s field before ne shape entry =>
      rw [if_neg (not_agrees_of_refused field before ne rest), countAt,
        find?_congr (shape.trans before.symm)]
      rfl
    | taken f s field accepts shape kind seen shapes entry =>
      simp only [agrees_of_taken field accepts]
      by_cases hr : rest = []
      · subst hr
        rw [if_pos (agrees_nil _ _), countAt, countAt, find?, shape, find?]
        exact seen
      · rw [countAt_cons_inner hr, shape, countAt_cons_inner hr, inner, Option.map_some,
          Option.getD_some, shapes]
        exact ih (hd.named? field) _ _ hr

theorem kindAt_concat_cons (name : String) (rest : Path) (m : String) (ss : List Shape) :
    kindAt (name :: rest ++ [m]) ss = kindAt (rest ++ [m]) (inner (named? name ss)) :=
  kindAt_cons_inner (by simp) name ss

/-- **New names come behind the old ones, where their path agrees.** -/
theorem names_under_absorb (hd : Field.Distinct fs) (row : Int) (above : Path) (ss : List Shape)
    (path : Path) :
    (under path (absorb row above ss fs).shapes).map Shape.name =
      (under path ss).map Shape.name ++
        if Agrees (kindAt · ss) fs path then
          ((Field.under path fs).map Field.name).filter fun m => (kindAt (path ++ [m]) ss).isNone
        else [] := by
  induction path generalizing above ss fs with
  | nil =>
    rw [if_pos (agrees_nil _ _)]
    refine (names_absorb hd.nodup row above ss).trans ?_
    simp only [under, Field.under, List.nil_append, kindAt_singleton, Option.isNone_map]
  | cons n rest ih =>
    cases outcome_absorb hd.nodup row above ss n with
    | absent field shape entry =>
      rw [if_neg (not_agrees_of_absent field rest), under, shape, List.append_nil]
      rfl
    | refused f s field before ne shape entry =>
      rw [if_neg (not_agrees_of_refused field before ne rest), under, shape, ← before,
        List.append_nil]
      rfl
    | taken f s field accepts shape kind seen shapes entry =>
      simp only [agrees_of_taken field accepts, Field.under_cons_of_some field, kindAt_concat_cons]
      rw [under, shape, inner, Option.map_some, Option.getD_some, shapes]
      exact ih (hd.named? field) _ _

/-! ## The record of some fields -/

/-- A field on which nothing is below shows no more than its entries. -/
theorem at?_shown (hr : rest ≠ []) (row : Int) (above : Path) (ss : List Shape) (f : Field) :
    (f.shown (absorb row above ss f.fields).entries).at? rest =
      (Value.map (absorb row above ss f.fields).entries).at? rest := by
  cases f with
  | scalar n h v =>
    rw [Value.at?_of_not_isMap hr (by cases v <;> rfl)]
    obtain ⟨m, rest, rfl⟩ := List.exists_cons_of_ne_nil hr
    rfl
  | map n h fs => rfl

/-- **The record has what agrees**, null for what disagrees at a place that agrees, and nothing
else. -/
theorem at?_absorb (hd : Field.Distinct fs) (row : Int) (above : Path) (ss : List Shape)
    (hp : path ≠ []) :
    (Agrees (kindAt · ss) fs path → Field.Shows (Field.find? path fs)
      ((Value.map (absorb row above ss fs).entries).at? path)) ∧
    (¬ Agrees (kindAt · ss) fs path → (Value.map (absorb row above ss fs).entries).at? path =
      if Agrees (kindAt · ss) fs path.dropLast ∧ Field.kindAt path fs ≠ none then some .null
      else none) := by
  induction path generalizing above ss fs with
  | nil => exact absurd rfl hp
  | cons n rest ih =>
    rw [Value.at?_cons]
    cases outcome_absorb hd.nodup row above ss n with
    | absent field shape entry =>
      refine ⟨fun h => absurd h (not_agrees_of_absent field rest), fun _ => ?_⟩
      rw [entry, Field.kindAt_cons_of_none field]
      simp
    | refused f s field before ne shape entry =>
      have hno := not_agrees_of_refused field before ne
      refine ⟨fun h => absurd h (hno rest), fun _ => ?_⟩
      rw [entry, Option.bind_some, Field.kindAt_cons_of_some field]
      by_cases hr : rest = []
      · subst hr
        rw [if_pos rfl, if_pos ⟨agrees_nil _ _, Option.some_ne_none _⟩]
        rfl
      · rw [if_neg hr, Value.at?_of_not_isMap hr rfl, List.dropLast_cons_of_ne_nil hr, if_neg]
        exact fun h => hno _ h.1
    | taken f s field accepts shape kind seen shapes entry =>
      simp only [entry, Option.bind_some, Field.find?_cons, field, agrees_of_taken field accepts,
        Field.kindAt_cons_of_some field]
      by_cases hr : rest = []
      · subst hr
        refine ⟨fun _ => ?_, fun h => absurd (agrees_nil _ _) h⟩
        cases f with
        | scalar m h v => rfl
        | map m h fs => exact ⟨_, rfl⟩
      · simp only [if_neg hr, List.dropLast_cons_of_ne_nil hr, at?_shown hr,
          agrees_of_taken field accepts]
        exact ih (hd.named? field) _ _ hr

/-! ## The conflicts of some fields -/

/-- The conflicts that the field under a name comes to. -/
theorem mem_conflicts_meet {row : Int} {above : Path} {c : Conflict}
    (field : Field.named? name fs = some f)
    (ih : ∀ above ss, c ∈ (absorb row above ss f.fields).conflicts ↔ ∃ path,
      c.path = above ++ path ∧ c.row = row ∧
        Field.Clashes (kindAt · ss) f.fields path c.expected c.found) :
    c ∈ (meet row above (named? name ss) f).conflicts ↔ ∃ rest,
      c.path = above ++ name :: rest ∧ c.row = row ∧
        Field.Clashes (kindAt · ss) fs (name :: rest) c.expected c.found := by
  have hname := Field.name_of_named? field
  by_cases ha : Accepts (named? name ss) f
  · rw [(meet_of_accepts row above ha).2.2.2.2, ih, hname]
    refine exists_congr fun rest => ?_
    rw [List.append_assoc, List.singleton_append]
    refine and_congr Iff.rfl (and_congr Iff.rfl ?_)
    by_cases hr : rest = []
    · -- the name itself is no conflict
      subst hr
      constructor
      · rintro ⟨-, hk, -, -⟩
        cases hk
      · rintro ⟨-, hk, hf, hne⟩
        rw [Field.kindAt_cons_of_some field, if_pos rfl] at hf
        rcases accepts_iff.mp ha with h | h
        · rw [h] at hk
          cases hk
        · rw [h, hf] at hk
          exact absurd (Option.some.inj hk).symm hne
    · simp only [Field.clashes_iff, List.dropLast_cons_of_ne_nil hr, agrees_of_taken field ha,
        kindAt_cons_inner hr, Field.kindAt_cons_of_some field, if_neg hr]
  · obtain ⟨s, hs, hne⟩ := exists_of_not_accepts ha
    have hno := not_agrees_of_refused field hs hne
    rw [hs, meet_of_ne hne, List.mem_singleton, hname]
    constructor
    · rintro rfl
      refine ⟨[], rfl, rfl, agrees_nil _ _, ?_, ?_, hne⟩
      · rw [kindAt_singleton, hs]
        rfl
      · rw [Field.kindAt_cons_of_some field, if_pos rfl]
    · rintro ⟨rest, hpath, hrow, habove, hk, hf, -⟩
      by_cases hr : rest = []
      · subst hr
        rw [kindAt_singleton, hs] at hk
        rw [Field.kindAt_cons_of_some field, if_pos rfl] at hf
        cases c
        cases hk
        cases hf
        cases hpath
        cases hrow
        rfl
      · rw [List.dropLast_cons_of_ne_nil hr] at habove
        exact absurd habove (hno _)

/-- **The conflicts are the clashes of the fields.** -/
theorem mem_conflicts_absorb (hd : Field.Distinct fs) (row : Int) (above : Path)
    (ss : List Shape) (c : Conflict) :
    c ∈ (absorb row above ss fs).conflicts ↔ ∃ path, c.path = above ++ path ∧ c.row = row ∧
      Field.Clashes (kindAt · ss) fs path c.expected c.found := by
  induction fs using Field.induction_below generalizing above ss with
  | below fs ih =>
    have hmeet : ∀ {n f}, Field.named? n fs = some f → (c ∈ (meet row above (named? n ss) f).conflicts
        ↔ ∃ rest, c.path = above ++ n :: rest ∧ c.row = row ∧
          Field.Clashes (kindAt · ss) fs (n :: rest) c.expected c.found) :=
      fun hf => mem_conflicts_meet hf (ih _ (List.mem_of_find?_eq_some hf) (hd.named? hf))
    rw [(conflicts_absorb hd.nodup row above ss).mem_iff, List.mem_flatMap]
    constructor
    · rintro ⟨f, hf, hc⟩
      obtain ⟨rest, h⟩ := (hmeet (Field.named?_of_mem hd.nodup hf)).mp hc
      exact ⟨f.name :: rest, h⟩
    · rintro ⟨path, h⟩
      cases path with
      | nil => cases h.2.2.expects
      | cons n rest =>
        cases hf : Field.named? n fs with
        | none =>
          have hfound := h.2.2.finds
          rw [Field.kindAt_cons_of_none hf] at hfound
          cases hfound
        | some f =>
          refine ⟨f, List.mem_of_find?_eq_some hf, ?_⟩
          rw [Field.name_of_named? hf]
          exact (hmeet hf).mpr ⟨rest, h⟩

/-- No path has two conflicts. -/
theorem nodup_conflicts_absorb (hd : Field.Distinct fs) (row : Int) (above : Path)
    (ss : List Shape) : ((absorb row above ss fs).conflicts.map Conflict.path).Nodup := by
  induction fs using Field.induction_below generalizing above ss with
  | below fs ih =>
    have hperm := (conflicts_absorb hd.nodup row above ss).map Conflict.path
    rw [hperm.nodup_iff, List.map_flatMap, List.nodup_flatMap]
    constructor
    · intro f hf
      have field := Field.named?_of_mem hd.nodup hf
      by_cases ha : Accepts (named? f.name ss) f
      · rw [(meet_of_accepts row above ha).2.2.2.2]
        exact ih f hf (hd.named? field) _ _
      · obtain ⟨s, hs, hne⟩ := exists_of_not_accepts ha
        rw [hs, meet_of_ne hne]
        exact List.nodup_singleton _
    · -- the paths of two fields part at their names
      have hpart : ∀ f ∈ fs, ∀ p ∈ ((meet row above (named? f.name ss) f).conflicts.map
          Conflict.path), ∃ rest, p = above ++ f.name :: rest := by
        intro f hf p hp
        obtain ⟨c, hc, rfl⟩ := List.mem_map.mp hp
        have field := Field.named?_of_mem hd.nodup hf
        obtain ⟨rest, h, -⟩ := (mem_conflicts_meet field fun above ss =>
          mem_conflicts_absorb (hd.named? field) row above ss c).mp hc
        exact ⟨rest, h⟩
      have hnames : fs.Pairwise fun f g => f.name ≠ g.name := List.pairwise_map.mp hd.nodup
      refine hnames.imp_of_mem fun {f g} hf hg hne => ?_
      intro p hpf hpg
      obtain ⟨rest, rfl⟩ := hpart f hf p hpf
      obtain ⟨rest', hp⟩ := hpart g hg _ hpg
      exact hne (List.cons.inj (List.append_cancel_left hp)).1

end Shape

end Tabular
