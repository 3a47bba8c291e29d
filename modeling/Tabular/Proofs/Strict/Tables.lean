import Tabular.Proofs.Schema.Columns
import Tabular.Proofs.Schema.Presence
import Tabular.Proofs.Strict.Draft

/-!
# Schemas in tables

A running schema is kept in three tables: the kind of every registered path, the names below each
path, and how often each path was seen. The tables are filled path by path.

* `Strict.Tables`, `register`, `see`, `sight`, `sightAll`, `touch`: the tables and how fields and
  attributes get into them;
* `Tables.ShowsAt`, **`showsAt_iff`**: tables that show given shapes below a path, name by name;
* `Tables.SameOff`, `Tables.SameBelow`, `Tables.SameAround`: what a change leaves as it was;
* **`showsAt_sightAll`**, **`showsAt_touchAll`**: the tables go on showing the shapes when the fields
  and the attributes of a row get into both.
-/

namespace Tabular

namespace Strict

/-- The tables of a running schema. -/
structure Tables where
  /-- The registered paths with their kinds, the last one first. -/
  registered : List (Path × Kind) := []
  /-- The names below a path, in the order in which they came. -/
  children : Path → List String := fun _ => []
  /-- How often a path was seen. -/
  presence : Path → Nat := fun _ => 0

namespace Tables

/-- The kind that a path is registered with. -/
def kind? (path : Path) (t : Tables) : Option Kind :=
  t.registered.lookup path

/-- A name below a path comes into the tables; whether its kind agrees with theirs. -/
def register (above : Path) (name : String) (kind : Kind) (t : Tables) : Tables × Bool :=
  match t.kind? (above ++ [name]) with
  | some known => (t, known = kind)
  | none =>
    ({ t with
        registered := (above ++ [name], kind) :: t.registered
        children := fun path => if path = above then t.children above ++ [name] else t.children path },
      true)

/-- A path is seen once more. -/
def see (path : Path) (t : Tables) : Tables :=
  { t with presence := fun q => if q = path then t.presence path + 1 else t.presence q }

mutual

/-- A field under `above` comes into the tables, with all it holds if its kind agrees. -/
def sight (above : Path) (t : Tables) : Field → Tables
  | .scalar n _ _ =>
    let r := t.register above n .scalar
    if r.2 then r.1.see (above ++ [n]) else r.1
  | .map n _ fs =>
    let r := t.register above n .map
    if r.2 then sightAll (above ++ [n]) (r.1.see (above ++ [n])) fs else r.1

/-- The fields under `above` come into the tables. -/
def sightAll (above : Path) (t : Tables) : List Field → Tables
  | [] => t
  | f :: rest => sightAll above (sight above t f) rest

end

/-- The key of an attribute comes into the tables. -/
def touch (above : Path) (t : Tables) (key : String) : Tables :=
  (t.register above key .scalar).1.see (above ++ [key])

theorem sight_eq (above : Path) (t : Tables) (f : Field) :
    sight above t f =
      if (t.register above f.name f.kind).2 then
        sightAll (above ++ [f.name]) ((t.register above f.name f.kind).1.see (above ++ [f.name]))
          f.fields
      else (t.register above f.name f.kind).1 := by
  cases f with
  | scalar n h v => rw [sight]; rfl
  | map n h fs => rw [sight]; rfl

/-! ## Shapes in tables -/

/-- The tables have the shapes below a path. -/
structure ShowsAt (t : Tables) (above : Path) (ss : List Shape) : Prop where
  kind : ∀ path, path ≠ [] → t.kind? (above ++ path) = Shape.kindAt path ss
  children : ∀ path, t.children (above ++ path) = (Shape.under path ss).map Shape.name
  presence : ∀ path, path ≠ [] → t.presence (above ++ path) = Shape.countAt path ss

/-- The tables have a shape, or none, at a path. -/
structure ShowsIn (t : Tables) (path : Path) (s? : Option Shape) : Prop where
  kind : t.kind? path = s?.map Shape.kind
  presence : t.presence path = Shape.seenBefore s?
  below : t.ShowsAt path (Shape.inner s?)

variable {t t' t'' : Tables} {above path : Path} {ss ss' : List Shape} {s? : Option Shape}
  {name : String} {kind : Kind}

/-- **Shapes are shown name by name.** -/
theorem showsAt_iff : t.ShowsAt above ss ↔ t.children above = ss.map Shape.name ∧
    ∀ name, t.ShowsIn (above ++ [name]) (Shape.named? name ss) := by
  constructor
  · intro h
    refine ⟨?_, fun name => ⟨?_, ?_, ?_, fun path => ?_, ?_⟩⟩
    · have := h.children []
      rwa [List.append_nil] at this
    · rw [h.kind [name] (List.cons_ne_nil name []), Shape.kindAt_singleton]
    · exact h.presence [name] (List.cons_ne_nil name [])
    · intro path hp
      rw [← List.append_cons, h.kind _ (List.cons_ne_nil name path), Shape.kindAt_cons_inner hp]
    · rw [← List.append_cons, h.children]
      rfl
    · intro path hp
      rw [← List.append_cons, h.presence _ (List.cons_ne_nil name path),
        Shape.countAt_cons_inner hp]
  · rintro ⟨hnames, hbelow⟩
    refine ⟨fun path hp => ?_, fun path => ?_, fun path hp => ?_⟩
    · obtain ⟨name, rest, rfl⟩ := List.exists_cons_of_ne_nil hp
      by_cases hr : rest = []
      · subst hr
        rw [(hbelow name).kind, Shape.kindAt_singleton]
      · rw [List.append_cons, (hbelow name).below.kind rest hr, Shape.kindAt_cons_inner hr]
    · cases path with
      | nil =>
        rw [List.append_nil]
        exact hnames
      | cons name rest =>
        rw [List.append_cons, (hbelow name).below.children rest]
        rfl
    · obtain ⟨name, rest, rfl⟩ := List.exists_cons_of_ne_nil hp
      by_cases hr : rest = []
      · subst hr
        exact (hbelow name).presence
      · rw [List.append_cons, (hbelow name).below.presence rest hr, Shape.countAt_cons_inner hr]

theorem showsAt_empty (above : Path) : ShowsAt {} above [] :=
  ⟨fun path _ => (Shape.kindAt_nil path).symm, fun path => by rw [Shape.under_nil]; rfl,
    fun path _ => (Shape.countAt_nil path).symm⟩

/-! ## What a change leaves -/

/-- Nothing has changed but along a branch, and the names around its root. -/
structure SameOff (branch : Path) (t t' : Tables) : Prop where
  kind : ∀ path, ¬ branch <+: path → t'.kind? path = t.kind? path
  presence : ∀ path, ¬ branch <+: path → t'.presence path = t.presence path
  children : ∀ path, ¬ branch <+: path → path ≠ branch.dropLast →
    t'.children path = t.children path

/-- Nothing has changed below a path. -/
structure SameBelow (above : Path) (t t' : Tables) : Prop where
  kind : ∀ path, path ≠ [] → t'.kind? (above ++ path) = t.kind? (above ++ path)
  presence : ∀ path, path ≠ [] → t'.presence (above ++ path) = t.presence (above ++ path)
  children : ∀ path, t'.children (above ++ path) = t.children (above ++ path)

/-- Nothing has changed but below a path. -/
structure SameAround (above : Path) (t t' : Tables) : Prop where
  kind : ∀ path, ¬ above <+: path ∨ path = above → t'.kind? path = t.kind? path
  presence : ∀ path, ¬ above <+: path ∨ path = above → t'.presence path = t.presence path
  children : ∀ path, ¬ above <+: path → t'.children path = t.children path

theorem not_isPrefix_concat (above : Path) (name : String) : ¬ above ++ [name] <+: above := by
  intro h
  have hlength := h.length_le
  rw [List.length_append, List.length_singleton] at hlength
  omega

theorem SameOff.trans {branch : Path} (h : SameOff branch t t') (h' : SameOff branch t' t'') :
    SameOff branch t t'' :=
  ⟨fun q hq => (h'.kind q hq).trans (h.kind q hq),
    fun q hq => (h'.presence q hq).trans (h.presence q hq),
    fun q hq hne => (h'.children q hq hne).trans (h.children q hq hne)⟩

theorem SameBelow.trans (h : SameBelow above t t') (h' : SameBelow above t' t'') :
    SameBelow above t t'' :=
  ⟨fun q hq => (h'.kind q hq).trans (h.kind q hq),
    fun q hq => (h'.presence q hq).trans (h.presence q hq),
    fun q => (h'.children q).trans (h.children q)⟩

theorem SameAround.refl (above : Path) (t : Tables) : SameAround above t t :=
  ⟨fun _ _ => rfl, fun _ _ => rfl, fun _ _ => rfl⟩

theorem SameAround.trans (h : SameAround above t t') (h' : SameAround above t' t'') :
    SameAround above t t'' :=
  ⟨fun q hq => (h'.kind q hq).trans (h.kind q hq),
    fun q hq => (h'.presence q hq).trans (h.presence q hq),
    fun q hq => (h'.children q hq).trans (h.children q hq)⟩

theorem SameAround.off (h : SameAround above t t') : SameOff above t t' :=
  ⟨fun q hq => h.kind q (Or.inl hq), fun q hq => h.presence q (Or.inl hq),
    fun q hq _ => h.children q hq⟩

theorem SameOff.around (h : SameOff (above ++ [name]) t t') : SameAround above t t' := by
  have hoff : ∀ path, ¬ above <+: path ∨ path = above → ¬ above ++ [name] <+: path := by
    rintro path (hq | rfl) hp
    · exact hq ((List.prefix_append above [name]).trans hp)
    · exact not_isPrefix_concat _ _ hp
  refine ⟨fun q hq => h.kind q (hoff q hq), fun q hq => h.presence q (hoff q hq), fun q hq => ?_⟩
  refine h.children q (hoff q (Or.inl hq)) ?_
  rintro rfl
  rw [List.dropLast_concat] at hq
  exact hq (List.prefix_refl above)

theorem ShowsAt.of_sameBelow (h : t.ShowsAt above ss) (hs : SameBelow above t t') :
    t'.ShowsAt above ss :=
  ⟨fun path hp => (hs.kind path hp).trans (h.kind path hp),
    fun path => (hs.children path).trans (h.children path),
    fun path hp => (hs.presence path hp).trans (h.presence path hp)⟩

/-- What stands under one name is not changed along the branch of another. -/
theorem ShowsIn.of_sameOff {other : String} (h : t.ShowsIn (above ++ [name]) s?)
    (hs : SameOff (above ++ [other]) t t') (hne : name ≠ other) :
    t'.ShowsIn (above ++ [name]) s? := by
  have hoff : ∀ rest, ¬ above ++ [other] <+: above ++ [name] ++ rest := by
    intro rest hp
    rw [List.append_assoc, List.prefix_append_right_inj, List.singleton_append,
      List.cons_prefix_cons] at hp
    exact hne hp.1.symm
  have hself := hoff []
  rw [List.append_nil] at hself
  refine ⟨(hs.kind _ hself).trans h.kind, (hs.presence _ hself).trans h.presence,
    h.below.of_sameBelow ⟨fun q _ => hs.kind _ (hoff q), fun q _ => hs.presence _ (hoff q),
      fun q => hs.children _ (hoff q) ?_⟩⟩
  rw [List.dropLast_concat, List.append_assoc]
  exact fun heq => List.cons_ne_nil name q (List.append_right_eq_self.mp heq)

/-- Shapes that have changed under one name are shown, if the tables show what is there now. -/
theorem ShowsAt.replace (h : t.ShowsAt above ss) (hoff : SameOff (above ++ [name]) t t')
    (hnames : t'.children above = ss'.map Shape.name)
    (hothers : ∀ other, other ≠ name → Shape.named? other ss' = Shape.named? other ss)
    (hself : t'.ShowsIn (above ++ [name]) (Shape.named? name ss')) : t'.ShowsAt above ss' := by
  refine showsAt_iff.mpr ⟨hnames, fun other => ?_⟩
  by_cases ho : other = name
  · subst ho
    exact hself
  · rw [hothers other ho]
    exact ((showsAt_iff.mp h).2 other).of_sameOff hoff ho

/-! ## Names that come in -/

/-- A name has come into the tables and was seen once more, where they had a shape under it, or
none. -/
structure Enters (above : Path) (name : String) (s? : Option Shape) (kind : Kind)
    (t t' : Tables) : Prop where
  kind : t'.kind? (above ++ [name]) = some ((s?.map Shape.kind).getD kind)
  presence : t'.presence (above ++ [name]) = Shape.seenBefore s? + 1
  children : t'.children above = t.children above ++ if s?.isNone then [name] else []
  off : SameOff (above ++ [name]) t t'
  below : t'.ShowsAt (above ++ [name]) (Shape.inner s?)

theorem presence_see_self (path : Path) (t : Tables) :
    (t.see path).presence path = t.presence path + 1 := if_pos rfl

theorem sameOff_see (t : Tables) : SameOff path t (t.see path) := by
  refine ⟨fun _ _ => rfl, fun q hq => if_neg ?_, fun _ _ _ => rfl⟩
  rintro rfl
  exact hq (List.prefix_refl q)

theorem sameBelow_see (t : Tables) : SameBelow path t (t.see path) := by
  refine ⟨fun _ _ => rfl, fun q hq => if_neg ?_, fun _ => rfl⟩
  exact fun heq => hq (List.append_right_eq_self.mp heq)

/-- A new name. -/
theorem register_of_none (h : t.kind? (above ++ [name]) = none) (kind : Kind) :
    (t.register above name kind).2 = true ∧
      (t.register above name kind).1.kind? (above ++ [name]) = some kind ∧
      (t.register above name kind).1.presence = t.presence ∧
      (t.register above name kind).1.children above = t.children above ++ [name] ∧
      SameOff (above ++ [name]) t (t.register above name kind).1 ∧
      SameBelow (above ++ [name]) t (t.register above name kind).1 := by
  have hother : ∀ q, q ≠ above ++ [name] →
      List.lookup q ((above ++ [name], kind) :: t.registered) = t.kind? q := by
    intro q hq
    rw [List.lookup_cons, beq_false_of_ne hq]
    rfl
  simp only [register, h]
  refine ⟨trivial, List.lookup_cons_self, trivial, if_pos trivial, ⟨?_, fun _ _ => rfl, ?_⟩,
    ⟨?_, fun _ _ => rfl, ?_⟩⟩
  · intro q hq
    refine hother q ?_
    rintro rfl
    exact hq (List.prefix_refl _)
  · intro q _ hne
    rw [List.dropLast_concat] at hne
    exact if_neg hne
  · intro q hq
    exact hother _ fun heq => hq (List.append_right_eq_self.mp heq)
  · intro q
    refine if_neg fun heq => ?_
    rw [List.append_assoc] at heq
    exact List.cons_ne_nil name q (List.append_right_eq_self.mp heq)

theorem register_of_some {known : Kind} (h : t.kind? (above ++ [name]) = some known) (kind : Kind) :
    t.register above name kind = (t, decide (known = kind)) := by
  simp only [register, h]

/-- **A name comes into the tables**, whatever its kind. -/
theorem enters_register (h : t.ShowsIn (above ++ [name]) s?) (kind : Kind) :
    Enters above name s? kind t ((t.register above name kind).1.see (above ++ [name])) := by
  cases s? with
  | none =>
    obtain ⟨-, hkind, hseen, hchildren, hoff, hbelow⟩ := register_of_none h.kind kind
    refine ⟨hkind, ?_, hchildren, hoff.trans (sameOff_see _),
      h.below.of_sameBelow (hbelow.trans (sameBelow_see _))⟩
    rw [presence_see_self, hseen, h.presence]
  | some s =>
    rw [register_of_some h.kind]
    refine ⟨h.kind, ?_, (List.append_nil _).symm, sameOff_see t,
      h.below.of_sameBelow (sameBelow_see t)⟩
    rw [presence_see_self, h.presence]

theorem register_snd (h : t.ShowsIn (above ++ [name]) s?) (kind : Kind) :
    (t.register above name kind).2 = true ↔ ∀ s, s? = some s → s.kind = kind := by
  cases s? with
  | none => exact iff_of_true (register_of_none h.kind kind).1 fun s hs => (by cases hs)
  | some s =>
    rw [register_of_some h.kind]
    simp

/-! ## Fields and attributes -/

/-- What fields do to tables that show some shapes. -/
def Follows (row : Int) (fs : List Field) : Prop :=
  ∀ (above : Path) (t : Tables) (ss : List Shape), t.ShowsAt above ss →
    (sightAll above t fs).ShowsAt above (Shape.absorb row above ss fs).shapes ∧
      SameAround above t (sightAll above t fs)

/-- A field comes into the tables as its shape absorbs it. -/
theorem showsAt_sight {row : Int} {f : Field} (ih : Follows row f.fields)
    (h : t.ShowsAt above ss) :
    (sight above t f).ShowsAt above (Shape.absorbField row above ss f).shapes ∧
      SameOff (above ++ [f.name]) t (sight above t f) := by
  obtain ⟨hnames, hbelow⟩ := showsAt_iff.mp h
  have hshape := (Shape.absorbField_eq row above ss f).1
  have hothers : ∀ other, other ≠ f.name →
      Shape.named? other (Shape.absorbField row above ss f).shapes = Shape.named? other ss :=
    fun other ho => Shape.named?_absorbField_of_ne ho
  rw [sight_eq]
  by_cases ha : Shape.Accepts (Shape.named? f.name ss) f
  · have hin := enters_register (hbelow f.name) f.kind
    rw [if_pos ((register_snd (hbelow f.name) f.kind).mpr ha)]
    generalize (t.register above f.name f.kind).1.see (above ++ [f.name]) = t₁ at hin ⊢
    obtain ⟨hinner, haround⟩ := ih (above ++ [f.name]) t₁ _ hin.below
    have hoff := hin.off.trans haround.off
    obtain ⟨hkind, hseen, hshapes, -, -⟩ := Shape.meet_of_accepts row above ha
    refine ⟨h.replace hoff ?_ hothers ?_, hoff⟩
    · rw [Shape.names_absorbField, haround.children above (not_isPrefix_concat above f.name),
        hin.children, hnames]
    · rw [hshape]
      refine ⟨?_, ?_, ?_⟩
      · rw [haround.kind _ (Or.inr rfl), hin.kind, Option.map_some, hkind]
        cases hs : Shape.named? f.name ss with
        | none => rfl
        | some s => rw [Option.map_some, Option.getD_some, ha s hs]
      · rw [haround.presence _ (Or.inr rfl), hin.presence, ← hseen]
        rfl
      · rw [Shape.inner, Option.map_some, Option.getD_some, hshapes]
        exact hinner
  · obtain ⟨s, hs, hne⟩ := Shape.exists_of_not_accepts ha
    have hknown : t.kind? (above ++ [f.name]) = some s.kind := by
      rw [(hbelow f.name).kind, hs, Option.map_some]
    rw [register_of_some hknown, if_neg (by simpa using hne)]
    rw [hs, Shape.meet_of_ne hne] at hshape
    refine ⟨showsAt_iff.mpr ⟨?_, fun other => ?_⟩, (SameAround.refl _ t).off⟩
    · rw [Shape.names_absorbField, hs, hnames]
      exact (List.append_nil _).symm
    · by_cases ho : other = f.name
      · subst ho
        rw [hshape, ← hs]
        exact hbelow f.name
      · rw [hothers other ho]
        exact hbelow other

/-- **The fields of a row come into the tables as their shapes absorb them.** -/
theorem showsAt_sightAll (row : Int) (fs : List Field) : Follows row fs := by
  induction fs using Field.induction_below with
  | below fs ih =>
    intro above t ss h
    induction fs generalizing t ss with
    | nil =>
      rw [sightAll]
      exact ⟨h, .refl above t⟩
    | cons f rest ihRest =>
      obtain ⟨hfield, hoff⟩ := showsAt_sight (ih f List.mem_cons_self) h
      obtain ⟨hrest, haround⟩ :=
        ihRest (fun g hg => ih g (List.mem_cons_of_mem f hg)) _ _ hfield
      rw [sightAll]
      exact ⟨hrest, hoff.around.trans haround⟩

theorem named?_concat_of_ne {s : Shape} (h : s.name ≠ name) (ss : List Shape) :
    Shape.named? name (ss ++ [s]) = Shape.named? name ss := by
  cases hn : Shape.named? name ss with
  | none => rw [Shape.named?_append_of_none hn, Shape.named?_cons, if_neg h]; rfl
  | some s' => exact Shape.named?_append_of_some hn [s]

/-- The keys of attributes come into the tables as shapes are touched by them. -/
theorem showsAt_touchAll (keys : List String) (h : t.ShowsAt above ss) :
    (keys.foldl (touch above) t).ShowsAt above (keys.foldl Shape.touch ss) ∧
      SameAround above t (keys.foldl (touch above) t) := by
  induction keys generalizing t ss with
  | nil => exact ⟨h, .refl above t⟩
  | cons key rest ih =>
    obtain ⟨hnames, hbelow⟩ := showsAt_iff.mp h
    have hin := enters_register (hbelow key) .scalar
    have htouch : (touch above t key).ShowsAt above (Shape.touch ss key) := by
      rw [Shape.touch]
      cases hs : Shape.named? key ss with
      | none =>
        rw [hs] at hin
        refine h.replace hin.off ?_ (fun other ho => named?_concat_of_ne (Ne.symm ho) ss) ?_
        · rw [touch, hin.children, hnames, List.map_append]
          rfl
        · rw [Shape.named?_append_of_none hs, show Shape.named? key [.scalar key 1] = _ from
            (Shape.named?_cons ..).trans (if_pos rfl)]
          exact ⟨hin.kind, hin.presence, hin.below⟩
      | some s =>
        rw [hs] at hin
        refine h.replace hin.off ?_
          (fun other ho => Shape.named?_change_of_ne ho _ Shape.name_again ss) ?_
        · rw [touch, hin.children, hnames, Shape.names_change _ Shape.name_again]
          exact List.append_nil _
        · rw [Shape.named?_change_self _ Shape.name_again, hs, Option.map_some]
          refine ⟨?_, ?_, ?_⟩
          · rw [touch, hin.kind, Option.map_some, Option.map_some, Shape.kind_again]
            rfl
          · rw [touch, hin.presence]
            cases s <;> rfl
          · rw [Shape.inner, Option.map_some, Shape.shapes_again]
            exact hin.below
    obtain ⟨hrest, haround⟩ := ih htouch
    exact ⟨hrest, hin.off.around.trans haround⟩

end Tables

end Strict

end Tabular
