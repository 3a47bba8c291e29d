import Tabular.Proofs.Schema.Agreement

/-!
# Drafts by handle

A draft whose fields are addressed by handles, which may be any numbers. A handle that no field has
is a breach, and so is a text for a field that was not added.

* `Breach`: what the parts of a reader rely on without a check;
* `Field.index`, `mem_walk_iff`, `mem_index_iff`, `index_changeAt`, **`index_addAt`**: the handles of
  all fields, and what a change by path does to them;
* `Draft.Sound`, `Draft.handleAt?`: drafts in which a handle stands for one field;
* `Strict.promote`, `Strict.insert`, `Strict.assign`, `Strict.child`, `Strict.kind`: the draft by
  handle;
* `Sound.promote`, `Sound.assign`, **`Sound.insert`**: the handles of fields stay, and a new field has
  the next one;
* **`resolve_handleAt`**, `promote_eq`, `insert_eq`, `assign_eq`, `kind_eq`: a handle leads to its
  field.
-/

namespace Tabular

/-- What the parts of a reader rely on without a check. -/
inductive Breach where
  /-- No element of a row is open. -/
  | noFrame
  /-- No row is under construction. -/
  | noRow
  /-- No field of the row has the handle. -/
  | noField (handle : Int)
  /-- The path of a flattened element has no name. -/
  | noName
  /-- A text is set for a field that was not added. -/
  | notAdded
  /-- A path is listed among the columns that has no kind. -/
  | unregistered (path : Path)
  /-- There are more columns than registered paths, or more batches than events. -/
  | endless
  deriving Repr, DecidableEq, Inhabited

/-! ## Handles of fields -/

namespace Field

variable {fs : List Field} {f new : Field} {name : String} {path above q : Path} {handle : Nat}

theorem walk_cons (above : Path) (f : Field) (rest : List Field) :
    walk above (f :: rest) =
      (above ++ [f.name], f) :: (walk (above ++ [f.name]) f.fields ++ walk above rest) := by
  cases f <;> rfl

theorem walk_eq_flatMap (above : Path) (fs : List Field) :
    walk above fs = fs.flatMap fun f =>
      (above ++ [f.name], f) :: walk (above ++ [f.name]) f.fields := by
  induction fs with
  | nil => rfl
  | cons f rest ih => rw [walk_cons, ih, List.flatMap_cons, List.cons_append]

/-- The paths of fields under `above`, and of what they hold, each with its handle. -/
def index (above : Path) (fs : List Field) : List (Path × Nat) :=
  (walk above fs).map fun e => (e.1, e.2.handle)

theorem index_cons (above : Path) (f : Field) (rest : List Field) :
    index above (f :: rest) = (above ++ [f.name], f.handle) :: index (above ++ [f.name]) f.fields ++
      index above rest := by
  rw [index, walk_cons, List.map_cons, List.map_append]
  rfl

theorem index_append (above : Path) (fs gs : List Field) :
    index above (fs ++ gs) = index above fs ++ index above gs := by
  induction fs with
  | nil => rfl
  | cons f rest ih => rw [List.cons_append, index_cons, ih, index_cons, List.append_assoc]

theorem pathOf?_eq (handle : Nat) (above : Path) (fs : List Field) :
    pathOf? handle above fs = ((index above fs).find? fun e => e.2 == handle).map Prod.fst := by
  induction fs using Field.induction generalizing above with
  | nil => rfl
  | scalar n k v rest ih =>
    rw [pathOf?, pathOfIn?, index_cons, ih]
    by_cases hk : k = handle
    · simp [hk, Field.handle, name]
    · simp [hk, Field.handle, name, fields, index, walk]
  | map n k inner rest ihFields ihRest =>
    rw [pathOf?, pathOfIn?, index_cons, ihFields, ihRest]
    by_cases hk : k = handle
    · simp [hk, Field.handle, name]
    · simp [hk, Field.handle, name, fields, List.find?_append, Option.map_or]

/-- Where no map has a name twice, a walk meets what stands at each path. -/
theorem mem_walk_iff (hd : Distinct fs) : (q, f) ∈ walk above fs ↔
    ∃ path, q = above ++ path ∧ find? path fs = some f := by
  induction fs using Field.induction_below generalizing above q with
  | below fs ih =>
    rw [walk_eq_flatMap, List.mem_flatMap]
    simp only [List.mem_cons]
    constructor
    · rintro ⟨g, hg, heq | hin⟩
      · obtain ⟨rfl, rfl⟩ := Prod.mk.inj heq
        exact ⟨[f.name], rfl, named?_of_mem hd.nodup hg⟩
      · have hn := named?_of_mem hd.nodup hg
        obtain ⟨path, rfl, hf⟩ := (ih g hg (hd.named? hn)).mp hin
        have hp : path ≠ [] := by
          rintro rfl
          cases hf
        refine ⟨g.name :: path, (List.append_cons above g.name path).symm, ?_⟩
        rw [find?_cons, hn, Option.bind_some, if_neg hp, hf]
    · rintro ⟨path, rfl, hf⟩
      cases path with
      | nil => cases hf
      | cons n rest =>
        rw [find?_cons] at hf
        obtain ⟨g, hn, hf⟩ := Option.bind_eq_some_iff.mp hf
        refine ⟨g, List.mem_of_find?_eq_some hn, ?_⟩
        rw [name_of_named? hn]
        by_cases hr : rest = []
        · subst hr
          rw [if_pos rfl] at hf
          cases hf
          exact Or.inl rfl
        · rw [if_neg hr] at hf
          refine Or.inr ((ih g (List.mem_of_find?_eq_some hn) (hd.named? hn)).mpr ?_)
          exact ⟨rest, List.append_cons above n rest, hf⟩

/-- The index tells what stands at each path. -/
theorem mem_index_iff (hd : Distinct fs) : (q, handle) ∈ index above fs ↔
    ∃ path f, q = above ++ path ∧ find? path fs = some f ∧ f.handle = handle := by
  rw [index, List.mem_map]
  constructor
  · rintro ⟨⟨q', f⟩, he, heq⟩
    obtain ⟨rfl, rfl⟩ := Prod.mk.inj heq
    obtain ⟨path, hq, hf⟩ := (mem_walk_iff hd).mp he
    exact ⟨path, f, hq, hf, rfl⟩
  · rintro ⟨path, f, hq, hf, rfl⟩
    exact ⟨(q, f), (mem_walk_iff hd).mpr ⟨path, hq, hf⟩, rfl⟩

/-! ### Changes by path -/

/-- A change of fields that keeps their names and handles, and those of what they hold. -/
structure Renames (g : Field → Field) : Prop where
  name : ∀ f, (g f).name = f.name
  handle : ∀ f, (g f).handle = f.handle
  index : ∀ above f, Field.index above (g f).fields = Field.index above f.fields

theorem index_change {g : Field → Field} (hg : Renames g) (name : String) (above : Path)
    (fs : List Field) : index above (change name g fs) = index above fs := by
  induction fs with
  | nil => rfl
  | cons f rest ih =>
    rw [change]
    split
    · rw [index_cons, index_cons, hg.name, hg.handle, hg.index]
    · rw [index_cons, index_cons, ih]

/-- A change by path that keeps names and handles. -/
theorem index_changeAt {g : Field → Field} (hg : Renames g) (path above : Path)
    (fs : List Field) : index above (changeAt path g fs) = index above fs := by
  induction path generalizing above fs with
  | nil => rfl
  | cons n rest ih =>
    by_cases hr : rest = []
    · subst hr
      exact index_change hg n above fs
    · rw [changeAt_cons_of_ne_nil hr]
      refine index_change ⟨name_mapFields _, fun f => by cases f <;> rfl, fun above f => ?_⟩ n above fs
      cases f with
      | scalar m k v => rfl
      | map m k inner => exact ih above inner

theorem renames_promoted : Renames promoted :=
  ⟨name_promoted, fun f => by cases f <;> rfl, fun above f => by rw [fields_promoted]⟩

theorem renames_assigned (value : Option String) : Renames (assigned value) :=
  ⟨name_assigned value, fun f => by cases f <;> rfl, fun above f => by cases f <;> rfl⟩

/-- A change of the field at a path that does not change this field. -/
theorem changeAt_of_find? {g : Field → Field} (hf : find? path fs = some f) (hg : g f = f) :
    changeAt path g fs = fs := by
  induction path generalizing fs with
  | nil => rfl
  | cons n rest ih =>
    by_cases hr : rest = []
    · subst hr
      exact change_of_named? fun f' hf' => Option.some.inj (hf'.symm.trans hf) ▸ hg
    · rw [find?_cons_of_ne_nil hr] at hf
      rw [changeAt_cons_of_ne_nil hr]
      refine change_of_named? fun f' hf' => ?_
      rw [hf', Option.bind_some] at hf
      cases f' with
      | scalar m k v => rfl
      | map m k inner => exact congrArg (Field.map m k) (ih hf)

theorem index_change_perm {g : Field → Field} {e : Path × Nat} (hf : named? name fs = some f)
    (hname : (g f).name = name) (hhandle : (g f).handle = f.handle)
    (hindex : (index (above ++ [name]) (g f).fields).Perm (e :: index (above ++ [name]) f.fields)) :
    (index above (change name g fs)).Perm (e :: index above fs) := by
  induction fs with
  | nil => cases hf
  | cons f' rest ih =>
    rw [named?_cons] at hf
    rw [change]
    split at hf
    · next hn =>
      cases hf
      rw [if_pos hn, index_cons, index_cons, hname, hhandle, hn]
      refine (List.Perm.cons _ (hindex.append_right _)).trans ?_
      exact List.Perm.swap _ _ _
    · next hn =>
      rw [if_neg hn, index_cons, index_cons]
      exact ((ih hf).append_left _).trans List.perm_middle

/-- **A new field comes into the index**, and all others stay in it. -/
theorem index_addAt (hp : path = [] ∨ has path fs = true) (above : Path) (value : Option String) :
    (index above (addAt path (.scalar name handle value) fs)).Perm
      ((above ++ (path ++ [name]), handle) :: index above fs) := by
  induction path generalizing above fs with
  | nil =>
    rw [addAt, index_append]
    exact List.perm_append_singleton _ _
  | cons n rest ih =>
    obtain ⟨f, hf, hrest⟩ := exists_named?_of_has (hp.resolve_left (List.cons_ne_nil n rest))
    have hinner := ih hrest (above ++ [n])
    rw [← List.append_cons, ← List.cons_append] at hinner
    rw [addAt]
    refine index_change_perm hf ?_ ?_ ?_
    · rw [name_mapFields, name_promoted, name_of_named? hf]
    · cases f <;> rfl
    · cases f with
      | scalar m k v => exact hinner
      | map m k inner => exact hinner

end Field

/-! ## Drafts in which a handle stands for one field -/

namespace Draft

variable {d d' : Draft} {path q : Path} {name : String} {value : Option String} {handle : Nat}

/-- The handle of the row element, or of the field at a path. -/
def handleAt? (path : Path) (d : Draft) : Option Nat :=
  (d.node? path).map Field.handle

/-- No map of the draft has a name twice, no two fields have one handle, and all handles are in
range. -/
structure Sound (d : Draft) : Prop where
  distinct : Field.Distinct d.fields
  unique : ((Field.index [] d.fields).map Prod.snd).Nodup
  range : ∀ e ∈ Field.index [] d.fields, 1 ≤ e.2 ∧ e.2 < d.size
  one_le : 1 ≤ d.size

theorem sound_start (tag : String) (attributes : Entries (Option String)) :
    Sound { tag, attributes } :=
  ⟨Field.distinct_nil, List.nodup_nil, fun _ h => (by cases h), Nat.le_refl 1⟩

theorem handleAt?_nil (d : Draft) : d.handleAt? [] = some 0 := rfl

theorem handleAt?_of_ne_nil (hp : path ≠ []) (d : Draft) :
    d.handleAt? path = (Field.find? path d.fields).map Field.handle := by
  rw [handleAt?, node?, if_neg (by simpa using hp)]

theorem has_of_handleAt? (h : (d.handleAt? path).isSome = true) :
    path = [] ∨ Field.has path d.fields = true := by
  by_cases hp : path = []
  · exact Or.inl hp
  · rw [handleAt?_of_ne_nil hp, Option.isSome_map] at h
    exact Or.inr h

theorem Sound.handleAt?_eq_some_iff (h : d.Sound) : d.handleAt? path = some handle ↔
    path = [] ∧ handle = 0 ∨ (path, handle) ∈ Field.index [] d.fields := by
  rw [Field.mem_index_iff h.distinct]
  by_cases hp : path = []
  · subst hp
    rw [handleAt?_nil, Option.some.injEq]
    constructor
    · exact fun h => Or.inl ⟨rfl, h.symm⟩
    · rintro (⟨-, rfl⟩ | ⟨q, f, hq, hf, -⟩)
      · rfl
      · rw [← hq.trans (List.nil_append q)] at hf
        cases hf
  · rw [handleAt?_of_ne_nil hp, Option.map_eq_some_iff]
    constructor
    · rintro ⟨f, hf, hk⟩
      exact Or.inr ⟨path, f, rfl, hf, hk⟩
    · rintro (⟨hp', -⟩ | ⟨q, f, rfl, hf, hk⟩)
      · exact absurd hp' hp
      · exact ⟨f, hf, hk⟩

/-- A handle leads back to the path of its field. -/
theorem Sound.pathOf?_handleAt (h : d.Sound) (hk : d.handleAt? path = some handle) :
    handle < d.size ∧ d.pathOf? handle = some path := by
  rcases h.handleAt?_eq_some_iff.mp hk with ⟨rfl, rfl⟩ | hmem
  · exact ⟨h.one_le, rfl⟩
  · obtain ⟨hpos, hlt⟩ := h.range _ hmem
    refine ⟨hlt, ?_⟩
    rw [pathOf?, if_neg (by omega), Field.pathOf?_eq]
    obtain ⟨e, he⟩ : ∃ e, (Field.index [] d.fields).find? (fun e => e.2 == handle) = some e := by
      rw [← Option.isSome_iff_exists, List.find?_isSome]
      exact ⟨_, hmem, beq_self_eq_true handle⟩
    -- no other path has the handle
    have heq : e = (path, handle) := by
      refine List.inj_on_of_nodup_map h.unique (List.mem_of_find?_eq_some he) hmem ?_
      simpa using List.find?_some he
    rw [he, heq]
    rfl

/-! ### Changes that keep the index -/

theorem Sound.of_index (h : d.Sound) (hd : Field.Distinct d'.fields) (hsize : d'.size = d.size)
    (hindex : Field.index [] d'.fields = Field.index [] d.fields) :
    d'.Sound ∧ ∀ q, d'.handleAt? q = d.handleAt? q := by
  have hsound : d'.Sound := by
    refine ⟨hd, ?_, ?_, ?_⟩
    · rw [hindex]
      exact h.unique
    · rw [hindex, hsize]
      exact h.range
    · rw [hsize]
      exact h.one_le
  refine ⟨hsound, fun q => Option.ext fun k => ?_⟩
  rw [hsound.handleAt?_eq_some_iff, h.handleAt?_eq_some_iff, hindex]

theorem Sound.promote (h : d.Sound) (path : Path) :
    (d.promote path).Sound ∧ ∀ q, (d.promote path).handleAt? q = d.handleAt? q :=
  h.of_index (Field.stable_distinct.promote path d.fields h.distinct) rfl
    (Field.index_changeAt Field.renames_promoted path [] d.fields)

theorem Sound.assign (h : d.Sound) (path : Path) (value : Option String) :
    (d.assign path value).Sound ∧ ∀ q, (d.assign path value).handleAt? q = d.handleAt? q :=
  h.of_index (Field.stable_distinct.assign path value d.fields h.distinct) rfl
    (Field.index_changeAt (Field.renames_assigned value) path [] d.fields)

/-- A text for a map changes nothing. -/
theorem assign_of_map {f : Field} (hf : d.node? path = some f) (hm : f.kind = .map)
    (value : Option String) : d.assign path value = d := by
  have hfields : Field.assignAt path value d.fields = d.fields := by
    cases path with
    | nil => rfl
    | cons n rest =>
      refine Field.changeAt_of_find? hf ?_
      cases f with
      | scalar m k v => cases hm
      | map m k inner => rfl
  rw [assign, hfields]

/-! ### New fields -/

/-- The new field is found under the next handle, besides those that were there. -/
theorem index_insert (hp : (d.handleAt? path).isSome = true) (hi : d.insert path name = some d') :
    (Field.index [] d'.fields).Perm ((path ++ [name], d.size) :: Field.index [] d.fields) := by
  obtain ⟨-, rfl⟩ := insert_eq_some_iff.mp hi
  exact Field.index_addAt (has_of_handleAt? hp) [] none

theorem Sound.inserted (h : d.Sound) (hp : (d.handleAt? path).isSome = true)
    (hi : d.insert path name = some d') : d'.Sound := by
  have hperm := index_insert hp hi
  obtain ⟨hfree, rfl⟩ := insert_eq_some_iff.mp hi
  refine ⟨h.distinct.addAt hfree Field.distinct_nil, ?_, fun e he => ?_,
    Nat.le_succ_of_le h.one_le⟩
  · rw [(hperm.map Prod.snd).nodup_iff, List.map_cons, List.nodup_cons]
    refine ⟨fun hmem => ?_, h.unique⟩
    obtain ⟨e, he, heq⟩ := List.mem_map.mp hmem
    exact Nat.ne_of_lt (h.range e he).2 heq
  · rcases List.mem_cons.mp (hperm.mem_iff.mp he) with rfl | he
    · exact ⟨h.one_le, Nat.lt_succ_self d.size⟩
    · exact ⟨(h.range e he).1, Nat.lt_succ_of_lt (h.range e he).2⟩

theorem Sound.insert (h : d.Sound) (hp : (d.handleAt? path).isSome = true)
    (hi : d.insert path name = some d') :
    d'.Sound ∧ d'.handleAt? (path ++ [name]) = some d.size ∧
      ∀ q, (d.handleAt? q).isSome = true → d'.handleAt? q = d.handleAt? q := by
  have hperm := index_insert hp hi
  have hsound := h.inserted hp hi
  refine ⟨hsound, ?_, fun q hq => ?_⟩
  · rw [hsound.handleAt?_eq_some_iff]
    exact Or.inr (hperm.mem_iff.mpr List.mem_cons_self)
  · obtain ⟨k, hk⟩ := Option.isSome_iff_exists.mp hq
    rw [hk, hsound.handleAt?_eq_some_iff]
    refine (h.handleAt?_eq_some_iff.mp hk).imp_right fun hmem => ?_
    exact hperm.mem_iff.mpr (List.mem_cons_of_mem _ hmem)

end Draft

/-! ## The draft by handle -/

namespace Strict

/-- The path to a handle. -/
def resolve (handle : Int) (d : Draft) : Except Breach Path :=
  if 0 ≤ handle ∧ handle < d.size then
    match d.pathOf? handle.toNat with
    | some path => .ok path
    | none => .error (.noField handle)
  else .error (.noField handle)

/-- The field with a handle made a map. -/
def promote (handle : Int) (d : Draft) : Except Breach Draft := do
  let path ← resolve handle d
  return d.promote path

/-- A new empty text under the field with a handle, and its own handle; none where the name is
taken. -/
def insert (parent : Int) (name : String) (d : Draft) : Except Breach (Option (Int × Draft)) := do
  let path ← resolve parent d
  return (d.insert path name).map fun d' => ((d.size : Int), d')

/-- The text of the field with a handle set. -/
def assign (handle : Int) (value : Option String) (d : Draft) : Except Breach Draft := do
  let path ← resolve handle d
  return d.assign path value

/-- The handle of the field of that name under the field with a handle. -/
def child (parent : Int) (name : String) (d : Draft) : Except Breach (Option Int) := do
  let path ← resolve parent d
  return (Field.named? name (Field.under path d.fields)).map fun f => (f.handle : Int)

/-- The kind of the field with a handle. -/
def kind (handle : Int) (d : Draft) : Except Breach Kind := do
  let path ← resolve handle d
  match d.node? path with
  | some f => return f.kind
  | none => .error (.noField handle)

variable {d : Draft} {path : Path} {handle : Nat} {name : String} {value : Option String}

/-- **A handle leads to its field.** -/
theorem resolve_handleAt (h : d.Sound) (hk : d.handleAt? path = some handle) :
    resolve handle d = .ok path := by
  obtain ⟨hlt, hpath⟩ := h.pathOf?_handleAt hk
  rw [resolve, if_pos ⟨Int.natCast_nonneg handle, Int.ofNat_lt.mpr hlt⟩, Int.toNat_natCast, hpath]

theorem promote_eq (h : d.Sound) (hk : d.handleAt? path = some handle) :
    promote handle d = .ok (d.promote path) := by
  rw [promote, resolve_handleAt h hk]
  rfl

theorem insert_eq (h : d.Sound) (hk : d.handleAt? path = some handle) (name : String) :
    insert handle name d = .ok ((d.insert path name).map fun d' => ((d.size : Int), d')) := by
  rw [insert, resolve_handleAt h hk]
  rfl

theorem assign_eq (h : d.Sound) (hk : d.handleAt? path = some handle) (value : Option String) :
    assign handle value d = .ok (d.assign path value) := by
  rw [assign, resolve_handleAt h hk]
  rfl

theorem child_root (h : d.Sound) (name : String) :
    child 0 name d = .ok ((Field.named? name d.fields).map fun f => (f.handle : Int)) := by
  rw [child, ← Int.natCast_zero, resolve_handleAt h d.handleAt?_nil]
  rfl

theorem kind_eq (h : d.Sound) (hk : d.handleAt? path = some handle) {f : Field}
    (hf : d.node? path = some f) : kind handle d = .ok f.kind := by
  rw [kind, resolve_handleAt h hk]
  simp only [bind, Except.bind, hf]
  rfl

end Strict

end Tabular
