import Tabular.Proofs.Options.Loaded
import Tabular.Proofs.Value.Extended

/-!
# Options in layers

Options that were loaded can be loaded again with settings on top. That is the same as putting the
settings on top of what the options were loaded from: what a field was read as is read as itself.

* `Entries.putAll_of_subset`, `Entries.filter_putAll`: writing over entries;
* `IsPlain`: settings that use no alias;
* `Gives`, `gives_of_load`, `Gives.load_eq`: settings that give options, field by field;
* `Gives.entries`: options give themselves;
* `load_putAll_congr`: settings that give the same options are the same below others;
* **`override_load`**: options in layers.
-/

namespace Tabular

/-! ## Writing over entries -/

namespace Entries

variable {α : Type} {es later : Entries α} {key : String}

theorem put_of_mem {value : α} (hn : (keys es).Nodup) (h : (key, value) ∈ es) :
    put key value es = es := by
  induction es with
  | nil => cases h
  | cons e rest ih =>
    rw [keys, List.map_cons, List.nodup_cons] at hn
    rw [put]
    rcases List.mem_cons.mp h with rfl | h
    · rw [if_pos rfl]
    · have hne : e.1 ≠ key := fun he => hn.1 (he ▸ List.mem_map_of_mem h)
      rw [if_neg hne, ih hn.2 h]

/-- Entries stay as they are where some of them are written again. -/
theorem putAll_of_subset (hn : (keys es).Nodup) (h : later ⊆ es) : putAll es later = es := by
  induction later with
  | nil => rfl
  | cons e rest ih =>
    obtain ⟨he, hrest⟩ := List.cons_subset.mp h
    rw [putAll, List.foldl_cons, put_of_mem hn he]
    exact ih hrest

theorem filter_put {p : String → Bool} (key : String) (value : α) (es : Entries α) :
    (put key value es).filter (fun e => p e.1) =
      if p key then put key value (es.filter fun e => p e.1) else es.filter fun e => p e.1 := by
  induction es with
  | nil => cases hp : p key <;> simp [put, hp]
  | cons e rest ih =>
    by_cases he : e.1 = key
    · subst he
      cases hp : p e.1 <;> simp [put, hp]
    · rw [put, if_neg he, List.filter_cons, List.filter_cons, ih]
      cases hp : p key <;> cases hq : p e.1 <;> simp [put, he]

/-- Choosing among keys can come before or after the writing. -/
theorem filter_putAll {p : String → Bool} (es later : Entries α) :
    (putAll es later).filter (fun e => p e.1) =
      putAll (es.filter fun e => p e.1) (later.filter fun e => p e.1) := by
  induction later generalizing es with
  | nil => rfl
  | cons e rest ih =>
    rw [putAll, List.foldl_cons, ← putAll, ih, filter_put, List.filter_cons]
    cases p e.1 <;> rfl

end Entries

/-! ## Fields under their own names -/

namespace Options

variable {c : Checker} {α β : Type} {given given' : Entries α} {name longer : String} {default : β}
  {read : α → Except Fault β}

theorem field_single (hc : c.Lawful) : field c [name] default read given =
    match Entries.get? name given with
    | none => .ok default
    | some a => (read a).mapError fun fault => ⟨some name, fault⟩ := by
  rw [field, given?_single hc]
  cases Entries.get? name given <;> rfl

theorem field_of_longer (hc : c.Lawful) (h : Entries.get? longer given = none) :
    field c [longer, name] default read given = field c [name] default read given := by
  have hgiven : given? c [longer, name] given = given? c [name] given := by
    rw [given?_single hc]
    refine given?_of_mem hc (by simp) fun other hother hne => ?_
    obtain rfl : other = longer := by simpa [hne] using hother
    exact h
  rw [field, hgiven, field]

/-- A field that entries give alike is given alike below others. -/
theorem field_putAll_congr (hc : c.Lawful)
    (h : field c [name] default read given = field c [name] default read given')
    (later : Entries α) : field c [name] default read (Entries.putAll given later) =
      field c [name] default read (Entries.putAll given' later) := by
  rw [field_single hc, field_single hc] at h
  rw [field_single hc, field_single hc, Entries.get?_putAll_reverse, Entries.get?_putAll_reverse]
  cases Entries.get? name later.reverse with
  | none => exact h
  | some a => rfl

/-- A field that is not among the later entries. -/
theorem field_putAll_of_not_mem (hc : c.Lawful) {later : Entries α}
    (h : name ∉ Entries.keys later) : field c [name] default read (Entries.putAll given later) =
      field c [name] default read given := by
  rw [field_single hc, field_single hc, Entries.get?_putAll_of_not_mem h]

end Options

namespace ReaderOptions

open Options (Checker field unknownKeys field_of_longer field_single readNat readOptional)

/-- The names of the fields. -/
def names : List String :=
  ["data_level", "flatten_level", "row_tag", "projection", "limit", "batch_size", "pin_schema",
    "attribute_scope", "flatten_collision"]

/-- The longer names that stand for a field, too. -/
def aliases : List String :=
  ["dataLevel", "flattenLevel"]

/-- No setting is under an alias. -/
def IsPlain {α : Type} (given : Entries α) : Prop :=
  ∀ key ∈ Entries.keys given, key ∉ aliases

instance {α : Type} (given : Entries α) : Decidable (IsPlain given) :=
  inferInstanceAs (Decidable (∀ key ∈ Entries.keys given, key ∉ aliases))

variable {c : Checker} {given given' later : Entries Setting} {o : ReaderOptions} {key : String}

theorem IsPlain.get?_eq_none (h : IsPlain given) (hkey : key ∈ aliases) :
    Entries.get? key given = none := by
  rw [← Option.not_isSome_iff_eq_none]
  exact fun hsome => h key (Entries.has_iff.mp hsome) hkey

theorem IsPlain.putAll (h : IsPlain given) (h' : IsPlain later) :
    IsPlain (Entries.putAll given later) :=
  fun key hkey => (Entries.mem_keys_putAll.mp hkey).elim (h key) (h' key)

theorem isPlain_of_names (h : ∀ key ∈ Entries.keys given, key ∈ names) : IsPlain given := by
  have hapart : ∀ key ∈ names, key ∉ aliases := by decide
  exact fun key hkey => hapart key (h key hkey)

/-- Under plain settings the keys that belong to no field are those that are no names. -/
theorem IsPlain.unknownKeys_eq (hc : c.Lawful) (h : IsPlain given) : unknownKeys c keys given =
    (given.filter fun e => !names.contains e.1).map fun e => ⟨some e.1, .unknownKey⟩ := by
  have hsingle : ∀ ks ∈ keys, ∀ a ∈ ks, ∀ b ∈ ks, a ∉ aliases → b ∉ aliases → a = b := by decide
  have hstrays : c.strays keys (Entries.keys given) = _ := hc.strays_eq
    fun ks hks a ha b hb hgivenA hgivenB => hsingle ks hks a ha b hb (h a hgivenA) (h b hgivenB)
  have hname : ∀ e ∈ given, keys.any (·.contains e.1) = names.contains e.1 := by
    intro e he
    have hplain : e.1 ∉ aliases := h e.1 (List.mem_map_of_mem he)
    have hall : ∀ ks ∈ keys, ∀ name ∈ ks, name ∈ aliases ∨ name ∈ names := by decide
    have hfield : ∀ name ∈ names, ∃ ks ∈ keys, name ∈ ks := by decide
    rw [Bool.eq_iff_iff, List.any_eq_true, List.contains_iff_mem]
    constructor
    · rintro ⟨ks, hks, hkey⟩
      exact (hall ks hks e.1 (List.contains_iff_mem.mp hkey)).resolve_left hplain
    · intro hkey
      obtain ⟨ks, hks, hkey⟩ := hfield e.1 hkey
      exact ⟨ks, hks, List.contains_iff_mem.mpr hkey⟩
  rw [unknownKeys, hstrays, Entries.keys, List.filter_map, List.map_map]
  exact congrArg _ (List.filter_congr fun e he => congrArg (! ·) (hname e he))

/-! ## Settings field by field -/

/-- Settings of known fields that give options, field by field. -/
structure Gives (c : Checker) (given : Entries Setting) (o : ReaderOptions) : Prop where
  known : ∀ key ∈ Entries.keys given, key ∈ names
  projection : loadProjection given = .ok o.projection
  dataLevel : field c ["data_level"] 2 (loose (readNat c 1)) given = .ok o.dataLevel
  flattenLevel :
    field c ["flatten_level"] none (loose (readOptional (readNat c 1))) given = .ok o.flattenLevel
  rowTag : field c ["row_tag"] none (loose (readRowTag c)) given = .ok o.rowTag
  limit : field c ["limit"] none (loose (readOptional (readNat c 0))) given = .ok o.limit
  batchSize : field c ["batch_size"] 4096 (loose (readNat c 1)) given = .ok o.batchSize
  pinSchema : field c ["pin_schema"] false (loose c.truth) given = .ok o.pinSchema
  attributeScope : field c ["attribute_scope"] .row (loose (c.word AttributeScope.words)) given =
    .ok o.attributeScope
  flattenCollision :
    field c ["flatten_collision"] .first (loose (c.word CollisionPolicy.words)) given =
      .ok o.flattenCollision
  le_flatten : ∀ f, o.flattenLevel = some f → o.dataLevel ≤ f

theorem checkLevels_eq_ok (h : ∀ f, o.flattenLevel = some f → o.dataLevel ≤ f) :
    checkLevels o = .ok o := by
  unfold checkLevels
  split
  · rfl
  · next f hf => rw [if_neg (Nat.not_lt.mpr (h f hf))]

theorem IsPlain.field_dataLevel (hc : c.Lawful) (h : IsPlain given) :
    field c ["dataLevel", "data_level"] 2 (loose (readNat c 1)) given =
      field c ["data_level"] 2 (loose (readNat c 1)) given :=
  field_of_longer hc (h.get?_eq_none (by decide))

theorem IsPlain.field_flattenLevel (hc : c.Lawful) (h : IsPlain given) :
    field c ["flattenLevel", "flatten_level"] none (loose (readOptional (readNat c 1))) given =
      field c ["flatten_level"] none (loose (readOptional (readNat c 1))) given :=
  field_of_longer hc (h.get?_eq_none (by decide))

theorem Gives.load_eq (hc : c.Lawful) (h : Gives c given o) : load c given = .ok o := by
  have hplain := isPlain_of_names h.known
  have hunknown : unknownKeys c keys given = [] := by
    rw [hplain.unknownKeys_eq hc, List.map_eq_nil_iff, List.filter_eq_nil_iff]
    intro e he
    simpa using h.known e.1 (List.mem_map_of_mem he)
  have hload : load c given = loadWith c o.projection given := by rw [load, h.projection]
  rw [hload, loadWith, hplain.field_dataLevel hc, hplain.field_flattenLevel hc, h.dataLevel,
    h.flattenLevel, h.rowTag, h.limit, h.batchSize, h.pinSchema, h.attributeScope,
    h.flattenCollision, hunknown]
  exact checkLevels_eq_ok h.le_flatten

theorem gives_of_load (hc : c.Lawful) (hplain : IsPlain given) (h : load c given = .ok o) :
    Gives c given o := by
  obtain ⟨hprojection, hwith⟩ := of_load h
  generalize o.projection = projection at hprojection hwith
  rw [loadWith, hplain.field_dataLevel hc, hplain.field_flattenLevel hc] at hwith
  split at hwith
  · next hd hf ht hl hb hpin hs hp hunknown =>
    obtain ⟨rfl, hle⟩ := of_checkLevels hwith
    refine ⟨fun key hkey => ?_, hprojection, hd, hf, ht, hl, hb, hpin, hs, hp, hle⟩
    rw [hplain.unknownKeys_eq hc, List.map_eq_nil_iff, List.filter_eq_nil_iff] at hunknown
    obtain ⟨e, he, rfl⟩ := List.mem_map.mp hkey
    simpa using hunknown e he
  · cases hwith

/-! ## Options as settings -/

theorem nodup_keys_entries (o : ReaderOptions) : (Entries.keys o.entries).Nodup := by
  have hnames : names.Nodup := by decide
  exact hnames

section Lawful

variable (hc : c.Lawful)
include hc

theorem loose_readNat {least n : Nat} (h : least ≤ n) :
    loose (readNat c least) (.value (.int n)) = .ok n := by
  have hlt : ¬ (n : Int) < least := by omega
  simp [loose, readNat, hc.integer_int, hlt]

theorem loose_readOptional {least : Nat} {n? : Option Nat} (h : ∀ n, n? = some n → least ≤ n) :
    loose (readOptional (readNat c least)) (.value (.ofNat? n?)) = .ok n? := by
  cases n? with
  | none => rfl
  | some n =>
    have hread : readNat c least (.int n) = .ok n := loose_readNat hc (h n rfl)
    simp [loose, Value.ofNat?, readOptional, hread, Except.map]

theorem loose_readRowTag {tag? : Option String}
    (h : ∀ tag, tag? = some tag → Text.isBlankText tag = false) :
    loose (readRowTag c) (.value (.ofText? tag?)) = .ok tag? := by
  cases tag? with
  | none => rfl
  | some tag =>
    have hread : c.text (.text tag) = .ok tag := hc.text_eq_ok_iff.mpr rfl
    simp [loose, Value.ofText?, readRowTag, readOptional, h tag rfl, hread, Except.map]

theorem loose_attributeScope (scope : AttributeScope) :
    loose (c.word AttributeScope.words) (.value (.text scope.word)) = .ok scope :=
  hc.word_text (by cases scope <;> rfl)

theorem loose_flattenCollision (policy : CollisionPolicy) :
    loose (c.word CollisionPolicy.words) (.value (.text policy.word)) = .ok policy :=
  hc.word_text (by cases policy <;> rfl)

theorem text_of_readOptional {v : Value} {tag : String}
    (h : readOptional c.text v = .ok (some tag)) : v = .text tag := by
  have hread : v ≠ .null → c.text v = .ok tag := by
    intro hne
    have hmap : (c.text v).map some = .ok (some tag) := by
      rwa [readOptional] at h
      exact hne
    cases hv : c.text v with
    | error fault =>
      rw [hv] at hmap
      cases hmap
    | ok read =>
      rw [hv] at hmap
      cases hmap
      rfl
  cases v with
  | null => cases h
  | _ => exact hc.text_eq_ok_iff.mp (hread nofun)

/-- A row name that was read is not blank. -/
theorem not_blank_of_readRowTag {s : Setting} {tag? : Option String}
    (h : loose (readRowTag c) s = .ok tag?) :
    ∀ tag, tag? = some tag → Text.isBlankText tag = false := by
  rintro tag rfl
  have hvalue : ∀ v, readRowTag c v = .ok (some tag) → Text.isBlankText tag = false := by
    intro v hv
    unfold readRowTag at hv
    split at hv
    · next s =>
      split at hv
      · cases hv
      · next hblank =>
        cases text_of_readOptional hc hv
        exact eq_false_of_ne_true hblank
    · next hne => exact absurd (text_of_readOptional hc hv) (hne tag)
  cases s with
  | value v => exact hvalue v h
  | projection p => exact hvalue .unwritable h

end Lawful

/-- **What a field was read as is read as itself.** -/
theorem Gives.entries (hc : c.Lawful) (h : Gives c given o) : Gives c o.entries o := by
  have hd : 1 ≤ o.dataLevel :=
    Options.of_field (by decide) (fun _ _ => le_of_loose_readNat) h.dataLevel
  have hb : 1 ≤ o.batchSize :=
    Options.of_field (by decide) (fun _ _ => le_of_loose_readNat) h.batchSize
  have ht := Options.of_field
    (P := fun tag? => ∀ tag, tag? = some tag → Text.isBlankText tag = false) (by simp)
    (fun _ _ => not_blank_of_readRowTag hc) h.rowTag
  have hread {β : Type} {name : String} {default b : β} {read : Setting → Except Options.Fault β}
      {s : Setting} (hs : Entries.get? name o.entries = some s) (hread : read s = .ok b) :
      field c [name] default read o.entries = .ok b := by
    rw [field_single hc, hs]
    simp [hread, Except.mapError]
  exact {
    known := fun key hkey => hkey
    projection := rfl
    dataLevel := hread rfl (loose_readNat hc hd)
    flattenLevel := hread rfl (loose_readOptional hc fun f hf => hd.trans (h.le_flatten f hf))
    rowTag := hread rfl (loose_readRowTag hc ht)
    limit := hread rfl (loose_readOptional hc fun _ _ => Nat.zero_le _)
    batchSize := hread rfl (loose_readNat hc hb)
    pinSchema := hread rfl (hc.truth_bool _)
    attributeScope := hread rfl (loose_attributeScope hc _)
    flattenCollision := hread rfl (loose_flattenCollision hc _)
    le_flatten := h.le_flatten }

/-! ## Settings on top of settings -/

/-- **Settings that give the same options are the same below others.** -/
theorem load_putAll_congr (hc : c.Lawful) (h : Gives c given o) (h' : Gives c given' o)
    (hlater : IsPlain later) :
    load c (Entries.putAll given later) = load c (Entries.putAll given' later) := by
  have hplain := (isPlain_of_names h.known).putAll hlater
  have hplain' := (isPlain_of_names h'.known).putAll hlater
  have hprojection : loadProjection (Entries.putAll given later) =
      loadProjection (Entries.putAll given' later) := by
    have hsame := h.projection.trans h'.projection.symm
    rw [loadProjection, loadProjection] at hsame
    rw [loadProjection, loadProjection, Entries.get?_putAll_reverse, Entries.get?_putAll_reverse]
    cases Entries.get? "projection" later.reverse with
    | none => exact hsame
    | some s => rfl
  have hfield {β : Type} {name : String} {default b : β} {read : Setting → Except Options.Fault β}
      (hb : field c [name] default read given = .ok b)
      (hb' : field c [name] default read given' = .ok b) :
      field c [name] default read (Entries.putAll given later) =
        field c [name] default read (Entries.putAll given' later) :=
    Options.field_putAll_congr hc (hb.trans hb'.symm) later
  have hunknown : unknownKeys c keys (Entries.putAll given later) =
      unknownKeys c keys (Entries.putAll given' later) := by
    have hnone {given : Entries Setting} (hknown : ∀ key ∈ Entries.keys given, key ∈ names) :
        given.filter (fun e => !names.contains e.1) = [] :=
      List.filter_eq_nil_iff.mpr fun e he => by simpa using hknown e.1 (List.mem_map_of_mem he)
    rw [hplain.unknownKeys_eq hc, hplain'.unknownKeys_eq hc,
      Entries.filter_putAll (p := fun key => !names.contains key),
      Entries.filter_putAll (p := fun key => !names.contains key), hnone h.known, hnone h'.known]
  have hwith (projection : Projection) : loadWith c projection (Entries.putAll given later) =
      loadWith c projection (Entries.putAll given' later) := by
    rw [loadWith, loadWith, hplain.field_dataLevel hc, hplain.field_flattenLevel hc,
      hplain'.field_dataLevel hc, hplain'.field_flattenLevel hc, hfield h.dataLevel h'.dataLevel,
      hfield h.flattenLevel h'.flattenLevel, hfield h.rowTag h'.rowTag, hfield h.limit h'.limit,
      hfield h.batchSize h'.batchSize, hfield h.pinSchema h'.pinSchema,
      hfield h.attributeScope h'.attributeScope, hfield h.flattenCollision h'.flattenCollision,
      hunknown]
  rw [load, load, hprojection]
  cases loadProjection (Entries.putAll given' later) with
  | error fault => rfl
  | ok projection => exact hwith projection

/-- A setting that is not among those on top stays. -/
theorem get?_entries_of_load (hc : c.Lawful) {o' : ReaderOptions} (h : Gives c o.entries o)
    (hlater : IsPlain later) (ho : load c (Entries.putAll o.entries later) = .ok o')
    (hkey : key ∉ Entries.keys later) :
    Entries.get? key o'.entries = Entries.get? key o.entries := by
  have h' : Gives c (Entries.putAll o.entries later) o' :=
    gives_of_load hc ((isPlain_of_names h.known).putAll hlater) ho
  have hsame {β : Type} {name : String} {default b b' : β} {read : Setting → Except Options.Fault β}
      (hname : name ∉ Entries.keys later) (hb : field c [name] default read o.entries = .ok b)
      (hb' : field c [name] default read (Entries.putAll o.entries later) = .ok b') : b' = b := by
    rw [Options.field_putAll_of_not_mem hc hname, hb] at hb'
    exact (Except.ok.inj hb').symm
  by_cases hname : key ∈ names
  · simp only [names, List.mem_cons, List.not_mem_nil, or_false] at hname
    rcases hname with rfl | rfl | rfl | rfl | rfl | rfl | rfl | rfl | rfl
    · exact congrArg (fun n : Nat => some (Setting.value (.int n)))
        (hsame hkey h.dataLevel h'.dataLevel)
    · exact congrArg (fun n? => some (Setting.value (.ofNat? n?)))
        (hsame hkey h.flattenLevel h'.flattenLevel)
    · exact congrArg (fun tag? => some (Setting.value (.ofText? tag?)))
        (hsame hkey h.rowTag h'.rowTag)
    · have hprojection := h'.projection
      rw [loadProjection, Entries.get?_putAll_of_not_mem hkey, ← loadProjection, h.projection]
        at hprojection
      exact congrArg (fun p => some (Setting.projection p)) (Except.ok.inj hprojection).symm
    · exact congrArg (fun n? => some (Setting.value (.ofNat? n?))) (hsame hkey h.limit h'.limit)
    · exact congrArg (fun n : Nat => some (Setting.value (.int n)))
        (hsame hkey h.batchSize h'.batchSize)
    · exact congrArg (fun b => some (Setting.value (.bool b))) (hsame hkey h.pinSchema h'.pinSchema)
    · exact congrArg (fun s : AttributeScope => some (Setting.value (.text s.word)))
        (hsame hkey h.attributeScope h'.attributeScope)
    · exact congrArg (fun p : CollisionPolicy => some (Setting.value (.text p.word)))
        (hsame hkey h.flattenCollision h'.flattenCollision)
  · have hnone (o : ReaderOptions) : Entries.get? key o.entries = none := by
      rw [← Option.not_isSome_iff_eq_none]
      exact fun hsome => hname (Entries.has_iff.mp hsome)
    rw [hnone, hnone]

/-! ## Main result -/

theorem Gives.override_eq (hc : c.Lawful) (h : Gives c given o) (hlater : IsPlain later) :
    o.override c later = load c (Entries.putAll given later) := by
  unfold override
  split
  · next hempty =>
    obtain rfl : later = [] := List.isEmpty_iff.mp hempty
    exact (h.load_eq hc).symm
  · exact load_putAll_congr hc (h.entries hc) h hlater

/-- Settings with a number in a text, a blank row name and a text of paths. -/
def looseSettings : Entries Setting :=
  [("data_level", .value (.text " 3 ")), ("row_tag", .value (.text " ")),
    ("projection", .value (.text "a.b, c"))]

end ReaderOptions

end Tabular
