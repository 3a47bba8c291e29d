import Mathlib.Logic.Function.Basic
import Tabular.Proofs.Strict.Snapshot

/-!
# Schemas in memory

The names below a path are kept in a list that is changed where it stands, and a table knows where
the list of each path is. A snapshot makes room for requested paths in copies. No list belongs to two
paths or to two tables, so that what is done at one table is not seen at another.

* `Strict.Memory`, `register`, `see`, `sightAll`, `hold`, `copy`: tables, lists, and what is done to
  them;
* `Memory.view`, `Memory.Apart`: what a table shows, and lists that belong to one path only;
* `Memory.Becomes`: one table has changed, and all others show what they did;
* `Becomes.of_names`, `becomes_place`, **`becomes_register`**, **`yields_sightAll`**, `becomes_hold`,
  **`view_copy`**: every step.
-/

namespace Tabular

namespace Shape

variable {ss : List Shape} {s : Shape} {f : Field}

theorem absorbField_of_accepts (row : Int) (path : Path) (ha : Accepts (named? f.name ss) f) :
    let a := absorb row (path ++ [f.name]) (inner (named? f.name ss)) f.fields
    (absorbField row path ss f).entries = [(f.name, f.shown a.entries)] ∧
      (absorbField row path ss f).own = [] ∧
      (absorbField row path ss f).deeper = a.own ++ a.deeper := by
  cases f with
  | scalar n h v =>
    cases hn : named? n ss with
    | none => simp [absorbField, hn, Field.name, Field.fields, Field.shown, absorb]
    | some s =>
      cases s with
      | scalar m k => simp [absorbField, hn, Field.name, Field.fields, Field.shown, absorb]
      | map m k inner => cases ha _ hn
  | map n h fs =>
    cases hn : named? n ss with
    | none => simp [absorbField, hn, Field.name, Field.fields, Field.shown, inner]
    | some s =>
      cases s with
      | scalar m k => cases ha _ hn
      | map m k below => simp [absorbField, hn, Field.name, Field.fields, Field.shown, inner, shapes]

theorem absorbField_of_refused (row : Int) (path : Path) (hs : named? f.name ss = some s)
    (hne : s.kind ≠ f.kind) :
    (absorbField row path ss f).entries = [(f.name, .null)] ∧
      (absorbField row path ss f).own = [⟨path ++ [f.name], s.kind, f.kind, row⟩] ∧
      (absorbField row path ss f).deeper = [] := by
  cases f with
  | scalar n h v =>
    cases s with
    | scalar m k => exact absurd rfl hne
    | map m k inner =>
      replace hs : named? n ss = _ := hs
      simp [absorbField, hs, Field.name, kind, Field.kind]
  | map n h fs =>
    cases s with
    | scalar m k =>
      replace hs : named? n ss = _ := hs
      simp [absorbField, hs, Field.name, kind, Field.kind]
    | map m k inner => exact absurd rfl hne

end Shape

namespace Strict

/-- Where something is in memory. -/
abbrev Address := Nat

/-- The kinds of the registered paths, how often each was seen, and where the names below it are. -/
structure Table where
  kinds : List (Path × Kind) := []
  places : List (Path × Address) := []
  presence : Path → Nat := fun _ => 0

namespace Table

/-- A path gets a kind. -/
def know (path : Path) (kind : Kind) (table : Table) : Table :=
  { table with kinds := (path, kind) :: table.kinds }

/-- The names below a path are at some address. -/
def locate (path : Path) (a : Address) (table : Table) : Table :=
  { table with places := (path, a) :: table.places }

/-- A path is seen once more. -/
def see (path : Path) (table : Table) : Table :=
  { table with
    presence := fun q => if q = path then table.presence path + 1 else table.presence q }

end Table

/-- Tables and lists of names by their addresses; from some address on they are free. -/
structure Memory where
  tables : Address → Table
  lists : Address → List String
  /-- The first free address for a table. -/
  freeTable : Address
  /-- The first free address for a list. -/
  freeList : Address

/-- What fields come to: the memory after them, their record, and their conflicts at this level and
below it. -/
structure Sighting where
  memory : Memory
  entries : List (String × Value)
  own : List Conflict
  deeper : List Conflict

namespace Memory

/-! ## Steps -/

/-- The kind of a path in a table. -/
def kind? (t : Address) (path : Path) (m : Memory) : Option Kind :=
  (m.tables t).kinds.lookup path

/-- Where a table has the names below a path. -/
def place? (t : Address) (path : Path) (m : Memory) : Option Address :=
  (m.tables t).places.lookup path

/-- The names below a path. -/
def names (t : Address) (path : Path) (m : Memory) : List String :=
  ((m.place? t path).map m.lists).getD []

/-- A table is changed where it stands. -/
def change (t : Address) (g : Table → Table) (m : Memory) : Memory :=
  { m with tables := Function.update m.tables t (g (m.tables t)) }

/-- A list is written at an address. -/
def write (a : Address) (names : List String) (m : Memory) : Memory :=
  { m with lists := Function.update m.lists a names }

/-- A list is made at the first free address. -/
def make (names : List String) (m : Memory) : Memory :=
  { m.write m.freeList names with freeList := m.freeList + 1 }

/-- A list for the names below a path is made. -/
def place (t : Address) (path : Path) (names : List String) (m : Memory) : Memory :=
  (m.change t (.locate path m.freeList)).make names

/-- A name is added to those below a path, in the list where they are. -/
def add (t : Address) (path : Path) (name : String) (m : Memory) : Memory :=
  match m.place? t path with
  | some a => m.write a (m.lists a ++ [name])
  | none => m.place t path [name]

/-- A map has a list for its names, be it empty. -/
def prepare (t : Address) (path : Path) (m : Memory) : Memory :=
  if (m.place? t path).isNone then m.place t path [] else m

/-- A name below a path comes into a table; the kind that stands there then. -/
def register (t : Address) (above : Path) (name : String) (kind : Kind) (m : Memory) :
    Memory × Kind :=
  match m.kind? t (above ++ [name]) with
  | some known => (m, known)
  | none =>
    let added := (m.change t (.know (above ++ [name]) kind)).add t above name
    (if kind = .map then added.prepare t (above ++ [name]) else added, kind)

/-- A path is seen once more. -/
def see (t : Address) (path : Path) (m : Memory) : Memory :=
  m.change t (.see path)

mutual

/-- A field under `above` comes into a table, with all it holds unless its kind is another one. -/
def sight (row : Int) (t : Address) (above : Path) (m : Memory) : Field → Sighting
  | .scalar n _ v =>
    let r := m.register t above n .scalar
    if r.2 = .scalar then ⟨r.1.see t (above ++ [n]), [(n, .ofText? v)], [], []⟩
    else ⟨r.1, [(n, .null)], [⟨above ++ [n], r.2, .scalar, row⟩], []⟩
  | .map n _ fs =>
    let r := m.register t above n .map
    if r.2 = .map then
      let b := sightAll row t (above ++ [n]) (r.1.see t (above ++ [n])) fs
      ⟨b.memory, [(n, .map b.entries)], [], b.own ++ b.deeper⟩
    else ⟨r.1, [(n, .null)], [⟨above ++ [n], r.2, .map, row⟩], []⟩

/-- The fields under `above` come into a table. -/
def sightAll (row : Int) (t : Address) (above : Path) (m : Memory) : List Field → Sighting
  | [] => ⟨m, [], [], []⟩
  | f :: rest =>
    let a := sight row t above m f
    let b := sightAll row t above a.memory rest
    ⟨b.memory, a.entries ++ b.entries, a.own ++ b.own, b.deeper ++ a.deeper⟩

end

/-- The key of an attribute comes into a table. -/
def touch (t : Address) (above : Path) (m : Memory) (key : String) : Memory :=
  (m.register t above key .scalar).1.see t (above ++ [key])

/-- A table gets room for the names of a path, below another one, unless a text stands in their
way. -/
def hold (t : Address) (above : Path) : Path → Memory → Memory
  | [], m => m
  | name :: rest, m =>
    match m.kind? t (above ++ [name]) with
    | none =>
      hold t (above ++ [name]) rest
        (m.register t above name (if rest = [] then .scalar else .map)).1
    | some .map => hold t (above ++ [name]) rest m
    | some .scalar => m

/-- Lists are copied one by one; where the copies are, and the memory with them. -/
def copyLists : List (Path × Address) → Memory → List (Path × Address) × Memory
  | [], m => ([], m)
  | (path, a) :: rest, m =>
    let copied := copyLists rest (m.make (m.lists a))
    ((path, m.freeList) :: copied.1, copied.2)

/-- A table is copied to the first free address, and each of its lists. -/
def copy (t : Address) (m : Memory) : Memory :=
  let copied := m.copyLists (m.tables t).places
  { copied.2 with
    tables := Function.update copied.2.tables m.freeTable { m.tables t with places := copied.1 }
    freeTable := m.freeTable + 1 }

/-! ## What tables show -/

/-- What a table shows. -/
def view (t : Address) (m : Memory) : Tables where
  registered := (m.tables t).kinds
  children path := m.names t path
  presence := (m.tables t).presence

/-- Every list is one that was made, and belongs to one path of one table. -/
structure Apart (m : Memory) : Prop where
  made : ∀ t, ∀ e ∈ (m.tables t).places, e.2 < m.freeList
  one : ∀ {t t' path path' a}, m.place? t path = some a → m.place? t' path' = some a →
    t = t' ∧ path = path'

/-- One table has come to show something, and all others show what they did. -/
structure Becomes (t : Address) (m m' : Memory) (shown : Tables) : Prop where
  apart : m'.Apart
  shows : m'.view t = shown
  others : ∀ t', t' ≠ t → m'.view t' = m.view t'
  freeTable : m'.freeTable = m.freeTable

variable {m m' m'' : Memory} {t t' : Address} {above path : Path} {name : String} {kind : Kind}
  {shown shown' : Tables} {ss : List Shape} {s? : Option Shape} {row : Int}

theorem Becomes.refl (h : m.Apart) (t : Address) : Becomes t m m (m.view t) :=
  ⟨h, rfl, fun _ _ => rfl, rfl⟩

theorem Becomes.trans (h : Becomes t m m' shown) (h' : Becomes t m' m'' shown') :
    Becomes t m m'' shown' :=
  ⟨h'.apart, h'.shows, fun t' ht => (h'.others t' ht).trans (h.others t' ht),
    h'.freeTable.trans h.freeTable⟩

theorem tables_change_self (t : Address) (g : Table → Table) (m : Memory) :
    (m.change t g).tables t = g (m.tables t) :=
  Function.update_self ..

theorem tables_change_of_ne (h : t' ≠ t) (g : Table → Table) (m : Memory) :
    (m.change t g).tables t' = m.tables t' :=
  Function.update_of_ne h ..

/-- A change that leaves all lists where they are. -/
theorem becomes_change (h : m.Apart) (g : Table → Table)
    (hg : ∀ table, (g table).places = table.places) (t : Address) : Becomes t m (m.change t g)
      { m.view t with
        registered := (g (m.tables t)).kinds
        presence := (g (m.tables t)).presence } := by
  have hplaces : ∀ t', ((m.change t g).tables t').places = (m.tables t').places := by
    intro t'
    by_cases ht : t' = t
    · rw [ht, tables_change_self, hg]
    · rw [tables_change_of_ne ht]
  have hplace : ∀ t' path, (m.change t g).place? t' path = m.place? t' path := by
    intro t' path
    rw [place?, hplaces, place?]
  have hnames : ∀ t' path, (m.change t g).names t' path = m.names t' path := by
    intro t' path
    rw [names, hplace]
    rfl
  refine ⟨⟨fun t' e he => h.made t' e (hplaces t' ▸ he), fun {t₁ t₂ p₁ p₂ a} h₁ h₂ => ?_⟩, ?_,
    fun t' ht => ?_, rfl⟩
  · rw [hplace] at h₁ h₂
    exact h.one h₁ h₂
  · simp only [view, tables_change_self, hnames]
  · simp only [view, tables_change_of_ne ht, hnames]

theorem mem_of_lookup {places : List (Path × Address)} {a : Address}
    (ha : places.lookup path = some a) : (path, a) ∈ places := by
  obtain ⟨before, later, rfl, -⟩ := List.lookup_eq_some_iff.mp ha
  exact List.mem_append_right before List.mem_cons_self

theorem lookup_cons_ite (path : Path) (e : Path × Address) (places : List (Path × Address)) :
    (e :: places).lookup path = if path = e.1 then some e.2 else places.lookup path := by
  rw [List.lookup_cons]
  split
  · next hp => rw [if_pos (eq_of_beq hp)]
  · next hp => rw [if_neg (beq_eq_false_iff_ne.mp hp)]

theorem Apart.lt (h : m.Apart) {a : Address} (ha : m.place? t path = some a) : a < m.freeList :=
  h.made t _ (mem_of_lookup ha)

/-- The names below one path of a table have become others. -/
theorem Becomes.of_names {names : List String} (ha : m'.Apart)
    (hn : ∀ t' q, m'.names t' q = if t' = t ∧ q = path then names else m.names t' q)
    (hk : ∀ t', (m'.tables t').kinds = (m.tables t').kinds)
    (hp : ∀ t', (m'.tables t').presence = (m.tables t').presence) (hf : m'.freeTable = m.freeTable) :
    Becomes t m m' { m.view t with
      children := fun q => if q = path then names else (m.view t).children q } where
  apart := ha
  shows := by
    simp only [view, hn, hk, hp, true_and]
  others t' ht := by
    have hne : ∀ q, ¬ (t' = t ∧ q = path) := fun q hq => ht hq.1
    simp only [view, hn, hk, hp, if_neg (hne _)]
  freeTable := hf

/-! ### New lists -/

theorem tables_place_self (t : Address) (path : Path) (names : List String) (m : Memory) :
    (m.place t path names).tables t = (m.tables t).locate path m.freeList :=
  tables_change_self t (.locate path m.freeList) m

theorem tables_place_of_ne (h : t' ≠ t) (path : Path) (names : List String) (m : Memory) :
    (m.place t path names).tables t' = m.tables t' :=
  tables_change_of_ne h (.locate path m.freeList) m

theorem place?_place (t' : Address) (q : Path) (t : Address) (path : Path) (names : List String)
    (m : Memory) : (m.place t path names).place? t' q =
      if t' = t ∧ q = path then some m.freeList else m.place? t' q := by
  by_cases ht : t' = t
  · subst ht
    rw [place?, tables_place_self, Table.locate, lookup_cons_ite, place?]
    simp only [true_and]
  · rw [if_neg fun h => ht h.1, place?, tables_place_of_ne ht, place?]

theorem names_place (h : m.Apart) (t' : Address) (q : Path) (t : Address) (path : Path)
    (names : List String) : (m.place t path names).names t' q =
      if t' = t ∧ q = path then names else m.names t' q := by
  rw [Memory.names, place?_place]
  split
  · exact Function.update_self ..
  · rw [Memory.names]
    cases ha : m.place? t' q with
    | none => rfl
    | some a =>
      have hold : (m.place t path names).lists a = m.lists a :=
        Function.update_of_ne (Nat.ne_of_lt (h.lt ha)) ..
      exact hold

theorem Apart.place (h : m.Apart) (t : Address) (path : Path) (names : List String) :
    (m.place t path names).Apart where
  made t' e he := by
    show e.2 < m.freeList + 1
    by_cases ht : t' = t
    · subst ht
      rw [tables_place_self] at he
      rcases List.mem_cons.mp he with rfl | he
      · exact Nat.lt_succ_self _
      · exact Nat.lt_succ_of_lt (h.made t' e he)
    · rw [tables_place_of_ne ht] at he
      exact Nat.lt_succ_of_lt (h.made t' e he)
  one {t₁ t₂ p₁ p₂ a} h₁ h₂ := by
    have hfree : ∀ t' q, m.place? t' q ≠ some m.freeList :=
      fun t' q ha => Nat.lt_irrefl _ (h.lt ha)
    rw [place?_place] at h₁ h₂
    split at h₁ <;> split at h₂
    · next h₁' h₂' => exact ⟨h₁'.1.trans h₂'.1.symm, h₁'.2.trans h₂'.2.symm⟩
    · exact absurd (h₂.trans h₁.symm) (hfree t₂ p₂)
    · exact absurd (h₁.trans h₂.symm) (hfree t₁ p₁)
    · exact h.one h₁ h₂

/-- A new list for a path that had none. -/
theorem becomes_place (h : m.Apart) (t : Address) (path : Path) (names : List String) :
    Becomes t m (m.place t path names)
      { m.view t with
        children := fun q => if q = path then names else (m.view t).children q } := by
  have htable : ∀ t', ((m.place t path names).tables t').kinds = (m.tables t').kinds ∧
      ((m.place t path names).tables t').presence = (m.tables t').presence := by
    intro t'
    by_cases ht : t' = t
    · rw [ht, tables_place_self]
      exact ⟨rfl, rfl⟩
    · rw [tables_place_of_ne ht]
      exact ⟨rfl, rfl⟩
  exact .of_names (h.place t path names) (fun t' q => names_place h t' q t path names)
    (fun t' => (htable t').1) (fun t' => (htable t').2) rfl

/-- **A name comes to those below a path**, and to no other names. -/
theorem becomes_add (h : m.Apart) (t : Address) (path : Path) (name : String) :
    Becomes t m (m.add t path name)
      { m.view t with
        children := fun q =>
          if q = path then (m.view t).children path ++ [name] else (m.view t).children q } := by
  rw [add]
  cases hp : m.place? t path with
  | none =>
    have hnone : (m.view t).children path = [] := by
      show m.names t path = []
      rw [names, hp]
      rfl
    simp only [hnone, List.nil_append]
    exact becomes_place h t path [name]
  | some a =>
    have hnames : ∀ t' q, (m.write a (m.lists a ++ [name])).names t' q =
        if t' = t ∧ q = path then m.names t path ++ [name] else m.names t' q := by
      intro t' q
      show ((m.place? t' q).map (Function.update m.lists a (m.lists a ++ [name]))).getD [] = _
      split
      · next heq =>
        rw [heq.1, heq.2, hp, names, hp]
        exact Function.update_self ..
      · next hne =>
        rw [names]
        cases hb : m.place? t' q with
        | none => rfl
        | some b =>
          -- the list of another path is another list
          have hab : b ≠ a := by
            rintro rfl
            exact hne (h.one hb hp)
          exact Function.update_of_ne hab ..
    exact .of_names ⟨h.made, h.one⟩ hnames (fun _ => rfl) (fun _ => rfl) rfl

theorem becomes_prepare (h : m.Apart) (t : Address) (path : Path) :
    Becomes t m (m.prepare t path) (m.view t) := by
  rw [prepare]
  split
  · next hp =>
    rw [Option.isNone_iff_eq_none] at hp
    have hplaced := becomes_place h t path []
    have hsame : (fun q => if q = path then [] else (m.view t).children q) =
        (m.view t).children := by
      funext q
      split
      · next hq =>
        show [] = m.names t q
        rw [hq, names, hp]
        rfl
      · rfl
    rwa [hsame] at hplaced
  · exact .refl h t

/-- **A name comes into a table.** -/
theorem becomes_register (h : m.Apart) (t : Address) (above : Path) (name : String) (kind : Kind) :
    Becomes t m (m.register t above name kind).1 ((m.view t).register above name kind).1 ∧
      (m.register t above name kind).2 = (m.kind? t (above ++ [name])).getD kind ∧
      (((m.view t).register above name kind).2 = true ↔
        (m.register t above name kind).2 = kind) := by
  rw [register, Tables.register]
  have hkind : (m.view t).kind? (above ++ [name]) = m.kind? t (above ++ [name]) := rfl
  rw [hkind]
  cases hk : m.kind? t (above ++ [name]) with
  | some known => exact ⟨.refl h t, rfl, by simp⟩
  | none =>
    refine ⟨?_, rfl, by simp⟩
    have hchanged := becomes_change h (Table.know (above ++ [name]) kind) (fun _ => rfl) t
    have hadded := becomes_add hchanged.apart t above name
    rw [hchanged.shows] at hadded
    simp only
    split
    · have hprepared := becomes_prepare hadded.apart t (above ++ [name])
      rw [hadded.shows] at hprepared
      exact (hchanged.trans hadded).trans hprepared
    · exact hchanged.trans hadded

theorem becomes_see (h : m.Apart) (t : Address) (path : Path) :
    Becomes t m (m.see t path) ((m.view t).see path) :=
  becomes_change h (Table.see path) (fun _ => rfl) t

/-! ## Fields and attributes -/

theorem sight_eq (row : Int) (t : Address) (above : Path) (m : Memory) (f : Field) :
    sight row t above m f =
      let r := m.register t above f.name f.kind
      if r.2 = f.kind then
        let b := sightAll row t (above ++ [f.name]) (r.1.see t (above ++ [f.name])) f.fields
        ⟨b.memory, [(f.name, f.shown b.entries)], [], b.own ++ b.deeper⟩
      else ⟨r.1, [(f.name, .null)], [⟨above ++ [f.name], r.2, f.kind, row⟩], []⟩ := by
  cases f with
  | scalar n h v =>
    rw [sight]
    rfl
  | map n h fs =>
    rw [sight]
    rfl

/-- What fields come to in memory is what they come to under the shapes that a table shows. -/
structure Yields (t : Address) (m : Memory) (s : Sighting) (shown : Tables) (a : Shape.Absorbed) :
    Prop where
  becomes : Becomes t m s.memory shown
  entries : s.entries = a.entries
  own : s.own = a.own
  deeper : s.deeper = a.deeper

/-- Some fields come into a table as shapes absorb them, wherever that is. -/
def Follows (row : Int) (t : Address) (fs : List Field) : Prop :=
  ∀ (above : Path) (m : Memory) (ss : List Shape), m.Apart → (m.view t).ShowsAt above ss →
    Yields t m (sightAll row t above m fs) (Tables.sightAll above (m.view t) fs)
      (Shape.absorb row above ss fs)

/-- A field comes into a table as its shape absorbs it. -/
theorem yields_sight {f : Field} (ih : Follows row t f.fields) (h : m.Apart)
    (hs : (m.view t).ShowsAt above ss) :
    Yields t m (sight row t above m f) (Tables.sight above (m.view t) f)
      (Shape.absorbField row above ss f) := by
  have hin := (Tables.showsAt_iff.mp hs).2 f.name
  have hknown : m.kind? t (above ++ [f.name]) = (Shape.named? f.name ss).map Shape.kind := hin.kind
  obtain ⟨hregister, hkind, hagrees⟩ := becomes_register h t above f.name f.kind
  rw [hknown] at hkind
  rw [sight_eq, Tables.sight_eq]
  by_cases ha : Shape.Accepts (Shape.named? f.name ss) f
  · have htaken := (Tables.register_snd hin f.kind).mpr ha
    have hentered := (Tables.enters_register hin f.kind).below
    obtain ⟨hentries, hown, hdeeper⟩ := Shape.absorbField_of_accepts row above ha
    rw [if_pos htaken]
    simp only [if_pos (hagrees.mp htaken)]
    have hseen := becomes_see hregister.apart t (above ++ [f.name])
    rw [hregister.shows] at hseen
    rw [← hseen.shows] at hentered ⊢
    have hbelow := ih _ _ _ hseen.apart hentered
    refine ⟨(hregister.trans hseen).trans hbelow.becomes, ?_, hown.symm, ?_⟩
    · rw [hentries, hbelow.entries]
    · rw [hdeeper, hbelow.own, hbelow.deeper]
  · obtain ⟨s, hshape, hne⟩ := Shape.exists_of_not_accepts ha
    obtain ⟨hentries, hown, hdeeper⟩ := Shape.absorbField_of_refused row above hshape hne
    have hleft := mt (Tables.register_snd hin f.kind).mp ha
    rw [hshape, Option.map_some, Option.getD_some] at hkind
    rw [if_neg hleft]
    simp only [hkind, if_neg hne]
    exact ⟨hregister, hentries.symm, hown.symm, hdeeper.symm⟩

/-- **The fields of a row come into a table as their shapes absorb them.** -/
theorem yields_sightAll (row : Int) (t : Address) (fs : List Field) : Follows row t fs := by
  induction fs using Field.induction_below with
  | below fs ih =>
    intro above m ss h hs
    induction fs generalizing m ss with
    | nil =>
      rw [sightAll, Tables.sightAll]
      exact ⟨.refl h t, rfl, rfl, rfl⟩
    | cons f rest ihRest =>
      have hfield := yields_sight (ih f List.mem_cons_self) h hs
      have hshows := (Tables.showsAt_sight (Tables.showsAt_sightAll row f.fields) hs).1
      rw [← hfield.becomes.shows] at hshows
      have hrest := ihRest (fun g hg => ih g (List.mem_cons_of_mem f hg)) _ _
        hfield.becomes.apart hshows
      rw [hfield.becomes.shows] at hrest
      rw [sightAll, Tables.sightAll, Shape.absorb]
      refine ⟨hfield.becomes.trans hrest.becomes, ?_, ?_, ?_⟩
      · rw [hfield.entries, hrest.entries]
      · rw [hfield.own, hrest.own]
      · rw [hfield.deeper, hrest.deeper]

/-- The keys of attributes come into a table. -/
theorem becomes_touchAll (h : m.Apart) (t : Address) (above : Path) (keys : List String) :
    Becomes t m (keys.foldl (touch t above) m)
      (keys.foldl (Tables.touch above) (m.view t)) := by
  induction keys generalizing m with
  | nil => exact .refl h t
  | cons key rest ih =>
    have hregister := (becomes_register h t above key .scalar).1
    have hseen := becomes_see hregister.apart t (above ++ [key])
    rw [hregister.shows] at hseen
    have hrest := ih hseen.apart
    rw [hseen.shows] at hrest
    exact (hregister.trans hseen).trans hrest

/-! ## Snapshots -/

/-- **Room is made at one table.** -/
theorem becomes_hold (h : m.Apart) (t : Address) (above path : Path) :
    Becomes t m (m.hold t above path) ((m.view t).hold above path) := by
  induction path generalizing above m with
  | nil => exact .refl h t
  | cons name rest ih =>
    have hkind : (m.view t).kind? (above ++ [name]) = m.kind? t (above ++ [name]) := rfl
    rw [hold, Tables.hold, hkind]
    cases hk : m.kind? t (above ++ [name]) with
    | none =>
      have hregister :=
        (becomes_register h t above name (if rest = [] then .scalar else .map)).1
      have hrest := ih hregister.apart (above ++ [name])
      rw [hregister.shows] at hrest
      exact hregister.trans hrest
    | some known =>
      cases known with
      | scalar => exact .refl h t
      | map => exact ih h (above ++ [name])

theorem becomes_holdAll (h : m.Apart) (t : Address) (paths : List Path) :
    Becomes t m (paths.foldl (fun m path => m.hold t [] path) m)
      (paths.foldl (fun shown path => shown.hold [] path) (m.view t)) := by
  induction paths generalizing m with
  | nil => exact .refl h t
  | cons path rest ih =>
    have hpath := becomes_hold h t [] path
    have hrest := ih hpath.apart
    rw [hpath.shows] at hrest
    exact hpath.trans hrest

/-- Copies of lists are lists of their own, with the same names, and nothing else has changed. -/
structure Copies (places : List (Path × Address)) (m : Memory)
    (copied : List (Path × Address) × Memory) : Prop where
  tables : copied.2.tables = m.tables
  freeTable : copied.2.freeTable = m.freeTable
  freeList : m.freeList ≤ copied.2.freeList
  kept : ∀ a, a < m.freeList → copied.2.lists a = m.lists a
  fresh : ∀ e ∈ copied.1, m.freeList ≤ e.2 ∧ e.2 < copied.2.freeList
  names : ∀ path, (copied.1.lookup path).map copied.2.lists = (places.lookup path).map m.lists
  one : ∀ {path path' a}, copied.1.lookup path = some a → copied.1.lookup path' = some a →
    path = path'

theorem copies_copyLists {places : List (Path × Address)} (h : ∀ e ∈ places, e.2 < m.freeList) :
    Copies places m (m.copyLists places) := by
  induction places generalizing m with
  | nil =>
    exact ⟨rfl, rfl, Nat.le_refl _, fun _ _ => rfl, nofun, fun _ => rfl, nofun⟩
  | cons e rest ih =>
    obtain ⟨path₀, a₀⟩ := e
    have hrest : ∀ e ∈ rest, e.2 < m.freeList := fun e he => h e (List.mem_cons_of_mem _ he)
    have hc := ih (m := m.make (m.lists a₀)) fun e he => Nat.lt_succ_of_lt (hrest e he)
    have hfree : m.freeList < ((m.make (m.lists a₀)).copyLists rest).2.freeList := hc.freeList
    have hnew : ((m.make (m.lists a₀)).copyLists rest).2.lists m.freeList = m.lists a₀ :=
      (hc.kept m.freeList (Nat.lt_succ_self _)).trans (Function.update_self ..)
    have hlater : ∀ {path a},
        ((m.make (m.lists a₀)).copyLists rest).1.lookup path = some a → a ≠ m.freeList := by
      rintro path a ha rfl
      exact absurd (hc.fresh _ (mem_of_lookup ha)).1 (Nat.not_succ_le_self _)
    have hlookup : ∀ path, (m.copyLists ((path₀, a₀) :: rest)).1.lookup path =
        if path = path₀ then some m.freeList
        else ((m.make (m.lists a₀)).copyLists rest).1.lookup path := by
      intro path
      rw [copyLists, lookup_cons_ite]
    refine ⟨hc.tables, hc.freeTable, Nat.le_of_lt hfree, fun a ha => ?_, fun e he => ?_,
      fun path => ?_, fun {path path' a} hp hp' => ?_⟩
    · exact (hc.kept a (Nat.lt_succ_of_lt ha)).trans (Function.update_of_ne (Nat.ne_of_lt ha) ..)
    · rcases List.mem_cons.mp he with rfl | he
      · exact ⟨Nat.le_refl _, hfree⟩
      · obtain ⟨hle, hlt⟩ := hc.fresh e he
        exact ⟨Nat.le_of_succ_le hle, hlt⟩
    · rw [hlookup, lookup_cons_ite]
      split
      · exact congrArg some hnew
      · refine (hc.names path).trans ?_
        cases ha : rest.lookup path with
        | none => rfl
        | some a =>
          exact congrArg some (Function.update_of_ne
            (Nat.ne_of_lt (hrest _ (mem_of_lookup ha))) ..)
    · rw [hlookup] at hp hp'
      split at hp <;> split at hp'
      · next h₁ h₂ => exact h₁.trans h₂.symm
      · exact absurd (Option.some.inj hp).symm (hlater hp')
      · exact absurd (Option.some.inj hp').symm (hlater hp)
      · exact hc.one hp hp'

theorem tables_copy_self (t : Address) (m : Memory) : (m.copy t).tables m.freeTable =
    { m.tables t with places := (m.copyLists (m.tables t).places).1 } :=
  Function.update_self ..

theorem tables_copy_of_ne (h : m.Apart) (t : Address) (ht : t' ≠ m.freeTable) :
    (m.copy t).tables t' = m.tables t' :=
  (Function.update_of_ne ht ..).trans (congrFun (copies_copyLists (h.made t)).tables t')

theorem place?_copy_self (t : Address) (path : Path) (m : Memory) :
    (m.copy t).place? m.freeTable path = (m.copyLists (m.tables t).places).1.lookup path := by
  rw [place?, tables_copy_self]

theorem place?_copy_of_ne (h : m.Apart) (t : Address) (ht : t' ≠ m.freeTable) (path : Path) :
    (m.copy t).place? t' path = m.place? t' path := by
  rw [place?, tables_copy_of_ne h t ht, place?]

theorem Apart.copy (h : m.Apart) (t : Address) : (m.copy t).Apart where
  made t' e he := by
    have hc := copies_copyLists (h.made t)
    by_cases ht : t' = m.freeTable
    · rw [ht, tables_copy_self] at he
      exact (hc.fresh e he).2
    · rw [tables_copy_of_ne h t ht] at he
      exact Nat.lt_of_lt_of_le (h.made t' e he) hc.freeList
  one {t₁ t₂ p₁ p₂ a} h₁ h₂ := by
    have hc := copies_copyLists (h.made t)
    -- a list of a copy is none of those before
    have hapart : ∀ {t' p p'}, t' ≠ m.freeTable → (m.copy t).place? t' p = some a →
        (m.copy t).place? m.freeTable p' ≠ some a := by
      intro t' p p' ht hp hp'
      rw [place?_copy_of_ne h t ht] at hp
      rw [place?_copy_self] at hp'
      exact absurd (h.lt hp) (Nat.not_lt_of_le (hc.fresh _ (mem_of_lookup hp')).1)
    by_cases ht₁ : t₁ = m.freeTable
    · by_cases ht₂ : t₂ = m.freeTable
      · rw [ht₁, place?_copy_self] at h₁
        rw [ht₂, place?_copy_self] at h₂
        exact ⟨ht₁.trans ht₂.symm, hc.one h₁ h₂⟩
      · exact absurd (ht₁ ▸ h₁) (hapart ht₂ h₂)
    · by_cases ht₂ : t₂ = m.freeTable
      · exact absurd (ht₂ ▸ h₂) (hapart ht₁ h₁)
      · rw [place?_copy_of_ne h t ht₁] at h₁
        rw [place?_copy_of_ne h t ht₂] at h₂
        exact h.one h₁ h₂

/-- **A copy shows what its table does**, and every table goes on showing what it did. -/
theorem view_copy (h : m.Apart) (t : Address) : (m.copy t).Apart ∧
    (m.copy t).view m.freeTable = m.view t ∧
      ∀ t', t' ≠ m.freeTable → (m.copy t).view t' = m.view t' := by
  have hc := copies_copyLists (h.made t)
  refine ⟨h.copy t, ?_, fun t' ht => ?_⟩
  · have hnames : ∀ path, (m.copy t).names m.freeTable path = m.names t path := by
      intro path
      rw [names, place?_copy_self]
      exact congrArg (Option.getD · []) (hc.names path)
    simp only [view, hnames, tables_copy_self]
  · have hnames : ∀ path, (m.copy t).names t' path = m.names t' path := by
      intro path
      rw [names, place?_copy_of_ne h t ht, names]
      cases ha : m.place? t' path with
      | none => rfl
      | some a => exact congrArg (Option.getD · []) (congrArg some (hc.kept a (h.lt ha)))
    simp only [view, hnames, tables_copy_of_ne h t ht]

end Memory

end Strict

end Tabular
