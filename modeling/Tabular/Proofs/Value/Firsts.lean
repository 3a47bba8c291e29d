import Tabular.Value.Entries

/-!
# First entries

Where the first entry of a key stays and later ones are dropped.

* `Entries.firsts`: the first entry of each key that was not seen before;
* `get?_firsts`, `keys_firsts_nodup`: look-ups are those of all entries, and keys come once;
* `firsts_of_nodup`: all entries are first where their keys come once;
* `get?_append`: a look-up among entries after entries;
* `putAll_of_disjoint`: new keys are written to the end;
* `get?_putAll`: a look-up among entries written over others;
* `forall_putAll`, `nodup_keys_ofPairs`: the values and the keys that writing leaves.
-/

namespace Tabular.Entries

variable {α β : Type}

/-- The first entry of each key that is not among those seen. -/
def firsts (seen : List String) : Entries α → Entries α
  | [] => []
  | e :: rest => if e.1 ∈ seen then firsts seen rest else e :: firsts (e.1 :: seen) rest

theorem firsts_cons_of_mem {seen : List String} {e : String × α} (h : e.1 ∈ seen)
    (rest : Entries α) : firsts seen (e :: rest) = firsts seen rest := by
  rw [firsts, if_pos h]

theorem firsts_cons_of_not_mem {seen : List String} {e : String × α} (h : e.1 ∉ seen)
    (rest : Entries α) : firsts seen (e :: rest) = e :: firsts (e.1 :: seen) rest := by
  rw [firsts, if_neg h]

theorem firsts_congr {seen seen' : List String} (h : ∀ key, key ∈ seen ↔ key ∈ seen')
    (es : Entries α) : firsts seen es = firsts seen' es := by
  induction es generalizing seen seen' with
  | nil => rfl
  | cons e rest ih =>
    by_cases he : e.1 ∈ seen
    · rw [firsts_cons_of_mem he, firsts_cons_of_mem ((h _).mp he), ih h]
    · rw [firsts_cons_of_not_mem he, firsts_cons_of_not_mem fun h' => he ((h _).mpr h')]
      refine congrArg _ (ih fun key => ?_)
      rw [List.mem_cons, List.mem_cons, h]

theorem firsts_map (seen : List String) (f : α → β) (es : Entries α) :
    firsts seen (es.map fun e => (e.1, f e.2)) = (firsts seen es).map fun e => (e.1, f e.2) := by
  induction es generalizing seen with
  | nil => rfl
  | cons e rest ih =>
    rw [List.map_cons]
    by_cases he : e.1 ∈ seen
    · rw [firsts_cons_of_mem he, firsts_cons_of_mem (by exact he), ih]
    · rw [firsts_cons_of_not_mem he, firsts_cons_of_not_mem (by exact he), ih, List.map_cons]

theorem not_mem_of_mem_keys_firsts {seen : List String} {es : Entries α} {key : String}
    (h : key ∈ keys (firsts seen es)) : key ∉ seen := by
  induction es generalizing seen with
  | nil => simp [firsts, keys] at h
  | cons e rest ih =>
    by_cases he : e.1 ∈ seen
    · rw [firsts_cons_of_mem he] at h
      exact ih h
    · rw [firsts_cons_of_not_mem he, keys, List.map_cons, List.mem_cons] at h
      rcases h with rfl | h
      · exact he
      · exact fun hk => ih h (List.mem_cons_of_mem _ hk)

theorem keys_firsts_nodup (seen : List String) (es : Entries α) :
    (keys (firsts seen es)).Nodup := by
  induction es generalizing seen with
  | nil => exact List.nodup_nil
  | cons e rest ih =>
    by_cases he : e.1 ∈ seen
    · rw [firsts_cons_of_mem he]
      exact ih seen
    · rw [firsts_cons_of_not_mem he, keys, List.map_cons, List.nodup_cons]
      refine ⟨fun h => ?_, ih _⟩
      exact not_mem_of_mem_keys_firsts h List.mem_cons_self

theorem firsts_of_nodup {seen : List String} {es : Entries α} (h : (keys es).Nodup)
    (hs : ∀ key ∈ keys es, key ∉ seen) : firsts seen es = es := by
  induction es generalizing seen with
  | nil => rfl
  | cons e rest ih =>
    rw [keys, List.map_cons, List.nodup_cons] at h
    rw [firsts_cons_of_not_mem (hs _ List.mem_cons_self), ih h.2 fun key hkey => ?_]
    rw [List.mem_cons, not_or]
    exact ⟨fun he => h.1 (he ▸ hkey), hs key (List.mem_cons_of_mem _ hkey)⟩

theorem get?_firsts (seen : List String) (es : Entries α) (key : String) :
    get? key (firsts seen es) = if key ∈ seen then none else get? key es := by
  induction es generalizing seen with
  | nil => simp [firsts, get?]
  | cons e rest ih =>
    by_cases he : e.1 ∈ seen
    · rw [firsts_cons_of_mem he, ih]
      by_cases hk : e.1 = key
      · rw [if_pos (hk ▸ he), if_pos (hk ▸ he)]
      · rw [get?, if_neg hk]
    · rw [firsts_cons_of_not_mem he, get?, ih, get?]
      by_cases hk : e.1 = key
      · rw [if_pos hk, if_pos hk, if_neg (hk ▸ he)]
      · rw [if_neg hk, if_neg hk]
        simp only [List.mem_cons, Ne.symm hk, false_or]

theorem get?_map (f : α → β) (key : String) (es : Entries α) :
    get? key (es.map fun e => (e.1, f e.2)) = (get? key es).map f := by
  induction es with
  | nil => rfl
  | cons e rest ih =>
    rw [List.map_cons, get?, get?, ih]
    split <;> rfl

theorem get?_append (key : String) (es later : Entries α) :
    get? key (es ++ later) = (get? key es).or (get? key later) := by
  induction es with
  | nil => rfl
  | cons e rest ih =>
    rw [List.cons_append, get?, get?, ih]
    split <;> rfl

theorem has_iff {key : String} {es : Entries α} : has key es = true ↔ key ∈ keys es := by
  induction es with
  | nil => simp [has, get?, keys]
  | cons e rest ih =>
    simp only [has, keys] at ih
    by_cases hk : e.1 = key
    · simp [has, get?, keys, hk]
    · simp [has, get?, keys, hk, ih, Ne.symm hk]

theorem mem_of_get? {key : String} {value : α} {es : Entries α} (h : get? key es = some value) :
    (key, value) ∈ es := by
  induction es with
  | nil => cases h
  | cons e rest ih =>
    rw [get?] at h
    split at h
    · next hk =>
      cases h
      rw [← hk]
      exact List.mem_cons_self
    · exact List.mem_cons_of_mem e (ih h)

/-! ## Writing new keys -/

theorem put_of_not_mem {key : String} {es : Entries α} (h : key ∉ keys es) (value : α) :
    put key value es = es ++ [(key, value)] := by
  induction es with
  | nil => rfl
  | cons e rest ih =>
    rw [keys, List.map_cons, List.mem_cons, not_or] at h
    rw [put, if_neg (Ne.symm h.1), ih h.2]
    rfl

/-- New keys are written to the end, each once. -/
theorem putAll_of_disjoint {es later : Entries α} (hn : (keys later).Nodup)
    (hd : ∀ key ∈ keys later, key ∉ keys es) : putAll es later = es ++ later := by
  induction later generalizing es with
  | nil => exact (List.append_nil es).symm
  | cons e rest ih =>
    rw [keys, List.map_cons, List.nodup_cons] at hn
    have he : e.1 ∉ keys es := hd _ (by simp [keys])
    rw [putAll, List.foldl_cons, put_of_not_mem he]
    refine (ih hn.2 ?_).trans (by simp)
    intro key hk hmem
    rw [keys, List.map_append, List.mem_append] at hmem
    rcases hmem with h | h
    · exact hd key (by simp only [keys, List.map_cons]; exact List.mem_cons_of_mem _ hk) h
    · simp only [List.map_cons, List.map_nil, List.mem_singleton] at h
      exact hn.1 (h ▸ hk)

/-! ## Look-ups after writing -/

theorem get?_putAll_of_not_mem {key : String} {es later : Entries α} (h : key ∉ keys later) :
    get? key (putAll es later) = get? key es := by
  induction later generalizing es with
  | nil => rfl
  | cons e rest ih =>
    rw [keys, List.map_cons, List.mem_cons, not_or] at h
    rw [putAll, List.foldl_cons, ← putAll, ih h.2, get?_put_of_ne h.1]

theorem get?_putAll {es later : Entries α} (h : (keys later).Nodup) (key : String) :
    get? key (putAll es later) = (get? key later).or (get? key es) := by
  induction later generalizing es with
  | nil => rfl
  | cons e rest ih =>
    rw [keys, List.map_cons, List.nodup_cons] at h
    rw [putAll, List.foldl_cons, ← putAll, ih h.2, get?]
    by_cases hk : e.1 = key
    · subst hk
      have hmiss : get? e.1 rest = none := by
        rw [← Option.not_isSome_iff_eq_none]
        exact fun hsome => h.1 (has_iff.mp hsome)
      rw [hmiss, if_pos rfl, get?_put]
      rfl
    · rw [if_neg hk, get?_put_of_ne (Ne.symm hk)]

/-! ## What writing leaves -/

theorem forall_put {P : α → Prop} {es : Entries α} (h : ∀ e ∈ es, P e.2) {value : α}
    (hv : P value) (key : String) : ∀ e ∈ put key value es, P e.2 := by
  induction es with
  | nil =>
    intro e he
    cases List.mem_singleton.mp he
    exact hv
  | cons a rest ih =>
    have hrest := fun e he => h e (List.mem_cons_of_mem a he)
    intro e he
    rw [put] at he
    split at he
    · rcases List.mem_cons.mp he with rfl | he
      · exact hv
      · exact hrest e he
    · rcases List.mem_cons.mp he with rfl | he
      · exact h _ List.mem_cons_self
      · exact ih hrest e he

/-- What all values have, they have after others with it are written. -/
theorem forall_putAll {P : α → Prop} {es later : Entries α} (h : ∀ e ∈ es, P e.2)
    (h' : ∀ e ∈ later, P e.2) : ∀ e ∈ putAll es later, P e.2 := by
  induction later generalizing es with
  | nil => exact h
  | cons a rest ih =>
    exact ih (forall_put h (h' a List.mem_cons_self) a.1) fun e he =>
      h' e (List.mem_cons_of_mem a he)

theorem nodup_keys_put {es : Entries α} (h : (keys es).Nodup) (key : String) (value : α) :
    (keys (put key value es)).Nodup := by
  rw [keys_put]
  split
  · exact h
  · next hk =>
    refine List.nodup_append.mpr ⟨h, by simp, fun k hmem other hother => ?_⟩
    rintro rfl
    exact hk (List.mem_singleton.mp hother ▸ hmem)

theorem nodup_keys_putAll {es : Entries α} (h : (keys es).Nodup) (later : Entries α) :
    (keys (putAll es later)).Nodup := by
  induction later generalizing es with
  | nil => exact h
  | cons e rest ih => exact ih (nodup_keys_put h e.1 e.2)

/-- A key comes once among entries that were written one by one. -/
theorem nodup_keys_ofPairs (pairs : Entries α) : (keys (ofPairs pairs)).Nodup :=
  nodup_keys_putAll (show (keys ([] : Entries α)).Nodup from List.nodup_nil) pairs

end Tabular.Entries
