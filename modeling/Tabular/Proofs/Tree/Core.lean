import Tabular.Proofs.Reader.Sealed

/-!
# What stands at a level and below it

The core of a stream is what is left of it without the elements above a level: the events of the
elements at the level and below it.

* `Event.depthAt`, `Event.core`: the depth an event belongs to, and the core of a stream;
* `Interspersed`, `Event.wrapped`: a stream with further texts around its outermost elements, and
  one inside a further element;
* **`core_wrapped`**: the core of a wrapped stream is one level deeper;
* `Reworded`, **`Reworded.core_eq`**: streams that differ above a level only have the same core.
-/

namespace Tabular

namespace Event

variable {level depth : Nat} {tags : List String} {events events' : List Event}

/-! ## Cores -/

/-- The depth of the element that an event belongs to, with `depth` elements open before it. -/
def depthAt (depth : Nat) : Event → Nat
  | .start .. => depth + 1
  | .text _ => depth
  | .finish _ => depth

theorem depthAfter_le_depthAt (event : Event) (depth : Nat) :
    event.depthAfter depth ≤ event.depthAt depth := by
  cases event <;> simp [depthAfter, depthAt]

theorem le_depthAt (event : Event) (depth : Nat) : depth ≤ event.depthAt depth := by
  cases event <;> simp [depthAt]

theorem depthAt_le_succ (event : Event) (depth : Nat) : event.depthAt depth ≤ depth + 1 := by
  cases event <;> simp [depthAt]

/-- The events of the elements at a level and below it, with `depth` elements open. -/
def core (level : Nat) : (depth : Nat) → List Event → List Event
  | _, [] => []
  | depth, event :: rest =>
    if event.depthAt depth < level then core level (event.depthAfter depth) rest
    else event :: core level (event.depthAfter depth) rest

theorem core_cons_of_lt {e : Event} (h : e.depthAt depth < level) (rest : List Event) :
    core level depth (e :: rest) = core level (e.depthAfter depth) rest :=
  if_pos h

theorem core_cons_of_le {e : Event} (h : level ≤ e.depthAt depth) (rest : List Event) :
    core level depth (e :: rest) = e :: core level (e.depthAfter depth) rest :=
  if_neg (Nat.not_lt_of_le h)

/-- Texts above the level are left out. -/
theorem core_texts (h : depth < level) (values : List String) (rest : List Event) :
    core level depth (values.map .text ++ rest) = core level depth rest := by
  induction values with
  | nil => rfl
  | cons value values ih =>
    rw [List.map_cons, List.cons_append, core_cons_of_lt (e := .text value) h]
    exact ih

theorem depthAt_succ (event : Event) (depth : Nat) :
    event.depthAt (depth + 1) = event.depthAt depth + 1 := by
  cases event <;> rfl

/-- An event is kept one level deeper just if it was kept before. -/
theorem core_succ_cons {event : Event} {rest later : List Event}
    (h : core (level + 1) (event.depthAfter (depth + 1)) rest =
      core level (event.depthAfter depth) events ++ later) :
    core (level + 1) (depth + 1) (event :: rest) = core level depth (event :: events) ++ later := by
  rw [core, core, depthAt_succ, h]
  by_cases hl : event.depthAt depth < level
  · rw [if_pos (Nat.succ_lt_succ hl), if_pos hl]
  · rw [if_neg fun hlt => hl (Nat.lt_of_succ_lt_succ hlt), if_neg hl, List.cons_append]

/-- Inside one more element the core is one level deeper. -/
theorem core_inside (h : Nested tags events) (level : Nat) (rest : List Event) :
    core (level + 1) (tags.length + 1) (events ++ rest) =
      core level tags.length events ++ core (level + 1) 1 rest := by
  induction h with
  | nil => rfl
  | start _ ih => exact core_succ_cons ih
  | text _ ih => exact core_succ_cons ih
  | finish _ _ ih => exact core_succ_cons ih

/-! ## Wrapped streams -/

/-- Behind `depth` open elements the events are the given ones with further texts, each where no
element is open. -/
inductive Interspersed : Nat → List Event → List Event → Prop where
  | nil {depth : Nat} : Interspersed depth [] []
  | event {depth : Nat} {event : Event} {events events' : List Event} :
      Interspersed (event.depthAfter depth) events events' →
        Interspersed depth (event :: events) (event :: events')
  | more {value : String} {events events' : List Event} :
      Interspersed 0 events events' → Interspersed 0 events (.text value :: events')

/-- The events inside one more element, with texts before and behind it. -/
def wrapped (before after : List String) (name : String) (attributes : Entries String)
    (events : List Event) : List Event :=
  before.map .text ++ .start name attributes :: (events ++ .finish name :: after.map .text)

theorem nested_texts (values : List String) (h : Nested tags events) :
    Nested tags (values.map .text ++ events) := by
  induction values with
  | nil => exact h
  | cons value values ih => exact .text ih

/-- Further texts leave a stream nested. -/
theorem Interspersed.nested (h : Interspersed depth events events') (hn : Nested tags events)
    (ht : tags.length = depth) : Nested tags events' := by
  induction h generalizing tags with
  | nil => exact hn
  | more _ ih => exact .text (ih hn ht)
  | event _ ih =>
    subst ht
    cases hn with
    | start hn => exact .start (ih hn rfl)
    | text hn => exact .text (ih hn rfl)
    | finish hc hn => exact .finish hc (ih hn rfl)

theorem Interspersed.core_eq (h : Interspersed depth events events') (hl : 0 < level) :
    core level depth events' = core level depth events := by
  induction h with
  | nil => rfl
  | event _ ih => rw [core, core, ih]
  | more _ ih =>
    rw [core_cons_of_lt (e := .text _) hl]
    exact ih

/-- A nested stream is nested inside one more element. -/
theorem Nested.inside (h : Nested tags events) (name : String) (after : List String) :
    Nested (tags ++ [name]) (events ++ .finish name :: after.map .text) := by
  induction h with
  | nil =>
    have hrest : Nested [] (after.map .text ++ []) := nested_texts after .nil
    rw [List.append_nil] at hrest
    exact .finish (by simp [closes]) hrest
  | start _ ih => exact .start ih
  | text _ ih => exact .text ih
  | finish hc _ ih => exact .finish hc ih

theorem nested_wrapped (h : Nested [] events) (before after : List String) (name : String)
    (attributes : Entries String) : Nested [] (wrapped before after name attributes events) :=
  nested_texts before (.start (h.inside name after))

/-- **The core of a wrapped stream** is that of the stream, one level deeper. -/
theorem core_wrapped (h : Nested [] events) (hi : Interspersed 0 events events') (hl : 0 < level)
    (before after : List String) (name : String) (attributes : Entries String) :
    core (level + 1) 0 (wrapped before after name attributes events') = core level 0 events := by
  have hone : 0 + 1 < level + 1 := Nat.succ_lt_succ hl
  have hinside : core (level + 1) 1 (events' ++ .finish name :: after.map .text) = _ :=
    core_inside (hi.nested h rfl) level _
  have hafter := core_texts (Nat.succ_pos level) after []
  rw [List.append_nil] at hafter
  rw [wrapped, core_texts (Nat.succ_pos level),
    core_cons_of_lt (e := .start name attributes) hone]
  refine hinside.trans ?_
  rw [core_cons_of_lt (e := .finish name) hone, List.length_nil, hi.core_eq hl]
  exact (congrArg (_ ++ ·) hafter).trans (List.append_nil _)

/-! ## Streams that differ above a level -/

/-- Behind `depth` open elements the events differ above a level only: elements there have other
names and attributes, and there are other texts. -/
inductive Reworded (level : Nat) : Nat → List Event → List Event → Prop where
  | nil {depth : Nat} : Reworded level depth [] []
  | kept {depth : Nat} {event : Event} {events events' : List Event} :
      level ≤ event.depthAt depth → Reworded level (event.depthAfter depth) events events' →
        Reworded level depth (event :: events) (event :: events')
  | start {depth : Nat} {name name' : String} {attributes attributes' : Entries String}
      {events events' : List Event} : depth + 1 < level → Reworded level (depth + 1) events events' →
        Reworded level depth (.start name attributes :: events) (.start name' attributes' :: events')
  | finish {depth : Nat} {name name' : String} {events events' : List Event} :
      depth < level → Reworded level (depth - 1) events events' →
        Reworded level depth (.finish name :: events) (.finish name' :: events')
  | less {depth : Nat} {value : String} {events events' : List Event} :
      depth < level → Reworded level depth events events' →
        Reworded level depth (.text value :: events) events'
  | more {depth : Nat} {value : String} {events events' : List Event} :
      depth < level → Reworded level depth events events' →
        Reworded level depth events (.text value :: events')

/-- **Streams that differ above a level only** have the same core. -/
theorem Reworded.core_eq (h : Reworded level depth events events') :
    core level depth events = core level depth events' := by
  induction h with
  | nil => rfl
  | kept hl _ ih => rw [core_cons_of_le hl, core_cons_of_le hl, ih]
  | start hl _ ih =>
    rw [core_cons_of_lt (e := .start _ _) hl, core_cons_of_lt (e := .start _ _) hl]
    exact ih
  | finish hl _ ih =>
    rw [core_cons_of_lt (e := .finish _) hl, core_cons_of_lt (e := .finish _) hl]
    exact ih
  | less hl _ ih =>
    rw [core_cons_of_lt (e := .text _) hl]
    exact ih
  | more hl _ ih =>
    rw [core_cons_of_lt (e := .text _) hl]
    exact ih

end Event

end Tabular
