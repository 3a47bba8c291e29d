import Tabular.Proofs.Strict.Missing
import Tabular.Proofs.Strict.Traversed

/-!
# Sealed rows and later actions

Sealing a row copies the attributes and the list of nodes, but not the nodes: what is done to the
tree later on is seen in the row. Its walk and its record stay as they were just as long as no node
is changed.

* `Arena.Quiet`, `AllQuiet`, **`nodes_act`**, `nodes_act_eq_iff`: the actions that change no node;
* `inRange_append`, `outlines_run`: what holds along a sequence of actions;
* `Entries.eq_of_putAll_eq`, `follow_congr`, **`nodes_eq`**: the nodes are known from what a walk or a
  record shows of them;
* `gives_run`, `walk_eq_iff`, `record_eq_iff`, **`Arena.run_sealed`**: what a sealed row gives after
  later actions.
-/

namespace Tabular

/-- Entries written over others can be told from what has become of these, if their keys are
known. -/
theorem Entries.eq_of_putAll_eq {α : Type} {es later later' : Entries α} (hn : (keys later).Nodup)
    (hk : keys later' = keys later) (h : putAll es later' = putAll es later) : later' = later := by
  have hget : ∀ key ∈ keys later, get? key later' = get? key later := by
    intro key hmem
    have hself := congrArg (get? key) h
    rw [get?_putAll hn, get?_putAll (hk ▸ hn)] at hself
    have hsome : ∀ {xs : Entries α}, key ∈ keys xs → ∃ v, get? key xs = some v := fun hmem =>
      Option.isSome_iff_exists.mp (has_iff.mpr hmem)
    obtain ⟨v, hv⟩ := hsome hmem
    obtain ⟨v', hv'⟩ := hsome (hk ▸ hmem)
    rw [hv, hv'] at hself ⊢
    exact hself
  clear h
  induction later generalizing later' with
  | nil => exact List.map_eq_nil_iff.mp hk
  | cons e rest ih =>
    obtain ⟨e', rest', rfl⟩ : ∃ e' rest', later' = e' :: rest' := by
      cases later' with
      | nil => cases hk
      | cons e' rest' => exact ⟨e', rest', rfl⟩
    obtain ⟨key, v⟩ := e
    obtain ⟨key', v'⟩ := e'
    rw [keys, keys, List.map_cons, List.map_cons] at hk
    obtain ⟨rfl, hrest⟩ := List.cons.inj hk
    rw [keys, List.map_cons, List.nodup_cons] at hn
    have hfirst := hget key' List.mem_cons_self
    rw [get?, if_pos rfl, get?, if_pos rfl] at hfirst
    rw [Option.some.inj hfirst, ih hn.2 hrest fun key hmem => ?_]
    have hne : key' ≠ key := fun heq => hn.1 (heq ▸ hmem)
    have hothers := hget key (List.mem_cons_of_mem key' hmem)
    rwa [get?, if_neg hne, get?, if_neg hne] at hothers

namespace Strict

namespace Node

variable {n n' : Node}

/-- The name of a node and what is directly below it. -/
def outline (n : Node) : String × Entries Nat :=
  (n.name, n.children)

theorem eq_of_outline (ho : n'.outline = n.outline) (hk : n'.kind = n.kind)
    (hv : n'.value = n.value) : n' = n := by
  cases n
  cases n'
  simp_all [outline]

theorem outline_assigned (value : Option String) (n : Node) :
    (n.assigned value).outline = n.outline := by
  unfold assigned
  split <;> rfl

theorem promoted_eq_iff (hv : n.kind = .map → n.value = none) :
    n.promoted = n ↔ n.kind = .map := by
  constructor
  · exact fun heq => congrArg kind heq.symm
  · exact fun hk => promoted_of_map hk (hv hk)

theorem assigned_eq_iff {value : Option String} :
    n.assigned value = n ↔ n.kind = .map ∨ n.value = value := by
  obtain ⟨name, kind, text, children⟩ := n
  cases kind <;> simp [assigned, eq_comm]

end Node

namespace Arena

variable {a a' : Arena} {d d' : Draft} {action : Action} {actions later : List Action} {path : Path}
  {handle : Nat} {n n' : Node} {ordinal : Int}

/-! ## Actions that change no node -/

/-- The action changes no node: the name is taken, or the node is that of a map, or it has this text
already. -/
def Quiet (a : Arena) : Action → Prop
  | .insert parent name => ∀ p ∈ a.nodes[parent]?, Entries.has name p.children = true
  | .promote handle => ∀ n ∈ a.nodes[handle]?, n.kind = .map
  | .assign handle value => ∀ n ∈ a.nodes[handle]?, n.kind = .map ∨ n.value = value
  | .annotate .. | .close _ => True

/-- None of the actions changes a node. -/
def AllQuiet : List Action → Arena → Prop
  | [], _ => True
  | action :: rest, a => a.Quiet action ∧ ∀ a', a.act action = .ok a' → AllQuiet rest a'

theorem quiet_insert (hn : a.nodes[handle]? = some n) (name : String) :
    a.Quiet (.insert handle name) ↔ Entries.has name n.children = true := by
  simp [Quiet, hn]

theorem quiet_promote (hn : a.nodes[handle]? = some n) :
    a.Quiet (.promote handle) ↔ n.kind = .map := by
  simp [Quiet, hn]

theorem quiet_assign (hn : a.nodes[handle]? = some n) (value : Option String) :
    a.Quiet (.assign handle value) ↔ n.kind = .map ∨ n.value = value := by
  simp [Quiet, hn]

theorem set_eq_self_iff {α : Type} {xs : List α} {i : Nat} {x x' : α} (hx : xs[i]? = some x) :
    xs.set i x' = xs ↔ x' = x := by
  obtain ⟨hlt, rfl⟩ := List.getElem?_eq_some_iff.mp hx
  constructor
  · intro heq
    have hself : (xs.set i x')[i]? = some x' := List.getElem?_set_self hlt
    rw [heq, hx] at hself
    exact (Option.some.inj hself).symm
  · rintro rfl
    exact List.set_getElem_self hlt

/-- One node has another kind or another text. -/
def Retouched (a a' : Arena) : Prop :=
  ∃ (handle : Nat) (n n' : Node), a.nodes[handle]? = some n ∧ n' ≠ n ∧ n'.outline = n.outline ∧
    a'.nodes = a.nodes.set handle n'

/-- **An action that is not quiet** adds a node, or it changes the kind or the text of one. -/
theorem nodes_act (h : a.Shows d) (hr : ∀ handle ∈ action.handle?, handle < a.nodes.length)
    (ha : a.act action = .ok a') : a.Quiet action ∧ a'.nodes = a.nodes ∨
      ¬ a.Quiet action ∧ (a'.nodes.length = a.nodes.length + 1 ∨ a.Retouched a') := by
  -- a node that is set stays as it is, or it is changed
  have hset : ∀ (handle : Nat) (n n' : Node), a.nodes[handle]? = some n → n'.outline = n.outline →
      (n' = n ↔ a.Quiet action) → a'.nodes = a.nodes.set handle n' →
      a.Quiet action ∧ a'.nodes = a.nodes ∨
        ¬ a.Quiet action ∧ (a'.nodes.length = a.nodes.length + 1 ∨ a.Retouched a') := by
    intro handle n n' hn ho hq heq
    by_cases hself : n' = n
    · exact Or.inl ⟨hq.mp hself, heq.trans ((set_eq_self_iff hn).mpr hself)⟩
    · exact Or.inr ⟨mt hq.mpr hself, Or.inr ⟨handle, n, n', hn, hself, ho, heq⟩⟩
  cases action with
  | insert parent name =>
    obtain ⟨path, p, hp, -, -⟩ := h.exists_shown? (hr parent rfl)
    have hn := h.node path parent p hp
    rw [act] at ha
    rw [quiet_insert hn]
    cases ht : Entries.has name p.children with
    | true =>
      rw [insert_of_taken hn ht] at ha
      cases ha
      exact Or.inl ⟨rfl, rfl⟩
    | false =>
      rw [insert_of_free hn (Shows.kinds hp).1 ht] at ha
      cases ha
      refine Or.inr ⟨Bool.false_ne_true, Or.inl ?_⟩
      rw [List.length_set, List.length_append]
      rfl
  | promote handle =>
    obtain ⟨path, n, hp, -, hnode⟩ := h.exists_shown? (hr handle rfl)
    have hn := h.node path handle n hp
    rw [act, promote, hnode] at ha
    cases ha
    apply hset handle n n.promoted hn rfl _ rfl
    rw [quiet_promote hn]
    exact Node.promoted_eq_iff (Shows.kinds hp).1
  | assign handle value =>
    obtain ⟨path, n, hp, -, hnode⟩ := h.exists_shown? (hr handle rfl)
    have hn := h.node path handle n hp
    rw [act, assign, hnode] at ha
    cases ha
    apply hset handle n (n.assigned value) hn (Node.outline_assigned value n) _ rfl
    rw [quiet_assign hn]
    exact Node.assigned_eq_iff
  | annotate key value =>
    cases ha
    exact Or.inl ⟨trivial, rfl⟩
  | close ordinal =>
    cases ha
    exact Or.inl ⟨trivial, rfl⟩

/-- The quiet actions are those that change no node. -/
theorem nodes_act_eq_iff (h : a.Shows d) (hr : ∀ handle ∈ action.handle?, handle < a.nodes.length)
    (ha : a.act action = .ok a') : a'.nodes = a.nodes ↔ a.Quiet action := by
  rcases nodes_act h hr ha with ⟨hq, heq⟩ | ⟨hq, hlen | ⟨handle, n, n', hn, hne, -, heq⟩⟩
  · exact iff_of_true heq hq
  · refine iff_of_false (fun heq => ?_) hq
    rw [heq] at hlen
    omega
  · refine iff_of_false (fun hself => hne ?_) hq
    exact (set_eq_self_iff hn).mp (heq.symm.trans hself)

/-! ## Sequences of actions -/

theorem inRange_append {now later : List Action} : InRange (now ++ later) a ↔
    InRange now a ∧ ∀ a', run now a = .ok a' → InRange later a' := by
  induction now generalizing a with
  | nil =>
    constructor
    · rintro hr
      exact ⟨trivial, fun a' ha => Except.ok.inj ha ▸ hr⟩
    · exact fun hr => hr.2 a rfl
  | cons action rest ih =>
    rw [List.cons_append, InRange, InRange]
    constructor
    · rintro ⟨hself, hrest⟩
      refine ⟨⟨hself, fun a₁ ha => (ih.mp (hrest a₁ ha)).1⟩, fun a' hrun => ?_⟩
      rw [run] at hrun
      cases ha : a.act action with
      | error breach =>
        rw [ha] at hrun
        cases hrun
      | ok a₁ =>
        rw [ha] at hrun
        exact (ih.mp (hrest a₁ ha)).2 a' hrun
    · rintro ⟨⟨hself, hrest⟩, hlater⟩
      refine ⟨hself, fun a₁ ha => ih.mpr ⟨hrest a₁ ha, fun a' hrun => hlater a' ?_⟩⟩
      rw [run, ha]
      exact hrun

/-- Nodes become more, and keep their names and their children as long as they do not. -/
theorem outlines_run (h : a.Shows d) (hr : InRange actions a) (hrun : run actions a = .ok a') :
    a.nodes.length ≤ a'.nodes.length ∧ (a'.nodes.length = a.nodes.length →
      a'.nodes.map Node.outline = a.nodes.map Node.outline) := by
  induction actions generalizing a d with
  | nil =>
    cases hrun
    exact ⟨Nat.le_refl _, fun _ => rfl⟩
  | cons action rest ih =>
    obtain ⟨a₁, ha, hs⟩ := shows_act h hr.1
    rw [run, ha] at hrun
    obtain ⟨hle, houtlines⟩ := ih hs (hr.2 a₁ ha) hrun
    rcases nodes_act h hr.1 ha with ⟨-, heq⟩ | ⟨-, hlen | ⟨handle, n, n', hn, -, ho, heq⟩⟩
    · rw [heq] at hle houtlines
      exact ⟨hle, houtlines⟩
    · exact ⟨by omega, fun heq => by omega⟩
    · have hkept : a₁.nodes.map Node.outline = a.nodes.map Node.outline := by
        rw [heq, List.map_set, set_eq_self_iff (x := n.outline)]
        · exact ho
        · rw [List.getElem?_map, hn]
          rfl
      rw [heq, List.length_set] at hle houtlines
      exact ⟨hle, fun hlen => (houtlines hlen).trans (heq ▸ hkept)⟩

/-- None of the actions changes a node just if all nodes are at every moment what they were. -/
theorem allQuiet_iff (h : a.Shows d) (hr : InRange later a) : AllQuiet later a ↔
    ∀ moment b, run (later.take moment) a = .ok b → b.nodes = a.nodes := by
  induction later generalizing a d with
  | nil =>
    refine iff_of_true trivial fun moment b hrun => ?_
    rw [List.take_nil] at hrun
    cases hrun
    rfl
  | cons action rest ih =>
    obtain ⟨a₁, ha, hs⟩ := shows_act h hr.1
    have hself := nodes_act_eq_iff h hr.1 ha
    have hrest := ih hs (hr.2 a₁ ha)
    have hrun : ∀ moment, run ((action :: rest).take (moment + 1)) a = run (rest.take moment) a₁ := by
      intro moment
      rw [List.take_succ_cons, run, ha]
      rfl
    constructor
    · rintro ⟨hquiet, hlater⟩ moment b hb
      cases moment with
      | zero =>
        cases hb
        rfl
      | succ moment =>
        rw [hrun] at hb
        exact (hrest.mp (hlater a₁ ha) moment b hb).trans (hself.mpr hquiet)
    · intro hall
      have hfirst : a₁.nodes = a.nodes := hall 1 a₁ (by rw [hrun]; rfl)
      refine ⟨hself.mp hfirst, fun a₂ ha₂ => ?_⟩
      obtain rfl := Except.ok.inj (ha.symm.trans ha₂)
      refine hrest.mpr fun moment b hb => ?_
      rw [hfirst]
      exact hall (moment + 1) b (by rw [hrun]; exact hb)

/-! ## What a walk tells of the nodes -/

theorem outline_eq (ho : a'.nodes.map Node.outline = a.nodes.map Node.outline)
    (hn : a.nodes[handle]? = some n) (hn' : a'.nodes[handle]? = some n') :
    n'.outline = n.outline := by
  have hself := congrArg (fun os => os[handle]?) ho
  simp only [List.getElem?_map, hn, hn', Option.map_some] at hself
  exact Option.some.inj hself

/-- Where no node has another name or other children, every path leads where it led. -/
theorem follow_congr (ho : a'.nodes.map Node.outline = a.nodes.map Node.outline) (path : Path)
    (handle : Nat) : a'.follow path handle = a.follow path handle := by
  induction path generalizing handle with
  | nil => rfl
  | cons name rest ih =>
    have hself := congrArg (fun os => os[handle]?) ho
    simp only [List.getElem?_map] at hself
    rw [follow, follow, show a'.follow rest = a.follow rest from funext ih]
    cases hn : a.nodes[handle]? with
    | none =>
      rw [hn] at hself
      rw [Option.map_eq_none_iff.mp hself]
    | some n =>
      rw [hn] at hself
      obtain ⟨n', hn', heq⟩ := Option.map_eq_some_iff.mp hself
      rw [hn', Option.bind_some, Option.bind_some, (Prod.mk.inj heq).2]

/-- **The nodes are known** from the paths, kinds and texts that a walk shows, and their names and
children. -/
theorem nodes_eq (h : a.Shows d) (h' : a'.Shows d')
    (ho : a'.nodes.map Node.outline = a.nodes.map Node.outline)
    (hw : (Field.walk [] d'.fields).map (fun e => (e.1, e.2.kind, e.2.value?)) =
      (Field.walk [] d.fields).map fun e => (e.1, e.2.kind, e.2.value?)) : a'.nodes = a.nodes := by
  have hlen : a'.nodes.length = a.nodes.length := by
    simpa using congrArg List.length ho
  refine List.ext_getElem? fun handle => ?_
  cases hn : a.nodes[handle]? with
  | none => rw [List.getElem?_eq_none_iff, hlen, ← List.getElem?_eq_none_iff, hn]
  | some n =>
    obtain ⟨path, f, hf, rfl, rfl⟩ := h.exists_of_node hn
    -- the other arena has the same kind and text there
    obtain ⟨f', hnode, hkind, hvalue⟩ : ∃ f' : Field, a'.nodes[f.handle]? = some f'.node ∧
        f'.kind = f.kind ∧ f'.value? = f.value? := by
      rcases List.eq_nil_or_concat path with rfl | ⟨above, name, rfl⟩
      · cases hf
        exact ⟨d'.root, h'.root_node, rfl, rfl⟩
      · rw [List.concat_eq_append] at hf
        have hmem := h.mem_walk_iff.mpr ⟨List.concat_ne_nil name above, hf⟩
        have hshown := List.mem_map_of_mem (f := fun e => (e.1, e.2.kind, e.2.value?)) hmem
        rw [← hw] at hshown
        obtain ⟨e', he', heq⟩ := List.mem_map.mp hshown
        obtain ⟨hpath, hrest⟩ := Prod.mk.inj heq
        obtain ⟨hkind, hvalue⟩ := Prod.mk.inj hrest
        have hf' := (h'.mem_walk_iff.mp he').2
        have hhandle : some e'.2.handle = some f.handle := by
          rw [← h'.follow_of_at? hf', follow_congr ho, hpath, h.follow_of_at? hf]
        rw [← Option.some.inj hhandle]
        exact ⟨e'.2, h'.node e'.1 _ _ (Shows.shown?_of_at? hf'), hkind, hvalue⟩
    rw [hnode, Node.eq_of_outline (outline_eq ho hn hnode) hkind hvalue]

/-! ## Sealed rows -/

section Sealed

variable (h : a.Shows d) (h' : a'.Shows d') (hr : InRange later a) (hrun : run later a = .ok a')
  (ordinal : Int)

include h h' hr hrun

/-- **A sealed row gives what its window shows**, the fields as they are now, as long as there is no
new one. -/
theorem gives_run : (a.sealed ordinal).Gives a' ((Window.ofDraft ordinal d).look? d') := by
  have hle := (outlines_run h hr hrun).1
  have hpos := h.sound.one_le
  have hsize : (a.sealed ordinal).size = d.size := h.length
  rw [h.length, h'.length] at hle
  unfold Window.look? Window.ofDraft
  by_cases hs : d'.size = d.size
  · rw [if_pos hs, ← h.tag, ← h.attributes]
    exact h'.gives_of_size (by rw [hsize, h'.length, hs])
  · rw [if_neg hs]
    refine h'.gives_of_lt (hsize ▸ hpos) ?_
    rw [hsize, h'.length]
    omega

/-- A sealed row whose walk or record comes to its end has all nodes. -/
theorem look?_of_ok (hok : (∃ visits, (a.sealed ordinal).walk a' = .ok visits) ∨
      ∃ out, (a.sealed ordinal).record a' = .ok out) :
    (Window.ofDraft ordinal d).look? d' = some ⟨d.tag, ordinal, d.attributes, d'.fields⟩ ∧
      a'.nodes.map Node.outline = a.nodes.map Node.outline := by
  have hgives := gives_run h h' hr hrun ordinal
  unfold Window.look? Window.ofDraft at hgives ⊢
  by_cases hs : d'.size = d.size
  · exact ⟨if_pos hs, (outlines_run h hr hrun).2 (by rw [h'.length, h.length, hs])⟩
  · rw [if_neg hs] at hgives
    obtain ⟨⟨handle, hwalk⟩, ⟨handle', hrecord⟩⟩ := hgives
    rcases hok with ⟨visits, hvisits⟩ | ⟨out, hout⟩
    · cases hwalk.symm.trans hvisits
    · cases hrecord.symm.trans hout

/-- **The walk of a sealed row stays** just if no node is changed. -/
theorem walk_eq_iff :
    (a.sealed ordinal).walk a' = (a.sealed ordinal).walk a ↔ a'.nodes = a.nodes := by
  constructor
  · intro heq
    have hthen := heq.trans (h.agrees ordinal).walk
    obtain ⟨hlook, ho⟩ := look?_of_ok h h' hr hrun ordinal (Or.inl ⟨_, hthen⟩)
    have hgives := gives_run h h' hr hrun ordinal
    rw [hlook] at hgives
    obtain ⟨-, -, -, hwalk, -⟩ := hgives
    have hvisits := congrArg (List.map fun v => (v.1, v.2.2.kind, v.2.2.value))
      (Except.ok.inj (hwalk.symm.trans hthen))
    rw [List.map_map, List.map_map] at hvisits
    exact nodes_eq h h' ho hvisits
  · intro heq
    unfold Sealed.walk Sealed.nodes
    rw [heq]

/-- **The record of a sealed row stays** just if no node is changed. -/
theorem record_eq_iff :
    (a.sealed ordinal).record a' = (a.sealed ordinal).record a ↔ a'.nodes = a.nodes := by
  constructor
  · intro heq
    have hthen := heq.trans (h.agrees ordinal).record
    obtain ⟨hlook, ho⟩ := look?_of_ok h h' hr hrun ordinal (Or.inr ⟨_, hthen⟩)
    have hgives := gives_run h h' hr hrun ordinal
    rw [hlook] at hgives
    obtain ⟨-, -, -, -, hrecord⟩ := hgives
    -- the two records have their fields under the same names
    have hkeys : Entries.keys (Field.entriesOf d'.fields) =
        Entries.keys (Field.entriesOf d.fields) := by
      have hroot := (Prod.mk.inj (outline_eq ho h.root_node h'.root_node)).2
      have hnames := congrArg Entries.keys hroot
      rwa [Field.keys_children, Field.keys_children, ← Field.keys_entriesOf,
        ← Field.keys_entriesOf] at hnames
    have hnodup : (Entries.keys (Field.entriesOf d.fields)).Nodup := by
      rw [Field.keys_entriesOf]
      exact h.sound.distinct.nodup
    have hfields := Entries.eq_of_putAll_eq hnodup hkeys
      (Except.ok.inj (hrecord.symm.trans hthen))
    have hlisted := congrArg (Value.listed? []) hfields
    rw [Value.listed?_entriesOf, Value.listed?_entriesOf] at hlisted
    exact nodes_eq h h' ho (Option.some.inj hlisted)
  · intro heq
    unfold Sealed.record Sealed.nodes
    rw [heq]

end Sealed

/-- **What a sealed row gives after later actions.** Sealed after any actions on handles that are
there, it gives the row that the draft is then. Its tag, its number and its attributes are its own.
Its walk and its record are those of the fields as they are at the time of the look, and break off
once there is a field that came after the sealing. So both are what they were just if no node has
been changed; and they are so at every moment of what is done later just if all that is done is
quiet: a name that is taken, a map made a map, a text for a map or the text that is there, an
attribute, another sealing. -/
theorem run_sealed {tag : String} {before later : List Action}
    (hr : InRange (before ++ later) (start tag)) (ordinal : Int) :
    ∃ a a', run before (start tag) = .ok a ∧ run later a = .ok a' ∧
      let d := before.foldl Draft.act { tag }
      let s := a.sealed ordinal
      s.Gives a (some (d.toRow ordinal)) ∧
        s.Gives a' ((Window.ofDraft ordinal d).look? (later.foldl Draft.act d)) ∧
        (s.walk a' = s.walk a ↔ a'.nodes = a.nodes) ∧
        (s.record a' = s.record a ↔ a'.nodes = a.nodes) ∧
        (AllQuiet later a ↔ ∀ moment, ∃ b, run (later.take moment) a = .ok b ∧
          s.walk b = s.walk a ∧ s.record b = s.record a) := by
  obtain ⟨hbefore, hlater⟩ := inRange_append.mp hr
  obtain ⟨a, hrun, h⟩ := shows_run (shows_start tag) hbefore
  have hra := hlater a hrun
  obtain ⟨a', hrun', h'⟩ := shows_run h hra
  refine ⟨a, a', hrun, hrun', ?_, gives_run h h' hra hrun' ordinal,
    walk_eq_iff h h' hra hrun' ordinal, record_eq_iff h h' hra hrun' ordinal, ?_⟩
  · have hgives := h.gives_of_size (s := a.sealed ordinal) rfl
    rwa [sealed, h.tag, h.attributes] at hgives ⊢
  · rw [allQuiet_iff h hra]
    refine forall_congr' fun moment => ?_
    have hrb : InRange (later.take moment) a := by
      rw [← List.take_append_drop moment later] at hra
      exact (inRange_append.mp hra).1
    obtain ⟨b, hb, hs⟩ := shows_run h hrb
    have hwalk := walk_eq_iff h hs hrb hb ordinal
    have hrecord := record_eq_iff h hs hrb hb ordinal
    constructor
    · intro hall
      exact ⟨b, hb, hwalk.mpr (hall b hb), hrecord.mpr (hall b hb)⟩
    · rintro ⟨b', hb', hsame, -⟩ c hc
      obtain rfl := Except.ok.inj (hb.symm.trans hb')
      obtain rfl := Except.ok.inj (hb.symm.trans hc)
      exact hwalk.mp hsame

/-- After some quiet actions a text is set for a field of the sealed row. -/
theorem run_sealed_assigned :
    let before : List Action := [.insert 0 "m", .insert 1 "x"]
    let quiet : List Action := [.insert 0 "m", .promote 1, .annotate "k" none]
    let later : List Action := quiet ++ [.assign 2 (some "1")]
    let nodes (value : Option String) : List Node := [⟨"r", .map, none, [("m", 1)]⟩,
      ⟨"m", .map, none, [("x", 2)]⟩, ⟨"x", .scalar, value, []⟩]
    let a : Arena := ⟨"r", nodes none, []⟩
    let a' : Arena := ⟨"r", nodes (some "1"), [("k", none)]⟩
    let s := a.sealed 0
    InRange (before ++ later) (start "r") ∧ run before (start "r") = .ok a ∧
      run later a = .ok a' ∧
      s.Gives a' (some ⟨"r", 0, [], [.map "m" 1 [.scalar "x" 2 (some "1")]]⟩) ∧
      s.walk a' ≠ s.walk a ∧ ¬ AllQuiet later a := by
  intro before quiet later nodes a a' s
  have hr : InRange (before ++ later) (start "r") := by decide +kernel
  have hbefore : run before (start "r") = .ok a := rfl
  have hlater : run later a = .ok a' := rfl
  obtain ⟨b, b', hb, hb', -, hgives, hwalk, -, hquiet⟩ := run_sealed hr 0
  obtain rfl : b = a := Except.ok.inj (hb.symm.trans hbefore)
  obtain rfl : b' = a' := Except.ok.inj (hb'.symm.trans hlater)
  have hne : s.walk a' ≠ s.walk a := fun heq => absurd (hwalk.mp heq) (by decide)
  refine ⟨hr, hbefore, hlater, hgives, hne, fun hall => hne ?_⟩
  obtain ⟨b, hb, hsame, -⟩ := hquiet.mp hall 4
  obtain rfl : b = a' := Except.ok.inj (hb.symm.trans hlater)
  exact hsame

/-- A text that is set after the sealing is seen in the sealed row. -/
theorem not_sealed_fixed : ¬ ∀ (tag : String) (before later : List Action) (ordinal : Int)
    (a a' : Arena), InRange (before ++ later) (start tag) → run before (start tag) = .ok a →
      run later a = .ok a' → (a.sealed ordinal).walk a' = (a.sealed ordinal).walk a ∧
        (a.sealed ordinal).record a' = (a.sealed ordinal).record a := by
  intro hall
  have hr : InRange ([.insert 0 "a"] ++ [.assign 1 (some "x")]) (start "r") := by decide +kernel
  obtain ⟨hwalk, -⟩ := hall "r" [.insert 0 "a"] [.assign 1 (some "x")] 0
    ⟨"r", [⟨"r", .map, none, [("a", 1)]⟩, ⟨"a", .scalar, none, []⟩], []⟩
    ⟨"r", [⟨"r", .map, none, [("a", 1)]⟩, ⟨"a", .scalar, some "x", []⟩], []⟩ hr rfl rfl
  have hvisits := Except.ok.inj hwalk
  cases hvisits

end Arena

end Strict

end Tabular
