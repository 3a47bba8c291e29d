import Tabular.Proofs.Schema.Concord
import Tabular.Proofs.Strict.Trees

/-!
# Traversals that agree

After any actions on handles that are there the nodes of an arena make a tree, and of the row that is
sealed then the walk, the record and the fold into a new schema show this tree: the walk gives every
field once, depth first, and the record gives the fields in the same order.

* `Value.listed?`, **`listed?_entriesOf`**: the fields read off from the entries of a record;
* `IsRegular.record_eq`, **`IsRegular.fold_start`**: a row as the first one of a schema for every
  column;
* `Field.nodup_walk`: no path is met twice;
* `Sealed.Agrees`, **`Shows.agrees`**, **`Arena.run_traversed`**: the traversals of a sealed row.
-/

namespace Tabular

/-! ## Fields read off from records -/

namespace Value

mutual

/-- What an entry under a path shows of a field and of what it holds: its path, its kind and its
text. -/
def listedIn? (above : Path) (key : String) : Value → Option (List (Path × Kind × Option String))
  | .map es => (listed? (above ++ [key]) es).map ((above ++ [key], .map, none) :: ·)
  | .text s => some [(above ++ [key], .scalar, some s)]
  | .null => some [(above ++ [key], .scalar, none)]
  | _ => none

/-- What entries under a path show of fields, a map before what it holds. -/
def listed? (above : Path) : List (String × Value) → Option (List (Path × Kind × Option String))
  | [] => some []
  | (key, v) :: rest => do
    let first ← listedIn? above key v
    let later ← listed? above rest
    return first ++ later

end

/-- **Fields are read off from their entries** as they are walked. -/
theorem listed?_entriesOf (above : Path) (fs : List Field) :
    listed? above (Field.entriesOf fs) =
      some ((Field.walk above fs).map fun e => (e.1, e.2.kind, e.2.value?)) := by
  induction fs using Field.induction generalizing above with
  | nil => rfl
  | scalar n k v rest ih =>
    rw [Field.entriesOf, listed?, ih]
    cases v <;> rfl
  | map n k fs rest ihFields ih =>
    have hself : listedIn? above n (Field.map n k fs).toValue =
        some ((Field.walkIn above (.map n k fs)).map fun e => (e.1, e.2.kind, e.2.value?)) := by
      rw [Field.toValue, listedIn?, ihFields]
      rfl
    rw [Field.entriesOf, listed?, Field.name, hself, ih, Field.walk, List.map_append]
    rfl

end Value

/-! ## First rows -/

namespace Row

variable {row : Row}

/-- The attributes of a row and its fields stand one behind the other in its record. -/
theorem IsRegular.record_eq (h : row.IsRegular) : row.record =
    (attributesName, .map (attributeEntries row.attributes)) :: Field.entriesOf row.fields := by
  refine Entries.putAll_of_disjoint ?_ fun key hkey hmem => ?_
  · rw [Field.keys_entriesOf]
    exact h.distinct.nodup
  · obtain rfl := List.mem_singleton.mp hmem
    rw [Field.keys_entriesOf] at hkey
    exact h.unreserved hkey

/-- **The first row of a schema for every column** has its own record there, and no conflict. -/
theorem IsRegular.fold_start (h : row.IsRegular) :
    ((RowSchema.start .all).fold row).record = row.record ∧
      ((RowSchema.start .all).fold row).conflicts = [] := by
  have hr : AllRegular [row] := by
    rintro r hmem
    rwa [List.mem_singleton.mp hmem]
  have hagree : KindsAgree [row] := by
    rintro r hmem r' hmem' path kind kind' hk hk'
    obtain rfl := List.mem_singleton.mp hmem
    obtain rfl := List.mem_singleton.mp hmem'
    exact Option.some.inj (hk.symm.trans hk')
  have hself := List.mem_singleton_self row
  constructor
  · rw [h.record_eq]
    exact RowSchema.record_fold_of_kindsAgree hr hagree (List.nil_subset _) hself .all
  · exact RowSchema.conflicts_fold_of_kindsAgree hr hagree (List.nil_subset _) hself .all

end Row

/-! ## Paths -/

/-- **No path is met twice.** -/
theorem Field.nodup_walk {fs : List Field} (hd : Distinct fs)
    (hn : ((walk [] fs).map fun e => e.2.handle).Nodup) : ((walk [] fs).map Prod.fst).Nodup := by
  refine List.Nodup.map_on (fun e he e' he' hpath => ?_) (List.Nodup.of_map _ hn)
  obtain ⟨path, hq, hf⟩ := (mem_walk_iff hd).mp he
  obtain ⟨path', hq', hf'⟩ := (mem_walk_iff hd).mp he'
  obtain rfl : path = path' := by simpa using hq.symm.trans (hpath.trans hq')
  exact Prod.ext hpath (Option.some.inj (hf.symm.trans hf'))

namespace Strict

/-! ## Sealed rows -/

/-- The traversals of a sealed row show the tree of its nodes. -/
structure Sealed.Agrees (a : Arena) (s : Sealed) (visits : List (Path × Nat × Node))
    (out : Entries Value) : Prop where
  walk : s.walk a = .ok visits
  record : s.record a = .ok out
  /-- Every node but the root is visited once. -/
  handles : (visits.map fun v => v.2.1).Perm (List.range' 1 (s.size - 1))
  node : ∀ v ∈ visits, (s.nodes a)[v.2.1]? = some v.2.2 ∧ a.follow v.1 0 = some v.2.1
  nodup : (visits.map Prod.fst).Nodup
  preordered : Path.Preordered (visits.map Prod.fst)
  /-- Nodes directly below one come in the order in which they were added. -/
  siblings : visits.Pairwise fun v v' => v.1.dropLast = v'.1.dropLast → v.2.1 < v'.2.1
  /-- Behind the attributes the record lists the same nodes, in the same order. -/
  listed : a.follow attributesPath 0 = none → ∃ fields,
    out = (attributesName, .map (attributeEntries s.attributes)) :: fields ∧
      Value.listed? [] fields = some (visits.map fun v => (v.1, v.2.2.kind, v.2.2.value))
  /-- As the first row of a schema for every column it has this record there, and no conflict. -/
  fold : a.follow attributesPath 0 = none →
    (s.fold a).map (fun f => (f.record, f.conflicts)) = .ok (out, [])

namespace Arena

variable {a : Arena} {d : Draft} {path : Path} {f : Field}

namespace Shows

/-- The fields directly below one are in the order of their handles. -/
theorem sorted_under (h : a.Shows d) (path : Path) :
    ((Field.under path d.fields).map Field.handle).Pairwise (· < ·) := by
  rw [show d.fields = d.root.fields from rfl, Draft.under_eq]
  cases hf : d.root.at? path with
  | none => exact List.Pairwise.nil
  | some f =>
    have hsorted := h.sorted path f.handle f.node (shown?_of_at? hf)
    rwa [Field.node, List.map_map] at hsorted

theorem isRegular (h : a.Shows d) (hfree : a.follow attributesPath 0 = none) (ordinal : Int) :
    (d.toRow ordinal).IsRegular := by
  refine ⟨h.sound.distinct, fun hmem => ?_⟩
  obtain ⟨f, hf, hname⟩ := List.mem_map.mp hmem
  have hnamed := Field.named?_of_mem h.sound.distinct.nodup hf
  have hat : d.root.at? attributesPath = some f := by
    rw [attributesPath, Field.at?_cons, ← hname]
    show (Field.named? f.name d.fields).bind _ = _
    rw [hnamed]
    rfl
  rw [h.follow_of_at? hat] at hfree
  cases hfree

/-- **The traversals of the row that an arena is now** show its tree. -/
theorem agrees (h : a.Shows d) (ordinal : Int) :
    (a.sealed ordinal).Agrees a ((d.toRow ordinal).walk.map visit) (d.toRow ordinal).record := by
  have hd := h.sound.distinct
  have hnodes := Sealed.nodes_sealed ordinal a
  have hpaths : ((d.toRow ordinal).walk.map visit).map Prod.fst =
      (Field.walk [] d.fields).map Prod.fst := by
    rw [List.map_map]
    rfl
  have hhandles : ((d.toRow ordinal).walk.map visit).map (fun v => v.2.1) =
      (Field.walk [] d.fields).map fun e => e.2.handle := by
    rw [List.map_map]
    rfl
  have hwalk : (a.sealed ordinal).walk a = .ok ((d.toRow ordinal).walk.map visit) := by
    rw [Sealed.walk, hnodes]
    exact h.walk
  have hrecord : (a.sealed ordinal).record a = .ok (d.toRow ordinal).record := by
    rw [Sealed.record, hnodes]
    exact h.record ordinal
  refine ⟨hwalk, hrecord, ?_, ?_, ?_, ?_, ?_, fun hfree => ?_, fun hfree => ?_⟩
  · rw [hhandles]
    exact h.handles_perm
  · intro v hv
    obtain ⟨e, he, rfl⟩ := List.mem_map.mp hv
    have hat := (h.mem_walk_iff.mp he).2
    rw [hnodes]
    exact ⟨h.node e.1 _ _ (shown?_of_at? hat), h.follow_of_at? hat⟩
  · rw [hpaths]
    refine Field.nodup_walk hd (h.handles_perm.nodup_iff.mpr List.nodup_range')
  · rw [hpaths]
    exact Field.preordered_walk hd []
  · exact List.pairwise_map.mpr (Field.sorted_walk hd h.sorted_under [])
  · refine ⟨Field.entriesOf d.fields, ?_, ?_⟩
    · rw [(h.isRegular hfree ordinal).record_eq, Arena.sealed, h.attributes]
      rfl
    · rw [Value.listed?_entriesOf, List.map_map]
      rfl
  · have hroot : attributesName ∉ Entries.keys d.root.node.children := by
      rw [Field.keys_children]
      exact (h.isRegular hfree ordinal).unreserved
    rw [Sealed.fold, hnodes]
    refine (foldRow_eq (fun handle n hn => (h.isTree.sorted handle n hn).1) h.root_node hroot _ _
      _).trans ?_
    show (Strict.record a.nodes a.attributes a.nodes.length).map (·, []) = _
    rw [h.record ordinal]
    rfl

end Shows

/-- **After any actions on handles that are there the nodes make a tree, and the traversals agree.**
None of the actions fails. A child comes after its parent, and every node but the root is the child
of one other, under its own name; texts have no children, and maps no text. The walk over the row
that is sealed then comes to its end: it visits every node but the root once, under a path of its
own that leads to it, depth first, and the nodes directly below one in the order in which they were
added. Unless a field there has the name of the attributes, the record of the row is its attributes
and the fields of the walk, with their kinds and texts and in the same order, and a schema for every
column gives the same record to it as its first row, and no conflict. The row of the draft to which
the same actions are done by path has this walk and this record, and the same fold. -/
theorem run_traversed {tag : String} {actions : List Action} (hr : InRange actions (start tag))
    (ordinal : Int) : ∃ a, run actions (start tag) = .ok a ∧ a.IsTree ∧
      let row := (actions.foldl Draft.act { tag }).toRow ordinal
      (a.sealed ordinal).Agrees a (row.walk.map visit) row.record ∧
        (a.follow attributesPath 0 = none →
          ((RowSchema.start .all).fold row).record = row.record ∧
            ((RowSchema.start .all).fold row).conflicts = []) := by
  obtain ⟨a, hrun, hs⟩ := shows_run (shows_start tag) hr
  exact ⟨a, hrun, hs.isTree, hs.agrees ordinal, fun hfree => (hs.isRegular hfree ordinal).fold_start⟩

/-- A text becomes a map when a field comes below it, and a name is taken. -/
theorem run_traversed_grown :
    let actions : List Action := [.insert 0 "m", .assign 1 (some "t"), .insert 1 "x",
      .assign 2 (some "1"), .insert 0 "s", .insert 1 "y", .annotate "k" none, .insert 0 "m", .close 0,
      .promote 3]
    let a : Arena := ⟨"r", [⟨"r", .map, none, [("m", 1), ("s", 3)]⟩,
      ⟨"m", .map, none, [("x", 2), ("y", 4)]⟩, ⟨"x", .scalar, some "1", []⟩, ⟨"s", .map, none, []⟩,
      ⟨"y", .scalar, none, []⟩], [("k", none)]⟩
    InRange actions (start "r") ∧ run actions (start "r") = .ok a ∧ a.IsTree ∧
      a.follow attributesPath 0 = none ∧ ∃ visits out, (a.sealed 1).Agrees a visits out ∧
        visits.map (fun v => (v.1, v.2.1)) =
          [(["m"], 1), (["m", "x"], 2), (["m", "y"], 4), (["s"], 3)] := by
  intro actions a
  have hr : InRange actions (start "r") := by decide +kernel
  have hrun : run actions (start "r") = .ok a := by rfl
  obtain ⟨a', hrun', htree, hagrees, -⟩ := run_traversed hr 1
  obtain rfl : a' = a := Except.ok.inj (hrun'.symm.trans hrun)
  refine ⟨hr, hrun, htree, by rfl, _, _, hagrees, by decide +kernel⟩

end Arena

end Strict

end Tabular
