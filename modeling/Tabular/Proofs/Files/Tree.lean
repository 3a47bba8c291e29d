import Mathlib.Data.List.Basic
import Tabular.Files.Tree

/-!
# Files that were written

A file that was made stands at the place that its name leads to, and does not stand in the way of
any name that led somewhere before. So it is found again, with what was written to it.

* `isDirectory_put`, `locate?_put`: what a new file leaves as it is;
* `at?_put`, **`read_put`**: what is found at its place, and what reading it gives;
* **`disk_lawful`**: the disk whose states are file trees gives what was written.
-/

namespace Tabular.FileTree

variable {t : FileTree} {l place found : Location} {bytes : List UInt8}

/-- What was a directory is one beside a new file. -/
theorem isDirectory_put (hp : t.isDirectory place = false) (h : t.isDirectory l = true) :
    (t.put place bytes).isDirectory l = true := by
  rw [isDirectory, Bool.or_eq_true] at h ⊢
  refine h.imp id fun h => ?_
  obtain ⟨f, hf, hl⟩ := List.any_eq_true.mp h
  rw [List.any_eq_true]
  by_cases hplace : f.1 = place
  · -- what the new file replaces is no directory, so it lies below
    refine ⟨(place, .file bytes), by simp [put], ?_⟩
    rw [isDirectory, Bool.or_eq_false_iff, List.any_eq_false] at hp
    have hf' := hp.2 f hf
    subst hplace
    simp_all
  · exact ⟨f, by simp [put, hf, hplace], hl⟩

/-- A new file is no directory. -/
theorem isDirectory_put_self (hp : t.isDirectory place = false) :
    (t.put place bytes).isDirectory place = false := by
  rw [isDirectory, Bool.or_eq_false_iff, List.any_eq_false] at hp ⊢
  refine ⟨hp.1, fun f hf => ?_⟩
  rcases List.mem_append.mp hf with hf | hf
  · exact hp.2 f (List.mem_filter.mp hf).1
  · obtain rfl := List.mem_singleton.mp hf
    simp

theorem walk_put (hp : t.isDirectory place = false) {parts : List String}
    (h : t.walk l parts = some found) : (t.put place bytes).walk l parts = some found := by
  induction parts generalizing l with
  | nil => exact h
  | cons part rest ih =>
    rw [walk] at h ⊢
    split at h
    · next hl =>
      rw [if_pos (isDirectory_put hp hl)]
      split at h
      · next hup => rw [if_pos hup, ih h]
      · next hdown => rw [if_neg hdown, ih h]
    · cases h

/-- **Names lead where they led before** beside a new file. -/
theorem locate?_put (hp : t.isDirectory place = false) (h : t.locate? l = some found) :
    (t.put place bytes).locate? l = some found :=
  walk_put hp h

theorem at?_put : (t.put place bytes).at? place = some (.file bytes) := by
  have hnone : (t.files.filter fun f => f.1 != place).find? (fun f => f.1 == place) = none := by
    rw [List.find?_eq_none]
    intro f hf
    simpa using (List.mem_filter.mp hf).2
  rw [at?, put, List.find?_append, hnone, List.find?_singleton]
  simp

/-- **Reading a file gives the bytes that were put there.** -/
theorem read_put (hl : l.isBad = false) (h : (t.put place bytes).locate? l = some place) :
    disk.read l (t.put place bytes) = .ok ⟨bytes, none⟩ := by
  have hsource : source l (t.put place bytes) = .ok fun later => ⟨later.bytesAt place, none⟩ := by
    simp [source, hl, h, at?_put]
  rw [Disk.read, show disk.source = source from rfl, hsource]
  simp [Except.map, bytesAt, at?_put]

/-- **What was written to a file tree is read from it.** -/
theorem disk_lawful : disk.Lawful where
  read_write {l lines t made} hmade hwrite := by
    replace hmade : create l t = .ok made := hmade
    show disk.read l (write l lines made).1 = _
    unfold create at hmade
    split at hmade
    · cases hmade
    · next hbad =>
      split at hmade
      · cases hmade
      · next place hplace =>
        split at hmade
        · cases hmade
        · next hfile =>
          obtain rfl : t.put place [] = made := Except.ok.inj hmade
          have hp : t.isDirectory place = false := eq_false_of_ne_true hfile
          have hlocate : (t.put place []).locate? l = some place := locate?_put hp hplace
          rw [write, hlocate]
          exact read_put (eq_false_of_ne_true hbad)
            (locate?_put (isDirectory_put_self hp) hlocate)

end Tabular.FileTree
