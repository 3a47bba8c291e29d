import Tabular.Load.Basic

/-!
# Loads that can begin

Before a load reads its document it looks for it, reads the options, marks the content as it is
stored, and makes a file for the rows. Any of these may fail, and the load with it.

* `LoadRequest.Begun`, `LoadRequest.Unopened`, `begun_or_unopened`: the document is open, or
  something keeps it from being opened;
* `LoadRequest.Prepared`, `LoadRequest.Hindered`, **`prepared_or_hindered`**: the file for the rows
  is there, or something keeps the load from reading;
* **`load_of_hindered`**, `load_of_prepared`: a load over an open connection, up to the reading.
-/

namespace Tabular

variable {σ : Type} {w : World σ} {q : LoadRequest} {s made : σ} {job : Job σ} {error : LoadError}

namespace LoadRequest

/-- The request over an open connection. -/
def connected (q : LoadRequest) (accepts : Bool) (count : Nat) : LoadRequest :=
  { q with connection := .given accepts count }

/-! ## Opening the document -/

/-- A load whose document is open. Its mark is that of the bytes as they are stored, packed or
not. -/
inductive Begun (w : World σ) (q : LoadRequest) (s : σ) : Job σ → Prop
  | mk {place directory : Location} {o : ReaderOptions} {stored : List UInt8} {content : σ → Content}
      (hplace : w.disk.resolve (.ofString q.document) s = .ok place)
      (ho : q.options w.checker = .ok o)
      (hstored : (w.disk.read place s).bind Content.whole = .ok stored)
      (hdirectory : q.stagingDirectory w.disk place s = .ok directory)
      (hopen : openDocument w.disk w.codecs place s = .ok content) :
      Begun w q s ⟨o, datasetId stored, directory.join (q.stagedName (datasetId stored)), content⟩

/-- Something keeps a document from being opened, and is the error of its load. -/
inductive Unopened (w : World σ) (q : LoadRequest) (s : σ) : LoadError → Prop
  | place {fault : FileFault} (h : w.disk.resolve (.ofString q.document) s = .error fault) :
      Unopened w q s (.file fault q.document)
  | options {place : Location} {error : OptionsError}
      (hplace : w.disk.resolve (.ofString q.document) s = .ok place)
      (h : q.options w.checker = .error error) : Unopened w q s (.options error)
  | stored {place : Location} {o : ReaderOptions} {fault : FileFault}
      (hplace : w.disk.resolve (.ofString q.document) s = .ok place)
      (ho : q.options w.checker = .ok o)
      (h : (w.disk.read place s).bind Content.whole = .error fault) :
      Unopened w q s (.file fault place.text)
  | directory {place : Location} {o : ReaderOptions} {stored : List UInt8} {fault : FileFault}
      (hplace : w.disk.resolve (.ofString q.document) s = .ok place)
      (ho : q.options w.checker = .ok o)
      (hstored : (w.disk.read place s).bind Content.whole = .ok stored)
      (h : q.stagingDirectory w.disk place s = .error fault) : Unopened w q s (.file fault q.database)
  | document {place directory : Location} {o : ReaderOptions} {stored : List UInt8}
      {error : OpenError} (hplace : w.disk.resolve (.ofString q.document) s = .ok place)
      (ho : q.options w.checker = .ok o)
      (hstored : (w.disk.read place s).bind Content.whole = .ok stored)
      (hdirectory : q.stagingDirectory w.disk place s = .ok directory)
      (h : openDocument w.disk w.codecs place s = .error error) : Unopened w q s (.openError error)

theorem Begun.eq_ok (h : q.Begun w s job) : q.begin w s = .ok job := by
  cases h with
  | mk hplace ho hstored hdirectory hopen =>
    simp only [begin, hplace, ho, hstored, hdirectory, hopen]

theorem Unopened.eq_error (h : q.Unopened w s error) : q.begin w s = .error error := by
  cases h with
  | place h => simp only [begin, h]
  | options hplace h => simp only [begin, hplace, h]
  | stored hplace ho h => simp only [begin, hplace, ho, h]
  | directory hplace ho hstored h => simp only [begin, hplace, ho, hstored, h]
  | document hplace ho hstored hdirectory h =>
    simp only [begin, hplace, ho, hstored, hdirectory, h]

/-- The document of a load is opened, or something keeps it from that. -/
theorem begun_or_unopened (w : World σ) (q : LoadRequest) (s : σ) :
    (∃ job, q.Begun w s job) ∨ ∃ error, q.Unopened w s error := by
  cases hplace : w.disk.resolve (.ofString q.document) s with
  | error fault => exact Or.inr ⟨_, .place hplace⟩
  | ok place =>
    cases ho : q.options w.checker with
    | error error => exact Or.inr ⟨_, .options hplace ho⟩
    | ok o =>
      cases hstored : (w.disk.read place s).bind Content.whole with
      | error fault => exact Or.inr ⟨_, .stored hplace ho hstored⟩
      | ok stored =>
        cases hdirectory : q.stagingDirectory w.disk place s with
        | error fault => exact Or.inr ⟨_, .directory hplace ho hstored hdirectory⟩
        | ok directory =>
          cases hopen : openDocument w.disk w.codecs place s with
          | error error => exact Or.inr ⟨_, .document hplace ho hstored hdirectory hopen⟩
          | ok content => exact Or.inl ⟨_, .mk hplace ho hstored hdirectory hopen⟩

/-- The options of an open document are those that were asked for. -/
theorem Begun.options_eq (h : q.Begun w s job) : q.options w.checker = .ok job.options := by
  cases h with
  | mk hplace ho hstored hdirectory hopen => exact ho

/-! ## Making the staged file -/

/-- The document is open, and the file for its rows has been made with its directory. -/
structure Prepared (w : World σ) (q : LoadRequest) (s : σ) (job : Job σ) (made : σ) : Prop where
  begun : q.Begun w s job
  directory : (w.disk.makeDirectory job.stagedAt.parent s).2 = none
  created : w.disk.create job.stagedAt (w.disk.makeDirectory job.stagedAt.parent s).1 = .ok made

/-- Something keeps a load from reading, and is the error that the load fails with. -/
inductive Hindered (w : World σ) (q : LoadRequest) (s : σ) : LoadError → Prop
  | unopened {error : LoadError} (h : q.Unopened w s error) : Hindered w q s error
  | directory {job : Job σ} {fault : FileFault} (hbegun : q.Begun w s job)
      (h : (w.disk.makeDirectory job.stagedAt.parent s).2 = some fault) :
      Hindered w q s (.file fault job.stagedAt.parent.text)
  | file {job : Job σ} {fault : FileFault} (hbegun : q.Begun w s job)
      (hdirectory : (w.disk.makeDirectory job.stagedAt.parent s).2 = none)
      (h : w.disk.create job.stagedAt (w.disk.makeDirectory job.stagedAt.parent s).1 =
        .error fault) :
      Hindered w q s (.ofCreation fault job.stagedAt.text)

/-- **A load can begin to read**, or something keeps it from that. -/
theorem prepared_or_hindered (w : World σ) (q : LoadRequest) (s : σ) :
    (∃ job made, q.Prepared w s job made) ∨ ∃ error, q.Hindered w s error := by
  obtain ⟨job, hbegun⟩ | ⟨error, herror⟩ := begun_or_unopened w q s
  · cases hdirectory : (w.disk.makeDirectory job.stagedAt.parent s).2 with
    | some fault => exact Or.inr ⟨_, .directory hbegun hdirectory⟩
    | none =>
      cases hmade : w.disk.create job.stagedAt (w.disk.makeDirectory job.stagedAt.parent s).1 with
      | error fault => exact Or.inr ⟨_, .file hbegun hdirectory hmade⟩
      | ok made => exact Or.inl ⟨job, made, hbegun, hdirectory, hmade⟩
  · exact Or.inr ⟨error, .unopened herror⟩

end LoadRequest

/-! ## Loads over an open connection -/

variable (accepts : Bool) (count : Nat)

theorem load_of_unopened (h : q.Unopened w s error) :
    load w (q.connected accepts count) s = ⟨.error error, [], s⟩ := by
  have hbegin : (q.connected accepts count).begin w s = .error error := h.eq_error
  simp only [load, hbegin]

theorem load_of_begun (h : q.Begun w s job) :
    load w (q.connected accepts count) s = loadFrom w (q.connected accepts count) job s := by
  have hbegin : (q.connected accepts count).begin w s = .ok job := h.eq_ok
  simp only [load, hbegin]

/-- **A load that cannot begin to read** fails and leaves the database alone. -/
theorem load_of_hindered (h : q.Hindered w s error) :
    (load w (q.connected accepts count) s).result = .error error ∧
      (load w (q.connected accepts count) s).statements = [] := by
  cases h with
  | unopened h =>
    rw [load_of_unopened accepts count h]
    exact ⟨rfl, rfl⟩
  | @directory job fault hbegun h =>
    rw [load_of_begun accepts count hbegun, loadFrom]
    generalize w.disk.makeDirectory job.stagedAt.parent s = after at h
    obtain ⟨s', found⟩ := after
    obtain rfl : found = some fault := h
    exact ⟨rfl, rfl⟩
  | @file job fault hbegun hdirectory h =>
    rw [load_of_begun accepts count hbegun, loadFrom]
    generalize w.disk.makeDirectory job.stagedAt.parent s = after at hdirectory h
    obtain ⟨s', found⟩ := after
    obtain rfl : found = none := hdirectory
    simp only [h, and_self]

/-- A load that can begin to read does so, once the staged file has been made. -/
theorem load_of_prepared (h : q.Prepared w s job made) :
    load w (q.connected accepts count) s = stageRead w (q.connected accepts count) job made := by
  obtain ⟨hbegun, hdirectory, hmade⟩ := h
  rw [load_of_begun accepts count hbegun, loadFrom]
  generalize w.disk.makeDirectory job.stagedAt.parent s = after at hdirectory hmade
  obtain ⟨s', found⟩ := after
  obtain rfl : found = none := hdirectory
  simp only [hmade]

end Tabular
