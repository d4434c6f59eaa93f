import VectorSearch.Checked.Index
import VectorSearch.Proofs.Checked.Code
import VectorSearch.Proofs.Checked.Graph
import VectorSearch.Proofs.Checked.Partition
import VectorSearch.Proofs.Families
/-!
Requests without a fault. An index that starts empty stays intact whatever it is asked for, and an
intact index answers every request without a fault, as the index without checks does.
-/

namespace VectorSearch.Index

variable {index after : Index}

def Centered : Index → Prop
  | partition index => index.Centered
  | _ => True

structure Intact (index : Index) : Prop where
  kept : index.Kept
  packed : index.store.Packed
  centered : index.Centered

theorem Intact.empty (kind : IndexKind) (dimension : Nat) (settings : IndexSettings) :
    (Index.empty kind dimension settings).Intact where
  kept := Kept.empty kind dimension settings
  packed := store_empty kind dimension settings ▸ Store.Packed.empty ..
  centered := by
    cases kind with
    | partition => exact PartitionIndex.Centered.empty ..
    | flat | graph | code => trivial

/-! Training. -/

theorem trainChecked_ok [Host] (index : Index) (buffer : Array Float32) :
    index.trainChecked buffer = .ok (index.train buffer) := by
  cases index with
  | partition index =>
      rw [trainChecked, index.trainChecked_ok]
      rfl
  | flat index | graph index | code index => rfl

theorem Intact.train [Host] (intact : index.Intact) {buffer : Array Float32}
    (accepted : index.train buffer = .ok after) : after.Intact where
  kept := intact.kept.train accepted
  packed := store_of_train accepted ▸ intact.packed
  centered := by
    cases index with
    | partition index =>
        obtain ⟨inner, trained, rfl⟩ := map_eq_ok accepted
        exact PartitionIndex.Centered.train trained
    | flat index | graph index | code index => exact Except.ok.inj accepted ▸ intact.centered

/-! Inserts. -/

theorem Intact.insertChecked_ok [Host] (intact : index.Intact) (id : VectorId) (row : Embedding) :
    index.insertChecked id row = .ok (index.insert id row) := by
  cases index with
  | flat index =>
      rw [insertChecked, FlatIndex.insertChecked_ok intact.packed]
      rfl
  | graph index =>
      rw [insertChecked, GraphIndex.insertChecked_ok intact.packed]
      rfl
  | partition index =>
      obtain ⟨recent, listed⟩ := intact.kept
      rw [insertChecked, intact.centered.insertChecked_ok listed intact.packed]
      rfl
  | code index =>
      rw [insertChecked, intact.kept.insertChecked_ok]
      rfl

theorem Intact.insert [Host] (intact : index.Intact) {id : VectorId} {row : Embedding}
    (accepted : index.insert id row = .ok after) : after.Intact where
  kept := intact.kept.insert accepted
  packed := by
    obtain ⟨fits, same⟩ := store_of_insert accepted
    exact same ▸ intact.packed.put fits
  centered := by
    cases index with
    | partition index =>
        obtain ⟨inner, inserted, rfl⟩ := map_eq_ok accepted
        exact intact.centered.insert inserted
    | flat index | graph index | code index =>
        obtain ⟨inner, _, rfl⟩ := map_eq_ok accepted
        trivial

/-! Requests that change nothing. -/

theorem Intact.searchChecked_ok [Host] (intact : index.Intact) (query : Embedding) (count : Nat)
    (knobs : Knobs) :
    index.searchChecked query count knobs = .ok (index.search query count knobs) := by
  cases index with
  | flat index => exact FlatIndex.searchChecked_ok intact.packed query count
  | graph index => exact GraphIndex.searchChecked_ok intact.packed query count knobs
  | partition index =>
      obtain ⟨recent, listed⟩ := intact.kept
      exact intact.centered.searchChecked_ok listed intact.packed query count knobs
  | code index => exact intact.kept.searchChecked_ok query count knobs

theorem Intact.codeChecked_ok (intact : index.Intact) (id : VectorId) :
    index.codeChecked id = .ok (index.code? id) := by
  cases index with
  | code index => exact intact.kept.codeChecked_ok id
  | flat index | graph index | partition index => rfl

/-! Runs. -/

theorem Intact.change (intact : index.Intact) {outcome : Except Failure Index}
    (changes : ∀ after, outcome = .ok after → after.Intact) : (index.change outcome).2.Intact := by
  cases outcome with
  | ok after => exact changes after rfl
  | error failure => exact intact

theorem Intact.respond [Host] (intact : index.Intact) (request : IndexRequest) :
    (index.respond request).2.Intact := by
  cases request with
  | train buffer => exact intact.change fun _ accepted => intact.train accepted
  | insert id row => exact intact.change fun _ accepted => intact.insert accepted
  | search query count knobs => exact intact
  | get id => exact intact
  | code id => exact intact

theorem Intact.respondChecked_ok [Host] (intact : index.Intact) (request : IndexRequest) :
    index.respondChecked request = .ok (index.respond request) := by
  cases request with
  | train buffer =>
      rw [respondChecked, trainChecked_ok]
      rfl
  | insert id row =>
      rw [respondChecked, intact.insertChecked_ok]
      rfl
  | search query count knobs =>
      rw [respondChecked, intact.searchChecked_ok]
      rfl
  | get id =>
      rw [respondChecked, intact.packed.getChecked]
      rfl
  | code id =>
      rw [respondChecked, intact.codeChecked_ok]
      rfl

theorem Intact.serveChecked_ok [Host] (requests : List IndexRequest) :
    ∀ {index : Index}, index.Intact →
      index.serveChecked requests = .ok (transcript Index.respond index requests) := by
  induction requests with
  | nil => intro index _; rfl
  | cons request rest ih =>
      intro index intact
      rw [serveChecked, intact.respondChecked_ok, Checked.ok_bind]
      dsimp only
      rw [ih (intact.respond request)]
      rfl

/-- Whatever is asked of an empty index of any family, of any dimension and under any settings, no
access is a fault: the checked index gives the answers of the one without checks. -/
theorem serveChecked_empty [Host] (kind : IndexKind) (dimension : Nat) (settings : IndexSettings)
    (requests : List IndexRequest) :
    (Index.empty kind dimension settings).serveChecked requests =
      .ok (transcript Index.respond (Index.empty kind dimension settings) requests) :=
  Intact.serveChecked_ok requests (Intact.empty kind dimension settings)

end VectorSearch.Index
