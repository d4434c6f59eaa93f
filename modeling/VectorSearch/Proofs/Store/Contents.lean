import VectorSearch.Proofs.Exact
/-!
The store as a map. After any calls it has the embeddings that were last accepted, one for each
identifier, and lists them by ascending identifier; each of them has a block of the buffer to
itself, and no part of the buffer is left over.
-/

namespace VectorSearch.Store

variable {store : Store}

/-! What a store shows. -/

/-- The store shows the embeddings of a map, and nothing else. -/
structure Shows (store : Store) (rows : VectorId → Option Embedding) : Prop where
  get? : ∀ id, store.get? id = rows id
  contains : ∀ id, store.contains id = (rows id).isSome
  size : store.size = {id | (rows id).isSome = true}.ncard
  isEmpty : store.isEmpty = true ↔ ∀ id, rows id = none
  ascending : store.ids.Pairwise (· < ·)
  ids : ∀ id, id ∈ store.ids ↔ (rows id).isSome = true
  keys : store.entries.map Prod.fst = store.ids
  entries : ∀ id row, (id, row) ∈ store.entries ↔ rows id = some row

theorem ids_pairwise (store : Store) : store.ids.Pairwise (· < ·) :=
  Std.TreeMap.ordered_keys.imp fun ordered => Nat.compare_eq_lt.mp ordered

theorem map_fst_entries (store : Store) : store.entries.map Prod.fst = store.ids := by
  rw [entries, List.map_map, ids, ← Std.TreeMap.map_fst_toList_eq_keys]
  rfl

theorem mem_entries (store : Store) (id : VectorId) (row : Embedding) :
    (id, row) ∈ store.entries ↔ store.get? id = some row := by
  simp only [entries, get?, List.mem_map, Prod.exists, Prod.mk.injEq, Option.map_eq_some_iff]
  constructor
  · rintro ⟨_, offset, member, rfl, rfl⟩
    exact ⟨offset, get?_of_mem_toList member, rfl⟩
  · rintro ⟨offset, found, rfl⟩
    rw [Std.TreeMap.get?_eq_getElem?] at found
    exact ⟨id, offset, Std.TreeMap.mem_toList_iff_getElem?_eq_some.mpr found, rfl, rfl⟩

theorem shows_get? (store : Store) : store.Shows store.get? where
  get? _ := rfl
  contains id := (store.isSome_get? id).symm
  size := store.size_eq_ncard
  isEmpty := by
    simp only [isEmpty_iff, ← isSome_get?, Option.isSome_eq_false_iff, Option.isNone_iff_eq_none]
  ascending := store.ids_pairwise
  ids id := by rw [mem_ids, isSome_get?]
  keys := store.map_fst_entries
  entries := store.mem_entries

/-! The buffer. -/

/-- Every stored vector has its own block of the buffer, and the blocks fill it. -/
structure Tiled (store : Store) : Prop where
  multiple : ∀ id offset, store.offsets.get? id = some offset → store.dimension ∣ offset
  distinct : 0 < store.dimension → ∀ id other offset, store.offsets.get? id = some offset →
    store.offsets.get? other = some offset → id = other
  disjoint : ∀ id other offset otherOffset, id ≠ other → store.offsets.get? id = some offset →
    store.offsets.get? other = some otherOffset →
    offset + store.dimension ≤ otherOffset ∨ otherOffset + store.dimension ≤ offset
  full : store.data.size = store.size * store.dimension
  covered : ∀ position, position < store.data.size ↔ ∃ id offset,
    store.offsets.get? id = some offset ∧ offset ≤ position ∧ position < offset + store.dimension

def slot (store : Store) (id : VectorId) : ℕ :=
  ((store.offsets.get? id).getD 0) / store.dimension

theorem Packed.slot_spec (packed : store.Packed) (positive : 0 < store.dimension) {id : VectorId}
    (stored : id ∈ store.ids) :
    store.slot id < store.size ∧
      store.offsets.get? id = some (store.slot id * store.dimension) := by
  rw [mem_ids, contains, Std.TreeMap.contains_eq_isSome_getElem?,
    ← Std.TreeMap.get?_eq_getElem?] at stored
  obtain ⟨offset, found⟩ := Option.isSome_iff_exists.mp stored
  obtain ⟨place, bound, rfl⟩ := packed.block id offset found
  have same : store.slot id = place := by
    rw [slot, found, Option.getD_some, Nat.mul_div_cancel _ positive]
  rw [same]
  exact ⟨bound, found⟩

theorem Packed.exists_slot (packed : store.Packed) (positive : 0 < store.dimension) {place : ℕ}
    (inside : place < store.size) :
    ∃ id, store.offsets.get? id = some (place * store.dimension) := by
  have bounded (id : VectorId) (member : id ∈ store.ids.toFinset) :
      store.slot id ∈ Finset.range store.size :=
    Finset.mem_range.mpr (packed.slot_spec positive (List.mem_toFinset.mp member)).1
  have injective : Set.InjOn store.slot store.ids.toFinset := by
    intro id member other otherMember same
    obtain ⟨_, found⟩ := packed.slot_spec positive (List.mem_toFinset.mp member)
    obtain ⟨_, otherFound⟩ := packed.slot_spec positive (List.mem_toFinset.mp otherMember)
    exact packed.apart id other _ found (same ▸ otherFound) positive
  have enough : (Finset.range store.size).card ≤ store.ids.toFinset.card := by
    rw [Finset.card_range, List.toFinset_card_of_nodup store.nodup_ids, length_ids]
  obtain ⟨id, member, rfl⟩ := Finset.surjOn_of_injOn_of_card_le store.slot bounded injective enough
    (Finset.mem_coe.mpr (Finset.mem_range.mpr inside))
  exact ⟨id, (packed.slot_spec positive (List.mem_toFinset.mp member)).2⟩

theorem Packed.tiled (packed : store.Packed) : store.Tiled where
  multiple id offset found := by
    obtain ⟨place, _, rfl⟩ := packed.block id offset found
    exact Nat.dvd_mul_left _ _
  distinct positive id other offset found otherFound :=
    packed.apart id other offset found otherFound positive
  disjoint _ _ _ _ different found otherFound :=
    packed.disjoint otherFound found different
  full := packed.full
  covered position := by
    constructor
    · intro inside
      rw [packed.full] at inside
      have positive : 0 < store.dimension := Nat.pos_of_lt_mul_left inside
      have place : position / store.dimension < store.size :=
        Nat.div_lt_of_lt_mul (Nat.mul_comm store.size _ ▸ inside)
      obtain ⟨id, found⟩ := packed.exists_slot positive place
      exact ⟨id, _, found, Nat.div_mul_le_self _ _, Nat.lt_div_mul_add positive⟩
    · rintro ⟨id, offset, found, _, before⟩
      exact before.trans_le (packed.inside found)

/-! Calls. -/

theorem respond_of_unfit {call : Upsert} (unfit : call.row.size ≠ store.dimension) :
    store.respond call =
      (.error (.dimensionMismatch store.dimension call.row.size), store) := by
  rw [respond, upsertWithin, checkDimension_eq_error unfit]
  rfl

theorem respond_of_cramped {call : Upsert} (fits : call.row.size = store.dimension)
    (cramped : call.roomy = false) (new : store.contains call.id = false) :
    store.respond call = (.error (.outOfMemory "vector heap"), store) := by
  rw [respond, upsertWithin, (checkDimension_eq_ok_iff store call.row).mpr fits, cramped, new]
  rfl

theorem respond_of_room {call : Upsert} (fits : call.row.size = store.dimension)
    (room : call.roomy = true ∨ store.contains call.id = true) :
    store.respond call = (.ok (), store.put call.id call.row) := by
  have enough : (!call.roomy && !store.contains call.id) = false := by
    rcases room with roomy | known
    · rw [roomy]; rfl
    · rw [known, Bool.not_true, Bool.and_false]
  rw [respond, upsertWithin, (checkDimension_eq_ok_iff store call.row).mpr fits, enough]
  rfl

theorem respond_cases (store : Store) (call : Upsert) :
    (call.row.size = store.dimension ∧
      store.respond call = (.ok (), store.put call.id call.row)) ∨
    ∃ failure, store.respond call = (.error failure, store) := by
  by_cases fits : call.row.size = store.dimension
  · by_cases room : call.roomy = true ∨ store.contains call.id = true
    · exact Or.inl ⟨fits, respond_of_room fits room⟩
    · obtain ⟨cramped, new⟩ := not_or.mp room
      exact Or.inr ⟨_, respond_of_cramped fits (Bool.eq_false_of_not_eq_true cramped)
        (Bool.eq_false_of_not_eq_true new)⟩
  · exact Or.inr ⟨_, respond_of_unfit fits⟩

/-! Runs. -/

def latest (answered : List (Upsert × Except Failure Unit)) (id : VectorId) : Option Embedding :=
  ((answered.filter fun entry => entry.1.id = id ∧ entry.2.isOk = true).getLast?).map (·.1.row)

theorem latest_cons (first : Upsert × Except Failure Unit)
    (rest : List (Upsert × Except Failure Unit)) (id : VectorId) :
    latest (first :: rest) id =
      (latest rest id).or
        (if first.1.id = id ∧ first.2.isOk = true then some first.1.row else none) := by
  rw [latest, latest, List.filter_cons]
  by_cases taken : first.1.id = id ∧ first.2.isOk = true
  · rw [if_pos taken, if_pos (decide_eq_true taken), List.getLast?_cons]
    cases (rest.filter _).getLast? <;> rfl
  · rw [if_neg taken, if_neg (by simpa using taken), Option.or_none]

theorem Packed.transcript (calls : List Upsert) : ∀ {store : Store}, store.Packed →
    let served := VectorSearch.transcript respond store calls
    served.2.Packed ∧ served.2.dimension = store.dimension ∧
      ∀ id, served.2.get? id = (latest (calls.zip served.1) id).or (store.get? id) := by
  induction calls with
  | nil => intro store packed; exact ⟨packed, rfl, fun _ => rfl⟩
  | cons first rest ih =>
      intro store packed
      simp only [VectorSearch.transcript, List.zip_cons_cons, latest_cons, Option.or_assoc]
      rcases store.respond_cases first with ⟨fits, accepted⟩ | ⟨failure, refused⟩
      · rw [accepted]
        have next : (store.put first.id first.row).Packed := packed.put fits
        obtain ⟨kept, same, known⟩ := ih next
        refine ⟨kept, same.trans (dimension_put ..), fun id => ?_⟩
        rw [known, packed.get?_put fits]
        by_cases own : id = first.id
        · simp [own, Except.isOk, Except.toBool]
        · simp [own, Ne.symm own]
      · rw [refused]
        obtain ⟨kept, same, known⟩ := ih packed
        refine ⟨kept, same, fun id => ?_⟩
        rw [known, if_neg fun taken => Bool.false_ne_true taken.2]
        rfl

theorem length_transcript (calls : List Upsert) (store : Store) :
    (VectorSearch.transcript respond store calls).1.length = calls.length := by
  induction calls generalizing store with
  | nil => rfl
  | cons first rest ih => exact congrArg (· + 1) (ih _)

/-- After any calls the store shows the embeddings that were last accepted, in blocks that are apart
and fill its buffer. A call is refused for a wrong length, or for want of room if its identifier is
new, and then changes nothing; any other call changes the embedding of its identifier alone. -/
theorem transcript_shows (dimension : Nat) (metric : Metric) (calls : List Upsert) :
    let served := VectorSearch.transcript respond (empty dimension metric) calls
    let store := served.2
    let rows := latest (calls.zip served.1)
    served.1.length = calls.length ∧ store.dimension = dimension ∧ store.Shows rows ∧
    store.Tiled ∧
    ∀ call : Upsert,
      (call.row.size ≠ dimension → store.respond call =
        (.error (.dimensionMismatch dimension call.row.size), store)) ∧
      (call.row.size = dimension → call.roomy = false → rows call.id = none →
        store.respond call = (.error (.outOfMemory "vector heap"), store)) ∧
      (call.row.size = dimension → call.roomy = true ∨ (rows call.id).isSome = true →
        (store.respond call).1 = .ok () ∧
        (store.respond call).2.Shows (Function.update rows call.id (some call.row))) := by
  intro served store rows
  obtain ⟨packed, same, known⟩ := (Packed.empty dimension metric).transcript calls
  have found : store.get? = rows := by
    funext id
    rw [show store.get? id = _ from known id]
    simp [empty, get?, rows, served]
  have dimensions : store.dimension = dimension := same
  have shows : store.Shows rows := found ▸ store.shows_get?
  refine ⟨length_transcript calls _, dimensions, shows, packed.tiled,
    fun call => ⟨fun unfit => ?_, fun fits cramped new => ?_, fun fits room => ?_⟩⟩
  · rw [respond_of_unfit (dimensions ▸ unfit), dimensions]
  · refine respond_of_cramped (fits.trans dimensions.symm) cramped ?_
    rw [shows.contains, new]
    rfl
  · have inside : call.row.size = store.dimension := fits.trans dimensions.symm
    have after : (store.put call.id call.row).get? =
        Function.update rows call.id (some call.row) := by
      funext other
      rw [packed.get?_put inside, Function.update_apply, found]
    rw [respond_of_room inside (shows.contains call.id ▸ room)]
    exact ⟨rfl, after ▸ shows_get? _⟩

theorem transcript_shows_two :
    let calls : List Upsert :=
      [⟨5, #[1, 2], true⟩, ⟨3, #[3, 4], true⟩, ⟨5, #[9], true⟩, ⟨5, #[5, 6], false⟩,
        ⟨7, #[7, 8], false⟩]
    let served := VectorSearch.transcript respond (empty 2 .cosine) calls
    let store := served.2
    let rows := latest (calls.zip served.1)
    let unfit : Upsert := ⟨3, #[9], true⟩
    let cramped : Upsert := ⟨7, #[7, 8], false⟩
    let known : Upsert := ⟨3, #[0, 0], false⟩
    (store.get? 5 = some #[5, 6] ∧ store.data = #[5, 6, 3, 4] ∧ store.Shows rows) ∧
    (unfit.row.size ≠ 2 ∧
      store.respond unfit = (.error (.dimensionMismatch 2 1), store)) ∧
    (cramped.row.size = 2 ∧ cramped.roomy = false ∧ rows cramped.id = none ∧
      store.respond cramped = (.error (.outOfMemory "vector heap"), store)) ∧
    (known.row.size = 2 ∧ (rows known.id).isSome = true ∧ (store.respond known).1 = .ok () ∧
      (store.respond known).2.Shows (Function.update rows known.id (some known.row))) := by
  intro calls served store rows unfit cramped known
  obtain ⟨_, _, shows, _, next⟩ := transcript_shows 2 .cosine calls
  have new : rows cramped.id = none := by decide +kernel
  have stored : (rows known.id).isSome = true := by decide +kernel
  obtain ⟨accepted, after⟩ := (next known).2.2 rfl (Or.inr stored)
  exact ⟨⟨by decide +kernel, by decide +kernel, shows⟩,
    ⟨by decide, (next unfit).1 (by decide)⟩,
    ⟨rfl, rfl, new, (next cramped).2.1 rfl rfl new⟩, rfl, stored, accepted, after⟩

end VectorSearch.Store
