import Mathlib.Order.Bounds.Basic
import VectorSearch.Proofs.Double.Growth
import VectorSearch.Proofs.Tags.TagMap
/-!
The chains of the table of tags over a run. Their number is a power of two and only grows: at every
moment it is the smallest one that is as large as was asked for and has four chains for three tags,
for as many tags as were in use at any moment so far.
-/

namespace VectorSearch

/-! Powers of two. -/

theorem two_mul_le_of_isPowerOfTwo {small large : Nat} (smallPower : small.isPowerOfTwo)
    (largePower : large.isPowerOfTwo) (less : small < large) : 2 * small ≤ large := by
  obtain ⟨low, rfl⟩ := smallPower
  obtain ⟨high, rfl⟩ := largePower
  have below : low < high := (Nat.pow_lt_pow_iff_right (by omega)).mp less
  rw [← Nat.pow_succ']
  exact Nat.pow_le_pow_right (by omega) below

open private Nat.nextPowerOfTwo.go in Nat.nextPowerOfTwo in
theorem isLeast_nextPowerOfTwo (count : Nat) :
    IsLeast {power | power.isPowerOfTwo ∧ count ≤ power} count.nextPowerOfTwo := by
  suffices loop : ∀ power positive, power.isPowerOfTwo →
      (∀ other : Nat, other.isPowerOfTwo → count ≤ other → power ≤ other) →
      IsLeast {power | power.isPowerOfTwo ∧ count ≤ power}
        (Nat.nextPowerOfTwo.go count power positive) by
    apply loop 1 (by omega) Nat.isPowerOfTwo_one
    intro other isPower _
    exact Nat.pos_of_isPowerOfTwo isPower
  intro power positive isPower passed
  fun_induction Nat.nextPowerOfTwo.go count power positive with
  | case1 power positive small ih =>
      apply ih (Nat.isPowerOfTwo_mul_two_of_isPowerOfTwo isPower)
      intro other otherPower large
      have := two_mul_le_of_isPowerOfTwo isPower otherPower (by omega)
      omega
  | case2 power positive large =>
      exact ⟨⟨isPower, by omega⟩, fun other found => passed other found.1 found.2⟩

namespace TagTable

variable {hash : Tag → UInt64} {table : TagTable hash}

def roomFor (requested tags : Nat) : Set Nat :=
  {chains | chains.isPowerOfTwo ∧ max requested 1 ≤ chains ∧ 4 * tags ≤ 3 * chains}

def sizes (hash : Tag → UInt64) (requested : Nat) (calls : List TagCall) : Set Nat :=
  {size | ∃ earlier, earlier <+: calls ∧ (run hash requested earlier).size = size}

structure Fits (table : TagTable hash) (requested peak : Nat) : Prop where
  valid : table.Valid
  least : IsLeast (roomFor requested peak) table.bucketCount
  size_le : table.size ≤ peak

theorem bucketOf_eq_and {chains : Nat} (power : chains.isPowerOfTwo) (code : UInt64) :
    bucketOf chains code = code.toNat &&& (chains - 1) := by
  obtain ⟨exponent, rfl⟩ := power
  exact (Nat.and_two_pow_sub_one_eq_mod _ _).symm

open Double in
theorem sized_threeQuarters {chains : Nat} (power : chains.isPowerOfTwo)
    (small : chains ≤ 2 ^ 53) :
    Sized (Count.toFloat chains * 0.75) ((chains * (3 / 4) : ℚ) : WithTop ℚ) := by
  obtain ⟨exponent, rfl⟩ := power
  have low : exponent ≤ 53 := (Nat.pow_le_pow_iff_right (by decide)).mp small
  have part : Double.Fits (3 * 2 ^ 51) (-53) :=
    ⟨by decide, by decide, Or.inl (by decide), by decide⟩
  have threeQuarters : Sized 0.75 ((3 / 4 : ℚ) : WithTop ℚ) := by
    convert sized_of_unpack part (show (0.75 : Float).toModel.unpack = _ from rfl)
    norm_num
  have whole : Double.Fits (3 * 2 ^ 51) (exponent - 53) :=
    ⟨by decide, by decide, Or.inl (by decide), by omega⟩
  have value : ((2 ^ exponent : ℕ) * (3 / 4) : ℚ) = (3 * 2 ^ 51 : ℕ) * 2 ^ (exponent - 53 : ℤ) := by
    rw [zpow_sub₀ two_ne_zero, zpow_natCast]
    push_cast
    ring
  have product := (sized_toFloat_of_small small).mul threeQuarters
  have bound : ((2 ^ exponent : ℕ) * (3 / 4) : ℚ) ≤ 2 ^ (1023 : ℤ) := by
    calc ((2 ^ exponent : ℕ) * (3 / 4) : ℚ)
        ≤ (2 ^ exponent : ℕ) := mul_le_of_le_one_right (Nat.cast_nonneg _) (by norm_num)
      _ ≤ 2 ^ (53 : ℤ) := by exact_mod_cast small
      _ ≤ 2 ^ (1023 : ℤ) := zpow_le_zpow_right₀ one_le_two (by decide)
  rwa [rounded_of_le (by positivity) bound, value, whole.nearest_eq, ← value] at product

open Double in
/-- Up to `2 ^ 53` chains and tags, the test in floating-point numbers is the same. -/
theorem makeRoom_eq_of_small (power : table.buckets.size.isPowerOfTwo)
    (chains : table.buckets.size ≤ 2 ^ 53) (tags : table.entries < 2 ^ 53) :
    table.makeRoom =
      if Count.toFloat (table.entries + 1) ≤ Count.toFloat table.buckets.size * 0.75 then table
      else table.double := by
  have test : Count.toFloat (table.entries + 1) ≤ Count.toFloat table.buckets.size * 0.75 ↔
      4 * (table.entries + 1) ≤ 3 * table.buckets.size := by
    refine ((sized_toFloat_of_small tags).le_iff (sized_threeQuarters power chains)).trans ?_
    have scaled : ((table.entries + 1 : ℕ) : ℚ) ≤ table.buckets.size * (3 / 4) ↔
        ((4 * (table.entries + 1) : ℕ) : ℚ) ≤ (3 * table.buckets.size : ℕ) := by
      push_cast
      constructor <;> intro order <;> linarith
    exact WithTop.coe_le_coe.trans (scaled.trans Nat.cast_le)
  rw [makeRoom]
  exact if_congr test.symm rfl rfl

/-! What the operations do to the chains and to the number of tags. -/

@[simp] theorem bucketCount_changeIds (table : TagTable hash) (tag : Tag)
    (change : List VectorId → List VectorId) :
    (table.changeIds tag change).bucketCount = table.bucketCount := by
  simp [changeIds, bucketCount]

@[simp] theorem size_changeIds (table : TagTable hash) (tag : Tag)
    (change : List VectorId → List VectorId) :
    (table.changeIds tag change).size = table.size := rfl

@[simp] theorem bucketCount_dropTag (table : TagTable hash) (tag : Tag) :
    (table.dropTag tag).bucketCount = table.bucketCount := by
  simp [dropTag, bucketCount]

@[simp] theorem size_dropTag (table : TagTable hash) (tag : Tag) :
    (table.dropTag tag).size = table.size - 1 := rfl

theorem bucketCount_openTag (valid : table.Valid) (tag : Tag) (id : VectorId) :
    (table.openTag tag id).bucketCount =
      if 4 * (table.size + 1) ≤ 3 * table.bucketCount then table.bucketCount
      else 2 * table.bucketCount := by
  have doubled := (double_buckets table valid.positive valid.placed).1
  by_cases room : 4 * (table.entries + 1) ≤ 3 * table.buckets.size
  · simp [openTag, makeRoom, bucketCount, size, room]
  · simp [openTag, makeRoom, bucketCount, size, room, doubled]

theorem size_openTag (valid : table.Valid) (tag : Tag) (id : VectorId) :
    (table.openTag tag id).size = table.size + 1 := by
  simp [openTag, size, (makeRoom_buckets valid).2.2.2]

@[simp] theorem bucketCount_removeVector (table : TagTable hash) (id : VectorId) :
    (table.removeVector id).2.bucketCount = table.bucketCount := by
  simp [removeVector, bucketCount]

theorem size_removeVector_le (valid : table.Valid) (id : VectorId) :
    (table.removeVector id).2.size ≤ table.size := by
  rw [size, size, (valid.removeVector id).counted, valid.counted, flat_removeVector, without]
  exact (List.length_filter_le _ _).trans (by simp)

@[simp] theorem bucketCount_clear (table : TagTable hash) :
    table.clear.bucketCount = table.bucketCount := by
  simp [clear, bucketCount]

theorem size_le_size_add (valid : table.Valid) (tag : Tag) (id : VectorId) :
    table.size ≤ (table.add tag id).size := by
  rw [add_eq valid]
  split
  · exact le_rfl
  · split
    · simp [size_openTag valid]
    · simp

theorem size_remove_le (valid : table.Valid) (tag : Tag) (id : VectorId) :
    (table.remove tag id).2.size ≤ table.size := by
  rw [remove_eq valid]
  split
  · dsimp only
    split <;> simp
  · exact le_rfl

theorem bucketCount_remove (valid : table.Valid) (tag : Tag) (id : VectorId) :
    (table.remove tag id).2.bucketCount = table.bucketCount := by
  rw [remove_eq valid]
  split
  · dsimp only
    split <;> simp
  · rfl

/-! One call. -/

variable {requested peak : Nat}

theorem fits_withBuckets (requested : Nat) :
    (withBuckets requested : TagTable hash).Fits requested 0 where
  valid := valid_withBuckets requested
  least := by
    obtain ⟨⟨power, large⟩, least⟩ := isLeast_nextPowerOfTwo (max requested 1)
    have count : (withBuckets requested : TagTable hash).bucketCount =
        (max requested 1).nextPowerOfTwo := by
      simp [withBuckets, bucketCount]
    rw [count]
    exact ⟨⟨power, large, by omega⟩, fun other found => least ⟨found.1, found.2.1⟩⟩
  size_le := le_rfl

theorem Fits.of_fewer {other : TagTable hash} (fits : table.Fits requested peak)
    (valid : other.Valid) (same : other.bucketCount = table.bucketCount)
    (fewer : other.size ≤ table.size) : other.Fits requested peak where
  valid := valid
  least := same ▸ fits.least
  size_le := fewer.trans fits.size_le

theorem Fits.load (fits : table.Fits requested peak) :
    4 * table.size ≤ 3 * table.bucketCount := by
  have room := fits.least.1.2.2
  have few := fits.size_le
  omega

theorem Fits.openTag (fits : table.Fits requested peak) (tag : Tag) (id : VectorId)
    (absent : table.ids tag = []) :
    (table.openTag tag id).Fits requested (max peak (table.size + 1)) where
  valid := fits.valid.openTag tag id absent
  least := by
    obtain ⟨⟨power, large, room⟩, least⟩ := fits.least
    have few := fits.size_le
    rw [bucketCount_openTag fits.valid]
    split
    · refine ⟨⟨power, large, by omega⟩, fun other found => ?_⟩
      have enough := found.2.2
      exact least ⟨found.1, found.2.1, by omega⟩
    · refine ⟨⟨?_, by omega, by omega⟩, fun other found => ?_⟩
      · rw [Nat.mul_comm]
        exact Nat.isPowerOfTwo_mul_two_of_isPowerOfTwo power
      · have enough := found.2.2
        exact two_mul_le_of_isPowerOfTwo power found.1 (by omega)
  size_le := by
    rw [size_openTag fits.valid]
    omega

theorem Fits.add (fits : table.Fits requested peak) (tag : Tag) (id : VectorId) :
    (table.add tag id).Fits requested (max peak (table.add tag id).size) := by
  have valid := fits.valid.add tag id
  have few := fits.size_le
  rw [add_eq fits.valid] at valid ⊢
  split
  · rwa [Nat.max_eq_left few]
  · split
    · rw [size_openTag fits.valid]
      exact fits.openTag tag id ‹_›
    · rename_i present used
      rw [if_neg present, if_neg used] at valid
      rw [size_changeIds, Nat.max_eq_left few]
      exact fits.of_fewer valid (by simp) (by simp)

theorem Fits.foldl_add (id : VectorId) (tags : List Tag) :
    ∀ {table : TagTable hash} {peak : Nat}, table.Fits requested peak →
      (tags.foldl (fun table tag => table.add tag id) table).Fits requested
          (max peak (tags.foldl (fun table tag => table.add tag id) table).size) ∧
        table.size ≤ (tags.foldl (fun table tag => table.add tag id) table).size := by
  induction tags with
  | nil =>
      intro table peak fits
      refine ⟨?_, le_rfl⟩
      rwa [List.foldl_nil, Nat.max_eq_left fits.size_le]
  | cons first rest ih =>
      intro table peak fits
      obtain ⟨last, grown⟩ := ih (fits.add first id)
      rw [Nat.max_assoc, Nat.max_eq_right grown] at last
      exact ⟨last, (size_le_size_add fits.valid first id).trans grown⟩

theorem Fits.remove (fits : table.Fits requested peak) (tag : Tag) (id : VectorId) :
    (table.remove tag id).2.Fits requested peak :=
  fits.of_fewer (fits.valid.remove tag id) (bucketCount_remove fits.valid tag id)
    (size_remove_le fits.valid tag id)

theorem Fits.update (fits : table.Fits requested peak) (id : VectorId)
    (old new : Option TagList) :
    (table.update id old new).Fits requested (max peak (table.update id old new).size) := by
  have taken := List.foldlRecOn (motive := (Fits · requested peak)) ((old.map (·.tags)).getD [])
    (fun table tag => (table.remove tag id).2) fits fun table fits tag _ => fits.remove tag id
  exact (Fits.foldl_add id _ taken).1

theorem Fits.call (fits : table.Fits requested peak) (request : TagCall) :
    (table.call request).2.Fits requested (max peak (table.call request).2.size) := by
  have kept {other : TagTable hash} (fewer : other.Fits requested peak) :
      other.Fits requested (max peak other.size) := by
    rwa [Nat.max_eq_left fewer.size_le]
  cases request with
  | add tag id => exact fits.add tag id
  | remove tag id => exact kept (fits.remove tag id)
  | removeVector id =>
      exact kept (fits.of_fewer (fits.valid.removeVector id) (bucketCount_removeVector table id)
        (size_removeVector_le fits.valid id))
  | update id old new => exact fits.update id old new
  | clear =>
      exact kept (fits.of_fewer fits.valid.clear (bucketCount_clear table) (Nat.zero_le _))

/-! A run. -/

theorem fits_run (hash : Tag → UInt64) (requested : Nat) (calls : List TagCall) :
    ∃ peak, IsGreatest (sizes hash requested calls) peak ∧
      (run hash requested calls).Fits requested peak := by
  induction calls using List.reverseRecOn with
  | nil =>
      refine ⟨0, ⟨⟨[], List.prefix_rfl, rfl⟩, ?_⟩, fits_withBuckets requested⟩
      rintro size ⟨earlier, isPrefix, rfl⟩
      rw [List.prefix_nil.mp isPrefix]
      exact le_rfl
  | append_singleton front request ih =>
      obtain ⟨peak, ⟨⟨moment, before, reached⟩, greatest⟩, fits⟩ := ih
      have next := fits.call request
      rw [← run_concat] at next
      refine ⟨_, ⟨?_, ?_⟩, next⟩
      · rcases Nat.le_total peak (run hash requested (front ++ [request])).size with less | more
        · exact ⟨_, List.prefix_rfl, (Nat.max_eq_right less).symm⟩
        · exact ⟨moment, before.trans (List.prefix_append _ _),
            reached.trans (Nat.max_eq_left more).symm⟩
      · rintro size ⟨earlier, isPrefix, rfl⟩
        rcases List.prefix_concat_iff.mp isPrefix with rfl | inside
        · exact Nat.le_max_right _ _
        · exact (greatest ⟨earlier, inside, rfl⟩).trans (Nat.le_max_left _ _)

def steps : TagCall → List TagCall
  | .update id old new =>
    ((old.map (·.tags)).getD []).map (.remove · id) ++ ((new.map (·.tags)).getD []).map (.add · id)
  | request => [request]

theorem foldl_steps (table : TagTable hash) (request : TagCall) :
    (steps request).foldl (fun table request => (table.call request).2) table =
      (table.call request).2 := by
  cases request with
  | update id old new => simp [steps, call, update, List.foldl_map]
  | add | remove | removeVector | clear => rfl

theorem run_steps (hash : Tag → UInt64) (requested : Nat) (calls : List TagCall) :
    run hash requested (calls.flatMap steps) = run hash requested calls := by
  induction calls using List.reverseRecOn with
  | nil => rfl
  | append_singleton front request ih =>
      rw [run_concat, ← ih, List.flatMap_append, run, List.foldl_append]
      simpa [run] using foldl_steps _ request

/-- After any calls every entry lies in the chain that its hash selects, no two entries have one
tag, none is without vectors or has one twice, and they are as many as are counted. The number of
chains is the smallest power of two that is as large as was asked for and has room for the most tags
that were in use so far, whether or not the moments inside of updates count; so at most three tags
are in use for four chains, and doubling them once is enough for one more. -/
theorem run_shape (hash : Tag → UInt64) (requested : Nat) (calls : List TagCall) :
    let table := run hash requested calls
    (∀ position chain, table.buckets[position]? = some chain → ∀ entry ∈ chain,
      entry.code = hash entry.tag ∧
        position = entry.code.toNat &&& (table.bucketCount - 1)) ∧
    ((flat table.buckets).map (·.tag)).Nodup ∧
    (∀ entry ∈ flat table.buckets, entry.ids ≠ [] ∧ entry.ids.Nodup) ∧
    table.size = (flat table.buckets).length ∧
    (∀ moments ∈ [calls, calls.flatMap steps], ∃ peak,
      IsGreatest (sizes hash requested moments) peak ∧
        IsLeast (roomFor requested peak) table.bucketCount) ∧
    4 * table.size ≤ 3 * table.bucketCount ∧
    ∀ tag id, ((table.add tag id).bucketCount = table.bucketCount ∨
        (table.add tag id).bucketCount = 2 * table.bucketCount) ∧
      4 * (table.add tag id).size ≤ 3 * (table.add tag id).bucketCount := by
  intro table
  have peak (moments : List TagCall) (same : run hash requested moments = table) :
      ∃ peak, IsGreatest (sizes hash requested moments) peak ∧ table.Fits requested peak := by
    rw [← same]
    exact fits_run hash requested moments
  obtain ⟨most, greatest, fits⟩ := peak calls rfl
  obtain ⟨finest, finer, fitsFiner⟩ := peak (calls.flatMap steps) (run_steps hash requested calls)
  have valid := fits.valid
  have power := fits.least.1.1
  refine ⟨?_, valid.sound.distinct, ?_, valid.counted, ?_, fits.load, fun tag id => ⟨?_, ?_⟩⟩
  · intro position chain found entry inside
    obtain ⟨hashed, here⟩ := valid.placed position chain found entry inside
    refine ⟨hashed, ?_⟩
    rw [← here]
    exact bucketOf_eq_and power entry.code
  · exact fun entry member => ⟨valid.sound.inUse entry member, valid.sound.nodup entry member⟩
  · simp only [List.mem_cons, List.not_mem_nil, or_false, forall_eq_or_imp, forall_eq]
    exact ⟨⟨most, greatest, fits.least⟩, ⟨finest, finer, fitsFiner.least⟩⟩
  · rw [add_eq valid]
    split
    · exact Or.inl rfl
    · split
      · rw [bucketCount_openTag valid]
        split <;> simp
      · simp
  · exact (fits.add tag id).load

theorem run_shape_two :
    let calls : List TagCall := [.add ⟨"color", "red"⟩ 1, .add ⟨"color", "blue"⟩ 1]
    let table := run (fun _ => 5) 1 calls
    (∃ position chain, table.buckets[position]? = some chain ∧ ∃ entry ∈ chain,
      entry.code = 5 ∧ position = entry.code.toNat &&& (table.bucketCount - 1)) ∧
    (∃ entry ∈ flat table.buckets, entry.ids ≠ [] ∧ entry.ids.Nodup) ∧
    calls ∈ [calls, calls.flatMap steps] ∧
    ∃ peak, IsGreatest (sizes (fun _ => 5) 1 calls) peak ∧
      IsLeast (roomFor 1 peak) table.bucketCount := by
  intro calls table
  obtain ⟨placed, _, sound, _, peaks, _, _⟩ := run_shape (fun _ => 5) 1 calls
  have used : table.ids ⟨"color", "red"⟩ ≠ [] := by decide +kernel
  obtain ⟨entry, member, _⟩ := (ids_ne_nil_iff (valid_run (fun _ => 5) 1 calls) _).mp used
  obtain ⟨position, chain, found, inside⟩ := (mem_flat _ _).mp member
  have given : calls ∈ [calls, calls.flatMap steps] := List.mem_cons_self
  exact ⟨⟨position, chain, found, entry, inside, placed position chain found entry inside⟩,
    ⟨entry, member, sound entry member⟩, given, peaks calls given⟩

end TagTable

end VectorSearch
