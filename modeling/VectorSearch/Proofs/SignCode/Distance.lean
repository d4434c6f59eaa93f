import VectorSearch.Proofs.SignCode.Counting
/-!
The distance of sign codes as a metric. Both ways to count give the number of coordinates whose bits
differ, whatever the unused bits of the last bytes are, and refuse codes of different dimensions;
the distance is symmetric and obeys the triangle inequality.
-/

namespace VectorSearch.SignCode

def differing (first second : SignCode) : Nat :=
  (List.range first.dimension).countP fun coordinate =>
    first.bit coordinate != second.bit coordinate

theorem differing_le (first second : SignCode) : differing first second ≤ first.dimension := by
  have few : differing first second ≤ (List.range first.dimension).length :=
    List.countP_le_length
  rwa [List.length_range] at few

theorem differing_comm {first second : SignCode} (same : first.dimension = second.dimension) :
    differing first second = differing second first := by
  rw [differing, differing, same]
  exact List.countP_congr fun coordinate _ => by rw [bne_comm]

theorem countP_le_add {α : Type} (items : List α) {whole left right : α → Bool}
    (split : ∀ item, whole item = true → left item = true ∨ right item = true) :
    items.countP whole ≤ items.countP left + items.countP right := by
  induction items with
  | nil => exact Nat.zero_le _
  | cons first rest ih =>
      rw [List.countP_cons, List.countP_cons, List.countP_cons]
      cases counted : whole first with
      | false =>
          rw [if_neg Bool.false_ne_true]
          omega
      | true =>
          rcases split first counted with found | found <;> rw [if_pos found, if_pos rfl] <;> omega

theorem differing_triangle {first middle second : SignCode}
    (same : first.dimension = middle.dimension) :
    differing first second ≤ differing first middle + differing middle second := by
  have split (coordinate : Nat) (differs : (first.bit coordinate != second.bit coordinate) = true) :
      (first.bit coordinate != middle.bit coordinate) = true ∨
        (middle.bit coordinate != second.bit coordinate) = true := by
    rw [bne_iff_ne] at differs
    rw [bne_iff_ne, bne_iff_ne]
    by_contra neither
    rw [not_or, not_not, not_not] at neither
    exact differs (neither.1.trans neither.2)
  have added := countP_le_add (List.range first.dimension) split
  rw [differing, differing, differing, ← same]
  exact added

theorem hamming_of_unlike {first second : SignCode} (unlike : first.dimension ≠ second.dimension) :
    first.hamming second = .error (.invalidArgument ("hamming distance between vectors of " ++
      toString first.dimension ++ " and " ++ toString second.dimension ++ " bits")) := by
  rw [hamming, distanceBy, if_neg unlike]

theorem dimension_of_hamming {first second : SignCode} {distance : Nat}
    (found : first.hamming second = .ok distance) : first.dimension = second.dimension := by
  by_contra unlike
  rw [hamming_of_unlike unlike] at found
  exact nomatch found

/-! Quantized embeddings. -/

theorem quantize_eq_ok {row : Embedding} {code : SignCode} (quantized : quantize row = .ok code) :
    code = ofRow row := by
  unfold quantize at quantized
  split at quantized
  · exact nomatch quantized
  · exact (Except.ok.inj quantized).symm

theorem isSet_eq_any (row : Embedding) (coordinate : Nat) :
    isSet row coordinate = (row.toList[coordinate]?).any fun value => decide (0 ≤ value) := by
  rw [isSet, Array.getElem?_toList]
  cases row[coordinate]? <;> rfl

theorem countP_zip {α : Type} (test : α → Bool) (items : List α) :
    ∀ others : List α, items.length = others.length →
      (items.zip others).countP (fun pair => test pair.1 != test pair.2) =
        (List.range items.length).countP fun place =>
          (items[place]?).any test != (others[place]?).any test := by
  induction items with
  | nil => intro others _; rfl
  | cons first rest ih =>
      intro others same
      match others, same with
      | other :: others, same =>
        rw [List.zip_cons_cons, List.countP_cons, ih others (by simpa using same),
          List.length_cons, List.range_succ_eq_map, List.countP_cons, List.countP_map]
        rfl

theorem hamming_ofRow {row other : Embedding} (same : row.size = other.size) :
    (ofRow row).hamming (ofRow other) = .ok ((row.toList.zip other.toList).countP fun pair =>
      decide (0 ≤ pair.1) != decide (0 ≤ pair.2)) := by
  have lengths : row.toList.length = other.toList.length := same
  rw [← hammingWide_eq _ _ true true, hammingWide_ofRow same, signDistance,
    countP_zip (fun value => decide (0 ≤ value)) _ _ lengths]
  simp only [isSet_eq_any]
  rfl

/-- Both ways to count find the number of coordinates whose bits differ, and refuse codes of
different dimensions. That number is a metric, and for embeddings it is the number of places at
which just one of the two coordinates is not negative. -/
theorem hamming_eq_differing (first second : SignCode) (useBlocks lowestFirst : Bool) :
    first.hammingWide second useBlocks lowestFirst = first.hamming second ∧
    (first.dimension ≠ second.dimension →
      first.hamming second = .error (.invalidArgument ("hamming distance between vectors of " ++
        toString first.dimension ++ " and " ++ toString second.dimension ++ " bits"))) ∧
    (first.dimension = second.dimension →
      first.hamming second = .ok ((List.range first.dimension).countP fun coordinate =>
        first.bit coordinate != second.bit coordinate)) ∧
    (∀ distance, first.hamming second = .ok distance →
      distance ≤ first.dimension ∧ second.hamming first = .ok distance ∧
      ∀ middle there onward, first.hamming middle = .ok there →
        middle.hamming second = .ok onward → distance ≤ there + onward) ∧
    ∀ row other, quantize row = .ok first → quantize other = .ok second → row.size = other.size →
      first.hamming second = .ok ((row.toList.zip other.toList).countP fun pair =>
        decide (0 ≤ pair.1) != decide (0 ≤ pair.2)) := by
  have value {one two : SignCode} {distance : Nat} (found : one.hamming two = .ok distance) :
      one.dimension = two.dimension ∧ distance = differing one two := by
    have same := dimension_of_hamming found
    exact ⟨same, Except.ok.inj (found.symm.trans (hamming_eq same))⟩
  refine ⟨hammingWide_eq first second useBlocks lowestFirst, hamming_of_unlike, hamming_eq,
    fun distance found => ?_, ?_⟩
  · obtain ⟨same, rfl⟩ := value found
    refine ⟨differing_le first second, ?_, fun middle there onward one two => ?_⟩
    · rw [differing_comm same]
      exact hamming_eq same.symm
    · obtain ⟨shared, rfl⟩ := value one
      obtain ⟨_, rfl⟩ := value two
      exact differing_triangle shared
  · intro row other one two same
    rw [quantize_eq_ok one, quantize_eq_ok two]
    exact hamming_ofRow same

theorem hamming_eq_differing_wrapped :
    let first : SignCode := ⟨12, #[0x80, 0x0f], false, rfl⟩
    let second : SignCode := ⟨12, #[0x00, 0x03], false, rfl⟩
    let plus := ofRow #[1, -1]
    let minus := ofRow #[-1, -1]
    wrap #[0x80, 0x0f, 0xff] 12 = .ok first ∧ wrap #[0x00, 0x03] 12 = .ok second ∧
    (first.dimension ≠ plus.dimension ∧ first.hamming plus = .error (.invalidArgument
      "hamming distance between vectors of 12 and 2 bits")) ∧
    (first.dimension = second.dimension ∧ first.hamming second = .ok 1 ∧ 1 ≤ first.dimension ∧
      second.hamming first = .ok 1) ∧
    (first.hamming first = .ok 0 ∧ 1 ≤ 0 + 1) ∧
    quantize #[1, -1] = .ok plus ∧ quantize #[-1, -1] = .ok minus ∧ plus.hamming minus = .ok 1 := by
  intro first second plus minus
  have unlike : first.dimension ≠ plus.dimension := by decide
  have refused : first.hamming plus = .error (.invalidArgument
      "hamming distance between vectors of 12 and 2 bits") :=
    ((hamming_eq_differing first plus true true).2.1 unlike).trans
      (congrArg (Except.error ∘ Failure.invalidArgument) (by decide))
  have counted : first.hamming second = .ok 1 :=
    ((hamming_eq_differing first second true true).2.2.1 rfl).trans
      (congrArg Except.ok (by decide))
  obtain ⟨few, back, triangle⟩ := (hamming_eq_differing first second true true).2.2.2.1 1 counted
  have itself : first.hamming first = .ok 0 :=
    ((hamming_eq_differing first first true true).2.2.1 rfl).trans (congrArg Except.ok (by decide))
  have signs : plus.hamming minus = .ok 1 :=
    ((hamming_eq_differing plus minus true true).2.2.2.2 #[1, -1] #[-1, -1] rfl rfl rfl).trans
      (congrArg Except.ok (by decide))
  exact ⟨rfl, rfl, ⟨unlike, refused⟩, ⟨rfl, counted, few, back⟩,
    ⟨itself, triangle first 0 1 itself counted⟩, rfl, rfl, signs⟩

end VectorSearch.SignCode
