import Mathlib.Order.Bounds.Basic
import VectorSearch.Text.Boundary
/-!
Truncated texts. The characters that fit are the longest beginning of a text that ends between two
characters, and the search through the bytes finds just that; cutting twice is cutting once.
-/

namespace VectorSearch.Text

/-! Characters that fit. -/

theorem utf8ByteSize_ofList_cons (char : Char) (rest : List Char) :
    (String.ofList (char :: rest)).utf8ByteSize =
      char.utf8Size + (String.ofList rest).utf8ByteSize := by
  rw [String.ofList_cons, String.utf8ByteSize_append, String.utf8ByteSize_singleton]

theorem utf8ByteSize_le_of_begins {front chars : List Char} (begins : front <+: chars) :
    (String.ofList front).utf8ByteSize ≤ (String.ofList chars).utf8ByteSize := by
  obtain ⟨rest, rfl⟩ := begins
  rw [String.ofList_append, String.utf8ByteSize_append]
  exact Nat.le_add_right _ _

theorem takeBytes_cons_of_fits {char : Char} {room : Nat} (fits : char.utf8Size ≤ room)
    (rest : List Char) :
    takeBytes room (char :: rest) = char :: takeBytes (room - char.utf8Size) rest := if_pos fits

theorem takeBytes_cons_of_wide {char : Char} {room : Nat} (wide : ¬ char.utf8Size ≤ room)
    (rest : List Char) : takeBytes room (char :: rest) = [] := if_neg wide

theorem takeBytes_begins (chars : List Char) (room : Nat) : takeBytes room chars <+: chars := by
  induction chars generalizing room with
  | nil => exact List.prefix_rfl
  | cons char rest ih =>
      by_cases fits : char.utf8Size ≤ room
      · rw [takeBytes_cons_of_fits fits, List.cons_prefix_cons]
        exact ⟨rfl, ih _⟩
      · rw [takeBytes_cons_of_wide fits]
        exact List.nil_prefix

theorem begins_takeBytes {front chars : List Char} {room : Nat} (begins : front <+: chars)
    (fits : (String.ofList front).utf8ByteSize ≤ room) : front <+: takeBytes room chars := by
  induction chars generalizing front room with
  | nil => exact begins
  | cons char rest ih =>
      cases front with
      | nil => exact List.nil_prefix
      | cons first more =>
          obtain ⟨rfl, tail⟩ := List.cons_prefix_cons.mp begins
          rw [utf8ByteSize_ofList_cons] at fits
          rw [takeBytes_cons_of_fits (by omega), List.cons_prefix_cons]
          exact ⟨rfl, ih tail (by omega)⟩

theorem takeBytes_of_fits {chars : List Char} {room : Nat}
    (fits : (String.ofList chars).utf8ByteSize ≤ room) : takeBytes room chars = chars :=
  (takeBytes_begins chars room).eq_of_length_le (begins_takeBytes List.prefix_rfl fits).length_le

theorem room_le_takeBytes {chars : List Char} {room : Nat}
    (long : room < (String.ofList chars).utf8ByteSize) :
    room ≤ (String.ofList (takeBytes room chars)).utf8ByteSize + 3 := by
  induction chars generalizing room with
  | nil => exact absurd long (Nat.not_lt_zero room)
  | cons char rest ih =>
      rw [utf8ByteSize_ofList_cons] at long
      by_cases fits : char.utf8Size ≤ room
      · have tail := @ih (room - char.utf8Size) (by omega)
        rw [takeBytes_cons_of_fits fits, utf8ByteSize_ofList_cons]
        omega
      · have small := char.utf8Size_le_four
        omega

theorem takeBytes_takeBytes (chars : List Char) (first second : Nat) :
    takeBytes second (takeBytes first chars) = takeBytes (min first second) chars := by
  induction chars generalizing first second with
  | nil => rfl
  | cons char rest ih =>
      by_cases fits : char.utf8Size ≤ first
      · rw [takeBytes_cons_of_fits fits]
        by_cases again : char.utf8Size ≤ second
        · rw [takeBytes_cons_of_fits again, takeBytes_cons_of_fits (Nat.le_min.mpr ⟨fits, again⟩),
            ih, Nat.sub_min_sub_right]
        · rw [takeBytes_cons_of_wide again,
            takeBytes_cons_of_wide fun both => again (Nat.le_min.mp both).2]
      · rw [takeBytes_cons_of_wide fits,
          takeBytes_cons_of_wide fun both => fits (Nat.le_min.mp both).1]
        rfl

/-! Boundaries. -/

theorem startsCharacter_iff {byte : UInt8} (small : byte.toNat < 248) :
    startsCharacter byte = true ↔ byte.IsUTF8FirstByte := by
  have each : ∀ number < 248,
      startsCharacter (UInt8.ofNat number) = true ↔ (UInt8.ofNat number).IsUTF8FirstByte := by
    decide +kernel
  simpa using each byte.toNat small

theorem toNat_lt_of_mem_utf8EncodeChar {char : Char} {byte : UInt8}
    (member : byte ∈ String.utf8EncodeChar char) : byte.toNat < 248 := by
  rw [String.utf8EncodeChar] at member
  split at member
  · rw [List.mem_singleton.mp member, UInt8.toNat_ofNat']
    omega
  split at member
  · simp only [List.mem_cons, List.not_mem_nil, or_false] at member
    rcases member with rfl | rfl <;> rw [UInt8.toNat_ofNat'] <;> omega
  split at member
  · simp only [List.mem_cons, List.not_mem_nil, or_false] at member
    rcases member with rfl | rfl | rfl <;> rw [UInt8.toNat_ofNat'] <;> omega
  · simp only [List.mem_cons, List.not_mem_nil, or_false] at member
    rcases member with rfl | rfl | rfl | rfl <;> rw [UInt8.toNat_ofNat'] <;> omega

theorem toNat_getElem_toByteArray_lt {text : String} {offset : Nat}
    (inside : offset < text.toByteArray.size) : text.toByteArray[offset].toNat < 248 := by
  have bytes : text.toByteArray.data.toList = text.toList.flatMap String.utf8EncodeChar := by
    rw [← String.utf8Encode_toList, List.utf8Encode, List.data_toByteArray]
  have member : text.toByteArray[offset] ∈ text.toByteArray.data.toList := by
    rw [ByteArray.getElem_eq_getElem_data]
    exact Array.getElem_mem_toList ..
  rw [bytes] at member
  obtain ⟨char, _, encoded⟩ := List.mem_flatMap.mp member
  exact toNat_lt_of_mem_utf8EncodeChar encoded

theorem isBoundary_iff_isValid {text : String} {offset : Nat} :
    isBoundary text offset = true ↔ String.Pos.Raw.IsValid text ⟨offset⟩ := by
  unfold isBoundary
  split
  · subst offset
    exact iff_of_true rfl String.Pos.Raw.isValid_zero
  rw [String.Pos.Raw.isValid_iff_isUTF8FirstByte]
  split
  · rename_i inside
    rw [startsCharacter_iff (toNat_getElem_toByteArray_lt inside)]
    refine ⟨fun starts => Or.inr ⟨inside, starts⟩, ?_⟩
    rintro (last | ⟨_, starts⟩)
    · exact absurd (String.Pos.Raw.ext_iff.mp last) (Nat.ne_of_lt inside)
    · exact starts
  · rename_i outside
    rw [decide_eq_true_eq]
    refine ⟨fun last => Or.inl (String.Pos.Raw.ext_iff.mpr last), ?_⟩
    rintro (last | ⟨inside, _⟩)
    · exact String.Pos.Raw.ext_iff.mp last
    · exact absurd inside outside

theorem isBoundary_iff {text : String} {offset : Nat} :
    isBoundary text offset = true ↔
      ∃ front back, text = front ++ back ∧ offset = front.utf8ByteSize := by
  rw [isBoundary_iff_isValid, String.Pos.Raw.isValid_iff_exists_append]
  simp only [String.Pos.Raw.ext_iff]
  rfl

theorem boundaryUpTo?_eq_some {text : String} {limit last : Nat}
    (greatest : IsGreatest {offset | isBoundary text offset = true ∧ offset ≤ limit} last) :
    boundaryUpTo? text limit = some last := by
  obtain ⟨⟨boundary, bounded⟩, above⟩ := greatest
  induction limit with
  | zero =>
      obtain rfl := Nat.le_zero.mp bounded
      exact if_pos boundary
  | succ limit ih =>
      unfold boundaryUpTo?
      split
      · rename_i here
        rw [Nat.le_antisymm bounded (above ⟨here, Nat.le_refl _⟩)]
      · rename_i closed
        have elsewhere : last ≠ limit + 1 := fun same => closed (same ▸ boundary)
        have before : last ≤ limit := by omega
        exact ih (fun offset place => above ⟨place.1, Nat.le_succ_of_le place.2⟩) before

theorem slice?_append (front back : String) :
    slice? (front ++ back) front.utf8ByteSize = some front := by
  have boundary := isBoundary_iff.mpr ⟨front, back, rfl, rfl⟩
  have bytes : (front ++ back).toByteArray.extract 0 front.utf8ByteSize = front.toByteArray := by
    rw [String.toByteArray_append]
    exact ByteArray.extract_append_eq_left rfl
  rw [slice?, if_pos boundary, bytes, String.fromUTF8?, dif_pos front.isValidUTF8]
  rfl

/-! Truncation. -/

/-- A text is the longest beginning of another one that ends between two characters and has no more
than a number of bytes. -/
structure IsCut (text : String) (limit : Nat) (short : String) : Prop where
  begins : ∃ rest, text = short ++ rest
  longest : IsGreatest {offset | isBoundary text offset = true ∧ offset ≤ limit} short.utf8ByteSize

theorem isCut_truncate (text : String) (limit : Nat) : IsCut text limit (truncate text limit) := by
  obtain ⟨rest, whole⟩ := takeBytes_begins text.toList limit
  have parts : text = truncate text limit ++ String.ofList rest := by
    rw [truncate, ← String.ofList_append, whole, String.ofList_toList]
  refine ⟨⟨_, parts⟩, ⟨isBoundary_iff.mpr ⟨_, _, parts, rfl⟩, utf8ByteSize_takeBytes _ _⟩, ?_⟩
  rintro offset ⟨boundary, bounded⟩
  obtain ⟨front, back, same, rfl⟩ := isBoundary_iff.mp boundary
  have inside : front.toList <+: text.toList := ⟨back.toList, by rw [same, String.toList_append]⟩
  have fits : (String.ofList front.toList).utf8ByteSize ≤ limit := by
    rwa [String.ofList_toList]
  have size := utf8ByteSize_le_of_begins (begins_takeBytes inside fits)
  rwa [String.ofList_toList] at size

theorem truncate_of_fits {text : String} {limit : Nat} (fits : text.utf8ByteSize ≤ limit) :
    truncate text limit = text := by
  rw [truncate, takeBytes_of_fits (by rwa [String.ofList_toList]), String.ofList_toList]

theorem truncateBytes?_eq (text : String) (limit : Nat) :
    truncateBytes? text limit = some (truncate text limit) := by
  unfold truncateBytes?
  split
  · rename_i fits
    rw [truncate_of_fits fits]
  · have cut := isCut_truncate text limit
    obtain ⟨rest, parts⟩ := cut.begins
    rw [boundaryUpTo?_eq_some cut.longest, Option.bind_some]
    exact (congrArg (slice? · _) parts).trans (slice?_append _ rest)

theorem truncate_truncate (text : String) (first second : Nat) :
    truncate (truncate text first) second = truncate text (min first second) := by
  rw [truncate, truncate, String.toList_ofList, takeBytes_takeBytes, truncate]

theorem limit_le_truncate {text : String} {limit : Nat} (long : limit < text.utf8ByteSize) :
    limit ≤ (truncate text limit).utf8ByteSize + 3 :=
  room_le_takeBytes (by rwa [String.ofList_toList])

theorem boundedMessage_boundedMessage (text : String) :
    boundedMessage (boundedMessage text) = boundedMessage text := by
  rw [boundedMessage, boundedMessage, truncate_truncate, Nat.min_self]

end VectorSearch.Text
