import VectorSearch.Proofs.Toml.Number
import VectorSearch.Proofs.Toml.Quoted
import VectorSearch.Toml.Block
/-!
Written scalars are read back: numbers as the characters up to the end of their line, texts with
their escape sequences.
-/

namespace VectorSearch.Toml

open Decimal (digitsOf)

/-! Tokens. -/

/-- Characters that are read together, and that are no date and no time. -/
structure Token (chars : List Char) : Prop where
  all : ∀ char ∈ chars, isTokenChar char = true
  occupied : chars ≠ []
  tail : ∀ char ∈ chars.tail, char ≠ '-' ∧ char ≠ ':'

theorem isDate_getElem? {chars : List Char} (date : isDate chars = true) :
    chars[4]? = some '-' := by
  unfold isDate at date
  split at date
  · rfl
  · exact Bool.noConfusion date

theorem isTime_getElem? {chars : List Char} (time : isTime chars = true) :
    chars[2]? = some ':' := by
  rw [isTime, Bool.and_eq_true] at time
  have hour := time.1
  unfold isHourMinute at hour
  split at hour
  · rename_i front
    have third : (chars.take 5)[2]? = some ':' := by rw [front]; rfl
    rwa [List.getElem?_take_of_lt (by decide)] at third
  · exact Bool.noConfusion hour

theorem Token.getElem?_succ {chars : List Char} (token : Token chars) (position : Nat) :
    chars[position + 1]? ≠ some '-' ∧ chars[position + 1]? ≠ some ':' := by
  rw [← List.getElem?_tail]
  constructor <;> intro found
  · exact (token.tail _ (List.mem_of_getElem? found)).1 rfl
  · exact (token.tail _ (List.mem_of_getElem? found)).2 rfl

theorem Token.isDate_eq_false {chars : List Char} (token : Token chars) :
    isDate chars = false :=
  Bool.eq_false_iff.mpr fun date => (token.getElem?_succ 3).1 (isDate_getElem? date)

theorem Token.isMoment_eq_false {chars : List Char} (token : Token chars) :
    isMoment chars = false := by
  have time : isTime chars = false :=
    Bool.eq_false_iff.mpr fun time => (token.getElem?_succ 1).2 (isTime_getElem? time)
  have date : isDate (chars.take 10) = false := Bool.eq_false_iff.mpr fun date => by
    have dash := isDate_getElem? date
    rw [List.getElem?_take_of_lt (by decide)] at dash
    exact (token.getElem?_succ 3).1 dash
  rw [isMoment, token.isDate_eq_false, time, Bool.false_or, Bool.false_or]
  split
  · rw [date, Bool.false_and, Bool.false_and]
  · rfl

theorem readQuoted_eq_none {chars : List Char}
    (plain : ∀ char ∈ chars.head?, char ≠ '"' ∧ char ≠ '\x27') : readQuoted chars = none := by
  unfold readQuoted
  split
  · exact absurd rfl (plain '"' rfl).1
  · exact absurd rfl (plain '\x27' rfl).2
  · unfold readQuotedLine
    split
    · exact absurd rfl (plain '"' rfl).1
    · exact absurd rfl (plain '\x27' rfl).2
    · rfl

theorem readValue_of_plain {chars : List Char}
    (plain : ∀ char ∈ chars.head?, char ≠ '[' ∧ char ≠ '{') (depth : Nat) :
    readValue depth chars =
      (readScalar chars).map fun (scalar, rest) => (.scalar scalar, rest) := by
  cases depth with
  | zero => rfl
  | succ depth =>
      unfold readValue
      split
      · exact absurd rfl (plain '[' rfl).1
      · exact absurd rfl (plain '{' rfl).2
      · rfl

theorem Token.readValue_eq {chars : List Char} (token : Token chars) {scalar : Scalar}
    (read : Scalar.ofToken? chars = some scalar) (depth : Nat) (rest : List Char) :
    readValue depth (chars ++ '\n' :: rest) = some (.scalar scalar, '\n' :: rest) := by
  have first : ∀ char ∈ (chars ++ '\n' :: rest).head?, isTokenChar char = true := by
    intro char begins
    rw [List.head?_append_of_ne_nil _ token.occupied] at begins
    exact token.all char (List.mem_of_mem_head? begins)
  have other {char odd : Char} (isToken : isTokenChar char = true)
      (notToken : isTokenChar odd = false) : char ≠ odd := fun same =>
    Bool.noConfusion (isToken.symm.trans (same ▸ notToken))
  have taken : (chars ++ '\n' :: rest).takeWhile isTokenChar = chars := by
    rw [List.takeWhile_append_of_pos token.all, List.takeWhile_cons_of_neg (by decide),
      List.append_nil]
  have dropped : (chars ++ '\n' :: rest).dropWhile isTokenChar = '\n' :: rest := by
    rw [List.dropWhile_append_of_pos token.all, List.dropWhile_cons_of_neg (by decide)]
  rw [readValue_of_plain (fun char begins => ⟨other (first char begins) (by decide),
      other (first char begins) (by decide)⟩), readScalar,
    readQuoted_eq_none (fun char begins => ⟨other (first char begins) (by decide),
      other (first char begins) (by decide)⟩)]
  simp only [taken, dropped, read, token.isDate_eq_false, Option.bind_eq_bind, Option.bind_some,
    Bool.false_eq_true, if_false, Option.pure_def, Option.map_some]

/-! Numbers. -/

theorem isTokenChar_of_isDigit {char : Char} (digit : char.isDigit = true) :
    isTokenChar char = true := by
  simp [isTokenChar, Char.isAlphanum, digit]

theorem token_digitsOf (value : Nat) : Token (digitsOf value) := by
  have all := allDigits_digitsOf value
  refine ⟨fun char member => isTokenChar_of_isDigit (all char member),
    (wholePart_digitsOf value).occupied, fun char member => ?_⟩
  have digit := all char (List.mem_of_mem_tail member)
  constructor <;> rintro rfl <;> exact absurd digit (by decide)

theorem ofToken?_writeWhole {value : Nat} (fits : fitsWord value = true) :
    Scalar.ofToken? (writeWhole value) = some (.whole value) := by
  have read := whole?_writeWhole fits
  have token := token_digitsOf value
  rw [writeWhole_natCast] at read ⊢
  have named {word : List Char} (notNumber : whole? word = none) : digitsOf value ≠ word :=
    fun same => Option.some_ne_none _ (read.symm.trans (same ▸ notNumber))
  rw [Scalar.ofToken?, if_neg (named (by decide)), if_neg (named (by decide)),
    token.isMoment_eq_false, if_neg Bool.false_ne_true, read]

theorem RealText.token {value : Float} {chars : List Char} (text : RealText value chars) :
    Token chars := by
  cases text with
  | undefined same => exact ⟨List.all_eq_true.mp rfl, List.cons_ne_nil _ _, by simp⟩
  | infinite negative same =>
      cases negative <;> exact ⟨List.all_eq_true.mp rfl, List.cons_ne_nil _ _, by simp [withSign]⟩
  | pointed negative start fraction digits pointed nearest bounded =>
      refine ⟨fun char member => ?_, ?_, fun char member => ?_⟩
      · rcases pointed.mem_withSign member with digit | rfl | rfl
        · exact isTokenChar_of_isDigit digit
        · rfl
        · rfl
      · cases negative <;> simp [withSign]
      · have inBody : char ∈ start ++ '.' :: fraction := by
          cases negative with
          | false => exact List.mem_of_mem_tail member
          | true => exact member
        rcases pointed.mem_body inBody with digit | rfl
        · constructor <;> rintro rfl <;> exact absurd digit (by decide)
        · decide

theorem ofToken?_writeReal (value : Float) :
    Scalar.ofToken? (writeReal value) = some (.real value) := by
  have text := realText_writeReal value
  have named {word : List Char} (notNumber : real? word = none) : writeReal value ≠ word :=
    fun same => Option.some_ne_none _ (text.real?_eq.symm.trans (same ▸ notNumber))
  rw [Scalar.ofToken?, if_neg (named (by decide)), if_neg (named (by decide)),
    text.token.isMoment_eq_false, if_neg Bool.false_ne_true, text.whole?_eq_none, text.real?_eq]
  rfl

/-! Scalars in their lines. -/

structure Scalar.Readable (scalar : Scalar) : Prop where
  begins : ∃ first rest, scalar.write = first :: rest ∧ isBlank first = false
  noReturn : '\r' ∉ scalar.write
  read : ∀ depth rest, readValue depth (scalar.write ++ '\n' :: rest) =
    some (.scalar scalar, '\n' :: rest)

theorem Token.readable {scalar : Scalar} (token : Token scalar.write)
    (read : Scalar.ofToken? scalar.write = some scalar) : scalar.Readable := by
  obtain ⟨first, rest, written⟩ := List.exists_cons_of_ne_nil token.occupied
  refine ⟨⟨first, rest, written, ?_⟩, fun member => ?_, token.readValue_eq read⟩
  · have isToken := token.all first (by rw [written]; exact List.mem_cons_self)
    rw [← Bool.not_eq_true, isBlank, Bool.or_eq_true, decide_eq_true_iff, decide_eq_true_iff]
    rintro (rfl | rfl) <;> exact absurd isToken (by decide)
  · exact absurd (token.all '\r' member) (by decide)

theorem readable_whole {value : Nat} (fits : fitsWord value = true) :
    (Scalar.whole value).Readable := by
  refine Token.readable ?_ (ofToken?_writeWhole fits)
  rw [Scalar.write, writeWhole_natCast]
  exact token_digitsOf value

theorem readable_real (value : Float) : (Scalar.real value).Readable :=
  Token.readable (realText_writeReal value).token (ofToken?_writeReal value)

theorem readable_text (content : String) : (Scalar.text content).Readable := by
  refine ⟨⟨'"', _, rfl, rfl⟩, fun member => ?_, fun depth rest => ?_⟩
  · exact absurd (isPrintable_of_mem_writeQuoted member) (by decide)
  · have apart : ('\n' :: rest).head? ≠ some '"' := by simp
    have read := readQuoted_writeQuoted content.toList apart
    have plain : ∀ char ∈ (writeQuoted content.toList ++ '\n' :: rest).head?,
        char ≠ '[' ∧ char ≠ '{' := by
      intro char begins
      obtain rfl : '"' = char := Option.some.inj begins
      decide
    rw [Scalar.write, readValue_of_plain plain, readScalar, read]
    simp only [Option.map_some, String.ofList_toList]

end VectorSearch.Toml
