import Mathlib
import VectorSearch.Toml.Quoted
/-!
Texts in double quotes. Whatever its characters, a text is read back from its quotes, and what is
written in them holds no control characters.
-/

namespace VectorSearch.Toml

/-! Characters. -/

theorem isPrintable_iff (char : Char) : isPrintable char = true ↔
    char.toNat = 9 ∨ 32 ≤ char.toNat ∧ char.toNat ≠ 127 := by
  have tab : char = '\t' ↔ char.toNat = 9 := Char.toNat_inj.symm
  have delete : char = '\x7f' ↔ char.toNat = 127 := Char.toNat_inj.symm
  have blank : ' ' ≤ char ↔ 32 ≤ char.toNat := Iff.rfl
  rw [isPrintable, Bool.or_eq_true, Bool.and_eq_true, decide_eq_true_iff, decide_eq_true_iff,
    decide_eq_true_iff, tab, blank, Ne, delete]

theorem hexValue?_digitChar {digit : Nat} (small : digit < 16) :
    hexValue? (Nat.digitChar digit) = some digit := by
  interval_cases digit <;> rfl

theorem char?_toNat (char : Char) : char? char.toNat = some char := by
  have valid : char.toNat.isValidChar := char.valid
  rw [char?, if_pos valid, Char.ofNat_toNat]

theorem toNat_lt_of_control {char : Char} (control : isPrintable char = false) :
    char.toNat < 128 := by
  by_contra high
  have printable := (isPrintable_iff char).mpr (by omega)
  rw [control] at printable
  exact Bool.noConfusion printable

theorem doubleQuotedFrom_number {char : Char} (control : isPrintable char = false)
    (rest : List Char) :
    doubleQuotedFrom false .escape ('u' :: '0' :: '0' :: Nat.digitChar (char.toNat / 16) ::
        Nat.digitChar (char.toNat % 16) :: rest) =
      withChar char (doubleQuotedFrom false (.plain false) rest) := by
  have low := toNat_lt_of_control control
  have zero : hexValue? '0' = some 0 := rfl
  have high := hexValue?_digitChar (show char.toNat / 16 < 16 by omega)
  have last := hexValue?_digitChar (show char.toNat % 16 < 16 by omega)
  simp [doubleQuotedFrom, zero, high, last, char?_toNat, Nat.div_add_mod]

theorem doubleQuotedFrom_writeChar (char : Char) (rest : List Char) :
    doubleQuotedFrom false (.plain false) (writeChar char ++ rest) =
      withChar char (doubleQuotedFrom false (.plain false) rest) := by
  unfold writeChar
  split
  · rename_i special
    rcases special with rfl | rfl <;> simp [doubleQuotedFrom, escaped?]
  · rename_i plain
    split
    · rename_i printable
      simp [doubleQuotedFrom, printable, not_or.mp plain]
    · rename_i control
      have read := doubleQuotedFrom_number (Bool.eq_false_iff.mpr control) rest
      simp [doubleQuotedFrom] at read ⊢
      exact read

theorem doubleQuotedFrom_flatMap (content rest : List Char) :
    doubleQuotedFrom false (.plain false) (content.flatMap writeChar ++ '"' :: rest) =
      some (content, rest) := by
  induction content with
  | nil => simp [doubleQuotedFrom]
  | cons first content ih =>
      rw [List.flatMap_cons, List.append_assoc, doubleQuotedFrom_writeChar, ih]
      rfl

theorem head?_writeChar (char : Char) :
    (writeChar char).head? ≠ some '"' ∧ writeChar char ≠ [] := by
  unfold writeChar
  split
  · simp
  · split
    · simp_all
    · simp

theorem readQuoted_writeQuoted (content : List Char) {rest : List Char}
    (apart : rest.head? ≠ some '"') :
    readQuoted (writeQuoted content ++ rest) = some (content, rest) := by
  have text : writeQuoted content ++ rest =
      '"' :: (content.flatMap writeChar ++ '"' :: rest) := by
    simp [writeQuoted]
  rw [text]
  unfold readQuoted
  split
  · rename_i after same
    have quotes := (List.cons.inj same).2
    cases content with
    | nil =>
        obtain rfl := (List.cons.inj quotes).2
        exact absurd rfl apart
    | cons first content =>
        obtain ⟨noQuote, occupied⟩ := head?_writeChar first
        have begins := congrArg List.head? quotes
        rw [List.flatMap_cons, List.append_assoc, List.head?_append_of_ne_nil _ occupied] at begins
        exact absurd begins noQuote
  · rename_i same
    exact absurd (List.cons.inj same).1 (by decide)
  · exact doubleQuotedFrom_flatMap content rest

/-! Control characters. -/

theorem isPrintable_digitChar {digit : Nat} (small : digit < 16) :
    isPrintable (Nat.digitChar digit) = true := by
  interval_cases digit <;> rfl

theorem isPrintable_of_mem_writeChar {char other : Char} (member : other ∈ writeChar char) :
    isPrintable other = true := by
  unfold writeChar at member
  split at member
  · rename_i special
    rcases List.mem_cons.mp member with rfl | itself
    · rfl
    · rw [List.mem_singleton.mp itself]
      rcases special with rfl | rfl <;> rfl
  · split at member
    · rename_i printable
      rwa [List.mem_singleton.mp member]
    · rename_i control
      have low := toNat_lt_of_control (Bool.eq_false_iff.mpr control)
      simp only [List.mem_cons, List.not_mem_nil, or_false] at member
      rcases member with rfl | rfl | rfl | rfl | rfl | rfl
      · rfl
      · rfl
      · rfl
      · rfl
      · exact isPrintable_digitChar (by omega)
      · exact isPrintable_digitChar (by omega)

theorem isPrintable_of_mem_writeQuoted {content : List Char} {char : Char}
    (member : char ∈ writeQuoted content) : isPrintable char = true := by
  rcases List.mem_cons.mp member with rfl | inside
  · rfl
  · rcases List.mem_append.mp inside with written | closing
    · obtain ⟨other, _, inChar⟩ := List.mem_flatMap.mp written
      exact isPrintable_of_mem_writeChar inChar
    · rw [List.mem_singleton.mp closing]
      rfl

end VectorSearch.Toml
