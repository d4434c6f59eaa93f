import VectorSearch.Proofs.Toml.Scalar
/-!
Written blocks are read back as the sections that they stand for, one line at a time.
-/

namespace VectorSearch.Toml

/-! Names. -/

structure Bare (name : String) : Prop where
  all : ∀ char ∈ name.toList, isKeyChar char = true
  occupied : name.toList ≠ []

theorem bare_iff {name : String} :
    Bare name ↔ name.toList.all isKeyChar = true ∧ name.toList ≠ [] := by
  rw [List.all_eq_true]
  exact ⟨fun bare => ⟨bare.all, bare.occupied⟩, fun ⟨all, occupied⟩ => ⟨all, occupied⟩⟩

instance (name : String) : Decidable (Bare name) := decidable_of_iff _ bare_iff.symm

theorem Bare.exists_head {name : String} (bare : Bare name) :
    ∃ first rest, name.toList = first :: rest ∧ isKeyChar first = true := by
  obtain ⟨first, rest, written⟩ := List.exists_cons_of_ne_nil bare.occupied
  exact ⟨first, rest, written, bare.all first (by rw [written]; exact List.mem_cons_self)⟩

theorem ne_of_isKeyChar {char odd : Char} (inKey : isKeyChar char = true)
    (notInKey : isKeyChar odd = false) : char ≠ odd := fun same =>
  Bool.noConfusion (inKey.symm.trans (same ▸ notInKey))

theorem isBlank_of_isKeyChar {char : Char} (inKey : isKeyChar char = true) :
    isBlank char = false := by
  rw [← Bool.not_eq_true, isBlank, Bool.or_eq_true, decide_eq_true_iff, decide_eq_true_iff]
  rintro (rfl | rfl) <;> exact absurd inKey (by decide)

theorem Bare.skipBlanks_eq {name : String} (bare : Bare name) (rest : List Char) :
    skipBlanks (name.toList ++ rest) = name.toList ++ rest := by
  obtain ⟨first, others, written, inKey⟩ := bare.exists_head
  rw [written, List.cons_append, skipBlanks, List.dropWhile_cons_of_neg]
  rw [isBlank_of_isKeyChar inKey]
  exact Bool.false_ne_true

theorem Bare.readKey_eq {name : String} (bare : Bare name) {rest : List Char}
    (ends : ∀ char ∈ rest.head?, isKeyChar char = false) :
    readKey (name.toList ++ rest) = some (name, rest) := by
  have noMore : rest.takeWhile isKeyChar = [] ∧ rest.dropWhile isKeyChar = rest := by
    cases rest with
    | nil => exact ⟨rfl, rfl⟩
    | cons first rest =>
        have stop := Bool.eq_false_iff.mp (ends first rfl)
        exact ⟨List.takeWhile_cons_of_neg stop, List.dropWhile_cons_of_neg stop⟩
  rw [readKey, List.takeWhile_append_of_pos bare.all, List.dropWhile_append_of_pos bare.all,
    noMore.1, noMore.2, List.append_nil]
  split
  · rename_i none
    exact absurd none bare.occupied
  · rw [String.ofList_toList]

/-! Paths. -/

def writeTables (tables : List String) : List Char :=
  tables.flatMap fun table => table.toList ++ ['.']

theorem readKeys_eq {key : String} (bare : Bare key) {rest : List Char}
    (ends : ∀ char ∈ rest.head?, isKeyChar char = false)
    (last : (skipBlanks rest).head? ≠ some '.') (tables : List String) :
    ∀ limit, tables.length < limit → (∀ table ∈ tables, Bare table) →
      readKeys limit (writeTables tables ++ key.toList ++ rest) =
        some (tables ++ [key], skipBlanks rest) := by
  induction tables with
  | nil =>
      intro limit enough _
      obtain ⟨limit, rfl⟩ : ∃ left, limit = left + 1 := ⟨limit - 1, by simp at enough; omega⟩
      simp only [writeTables, List.flatMap_nil, List.nil_append, readKeys, bare.skipBlanks_eq,
        bare.readKey_eq ends, Option.bind_eq_bind, Option.bind_some]
      split
      · rename_i point
        exact absurd (congrArg List.head? point) last
      · rfl
  | cons table tables ih =>
      intro limit enough bares
      obtain ⟨limit, rfl⟩ : ∃ left, limit = left + 1 := ⟨limit - 1, by simp at enough; omega⟩
      have tableBare := bares table List.mem_cons_self
      have others := ih limit (by simpa using enough) fun other member =>
        bares other (List.mem_cons_of_mem _ member)
      have written : writeTables (table :: tables) ++ key.toList ++ rest =
          table.toList ++ '.' :: (writeTables tables ++ key.toList ++ rest) := by
        simp [writeTables]
      have point (after : List Char) : skipBlanks ('.' :: after) = '.' :: after :=
        List.dropWhile_cons_of_neg (by decide)
      rw [written, readKeys, tableBare.skipBlanks_eq,
        tableBare.readKey_eq (by rintro _ ⟨⟩; decide)]
      simp only [Option.bind_eq_bind, Option.bind_some, point, others]
      rfl

structure Path.Bare (path : Path) : Prop where
  tables : ∀ table ∈ path.tables, Toml.Bare table
  key : Toml.Bare path.key
  short : path.tables.length < depthLimit

instance (path : Path) : Decidable path.Bare :=
  decidable_of_iff ((∀ table ∈ path.tables, Toml.Bare table) ∧ Toml.Bare path.key ∧
      path.tables.length < depthLimit)
    ⟨fun ⟨tables, key, short⟩ => ⟨tables, key, short⟩,
      fun bare => ⟨bare.tables, bare.key, bare.short⟩⟩

theorem Path.Bare.readPath_eq {path : Path} (bare : path.Bare) {rest : List Char}
    (ends : ∀ char ∈ rest.head?, isKeyChar char = false)
    (last : (skipBlanks rest).head? ≠ some '.') :
    readPath (writeTables path.tables ++ path.key.toList ++ rest) =
      some (path, skipBlanks rest) := by
  rw [readPath, readKeys_eq bare.key ends last path.tables depthLimit bare.short bare.tables]
  simp

/-! Lines. -/

theorem skipLineEnd?_break (rest : List Char) : skipLineEnd? ('\n' :: rest) = some rest := rfl

theorem readFrom_break (left : Nat) (part : Section) (rest : List Char) :
    Section.readFrom (left + 1) part ('\n' :: rest) = Section.readFrom left part rest := rfl

theorem Bare.append_ne {name : String} (bare : Bare name) {odd : Char}
    (notInKey : isKeyChar odd = false) (front rest : List Char) :
    name.toList ++ front ≠ odd :: rest := by
  obtain ⟨first, others, spelled, inKey⟩ := bare.exists_head
  rw [spelled, List.cons_append]
  exact fun same => ne_of_isKeyChar inKey notInKey (List.cons.inj same).1

theorem Scalar.Readable.skipBlanks_eq {scalar : Scalar} (readable : scalar.Readable)
    (rest : List Char) :
    skipBlanks (' ' :: (scalar.write ++ rest)) = scalar.write ++ rest := by
  obtain ⟨first, others, written, notBlank⟩ := readable.begins
  rw [skipBlanks, List.dropWhile_cons_of_pos rfl, written, List.cons_append,
    List.dropWhile_cons_of_neg (Bool.eq_false_iff.mp notBlank)]

theorem readAssignment_entry {key : String} (bare : Bare key) {scalar : Scalar}
    (readable : scalar.Readable) (rest : List Char) :
    readAssignment (readValue depthLimit)
      (key.toList ++ (' ' :: '=' :: ' ' :: (scalar.write ++ '\n' :: rest))) =
        some ((⟨[], key⟩, .scalar scalar), '\n' :: rest) := by
  have path : Path.Bare ⟨[], key⟩ :=
    ⟨fun _ none => absurd none List.not_mem_nil, bare, Nat.zero_lt_succ _⟩
  have equals : skipBlanks (' ' :: '=' :: ' ' :: (scalar.write ++ '\n' :: rest)) =
      '=' :: ' ' :: (scalar.write ++ '\n' :: rest) := rfl
  have read := @Path.Bare.readPath_eq ⟨[], key⟩ path
    (' ' :: '=' :: ' ' :: (scalar.write ++ '\n' :: rest)) (by rintro _ ⟨⟩; decide)
    (by simp [equals])
  rw [equals] at read
  have named : readPath (key.toList ++ (' ' :: '=' :: ' ' :: (scalar.write ++ '\n' :: rest))) =
      some (⟨[], key⟩, '=' :: ' ' :: (scalar.write ++ '\n' :: rest)) := read
  simp only [readAssignment, named, Option.bind_eq_bind, Option.bind_some,
    readable.skipBlanks_eq, readable.read depthLimit rest, Option.pure_def]

theorem readFrom_entry {key : String} (bare : Bare key) {scalar : Scalar}
    (readable : scalar.Readable) (left : Nat) (part : Section) (rest : List Char) :
    Section.readFrom (left + 1) part (Block.writeEntry (key, scalar) ++ rest) =
      Section.readFrom left (part.push (⟨[], key⟩, .scalar scalar)) rest := by
  have written : Block.writeEntry (key, scalar) ++ rest =
      key.toList ++ (' ' :: '=' :: ' ' :: (scalar.write ++ '\n' :: rest)) := by
    simp [Block.writeEntry]
  have assigned := readAssignment_entry bare readable rest
  rw [written, Section.readFrom, bare.skipBlanks_eq]
  split
  · rename_i none
    exact absurd (List.append_eq_nil_iff.mp none).1 bare.occupied
  · rename_i same
    exact absurd same (bare.append_ne (by decide) _ _)
  · rename_i same
    exact absurd same (bare.append_ne (by decide) _ _)
  · rename_i same
    exact absurd same (bare.append_ne (by decide) _ _)
  · simp only [assigned, Option.bind_eq_bind, Option.bind_some, skipLineEnd?_break]

theorem Path.Bare.append_ne {path : Path} (bare : path.Bare) {odd : Char}
    (notInKey : isKeyChar odd = false) (front rest : List Char) :
    writeTables path.tables ++ path.key.toList ++ front ≠ odd :: rest := by
  obtain ⟨tables, key⟩ := path
  cases tables with
  | nil => exact bare.key.append_ne notInKey front rest
  | cons table tables =>
      rw [writeTables, List.flatMap_cons, List.append_assoc, List.append_assoc, List.append_assoc]
      exact (bare.tables table List.mem_cons_self).append_ne notInKey _ _

theorem readFrom_header {path : Path} (bare : path.Bare) (left : Nat) (part : Section)
    (rest : List Char) :
    Section.readFrom (left + 1) part (Block.writeHeader path ++ rest) =
      (Section.readFrom left (Section.empty (.table path)) rest).map (part :: ·) := by
  have written : Block.writeHeader path ++ rest =
      '[' :: (writeTables path.tables ++ path.key.toList ++ (']' :: '\n' :: rest)) := by
    simp [Block.writeHeader, writeTables]
  have close : skipBlanks (']' :: '\n' :: rest) = ']' :: '\n' :: rest := rfl
  have read := @Path.Bare.readPath_eq path bare (']' :: '\n' :: rest)
    (by rintro _ ⟨⟩; decide) (by simp [close])
  rw [close] at read
  have header : Section.readHeader
      (writeTables path.tables ++ path.key.toList ++ (']' :: '\n' :: rest)) =
        some (.table path, '\n' :: rest) := by
    unfold Section.readHeader
    split
    · rename_i same
      exact absurd same (bare.append_ne (by decide) _ _)
    · simp only [read, Option.bind_eq_bind, Option.bind_some, Option.pure_def]
  have bracket (after : List Char) : skipBlanks ('[' :: after) = '[' :: after := rfl
  rw [written, Section.readFrom, bracket]
  simp only [header, Option.bind_eq_bind, Option.bind_some, skipLineEnd?_break]
  cases Section.readFrom left (Section.empty (.table path)) rest <;> rfl

/-! Blocks. -/

structure Block.Readable (block : Block) : Prop where
  path : block.path.Bare
  keys : ∀ entry ∈ block.entries, Bare entry.1
  scalars : ∀ entry ∈ block.entries, entry.2.Readable

def Block.sectionEntries (entries : List (String × Scalar)) : List (Path × Value) :=
  entries.map fun (key, scalar) => (⟨[], key⟩, .scalar scalar)

theorem readFrom_entries {entries : List (String × Scalar)} (keys : ∀ entry ∈ entries, Bare entry.1)
    (scalars : ∀ entry ∈ entries, entry.2.Readable) (rest : List Char) :
    ∀ (left : Nat) (part : Section),
      (entries.flatMap Block.writeEntry ++ rest).length < left → ∃ later, rest.length < later ∧
        Section.readFrom left part (entries.flatMap Block.writeEntry ++ rest) =
          Section.readFrom later
            { part with entries := part.entries ++ Block.sectionEntries entries } rest := by
  induction entries with
  | nil =>
      intro left part enough
      exact ⟨left, enough, by simp [Block.sectionEntries]⟩
  | cons entry entries ih =>
      intro left part enough
      obtain ⟨key, scalar⟩ := entry
      obtain ⟨left, rfl⟩ : ∃ fewer, left = fewer + 1 := ⟨left - 1, by omega⟩
      have line : 0 < (Block.writeEntry (key, scalar)).length := by simp [Block.writeEntry]
      rw [List.flatMap_cons, List.append_assoc] at enough ⊢
      rw [readFrom_entry (keys _ List.mem_cons_self) (scalars _ List.mem_cons_self)]
      rw [List.length_append] at enough
      obtain ⟨later, steps, read⟩ :=
        ih (fun entry member => keys entry (List.mem_cons_of_mem _ member))
          (fun entry member => scalars entry (List.mem_cons_of_mem _ member)) left
          (part.push (⟨[], key⟩, .scalar scalar)) (by omega)
      refine ⟨later, steps, read.trans ?_⟩
      simp [Section.push, Block.sectionEntries]

theorem readFrom_block {block : Block} (readable : block.Readable) (rest : List Char)
    (left : Nat) (part : Section) (enough : (block.write ++ rest).length < left) :
    ∃ later, rest.length < later ∧ Section.readFrom left part (block.write ++ rest) =
      (Section.readFrom later block.toSection rest).map (part :: ·) := by
  obtain ⟨left, rfl⟩ : ∃ fewer, left = fewer + 1 := ⟨left - 1, by omega⟩
  have line : 0 < (Block.writeHeader block.path).length := by simp [Block.writeHeader]
  rw [Block.write, List.append_assoc] at enough ⊢
  rw [List.length_append] at enough
  rw [readFrom_header readable.path]
  obtain ⟨later, steps, read⟩ := readFrom_entries readable.keys readable.scalars rest left
    (Section.empty (.table block.path)) (by omega)
  exact ⟨later, steps, by rw [read]; rfl⟩

theorem readFrom_nil {left : Nat} (some : 0 < left) (part : Section) :
    Section.readFrom left part [] = .some [part] := by
  obtain ⟨left, rfl⟩ : ∃ fewer, left = fewer + 1 := ⟨left - 1, by omega⟩
  rfl

theorem readFrom_writeAll {blocks : List Block} (readable : ∀ block ∈ blocks, block.Readable) :
    ∀ (left : Nat) (part : Section), (Block.writeAll blocks).length < left →
      Section.readFrom left part (Block.writeAll blocks) =
        some (part :: blocks.map Block.toSection) := by
  induction blocks with
  | nil => exact fun left part enough => readFrom_nil enough part
  | cons block blocks ih =>
      intro left part enough
      have first := readable block List.mem_cons_self
      cases blocks with
      | nil =>
          have written : Block.writeAll [block] = block.write ++ [] := (List.append_nil _).symm
          rw [written] at enough ⊢
          obtain ⟨later, steps, read⟩ := readFrom_block first [] left part enough
          rw [read, readFrom_nil steps]
          rfl
      | cons next blocks =>
          have written : Block.writeAll (block :: next :: blocks) =
              block.write ++ '\n' :: Block.writeAll (next :: blocks) := rfl
          rw [written] at enough ⊢
          obtain ⟨later, steps, read⟩ := readFrom_block first _ left part enough
          obtain ⟨later, rfl⟩ : ∃ fewer, later = fewer + 1 := ⟨later - 1, by omega⟩
          rw [read, readFrom_break, ih (fun other member => readable other
            (List.mem_cons_of_mem _ member)) later block.toSection (by simpa using steps)]
          rfl

/-! Whole texts. -/

theorem unifyBreaks_eq {chars : List Char} (noReturn : '\r' ∉ chars) :
    unifyBreaks chars = chars := by
  induction chars with
  | nil => rfl
  | cons first rest ih =>
      obtain ⟨apart, later⟩ := List.ne_and_not_mem_of_not_mem_cons noReturn
      unfold unifyBreaks
      split
      · rename_i same
        exact absurd (List.cons.inj same).1.symm apart
      · rename_i same
        obtain ⟨rfl, rfl⟩ := List.cons.inj same
        rw [ih later]
      · rename_i same
        exact absurd same (List.cons_ne_nil _ _)

theorem Bare.noReturn {name : String} (bare : Bare name) : '\r' ∉ name.toList := fun member =>
  absurd (bare.all '\r' member) (by decide)

theorem Block.Readable.noReturn {block : Block} (readable : block.Readable) :
    '\r' ∉ block.write := by
  have path := readable.path
  have header : '\r' ∉ Block.writeHeader block.path := by
    have tables : '\r' ∉ writeTables block.path.tables := by
      intro member
      obtain ⟨table, tableIn, inTable⟩ := List.mem_flatMap.mp member
      rcases List.mem_append.mp inTable with inName | point
      · exact (path.tables table tableIn).noReturn inName
      · exact absurd (List.mem_singleton.mp point) (by decide)
    rw [writeTables] at tables
    simp [Block.writeHeader, tables, path.key.noReturn]
  have entries : '\r' ∉ block.entries.flatMap Block.writeEntry := by
    intro member
    obtain ⟨⟨key, scalar⟩, entryIn, inEntry⟩ := List.mem_flatMap.mp member
    have key := (readable.keys _ entryIn).noReturn
    have scalar := (readable.scalars _ entryIn).noReturn
    simp_all [Block.writeEntry]
  intro member
  exact (List.mem_append.mp member).elim header entries

theorem noReturn_writeAll {blocks : List Block} (readable : ∀ block ∈ blocks, block.Readable) :
    '\r' ∉ Block.writeAll blocks := by
  fun_induction Block.writeAll blocks with
  | case1 => exact List.not_mem_nil
  | case2 block => exact (readable block List.mem_cons_self).noReturn
  | case3 block blocks _ ih =>
      intro member
      rcases List.mem_append.mp member with first | later
      · exact (readable block List.mem_cons_self).noReturn first
      · refine ih (fun other otherIn => readable other (List.mem_cons_of_mem _ otherIn)) ?_
        exact List.mem_of_ne_of_mem (by decide) later

theorem head?_writeAll (blocks : List Block) :
    Block.writeAll blocks = [] ∨ (Block.writeAll blocks).head? = some '[' := by
  fun_cases Block.writeAll blocks with
  | case1 => exact Or.inl rfl
  | case2 => exact Or.inr rfl
  | case3 => exact Or.inr rfl

/-- Written blocks are read back as their sections, behind an empty one for the document itself. -/
theorem readAll_writeAll {blocks : List Block} (readable : ∀ block ∈ blocks, block.Readable) :
    Section.readAll (Block.writeAll blocks) =
      some (Section.empty .root :: blocks.map Block.toSection) := by
  unfold Section.readAll
  dsimp only
  split
  · rename_i mark
    rcases head?_writeAll blocks with none | bracket
    · rw [none] at mark
      exact absurd mark.symm (List.cons_ne_nil _ _)
    · rw [mark] at bracket
      exact absurd (Option.some.inj bracket) (by decide)
  · rw [unifyBreaks_eq (noReturn_writeAll readable)]
    exact readFrom_writeAll readable _ _ (Nat.lt_succ_self _)

end VectorSearch.Toml
