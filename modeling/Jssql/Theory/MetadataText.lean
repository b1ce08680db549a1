import Jssql.Foundation.Separated
import Jssql.Theory.TableSchema

/-!
The metadata text of a table. The lines end with newlines and the modifiers stand
between commas, neither of which is escaped, so what the grammar lets into a
default literal decides whether the text can be read back.
-/
namespace Jssql.FileHandler
open Foundation

/-! What the grammar accepts -/

/-- A letter or the underscore. -/
def isIdentStart (c : UInt8) : Bool := (65 ≤ c && c ≤ 90) || (97 ≤ c && c ≤ 122) || c == 95

inductive Identifier : Bytes → Prop where
  | mk (c : UInt8) (rest : Bytes) (start : isIdentStart c = true)
      (chars : ∀ d ∈ rest, isIdentStart d = true ∨ isDigit d = true) : Identifier (c :: rest)

/-- The text of a literal; a string may have anything between its quotes. -/
inductive LiteralText : Bytes → Prop where
  | empty : LiteralText []
  | number (text : Bytes) (chars : ∀ c ∈ text, c ∈ ascii "+-.e0123456789") : LiteralText text
  | string (body : Bytes) : LiteralText (singleQuote :: body ++ [singleQuote])
  | nullVal : LiteralText (ascii "NULL")
  | trueVal : LiteralText (ascii "TRUE")
  | falseVal : LiteralText (ascii "FALSE")

inductive ColModifier : Bytes → Prop where
  | primaryKey : ColModifier (ascii "PRIMARY KEY")
  | notNull : ColModifier (ascii "NOT NULL")
  | unique : ColModifier (ascii "UNIQUE")
  | default (text : Bytes) (literal : LiteralText text) : ColModifier (ascii "DEFAULT " ++ text)

/-- A column definition as the parser builds it. -/
structure UntypedColDef (col : UntypedColumnDefNode) : Prop where
  name : Identifier col.name
  modifiers : ∀ m ∈ col.modifiers, ColModifier m

theorem isSpace_of_ident {c : UInt8} (h : isIdentStart c = true ∨ isDigit c = true) :
    isSpace c = false := by
  simp only [isIdentStart, isDigit, isSpace, Bool.or_eq_true, Bool.and_eq_true, decide_eq_true_eq,
    beq_iff_eq, UInt8.le_iff_toNat_le, Bool.or_eq_false_iff, Bool.and_eq_false_iff,
    decide_eq_false_iff_not, beq_eq_false_iff_ne, ne_eq, ← UInt8.toNat_inj] at h ⊢
  simp only [UInt8.toNat_ofNat] at h ⊢
  omega

theorem Identifier.of_letters {name : Bytes}
    (letters : (!name.isEmpty && name.all isIdentStart) = true) : Identifier name := by
  cases name with
  | nil => cases letters
  | cons c rest =>
      rw [List.isEmpty_cons, Bool.not_false, Bool.true_and, List.all_eq_true, List.forall_mem_cons]
        at letters
      exact .mk c rest letters.1 fun d hd => .inl (letters.2 d hd)

theorem Identifier.not_space {name : Bytes} (h : Identifier name) : ∀ c ∈ name, isSpace c = false := by
  cases h with
  | mk c rest start chars =>
      rw [List.forall_mem_cons]
      exact ⟨isSpace_of_ident (.inl start), fun d hd => isSpace_of_ident (chars d hd)⟩

theorem Identifier.exists_cons {name : Bytes} (h : Identifier name) : ∃ c rest, name = c :: rest := by
  cases h with
  | mk c rest => exact ⟨c, rest, rfl⟩

theorem Identifier.newline_notMem {name : Bytes} (h : Identifier name) : newline ∉ name :=
  fun mem => absurd (h.not_space _ mem) (by decide)

/-- The text begins and ends with something else than a comma. -/
def UncutEnds (m : Bytes) : Prop :=
  ∃ first last, m.head? = some first ∧ first ≠ comma ∧ m.getLast? = some last ∧ last ≠ comma

theorem UncutEnds.keptParts_ne_nil {m : Bytes} (h : UncutEnds m) : keptParts comma m ≠ [] := by
  obtain ⟨first, _, head, other, _, _⟩ := h
  exact Foundation.keptParts_ne_nil ⟨first, List.mem_of_mem_head? head, other⟩

theorem UncutEnds.length_keptParts {m : Bytes} (h : UncutEnds m) :
    (keptParts comma m).length = 1 ↔ comma ∉ m := by
  obtain ⟨_, _, head, first, tail, last⟩ := h
  exact length_keptParts_eq_one head first tail last

theorem UncutEnds.space {m : Bytes} (h : UncutEnds m) : UncutEnds (ascii " " ++ m) := by
  obtain ⟨first, last, head, _, tail, other⟩ := h
  refine ⟨_, last, rfl, by decide, ?_, other⟩
  rw [List.getLast?_append, tail]
  rfl

theorem ColModifier.uncutEnds {m : Bytes} (h : ColModifier m) : UncutEnds m := by
  cases h with
  | primaryKey => exact ⟨_, _, rfl, by decide, rfl, by decide⟩
  | notNull => exact ⟨_, _, rfl, by decide, rfl, by decide⟩
  | unique => exact ⟨_, _, rfl, by decide, rfl, by decide⟩
  | default text literal =>
      cases literal with
      | empty => exact ⟨_, _, rfl, by decide, rfl, by decide⟩
      | nullVal => exact ⟨_, _, rfl, by decide, rfl, by decide⟩
      | trueVal => exact ⟨_, _, rfl, by decide, rfl, by decide⟩
      | falseVal => exact ⟨_, _, rfl, by decide, rfl, by decide⟩
      | string body =>
          refine ⟨_, singleQuote, rfl, by decide, ?_, by decide⟩
          rw [← List.append_assoc, List.getLast?_append_of_ne_nil _ (by simp)]
          rfl
      | number text chars =>
          cases text using List.reverseRecOn with
          | nil => exact ⟨_, _, rfl, by decide, rfl, by decide⟩
          | append_singleton rest c _ =>
              refine ⟨_, c, rfl, by decide, ?_, ?_⟩
              · rw [← List.append_assoc, List.getLast?_append_of_ne_nil _ (by simp)]
                rfl
              · rintro rfl
                exact absurd (chars comma (by simp)) (by decide)

/-! The text -/

/-- A line of the text without its newline. -/
def lineText (col : UntypedColumnDefNode) : Bytes :=
  col.name ++ (if col.modifiers.isEmpty then [] else ascii " ") ++ [comma].intercalate col.modifiers

/-- The modifiers with the blank that separates them from the name. -/
def spaced : List Bytes → List Bytes
  | [] => []
  | m :: ms => (ascii " " ++ m) :: ms

theorem lineText_eq (col : UntypedColumnDefNode) :
    lineText col = col.name ++ [comma].intercalate (spaced col.modifiers) := by
  cases h : col.modifiers with
  | nil => simp [lineText, h, spaced]
  | cons m ms =>
      cases ms with
      | nil => simp [lineText, h, spaced]
      | cons m' ms' => simp [lineText, h, spaced, List.intercalate]

theorem getlines_metadataText (cols : Schema) :
    getlines (metadataText cols) = cols.flatMap fun col => (lineText col).splitOn newline := by
  have lines : metadataText cols = (cols.map lineText).flatMap fun line => line ++ [newline] := by
    rw [metadataText, List.flatMap_map]
    rfl
  rw [getlines, lines, splitOn_terminated]
  rw [if_pos (by simp), List.dropLast_concat, List.flatMap_map]

/-- A line that is read whole gives the name, and the modifiers cut at commas. -/
theorem parseMetadataLine_lineText {col : UntypedColumnDefNode} (ident : Identifier col.name) :
    parseMetadataLine (lineText col) =
      ⟨col.name, (spaced col.modifiers).flatMap (keptParts comma)⟩ := by
  have solid : ∀ c ∈ col.name, (!isSpace c) = true := fun c hc => by rw [ident.not_space c hc]; rfl
  have start : (lineText col).dropWhile isSpace = lineText col := by
    obtain ⟨c, rest, named⟩ := ident.exists_cons
    have first := solid c (by rw [named]; simp)
    rw [lineText, named, List.cons_append, List.cons_append, List.dropWhile_cons_of_neg (by simpa using first)]
  have behind : ([comma].intercalate (spaced col.modifiers)).takeWhile (fun c => !isSpace c) = [] := by
    cases col.modifiers with
    | nil => rfl
    | cons m ms => cases ms <;> rfl
  have cut : (lineText col).span (fun c => !isSpace c) =
      (col.name, [comma].intercalate (spaced col.modifiers)) := by
    rw [lineText_eq, List.span_eq_takeWhile_dropWhile, List.takeWhile_append_of_pos solid,
      List.dropWhile_append_of_pos solid, behind, List.append_nil]
    have whole := List.takeWhile_append_dropWhile (p := fun c => !isSpace c)
      (l := [comma].intercalate (spaced col.modifiers))
    rw [behind, List.nil_append] at whole
    rw [whole]
  rw [parseMetadataLine, start, cut, ← keptParts_joined]
  rfl

/-! Reading the text back -/

/-- The same column up to blanks around its modifiers. -/
def SameColumn (col col' : UntypedColumnDefNode) : Prop :=
  col'.name = col.name ∧ List.Forall₂ (fun m m' => trim m' = trim m) col.modifiers col'.modifiers

/-- No modifier of the column has a comma or a newline. -/
def PlainModifiers (col : UntypedColumnDefNode) : Prop :=
  ∀ m ∈ col.modifiers, comma ∉ m ∧ newline ∉ m

theorem newline_lineText {col : UntypedColumnDefNode} (ident : Identifier col.name) :
    newline ∉ lineText col ↔ ∀ m ∈ col.modifiers, newline ∉ m := by
  have name := ident.newline_notMem
  constructor
  · intro none_ m hm mem
    exact none_ (List.mem_append_right _ (mem_joined hm mem))
  · intro none_ mem
    rw [lineText, List.mem_append, List.mem_append] at mem
    rcases mem with (mem | mem) | mem
    · exact name mem
    · split at mem
      · cases mem
      · exact absurd mem (by decide)
    · rcases mem_of_mem_joined mem with same | ⟨m, hm, there⟩
      · exact absurd same (by decide)
      · exact none_ m hm there

theorem length_spaced (ms : List Bytes) : (spaced ms).length = ms.length := by
  cases ms <;> rfl

theorem keptParts_spaced {ms : List Bytes} (grammar : ∀ m ∈ ms, ColModifier m) :
    ((spaced ms).flatMap (keptParts comma)).length = ms.length ↔ ∀ m ∈ ms, comma ∉ m := by
  have ends : ∀ m ∈ spaced ms, UncutEnds m := by
    cases ms with
    | nil => simp [spaced]
    | cons m ms =>
        rw [List.forall_mem_cons] at grammar
        rw [spaced, List.forall_mem_cons]
        exact ⟨grammar.1.uncutEnds.space, fun m' hm => (grammar.2 m' hm).uncutEnds⟩
  have count := length_flatMap_eq_iff _ fun m hm => (ends m hm).keptParts_ne_nil
  rw [length_spaced] at count
  rw [count]
  have plain : (∀ m ∈ spaced ms, (keptParts comma m).length = 1) ↔ ∀ m ∈ spaced ms, comma ∉ m :=
    forall₂_congr fun m hm => (ends m hm).length_keptParts
  rw [plain]
  cases ms with
  | nil => rfl
  | cons m ms =>
      have blank : comma ∉ ascii " " := by decide
      simp only [spaced, List.forall_mem_cons, List.mem_append, blank, false_or]

theorem trim_space (m : Bytes) : trim (ascii " " ++ m) = trim m := by
  rfl

/-- Plain modifiers are read back with the blank behind the name. -/
theorem flatMap_keptParts_spaced {ms : List Bytes} (full : ∀ m ∈ ms, m ≠ []) (plain : ∀ m ∈ ms, comma ∉ m) :
    (spaced ms).flatMap (keptParts comma) = spaced ms := by
  have one (m : Bytes) (full : m ≠ []) (plain : comma ∉ m) : keptParts comma m = [m] := by
    rw [keptParts, List.splitOn_eq_singleton plain]
    simp [full]
  have all : ∀ m ∈ spaced ms, keptParts comma m = [m] := by
    cases ms with
    | nil => simp [spaced]
    | cons m ms =>
        rw [List.forall_mem_cons] at full plain
        rw [spaced, List.forall_mem_cons]
        refine ⟨one _ (by simp [ascii]) ?_, fun m' hm => one _ (full.2 m' hm) (plain.2 m' hm)⟩
        rw [List.mem_append, not_or]
        exact ⟨by decide, plain.1⟩
  rw [List.flatMap_congr all]
  simp

theorem parseMetadata_metadataText {cols : Schema} (names : ∀ col ∈ cols, Identifier col.name)
    (plain : ∀ col ∈ cols, ∀ m ∈ col.modifiers, newline ∉ m) :
    parseMetadata (metadataText cols) = cols.map fun col =>
      ⟨col.name, (spaced col.modifiers).flatMap (keptParts comma)⟩ := by
  have single : ∀ col ∈ cols, (lineText col).splitOn newline = [lineText col] := fun col hc =>
    List.splitOn_eq_singleton ((newline_lineText (names col hc)).mpr (plain col hc))
  rw [parseMetadata, getlines_metadataText, List.flatMap_congr single, ← List.map_eq_flatMap, List.map_map]
  exact List.map_congr_left fun col hc => parseMetadataLine_lineText (names col hc)

/-- Columns without commas and newlines are read back, up to blanks around their modifiers. -/
theorem sameColumn_of_plain {cols : Schema} (names : ∀ col ∈ cols, Identifier col.name)
    (full : ∀ col ∈ cols, ∀ m ∈ col.modifiers, m ≠ []) (plain : ∀ col ∈ cols, PlainModifiers col) :
    List.Forall₂ SameColumn cols (parseMetadata (metadataText cols)) := by
  rw [parseMetadata_metadataText names fun col hc m hm => (plain col hc m hm).2, List.forall₂_map_right_iff,
    List.forall₂_same]
  intro col hc
  refine ⟨rfl, ?_⟩
  dsimp only
  rw [flatMap_keptParts_spaced (full col hc) fun m hm => (plain col hc m hm).1]
  cases col.modifiers with
  | nil => exact .nil
  | cons m ms => exact .cons (trim_space m) (List.forall₂_same.mpr fun _ _ => rfl)

theorem ColModifier.ne_nil {m : Bytes} (h : ColModifier m) : m ≠ [] := by
  rintro rfl
  obtain ⟨_, _, ⟨⟩, _⟩ := h.uncutEnds

/-- A grammatical column list is read back, up to blanks around its modifiers, if and
only if no modifier has a comma or a newline. -/
theorem parseMetadata_metadataText_iff {cols : Schema} (grammar : ∀ col ∈ cols, UntypedColDef col) :
    List.Forall₂ SameColumn cols (parseMetadata (metadataText cols)) ↔
      ∀ col ∈ cols, PlainModifiers col := by
  have names : ∀ col ∈ cols, Identifier col.name := fun col hc => (grammar col hc).name
  have lines : (cols.flatMap fun col => (lineText col).splitOn newline).length = cols.length ↔
      ∀ col ∈ cols, ∀ m ∈ col.modifiers, newline ∉ m := by
    rw [length_flatMap_eq_iff _ fun col _ => List.splitOn_ne_nil _ _]
    exact forall₂_congr fun col hc => length_splitOn_eq_one.trans (newline_lineText (names col hc))
  constructor
  · intro same
    have noNewline := lines.mp (by
      have := same.length_eq
      rw [parseMetadata, List.length_map, getlines_metadataText] at this
      exact this.symm)
    rw [parseMetadata_metadataText names noNewline, List.forall₂_map_right_iff, List.forall₂_same] at same
    intro col hc m hm
    have commas := (keptParts_spaced (grammar col hc).modifiers).mp (same col hc).2.length_eq.symm
    exact ⟨commas m hm, noNewline col hc m hm⟩
  · exact sameColumn_of_plain names fun col hc m hm => ((grammar col hc).modifiers m hm).ne_nil

/-! What depends on the modifiers only up to blanks -/

theorem getModifiers_congr {ms ms' : List Bytes}
    (same : List.Forall₂ (fun m m' => trim m' = trim m) ms ms') :
    getModifiers ms' = getModifiers ms := by
  have from_ (answer : ColModifiers) : ms'.foldl readModifier answer = ms.foldl readModifier answer := by
    induction same generalizing answer with
    | nil => rfl
    | cons first _ ih =>
        rw [List.foldl_cons, List.foldl_cons, ih, readModifier, readModifier, first]
  exact from_ _

theorem getDefaultValue_congr {ms ms' : List Bytes}
    (same : List.Forall₂ (fun m m' => trim m' = trim m) ms ms') :
    getDefaultValue ms' = getDefaultValue ms := by
  induction same with
  | nil => rfl
  | cons first _ ih => rw [getDefaultValue, getDefaultValue, first, ih]

theorem extractPrimaryKeyColumn_congr {cols cols' : Schema} (same : List.Forall₂ SameColumn cols cols') :
    extractPrimaryKeyColumn cols' = extractPrimaryKeyColumn cols := by
  induction same with
  | nil => rfl
  | cons first _ ih =>
      rw [extractPrimaryKeyColumn, extractPrimaryKeyColumn, isPrimaryKey, isPrimaryKey,
        getModifiers_congr first.2, first.1, ih]

theorem columnCodes_congr {cols cols' : Schema} (same : List.Forall₂ SameColumn cols cols') :
    columnCodes cols' = columnCodes cols := by
  have from_ (code : Nat) (codes : Map Bytes UInt8) :
      columnCodesFrom code cols' codes = columnCodesFrom code cols codes := by
    induction same generalizing code codes with
    | nil => rfl
    | cons first _ ih => rw [columnCodesFrom, columnCodesFrom, first.1, ih]
  exact from_ 0 ∅

theorem columnNames_congr {cols cols' : Schema} (same : List.Forall₂ SameColumn cols cols') :
    columnNames cols' = columnNames cols := by
  induction same with
  | nil => rfl
  | cons first _ ih => rw [columnNames, columnNames, List.map_cons, List.map_cons, first.1, ← columnNames, ih, columnNames]

theorem isPrimaryKey_congr {col col' : UntypedColumnDefNode} (same : SameColumn col col') :
    isPrimaryKey col' = isPrimaryKey col := by
  rw [isPrimaryKey, isPrimaryKey, getModifiers_congr same.2]

theorem findIdx_isPrimaryKey_congr {cols cols' : Schema} (same : List.Forall₂ SameColumn cols cols') :
    cols'.findIdx isPrimaryKey = cols.findIdx isPrimaryKey := by
  induction same with
  | nil => rfl
  | cons first _ ih => rw [List.findIdx_cons, List.findIdx_cons, isPrimaryKey_congr first, ih]

end Jssql.FileHandler
