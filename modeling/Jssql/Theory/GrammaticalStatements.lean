import Jssql.Theory.Sentences
import Jssql.Theory.SpelledTokens

/-!
The statements that the grammar can build from the tokens of the lexer, told without tokens.
The texts of literals are a parameter.
-/
namespace Jssql.Parser
open Foundation Lexer Grammar

section Shapes

variable (texts : LiteralTexts)

inductive IsLiteral : LiteralNode → Prop
  | empty : IsLiteral ⟨.empty, []⟩
  | number {str : Bytes} (text : texts.number str) : IsLiteral ⟨.number, str⟩
  | string {str : Bytes} (text : texts.string str) : IsLiteral ⟨.string, str⟩
  | null : IsLiteral ⟨.nullVal, ascii "NULL"⟩
  | true : IsLiteral ⟨.trueVal, ascii "TRUE"⟩
  | false : IsLiteral ⟨.falseVal, ascii "FALSE"⟩

inductive IsModifier : Bytes → Prop
  | primaryKey : IsModifier (ascii "PRIMARY KEY")
  | notNull : IsModifier (ascii "NOT NULL")
  | unique : IsModifier (ascii "UNIQUE")
  | default {literal : LiteralNode} (value : IsLiteral texts literal) : IsModifier (ascii "DEFAULT " ++ literal.value)

def IsColumn (column : UntypedColumnDefNode) : Prop :=
  IsName column.name ∧ ∀ modifier ∈ column.modifiers, IsModifier texts modifier

def IsCondition (condition : ConditionNode) : Prop :=
  IsName condition.colName ∧ IsLiteral texts condition.literal ∧ condition.schemaIndex = 255

def IsWhere (optWhereNode : Option WhereNode) : Prop := ∀ node ∈ optWhereNode, IsCondition texts node.condition

def IsColumnList (columns : List Bytes) : Prop := columns ≠ [] ∧ ∀ name ∈ columns, IsName name

def IsRecord (record : ValueRecordNode) : Prop :=
  ∃ values : List LiteralNode, record = values.map some ∧ values ≠ [] ∧ ∀ literal ∈ values, IsLiteral texts literal

def IsAssignment (node : AssignmentNode) : Prop := IsName node.colName ∧ IsLiteral texts node.literal

def Grammatical : Statement → Prop
  | .create node => IsName node.tableName ∧ ∀ column ∈ node.columns, IsColumn texts column
  | .drop node => IsName node.tableName
  | .describe node => IsName node.tableName
  | .insert node => IsName node.tableName ∧ (∀ columns ∈ node.columns, IsColumnList columns) ∧
      (node.records ≠ [] ∧ ∀ record ∈ node.records, IsRecord texts record) ∧ node.projectionMask = []
  | .select node => IsName node.tableName ∧ (∀ columns ∈ node.columns, IsColumnList columns) ∧
      IsWhere texts node.optWhereNode ∧ node.projectionMask = []
  | .csvImport node => IsName node.tableName ∧ texts.string node.filePath
  | .delete node => IsName node.tableName ∧ IsWhere texts node.optWhereNode
  | .update node => IsName node.tableName ∧
      (node.assignments ≠ [] ∧ ∀ assignment ∈ node.assignments, IsAssignment texts assignment) ∧
      IsWhere texts node.optWhereNode ∧ node.inverseProjMask = [] ∧ node.schemaIndexToLiteralMap = ∅

end Shapes

variable {texts : LiteralTexts} {ts : List Token} {room : Nat}

/-- The phrase can be written with tokens of the lexer. -/
abbrev Written {α : Type} (texts : LiteralTexts) (phrase : Phrase Token α) (a : α) : Prop :=
  Phrase.Expressible (Scanned texts) phrase a

@[simp] theorem scanned_identifier {str : Bytes} : Scanned texts (.identifier str) ↔ IsName str := by
  constructor
  · intro h
    cases h with
    | fixed word => cases word
    | identifier name => exact name
  · exact .identifier

@[simp] theorem scanned_literalString {str : Bytes} : Scanned texts (.literalString str) ↔ texts.string str := by
  constructor
  · intro h
    cases h with
    | fixed word => cases word
    | string text => exact text
  · exact .string

@[simp] theorem scanned_literalNumber {str : Bytes} :
    Scanned texts (.literalNumber str) ↔ texts.number str := by
  constructor
  · intro h
    cases h with
    | fixed word => cases word
    | number text => exact text
  · exact .number

attribute [local simp] Scanned.fixed

theorem written_identifier {name : Bytes} : Written texts Grammar.Identifier name ↔ IsName name := by
  constructor
  · rintro ⟨_, all, ⟨⟩⟩
    simpa using all
  · intro named
    exact ⟨[.identifier name], by simpa using named, .intro⟩

theorem written_literalValue {literal : LiteralNode} : Written texts LiteralValue literal ↔ IsLiteral texts literal := by
  constructor
  · rintro ⟨ts, all, written⟩
    cases written with
    | empty => exact .empty
    | number str => exact .number (by simpa using all)
    | string str => exact .string (by simpa using all)
    | null => exact .null
    | true => exact .true
    | false => exact .false
  · intro shape
    cases shape with
    | empty => exact ⟨[], by simp +decide, .empty⟩
    | @number str text => exact ⟨[.literalNumber str], by simpa using text, .number str⟩
    | @string str text => exact ⟨[.literalString str], by simpa using text, .string str⟩
    | null => exact ⟨[.kwNull], by simp +decide, .null⟩
    | true => exact ⟨[.kwTrue], by simp +decide, .true⟩
    | false => exact ⟨[.kwFalse], by simp +decide, .false⟩

/-! Column definitions -/

theorem isModifier_of_written {modifier : Bytes} (h : Written texts (ColModifier room) modifier) :
    IsModifier texts modifier := by
  obtain ⟨ts, all, written⟩ := h
  cases written with
  | primaryKey => exact .primaryKey
  | notNull => exact .notNull
  | unique => exact .unique
  | default value => exact .default (written_literalValue.1 ⟨_, (List.forall_mem_cons.mp all).2, value⟩)

theorem written_colModifier {modifier : Bytes} (h : IsModifier texts modifier) :
    Written texts (ColModifier (room + 2)) modifier := by
  cases h with
  | primaryKey => exact ⟨[.kwPrimary, .kwKey], by simp +decide, .primaryKey⟩
  | notNull => exact ⟨[.kwNot, .kwNull], by simp +decide, .notNull⟩
  | unique => exact ⟨[.kwUnique], by simp +decide, .unique⟩
  | default value =>
      obtain ⟨ts, all, written⟩ := written_literalValue.2 value
      exact ⟨.kwDefault :: ts, by simpa +decide using all, .default written⟩

theorem isColumn_of_written {column : UntypedColumnDefNode} (h : Written texts (UntypedColDef room) column) :
    IsColumn texts column := by
  obtain ⟨ts, all, written⟩ := h
  cases written with
  | intro modifiers =>
      simp only [List.forall_mem_cons, scanned_identifier] at all
      have each := Phrase.expressible_many.mp ⟨_, all.2, modifiers⟩
      exact ⟨all.1, fun modifier mem => isModifier_of_written (each modifier mem)⟩

theorem written_untypedColDef {column : UntypedColumnDefNode} (h : IsColumn texts column) :
    Written texts (UntypedColDef (room + 4)) column := by
  have each : ∀ modifier ∈ column.modifiers, Written texts (ColModifier (room + 2)) modifier :=
    fun modifier mem => written_colModifier (h.2 modifier mem)
  obtain ⟨ts, all, modifiers⟩ := Phrase.expressible_many.mpr each
  exact ⟨.identifier column.name :: ts, by simpa +decide using ⟨h.1, all⟩, .intro modifiers⟩

theorem isColumn_of_writtenList {columns : Schema} (h : Written texts (UntypedColDefs room) columns) :
    ∀ column ∈ columns, IsColumn texts column := by
  obtain ⟨ts, all, written⟩ := h
  induction written with
  | none => exact fun column mem => absurd mem List.not_mem_nil
  | one single => exact List.forall_mem_singleton.mpr (isColumn_of_written ⟨_, all, single⟩)
  | more first _ ih =>
      rw [List.forall_mem_append, List.forall_mem_cons] at all
      exact List.forall_mem_cons.mpr ⟨isColumn_of_written ⟨_, all.1, first⟩, ih all.2.2⟩

/-- Two entries of the stack are enough for each column, and two more for the modifiers of the last. -/
theorem written_untypedColDefs {columns : Schema} (h : ∀ column ∈ columns, IsColumn texts column) :
    ∀ {room : Nat}, 2 * columns.length + 2 ≤ room → Written texts (UntypedColDefs room) columns := by
  induction columns with
  | nil =>
      intro room enough
      obtain ⟨m, rfl⟩ : ∃ m, room = m + 1 := ⟨room - 1, by omega⟩
      exact ⟨[], by simp +decide, .none⟩
  | cons column columns ih =>
      intro room enough
      rw [List.length_cons] at enough
      rw [List.forall_mem_cons] at h
      obtain ⟨m, rfl⟩ : ∃ m, room = m + 4 := ⟨room - 4, by omega⟩
      obtain ⟨ts, all, first⟩ : Written texts (UntypedColDef (m + 4)) column := written_untypedColDef h.1
      obtain ⟨us, others, rest⟩ : Written texts (UntypedColDefs (m + 2)) columns := ih h.2 (by omega)
      exact ⟨ts ++ Token.comma :: us, by simpa +decide [or_imp, forall_and] using ⟨all, others⟩, .more first rest⟩

theorem isCreate_of_written {node : CreateUntypedTableNode} (h : Written texts (TablCrea room) node) :
    Grammatical texts (.create node) := by
  obtain ⟨_, all, ⟨columns⟩⟩ := h
  simp only [List.forall_mem_cons, List.forall_mem_append, scanned_identifier] at all
  obtain ⟨-, -, -, named, -, inside, -⟩ := all
  exact ⟨named, isColumn_of_writtenList ⟨_, inside, columns⟩⟩

theorem written_tablCrea {node : CreateUntypedTableNode} (h : Grammatical texts (.create node))
    (few : 2 * node.columns.length + 2 ≤ room) : Written texts (TablCrea room) node := by
  obtain ⟨ts, all, columns⟩ := written_untypedColDefs h.2 few
  exact ⟨.kwCreate :: .kwUntyped :: .kwTable :: .identifier node.tableName :: .lparen :: (ts ++ [Token.rparen]),
    by simpa +decide [or_imp, forall_and] using ⟨h.1, all⟩, .intro columns⟩

/-! Conditions -/

theorem written_comparator (cmp : ComparatorType) : Written texts Comparator cmp := by
  cases cmp with
  | is => exact ⟨[.kwIs], by simp +decide, .is⟩
  | isNot => exact ⟨[.kwIs, .kwNot], by simp +decide, .isNot⟩
  | like => exact ⟨[.kwLike], by simp +decide, .like⟩
  | notLike => exact ⟨[.kwNot, .kwLike], by simp +decide, .notLike⟩
  | eq => exact ⟨[.opEq], by simp +decide, .eq⟩
  | ne => exact ⟨[.opNe], by simp +decide, .ne⟩
  | lt => exact ⟨[.opLt], by simp +decide, .lt⟩
  | le => exact ⟨[.opLe], by simp +decide, .le⟩
  | gt => exact ⟨[.opGt], by simp +decide, .gt⟩
  | ge => exact ⟨[.opGe], by simp +decide, .ge⟩

theorem written_conditionList {condition : ConditionNode} :
    Written texts ConditionList condition ↔ IsCondition texts condition := by
  constructor
  · rintro ⟨_, all, ⟨comparator, value⟩⟩
    simp only [List.forall_mem_cons, List.forall_mem_append, scanned_identifier] at all
    exact ⟨all.1, written_literalValue.1 ⟨_, all.2.2, value⟩, rfl⟩
  · obtain ⟨colName, cmp, literal, schemaIndex⟩ := condition
    rintro ⟨named, value, rfl⟩
    have ⟨ts, all, comparator⟩ : Written texts Comparator cmp := written_comparator cmp
    obtain ⟨us, others, value⟩ := written_literalValue.2 value
    exact ⟨.identifier colName :: (ts ++ us), by simpa [or_imp, forall_and] using ⟨named, all, others⟩,
      .intro comparator value⟩

theorem written_optWhereStatement {optWhereNode : Option WhereNode} :
    Written texts OptWhereStatement optWhereNode ↔ IsWhere texts optWhereNode := by
  constructor
  · rintro ⟨ts, all, written⟩
    cases written with
    | empty => rintro _ ⟨⟩
    | «where» list =>
        rw [List.forall_mem_cons] at all
        rintro node ⟨⟩
        exact written_conditionList.1 ⟨_, all.2, list⟩
  · intro shape
    cases optWhereNode with
    | none => exact ⟨[], by simp, .empty⟩
    | some node =>
        obtain ⟨ts, all, list⟩ := written_conditionList.2 (shape node rfl)
        exact ⟨.kwWhere :: ts, by simpa +decide using all, .where list⟩

/-! The other statements -/

theorem written_csvImport {node : CSVImportNode} :
    Written texts CsvImport node ↔ Grammatical texts (.csvImport node) := by
  constructor
  · rintro ⟨_, all, ⟨⟩⟩
    simpa +decide [Grammatical] using all
  · rintro ⟨named, text⟩
    exact ⟨[.kwImport, .identifier node.tableName, .kwFrom, .literalString node.filePath],
      by simpa +decide using ⟨named, text⟩, .intro⟩

theorem written_tablDescribe {node : DescribeNode} :
    Written texts TablDescribe node ↔ Grammatical texts (.describe node) := by
  constructor
  · rintro ⟨_, all, ⟨⟩⟩
    simpa +decide [Grammatical] using all
  · intro named
    exact ⟨[.kwDescribe, .identifier node.tableName], by simpa +decide [Grammatical] using named, .intro⟩

theorem written_tablDrop {node : DropTableNode} : Written texts TablDrop node ↔ Grammatical texts (.drop node) := by
  constructor
  · rintro ⟨_, all, ⟨⟩⟩
    simpa +decide [Grammatical] using all
  · intro named
    exact ⟨[.kwDrop, .kwTable, .identifier node.tableName], by simpa +decide [Grammatical] using named, .intro⟩

theorem written_assignment {node : AssignmentNode} : Written texts Assignment node ↔ IsAssignment texts node := by
  constructor
  · rintro ⟨_, all, ⟨value⟩⟩
    simp only [List.forall_mem_cons, scanned_identifier] at all
    exact ⟨all.1, written_literalValue.1 ⟨_, all.2.2, value⟩⟩
  · rintro ⟨named, value⟩
    obtain ⟨ts, all, value⟩ := written_literalValue.2 value
    exact ⟨.identifier node.colName :: .opEq :: ts, by simpa +decide using ⟨named, all⟩, .intro value⟩

theorem written_assignmentList {assignments : List AssignmentNode} :
    Written texts (Phrase.SepBy Assignment .comma) assignments ↔
      assignments ≠ [] ∧ ∀ assignment ∈ assignments, IsAssignment texts assignment := by
  rw [Written, Phrase.expressible_sepBy (.fixed rfl)]
  exact and_congr_right fun _ => forall₂_congr fun _ _ => written_assignment

theorem written_tablUpdate {node : UpdateNode} :
    Written texts TablUpdate node ↔ Grammatical texts (.update node) := by
  constructor
  · rintro ⟨_, all, ⟨assignments, optWhere⟩⟩
    simp only [List.forall_mem_cons, List.forall_mem_append, scanned_identifier] at all
    obtain ⟨-, named, -, first, second⟩ := all
    exact ⟨named, written_assignmentList.1 ⟨_, first, assignments⟩,
      written_optWhereStatement.1 ⟨_, second, optWhere⟩, rfl, rfl⟩
  · obtain ⟨name, assignments, optWhereNode, inverseProjMask, literals⟩ := node
    rintro ⟨named, assigned, filtered, rfl, rfl⟩
    obtain ⟨ts, first, assigned⟩ := written_assignmentList.2 assigned
    obtain ⟨us, second, filtered⟩ := written_optWhereStatement.2 filtered
    exact ⟨.kwUpdate :: .identifier name :: .kwSet :: (ts ++ us),
      by simpa +decide [or_imp, forall_and] using ⟨named, first, second⟩, .intro assigned filtered⟩

theorem written_tablDelete {node : DeleteNode} :
    Written texts TablDelete node ↔ Grammatical texts (.delete node) := by
  constructor
  · rintro ⟨_, all, ⟨optWhere⟩⟩
    simp only [List.forall_mem_cons, scanned_identifier] at all
    obtain ⟨-, -, named, inside⟩ := all
    exact ⟨named, written_optWhereStatement.1 ⟨_, inside, optWhere⟩⟩
  · rintro ⟨named, filtered⟩
    obtain ⟨ts, all, filtered⟩ := written_optWhereStatement.2 filtered
    exact ⟨.kwDelete :: .kwFrom :: .identifier node.tableName :: ts, by simpa +decide using ⟨named, all⟩,
      .intro filtered⟩

theorem written_colList {columns : List Bytes} : Written texts ColList columns ↔ IsColumnList columns := by
  rw [Written, Phrase.expressible_sepBy (.fixed rfl)]
  exact and_congr_right fun _ => forall₂_congr fun _ _ => written_identifier

theorem written_optColList {columns : Option (List Bytes)} :
    Written texts OptColList columns ↔ ∀ list ∈ columns, IsColumnList list := by
  constructor
  · rintro ⟨ts, all, written⟩
    cases written with
    | empty => rintro _ ⟨⟩
    | list written =>
        simp only [List.forall_mem_cons, List.forall_mem_append] at all
        rintro list ⟨⟩
        exact written_colList.1 ⟨_, all.2.1, written⟩
  · intro shape
    cases columns with
    | none => exact ⟨[], by simp, .empty⟩
    | some list =>
        obtain ⟨ts, all, written⟩ := written_colList.2 (shape list rfl)
        exact ⟨.lparen :: (ts ++ [Token.rparen]), by simpa +decide [or_imp, forall_and] using all, .list written⟩

theorem written_selectionColStatement {columns : Option (List Bytes)} :
    Written texts SelectionColStatement columns ↔ ∀ list ∈ columns, IsColumnList list := by
  constructor
  · rintro ⟨ts, all, written⟩
    cases written with
    | asterisk => rintro _ ⟨⟩
    | list written =>
        rintro list ⟨⟩
        exact written_colList.1 ⟨_, all, written⟩
  · intro shape
    cases columns with
    | none => exact ⟨[.asterisk], by simp +decide, .asterisk⟩
    | some list =>
        obtain ⟨ts, all, written⟩ := written_colList.2 (shape list rfl)
        exact ⟨ts, all, .list written⟩

theorem written_valueRecord {record : ValueRecordNode} :
    Written texts ValueRecord record ↔ IsRecord texts record := by
  have list {values : List LiteralNode} : Written texts (Phrase.SepBy LiteralValue .comma) values ↔
      values ≠ [] ∧ ∀ literal ∈ values, IsLiteral texts literal := by
    rw [Written, Phrase.expressible_sepBy (.fixed rfl)]
    exact and_congr_right fun _ => forall₂_congr fun _ _ => written_literalValue
  constructor
  · rintro ⟨_, all, ⟨literals⟩⟩
    simp only [List.forall_mem_cons, List.forall_mem_append] at all
    exact ⟨_, rfl, list.mp ⟨_, all.2.1, literals⟩⟩
  · rintro ⟨values, rfl, shape⟩
    obtain ⟨ts, all, literals⟩ := list.mpr shape
    exact ⟨.lparen :: (ts ++ [Token.rparen]), by simpa +decide [or_imp, forall_and] using all, .intro literals⟩

theorem written_valuesList {records : List ValueRecordNode} :
    Written texts (Phrase.SepBy ValueRecord .comma) records ↔
      records ≠ [] ∧ ∀ record ∈ records, IsRecord texts record := by
  rw [Written, Phrase.expressible_sepBy (.fixed rfl)]
  exact and_congr_right fun _ => forall₂_congr fun _ _ => written_valueRecord

theorem written_tablInsert {node : InsertNode} :
    Written texts TablInsert node ↔ Grammatical texts (.insert node) := by
  constructor
  · rintro ⟨_, all, ⟨columns, records⟩⟩
    simp only [List.forall_mem_cons, List.forall_mem_append, scanned_identifier] at all
    obtain ⟨-, -, named, first, -, second⟩ := all
    exact ⟨named, written_optColList.1 ⟨_, first, columns⟩, written_valuesList.1 ⟨_, second, records⟩, rfl⟩
  · obtain ⟨name, columns, records, projectionMask⟩ := node
    rintro ⟨named, listed, valued, rfl⟩
    obtain ⟨ts, first, listed⟩ := written_optColList.2 listed
    obtain ⟨us, second, valued⟩ := written_valuesList.2 valued
    exact ⟨.kwInsert :: .kwInto :: .identifier name :: (ts ++ Token.kwValues :: us),
      by simpa +decide [or_imp, forall_and] using ⟨named, first, second⟩, .intro listed valued⟩

theorem written_tablSelect {node : SelectNode} :
    Written texts TablSelect node ↔ Grammatical texts (.select node) := by
  constructor
  · rintro ⟨_, all, ⟨columns, optWhere⟩⟩
    simp only [List.forall_mem_cons, List.forall_mem_append, scanned_identifier] at all
    obtain ⟨-, first, -, named, second⟩ := all
    exact ⟨named, written_selectionColStatement.1 ⟨_, first, columns⟩,
      written_optWhereStatement.1 ⟨_, second, optWhere⟩, rfl⟩
  · obtain ⟨columns, name, optWhereNode, projectionMask⟩ := node
    rintro ⟨named, selected, filtered, rfl⟩
    obtain ⟨ts, first, selected⟩ := written_selectionColStatement.2 selected
    obtain ⟨us, second, filtered⟩ := written_optWhereStatement.2 filtered
    exact ⟨.kwSelect :: (ts ++ Token.kwFrom :: .identifier name :: us),
      by simpa +decide [or_imp, forall_and] using ⟨first, named, second⟩, .intro selected filtered⟩

/-! Programs -/

theorem grammatical_of_written {stmt : Statement} (h : Written texts (Grammar.Statement room) stmt) :
    Grammatical texts stmt := by
  obtain ⟨ts, all, written⟩ := h
  cases written with
  | create tablCrea => exact isCreate_of_written ⟨ts, all, tablCrea⟩
  | drop tablDrop => exact written_tablDrop.1 ⟨ts, all, tablDrop⟩
  | insert tablInsert => exact written_tablInsert.1 ⟨ts, all, tablInsert⟩
  | select tablSelect => exact written_tablSelect.1 ⟨ts, all, tablSelect⟩
  | csvImport csvImport => exact written_csvImport.1 ⟨ts, all, csvImport⟩
  | delete tablDelete => exact written_tablDelete.1 ⟨ts, all, tablDelete⟩
  | update tablUpdate => exact written_tablUpdate.1 ⟨ts, all, tablUpdate⟩
  | describe tablDescribe => exact written_tablDescribe.1 ⟨ts, all, tablDescribe⟩

/-- A statement whose column definitions fit on the stack of the parser. -/
def FitsStack : Statement → Prop
  | .create node => 2 * node.columns.length + 2 ≤ laterRoom
  | _ => True

theorem written_statement {stmt : Statement} (h : Grammatical texts stmt) (fits : FitsStack stmt)
    (enough : laterRoom ≤ room) : Written texts (Grammar.Statement room) stmt := by
  cases stmt with
  | create node =>
      obtain ⟨ts, all, written⟩ := written_tablCrea h (Nat.le_trans fits enough)
      exact ⟨ts, all, .create written⟩
  | drop node =>
      obtain ⟨ts, all, written⟩ := written_tablDrop.2 h
      exact ⟨ts, all, .drop written⟩
  | describe node =>
      obtain ⟨ts, all, written⟩ := written_tablDescribe.2 h
      exact ⟨ts, all, .describe written⟩
  | insert node =>
      obtain ⟨ts, all, written⟩ := written_tablInsert.2 h
      exact ⟨ts, all, .insert written⟩
  | select node =>
      obtain ⟨ts, all, written⟩ := written_tablSelect.2 h
      exact ⟨ts, all, .select written⟩
  | csvImport node =>
      obtain ⟨ts, all, written⟩ := written_csvImport.2 h
      exact ⟨ts, all, .csvImport written⟩
  | delete node =>
      obtain ⟨ts, all, written⟩ := written_tablDelete.2 h
      exact ⟨ts, all, .delete written⟩
  | update node =>
      obtain ⟨ts, all, written⟩ := written_tablUpdate.2 h
      exact ⟨ts, all, .update written⟩

theorem grammatical_of_terminated {stmt : Statement} (h : Written texts (Terminated room) stmt) :
    Grammatical texts stmt := by
  obtain ⟨_, all, ⟨statement⟩⟩ := h
  exact grammatical_of_written ⟨_, (List.forall_mem_append.mp all).1, statement⟩

theorem written_terminated {stmt : Statement} (h : Grammatical texts stmt) (fits : FitsStack stmt)
    (enough : laterRoom ≤ room) : Written texts (Terminated room) stmt := by
  obtain ⟨ts, all, statement⟩ := written_statement h fits enough
  exact ⟨ts ++ [Token.semicolon], by simpa +decide [or_imp, forall_and] using all, .intro statement⟩

theorem grammatical_of_program {stmts : List Statement} (h : Written texts Program stmts) :
    stmts ≠ [] ∧ ∀ stmt ∈ stmts, Grammatical texts stmt := by
  obtain ⟨ts, all, written⟩ := h
  obtain ⟨us, vs, stmt, others, rfl, rfl, first, rest⟩ := program_iff.mp written
  rw [List.forall_mem_append] at all
  refine ⟨List.cons_ne_nil _ _, List.forall_mem_cons.mpr ⟨grammatical_of_terminated ⟨us, all.1, first⟩, ?_⟩⟩
  exact fun stmt mem => grammatical_of_terminated (Phrase.expressible_many.mp ⟨vs, all.2, rest⟩ stmt mem)

theorem written_program {stmts : List Statement} (some_ : stmts ≠ []) (all : ∀ stmt ∈ stmts, Grammatical texts stmt)
    (fits : ∀ stmt ∈ stmts, FitsStack stmt) : Written texts Program stmts := by
  obtain ⟨stmt, others, rfl⟩ := List.exists_cons_of_ne_nil some_
  rw [List.forall_mem_cons] at all fits
  have first : Written texts (Terminated firstRoom) stmt := written_terminated all.1 fits.1 (by decide)
  have rest : Written texts (Phrase.Many (Terminated laterRoom)) others :=
    Phrase.expressible_many.mpr fun stmt mem => written_terminated (all.2 stmt mem) (fits.2 stmt mem) (Nat.le_refl _)
  obtain ⟨us, good, first⟩ := first
  obtain ⟨vs, good', rest⟩ := rest
  exact ⟨us ++ vs, List.forall_mem_append.mpr ⟨good, good'⟩,
    program_iff.mpr ⟨us, vs, stmt, others, rfl, rfl, first, rest⟩⟩

end Jssql.Parser
