import Jssql.Foundation.Stream

/-!
The data of the engine: syntax tree nodes as the parser builds them, schemas,
result sets, record and scan indicators, and the ways an operation can fail.

Pointers that may be null are options. A condition list always has exactly one
condition, as the grammar builds it. A failure is a thrown exception, the exit
of `handleFatalError`, undefined behaviour of C++, or a loop without end.
-/
namespace Jssql
open Foundation

abbrev Map (κ α : Type) := Finmap fun _ : κ => α

/-! Syntax tree -/

inductive LiteralType where
  | empty | string | number | nullVal | trueVal | falseVal
deriving DecidableEq, Repr

structure LiteralNode where
  type : LiteralType
  value : Bytes
deriving DecidableEq, Repr

inductive ComparatorType where
  | is | isNot | like | notLike | eq | ne | lt | le | gt | ge
deriving DecidableEq, Repr

structure ConditionNode where
  colName : Bytes
  cmp : ComparatorType
  literal : LiteralNode
  schemaIndex : UInt8 := 255
deriving DecidableEq, Repr

structure WhereNode where
  condition : ConditionNode
deriving DecidableEq, Repr

structure UntypedColumnDefNode where
  name : Bytes
  modifiers : List Bytes
deriving DecidableEq, Repr

abbrev Schema := List UntypedColumnDefNode

structure CreateUntypedTableNode where
  tableName : Bytes
  columns : Schema
deriving DecidableEq, Repr

structure DropTableNode where
  tableName : Bytes
deriving DecidableEq, Repr

structure DescribeNode where
  tableName : Bytes
deriving DecidableEq, Repr

structure CSVImportNode where
  tableName : Bytes
  filePath : Bytes
deriving DecidableEq, Repr

/-- The values of one record; a null pointer stands for a column not listed. -/
abbrev ValueRecordNode := List (Option LiteralNode)

structure InsertNode where
  tableName : Bytes
  columns : Option (List Bytes)
  records : List ValueRecordNode
  projectionMask : List Bool := []
deriving DecidableEq, Repr

structure SelectNode where
  columns : Option (List Bytes)
  tableName : Bytes
  optWhereNode : Option WhereNode
  projectionMask : List Bool := []
deriving DecidableEq, Repr

structure DeleteNode where
  tableName : Bytes
  optWhereNode : Option WhereNode
deriving DecidableEq, Repr

structure AssignmentNode where
  colName : Bytes
  literal : LiteralNode
deriving DecidableEq, Repr

structure UpdateNode where
  tableName : Bytes
  assignments : List AssignmentNode
  optWhereNode : Option WhereNode
  inverseProjMask : List Bool := []
  schemaIndexToLiteralMap : Map Nat Bytes := ∅

inductive Statement where
  | create (node : CreateUntypedTableNode)
  | drop (node : DropTableNode)
  | describe (node : DescribeNode)
  | insert (node : InsertNode)
  | select (node : SelectNode)
  | csvImport (node : CSVImportNode)
  | delete (node : DeleteNode)
  | update (node : UpdateNode)

/-! Stored data -/

abbrev Record := List Bytes

abbrev ResultSet := List Record

/-- Primary key value to the absolute offset of the record's type byte. -/
abbrev Index := Map Bytes Nat

structure ColModifiers where
  hasDefault : Bool
  primaryKey : Bool
  notNull : Bool
  unique : Bool
deriving DecidableEq, Repr

inductive RecordType where
  | insert | delete | update | unused
deriving DecidableEq, Repr

def RecordType.toByte : RecordType → UInt8
  | .insert => 0
  | .delete => 1
  | .update => 2
  | .unused => 3

inductive Indicator where
  | endOfTable | ioError | tombstone | live | skip
deriving DecidableEq, Repr

/-- `ColumnOffset` is stored with the seven bytes of padding of its layout. -/
structure ColumnOffset where
  offset : Nat
  colId : UInt8
  padding : Bytes
deriving DecidableEq, Repr

/-! Failures -/

inductive ErrorCode where
  | tableDoesNotExist
  | columnDoesNotExistInTable
  | createTableAlreadyExists
  | insertDuplicatePrimaryKeys
  | updateTriedUpdatingTheSameColumnInOneCommand
  | updateTriedUpdatingThePrimaryKey
  | primaryKeyDoesNotExistInSpecialPKEQCase
  | whereEmptyLiteralIsNotComparable
  | whereComparatorIsIsNotViolation
  | whereComparatorLikeNotLikeViolation
  | whereComparatorEQNotEQViolation
  | whereComparatorMathViolation
  | describeGenericInvalidStatement
  | insertGenericInvalidStatement
  | selectGenericInvalidStatement
  | updateGenericInvalidStatement
  | deleteGenericInvalidStatement
  | dropGenericInvalidStatement
  | insertPrimaryKeyCannotBeEmpty
  | insertNotNullNoDefaultViolation
  | insertMoreValuesThanColumnsInTable
deriving DecidableEq, Repr

/-- What `printAsStandardError` prints: the code and the words put into its text. -/
structure ErrorReport where
  code : ErrorCode
  context : List Bytes := []
deriving DecidableEq, Repr

inductive FatalErrorCode where
  | genericFileIOFailure
  | colOffsetRegionHasMoreColsThanAllowed
  | csvImportCannotOpenFile
  | deleteColumnNotFoundDueToCorruption
  | unknownIoErrorDuringDeserialization
  | compactUnknownErrorDuringCopyingDuringCompaction
  | unknownTableFileFormat
  | metadataDirectoryDoesNotExist
  | tableMetadataDirectoryDoesNotExist
  | compactInternalTableNotFoundInDeleteCountMap
  | hashIndexGenericNullptrError
  | csvImportUnknownException
  | colcodeTableDoesNotExist
deriving DecidableEq, Repr

/-- The argument of a checked access that is not there. -/
inductive AtKey where
  | tableName | columnName | keyValue | schemaIndex
deriving DecidableEq, Repr

inductive Exception where
  | stod
  | substr
  | lengthError
  | missingKey (key : AtKey)
deriving DecidableEq, Repr

inductive UndefinedBehaviour where
  | nullPointer | outOfBounds | endIterator | missingReturn
deriving DecidableEq, Repr

inductive Fault where
  | exception (e : Exception)
  | exit (code : FatalErrorCode)
  | undefined (u : UndefinedBehaviour)
  | diverges
deriving DecidableEq, Repr

/-- `unordered_map::at`. -/
def Map.at {κ α : Type} [DecidableEq κ] (m : Map κ α) (k : κ) (key : AtKey) : Except Fault α :=
  match m.lookup k with
  | some a => .ok a
  | none => .error (.exception (.missingKey key))

theorem Map.at_of_lookup {κ α : Type} [DecidableEq κ] {m : Map κ α} {k : κ} {a : α}
    (h : m.lookup k = some a) (key : AtKey) : m.at k key = .ok a := by
  rw [Map.at, h]

theorem Map.at_eq_ok {κ α : Type} [DecidableEq κ] {m : Map κ α} {k : κ} {key : AtKey} {a : α} :
    m.at k key = .ok a ↔ m.lookup k = some a := by
  rw [Map.at]
  cases m.lookup k with
  | none => simp
  | some b => simp

/-- `vector::operator[]`, which is not checked. -/
def index {α : Type} (xs : List α) (i : Nat) : Except Fault α :=
  match xs[i]? with
  | some a => .ok a
  | none => .error (.undefined .outOfBounds)

/-- `vector::at`. -/
def checkedIndex {α : Type} (xs : List α) (i : Nat) : Except Fault α :=
  match xs[i]? with
  | some a => .ok a
  | none => .error (.exception (.missingKey .schemaIndex))

end Jssql
