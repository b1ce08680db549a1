import Jssql.DBEngine.ExecutionContext

/-!
`SemanticValidator`: each validator accepts a normalized node or reports the
first violation. The probes of the key index use literals as they are written
in the node. The validators run also after a failed normalization.
-/
namespace Jssql.SemanticValidator
open Foundation Jssql

/-- The report of a rejection, or acceptance. -/
abbrev Verdict := Option ErrorReport

def accepted : Verdict := none

def checkIfTableExists (table : Bytes) (ctx : ExecutionContext) : Verdict :=
  if table ∈ ctx.untypedTables then accepted else some ⟨.tableDoesNotExist, [table]⟩

def validateDropSemantics (node : DropTableNode) (ctx : ExecutionContext) : Verdict :=
  checkIfTableExists node.tableName ctx

def validateDescribeSemantics (node : DescribeNode) (ctx : ExecutionContext) : Verdict :=
  checkIfTableExists node.tableName ctx

/-- The types of literal a comparator accepts. -/
def comparatorViolation (cmp : ComparatorType) (type : LiteralType) : Verdict :=
  match cmp with
  | .is | .isNot =>
      match type with
      | .number | .string => some ⟨.whereComparatorIsIsNotViolation, []⟩
      | _ => accepted
  | .like | .notLike =>
      if type = .string then accepted else some ⟨.whereComparatorLikeNotLikeViolation, []⟩
  | .eq | .ne =>
      if type = .number ∨ type = .string then accepted
      else some ⟨.whereComparatorEQNotEQViolation, []⟩
  | .lt | .le | .gt | .ge =>
      if type = .number then accepted else some ⟨.whereComparatorMathViolation, []⟩

def validateWhereClauseSemantics (table : Bytes) (schema : Schema) (optWhere : Option WhereNode) :
    Verdict :=
  match optWhere with
  | none => accepted
  | some ⟨cond⟩ =>
      if cond.colName ∉ columnNames schema then
        some ⟨.columnDoesNotExistInTable, [cond.colName, table]⟩
      else if cond.literal.type = .empty then some ⟨.whereEmptyLiteralIsNotComparable, []⟩
      else comparatorViolation cond.cmp cond.literal.type

/-- The index of a table's key column. -/
def primaryKeyIndexOf (ctx : ExecutionContext) (table : Bytes) (schema : Schema) :
    Except Fault (Bytes × Index) := do
  let primaryKeyColumn ← extractPrimaryKeyColumn schema
  let columns ← ctx.indices.at table .tableName
  let pkIndex ← columns.at primaryKeyColumn .columnName
  return (primaryKeyColumn, pkIndex)

/-- A key equality with a literal that is not in the index. -/
def absentKeyViolation (ctx : ExecutionContext) (table : Bytes) (schema : Schema)
    (optWhere : Option WhereNode) : Except Fault Verdict :=
  match optWhere with
  | none => .ok accepted
  | some ⟨cond⟩ => do
      let (primaryKeyColumn, pkIndex) ← primaryKeyIndexOf ctx table schema
      if cond.colName = primaryKeyColumn ∧ cond.cmp = .eq ∧ cond.literal.value ∉ pkIndex then
        return some ⟨.primaryKeyDoesNotExistInSpecialPKEQCase, [cond.literal.value, table]⟩
      else return accepted

/-- `validateDeleteSemantics` from the look-up of the table on. -/
def validateWhereOfTable (ctx : ExecutionContext) (table : Bytes) (schema : Schema)
    (optWhere : Option WhereNode) : Except Fault Verdict := do
  match ← absentKeyViolation ctx table schema optWhere with
  | some report => return some report
  | none => return validateWhereClauseSemantics table schema optWhere

def validateDeleteSemantics (node : DeleteNode) (ctx : ExecutionContext) : Except Fault Verdict :=
  match ctx.untypedTables.lookup node.tableName with
  | none => .ok (some ⟨.tableDoesNotExist, [node.tableName]⟩)
  | some schema => validateWhereOfTable ctx node.tableName schema node.optWhereNode

def validateSelectSemantics (node : SelectNode) (ctx : ExecutionContext) : Except Fault Verdict :=
  match ctx.untypedTables.lookup node.tableName with
  | none => .ok (some ⟨.tableDoesNotExist, [node.tableName]⟩)
  | some schema =>
      match missingColumn (node.columns.getD []) schema with
      | some name => .ok (some ⟨.columnDoesNotExistInTable, [name, node.tableName]⟩)
      | none => validateWhereOfTable ctx node.tableName schema node.optWhereNode

/-- One value of a record against its column; the keys seen so far grow. -/
def validateValue (table : Bytes) (pkIndex : Index) (col : UntypedColumnDefNode)
    (lit : Option LiteralNode) (isWritten : Bool) (seenKeys : List Bytes) :
    Except ErrorReport (List Bytes) :=
  let modifiers := getModifiers col.modifiers
  let given := lit.filter fun l => l.type ≠ .empty
  let violation := if !isWritten || given.isNone then emptyLiteralRuleViolation modifiers else none
  match violation, given with
  | some report, _ => .error report
  | none, none => .ok seenKeys
  | none, some l =>
      if modifiers.primaryKey then
        if l.value ∈ seenKeys ∨ l.value ∈ pkIndex then
          .error ⟨.insertDuplicatePrimaryKeys, [l.value, table]⟩
        else .ok (l.value :: seenKeys)
      else .ok seenKeys

/-- The columns of one record from index `j` on. -/
def validateRecord (table : Bytes) (pkIndex : Index) (projectionMask : List Bool)
    (vals : ValueRecordNode) :
    Nat → Schema → List Bytes → Except Fault (Except ErrorReport (List Bytes))
  | _, [], seenKeys => .ok (.ok seenKeys)
  | j, col :: cols, seenKeys => do
      let lit ← index vals j
      let isWritten ← index projectionMask j
      match validateValue table pkIndex col lit isWritten seenKeys with
      | .error report => return .error report
      | .ok seenKeys => validateRecord table pkIndex projectionMask vals (j + 1) cols seenKeys

def validateRecords (table : Bytes) (pkIndex : Index) (projectionMask : List Bool)
    (schema : Schema) : List ValueRecordNode → List Bytes → Except Fault Verdict
  | [], _ => .ok accepted
  | vals :: records, seenKeys => do
      if schema.length < vals.length then
        return some ⟨.insertMoreValuesThanColumnsInTable,
          [table, ascii (toString schema.length), ascii (toString vals.length)]⟩
      match ← validateRecord table pkIndex projectionMask vals 0 schema seenKeys with
      | .error report => return some report
      | .ok seenKeys => validateRecords table pkIndex projectionMask schema records seenKeys

def validateInsertSemantics (node : InsertNode) (ctx : ExecutionContext) : Except Fault Verdict :=
  match ctx.untypedTables.lookup node.tableName with
  | none => .ok (some ⟨.tableDoesNotExist, [node.tableName]⟩)
  | some schema => do
      let (_, pkIndex) ← primaryKeyIndexOf ctx node.tableName schema
      validateRecords node.tableName pkIndex node.projectionMask schema node.records []

/-- The first violation of the assignment list. -/
def assignmentViolation (table : Bytes) (schema : Schema) (primaryKeyColumn : Bytes) :
    List AssignmentNode → List Bytes → Verdict
  | [], _ => accepted
  | assignment :: rest, seen =>
      if assignment.colName ∉ columnNames schema then
        some ⟨.columnDoesNotExistInTable, [assignment.colName, table]⟩
      else if assignment.colName ∈ seen then
        some ⟨.updateTriedUpdatingTheSameColumnInOneCommand, [assignment.colName]⟩
      else if primaryKeyColumn = assignment.colName then
        some ⟨.updateTriedUpdatingThePrimaryKey, [primaryKeyColumn]⟩
      else assignmentViolation table schema primaryKeyColumn rest (assignment.colName :: seen)

def validateUpdateSemantics (node : UpdateNode) (ctx : ExecutionContext) : Except Fault Verdict :=
  match ctx.untypedTables.lookup node.tableName with
  | none => .ok (some ⟨.tableDoesNotExist, [node.tableName]⟩)
  | some schema => do
      let primaryKeyColumn ← extractPrimaryKeyColumn schema
      match assignmentViolation node.tableName schema primaryKeyColumn node.assignments [] with
      | some report => return some report
      | none => return validateWhereClauseSemantics node.tableName schema node.optWhereNode

end Jssql.SemanticValidator
