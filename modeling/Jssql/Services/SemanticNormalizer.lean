import Jssql.Auxiliary.Utilities

/-!
`SemanticNormalizer`: each normalizer changes its node in place and says whether
it succeeded. A failure in the middle leaves the changes made so far, which the
validators then see. Only `normalizeInsert` prints a report of its own.
-/
namespace Jssql.SemanticNormalizer
open Foundation Jssql

/-- Success, or failure with what was printed. -/
inductive Normalization where
  | normalized
  | rejected (printed : Option ErrorReport)
deriving DecidableEq

def Normalization.succeeded : Normalization → Bool
  | .normalized => true
  | .rejected _ => false

/-- The schema index goes to an 8-bit field. -/
def normalizeWhereClause (optWhere : Option WhereNode) (schema : Schema) :
    Option WhereNode × Bool :=
  match optWhere with
  | none => (none, true)
  | some ⟨cond⟩ =>
      let idx := findColumn schema cond.colName
      if idx = schema.length then (some ⟨cond⟩, false)
      else (some ⟨{ cond with schemaIndex := UInt8.ofNat idx }⟩, true)

def normalizeDelete (node : DeleteNode) (ctx : Map Bytes Schema) : DeleteNode × Bool :=
  match ctx.lookup node.tableName with
  | none => (node, false)
  | some schema =>
      match node.optWhereNode with
      | none => (node, true)
      | some ⟨cond⟩ =>
          let stripped := { cond with
            literal := { cond.literal with value := removeOuterQuotes cond.literal.value } }
          let (optWhere, ok) := normalizeWhereClause (some ⟨stripped⟩) schema
          ({ node with optWhereNode := optWhere }, ok)

/-- The mask of the listed columns, or the first name the schema does not have. -/
def projectionMaskOf (schema : Schema) : List Bytes → List Bool → Except Bytes (List Bool)
  | [], mask => .ok mask
  | name :: names, mask =>
      let schemaIndex := findColumn schema name
      if schemaIndex = schema.length then .error name
      else projectionMaskOf schema names (mask.set schemaIndex true)

/-- The mask as far as it was set before an unknown name. -/
def partialMask (schema : Schema) : List Bytes → List Bool → List Bool
  | [], mask => mask
  | name :: names, mask =>
      let schemaIndex := findColumn schema name
      if schemaIndex = schema.length then mask
      else partialMask schema names (mask.set schemaIndex true)

def emptyLiteral : LiteralNode := ⟨.empty, []⟩

/-- The given values at the places of the listed columns; a later column of the
same name overwrites, a column without a value gets an empty literal. -/
def normalizeRow (schema : Schema) (record : ValueRecordNode) :
    Nat → List Bytes → ValueRecordNode → ValueRecordNode
  | _, [], row => row
  | j, name :: names, row =>
      let value := (record[j]?).getD (some emptyLiteral)
      normalizeRow schema record (j + 1) names (row.set (findColumn schema name) value)

/-- The records up to one with too many values; the others stay as they were. -/
def normalizeRecords (schema : Schema) (columns : List Bytes) :
    List ValueRecordNode → List ValueRecordNode × Bool
  | [] => ([], true)
  | record :: records =>
      if schema.length < record.length then (record :: records, false)
      else
        let row := normalizeRow schema record 0 columns (List.replicate schema.length none)
        let (rest, ok) := normalizeRecords schema columns records
        (row :: rest, ok)

def normalizeInsert (node : InsertNode) (ctx : Map Bytes Schema) : InsertNode × Normalization :=
  match ctx.lookup node.tableName with
  | none => (node, .rejected none)
  | some schema =>
      let fullColList := columnNames schema
      let columns := node.columns.getD fullColList
      let unset := List.replicate schema.length false
      let node := { node with columns := some columns }
      match projectionMaskOf schema columns unset with
      | .error name =>
          ({ node with projectionMask := partialMask schema columns unset },
            .rejected (some ⟨.columnDoesNotExistInTable, [name, node.tableName]⟩))
      | .ok mask =>
          let (records, ok) := normalizeRecords schema columns node.records
          if ok then
            ({ node with columns := some fullColList, records := records, projectionMask := mask },
              .normalized)
          else ({ node with records := records, projectionMask := mask }, .rejected none)

def normalizeSelect (node : SelectNode) (ctx : Map Bytes Schema) : SelectNode × Bool :=
  match ctx.lookup node.tableName with
  | none => (node, false)
  | some schema =>
      let fullColList := columnNames schema
      let columns := node.columns.getD fullColList
      let unset := List.replicate schema.length false
      match projectionMaskOf schema columns unset with
      | .error _ =>
          ({ node with
              columns := some columns, projectionMask := partialMask schema columns unset }, false)
      | .ok mask =>
          let (optWhere, ok) := normalizeWhereClause node.optWhereNode schema
          ({ node with
              columns := some fullColList, projectionMask := mask, optWhereNode := optWhere }, ok)

/-- What the loop over the assignments carries. -/
structure AssignmentState where
  inverseProjMask : List Bool
  schemaIndexToLiteralMap : Map Nat Bytes
  assignedColumns : List Bytes

/-- The assignments, quotes removed as far as the loop came, and its result. -/
def normalizeAssignments (schema : Schema) (primaryKeyCol : Bytes) :
    List AssignmentNode → AssignmentState → List AssignmentNode × AssignmentState × Bool
  | [], st => ([], st, true)
  | assignment :: rest, st =>
      let value := removeOuterQuotes assignment.literal.value
      let assignment := { assignment with literal := { assignment.literal with value := value } }
      let schemaIndex := findColumn schema assignment.colName
      if schemaIndex = schema.length then (assignment :: rest, st, false)
      else
        let marked : AssignmentState := { st with
          inverseProjMask := st.inverseProjMask.set schemaIndex false
          schemaIndexToLiteralMap :=
            if schemaIndex ∈ st.schemaIndexToLiteralMap then st.schemaIndexToLiteralMap
            else st.schemaIndexToLiteralMap.insert schemaIndex value }
        if assignment.colName ∈ st.assignedColumns then (assignment :: rest, marked, false)
        else if assignment.colName = primaryKeyCol then (assignment :: rest, marked, false)
        else
          let (others, final, ok) := normalizeAssignments schema primaryKeyCol rest
            { marked with assignedColumns := assignment.colName :: st.assignedColumns }
          (assignment :: others, final, ok)

def normalizeUpdate (node : UpdateNode) (ctx : Map Bytes Schema) :
    Except Fault (UpdateNode × Bool) :=
  match ctx.lookup node.tableName with
  | none => .ok (node, false)
  | some schema => do
      let primaryKeyCol ← extractPrimaryKeyColumn schema
      if node.assignments.isEmpty then return (node, false)
      let (assignments, st, ok) := normalizeAssignments schema primaryKeyCol node.assignments
        ⟨List.replicate schema.length true, node.schemaIndexToLiteralMap, []⟩
      let node := { node with
        assignments := assignments
        inverseProjMask := st.inverseProjMask
        schemaIndexToLiteralMap := st.schemaIndexToLiteralMap }
      if !ok then return (node, false)
      let (optWhere, ok) := normalizeWhereClause node.optWhereNode schema
      return ({ node with optWhereNode := optWhere }, ok)

end Jssql.SemanticNormalizer
