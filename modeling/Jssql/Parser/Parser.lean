import Jssql.Foundation.Grammar
import Jssql.Parser.Lexer
import Jssql.Types

/-!
The grammar of `parser.y`: a phrase for each nonterminal, with what its actions build. The
generated parser keeps at most `YYMAXDEPTH` entries on its stack. Only the list of column
definitions is recursive on the right and can use them up, so the phrases on the way to it
carry the number of entries that are free.
-/
namespace Jssql.Grammar
open Foundation Lexer

inductive LiteralValue : Phrase Token LiteralNode
  | empty : LiteralValue [] ⟨.empty, []⟩
  | number (str : Bytes) : LiteralValue [.literalNumber str] ⟨.number, str⟩
  | string (str : Bytes) : LiteralValue [.literalString str] ⟨.string, str⟩
  | null : LiteralValue [.kwNull] ⟨.nullVal, ascii "NULL"⟩
  | true : LiteralValue [.kwTrue] ⟨.trueVal, ascii "TRUE"⟩
  | false : LiteralValue [.kwFalse] ⟨.falseVal, ascii "FALSE"⟩

/-! Column definitions -/

inductive ColModifier : Nat → Phrase Token Bytes
  | primaryKey {room : Nat} : ColModifier (room + 2) [.kwPrimary, .kwKey] (ascii "PRIMARY KEY")
  | notNull {room : Nat} : ColModifier (room + 2) [.kwNot, .kwNull] (ascii "NOT NULL")
  | unique {room : Nat} : ColModifier (room + 1) [.kwUnique] (ascii "UNIQUE")
  | default {room : Nat} {ts : List Token} {literal : LiteralNode} (value : LiteralValue ts literal) :
      ColModifier (room + 2) (.kwDefault :: ts) (ascii "DEFAULT " ++ literal.value)

/-- The identifier and the modifiers before the next take an entry each. -/
inductive UntypedColDef : Nat → Phrase Token UntypedColumnDefNode
  | intro {room : Nat} {ts : List Token} {name : Bytes} {modifiers : List Bytes}
      (optColModifiers : Phrase.Many (ColModifier room) ts modifiers) :
      UntypedColDef (room + 2) (.identifier name :: ts) ⟨name, modifiers⟩

/-- A definition and its comma stay on the stack until the list ends. -/
inductive UntypedColDefs : Nat → Phrase Token Schema
  | none {room : Nat} : UntypedColDefs (room + 1) [] []
  | one {room : Nat} {ts : List Token} {column : UntypedColumnDefNode} (single : UntypedColDef room ts column) :
      UntypedColDefs room ts [column]
  | more {room : Nat} {ts us : List Token} {column : UntypedColumnDefNode} {columns : Schema}
      (first : UntypedColDef (room + 2) ts column) (rest : UntypedColDefs room us columns) :
      UntypedColDefs (room + 2) (ts ++ .comma :: us) (column :: columns)

inductive TablCrea : Nat → Phrase Token CreateUntypedTableNode
  | intro {room : Nat} {ts : List Token} {name : Bytes} {columns : Schema}
      (untypedColDefs : UntypedColDefs room ts columns) :
      TablCrea room (.kwCreate :: .kwUntyped :: .kwTable :: .identifier name :: .lparen :: (ts ++ [.rparen]))
        ⟨name, columns⟩

/-! Conditions -/

inductive Comparator : Phrase Token ComparatorType
  | is : Comparator [.kwIs] .is
  | like : Comparator [.kwLike] .like
  | isNot : Comparator [.kwIs, .kwNot] .isNot
  | notLike : Comparator [.kwNot, .kwLike] .notLike
  | eq : Comparator [.opEq] .eq
  | ge : Comparator [.opGe] .ge
  | gt : Comparator [.opGt] .gt
  | le : Comparator [.opLe] .le
  | lt : Comparator [.opLt] .lt
  | ne : Comparator [.opNe] .ne

/-- This is a single condition. -/
inductive ConditionList : Phrase Token ConditionNode
  | intro {ts us : List Token} {name : Bytes} {cmp : ComparatorType} {literal : LiteralNode}
      (comparator : Comparator ts cmp) (value : LiteralValue us literal) :
      ConditionList (.identifier name :: (ts ++ us)) { colName := name, cmp, literal }

inductive OptWhereStatement : Phrase Token (Option WhereNode)
  | empty : OptWhereStatement [] none
  | where {ts : List Token} {condition : ConditionNode} (conditionList : ConditionList ts condition) :
      OptWhereStatement (.kwWhere :: ts) (some ⟨condition⟩)

/-! The other statements -/

inductive CsvImport : Phrase Token CSVImportNode
  | intro {name filePath : Bytes} :
      CsvImport [.kwImport, .identifier name, .kwFrom, .literalString filePath] ⟨name, filePath⟩

inductive TablDescribe : Phrase Token DescribeNode
  | intro {name : Bytes} : TablDescribe [.kwDescribe, .identifier name] ⟨name⟩

inductive TablDrop : Phrase Token DropTableNode
  | intro {name : Bytes} : TablDrop [.kwDrop, .kwTable, .identifier name] ⟨name⟩

inductive Assignment : Phrase Token AssignmentNode
  | intro {ts : List Token} {name : Bytes} {literal : LiteralNode} (value : LiteralValue ts literal) :
      Assignment (.identifier name :: .opEq :: ts) ⟨name, literal⟩

inductive TablUpdate : Phrase Token UpdateNode
  | intro {ts us : List Token} {name : Bytes} {assignments : List AssignmentNode} {optWhereNode : Option WhereNode}
      (assignmentList : Phrase.SepBy Assignment .comma ts assignments)
      (optWhereStatement : OptWhereStatement us optWhereNode) :
      TablUpdate (.kwUpdate :: .identifier name :: .kwSet :: (ts ++ us))
        { tableName := name, assignments, optWhereNode }

inductive TablDelete : Phrase Token DeleteNode
  | intro {ts : List Token} {name : Bytes} {optWhereNode : Option WhereNode}
      (optWhereStatement : OptWhereStatement ts optWhereNode) :
      TablDelete (.kwDelete :: .kwFrom :: .identifier name :: ts) ⟨name, optWhereNode⟩

inductive Identifier : Phrase Token Bytes
  | intro {name : Bytes} : Identifier [.identifier name] name

abbrev ColList : Phrase Token (List Bytes) := Phrase.SepBy Identifier .comma

inductive OptColList : Phrase Token (Option (List Bytes))
  | empty : OptColList [] none
  | list {ts : List Token} {columns : List Bytes} (colList : ColList ts columns) :
      OptColList (.lparen :: (ts ++ [.rparen])) (some columns)

inductive SelectionColStatement : Phrase Token (Option (List Bytes))
  | asterisk : SelectionColStatement [.asterisk] none
  | list {ts : List Token} {columns : List Bytes} (colList : ColList ts columns) :
      SelectionColStatement ts (some columns)

inductive ValueRecord : Phrase Token ValueRecordNode
  | intro {ts : List Token} {values : List LiteralNode} (literalList : Phrase.SepBy LiteralValue .comma ts values) :
      ValueRecord (.lparen :: (ts ++ [.rparen])) (values.map some)

inductive TablInsert : Phrase Token InsertNode
  | intro {ts us : List Token} {name : Bytes} {columns : Option (List Bytes)} {records : List ValueRecordNode}
      (optColList : OptColList ts columns) (valuesList : Phrase.SepBy ValueRecord .comma us records) :
      TablInsert (.kwInsert :: .kwInto :: .identifier name :: (ts ++ .kwValues :: us))
        { tableName := name, columns, records }

inductive TablSelect : Phrase Token SelectNode
  | intro {ts us : List Token} {name : Bytes} {columns : Option (List Bytes)} {optWhereNode : Option WhereNode}
      (selectionColStatement : SelectionColStatement ts columns)
      (optWhereStatement : OptWhereStatement us optWhereNode) :
      TablSelect (.kwSelect :: (ts ++ .kwFrom :: .identifier name :: us)) { columns, tableName := name, optWhereNode }

/-! Programs -/

inductive Statement : Nat → Phrase Token Jssql.Statement
  | create {room : Nat} {ts : List Token} {node : CreateUntypedTableNode} (tablCrea : TablCrea room ts node) :
      Statement room ts (.create node)
  | drop {room : Nat} {ts : List Token} {node : DropTableNode} (tablDrop : TablDrop ts node) :
      Statement room ts (.drop node)
  | insert {room : Nat} {ts : List Token} {node : InsertNode} (tablInsert : TablInsert ts node) :
      Statement room ts (.insert node)
  | select {room : Nat} {ts : List Token} {node : SelectNode} (tablSelect : TablSelect ts node) :
      Statement room ts (.select node)
  | csvImport {room : Nat} {ts : List Token} {node : CSVImportNode} (csvImport : CsvImport ts node) :
      Statement room ts (.csvImport node)
  | delete {room : Nat} {ts : List Token} {node : DeleteNode} (tablDelete : TablDelete ts node) :
      Statement room ts (.delete node)
  | update {room : Nat} {ts : List Token} {node : UpdateNode} (tablUpdate : TablUpdate ts node) :
      Statement room ts (.update node)
  | describe {room : Nat} {ts : List Token} {node : DescribeNode} (tablDescribe : TablDescribe ts node) :
      Statement room ts (.describe node)

inductive Terminated : Nat → Phrase Token Jssql.Statement
  | intro {room : Nat} {ts : List Token} {stmt : Jssql.Statement} (statement : Statement room ts stmt) :
      Terminated room (ts ++ [.semicolon]) stmt

def yymaxdepth : Nat := 10000

/-- Six entries are in use behind the parenthesis of the first statement, and the last is never taken. -/
def firstRoom : Nat := yymaxdepth - 7

/-- The program before the statement is one more. -/
def laterRoom : Nat := yymaxdepth - 8

inductive Program : Phrase Token (List Jssql.Statement)
  | one {ts : List Token} {stmt : Jssql.Statement} (statement : Terminated firstRoom ts stmt) : Program ts [stmt]
  | more {ts us : List Token} {stmts : List Jssql.Statement} {stmt : Jssql.Statement} (program : Program ts stmts)
      (statement : Terminated laterRoom us stmt) : Program (ts ++ us) (stmts ++ [stmt])

end Jssql.Grammar

namespace Jssql.Parser
open Foundation Lexer Reader

/-! Readers of the phrases -/

def identifier : Reader Token Bytes := token fun
  | .identifier str => some str
  | _ => none

def literalOf : Token → Option LiteralNode
  | .literalNumber str => some ⟨.number, str⟩
  | .literalString str => some ⟨.string, str⟩
  | .kwNull => some ⟨.nullVal, ascii "NULL"⟩
  | .kwTrue => some ⟨.trueVal, ascii "TRUE"⟩
  | .kwFalse => some ⟨.falseVal, ascii "FALSE"⟩
  | _ => none

def literalValue : Reader Token LiteralNode := do
  return (← optionally literalOf).getD ⟨.empty, []⟩

def startsModifier : Token → Bool
  | .kwPrimary | .kwNot | .kwUnique | .kwDefault => true
  | _ => false

def colModifier (room : Nat) : Reader Token Bytes := do
  match ← next, room with
  | .kwUnique, _ + 1 => return ascii "UNIQUE"
  | .kwPrimary, _ + 2 => do
      expect .kwKey
      return ascii "PRIMARY KEY"
  | .kwNot, _ + 2 => do
      expect .kwNull
      return ascii "NOT NULL"
  | .kwDefault, _ + 2 => return ascii "DEFAULT " ++ (← literalValue).value
  | _, _ => failure

def untypedColDef : Nat → Reader Token UntypedColumnDefNode
  | room + 2 => do
      let name ← identifier
      return ⟨name, ← many (colModifier room) startsModifier⟩
  | _ => failure

def startsColDef : Token → Bool
  | .identifier _ => true
  | _ => false

def untypedColDefs : Nat → Reader Token Schema
  | 0 => failure
  | 1 => return []
  | room + 2 => do
      if ← comes startsColDef then
        let column ← untypedColDef (room + 2)
        if ← takes .comma then return column :: (← untypedColDefs room) else return [column]
      else return []

def tablCrea (room : Nat) : Reader Token CreateUntypedTableNode := do
  expect .kwCreate
  expect .kwUntyped
  expect .kwTable
  let name ← identifier
  expect .lparen
  let columns ← untypedColDefs room
  expect .rparen
  return ⟨name, columns⟩

def comparator : Reader Token ComparatorType := do
  match ← next with
  | .kwIs => if ← takes .kwNot then return .isNot else return .is
  | .kwLike => return .like
  | .kwNot => do
      expect .kwLike
      return .notLike
  | .opEq => return .eq
  | .opGe => return .ge
  | .opGt => return .gt
  | .opLe => return .le
  | .opLt => return .lt
  | .opNe => return .ne
  | _ => failure

def conditionList : Reader Token ConditionNode := do
  let colName ← identifier
  let cmp ← comparator
  return { colName, cmp, literal := ← literalValue }

def optWhereStatement : Reader Token (Option WhereNode) := do
  if ← takes .kwWhere then return some ⟨← conditionList⟩ else return none

def csvImport : Reader Token CSVImportNode := do
  expect .kwImport
  let name ← identifier
  expect .kwFrom
  let filePath ← token fun
    | .literalString str => some str
    | _ => none
  return ⟨name, filePath⟩

def tablDescribe : Reader Token DescribeNode := do
  expect .kwDescribe
  return ⟨← identifier⟩

def tablDrop : Reader Token DropTableNode := do
  expect .kwDrop
  expect .kwTable
  return ⟨← identifier⟩

def assignment : Reader Token AssignmentNode := do
  let colName ← identifier
  expect .opEq
  return ⟨colName, ← literalValue⟩

def tablUpdate : Reader Token UpdateNode := do
  expect .kwUpdate
  let tableName ← identifier
  expect .kwSet
  let assignments ← sepBy assignment .comma
  return { tableName, assignments, optWhereNode := ← optWhereStatement }

def tablDelete : Reader Token DeleteNode := do
  expect .kwDelete
  expect .kwFrom
  let tableName ← identifier
  return ⟨tableName, ← optWhereStatement⟩

def colList : Reader Token (List Bytes) := sepBy identifier .comma

def optColList : Reader Token (Option (List Bytes)) := do
  if ← takes .lparen then
    let columns ← colList
    expect .rparen
    return some columns
  else return none

def selectionColStatement : Reader Token (Option (List Bytes)) := do
  if ← takes .asterisk then return none else return some (← colList)

def valueRecord : Reader Token ValueRecordNode := do
  expect .lparen
  let values ← sepBy literalValue .comma
  expect .rparen
  return values.map some

def tablInsert : Reader Token InsertNode := do
  expect .kwInsert
  expect .kwInto
  let tableName ← identifier
  let columns ← optColList
  expect .kwValues
  return { tableName, columns, records := ← sepBy valueRecord .comma }

def tablSelect : Reader Token SelectNode := do
  expect .kwSelect
  let columns ← selectionColStatement
  expect .kwFrom
  let tableName ← identifier
  return { columns, tableName, optWhereNode := ← optWhereStatement }

def statement (room : Nat) : Reader Token Statement := do
  match (← get).head? with
  | some .kwCreate => return .create (← tablCrea room)
  | some .kwDrop => return .drop (← tablDrop)
  | some .kwInsert => return .insert (← tablInsert)
  | some .kwSelect => return .select (← tablSelect)
  | some .kwImport => return .csvImport (← csvImport)
  | some .kwDelete => return .delete (← tablDelete)
  | some .kwUpdate => return .update (← tablUpdate)
  | some .kwDescribe => return .describe (← tablDescribe)
  | _ => failure

def terminated (room : Nat) : Reader Token Statement := do
  let stmt ← statement room
  expect .semicolon
  return stmt

def program : Reader Token (List Statement) := do
  let first ← terminated Grammar.firstRoom
  return first :: (← many (terminated Grammar.laterRoom) fun _ => true)

/-- `char` is signed: a byte that no rule of the lexer takes is the end of the input when
its value is not positive. -/
def isEnd : Token → Bool
  | .unexpected c => c = 0 || 128 ≤ c
  | _ => false

/-- The statements of `root`, or none on a parse error. -/
def yyparse (ts : List Token) : Option (List Statement) :=
  match program.run (ts.takeWhile fun t => !isEnd t) with
  | some (stmts, []) => some stmts
  | _ => none

end Jssql.Parser
