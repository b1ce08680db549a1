import Jssql.Types

/-!
`Utilities`: the string helpers, the reading of column modifiers, and the
look-ups of columns by name. `getDefaultValue` cuts the default out of the
trimmed modifier at a fixed place and throws when the modifier is shorter;
`extractPrimaryKeyColumn` runs off its end when no column is a key.
-/
namespace Jssql
open Foundation

/-! `StringUtils` -/

def isTrimmed (c : UInt8) : Bool := (ascii " \t\n\r" ++ [12, 11]).contains c

def trim (s : Bytes) : Bytes := (s.dropWhile isTrimmed).rdropWhile isTrimmed

def doubleQuote : UInt8 := 34

def singleQuote : UInt8 := 39

def isWrappedIn (quote : UInt8) (s : Bytes) : Bool :=
  2 ≤ s.length && s.head? == some quote && s.getLast? == some quote

def removeOuterQuotes (s : Bytes) : Bytes :=
  if isWrappedIn doubleQuote s then (s.drop 1).take (s.length - 2)
  else if isWrappedIn singleQuote s then (s.drop 1).take (s.length - 2)
  else s

/-- `std::string::find` reports an occurrence. -/
def contains (s pattern : Bytes) : Bool := decide (pattern <:+: s)

/-- `std::string::substr` from a position to the end. -/
def substr (s : Bytes) (pos : Nat) : Except Fault Bytes :=
  if s.length < pos then .error (.exception .substr) else .ok (s.drop pos)

/-! `InsertUtils` -/

def readModifier (answer : ColModifiers) (modifier : Bytes) : ColModifiers :=
  let current := trim modifier
  if contains current (ascii "DEFAULT") then { answer with hasDefault := true }
  else if current = ascii "PRIMARY KEY" then { answer with primaryKey := true }
  else if current = ascii "NOT NULL" then { answer with notNull := true }
  else if current = ascii "UNIQUE" then { answer with unique := true }
  else answer

def getModifiers (modifiers : List Bytes) : ColModifiers :=
  modifiers.foldl readModifier ⟨false, false, false, false⟩

/-- The violation reported for an empty literal, if any. -/
def emptyLiteralRuleViolation (modifiers : ColModifiers) : Option ErrorReport :=
  if modifiers.primaryKey then some ⟨.insertPrimaryKeyCannotBeEmpty, []⟩
  else if modifiers.notNull && !modifiers.hasDefault then
    some ⟨.insertNotNullNoDefaultViolation, []⟩
  else none

def getDefaultValue : List Bytes → Except Fault Bytes
  | [] => .ok []
  | modifier :: rest =>
      if contains (trim modifier) (ascii "DEFAULT") then
        (substr (trim modifier) 8).map removeOuterQuotes
      else getDefaultValue rest

/-! `ColumnUtils` -/

def isPrimaryKey (col : UntypedColumnDefNode) : Bool := (getModifiers col.modifiers).primaryKey

def extractPrimaryKeyColumn : Schema → Except Fault Bytes
  | [] => .error (.undefined .missingReturn)
  | col :: rest => if isPrimaryKey col then .ok col.name else extractPrimaryKeyColumn rest

def columnNames (schema : Schema) : List Bytes := schema.map (·.name)

/-- The first of the named columns that the table does not have. -/
def missingColumn (columns : List Bytes) (schema : Schema) : Option Bytes :=
  columns.find? fun name => name ∉ columnNames schema

/-- `std::find` over the column names: the distance from the beginning. -/
def findColumn (schema : Schema) (name : Bytes) : Nat := (columnNames schema).idxOf name

/-! Lemmas -/

theorem length_removeOuterQuotes_le (s : Bytes) : (removeOuterQuotes s).length ≤ s.length := by
  unfold removeOuterQuotes
  split
  · simp only [List.length_take, List.length_drop]; omega
  · split
    · simp only [List.length_take, List.length_drop]; omega
    · exact Nat.le_refl _

theorem removeOuterQuotes_of_head {c : UInt8} {s : Bytes} (hd : c ≠ doubleQuote)
    (hs : c ≠ singleQuote) : removeOuterQuotes (c :: s) = c :: s := by
  simp [removeOuterQuotes, isWrappedIn, hd, hs]

@[simp] theorem removeOuterQuotes_nil : removeOuterQuotes [] = [] := rfl

/-- Single quotes around a text are taken off whatever the text is. -/
theorem removeOuterQuotes_singleQuoted (body : Bytes) :
    removeOuterQuotes (singleQuote :: body ++ [singleQuote]) = body := by
  have different : singleQuote ≠ doubleQuote := by decide
  have wrapped : isWrappedIn singleQuote (singleQuote :: body ++ [singleQuote]) = true := by
    simp [isWrappedIn, List.getLast?_cons]
  have notDouble : isWrappedIn doubleQuote (singleQuote :: body ++ [singleQuote]) = false := by
    simp [isWrappedIn, different]
  rw [removeOuterQuotes, notDouble, wrapped]
  simp

end Jssql
