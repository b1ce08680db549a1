import Jssql.Theory.AcceptedRecords

/-!
`NOT NULL` and `PRIMARY KEY`. The validator of `INSERT` looks at the kind of a
literal only, and `UPDATE` and `IMPORT` have no check at all, so a constrained
column stays free of NULL as long as no statement brings one.
-/
namespace Jssql.FileHandler
open Foundation ConditionEvaluator SemanticNormalizer SemanticValidator InterpreterVisitor

variable {n : Nat} {t : TableSchema n}

/-- The column is declared `NOT NULL` or `PRIMARY KEY`. -/
def Constrained (col : UntypedColumnDefNode) : Prop :=
  (getModifiers col.modifiers).notNull = true ∨ (getModifiers col.modifiers).primaryKey = true

/-- The value that a condition takes for NULL. -/
def IsNull (value : Bytes) : Prop := classify value = .nullType

theorem isNull_iff {value : Bytes} : IsNull value ↔ value = [] ∨ value = ascii "NULL" := by
  rw [IsNull, classify]
  by_cases null : value.isEmpty || value == ascii "NULL"
  · rw [if_pos null]
    simpa using null
  · rw [if_neg null]
    have other : ¬ (value = [] ∨ value = ascii "NULL") := by simpa using null
    refine iff_of_false ?_ other
    split
    · simp
    · split <;> simp

/-- The constrained columns of the record hold no NULL. -/
structure NeverNull (t : TableSchema n) (r : TableRecord n) : Prop where
  key : ¬ IsNull r.pkLiteral
  payload : ∀ column ∈ t.payloadSchema.zip r.payloadLiterals, Constrained column.1 → ¬ IsNull column.2

/-- No default is NULL. -/
def DefaultsNotNull (schema : Schema) : Prop :=
  ∀ col ∈ schema, (getModifiers col.modifiers).hasDefault = true →
    ∀ value, getDefaultValue col.modifiers = .ok value → ¬ IsNull value

/-! One record -/

/-- No literal given for a constrained column is NULL without its quotes. -/
def GivesNoNull (t : TableSchema n) (projectionMask : List Bool) (record : ValueRecordNode) : Prop :=
  ∀ (i : Nat) (col : UntypedColumnDefNode) (l : LiteralNode), t.schema[i]? = some col → Constrained col →
    record[i]? = some (some l) → projectionMask[i]? = some true → l.type ≠ .empty → ¬ IsNull (removeOuterQuotes l.value)

/-- A literal is given for the column. -/
def Given (lit : Option LiteralNode) (isWritten : Bool) : Prop :=
  isWritten = true ∧ ∃ l, lit = some l ∧ l.type ≠ .empty

/-- As the validator of `INSERT` has it: a literal is missing at most for a column that
is not a key and has a default where it is constrained. -/
def Filled (t : TableSchema n) (projectionMask : List Bool) (record : ValueRecordNode) : Prop :=
  ∀ (i : Nat) (col : UntypedColumnDefNode) (lit : Option LiteralNode), t.schema[i]? = some col →
    record[i]? = some lit → ∃ isWritten, projectionMask[i]? = some isWritten ∧ (Given lit isWritten ∨
      (getModifiers col.modifiers).primaryKey = false ∧
        ((getModifiers col.modifiers).notNull = true → (getModifiers col.modifiers).hasDefault = true))

/-- A property of what is stored for each column besides the key. -/
theorem payloadValues_forall {P : UntypedColumnDefNode × Bytes → Prop} {record : ValueRecordNode}
    {projectionMask : List Bool} {pkIdx : Nat} (cols : Schema) : ∀ {i : Nat} {values : List Bytes},
      payloadValues record projectionMask pkIdx i cols = .ok values →
      (∀ j col lit isWritten value, cols[j]? = some col → record[i + j]? = some lit →
        projectionMask[i + j]? = some isWritten → finalLiteral col lit isWritten = .ok value → P (col, value)) →
      ∀ column ∈ (besides pkIdx i cols).zip values, P column := by
  induction cols with
  | nil => intro i values _ _ column mem; cases mem
  | cons head rest ih =>
      intro i values h all
      have later : ∀ j col lit isWritten value, rest[j]? = some col → record[i + 1 + j]? = some lit →
          projectionMask[i + 1 + j]? = some isWritten → finalLiteral col lit isWritten = .ok value →
          P (col, value) := by
        intro j col lit isWritten value hcol hlit hmask stored
        rw [Nat.add_assoc, Nat.add_comm 1 j] at hlit hmask
        exact all (j + 1) col lit isWritten value hcol hlit hmask stored
      rw [payloadValues] at h
      by_cases here : i = pkIdx
      · rw [if_pos here] at h
        rw [besides, if_pos here]
        exact ih h later
      · rw [if_neg here] at h
        rw [besides, if_neg here]
        cases hlit : record[i]? with
        | none => rw [index, hlit] at h; cases h
        | some lit =>
            cases hmask : projectionMask[i]? with
            | none => rw [index, index, hlit, hmask] at h; cases h
            | some isWritten =>
                rw [index, index, hlit, hmask, ok_bind, ok_bind] at h
                cases stored : finalLiteral head lit isWritten with
                | error e => rw [stored] at h; cases h
                | ok value =>
                    cases tail : payloadValues record projectionMask pkIdx (i + 1) rest with
                    | error e => rw [stored, tail] at h; cases h
                    | ok values' =>
                        rw [stored, tail] at h
                        cases h
                        rw [List.zip_cons_cons, List.forall_mem_cons]
                        exact ⟨all 0 head lit isWritten value rfl hlit hmask stored, ih tail later⟩

theorem isPrimaryKey_pkCol (t : TableSchema n) : isPrimaryKey t.pkCol = true :=
  List.findIdx_getElem (w := t.pkIdx_lt)

/-- A record written from such literals holds no NULL. -/
theorem writtenRecord_neverNull {type : RecordType} {projectionMask : List Bool} {record : ValueRecordNode}
    {r : TableRecord n} (defaults : DefaultsNotNull t.schema) (filled : Filled t projectionMask record)
    (noNull : GivesNoNull t projectionMask record)
    (written : writtenRecord t type projectionMask record = .ok r.toStoredRecord) : NeverNull t r := by
  obtain ⟨key, values, hkey, hvalues, _, stored⟩ := writtenRecord_ok written
  have pkLiteral : r.pkLiteral = key := congrArg StoredRecord.pkLiteral stored
  have payloadLiterals : r.payloadLiterals = values := congrArg StoredRecord.payloadLiterals stored
  refine ⟨?_, ?_⟩
  · cases hlit : record[t.pkIdx]? with
    | none => rw [serializedKey, index, hlit] at hkey; cases hkey
    | some lit =>
        obtain ⟨isWritten, hmask, ⟨rfl, l, rfl, nonempty⟩ | ⟨other, _⟩⟩ :=
          filled t.pkIdx t.pkCol lit t.getElem?_pkIdx hlit
        · have value : key = removeOuterQuotes l.value := by
            rw [serializedKey, index, hlit] at hkey
            cases hkey
            rfl
          rw [pkLiteral, value]
          exact noNull _ _ l t.getElem?_pkIdx (.inr (isPrimaryKey_pkCol t)) hlit hmask nonempty
        · rw [show (getModifiers t.pkCol.modifiers).primaryKey = true from isPrimaryKey_pkCol t] at other
          cases other
  · rw [payloadLiterals, ← payloadSchema_eq_besides]
    refine payloadValues_forall t.schema hvalues fun j col lit isWritten value hcol hlit hmask final
      constrained => ?_
    rw [Nat.zero_add] at hlit hmask
    obtain ⟨isWritten', hmask', filled⟩ := filled j col lit hcol hlit
    cases hmask.symm.trans hmask'
    rcases filled with ⟨rfl, l, rfl, nonempty⟩ | ⟨other, default⟩
    · rw [finalLiteral] at final
      simp only [Bool.not_true, Bool.false_or, decide_eq_true_eq, if_neg nonempty] at final
      cases final
      exact noNull j col l hcol constrained hlit hmask nonempty
    · -- where the literal is missing the default stands, and a given one is no NULL
      have hasDefault := default (constrained.resolve_right (by simp [other]))
      have mem := List.mem_of_getElem? hcol
      cases lit with
      | none => exact defaults col mem hasDefault value final
      | some l =>
          rw [finalLiteral] at final
          split at final
          · exact defaults col mem hasDefault value final
          next given =>
              cases final
              simp only [Bool.or_eq_true, Bool.not_eq_true', decide_eq_true_eq, not_or,
                Bool.not_eq_false] at given
              exact noNull j col l hcol constrained hlit (given.1 ▸ hmask) given.2

/-! The records of a statement -/

theorem validateValue_given {table : Bytes} {pkIndex : Index} {col : UntypedColumnDefNode}
    {lit : Option LiteralNode} {isWritten : Bool} {seen seen' : List Bytes}
    (valid : validateValue table pkIndex col lit isWritten seen = .ok seen') :
    Given lit isWritten ∨ (getModifiers col.modifiers).primaryKey = false ∧
      ((getModifiers col.modifiers).notNull = true → (getModifiers col.modifiers).hasDefault = true) := by
  by_cases given : Given lit isWritten
  · exact .inl given
  · have missing : (!isWritten || (lit.filter fun l => l.type ≠ .empty).isNone) = true := by
      rw [Bool.or_eq_true, Bool.not_eq_true', Option.isNone_iff_eq_none, Option.filter_eq_none_iff]
      by_contra both
      simp only [not_or, Bool.not_eq_false, not_forall] at both
      obtain ⟨written, l, hl, nonempty⟩ := both
      exact given ⟨written, l, hl, by simpa using nonempty⟩
    simp only [validateValue, missing, if_true, emptyLiteralRuleViolation] at valid
    cases key : (getModifiers col.modifiers).primaryKey with
    | true => simp [key] at valid
    | false =>
        refine .inr ⟨rfl, fun notNull => ?_⟩
        cases default : (getModifiers col.modifiers).hasDefault with
        | true => rfl
        | false => simp [key, notNull, default] at valid

theorem filled_of_valid {w : World} {node : InsertNode}
    (known : w.ctx.untypedTables.lookup node.tableName = some t.schema)
    (valid : validateInsertSemantics node w.ctx = .ok none) {record : ValueRecordNode}
    (mem : record ∈ node.records) : Filled t node.projectionMask record := by
  obtain ⟨_, _, _, accepted⟩ := validateInsertSemantics_record known valid mem
  intro i col lit hcol hlit
  rw [← Nat.zero_add i] at hlit ⊢
  obtain ⟨isWritten, hmask, _, _, value⟩ := validateRecord_value t.schema accepted i col lit hcol hlit
  exact ⟨isWritten, hmask, validateValue_given value⟩

/-- `UPDATE` and `IMPORT` give a text for every column. -/
theorem filled_of_strings {record : ValueRecordNode}
    (strings : ∀ lit ∈ record, ∃ value, lit = some ⟨.string, value⟩) : Filled t (allColumns t) record := by
  intro i col lit hcol hlit
  obtain ⟨value, rfl⟩ := strings lit (List.mem_of_getElem? hlit)
  have bound : i < t.schema.length := (List.getElem?_eq_some_iff.mp hcol).1
  exact ⟨true, by rw [allColumns, List.getElem?_replicate, if_pos bound], .inl ⟨rfl, _, rfl, by simp⟩⟩

/-! Statements and runs -/

/-- The assigned literals, and the values that the row keeps at its places, are no NULL
in a constrained column once their quotes are taken off. -/
def UpdatesWithoutNull (t : TableSchema n) (node : UpdateNode) (row : Record) : Prop :=
  ∀ (i : Nat) (col : UntypedColumnDefNode), t.schema[i]? = some col → Constrained col →
    (node.inverseProjMask[i]? = some true → ∀ value, row[i]? = some value →
      ¬ IsNull (removeOuterQuotes value)) ∧
    (node.inverseProjMask[i]? = some false → ∀ literal, node.schemaIndexToLiteralMap.lookup i = some literal →
      ¬ IsNull (removeOuterQuotes literal))

/-- The statement, if it is accepted, brings no NULL to a constrained column. -/
def BringsNoNull (t : TableSchema n) (table : Bytes) (w : World) : Statement → Prop
  | .insert node => ∀ node', normalizeInsert node w.ctx.untypedTables = (node', .normalized) →
      validateInsertSemantics node' w.ctx = .ok none →
      ∀ record ∈ node'.records, GivesNoNull t node'.projectionMask record
  | .csvImport node => ∀ record ∈ csvRecords w node, GivesNoNull t (allColumns t) record
  | .update node => ∀ node', normalizeUpdate node w.ctx.untypedTables = .ok (node', true) →
      validateUpdateSemantics node' w.ctx = .ok none → ∀ f : TableFile n, HasFile w table f → ∀ r ∈ liveRecords f.records,
        whereMatches node'.optWhereNode r.row = .ok true → UpdatesWithoutNull t node' r.row
  | _ => True

theorem givesNoNull_updatedRow {node : UpdateNode} {r : TableRecord n}
    (ready : UpdateReady (n + 1) node.inverseProjMask node.schemaIndexToLiteralMap)
    (noNull : UpdatesWithoutNull t node r.row) :
    GivesNoNull t (allColumns t) (stringRecord (updatedRow node r.row)) := by
  intro i col l hcol constrained hlit _ _
  obtain ⟨keeps, assigns⟩ := noNull i col hcol constrained
  have bound : i < n + 1 := t.width ▸ (List.getElem?_eq_some_iff.mp hcol).1
  have value : l.value = updatedValue node r.row i := by
    have place : (List.range' 0 r.row.length)[i]? = some i := by
      rw [List.getElem?_range' (by rw [r.length_row]; exact bound)]
      simp
    rw [stringRecord, updatedRow, List.getElem?_map, List.getElem?_map, place] at hlit
    cases hlit
    rfl
  have inRow : i < r.row.length := by rw [r.length_row]; exact bound
  have inMask : i < node.inverseProjMask.length := by rw [ready.length]; exact bound
  have mask := List.getElem?_eq_getElem inMask
  rw [value, updatedValue]
  cases keep : node.inverseProjMask[i] with
  | true =>
      rw [keep] at mask
      rw [if_pos mask, List.getElem?_eq_getElem inRow]
      exact keeps mask _ (List.getElem?_eq_getElem inRow)
  | false =>
      rw [keep] at mask
      obtain ⟨literal, found⟩ := ready.literal i mask
      rw [if_neg (by simp [mask]), found]
      exact assigns mask literal found

theorem Appended.neverNull {type : RecordType} {projectionMask : List Bool} {records : List ValueRecordNode}
    {rs : List (TableRecord n)} (appended : Appended t type projectionMask records rs)
    (defaults : DefaultsNotNull t.schema) (filled : ∀ record ∈ records, Filled t projectionMask record)
    (noNull : ∀ record ∈ records, GivesNoNull t projectionMask record) : ∀ r ∈ rs, NeverNull t r := by
  intro r hr
  have stored : r.toStoredRecord ∈ (writtenRecords t type projectionMask records).1 :=
    appended.stored ▸ List.mem_map_of_mem hr
  obtain ⟨record, mem, written⟩ := mem_writtenRecords stored
  exact writtenRecord_neverNull defaults (filled record mem) (noNull record mem) written

theorem RowsAfter.neverNull {env : Env} {w : World} {f : TableFile n} {stmt : Statement}
    {rows : List (TableRecord n)} (after : RowsAfter env t w f stmt rows)
    (known : w.ctx.untypedTables.lookup stmt.tableName = some t.schema) (file : HasFile w stmt.tableName f)
    (defaults : DefaultsNotNull t.schema) (brings : BringsNoNull t stmt.tableName w stmt)
    (old : ∀ r ∈ liveRecords f.records, NeverNull t r) : ∀ r ∈ rows, NeverNull t r := by
  cases after with
  | fewer kept => exact fun r hr => old r (kept.subset hr)
  | @inserted node node' rs normalized valid appended =>
      have known' : w.ctx.untypedTables.lookup node'.tableName = some t.schema := by
        rw [normalizeInsert_tableName normalized]
        exact known
      have new := appended.neverNull defaults (fun _ mem => filled_of_valid known' valid mem)
        (brings node' normalized valid)
      exact fun r hr => (List.mem_append.mp hr).elim (old r) (new r)
  | @imported node rs appended =>
      have new := appended.neverNull defaults (fun record mem => filled_of_strings fun lit hlit => by
        obtain ⟨row, _, rfl⟩ := List.mem_map.mp mem
        obtain ⟨value, _, rfl⟩ := List.mem_map.mp hlit
        exact ⟨value, rfl⟩) brings
      exact fun r hr => (List.mem_append.mp hr).elim (old r) (new r)
  | @updated node node' rs normalized valid complete appended =>
      obtain ⟨_, ready, _⟩ := normalizeUpdate_ok known normalized
      have new := appended.neverNull defaults
        (fun record mem => filled_of_strings fun lit hlit => by
          obtain ⟨r, _, rfl⟩ := List.mem_map.mp mem
          obtain ⟨value, _, rfl⟩ := List.mem_map.mp hlit
          exact ⟨value, rfl⟩)
        (fun record mem => by
          obtain ⟨r, matched, rfl⟩ := List.mem_map.mp mem
          obtain ⟨live, answer⟩ := mem_matched matched
          exact givesNoNull_updatedRow ready (brings node' normalized valid f file r live answer))
      have copies := MarkedFrom.scan (fun r => whereMatches node'.optWhereNode r.row)
        (missingFault env w node'.tableName) f.records
      exact fun r hr => (List.mem_append.mp hr).elim
        (fun kept => old r (copies.liveRecords_sublist.subset kept)) (new r)

/-- A statement about the table that is neither `CREATE` nor `DROP`, writes no record
too long for a file, and brings no NULL. -/
def WithoutNull (t : TableSchema n) (table : Bytes) (stmt : Statement) (w : World) : Prop :=
  stmt.tableName = table ∧ stmt.KeepsTables ∧ (∀ f : TableFile n, HasFile w table f → Fits t f w stmt) ∧
    BringsNoNull t table w stmt

/-- No live record of the table file has a NULL in a constrained column. -/
def HoldsNoNull (t : TableSchema n) (table : Bytes) (w : World) : Prop :=
  ∃ f : TableFile n, HasFile w table f ∧ ∀ r ∈ liveRecords f.records, NeverNull t r

theorem NeverNull.of_row {r s : TableRecord n} (same : r.row = s.row) (h : NeverNull t s) : NeverNull t r := by
  obtain ⟨key, payload⟩ := List.cons.inj same
  exact ⟨key ▸ h.key, payload ▸ h.payload⟩

/-- It does not matter as which list of records the file is read. -/
theorem HoldsNoNull.records {table : Bytes} {w : World} (h : HoldsNoNull t table w) {f : TableFile n}
    (file : HasFile w table f) : ∀ r ∈ liveRecords f.records, NeverNull t r := by
  obtain ⟨f', file', old⟩ := h
  have same : f.bytes = f'.bytes := Option.some.inj (file.symm.trans file')
  intro r hr
  have mem : r.row ∈ (liveRecords f'.records).map fun r => r.row :=
    rows_of_bytes t same ▸ List.mem_map_of_mem hr
  obtain ⟨s, hs, row⟩ := List.mem_map.mp mem
  exact (old s hs).of_row row.symm

/-- As long as no statement brings a NULL to a constrained column, there is none in any
state of the run. -/
theorem never_null (env : Env) {table : Bytes} {w w' : World} {f : TableFile n} {idx : Index}
    (sound : Sound t table w f idx) (defaults : DefaultsNotNull t.schema) (start : HoldsNoNull t table w)
    (run : Reachable env (WithoutNull t table) w w') : HoldsNoNull t table w' := by
  let holds (v : World) : Prop := ∃ (f : TableFile n) (idx : Index), Sound t table v f idx ∧
    ∀ r ∈ liveRecords f.records, NeverNull t r
  have final : holds w' := by
    refine run.invariant ?_ ⟨f, idx, sound, start.records sound.file⟩
    rintro stmt v ⟨rfl, other, fits, brings⟩ ⟨f, idx, sound, old⟩ v' step
    obtain ⟨rows, ⟨_, f', idx', sound', live⟩, after⟩ := sound.step step rfl other (fits f sound.file)
    refine ⟨f', idx', sound', ?_⟩
    rw [live]
    exact after.neverNull sound.registered.schema sound.file defaults brings old
  obtain ⟨f', _, sound', kept⟩ := final
  exact ⟨f', sound'.file, kept⟩

/-- A key and a column that is `NOT NULL`. -/
def notNullSchema : TableSchema 1 where
  schema := [⟨ascii "id", [ascii "PRIMARY KEY"]⟩, ⟨ascii "name", [ascii "NOT NULL"]⟩]
  pkColName := ascii "id"
  width := rfl
  few := by decide
  key := by decide

theorem notNullSchema_defaults : DefaultsNotNull notNullSchema.schema := by
  intro col mem hasDefault
  have none_ : ∀ col ∈ notNullSchema.schema, (getModifiers col.modifiers).hasDefault = false := by decide
  rw [none_ col mem] at hasDefault
  cases hasDefault

/-- The table without rows. -/
def noRows : World := singleTable (ascii "t") notNullSchema (.fresh []) ∅

theorem noRows_sound : Sound notNullSchema (ascii "t") noRows (.fresh []) (TableFile.fresh (n := 1) []).index :=
  singleTable_sound _ _ _ _ (by rintro r ⟨⟩)

theorem noRows_holdsNoNull : HoldsNoNull notNullSchema (ascii "t") noRows :=
  ⟨_, noRows_sound.file, by rintro r ⟨⟩⟩

theorem nameRecord_fits (value : Bytes) (short : value.length < 2 ^ 62) :
    (storedRecord notNullSchema .insert (ascii "1") [value]).recordLength < 2 ^ 63 := by
  rw [recordLength_storedRecord notNullSchema rfl]
  have key : (ascii "1").length = 1 := rfl
  simp only [List.map_cons, List.map_nil, List.sum_cons, List.sum_nil, columnOffsetSize, key]
  omega

/-- The row that `INSERT` writes with this value in the column. -/
def nameRecord (value : Bytes) (short : value.length < 2 ^ 62) : TableRecord 1 :=
  tableRecord notNullSchema .insert (ascii "1") [value] List.length_singleton (nameRecord_fits value short)

/-- `INSERT INTO t VALUES (1, 'x')`, as the parser and as the normalizer leave it. -/
def insertName : InsertNode :=
  ⟨ascii "t", none, [[some ⟨.number, ascii "1"⟩, some ⟨.string, ascii "'x'"⟩]], []⟩

def insertedName : InsertNode :=
  ⟨ascii "t", some [ascii "id", ascii "name"],
    [[some ⟨.number, ascii "1"⟩, some ⟨.string, ascii "'x'"⟩]], [true, true]⟩

theorem insertName_normalized :
    normalizeInsert insertName noRows.ctx.untypedTables = (insertedName, .normalized) := rfl

theorem insertName_withoutNull : WithoutNull notNullSchema (ascii "t") (.insert insertName) noRows := by
  refine ⟨rfl, trivial, fun f _ => ?_, ?_⟩
  · rw [Fits, insertName_normalized]
    decide
  · intro node' normalized _ record mem
    rw [insertName_normalized] at normalized
    cases normalized
    cases List.mem_singleton.mp mem
    intro i col l hcol _ hlit _ _
    rw [isNull_iff]
    rcases i with _ | _ | i
    · cases hlit; decide
    · cases hlit; decide
    · cases hcol

/-- One statement that brings a name to the table. -/
theorem never_null_name : ∃ w', Step ⟨false, id⟩ (.insert insertName) noRows w' ∧
    HoldsNoNull notNullSchema (ascii "t") w' := by
  have appended : Appended notNullSchema .insert [true, true] insertedName.records
      [nameRecord (ascii "x") (by decide)] :=
    ⟨rfl, List.forall_mem_singleton.mpr rfl, List.forall_mem_singleton.mpr (tableRecord_indexedBy _ _ _ _ _ _)⟩
  have sound : Sound notNullSchema insertedName.tableName noRows _ _ := noRows_sound
  obtain ⟨w', _, step, _⟩ := sound.step_insert ⟨false, id⟩ insertName_normalized rfl appended rfl
  exact ⟨w', step, never_null ⟨false, id⟩ noRows_sound notNullSchema_defaults noRows_holdsNoNull
    (.single ⟨_, insertName_withoutNull, step⟩)⟩

/-- The keyword NULL in its place: the literal is not empty, and is written. -/
def insertNull : InsertNode :=
  ⟨ascii "t", none, [[some ⟨.number, ascii "1"⟩, some ⟨.nullVal, ascii "NULL"⟩]], []⟩

def insertedNull : InsertNode :=
  ⟨ascii "t", some [ascii "id", ascii "name"],
    [[some ⟨.number, ascii "1"⟩, some ⟨.nullVal, ascii "NULL"⟩]], [true, true]⟩

theorem not_never_null : DefaultsNotNull notNullSchema.schema ∧
    HoldsNoNull notNullSchema (ascii "t") noRows ∧
    ∃ w', Step ⟨false, id⟩ (.insert insertNull) noRows w' ∧ ¬ HoldsNoNull notNullSchema (ascii "t") w' := by
  let written := nameRecord (ascii "NULL") (by decide)
  have appended : Appended notNullSchema .insert [true, true] insertedNull.records [written] :=
    ⟨rfl, List.forall_mem_singleton.mpr rfl, List.forall_mem_singleton.mpr (tableRecord_indexedBy _ _ _ _ _ _)⟩
  have normalized : normalizeInsert insertNull noRows.ctx.untypedTables = (insertedNull, .normalized) := rfl
  have sound : Sound notNullSchema insertedNull.tableName noRows _ _ := noRows_sound
  obtain ⟨w', _, step, sound'⟩ := sound.step_insert ⟨false, id⟩ normalized rfl appended rfl
  refine ⟨notNullSchema_defaults, noRows_holdsNoNull, w', step, fun holds => ?_⟩
  have stored := holds.records sound'.file written (mem_liveRecords.mpr ⟨List.mem_cons_self, rfl⟩)
  exact stored.payload (⟨ascii "name", [ascii "NOT NULL"]⟩, ascii "NULL") List.mem_cons_self (.inl (by decide))
    (isNull_iff.mpr (.inr rfl))

end Jssql.FileHandler
