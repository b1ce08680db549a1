import Jssql.Theory.Appending
import Jssql.Theory.ColumnLists
import Jssql.Theory.KeyConditions

/-!
The subscripts of the validator of `INSERT`. It walks each record over the width of the
table, as the normalizer leaves records. A column that the table does not have stops the
normalizer before the first record; the validator then reads the records as they were
written, and a short one that it does not reject in time is read behind its end.
-/
namespace Jssql.FileHandler
open Foundation SemanticNormalizer SemanticValidator

variable {n : Nat} {t : TableSchema n} {table : Bytes} {pkIndex : Index} {projectionMask : List Bool}

/-- Every subscript of the validator is inside its vector: there is no other way for it
to end out of bounds. -/
def ReadsInside (node : InsertNode) (ctx : ExecutionContext) : Prop :=
  validateInsertSemantics (normalizeInsert node ctx.untypedTables).1 ctx ≠ .error (.undefined .outOfBounds)

/-- The literal of a value that is given. -/
def givenLiteral (lit : Option LiteralNode) : Option LiteralNode := lit.filter fun l => l.type ≠ .empty

/-- A value that its column does not take: none where one is demanded, or a key that is
stored or was given before. -/
def Violates (pkIndex : Index) (col : UntypedColumnDefNode) (lit : Option LiteralNode) (isWritten : Bool)
    (seenKeys : List Bytes) : Prop :=
  ((isWritten = false ∨ givenLiteral lit = none) ∧ emptyLiteralRuleViolation (getModifiers col.modifiers) ≠ none) ∨
    isPrimaryKey col = true ∧ ∃ l, givenLiteral lit = some l ∧ (l.value ∈ seenKeys ∨ l.value ∈ pkIndex)

def keysAfter (col : UntypedColumnDefNode) (lit : Option LiteralNode) (seenKeys : List Bytes) : List Bytes :=
  match givenLiteral lit with
  | some l => if isPrimaryKey col then l.value :: seenKeys else seenKeys
  | none => seenKeys

/-- One of the values that a record has is not taken. -/
def RecordViolates (pkIndex : Index) : Schema → List Bool → ValueRecordNode → List Bytes → Prop
  | col :: cols, isWritten :: mask, lit :: vals, seenKeys =>
      Violates pkIndex col lit isWritten seenKeys ∨ RecordViolates pkIndex cols mask vals (keysAfter col lit seenKeys)
  | _, _, _, _ => False

def keysOfRecord : Schema → ValueRecordNode → List Bytes → List Bytes
  | col :: cols, lit :: vals, seenKeys => keysOfRecord cols vals (keysAfter col lit seenKeys)
  | _, _, seenKeys => seenKeys

/-- Each record that has fewer values than the table has columns has one that is not taken,
or stands behind a record with such a value or behind one that is too wide. -/
def RejectsInTime (pkIndex : Index) (projectionMask : List Bool) (schema : Schema) :
    List ValueRecordNode → List Bytes → Prop
  | [], _ => True
  | vals :: records, seenKeys =>
      schema.length < vals.length ∨ RecordViolates pkIndex schema projectionMask vals seenKeys ∨
        vals.length = schema.length ∧
          RejectsInTime pkIndex projectionMask schema records (keysOfRecord schema vals seenKeys)

/-! One record -/

theorem validateValue_cases (table : Bytes) (pkIndex : Index) (col : UntypedColumnDefNode)
    (lit : Option LiteralNode) (isWritten : Bool) (seenKeys : List Bytes) :
    (Violates pkIndex col lit isWritten seenKeys ∧
        ∃ report, validateValue table pkIndex col lit isWritten seenKeys = .error report) ∨
      ¬ Violates pkIndex col lit isWritten seenKeys ∧
        validateValue table pkIndex col lit isWritten seenKeys = .ok (keysAfter col lit seenKeys) := by
  rw [validateValue, Violates, keysAfter, isPrimaryKey, givenLiteral]
  generalize lit.filter _ = given
  by_cases missing : (isWritten = false ∨ given = none) ∧
      emptyLiteralRuleViolation (getModifiers col.modifiers) ≠ none
  · obtain ⟨report, violation⟩ := Option.ne_none_iff_exists'.mp missing.2
    have demanded : (!isWritten || given.isNone) = true := by
      rw [Bool.or_eq_true, Bool.not_eq_true', Option.isNone_iff_eq_none]
      exact missing.1
    refine .inl ⟨.inl missing, report, ?_⟩
    simp only [demanded, if_true, violation]
  · have taken : (if (!isWritten || given.isNone) = true then
        emptyLiteralRuleViolation (getModifiers col.modifiers) else none) = none := by
      rw [ite_eq_right_iff, Bool.or_eq_true, Bool.not_eq_true', Option.isNone_iff_eq_none]
      exact fun demanded => not_not.mp fun violation => missing ⟨demanded, violation⟩
    rw [or_iff_right missing]
    simp only [taken]
    cases given with
    | none => exact .inr ⟨by rintro ⟨_, l, ⟨⟩, _⟩, rfl⟩
    | some l =>
        cases (getModifiers col.modifiers).primaryKey with
        | false => exact .inr ⟨by rintro ⟨⟨⟩, _⟩, rfl⟩
        | true =>
            by_cases known : l.value ∈ seenKeys ∨ l.value ∈ pkIndex
            · refine .inl ⟨⟨rfl, l, rfl, known⟩, _, if_pos known⟩
            · refine .inr ⟨?_, if_neg known⟩
              rintro ⟨_, l', ⟨⟩, known'⟩
              exact known known'

theorem validateRecord_cons {vals : ValueRecordNode} {j : Nat} {lit : Option LiteralNode} {isWritten : Bool}
    (value : vals[j]? = some lit) (mask : projectionMask[j]? = some isWritten) (col : UntypedColumnDefNode)
    (cols : Schema) (seenKeys : List Bytes) :
    validateRecord table pkIndex projectionMask vals j (col :: cols) seenKeys =
      match validateValue table pkIndex col lit isWritten seenKeys with
      | .error report => .ok (.error report)
      | .ok seenKeys => validateRecord table pkIndex projectionMask vals (j + 1) cols seenKeys := by
  have hl : index vals j = .ok lit := by rw [index, value]
  have hm : index projectionMask j = .ok isWritten := by rw [index, mask]
  rw [validateRecord, hl, hm, ok_bind, ok_bind]
  rfl

variable (table pkIndex projectionMask) in
/-- A record whose values are all taken is read behind its end unless it is wide enough. -/
theorem validateRecord_cases {vals : ValueRecordNode} (cols : Schema) : ∀ (j : Nat) (seenKeys : List Bytes),
    j ≤ vals.length → j + cols.length ≤ projectionMask.length →
      (RecordViolates pkIndex cols (projectionMask.drop j) (vals.drop j) seenKeys ∧
          ∃ report, validateRecord table pkIndex projectionMask vals j cols seenKeys = .ok (.error report)) ∨
        ¬ RecordViolates pkIndex cols (projectionMask.drop j) (vals.drop j) seenKeys ∧
          validateRecord table pkIndex projectionMask vals j cols seenKeys =
            if j + cols.length ≤ vals.length then .ok (.ok (keysOfRecord cols (vals.drop j) seenKeys))
            else .error (.undefined .outOfBounds) := by
  induction cols with
  | nil =>
      intro j seenKeys inside _
      refine .inr ⟨id, ?_⟩
      rw [if_pos (by simpa using inside)]
      rfl
  | cons col cols ih =>
      intro j seenKeys inside covers
      rw [List.length_cons] at covers
      by_cases last : j = vals.length
      · have behind : index vals j = .error (.undefined .outOfBounds) := by
          rw [index, List.getElem?_eq_none (Nat.le_of_eq last.symm)]
        rw [List.drop_eq_nil_of_le (Nat.le_of_eq last.symm), if_neg (by rw [List.length_cons]; omega),
          validateRecord, behind]
        refine .inr ⟨?_, rfl⟩
        cases projectionMask.drop j <;> exact id
      · have value := List.getElem?_eq_getElem (show j < vals.length by omega)
        have mask := List.getElem?_eq_getElem (show j < projectionMask.length by omega)
        rw [List.drop_eq_getElem_cons (show j < vals.length by omega),
          List.drop_eq_getElem_cons (show j < projectionMask.length by omega), validateRecord_cons value mask,
          RecordViolates, keysOfRecord]
        rcases validateValue_cases table pkIndex col vals[j] projectionMask[j] seenKeys with
          ⟨violates, report, rejected⟩ | ⟨taken, go⟩
        · rw [rejected]
          exact .inl ⟨.inl violates, report, rfl⟩
        · rw [go, or_iff_right taken, List.length_cons, show j + (cols.length + 1) = j + 1 + cols.length by omega]
          exact ih _ _ (by omega) (by omega)

/-! The records -/

/-- The validator stays inside if and only if it rejects in time. -/
theorem validateRecords_inside_iff (maskWidth : projectionMask.length = t.schema.length)
    (records : List ValueRecordNode) : ∀ {seenKeys : List Bytes},
      validateRecords table pkIndex projectionMask t.schema records seenKeys ≠ .error (.undefined .outOfBounds) ↔
        RejectsInTime pkIndex projectionMask t.schema records seenKeys := by
  induction records with
  | nil => intro seenKeys; exact iff_of_true (by rintro ⟨⟩) trivial
  | cons vals records ih =>
      intro seenKeys
      rw [validateRecords, RejectsInTime]
      by_cases wide : t.schema.length < vals.length
      · rw [if_pos wide]
        exact iff_of_true (by rintro ⟨⟩) (.inl wide)
      · rw [if_neg wide, or_iff_right wide]
        have record := validateRecord_cases table pkIndex projectionMask t.schema 0 seenKeys
          (Nat.zero_le vals.length) (by rw [Nat.zero_add, maskWidth])
        rw [List.drop_zero, List.drop_zero, Nat.zero_add] at record
        rcases record with ⟨violates, report, rejected⟩ | ⟨taken, go⟩
        · rw [rejected]
          exact iff_of_true (by rintro ⟨⟩) (.inl violates)
        · rw [go, or_iff_right taken]
          by_cases full : t.schema.length ≤ vals.length
          · rw [if_pos full, and_iff_right (by omega)]
            exact ih
          · rw [if_neg full]
            refine iff_of_false (fun inside => inside rfl) fun inTime => full ?_
            exact Nat.le_of_eq inTime.1.symm

/-! What the normalizer leaves -/

theorem length_partialMask (schema : Schema) (names : List Bytes) : ∀ mask : List Bool,
    (partialMask schema names mask).length = mask.length := by
  induction names with
  | nil => intro mask; rfl
  | cons name names ih =>
      intro mask
      rw [partialMask]
      split
      · rfl
      · rw [ih, List.length_set]

theorem findColumn_eq_length_iff {schema : Schema} {name : Bytes} :
    findColumn schema name = schema.length ↔ name ∉ columnNames schema := by
  have width : schema.length = (columnNames schema).length := (List.length_map ..).symm
  rw [findColumn, width]
  exact List.idxOf_eq_length_iff

theorem projectionMaskOf_ok_iff {schema : Schema} (names : List Bytes) : ∀ {mask : List Bool},
    (∃ mask', projectionMaskOf schema names mask = .ok mask') ↔ ∀ name ∈ names, name ∈ columnNames schema := by
  induction names with
  | nil => intro mask; exact iff_of_true ⟨mask, rfl⟩ (by simp)
  | cons name names ih =>
      intro mask
      rw [projectionMaskOf, List.forall_mem_cons]
      by_cases unknown : findColumn schema name = schema.length
      · rw [if_pos unknown]
        refine iff_of_false ?_ fun all => findColumn_eq_length_iff.mp unknown all.1
        rintro ⟨mask', ⟨⟩⟩
      · rw [if_neg unknown, ih, and_iff_right (not_not.mp (mt findColumn_eq_length_iff.mpr unknown))]

/-- Records that the normalizer has come to are as wide as the table, and the one that it
has stopped at is too wide. -/
theorem rejectsInTime_normalizeRecords (pkIndex : Index) (projectionMask : List Bool)
    (schema : Schema) (columns : List Bytes) (records : List ValueRecordNode) : ∀ seenKeys : List Bytes,
      RejectsInTime pkIndex projectionMask schema (normalizeRecords schema columns records).1 seenKeys := by
  induction records with
  | nil => intro seenKeys; trivial
  | cons record records ih =>
      intro seenKeys
      rw [normalizeRecords]
      by_cases wide : schema.length < record.length
      · rw [if_pos wide]
        exact .inl wide
      · rw [if_neg wide]
        refine .inr (.inr ⟨?_, ih _⟩)
        rw [length_normalizeRow, List.length_replicate]

/-- The validator of an `INSERT` reads inside its records if and only if every listed column
is one of the table or it rejects the records, as they are written, before it has read
behind the end of one. -/
theorem readsInside_iff {ctx : ExecutionContext} {node : InsertNode} {columns : Map Bytes Index} {idx : Index}
    (known : ctx.untypedTables.lookup node.tableName = some t.schema)
    (hc : ctx.indices.lookup node.tableName = some columns) (hi : columns.lookup t.pkColName = some idx) :
    ReadsInside node ctx ↔ (∀ name ∈ listedColumns t.schema node, name ∈ columnNames t.schema) ∨
      RejectsInTime idx (partialMask t.schema (listedColumns t.schema node)
        (List.replicate t.schema.length false)) t.schema node.records [] := by
  have validated (node' : InsertNode) (name : node'.tableName = node.tableName)
      (maskWidth : node'.projectionMask.length = t.schema.length) :
      validateInsertSemantics node' ctx ≠ .error (.undefined .outOfBounds) ↔
        RejectsInTime idx node'.projectionMask t.schema node'.records [] := by
    rw [validateInsertSemantics, name, known]
    dsimp only
    rw [primaryKeyIndexOf_eq hc hi, ok_bind]
    exact validateRecords_inside_iff maskWidth node'.records
  have listed : (∃ mask', projectionMaskOf t.schema (listedColumns t.schema node)
      (List.replicate t.schema.length false) = .ok mask') ↔ _ := projectionMaskOf_ok_iff _
  rw [ReadsInside, ← listed]
  cases mask : projectionMaskOf t.schema (listedColumns t.schema node) (List.replicate t.schema.length false) with
  | error name =>
      have shape : (normalizeInsert node ctx.untypedTables).1 = { node with
          columns := some (listedColumns t.schema node)
          projectionMask := partialMask t.schema (listedColumns t.schema node)
            (List.replicate t.schema.length false) } := by
        simp only [normalizeInsert, known]
        rw [listedColumns] at mask
        rw [mask]
        rfl
      rw [shape, or_iff_right (by rintro ⟨mask', ⟨⟩⟩)]
      exact validated _ rfl (by rw [length_partialMask, List.length_replicate])
  | ok mask' =>
      refine iff_of_true ?_ (.inl ⟨mask', rfl⟩)
      have shape : ∃ columns', (normalizeInsert node ctx.untypedTables).1 = { node with
          columns := columns'
          records := (normalizeRecords t.schema (listedColumns t.schema node) node.records).1
          projectionMask := mask' } := by
        simp only [normalizeInsert, known]
        rw [listedColumns] at mask ⊢
        rw [mask]
        dsimp only
        split
        · exact ⟨_, rfl⟩
        · exact ⟨_, rfl⟩
      obtain ⟨columns', shape⟩ := shape
      have width : mask'.length = t.schema.length := by
        rw [projectionMaskOf_length _ mask, List.length_replicate]
      rw [shape]
      exact (validated { node with columns := columns', records := _, projectionMask := mask' } rfl width).mpr
        (rejectsInTime_normalizeRecords idx mask' t.schema (listedColumns t.schema node) node.records [])

/-- All listed columns are there, and one record is too wide. -/
theorem readsInside_iff_pair :
    let file := pairFile [] (ascii "x") (by decide)
    let w := singleTable (ascii "people") pairSchema file ∅
    ReadsInside ⟨ascii "people", some [ascii "id"],
      [[some ⟨.number, ascii "1"⟩], [some emptyLiteral, none, none], []], []⟩ w.ctx := by
  intro file w
  exact (readsInside_iff (Finmap.lookup_insert _) (Finmap.lookup_insert _) (Finmap.lookup_insert _)).mpr
    (.inl (by decide))

/-- A column that is not there and one value: the second value is read and there is none. -/
theorem not_readsInside :
    let file := pairFile [] (ascii "x") (by decide)
    let w := singleTable (ascii "people") pairSchema file ∅
    ¬ ReadsInside ⟨ascii "people", some [ascii "id", ascii "nope"], [[some ⟨.number, ascii "1"⟩]], []⟩ w.ctx :=
  fun inside => inside rfl

end Jssql.FileHandler
