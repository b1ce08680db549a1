import Jssql.Theory.DeleteReader
import Jssql.Theory.Maintenance

/-!
What `serializeNormalizedRecord` writes. A payload that is computed at all has the
shape of a record of its table, with an offset region that fits its values; the
write appends its encoding and enters the key at the offset of its type byte.
-/
namespace Jssql.FileHandler
open Foundation Foundation.Stream

variable {n : Nat}

/-- The columns from index `i` on, without the one at `pkIdx`. -/
def besides (pkIdx : Nat) : Nat → Schema → Schema
  | _, [] => []
  | i, col :: cols => if i = pkIdx then besides pkIdx (i + 1) cols
      else col :: besides pkIdx (i + 1) cols

theorem besides_behind {pkIdx : Nat} (cols : Schema) : ∀ {i : Nat}, pkIdx < i →
    besides pkIdx i cols = cols := by
  induction cols with
  | nil => intro i _; rfl
  | cons col rest ih =>
      intro i behind
      rw [besides, if_neg (by omega), ih (by omega)]

theorem besides_eq_eraseIdx {pkIdx : Nat} (cols : Schema) : ∀ {i : Nat}, i ≤ pkIdx →
    besides pkIdx i cols = cols.eraseIdx (pkIdx - i) := by
  induction cols with
  | nil => intro i _; rfl
  | cons col rest ih =>
      intro i before
      by_cases here : i = pkIdx
      · subst here
        rw [besides, if_pos rfl, besides_behind rest (Nat.lt_succ_self i), Nat.sub_self,
          List.eraseIdx_cons_zero]
      · have step : pkIdx - i = (pkIdx - (i + 1)) + 1 := by omega
        rw [besides, if_neg here, ih (by omega), step, List.eraseIdx_cons_succ]

/-- The literals of the columns from index `i` on, without the key. -/
def payloadValues (record : ValueRecordNode) (projectionMask : List Bool) (pkIdx : Nat) :
    Nat → Schema → Except Fault (List Bytes)
  | _, [] => .ok []
  | i, col :: cols =>
      if i = pkIdx then payloadValues record projectionMask pkIdx (i + 1) cols
      else do
        let lit ← index record i
        let userProvided ← index projectionMask i
        let literal ← finalLiteral col lit userProvided
        let rest ← payloadValues record projectionMask pkIdx (i + 1) cols
        return literal :: rest

/-- The offset entries of columns with these codes and values. -/
def columnOffsetsOf (offset : Nat) (columns : List (UInt8 × Bytes)) : List ColumnOffset :=
  (offsetTable offset columns).map fun entry => ⟨entry.1, entry.2, List.replicate 7 0⟩

theorem length_offsetTable (columns : List (UInt8 × Bytes)) : ∀ offset : Nat,
    (offsetTable offset columns).length = columns.length := by
  induction columns with
  | nil => intro offset; rfl
  | cons column rest ih => intro offset; simp [offsetTable, ih]

theorem length_payloadValues {record : ValueRecordNode} {projectionMask : List Bool} {pkIdx : Nat}
    (cols : Schema) : ∀ {i : Nat} {values : List Bytes},
      payloadValues record projectionMask pkIdx i cols = .ok values →
      values.length = (besides pkIdx i cols).length := by
  induction cols with
  | nil =>
      intro i values h
      cases h
      rfl
  | cons col rest ih =>
      intro i values h
      rw [payloadValues] at h
      by_cases here : i = pkIdx
      · rw [if_pos here] at h
        rw [besides, if_pos here, ih h]
      · rw [if_neg here] at h
        cases hl : index record i with
        | error e => rw [hl] at h; cases h
        | ok lit =>
            cases hm : index projectionMask i with
            | error e => rw [hl, hm] at h; cases h
            | ok userProvided =>
                cases hf : finalLiteral col lit userProvided with
                | error e => rw [hl, hm, ok_bind, ok_bind, hf] at h; cases h
                | ok literal =>
                    rw [hl, hm, ok_bind, ok_bind, hf, ok_bind] at h
                    cases hr : payloadValues record projectionMask pkIdx (i + 1) rest with
                    | error e => rw [hr] at h; cases h
                    | ok tail =>
                        rw [hr] at h
                        cases h
                        rw [besides, if_neg here, List.length_cons, List.length_cons, ih hr]

/-- The offset entries come with the values, the codes being there. -/
theorem payloadColumns_eq {colcodes : Map Bytes UInt8} {codeOf : Bytes → UInt8}
    (record : ValueRecordNode) (projectionMask : List Bool) (pkIdx : Nat) (cols : Schema)
    (codes : ∀ col ∈ cols, colcodes.lookup col.name = some (codeOf col.name)) :
    ∀ (i offset : Nat), payloadColumns colcodes record projectionMask pkIdx i offset cols =
      (payloadValues record projectionMask pkIdx i cols).map fun values =>
        (columnOffsetsOf offset (((besides pkIdx i cols).map fun col => codeOf col.name).zip
          values)).zip values := by
  induction cols with
  | nil => intro i offset; rfl
  | cons col rest ih =>
      intro i offset
      have tail := ih fun c hc => codes c (by simp [hc])
      rw [payloadColumns, payloadValues, besides]
      by_cases here : i = pkIdx
      · rw [if_pos here, if_pos here, if_pos here, tail]
      · rw [if_neg here, if_neg here, if_neg here]
        cases index record i with
        | error e => rfl
        | ok lit =>
            cases index projectionMask i with
            | error e => rfl
            | ok userProvided =>
                rw [ok_bind, ok_bind, ok_bind, ok_bind]
                cases finalLiteral col lit userProvided with
                | error e => rfl
                | ok literal =>
                    rw [ok_bind, ok_bind, Map.at_of_lookup (codes col (by simp)), ok_bind, tail]
                    cases payloadValues record projectionMask pkIdx (i + 1) rest with
                    | error e => rfl
                    | ok values => rfl

/-! The record that is written -/

section Payload

variable (t : TableSchema n)

def storedRecord (type : RecordType) (key : Bytes) (values : List Bytes) : StoredRecord where
  recordType := type.toByte
  columnOffsets := columnOffsetsOf 0 (t.payloadCodes.zip values)
  pkLiteral := key
  payloadLiterals := values

/-- The key a record is stored under. -/
def serializedKey (record : ValueRecordNode) : Except Fault Bytes := do
  match ← index record t.pkIdx with
  | some node => .ok (removeOuterQuotes node.value)
  | none => .error (.undefined .nullPointer)

/-- The record that the writer makes of a record of values. -/
def writtenRecord (type : RecordType) (projectionMask : List Bool) (record : ValueRecordNode) :
    Except Fault StoredRecord := do
  let key ← serializedKey t record
  let values ← payloadValues record projectionMask t.pkIdx 0 t.schema
  return storedRecord t type key values

theorem payloadSchema_eq_besides : besides t.pkIdx 0 t.schema = t.payloadSchema :=
  besides_eq_eraseIdx t.schema (Nat.zero_le _)

theorem length_payloadValues_schema {record : ValueRecordNode} {projectionMask : List Bool}
    {values : List Bytes} (h : payloadValues record projectionMask t.pkIdx 0 t.schema = .ok values) :
    values.length = n := by
  rw [length_payloadValues t.schema h, payloadSchema_eq_besides, t.length_payloadSchema]

variable {t} in
theorem length_storedRecord_offsets {type : RecordType} {key : Bytes} {values : List Bytes}
    (h : values.length = n) : (storedRecord t type key values).columnOffsets.length = n := by
  simp [storedRecord, columnOffsetsOf, length_offsetTable, t.length_payloadCodes, h]

theorem map_offset_columnOffsetsOf (columns : List (UInt8 × Bytes)) (offset : Nat) :
    (columnOffsetsOf offset columns).map (fun off => (off.offset, off.colId)) =
      offsetTable offset columns := by
  simp [columnOffsetsOf, Function.comp_def]

/-- A stored record that fits a file is a record of the table. -/
def tableRecord (type : RecordType) (key : Bytes) (values : List Bytes) (width : values.length = n)
    (fits : (storedRecord t type key values).recordLength < 2 ^ 63) : TableRecord n where
  toStoredRecord := storedRecord t type key values
  offsets_length := length_storedRecord_offsets width
  literals_length := width
  padding_length := by
    intro off h
    obtain ⟨entry, _, rfl⟩ := List.mem_map.mp h
    exact List.length_replicate
  recordLength_lt := fits

theorem tableRecord_indexedBy (type : RecordType) (key : Bytes) (values : List Bytes)
    (width : values.length = n)
    (fits : (storedRecord t type key values).recordLength < 2 ^ 63) :
    IndexedBy t.payloadCodes (tableRecord t type key values width fits) :=
  map_offset_columnOffsetsOf _ 0

theorem recordLength_storedRecord {type : RecordType} {key : Bytes} {values : List Bytes}
    (width : values.length = n) : (storedRecord t type key values).recordLength =
      1 + (8 + key.length) + ((values.map fun literal => 8 + literal.length).sum
        + n * columnOffsetSize) := by
  have region : ∀ columns : List (UInt8 × Bytes), ∀ offset,
      ((columnOffsetsOf offset columns).flatMap encodeColumnOffset).length = 16 * columns.length := by
    intro columns
    induction columns with
    | nil => intro offset; rfl
    | cons column rest ih =>
        intro offset
        have tail := ih (offset + (8 + column.2.length))
        simp only [columnOffsetsOf, offsetTable, List.map_cons, List.flatMap_cons,
          List.length_append] at tail ⊢
        simp only [tail, encodeColumnOffset, List.length_append, length_toLE, List.length_cons,
          List.length_replicate]
        omega
  have payload : (values.flatMap encodeString).length =
      (values.map fun literal => 8 + literal.length).sum := by
    simp [List.length_flatMap]
  simp only [StoredRecord.recordLength, StoredRecord.body, StoredRecord.columnRegion,
    StoredRecord.payload, storedRecord, List.length_append, region, payload, length_encodeString,
    List.length_zip, t.length_payloadCodes, width, Nat.min_self, columnOffsetSize]
  omega

/-- `recordPayload` computes the written record, its length included. -/
theorem recordPayload_eq (record : ValueRecordNode) (projectionMask : List Bool)
    (type : RecordType) :
    recordPayload t.schema (columnCodes t.schema) record projectionMask type =
      (writtenRecord t type projectionMask record).map fun r =>
        ⟨t.pkColName, r.recordLength, r⟩ := by
  have width := t.width
  have few := t.few
  have columns : (t.schema.length + 255) % 256 = n := by omega
  have pkCol : index t.schema t.pkIdx = .ok t.pkCol := by
    rw [index, t.getElem?_pkIdx]
  have codes (col : UntypedColumnDefNode) (h : col ∈ t.schema) :
      (columnCodes t.schema).lookup col.name = some (t.codeOf col.name) :=
    t.lookup_codeOf (List.mem_map_of_mem h)
  unfold recordPayload writtenRecord serializedKey
  rw [t.primaryKeyIndex_eq, ok_bind]
  cases index record t.pkIdx with
  | error e => rfl
  | ok lit =>
      rw [ok_bind, ok_bind]
      cases lit with
      | none => rfl
      | some node =>
          rw [payloadColumns_eq record projectionMask t.pkIdx t.schema codes, payloadSchema_eq_besides]
          change (do
            let columns ← Except.map _ (payloadValues record projectionMask t.pkIdx 0 t.schema)
            _) = Except.map _ (do
              let values ← payloadValues record projectionMask t.pkIdx 0 t.schema
              _)
          cases hv : payloadValues record projectionMask t.pkIdx 0 t.schema with
          | error e => rfl
          | ok values =>
              have len := length_payloadValues_schema t hv
              have zipped : (columnOffsetsOf 0 (t.payloadCodes.zip values)).length = values.length := by
                simp [columnOffsetsOf, length_offsetTable, t.length_payloadCodes, len]
              have fsts := List.map_fst_zip (Nat.le_of_eq zipped)
              have snds := List.map_snd_zip (Nat.le_of_eq zipped.symm)
              rw [TableSchema.payloadCodes] at fsts snds
              simp only [Except.map, ok_bind, fsts, snds, columns, pkCol]
              change Except.ok _ = Except.ok _
              rw [recordLength_storedRecord t len, t.pkCol_name]
              rfl

end Payload

/-! The write -/

/-- The state with this content in the table file and these indices of the table. -/
def withTable (w : World) (table content : Bytes) (columns : Map Bytes Index) : World :=
  (w.setTableFile table content).setIndices (w.ctx.indices.insert table columns)

section Write

variable {w : World} {table content : Bytes} {columns : Map Bytes Index}

@[simp] theorem withTable_tableFiles (w : World) (table content : Bytes) (columns : Map Bytes Index) :
    (withTable w table content columns).disk.tableFiles =
      w.disk.tableFiles.insert table content := rfl

@[simp] theorem withTable_indices (w : World) (table content : Bytes) (columns : Map Bytes Index) :
    (withTable w table content columns).ctx.indices = w.ctx.indices.insert table columns := rfl

theorem withTable_self (hf : w.disk.tableFiles.lookup table = some content)
    (hc : w.ctx.indices.lookup table = some columns) : withTable w table content columns = w := by
  rw [withTable, setTableFile_of_lookup hf, World.setIndices, insert_of_lookup hc]

private theorem appendToTableFile_withTable (c bytes : Bytes) (d : Map Bytes Index) :
    (appendToTableFile table bytes).run (withTable w table c d) =
      .ok () (withTable w table (c ++ bytes) d) := by
  have content : (withTable w table c d).disk.tableFiles.lookup table = some c :=
    Finmap.lookup_insert _
  rw [appendToTableFile, run_modify, content]
  simp only [withTable, World.setTableFile, World.setTableFiles, World.setIndices,
    Finmap.insert_insert, Option.getD_some]

/-- The write of a record: its encoding at the end of the file, and its key in the
index with the offset of the type byte. -/
theorem writeRecord_run (t : TableSchema n) {idx : Index} (hi : columns.lookup t.pkColName = some idx)
    {type : RecordType} (kind : type = .insert ∨ type = .update) (r : StoredRecord) :
    (writeRecord table type ⟨t.pkColName, r.recordLength, r⟩).run
      (withTable w table content columns) =
      .ok () (withTable w table (content ++ r.encode)
        (columns.insert t.pkColName (idx.insert r.pkLiteral (content.length + 8)))) := by
  have tell : (tellpTableFile table).run
      (withTable w table (content ++ toLE 8 r.recordLength) columns) =
      .ok (content.length + 8) (withTable w table (content ++ toLE 8 r.recordLength) columns) := by
    have file : (withTable w table (content ++ toLE 8 r.recordLength)
        columns).disk.tableFiles.lookup table = some (content ++ toLE 8 r.recordLength) :=
      Finmap.lookup_insert _
    unfold tellpTableFile
    rw [run_bind_ok (run_get _), file, Option.getD_some, List.length_append, length_toLE]
    rfl
  have upsert (c : Bytes) (offset : Nat) :
      (upsertPrimaryKeyIndex table t.pkColName r.pkLiteral offset).run
        (withTable w table c columns) =
      .ok () (withTable w table c
        (columns.insert t.pkColName (idx.insert r.pkLiteral offset))) := by
    have at_ : (withTable w table c columns).ctx.indices.at table .tableName = .ok columns :=
      Map.at_of_lookup (Finmap.lookup_insert _) _
    unfold upsertPrimaryKeyIndex
    rw [run_bind_ok (run_get _), at_, run_bind_ok (run_lift_ok _ _), Map.at_of_lookup hi,
      run_bind_ok (run_lift_ok _ _), run_set]
    simp only [withTable, World.setIndices, Finmap.insert_insert]
  unfold writeRecord
  rw [run_bind_ok (appendToTableFile_withTable _ _ _), if_pos kind]
  simp only [run_bind_ok tell, run_bind_ok (upsert _ _),
    run_bind_ok (appendToTableFile_withTable _ _ _), appendToTableFile_withTable]
  simp [StoredRecord.encode, StoredRecord.body]

theorem catchException_ok {p : Exec Unit} {w w' : World} (h : p.run w = .ok () w')
    (handler : Exception → Exec Unit) : (catchException p handler).run w = .ok () w' := by
  rw [catchException_run, h]

variable (content) in
theorem serializeNormalizedRecord_run (env : Env) (t : TableSchema n) {idx : Index}
    (known : Registered w.ctx table t) (hi : columns.lookup t.pkColName = some idx)
    {type : RecordType} (kind : type = .insert ∨ type = .update) (projectionMask : List Bool)
    (record : ValueRecordNode) :
    (serializeNormalizedRecord env table record projectionMask type).run
      (withTable w table content columns) =
      match writtenRecord t type projectionMask record with
      | .error e => .error e (withTable w table content columns)
      | .ok r => .ok () (withTable w table (content ++ r.encode)
          (columns.insert t.pkColName (idx.insert r.pkLiteral (content.length + 8)))) := by
  have schema : (withTable w table content columns).ctx.untypedTables.at table .tableName =
      .ok t.schema := Map.at_of_lookup known.schema _
  have colcodes : (withTable w table content columns).ctx.tableColcodes.at table .tableName =
      .ok (columnCodes t.schema) := Map.at_of_lookup known.colcodes _
  unfold serializeNormalizedRecord
  rw [run_bind_ok (run_get _), schema, run_bind_ok (run_lift_ok _ _), colcodes,
    run_bind_ok (run_lift_ok _ _), recordPayload_eq]
  cases writtenRecord t type projectionMask record with
  | error e => exact run_bind_error (run_lift_error _ _) _
  | ok r =>
      exact (run_bind_ok (run_lift_ok _ _) _).trans
        (catchException_ok (writeRecord_run t hi kind r) _)

/-- The records written up to the first that cannot be computed, and its fault. -/
def writtenRecords (t : TableSchema n) (type : RecordType) (projectionMask : List Bool) :
    List ValueRecordNode → List StoredRecord × Option Fault
  | [] => ([], none)
  | record :: records =>
      match writtenRecord t type projectionMask record with
      | .error e => ([], some e)
      | .ok r =>
          let rest := writtenRecords t type projectionMask records
          (r :: rest.1, rest.2)

/-- The index after the keys of appended records were entered one by one. -/
def upsertAll : Nat → List StoredRecord → Index → Index
  | _, [], idx => idx
  | start, r :: rest, idx => upsertAll (start + r.encode.length) rest (idx.insert r.pkLiteral (start + 8))

/-- A computation that stopped or not, with the state it left. -/
def stopped (stop : Option Fault) (w : World) : EStateM.Result Fault World Unit :=
  match stop with
  | none => .ok () w
  | some e => .error e w

theorem insertRecords_run (env : Env) (t : TableSchema n) (known : Registered w.ctx table t)
    {type : RecordType} (kind : type = .insert ∨ type = .update) (projectionMask : List Bool)
    (records : List ValueRecordNode) :
    ∀ (content : Bytes) (columns : Map Bytes Index) (idx : Index),
      columns.lookup t.pkColName = some idx →
      let written := writtenRecords t type projectionMask records
      (insertRecords env table projectionMask type records).run (withTable w table content columns) =
        stopped written.2 (withTable w table (content ++ written.1.flatMap StoredRecord.encode)
          (columns.insert t.pkColName (upsertAll content.length written.1 idx))) := by
  induction records with
  | nil =>
      intro content columns idx hi
      simp [insertRecords, writtenRecords, stopped, upsertAll, insert_of_lookup hi]
  | cons record records ih =>
      intro content columns idx hi
      have write := serializeNormalizedRecord_run content env t known hi kind
        projectionMask record
      unfold insertRecords
      simp only [writtenRecords]
      cases hr : writtenRecord t type projectionMask record with
      | error e =>
          rw [hr] at write
          rw [run_bind_error write]
          simp [stopped, upsertAll, insert_of_lookup hi]
      | ok r =>
          rw [hr] at write
          rw [run_bind_ok write, ih _ _ (idx.insert r.pkLiteral (content.length + 8))
            (Finmap.lookup_insert _)]
          simp [upsertAll, Finmap.insert_insert]

end Write
end Jssql.FileHandler
