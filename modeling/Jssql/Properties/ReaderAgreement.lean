import Jssql.Theory.CompactionScan
import Jssql.Theory.Appending

/-!
Six readers move the position over a record by different arithmetic. On a record
of the writer, live or marked, all of them leave it behind the record's last byte,
so on a well-formed file every scan calls its reader at the same positions.
-/
namespace Jssql.FileHandler
open Foundation Foundation.Stream ConditionEvaluator

variable {n : Nat}

/-- The readers, each reduced to the indicator it returns. -/
def recordReaders (env : Env) (schema : Schema) (projectionMask : List Bool)
    (selectWhere updateWhere : Option WhereNode) (node : DeleteNode) (ctx : ExecutionContext) :
    List (StreamM Indicator) :=
  [Prod.fst <$> deserializeNextRecord env schema projectionMask selectWhere,
    Prod.fst <$> deserializeNextRecordAndMarkAsTombstone env schema updateWhere,
    Prod.fst <$> deserializeNextPrimaryKey (columnsWithoutPk schema),
    deserializeNextRecordType,
    Prod.fst <$> copyNextLiveRecord env (columnsWithoutPk schema),
    performSequentialDelete env node ctx]

/-- The comparisons of the three statements answer on a record, if it is live. -/
structure Comparable (t : TableSchema n) (selectWhere updateWhere deleteWhere : Option WhereNode)
    (r : TableRecord n) : Prop where
  select : r.isTombstone = false → ∃ b, whereMatches selectWhere r.row = .ok b
  update : r.isTombstone = false → ∃ b, whereMatches updateWhere r.row = .ok b
  delete : r.isTombstone = false → ∃ b, deleteMatches t deleteWhere r = .ok b

/-- The reader goes over the record, which it leaves as it is or marks. -/
def StepsOver (reader : StreamM Indicator) (r : TableRecord n) : Prop :=
  ∀ before after, ∃ indicator, ∃ r' : TableRecord n, (r' = r ∨ r' = r.marked) ∧
    indicator ∈ [Indicator.tombstone, .live, .skip] ∧
    reader.run (split before (r.encode ++ after)) =
      .ok indicator (split (before ++ r'.encode) after)

theorem run_map_ok {α β : Type} {p : StreamM α} {s s' : Stream} {a : α} (h : p.run s = .ok a s')
    (f : α → β) : (f <$> p).run s = .ok (f a) s' := by
  rw [map_eq_pure_bind, run_bind_ok h]
  rfl

section Step

variable (env : Env) {t : TableSchema n} {r : TableRecord n} {ctx : ExecutionContext}
  {node : DeleteNode} {projectionMask : List Bool} {selectWhere updateWhere : Option WhereNode}

theorem deserializeNextRecord_stepsOver (width : projectionMask.length = n + 1)
    (answers : r.isTombstone = false → ∃ b, whereMatches selectWhere r.row = .ok b) :
    StepsOver (Prod.fst <$> deserializeNextRecord env t.schema projectionMask selectWhere) r := by
  intro before after
  cases state : r.isTombstone with
  | true =>
      have read := deserializeNextRecord_tombstone env t r before after state projectionMask
        selectWhere
      exact ⟨.tombstone, r, .inl rfl, by simp, run_map_ok read Prod.fst⟩
  | false =>
      obtain ⟨b, answer⟩ := answers state
      have read := deserializeNextRecord_live env t r before after state projectionMask selectWhere
      rw [recordResult_eq (by rw [width, r.length_row]), answer] at read
      have run := outcome_eq_ok.mp read
      refine ⟨if b then .live else .skip, r, .inl rfl, ?_, run_map_ok run Prod.fst⟩
      cases b <;> simp

theorem deserializeNextRecordAndMarkAsTombstone_stepsOver
    (answers : r.isTombstone = false → ∃ b, whereMatches updateWhere r.row = .ok b) :
    StepsOver (Prod.fst <$> deserializeNextRecordAndMarkAsTombstone env t.schema updateWhere) r := by
  intro before after
  cases state : r.isTombstone with
  | true =>
      have read := deserializeNextRecordAndMarkAsTombstone_tombstone env t r before after state
        updateWhere
      exact ⟨.tombstone, r, .inl rfl, by simp, run_map_ok read Prod.fst⟩
  | false =>
      obtain ⟨b, answer⟩ := answers state
      have read := deserializeNextRecordAndMarkAsTombstone_live env t r before after state updateWhere
      rw [answer] at read
      cases b with
      | true => exact ⟨.live, r.marked, .inr rfl, by simp, run_map_ok (outcome_eq_ok.mp read) Prod.fst⟩
      | false => exact ⟨.skip, r, .inl rfl, by simp, run_map_ok (outcome_eq_ok.mp read) Prod.fst⟩

theorem deserializeNextPrimaryKey_stepsOver :
    StepsOver (Prod.fst <$> deserializeNextPrimaryKey n) r := by
  intro before after
  have read := run_map_ok (deserializeNextPrimaryKey_record r before after) Prod.fst
  exact ⟨_, r, .inl rfl, by cases r.isTombstone <;> simp, read⟩

theorem deserializeNextRecordType_stepsOver : StepsOver deserializeNextRecordType r := by
  intro before after
  have read := deserializeNextRecordType_record r before after
  exact ⟨_, r, .inl rfl, by cases r.isTombstone <;> simp, read⟩

theorem copyNextLiveRecord_stepsOver : StepsOver (Prod.fst <$> copyNextLiveRecord env n) r := by
  intro before after
  have read := run_map_ok (copyNextLiveRecord_record env r before after) Prod.fst
  exact ⟨_, r, .inl rfl, by cases r.isTombstone <;> simp, read⟩

theorem performSequentialDelete_stepsOver (known : Registered ctx node.tableName t)
    (indexed : IndexedBy t.payloadCodes r) (column : ColumnKnown t node.optWhereNode)
    (answers : r.isTombstone = false → ∃ b, deleteMatches t node.optWhereNode r = .ok b) :
    StepsOver (performSequentialDelete env node ctx) r := by
  intro before after
  cases state : r.isTombstone with
  | true =>
      have read := performSequentialDelete_tombstone env r before after state node ctx
      exact ⟨.tombstone, r, .inl rfl, by simp, read⟩
  | false =>
      obtain ⟨b, answer⟩ := answers state
      have read := performSequentialDelete_live env r before after state known indexed column
      rw [answer] at read
      cases b with
      | true => exact ⟨.live, r.marked, .inr rfl, by simp, outcome_eq_ok.mp read⟩
      | false => exact ⟨.skip, r, .inl rfl, by simp, outcome_eq_ok.mp read⟩

/-- Every reader goes over a record of the table. -/
theorem recordReaders_stepsOver (width : projectionMask.length = n + 1)
    (known : Registered ctx node.tableName t) (column : ColumnKnown t node.optWhereNode)
    (indexed : IndexedBy t.payloadCodes r)
    (comparable : Comparable t selectWhere updateWhere node.optWhereNode r) :
    ∀ reader ∈ recordReaders env t.schema projectionMask selectWhere updateWhere node ctx,
      StepsOver reader r := by
  rw [recordReaders, t.columnsWithoutPk_eq]
  simp only [List.forall_mem_cons]
  exact ⟨deserializeNextRecord_stepsOver env width comparable.select,
    deserializeNextRecordAndMarkAsTombstone_stepsOver env comparable.update,
    deserializeNextPrimaryKey_stepsOver, deserializeNextRecordType_stepsOver,
    copyNextLiveRecord_stepsOver env,
    performSequentialDelete_stepsOver env known indexed column comparable.delete, by simp⟩

end Step

/-! Scans -/

/-- The positions at which a scan calls its reader, up to the end of the table; no
list where a call fails or the calls run out. -/
def visitedPositions (reader : StreamM Indicator) : Nat → Stream → Option (List Nat)
  | 0, _ => none
  | calls + 1, s =>
      match reader.run s with
      | .error _ _ => none
      | .ok indicator s' =>
          if indicator = .endOfTable then some [s.pos]
          else (visitedPositions reader calls s').map (s.pos :: ·)

/-- The offsets at which the records of a list start, and the one behind the last. -/
def recordStarts : Nat → List (TableRecord n) → List Nat
  | start, [] => [start]
  | start, r :: rest => start :: recordStarts (start + 8 + r.recordLength) rest

theorem visitedPositions_records {reader : StreamM Indicator} {rs : List (TableRecord n)}
    (step : ∀ r ∈ rs, StepsOver reader r)
    (finish : ∀ before, ∃ s, reader.run (split before []) = .ok .endOfTable s) :
    ∀ (before : Bytes) (spare : Nat),
      visitedPositions reader (rs.length + (spare + 1)) (split before (encodeAll rs)) =
        some (recordStarts before.length rs) := by
  induction rs with
  | nil =>
      intro before spare
      obtain ⟨s, last⟩ := finish before
      rw [List.length_nil, Nat.zero_add, visitedPositions, encodeAll_nil, last]
      rfl
  | cons r rest ih =>
      intro before spare
      rw [List.forall_mem_cons] at step
      obtain ⟨indicator, r', copy, kind, read⟩ := step.1 before (encodeAll rest)
      have shift : (r :: rest).length + (spare + 1) = (rest.length + (spare + 1)) + 1 := by
        simp only [List.length_cons]
        omega
      have goesOn : indicator ≠ .endOfTable := by
        rintro rfl
        simp at kind
      have next : (before ++ r'.encode).length = before.length + 8 + r.recordLength := by
        rw [List.length_append]
        rcases copy with rfl | rfl
        · rw [StoredRecord.length_encode, Nat.add_assoc]
        · rw [TableRecord.marked_toStoredRecord, StoredRecord.marked_encode_length,
            StoredRecord.length_encode, Nat.add_assoc]
      rw [shift, visitedPositions, encodeAll_cons, read]
      simp only [goesOn, if_false, ih step.2, next, Option.map_some, split_pos, recordStarts]

theorem recordReaders_end (env : Env) (schema : Schema) (projectionMask : List Bool)
    (selectWhere updateWhere : Option WhereNode) (node : DeleteNode) (ctx : ExecutionContext) :
    ∀ reader ∈ recordReaders env schema projectionMask selectWhere updateWhere node ctx,
      ∀ before, ∃ s, reader.run (split before []) = .ok .endOfTable s := by
  have marks (before : Bytes) :
      (deserializeNextRecordAndMarkAsTombstone env schema updateWhere).run (split before []) =
        .ok (.endOfTable, []) (exhausted before) := by
    unfold deserializeNextRecordAndMarkAsTombstone
    rw [run_bind_ok (readHead_end before)]
    rfl
  simp only [recordReaders, List.forall_mem_cons]
  exact ⟨fun before => ⟨_, run_map_ok (deserializeNextRecord_end env schema _ _ before) Prod.fst⟩,
    fun before => ⟨_, run_map_ok (marks before) Prod.fst⟩,
    fun before => ⟨_, run_map_ok (deserializeNextPrimaryKey_end _ before) Prod.fst⟩,
    fun before => ⟨_, deserializeNextRecordType_end before⟩,
    fun before => ⟨_, run_map_ok (copyNextLiveRecord_end env _ before) Prod.fst⟩,
    fun before => ⟨_, performSequentialDelete_end env before node ctx⟩, by simp⟩

/-! Agreement -/

/-- The record is one that the writer makes under the schema, or such a record marked. -/
def WrittenUnder (t : TableSchema n) (r : TableRecord n) : Prop :=
  ∃ record projectionMask type payload,
    recordPayload t.schema (columnCodes t.schema) record projectionMask type = .ok payload ∧
    (r.toStoredRecord = payload.record ∨ r.toStoredRecord = payload.record.marked)

theorem WrittenUnder.indexed {t : TableSchema n} {r : TableRecord n} (h : WrittenUnder t r) :
    IndexedBy t.payloadCodes r := by
  obtain ⟨record, mask, type, payload, computed, same⟩ := h
  rw [recordPayload_eq] at computed
  cases hr : writtenRecord t type mask record with
  | error e => rw [hr] at computed; cases computed
  | ok stored =>
      rw [hr] at computed
      cases computed
      obtain ⟨key, values, _, _, _, rfl⟩ := writtenRecord_ok hr
      have table := map_offset_columnOffsetsOf (t.payloadCodes.zip values) 0
      rcases same with same | same
      · rw [IndexedBy, same]
        exact table
      · rw [IndexedBy, same]
        exact table

/-- The length of a written record, as the writer has computed it. -/
theorem WrittenUnder.recordLength_eq {t : TableSchema n} {r : TableRecord n}
    {record : ValueRecordNode} {mask : List Bool} {type : RecordType} {payload : RecordPayload}
    (computed : recordPayload t.schema (columnCodes t.schema) record mask type = .ok payload)
    (same : r.toStoredRecord = payload.record ∨ r.toStoredRecord = payload.record.marked) :
    r.recordLength = payload.recordLength := by
  rw [recordPayload_eq] at computed
  cases hr : writtenRecord t type mask record with
  | error e => rw [hr] at computed; cases computed
  | ok stored =>
      rw [hr] at computed
      cases computed
      rcases same with same | same <;> rw [same]
      rfl

/-- All readers agree on record boundaries: each goes from the first byte of a written
record to the position behind its length, and on a file of such records every scan
visits the same positions and comes to the end of the table. -/
theorem readers_agree (env : Env) (t : TableSchema n) (ctx : ExecutionContext) (node : DeleteNode)
    (projectionMask : List Bool) (selectWhere updateWhere : Option WhereNode)
    (known : Registered ctx node.tableName t) (column : ColumnKnown t node.optWhereNode)
    (width : projectionMask.length = t.schema.length) :
    (∀ (record : ValueRecordNode) (mask : List Bool) (type : RecordType) (payload : RecordPayload)
      (r : TableRecord n),
      recordPayload t.schema (columnCodes t.schema) record mask type = .ok payload →
      r.toStoredRecord = payload.record ∨ r.toStoredRecord = payload.record.marked →
      Comparable t selectWhere updateWhere node.optWhereNode r →
      ∀ reader ∈ recordReaders env t.schema projectionMask selectWhere updateWhere node ctx,
      ∀ before after, ∃ indicator s,
        reader.run (split before (r.encode ++ after)) = .ok indicator s ∧
        s.pos = before.length + 8 + payload.recordLength ∧
        indicator ∈ [Indicator.tombstone, .live, .skip]) ∧
    ∀ f : TableFile n, (∀ r ∈ f.records, WrittenUnder t r) →
      (∀ r ∈ f.records, Comparable t selectWhere updateWhere node.optWhereNode r) →
      ∀ reader ∈ recordReaders env t.schema projectionMask selectWhere updateWhere node ctx,
        visitedPositions reader (scanRounds f.bytes) (atRecords f) =
          some (recordStarts 32 f.records) := by
  rw [t.width] at width
  constructor
  · intro record mask type payload r computed same comparable reader among before after
    have written : WrittenUnder t r := ⟨record, mask, type, payload, computed, same⟩
    obtain ⟨indicator, r', copy, kind, read⟩ := recordReaders_stepsOver env width known column
      written.indexed comparable reader among before after
    refine ⟨indicator, _, read, ?_, kind⟩
    rw [split_pos, List.length_append, ← WrittenUnder.recordLength_eq computed same, Nat.add_assoc]
    rcases copy with rfl | rfl
    · rw [StoredRecord.length_encode]
    · rw [TableRecord.marked_toStoredRecord, StoredRecord.marked_encode_length,
        StoredRecord.length_encode]
  · intro f written comparable reader among
    obtain ⟨spare, rounds⟩ := scanRounds_eq f.header f.records []
    rw [List.append_nil] at rounds
    have step (r : TableRecord n) (hr : r ∈ f.records) : StepsOver reader r :=
      recordReaders_stepsOver env width known column (written r hr).indexed (comparable r hr)
        reader among
    rw [TableFile.bytes, rounds, atRecords, visitedPositions_records step
      (recordReaders_end env t.schema _ _ _ node ctx reader among), f.header_length]

theorem recordPayload_pair {key value : Bytes} (short : key.length + value.length < 2 ^ 62)
    (plainKey : removeOuterQuotes key = key) (plainValue : removeOuterQuotes value = value) :
    recordPayload pairSchema.schema (columnCodes pairSchema.schema)
        [some ⟨.number, key⟩, some ⟨.string, value⟩] [true, true] .insert =
      .ok ⟨pairSchema.pkColName, (pairRecord key value short).recordLength,
        (pairRecord key value short).toStoredRecord⟩ := by
  have written : writtenRecord pairSchema .insert [true, true]
      [some ⟨.number, key⟩, some ⟨.string, value⟩] =
        .ok (storedRecord pairSchema .insert (removeOuterQuotes key) [removeOuterQuotes value]) := rfl
  rw [recordPayload_eq, written, plainKey, plainValue]
  rfl

/-- A marked record and a file, read without conditions. -/
theorem readers_agree_pair :
    let file := pairFile [ascii "1", ascii "2"] (ascii "x") (by decide)
    let r := pairRecord (ascii "1") (ascii "x") (by decide)
    let readers := recordReaders ⟨false, id⟩ pairSchema.schema [true, true] none none
      ⟨ascii "people", none⟩ (singleTable (ascii "people") pairSchema file ∅).ctx
    (∀ reader ∈ readers, ∀ before after, ∃ indicator s,
      reader.run (split before (r.marked.encode ++ after)) = .ok indicator s ∧
      s.pos = before.length + 8 + r.recordLength ∧
      indicator ∈ [Indicator.tombstone, .live, .skip]) ∧
    ∀ reader ∈ readers, visitedPositions reader (scanRounds file.bytes) (atRecords file) =
      some (recordStarts 32 file.records) := by
  intro file r readers
  have agree := readers_agree ⟨false, id⟩ pairSchema
    (singleTable (ascii "people") pairSchema file ∅).ctx ⟨ascii "people", none⟩ [true, true] none
    none (singleTable_registered _ _ _ _) (by intro w hw; cases hw) rfl
  have comparable (s : TableRecord 1) : Comparable pairSchema none none none s :=
    ⟨fun _ => ⟨true, rfl⟩, fun _ => ⟨true, rfl⟩, fun _ => ⟨true, rfl⟩⟩
  have payload (key : Bytes) (short : key.length + (ascii "x").length < 2 ^ 62)
      (plain : removeOuterQuotes key = key) :=
    recordPayload_pair short plain (show removeOuterQuotes (ascii "x") = ascii "x" by decide)
  constructor
  · exact agree.1 _ _ _ _ r.marked (payload (ascii "1") (by decide) (by decide)) (.inr rfl)
      (comparable _)
  · refine agree.2 file ?_ fun s _ => comparable s
    intro s hs
    obtain ⟨key, _, rfl⟩ := List.mem_map.mp hs
    have plain : ∀ key ∈ [ascii "1", ascii "2"], removeOuterQuotes key = key := by decide
    have short : ∀ key ∈ [ascii "1", ascii "2"], key.length + (ascii "x").length < 2 ^ 62 := by
      decide
    exact ⟨_, _, _, _, payload key.1 (short key.1 key.2) (plain key.1 key.2), .inl rfl⟩

end Jssql.FileHandler
