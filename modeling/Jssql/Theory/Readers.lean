import Jssql.Theory.RecordFormat
import Jssql.DBEngine.FileHandler.Handlers

/-!
What each reader does at the start of an encoded record: where it leaves the
stream, and what it returns. The columns are evaluated by `columnsResult`, a
function of the stored values alone, so a reader's result no longer mentions
the stream.
-/
namespace Jssql.FileHandler
open Foundation Foundation.Stream ConditionEvaluator

variable {n : Nat}

/-! Primitive reads -/

theorem streamOff_of_lt {d : Nat} (h : d < 2 ^ 63) : streamOff d = d := by
  unfold streamOff
  rw [Int.bmod_eq_of_le] <;> omega

theorem readUnchecked_split (env : Env) {k : Nat} {bytes : Bytes} (h : bytes.length = k)
    (before after : Bytes) :
    (readUnchecked env k).run (split before (bytes ++ after)) =
      .ok bytes (split (before ++ bytes) after) := by
  have full : overlay bytes (toLE k (env.uninit before.length)) = bytes :=
    overlay_full (by rw [length_toLE]; omega)
  unfold readUnchecked
  rw [run_bind_ok (run_tell _), run_bind_ok (read_split h before after), split_pos, full]
  rfl

theorem readSize_split (env : Env) {k : Nat} (h : k < 2 ^ 63) (before after : Bytes) :
    (readSize env).run (split before (toLE 8 k ++ after)) =
      .ok k (split (before ++ toLE 8 k) after) := by
  have value : ofLE (toLE 8 k) = k := ofLE_toLE_of_lt (by omega)
  unfold readSize
  rw [run_bind_ok (readUnchecked_split env (length_toLE 8 k) before after), value]
  rfl

theorem readSized_split {value : Bytes} (h : value.length < 2 ^ 63 - 1) (before after : Bytes) :
    (readSized value.length).run (split before (value ++ after)) =
      .ok value (split (before ++ value) after) := by
  have small : ¬ 2 ^ 63 - 1 ≤ value.length := by omega
  have full : overlay value (List.replicate value.length 0) = value :=
    overlay_full (by rw [List.length_replicate])
  unfold readSized
  rw [if_neg small, run_bind_ok (read_split rfl before after), full]
  rfl

theorem checkFileValidity_split (env : Env) (closes : Bool) {header : Bytes}
    (length : header.length = 32) (magic : ofLE (header.take 8) = dbMagic) (after : Bytes) :
    (checkFileValidity env closes).run (split [] (header ++ after)) =
      .ok () (split header after) := by
  unfold checkFileValidity
  rw [run_bind_ok (readUnchecked_split env length [] after), if_neg (not_not_intro magic)]
  rfl

/-! The head of a record -/

theorem readHead_end (before : Bytes) :
    readHead.run (split before []) = .ok (.done .endOfTable) (exhausted before) := by
  have short : ([] : Bytes).length < 8 := by decide
  unfold readHead
  rw [run_bind_ok (read_split_short short before), run_bind_ok (run_failed _), List.append_nil,
    if_pos (exhausted_fail before)]
  rfl

private theorem encode_append (r : StoredRecord) (after : Bytes) : r.encode ++ after =
    toLE 8 r.recordLength ++ ([r.recordType] ++ (r.body ++ after)) := by
  simp [StoredRecord.encode]

private theorem append_encode (r : StoredRecord) (before : Bytes) :
    before ++ toLE 8 r.recordLength ++ [r.recordType] ++ r.body = before ++ r.encode := by
  simp [StoredRecord.encode]

/-- The seek over the rest of a record, in the form each reader writes it. -/
theorem StoredRecord.body_seek {r : StoredRecord} (h : r.recordLength < 2 ^ 63) :
    ((r.body.length : Nat) : Int) = streamOff (r.recordLength - 1) := by
  have length : (r.recordLength : Int) - 1 = (r.body.length : Nat) := by
    simp [StoredRecord.recordLength]
  rw [length, streamOff_of_lt]
  rw [StoredRecord.recordLength] at h
  omega

/-- The part of the head before the type decides. -/
theorem readHead_typed {recordLength : Nat} (h : recordLength < 2 ^ 63) (type : UInt8) (before rest : Bytes) :
    readHead.run (split before (toLE 8 recordLength ++ ([type] ++ rest))) =
      (if [type] = [RecordType.delete.toByte] ∨ [type] = [RecordType.unused.toByte] then do
          seekCur (streamOff (recordLength - 1))
          return .done .tombstone
        else return .live recordLength (before.length + 8) [type] : StreamM Head).run
        (split (before ++ toLE 8 recordLength ++ [type]) rest) := by
  have value : ofLE (toLE 8 recordLength) = recordLength := ofLE_toLE_of_lt (by omega)
  have offset : (before ++ toLE 8 recordLength).length = before.length + 8 := by simp
  unfold readHead
  rw [run_bind_ok (read_split (length_toLE 8 _) before _), run_bind_ok (run_failed _), if_neg (by simp),
    run_bind_ok (run_tell _), run_bind_ok (read_split (List.length_singleton) _ _), run_bind_ok (run_failed _),
    if_neg (by simp), value, split_pos, offset]

private theorem readHead_front {r : StoredRecord} (h : r.recordLength < 2 ^ 63)
    (before after : Bytes) : readHead.run (split before (r.encode ++ after)) =
      (if [r.recordType] = [RecordType.delete.toByte] ∨ [r.recordType] = [RecordType.unused.toByte]
        then do
          seekCur (streamOff (r.recordLength - 1))
          return .done .tombstone
        else return .live r.recordLength (before.length + 8) [r.recordType] : StreamM Head).run
        (split (before ++ toLE 8 r.recordLength ++ [r.recordType]) (r.body ++ after)) := by
  rw [encode_append]
  exact readHead_typed h r.recordType before (r.body ++ after)

theorem readHead_tombstone {r : StoredRecord} (h : r.recordLength < 2 ^ 63)
    (dead : r.isTombstone = true) (before after : Bytes) :
    readHead.run (split before (r.encode ++ after)) =
      .ok (.done .tombstone) (split (before ++ r.encode) after) := by
  have type : [r.recordType] = [RecordType.delete.toByte] ∨
      [r.recordType] = [RecordType.unused.toByte] := by
    simpa [StoredRecord.isTombstone] using dead
  rw [readHead_front h, if_pos type, run_bind_ok (seekCur_split (StoredRecord.body_seek h) _ _),
    append_encode]
  rfl

theorem readHead_live {r : StoredRecord} (h : r.recordLength < 2 ^ 63)
    (live : r.isTombstone = false) (before after : Bytes) :
    readHead.run (split before (r.encode ++ after)) =
      .ok (.live r.recordLength (before.length + 8) [r.recordType])
        (split (before ++ toLE 8 r.recordLength ++ [r.recordType]) (r.body ++ after)) := by
  have type : ¬ ([r.recordType] = [RecordType.delete.toByte] ∨
      [r.recordType] = [RecordType.unused.toByte]) := by
    simpa [StoredRecord.isTombstone] using live
  rw [readHead_front h, if_neg type]
  rfl

/-! The type and the key -/

theorem deserializeNextRecordType_record (r : TableRecord n) (before after : Bytes) :
    deserializeNextRecordType.run (split before (r.encode ++ after)) =
      .ok (if r.isTombstone then .tombstone else .live) (split (before ++ r.encode) after) := by
  unfold deserializeNextRecordType
  cases state : r.isTombstone with
  | true =>
      rw [run_bind_ok (readHead_tombstone r.recordLength_lt state before after)]
      rfl
  | false =>
      rw [run_bind_ok (readHead_live r.recordLength_lt state before after)]
      simp only [run_bind_ok (seekCur_split (StoredRecord.body_seek r.recordLength_lt) _ _),
        append_encode]
      rfl

theorem skipColumnOffsetRegion_record (r : TableRecord n) (before after : Bytes) :
    (skipColumnOffsetRegion n).run (split before (r.columnRegion ++ after)) =
      .ok () (split (before ++ r.columnRegion) after) := by
  have bound := r.recordLength_lt
  rw [r.recordLength_eq] at bound
  have small : n * columnOffsetSize < 2 ^ 63 := by
    rw [columnOffsetSize]
    omega
  have region : ((r.columnRegion.length : Nat) : Int) = streamOff (n * columnOffsetSize : Nat) := by
    rw [streamOff_of_lt small, r.length_columnRegion, columnOffsetSize, Nat.mul_comm]
  exact seekCur_split region before after

/-- The seek over what follows the key. -/
theorem TableRecord.payload_seek (r : TableRecord n) :
    ((r.payload.length : Nat) : Int) = streamOff (r.recordLength -
      (1 + (n * columnOffsetSize : Nat) + 8 + r.pkLiteral.length)) := by
  have length : r.recordLength = 1 + 16 * n + (8 + r.pkLiteral.length) + r.payload.length := by
    simp only [StoredRecord.recordLength, StoredRecord.body, List.length_append,
      r.length_columnRegion, length_encodeString]
    omega
  have bound := r.recordLength_lt
  have total : (r.recordLength : Int) - (1 + (n * columnOffsetSize : Nat) + 8 +
      r.pkLiteral.length) = (r.payload.length : Nat) := by
    rw [length, columnOffsetSize]
    omega
  rw [total, streamOff_of_lt]
  omega

theorem TableRecord.length_value_lt_max (r : TableRecord n) {value : Bytes} (h : value ∈ r.row) :
    value.length < 2 ^ 63 - 1 := by
  have part := r.length_value_lt h
  have bound := r.recordLength_lt
  omega

theorem deserializeNextPrimaryKey_record (r : TableRecord n) (before after : Bytes) :
    (deserializeNextPrimaryKey n).run (split before (r.encode ++ after)) =
      .ok (if r.isTombstone then (.tombstone, [], 0) else (.live, r.pkLiteral, before.length + 8))
        (split (before ++ r.encode) after) := by
  unfold deserializeNextPrimaryKey
  cases state : r.isTombstone with
  | true =>
      rw [run_bind_ok (readHead_tombstone r.recordLength_lt state before after)]
      rfl
  | false =>
      have keyBound : r.pkLiteral.length < 2 ^ 63 - 1 :=
        r.length_value_lt_max (by simp [StoredRecord.row])
      have size : ofLE (toLE 8 r.pkLiteral.length) = r.pkLiteral.length :=
        ofLE_toLE_of_lt (by omega)
      have parts : r.body ++ after = r.columnRegion ++
          (toLE 8 r.pkLiteral.length ++ (r.pkLiteral ++ (r.payload ++ after))) := by
        simp [StoredRecord.body, encodeString]
      have whole : before ++ toLE 8 r.recordLength ++ [r.recordType] ++ r.columnRegion ++
          toLE 8 r.pkLiteral.length ++ r.pkLiteral ++ r.payload = before ++ r.encode := by
        simp [StoredRecord.encode, StoredRecord.body, encodeString]
      rw [run_bind_ok (readHead_live r.recordLength_lt state before after), parts]
      simp only [run_bind_ok (skipColumnOffsetRegion_record r _ _),
        run_bind_ok (read_split (length_toLE 8 _) _ _), run_bind_ok (run_failed _), split_fail,
        Bool.false_eq_true, if_false, size, run_bind_ok (readSized_split keyBound _ _),
        run_bind_ok (seekCur_split r.payload_seek _ _), whole]
      rfl

end Jssql.FileHandler
