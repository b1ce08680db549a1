import Jssql.Theory.Scans

/-!
The copy of the compaction: what `copyNextLiveRecord` writes for a live record is
the record, byte for byte, and the loop of `compactTable` leaves a new file with
exactly the live records behind its header.
-/
namespace Jssql.FileHandler
open Foundation Foundation.Stream

variable {n : Nat}

theorem copyColumnOffsets_split (env : Env) (offs : List ColumnOffset) (after : Bytes)
    (padding : ∀ off ∈ offs, off.padding.length = 7) : ∀ before : Bytes,
      (copyColumnOffsets env offs.length).run
        (split before (offs.flatMap encodeColumnOffset ++ after)) =
        .ok (offs.flatMap encodeColumnOffset)
          (split (before ++ offs.flatMap encodeColumnOffset) after) := by
  induction offs with
  | nil => intro before; simp [copyColumnOffsets]
  | cons off rest ih =>
      intro before
      have length : (encodeColumnOffset off).length = columnOffsetSize := by
        simp [encodeColumnOffset, padding off (by simp), columnOffsetSize]
      have parts : (off :: rest).flatMap encodeColumnOffset ++ after =
          encodeColumnOffset off ++ (rest.flatMap encodeColumnOffset ++ after) := by simp
      rw [parts, List.length_cons, copyColumnOffsets,
        run_bind_ok (readUnchecked_split env length before _),
        run_bind_ok (ih (fun o ho => padding o (by simp [ho])) _)]
      simp

theorem copyString_split (env : Env) {value : Bytes} (short : value.length < 2 ^ 63 - 1)
    (before after : Bytes) :
    (copyString env).run (split before (encodeString value ++ after)) =
      .ok (encodeString value) (split (before ++ encodeString value) after) := by
  unfold copyString
  rw [encodeString, List.append_assoc, run_bind_ok (readSize_split env (by omega) _ _),
    run_bind_ok (readSized_split short _ _), List.append_assoc]
  rfl

theorem copyLiterals_split (env : Env) (values : List Bytes) (after : Bytes)
    (short : ∀ value ∈ values, value.length < 2 ^ 63 - 1) : ∀ before : Bytes,
      (copyLiterals env values.length).run (split before (values.flatMap encodeString ++ after)) =
        .ok (values.flatMap encodeString) (split (before ++ values.flatMap encodeString) after) := by
  induction values with
  | nil => intro before; simp [copyLiterals]
  | cons value rest ih =>
      intro before
      have parts : (value :: rest).flatMap encodeString ++ after =
          encodeString value ++ (rest.flatMap encodeString ++ after) := by simp
      rw [parts, List.length_cons, copyLiterals,
        run_bind_ok (copyString_split env (short value (by simp)) before _),
        run_bind_ok (ih (fun v hv => short v (by simp [hv])) _)]
      simp

/-- A live record is written to the new file as it stands in the old one. -/
theorem copyNextLiveRecord_record (env : Env) (r : TableRecord n) (before after : Bytes) :
    (copyNextLiveRecord env n).run (split before (r.encode ++ after)) =
      .ok (if r.isTombstone then (.tombstone, []) else (.live, r.encode))
        (split (before ++ r.encode) after) := by
  unfold copyNextLiveRecord
  cases state : r.isTombstone with
  | true =>
      rw [run_bind_ok (readHead_tombstone r.recordLength_lt state before after)]
      rfl
  | false =>
      have parts : r.body ++ after = r.columnOffsets.flatMap encodeColumnOffset ++
          (encodeString r.pkLiteral ++ (r.payloadLiterals.flatMap encodeString ++ after)) := by
        simp [StoredRecord.body, StoredRecord.columnRegion, StoredRecord.payload]
      have offsets := copyColumnOffsets_split env r.columnOffsets
        (encodeString r.pkLiteral ++ (r.payloadLiterals.flatMap encodeString ++ after))
        r.padding_length (before ++ toLE 8 r.recordLength ++ [r.recordType])
      have literals (front : Bytes) := copyLiterals_split env r.payloadLiterals after
        (fun v hv => r.length_value_lt_max (by simp [StoredRecord.row, hv])) front
      rw [r.offsets_length] at offsets
      rw [r.literals_length] at literals
      have keyBound : r.pkLiteral.length < 2 ^ 63 - 1 :=
        r.length_value_lt_max (by simp [StoredRecord.row])
      rw [run_bind_ok (readHead_live r.recordLength_lt state before after), parts]
      simp only [run_bind_ok offsets, run_bind_ok (literals _),
        run_bind_ok (copyString_split env keyBound _ _)]
      simp [StoredRecord.encode, StoredRecord.body, StoredRecord.columnRegion,
        StoredRecord.payload]

theorem copyNextLiveRecord_end (env : Env) (columns : Nat) (before : Bytes) :
    (copyNextLiveRecord env columns).run (split before []) =
      .ok (.endOfTable, []) (exhausted before) := by
  unfold copyNextLiveRecord
  rw [run_bind_ok (readHead_end before)]
  rfl

end Jssql.FileHandler
