import Jssql.Theory.TableSchema

/-!
The readers that look at the columns of a record. `columnsResult` is the loop of
`readColumns` on the stored values alone, and each reader's result is a function
of the row. A comparison that throws leaves the stream inside the record; then
only the content of the file is stated.
-/
namespace Jssql.FileHandler
open Foundation Foundation.Stream ConditionEvaluator

variable {n : Nat}

def columnsResult (project : Nat → Except Fault Bool) (optWhere : Option WhereNode) :
    Nat → Bool → Record → List Bytes → Except Fault (Bool × Record)
  | _, whereResult, out, [] => .ok (whereResult, out)
  | i, whereResult, out, value :: values => do
      let whereResult ← evaluateWhere optWhere i value whereResult
      let projected ← project i
      columnsResult project optWhere (i + 1) whereResult
        (if projected then out ++ [value] else out) values

theorem readColumns_split (env : Env) (project : Nat → Except Fault Bool)
    (optWhere : Option WhereNode) (values : List Bytes) (after : Bytes)
    (short : ∀ value ∈ values, value.length < 2 ^ 63 - 1) :
    ∀ (i : Nat) (whereResult : Bool) (out : Record) (before : Bytes),
      outcome Stream.content ((readColumns env project optWhere values.length i whereResult out).run
        (split before (values.flatMap encodeString ++ after))) =
      settle ((columnsResult project optWhere i whereResult out values).map some)
        (split (before ++ values.flatMap encodeString) after)
        (before ++ values.flatMap encodeString ++ after) := by
  induction values with
  | nil =>
      intro i whereResult out before
      simp [readColumns, columnsResult, Except.map]
  | cons value rest ih =>
      intro i whereResult out before
      have bound := short value (by simp)
      have parts : (value :: rest).flatMap encodeString ++ after = toLE 8 value.length ++
          (value ++ (rest.flatMap encodeString ++ after)) := by
        simp [encodeString]
      have whole : before ++ toLE 8 value.length ++ value ++ rest.flatMap encodeString =
          before ++ (value :: rest).flatMap encodeString := by
        simp [encodeString]
      have content : before ++ toLE 8 value.length ++ value ++ (rest.flatMap encodeString ++ after) =
          before ++ (value :: rest).flatMap encodeString ++ after := by
        simp [encodeString]
      rw [parts, List.length_cons, readColumns,
        run_bind_ok (readSize_split env (by omega) before _),
        run_bind_ok (readSized_split bound _ _), run_bind_ok (run_failed _), if_neg (by simp),
        columnsResult]
      cases evaluateWhere optWhere i value whereResult with
      | error e =>
          rw [run_bind_error (run_lift_error e _), outcome_error, split_content, content]
          rfl
      | ok result =>
          rw [run_bind_ok (run_lift_ok result _)]
          cases project i with
          | error e =>
              rw [run_bind_error (run_lift_error e _), outcome_error, split_content, content]
              rfl
          | ok projected =>
              rw [run_bind_ok (run_lift_ok projected _),
                ih (fun v hv => short v (by simp [hv])), whole]
              rfl

/-! The loop in closed form -/

/-- The condition on the values from column `i` on; without its column it does not
change the result so far. -/
def whereFrom (optWhere : Option WhereNode) (i : Nat) (whereResult : Bool) (values : List Bytes) :
    Except Fault Bool :=
  match optWhere with
  | none => .ok whereResult
  | some w =>
      match if i ≤ w.condition.schemaIndex.toNat then values[w.condition.schemaIndex.toNat - i]?
        else none with
      | none => .ok whereResult
      | some value => evaluateComparator value w.condition.cmp w.condition.literal

/-- A row satisfies the condition of a `WHERE` clause. -/
def whereMatches (optWhere : Option WhereNode) (row : Record) : Except Fault Bool :=
  whereFrom optWhere 0 true row

theorem whereMatches_of_getElem? {cond : ConditionNode} {row : Record} {value : Bytes}
    (place : row[cond.schemaIndex.toNat]? = some value) :
    whereMatches (some ⟨cond⟩) row = evaluateComparator value cond.cmp cond.literal := by
  rw [whereMatches, whereFrom, if_pos (Nat.zero_le _), Nat.sub_zero]
  dsimp only
  rw [place]

/-- The values that a mask keeps. -/
def projectRow (projectionMask : List Bool) (row : Record) : Record :=
  ((row.zip projectionMask).filter Prod.snd).map Prod.fst

private theorem whereFrom_cons (optWhere : Option WhereNode) (i : Nat) (whereResult : Bool)
    (value : Bytes) (values : List Bytes) :
    whereFrom optWhere i whereResult (value :: values) =
      evaluateWhere optWhere i value whereResult >>= fun result =>
        whereFrom optWhere (i + 1) result values := by
  cases optWhere with
  | none => rfl
  | some w =>
      rcases Nat.lt_trichotomy i w.condition.schemaIndex.toNat with before | here | behind
      · have step : w.condition.schemaIndex.toNat - i =
            (w.condition.schemaIndex.toNat - (i + 1)) + 1 := by omega
        have other : w.condition.schemaIndex.toNat ≠ i := by omega
        simp only [whereFrom, evaluateWhere, if_pos (Nat.le_of_lt before), if_neg other,
          if_pos (Nat.succ_le_of_lt before), step, List.getElem?_cons_succ]
        rfl
      · have past : ¬ i + 1 ≤ w.condition.schemaIndex.toNat := by omega
        simp only [whereFrom, evaluateWhere, if_pos (Nat.le_of_eq here), if_pos here.symm,
          if_neg past, Nat.sub_eq_zero_of_le (Nat.le_of_eq here.symm), List.getElem?_cons_zero]
        cases evaluateComparator value w.condition.cmp w.condition.literal <;> rfl
      · have past : ¬ i + 1 ≤ w.condition.schemaIndex.toNat := by omega
        have other : w.condition.schemaIndex.toNat ≠ i := by omega
        simp only [whereFrom, evaluateWhere, if_neg (Nat.not_le_of_lt behind), if_neg other,
          if_neg past]
        rfl

/-- A projection that reads a mask long enough gives the masked values. -/
theorem columnsResult_eq (optWhere : Option WhereNode) (project : Nat → Except Fault Bool)
    (values : List Bytes) : ∀ (mask : List Bool) (i : Nat) (whereResult : Bool) (out : Record),
      mask.length = values.length → (∀ k b, mask[k]? = some b → project (i + k) = .ok b) →
      columnsResult project optWhere i whereResult out values =
        (whereFrom optWhere i whereResult values).map fun result =>
          (result, out ++ projectRow mask values) := by
  induction values with
  | nil =>
      intro mask i whereResult out _ _
      cases optWhere <;> simp [columnsResult, whereFrom, projectRow, Except.map]
  | cons value rest ih =>
      intro mask i whereResult out width projects
      obtain ⟨b, mask, rfl⟩ : ∃ b tail, mask = b :: tail := by
        cases mask with
        | nil => cases width
        | cons b tail => exact ⟨b, tail, rfl⟩
      have head : project i = .ok b := projects 0 b rfl
      have tail (k : Nat) (c : Bool) (hc : mask[k]? = some c) : project (i + 1 + k) = .ok c := by
        rw [Nat.add_right_comm]
        exact projects (k + 1) c hc
      have kept : (if b then out ++ [value] else out) ++ projectRow mask rest =
          out ++ projectRow (b :: mask) (value :: rest) := by
        cases b <;> simp [projectRow]
      rw [columnsResult, whereFrom_cons]
      cases evaluateWhere optWhere i value whereResult with
      | error e => rfl
      | ok result =>
          change (project i >>= fun projected => _) = (whereFrom optWhere (i + 1) result rest).map _
          rw [head]
          change columnsResult project optWhere (i + 1) result (if b then out ++ [value] else out)
            rest = _
          rw [ih mask (i + 1) result _ (by simpa using width) tail, kept]

theorem projectRow_all (row : Record) : projectRow (List.replicate row.length true) row = row := by
  induction row with
  | nil => rfl
  | cons value rest ih =>
      simpa [projectRow, List.replicate_succ] using ih

/-- Every column is kept by the reader that marks records. -/
theorem columnsResult_all (optWhere : Option WhereNode) (row : Record) :
    columnsResult (fun _ => .ok true) optWhere 0 true [] row =
      (whereMatches optWhere row).map fun result => (result, row) := by
  rw [columnsResult_eq optWhere _ row (List.replicate row.length true) 0 true [] (by simp),
    projectRow_all]
  · rfl
  · intro k b hb
    rw [List.getElem?_replicate] at hb
    split at hb <;> cases hb
    rfl

/-! The readers -/

/-- The result of reading a live record that holds the given row. -/
def recordResult (projectionMask : List Bool) (optWhere : Option WhereNode) (row : Record) :
    Except Fault (Indicator × Record) :=
  (columnsResult (index projectionMask) optWhere 0 true [] row).map fun result =>
    (if result.1 then .live else .skip, result.2)

theorem recordResult_eq {projectionMask : List Bool} {row : Record}
    (width : projectionMask.length = row.length) (optWhere : Option WhereNode) :
    recordResult projectionMask optWhere row =
      (whereMatches optWhere row).map fun result =>
        (if result then .live else .skip, projectRow projectionMask row) := by
  rw [recordResult, columnsResult_eq optWhere _ row projectionMask 0 true [] width]
  · rw [whereMatches]
    cases whereFrom optWhere 0 true row <;> rfl
  · intro k b hb
    simp [index, hb]

section Records

variable (env : Env) (t : TableSchema n) (r : TableRecord n) (before after : Bytes)

/-- The columns of a live record, read from where the head left the stream. -/
theorem readColumns_body (project : Nat → Except Fault Bool) (optWhere : Option WhereNode) :
    outcome Stream.content ((do
        skipColumnOffsetRegion (columnsWithoutPk t.schema)
        readColumns env project optWhere t.schema.length 0 true [] : StreamM _).run
      (split (before ++ toLE 8 r.recordLength ++ [r.recordType]) (r.body ++ after))) =
    settle ((columnsResult project optWhere 0 true [] r.row).map some)
      (split (before ++ r.encode) after) (before ++ r.encode ++ after) := by
  have columns : t.schema.length = r.row.length := by rw [t.width, r.length_row]
  have whole : before ++ toLE 8 r.recordLength ++ [r.recordType] ++ r.columnRegion ++
      r.row.flatMap encodeString = before ++ r.encode := by
    simp [StoredRecord.encode, StoredRecord.body_eq_row]
  have parts : r.body ++ after = r.columnRegion ++ (r.row.flatMap encodeString ++ after) := by
    rw [StoredRecord.body_eq_row, List.append_assoc]
  rw [parts, t.columnsWithoutPk_eq, run_bind_ok (skipColumnOffsetRegion_record r _ _), columns,
    readColumns_split env project optWhere r.row after fun value h => r.length_value_lt_max h,
    whole]

theorem deserializeNextRecord_tombstone (dead : r.isTombstone = true)
    (projectionMask : List Bool) (optWhere : Option WhereNode) :
    (deserializeNextRecord env t.schema projectionMask optWhere).run
      (split before (r.encode ++ after)) =
      .ok (.tombstone, []) (split (before ++ r.encode) after) := by
  unfold deserializeNextRecord
  rw [run_bind_ok (readHead_tombstone r.recordLength_lt dead before after)]
  rfl

theorem deserializeNextRecord_live (live : r.isTombstone = false)
    (projectionMask : List Bool) (optWhere : Option WhereNode) :
    outcome Stream.content ((deserializeNextRecord env t.schema projectionMask optWhere).run
      (split before (r.encode ++ after))) =
      settle (recordResult projectionMask optWhere r.row) (split (before ++ r.encode) after)
        (before ++ r.encode ++ after) := by
  have columns := readColumns_body env t r before after (index projectionMask) optWhere
  unfold deserializeNextRecord recordResult
  rw [run_bind_ok (readHead_live r.recordLength_lt live before after)]
  simp only [← bind_assoc]
  rw [outcome_bind, columns]
  cases columnsResult (index projectionMask) optWhere 0 true [] r.row with
  | error e => rfl
  | ok result => rfl

/-- Overwriting the type byte, from wherever the columns were read to. -/
theorem markAsTombstone_record {s : Stream} (ok : s.fail = false) (isOpen : s.isOpen = true)
    (content : s.content = before ++ r.encode ++ after) :
    (markAsTombstone (before.length + 8) r.recordLength).run s =
      .ok () (split (before ++ r.marked.encode) after) := by
  have bound := r.recordLength_lt
  have start : ((before.length + 8 : Nat) : Int) = (before ++ toLE 8 r.recordLength).length := by
    simp
  have type : s.content = (before ++ toLE 8 r.recordLength) ++ ([r.recordType] ++ (r.body ++ after)) := by
    rw [content]
    simp [StoredRecord.encode]
  have next : ((before.length + 8 : Nat) : Int) + streamOff r.recordLength =
      (before ++ r.marked.encode).length := by
    rw [streamOff_of_lt bound]
    simp only [List.length_append, TableRecord.marked_toStoredRecord,
      StoredRecord.length_encode, StoredRecord.marked_recordLength]
    omega
  have written : (split (before ++ toLE 8 r.recordLength ++ [RecordType.delete.toByte])
      (r.body ++ after)).content = (before ++ r.marked.encode) ++ after := by
    simp [StoredRecord.marked_encode]
  unfold markAsTombstone
  rw [run_bind_ok (seekBeg_split start ok isOpen type),
    run_bind_ok (write_split (by rfl) _ _), seekBeg_split next rfl rfl written]

/-- The result of reading a record that is to be marked if it matches. -/
theorem deserializeNextRecordAndMarkAsTombstone_tombstone (dead : r.isTombstone = true)
    (optWhere : Option WhereNode) :
    (deserializeNextRecordAndMarkAsTombstone env t.schema optWhere).run
      (split before (r.encode ++ after)) =
      .ok (.tombstone, []) (split (before ++ r.encode) after) := by
  unfold deserializeNextRecordAndMarkAsTombstone
  rw [run_bind_ok (readHead_tombstone r.recordLength_lt dead before after)]
  rfl

theorem deserializeNextRecordAndMarkAsTombstone_live (live : r.isTombstone = false) (optWhere : Option WhereNode) :
    outcome Stream.content ((deserializeNextRecordAndMarkAsTombstone env t.schema optWhere).run
      (split before (r.encode ++ after))) =
      match whereMatches optWhere r.row with
      | .error e => .error (e, before ++ r.encode ++ after)
      | .ok true => .ok ((.live, r.row), split (before ++ r.marked.encode) after)
      | .ok false => .ok ((.skip, r.row), split (before ++ r.encode) after) := by
  have columns := readColumns_body env t r before after (fun _ => .ok true) optWhere
  rw [columnsResult_all] at columns
  unfold deserializeNextRecordAndMarkAsTombstone
  rw [run_bind_ok (readHead_live r.recordLength_lt live before after)]
  simp only [← bind_assoc]
  rw [outcome_bind, columns]
  cases whereMatches optWhere r.row with
  | error e => rfl
  | ok result =>
      cases result with
      | false => rfl
      | true =>
          rw [Except.map, Except.map, settle_ok, ok_bind, markIfMatching, run_bind_ok (markAsTombstone_record r before after rfl rfl rfl)]
          rfl

end Records
end Jssql.FileHandler
