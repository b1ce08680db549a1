import Jssql.Theory.MarkingScan

/-!
One round of the scans of `DELETE` and of `UPDATE`, and with it the scans: both
leave what `scanMarks` leaves, for the comparison each of them makes.
-/
namespace Jssql.FileHandler
open Foundation Foundation.Stream ConditionEvaluator

variable {n : Nat} {w : World} {t : TableSchema n}

theorem marking_registered {table : Bytes} (known : Registered w.ctx table t) (content : Bytes)
    (counted : Nat) : Registered (marking w table content counted).ctx table t :=
  ⟨known.schema, known.colcodes⟩

/-! DELETE -/

theorem deleteRound_record (env : Env) {node : DeleteNode} (known : Registered w.ctx node.tableName t)
    (column : ColumnKnown t node.optWhereNode) {r : TableRecord n}
    (indexed : IndexedBy t.payloadCodes r) (before after : Bytes) (matched : List (TableRecord n))
    (counted : Nat) :
    (deleteRound env node (split before (r.encode ++ after))).run
      (marking w node.tableName (before ++ r.encode ++ after) counted) =
      roundResult env w node.tableName (deleteMatches t node.optWhereNode) (fun s _ => s) r before
        after matched counted := by
  unfold deleteRound
  rw [run_bind_ok (run_get _), EStateM.run_bind, runTableStream_outcome, roundResult]
  cases state : r.isTombstone with
  | true =>
      rw [performSequentialDelete_tombstone env r before after state, outcome_ok]
      simp only [split_content, marking_setTableFile, if_true]
      rfl
  | false =>
      rw [performSequentialDelete_live env r before after state (marking_registered known _ _) indexed
        column]
      cases deleteMatches t node.optWhereNode r with
      | error e => simp only [markOutcome, marking_setTableFile, Bool.false_eq_true, if_false]
      | ok isMatch =>
          cases isMatch with
          | false =>
              simp only [markOutcome, split_content, marking_setTableFile, Bool.false_eq_true, if_false]
              rfl
          | true =>
              simp only [markOutcome, split_content, marking_setTableFile, Bool.false_eq_true, if_false,
                if_true, missingFault]
              rw [countMarked_run env fun count => Nat.add_comm 1 count]
              cases w.ctx.deleteCounterPerTable.lookup node.tableName <;> rfl

/-! UPDATE -/

/-- The variable of the loop of `UPDATE`: the stream and the rows read so far. -/
def updateScan (s : Stream) (matched : List (TableRecord n)) : Stream × List Record :=
  (s, matched.map fun r => r.row)

theorem updateRound_record (env : Env) (t : TableSchema n) (w : World) (node : UpdateNode)
    (r : TableRecord n) (before after : Bytes) (matched : List (TableRecord n)) (counted : Nat) :
    (updateRound env node t.schema (updateScan (split before (r.encode ++ after)) matched)).run
      (marking w node.tableName (before ++ r.encode ++ after) counted) =
      roundResult env w node.tableName (fun r => whereMatches node.optWhereNode r.row) updateScan r
        before after matched counted := by
  unfold updateRound updateScan
  rw [EStateM.run_bind, runTableStream_outcome, roundResult]
  cases state : r.isTombstone with
  | true =>
      rw [deserializeNextRecordAndMarkAsTombstone_tombstone env t r before after state, outcome_ok]
      simp only [split_content, marking_setTableFile, if_true]
      rfl
  | false =>
      rw [deserializeNextRecordAndMarkAsTombstone_live env t r before after state]
      cases whereMatches node.optWhereNode r.row with
      | error e => simp only [marking_setTableFile, Bool.false_eq_true, if_false]
      | ok isMatch =>
          cases isMatch with
          | false =>
              simp only [split_content, marking_setTableFile, Bool.false_eq_true, if_false]
              rfl
          | true =>
              simp only [split_content, marking_setTableFile, Bool.false_eq_true, if_false,
                if_true, missingFault]
              rw [countMarked_run env fun count => rfl]
              cases w.ctx.deleteCounterPerTable.lookup node.tableName with
              | none => rfl
              | some count =>
                  simp only [List.map_append]
                  rfl

end Jssql.FileHandler
