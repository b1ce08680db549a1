import Jssql.Theory.MarkingRounds

/-!
`DELETE` by scan and `UPDATE` as wholes, on a well-formed table. The scan marks
the records; if it comes to the end of the file the statement goes on, `UPDATE`
with the new records, and both with the index and the compaction.
-/
namespace Jssql.FileHandler
open Foundation Foundation.Stream ConditionEvaluator StrategyDecider

variable {n : Nat} {w : World} {t : TableSchema n} {f : TableFile n}

/-- The state after the scan has come as far as it comes. -/
def markedState (w : World) (table : Bytes) (f : TableFile n) (marks : Marks n) : World :=
  marking w table (f.withRecords marks.records).bytes marks.matched.length

theorem markedState_hasFile (w : World) (table : Bytes) (f : TableFile n) (marks : Marks n) :
    HasFile (markedState w table f marks) table (f.withRecords marks.records) :=
  marking_hasContent _ _

/-- A marking loop on a file: it stops, or goes on from the end of the file. -/
theorem run_marking_file {β : Type} {env : Env} {table : Bytes} (file : HasFile w table f)
    {isMatch : TableRecord n → Except Fault Bool} (config : Stream → List (TableRecord n) → β)
    (body : β → Exec (Bool × β))
    (round : ∀ r ∈ f.records, ∀ before after matched counted,
      (body (config (split before (r.encode ++ after)) matched)).run
        (marking w table (before ++ r.encode ++ after) counted) =
        roundResult env w table isMatch config r before after matched counted)
    (finish : ∀ before matched counted,
      (body (config (split before []) matched)).run (marking w table before counted) =
        .ok (true, config (exhausted before) matched) (marking w table before counted)) :
    let marks := scanMarks isMatch (missingFault env w table) f.records
    (repeatUntil .diverges body (scanRounds f.bytes) (config (atRecords f) [])).run w =
      match marks.stop with
      | some e => .error e (markedState w table f marks)
      | none => .ok (config (exhausted (f.withRecords marks.records).bytes) marks.matched)
          (markedState w table f marks) := by
  intro marks
  obtain ⟨spare, rounds⟩ := scanRounds_eq f.header f.records []
  have scan := run_marking env (spare + 1) [] f.records round f.header [] 0
  have start : marking w table (f.header ++ encodeAll f.records ++ []) 0 = w := by
    rw [List.append_nil]
    exact marking_zero file
  rw [List.append_nil] at rounds
  rw [start] at scan
  simp only [List.append_nil, Nat.zero_add, List.nil_append] at scan
  rw [TableFile.bytes, rounds, atRecords]
  refine scan.trans ?_
  cases hs : marks.stop with
  | some e =>
      simp only [marks] at hs
      dsimp only
      rfl
  | none =>
      have last := finish (f.withRecords marks.records).bytes marks.matched marks.matched.length
      simp only [marks] at hs
      rw [run_repeatUntil_succ]
      exact run_bind_ok last _

/-! DELETE -/

/-- What `DELETE` by scan leaves in the file. -/
def deleteMarks (env : Env) (w : World) (t : TableSchema n) (node : DeleteNode)
    (rs : List (TableRecord n)) : Marks n :=
  scanMarks (deleteMatches t node.optWhereNode) (missingFault env w node.tableName) rs

/-- `deleteData` up to the choice of the strategy. -/
theorem deleteData_run (env : Env) {node : DeleteNode}
    (known : w.ctx.untypedTables.lookup node.tableName = some t.schema)
    (file : HasFile w node.tableName f) :
    (deleteData env node).run w = (do
      deleteMatching env node t.pkColName (atRecords f)
      compactIfNecessary env node.tableName t.pkColName : Exec Unit).run w := by
  have schema : w.ctx.untypedTables.at node.tableName .tableName = .ok t.schema :=
    Map.at_of_lookup known _
  unfold deleteData
  rw [run_bind_ok (ensureTableFileExists_run file), run_bind_ok (openTableFile_run file),
    run_bind_ok (runStream_ok (checkFileValidity_file env false f) _)]
  dsimp only
  rw [run_bind_ok (run_get _), schema, run_bind_ok (run_lift_ok _ _), t.key,
    run_bind_ok (run_lift_ok _ _), if_pos (atRecords_isOpen f)]

/-- The loop of the scan: it stops, or has come to the end of the file. -/
theorem deleteRounds_run (env : Env) {node : DeleteNode} (known : Registered w.ctx node.tableName t)
    (file : HasFile w node.tableName f) (indexed : ∀ r ∈ f.records, IndexedBy t.payloadCodes r)
    (column : ColumnKnown t node.optWhereNode) :
    (repeatUntil .diverges (deleteRound env node) (scanRounds f.bytes) (atRecords f)).run w =
      let marks := deleteMarks env w t node f.records
      match marks.stop with
      | some e => .error e (markedState w node.tableName f marks)
      | none => .ok (exhausted (f.withRecords marks.records).bytes)
          (markedState w node.tableName f marks) :=
  run_marking_file file (fun s _ => s) (deleteRound env node) (fun r hr => deleteRound_record env known column (indexed r hr))
    (fun before matched counted => by
      unfold deleteRound
      rw [run_bind_ok (run_get _), EStateM.run_bind, runTableStream_outcome,
        performSequentialDelete_end, outcome_ok]
      simp only [exhausted_content, marking_setTableFile]
      rfl)

/-- Without a key equality `deleteData` is the loop, the index and the compaction. -/
theorem deleteData_scan (env : Env) {node : DeleteNode}
    (known : w.ctx.untypedTables.lookup node.tableName = some t.schema) (file : HasFile w node.tableName f)
    (scan : isUniqueEqualityLookup node.optWhereNode t.pkColName = false) :
    (deleteData env node).run w = (do
      let _ ← repeatUntil .diverges (deleteRound env node) (scanRounds f.bytes) (atRecords f)
      maintain env node.tableName t.pkColName : Exec Unit).run w := by
  have branch : deleteMatching env node t.pkColName (atRecords f) = (do
      let _ ← repeatUntil .diverges (deleteRound env node) (scanRounds f.bytes) (atRecords f)
      recalculateIndicesForTable env node.tableName) := by
    rw [deleteMatching, scan]
    cases node.optWhereNode <;> rfl
  rw [deleteData_run env known file, branch, bind_assoc]
  rfl

theorem deleteData_sequential (env : Env) {node : DeleteNode}
    (known : Registered w.ctx node.tableName t) (file : HasFile w node.tableName f)
    (indexed : ∀ r ∈ f.records, IndexedBy t.payloadCodes r) (column : ColumnKnown t node.optWhereNode)
    (scan : isUniqueEqualityLookup node.optWhereNode t.pkColName = false) :
    (deleteData env node).run w =
      let marks := deleteMarks env w t node f.records
      match marks.stop with
      | some e => .error e (markedState w node.tableName f marks)
      | none => (maintain env node.tableName t.pkColName).run
          (markedState w node.tableName f marks) := by
  have loop := deleteRounds_run env known file indexed column
  rw [deleteData_scan env known.schema file scan]
  cases hs : (deleteMarks env w t node f.records).stop with
  | some e =>
      simp only [hs] at loop ⊢
      exact run_bind_error loop _
  | none =>
      simp only [hs] at loop ⊢
      exact run_bind_ok loop _

end Jssql.FileHandler
