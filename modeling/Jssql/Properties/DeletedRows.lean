import Jssql.Theory.MarkedBytes
import Jssql.Theory.MarkingHandlers
import Jssql.Theory.NamedColumns

/-!
What the scan of `DELETE` changes. It overwrites the type bytes of the live records
that satisfy the condition and nothing else, and counts them; a table without a counter
stops it at the first of them.
-/
namespace Jssql.FileHandler
open Foundation Foundation.Stream StrategyDecider

variable {n : Nat} {w : World} {t : TableSchema n} {f : TableFile n}

/-- The loop of the scan comes to the end of the file; the type bytes of the matching
live records have been overwritten and nothing else, and the counter has gone up by
their number. -/
def DeletesMatching (env : Env) (w : World) (t : TableSchema n) (f : TableFile n) (node : DeleteNode) :
    Prop :=
  ∃ s w' content, (repeatUntil .diverges (deleteRound env node) (scanRounds f.bytes) (atRecords f)).run w =
      .ok s w' ∧
    w'.disk.tableFiles.lookup node.tableName = some content ∧
    OnlyTypesChanged (accepts (conditionHolds t node.optWhereNode)) f content ∧
    w'.ctx.deleteCounterPerTable.lookup node.tableName =
      (w.ctx.deleteCounterPerTable.lookup node.tableName).map (· +
        ((liveRecords f.records).filter (accepts (conditionHolds t node.optWhereNode))).length)

/-- What the scan marks is what satisfies the condition, as it is named. -/
theorem deleteMarks_eq (env : Env) (node : DeleteNode) (distinct : (columnNames t.schema).Nodup)
    (column : ColumnKnown t node.optWhereNode) (rs : List (TableRecord n)) :
    deleteMarks env w t node rs =
      scanMarks (conditionHolds t node.optWhereNode) (missingFault env w node.tableName) rs := by
  have same : deleteMatches t node.optWhereNode = conditionHolds t node.optWhereNode :=
    funext fun r => deleteMatches_eq distinct column r
  rw [deleteMarks, same]

section Scan

variable (env : Env) {node : DeleteNode} (known : Registered w.ctx node.tableName t)
  (file : HasFile w node.tableName f) (indexed : ∀ r ∈ f.records, IndexedBy t.payloadCodes r)
  (distinct : (columnNames t.schema).Nodup) (column : ColumnKnown t node.optWhereNode)

include known file indexed distinct column

omit distinct in
/-- A loop that ends has not been stopped. -/
theorem deleteRounds_complete {s : Stream} {w' : World} (run : (repeatUntil .diverges (deleteRound env node)
    (scanRounds f.bytes) (atRecords f)).run w = .ok s w') : (deleteMarks env w t node f.records).stop = none := by
  have loop := deleteRounds_run env known file indexed column
  rw [run] at loop
  cases stop : (deleteMarks env w t node f.records).stop with
  | none => rfl
  | some e =>
      simp only [stop] at loop
      cases loop

/-- A scan that comes to the end of the file has marked the matches and nothing else. -/
theorem deletesMatching_iff_complete (evaluates : Evaluates (conditionHolds t node.optWhereNode) f.records) :
    DeletesMatching env w t f node ↔ (deleteMarks env w t node f.records).stop = none := by
  have loop := deleteRounds_run env known file indexed column
  constructor
  · rintro ⟨s, w', content, run, -, -, -⟩
    exact deleteRounds_complete env known file indexed column run
  · intro complete
    rw [deleteMarks_eq env node distinct column] at complete
    simp only [deleteMarks_eq env node distinct column, scanMarks_of_complete evaluates complete] at loop
    exact ⟨_, _, _, loop, marking_hasContent _ _, onlyTypesChanged_markMatching _ f,
      marking_counter w node.tableName _ _⟩

end Scan

/-- It does so if and only if the table has a counter or no record matches. -/
theorem deletesMatching_iff (env : Env) {node : DeleteNode} (known : Registered w.ctx node.tableName t)
    (file : HasFile w node.tableName f) (indexed : ∀ r ∈ f.records, IndexedBy t.payloadCodes r)
    (distinct : (columnNames t.schema).Nodup) (column : ColumnKnown t node.optWhereNode)
    (scan : isUniqueEqualityLookup node.optWhereNode t.pkColName = false)
    (evaluates : Evaluates (conditionHolds t node.optWhereNode) f.records) :
    (deleteData env node).run w = (do
      let _ ← repeatUntil .diverges (deleteRound env node) (scanRounds f.bytes) (atRecords f)
      maintain env node.tableName t.pkColName : Exec Unit).run w ∧
    (DeletesMatching env w t f node ↔ node.tableName ∈ w.ctx.deleteCounterPerTable ∨
      ∀ r ∈ liveRecords f.records, accepts (conditionHolds t node.optWhereNode) r = false) := by
  refine ⟨deleteData_scan env known.schema file scan, ?_⟩
  rw [deletesMatching_iff_complete env known file indexed distinct column evaluates,
    deleteMarks_eq env node distinct column, scanMarks_complete_iff _ evaluates, missingFault_eq_none_iff]

/-- A table with a counter: every row is marked. -/
theorem deletesMatching_iff_pair :
    let file := pairFile [ascii "1", ascii "2"] (ascii "x") (by decide)
    let counters : Map Bytes Nat := Finmap.insert (ascii "people") 0 ∅
    DeletesMatching ⟨false, id⟩ (singleTable (ascii "people") pairSchema file counters) pairSchema file
      ⟨ascii "people", none⟩ := by
  intro file counters
  exact (deletesMatching_iff ⟨false, id⟩ (singleTable_registered _ _ _ _) (singleTable_hasFile _ _ _ _)
    (pairFile_indexed _ _ _) (by decide) (fun _ h => by cases h) rfl (fun _ _ => ⟨true, rfl⟩)).2.mpr
    (.inl (Finmap.mem_insert.mpr (.inl rfl)))

/-- A table as `CREATE` leaves it has no counter, and the first match ends the process. -/
theorem not_deletesMatching :
    let file := pairFile [ascii "1", ascii "2"] (ascii "x") (by decide)
    let w := singleTable (ascii "people") pairSchema file ∅
    isUniqueEqualityLookup none pairSchema.pkColName = false ∧
      Evaluates (conditionHolds pairSchema none) file.records ∧
      ¬ DeletesMatching ⟨false, id⟩ w pairSchema file ⟨ascii "people", none⟩ := by
  intro file w
  have evaluates : Evaluates (conditionHolds pairSchema none) file.records := fun _ _ => ⟨true, rfl⟩
  have missing : ascii "people" ∉ w.ctx.deleteCounterPerTable := Finmap.notMem_empty
  refine ⟨rfl, evaluates, fun deletes => ?_⟩
  have complete := (deletesMatching_iff_complete ⟨false, id⟩ (singleTable_registered _ _ _ _)
    (singleTable_hasFile _ _ _ _) (pairFile_indexed _ _ _) (by decide) (fun _ h => by cases h) evaluates).mp
    deletes
  rw [deleteMarks_eq ⟨false, id⟩ _ (by decide) (fun _ h => by cases h), scanMarks_complete_iff _ evaluates,
    missingFault_eq_none_iff] at complete
  rcases complete with counted | nothing
  · exact missing counted
  · have first : pairRecord (ascii "1") (ascii "x") (by decide) ∈ liveRecords file.records :=
      mem_liveRecords.mpr ⟨List.mem_cons_self, rfl⟩
    cases nothing _ first

end Jssql.FileHandler
