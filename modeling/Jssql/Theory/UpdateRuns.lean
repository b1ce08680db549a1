import Jssql.Theory.MarkingHandlers

/-!
`UPDATE` on a well-formed table. The normalizer leaves a literal for each column
that is not to be kept, so the new values of every marked row can be computed, and
being texts they can all be written.
-/
namespace Jssql.FileHandler
open Foundation Foundation.Stream SemanticNormalizer

variable {n : Nat}

/-! The normalizer -/

/-- Every column of the schema is either kept or has a literal. -/
structure UpdateReady (width : Nat) (mask : List Bool) (literals : Map Nat Bytes) : Prop where
  length : mask.length = width
  literal : ∀ i, mask[i]? = some false → ∃ value, literals.lookup i = some value

theorem UpdateReady.assign {width : Nat} {mask : List Bool} {literals : Map Nat Bytes}
    (h : UpdateReady width mask literals) (i : Nat) (value : Bytes) :
    UpdateReady width (mask.set i false)
      (if i ∈ literals then literals else literals.insert i value) := by
  refine ⟨by rw [List.length_set, h.length], fun j hj => ?_⟩
  have old (present : ∃ value, literals.lookup j = some value) : ∃ value',
      (if i ∈ literals then literals else literals.insert i value).lookup j = some value' := by
    split
    · exact present
    · by_cases same : j = i
      · subst same
        exact ⟨value, Finmap.lookup_insert _⟩
      · rwa [Finmap.lookup_insert_of_ne _ same]
  by_cases same : i = j
  · subst same
    by_cases present : i ∈ literals
    · exact old (Finmap.mem_iff.mp present)
    · rw [if_neg present]
      exact ⟨value, Finmap.lookup_insert _⟩
  · rw [List.getElem?_set_ne same] at hj
    exact old (h.literal j hj)

theorem normalizeAssignments_ready {schema : Schema} {primaryKeyCol : Bytes} {width : Nat}
    (assignments : List AssignmentNode) : ∀ st : AssignmentState,
      UpdateReady width st.inverseProjMask st.schemaIndexToLiteralMap →
      UpdateReady width
        (normalizeAssignments schema primaryKeyCol assignments st).2.1.inverseProjMask
        (normalizeAssignments schema primaryKeyCol assignments st).2.1.schemaIndexToLiteralMap := by
  induction assignments with
  | nil => intro st h; exact h
  | cons assignment rest ih =>
      intro st h
      have next := h.assign (findColumn schema assignment.colName)
        (removeOuterQuotes assignment.literal.value)
      simp only [normalizeAssignments]
      split
      · exact h
      · split
        · exact next
        · split
          · exact next
          · exact ih _ next

/-- What a successful normalization of an `UPDATE` on a known table makes of it. -/
theorem normalizeUpdate_ok {node node' : UpdateNode} {tables : Map Bytes Schema}
    {t : TableSchema n} (known : tables.lookup node.tableName = some t.schema)
    (h : normalizeUpdate node tables = .ok (node', true)) :
    node'.tableName = node.tableName ∧
      UpdateReady (n + 1) node'.inverseProjMask node'.schemaIndexToLiteralMap ∧
      normalizeWhereClause node.optWhereNode t.schema = (node'.optWhereNode, true) := by
  simp only [normalizeUpdate, known, t.key, ok_bind] at h
  split at h
  · cases h
  · have start : UpdateReady (n + 1) (List.replicate t.schema.length true)
        node.schemaIndexToLiteralMap :=
      ⟨by rw [List.length_replicate, t.width], fun i hi => by simp [List.getElem?_replicate] at hi⟩
    split at h
    · cases h
    · obtain ⟨nodes, ok⟩ := Prod.mk.inj (Except.ok.inj h)
      subst nodes
      exact ⟨rfl, normalizeAssignments_ready node.assignments _ start, Prod.ext rfl ok⟩

/-! The new records -/

/-- The value of column `i` after the assignments. -/
def updatedValue (node : UpdateNode) (row : Record) (i : Nat) : Bytes :=
  if node.inverseProjMask[i]? = some true then (row[i]?).getD []
  else (node.schemaIndexToLiteralMap.lookup i).getD []

def updatedRow (node : UpdateNode) (row : Record) : Record :=
  (List.range' 0 row.length).map (updatedValue node row)

/-- Values as literals of the type string, as `UPDATE` and `IMPORT` write them. -/
def stringRecord (row : Record) : ValueRecordNode := row.map fun value => some ⟨.string, value⟩

theorem updatedValues_eq {node : UpdateNode} {row : Record}
    (ready : UpdateReady row.length node.inverseProjMask node.schemaIndexToLiteralMap) :
    ∀ (remaining i : Nat), i + remaining ≤ row.length →
      updatedValues node row remaining i =
        .ok (stringRecord ((List.range' i remaining).map (updatedValue node row))) := by
  intro remaining
  induction remaining with
  | zero => intro i _; rfl
  | succ remaining ih =>
      intro i bound
      have inMask : i < node.inverseProjMask.length := by rw [ready.length]; omega
      have hm := List.getElem?_eq_getElem inMask
      have hr : row[i]? = some row[i] := List.getElem?_eq_getElem (by omega)
      have tail := ih (i + 1) (by omega)
      rw [updatedValues, index, hm, List.range'_succ]
      cases keep : node.inverseProjMask[i] with
      | true =>
          rw [keep] at hm
          have value : updatedValue node row i = row[i] := by
            rw [updatedValue, if_pos hm, hr, Option.getD_some]
          simp only [ok_bind, if_true, checkedIndex, hr, tail, stringRecord, List.map_cons, value]
          rfl
      | false =>
          rw [keep] at hm
          obtain ⟨literal, found⟩ := ready.literal i hm
          have value : updatedValue node row i = literal := by
            rw [updatedValue, if_neg (by rw [hm]; simp), found, Option.getD_some]
          simp only [ok_bind, Bool.false_eq_true, if_false, Map.at_of_lookup found, tail,
            stringRecord, List.map_cons, value]
          rfl

/-- The new record of a marked row can always be computed. -/
theorem updatedRecord_eq {t : TableSchema n} {node : UpdateNode}
    (ready : UpdateReady (n + 1) node.inverseProjMask node.schemaIndexToLiteralMap)
    (r : TableRecord n) :
    updatedRecord node t.schema r.row = .ok (stringRecord (updatedRow node r.row)) := by
  rw [← r.length_row] at ready
  rw [updatedRecord, t.width, ← r.length_row, updatedRow]
  exact updatedValues_eq ready _ 0 (by omega)

theorem mapM_updatedRecord {t : TableSchema n} {node : UpdateNode}
    (ready : UpdateReady (n + 1) node.inverseProjMask node.schemaIndexToLiteralMap)
    (rs : List (TableRecord n)) :
    (rs.map fun r => r.row).mapM (updatedRecord node t.schema) =
      .ok (rs.map fun r => stringRecord (updatedRow node r.row)) := by
  induction rs with
  | nil => rfl
  | cons r rest ih =>
      rw [List.map_cons, List.mapM_cons, updatedRecord_eq ready r, ih]
      rfl

/-! The handler -/

variable {w : World} {t : TableSchema n} {f : TableFile n}

/-- The comparison that the scan makes for a record. -/
def scanned (node : UpdateNode) (r : TableRecord n) : Except Fault Bool :=
  whereMatches node.optWhereNode r.row

/-- What the scan of `UPDATE` leaves in the file. -/
def updateMarks (env : Env) (w : World) (node : UpdateNode) (rs : List (TableRecord n)) : Marks n :=
  scanMarks (fun r => whereMatches node.optWhereNode r.row) (missingFault env w node.tableName) rs

theorem markOldRecords_run (env : Env) {node : UpdateNode} (file : HasFile w node.tableName f) :
    (markOldRecords env node t.schema (atRecords f)).run w =
      let marks := updateMarks env w node f.records
      match marks.stop with
      | some e => .error e (markedState w node.tableName f marks)
      | none => .ok (marks.matched.map fun r => r.row)
          (markedState w node.tableName f marks) := by
  have loop : (repeatUntil .diverges (updateRound env node t.schema) (scanRounds f.bytes)
      (updateScan (atRecords f) [])).run w =
      let marks := updateMarks env w node f.records
      match marks.stop with
      | some e => .error e (markedState w node.tableName f marks)
      | none => .ok (updateScan (exhausted (f.withRecords marks.records).bytes) marks.matched)
          (markedState w node.tableName f marks) :=
    run_marking_file file updateScan (updateRound env node t.schema)
      (fun r _ => updateRound_record env t w node r)
      (fun before matched counted => by
        unfold updateRound updateScan deserializeNextRecordAndMarkAsTombstone
        rw [EStateM.run_bind, runTableStream_outcome, run_bind_ok (readHead_end before)]
        simp only [marking_setTableFile]
        rfl)
  unfold markOldRecords
  cases hs : (updateMarks env w node f.records).stop with
  | some e =>
      simp only [hs] at loop ⊢
      exact run_bind_error loop _
  | none =>
      simp only [hs] at loop ⊢
      exact run_bind_ok loop _

theorem updateData_run (env : Env) {node : UpdateNode}
    (known : w.ctx.untypedTables.lookup node.tableName = some t.schema)
    (file : HasFile w node.tableName f)
    (ready : UpdateReady (n + 1) node.inverseProjMask node.schemaIndexToLiteralMap) :
    (updateData env node).run w =
      let marks := updateMarks env w node f.records
      match marks.stop with
      | some e => .error e (markedState w node.tableName f marks)
      | none => (do
          insertRecords env node.tableName (List.replicate t.schema.length true) .update
            (marks.matched.map fun r => stringRecord (updatedRow node r.row))
          maintain env node.tableName t.pkColName : Exec Unit).run
            (markedState w node.tableName f marks) := by
  have schema : w.ctx.untypedTables.at node.tableName .tableName = .ok t.schema :=
    Map.at_of_lookup known _
  have scan := markOldRecords_run env file (t := t)
  unfold updateData
  rw [run_bind_ok (ensureTableFileExists_run file), run_bind_ok (openTableFile_run file),
    run_bind_ok (runStream_ok (checkFileValidity_file env false f) _)]
  dsimp only
  rw [run_bind_ok (run_get _), schema, run_bind_ok (run_lift_ok _ _)]
  cases hs : (updateMarks env w node f.records).stop with
  | some e =>
      simp only [hs] at scan ⊢
      exact run_bind_error scan _
  | none =>
      simp only [hs] at scan ⊢
      rw [run_bind_ok scan, mapM_updatedRecord ready, run_bind_ok (run_lift_ok _ _), t.key]
      rfl

end Jssql.FileHandler
