import Jssql.Theory.MarkedBytes
import Jssql.Theory.NamedColumns
import Jssql.Theory.RecordBuffer
import Jssql.Theory.TextRecords

/-!
What `UPDATE` makes of the matching records. Each of them is marked and written once
more at the end of the file, and the scan is over before the first new record is there.
A table without a counter stops the scan at its first match.
-/
namespace Jssql.FileHandler
open Foundation Foundation.Stream SemanticNormalizer SemanticValidator

variable {n : Nat} {w : World} {t : TableSchema n} {f : TableFile n} {idx : Index}

/-! The statement up to its upkeep -/

/-- `updateData` from the scan to the last record that it writes. -/
def replaceRecords (env : Env) (node : UpdateNode) (schema : Schema) (stream : Stream) : Exec Unit := do
  let oldRecords ← markOldRecords env node schema stream
  let newRecords ← lift (oldRecords.mapM (updatedRecord node schema))
  insertRecords env node.tableName (List.replicate schema.length true) .update newRecords

theorem updateData_replaceRecords (env : Env) {node : UpdateNode}
    (known : w.ctx.untypedTables.lookup node.tableName = some t.schema) (file : HasFile w node.tableName f) :
    (updateData env node).run w = (do
      replaceRecords env node t.schema (atRecords f)
      maintain env node.tableName t.pkColName : Exec Unit).run w := by
  have schema : w.ctx.untypedTables.at node.tableName .tableName = .ok t.schema := Map.at_of_lookup known _
  unfold updateData replaceRecords
  rw [run_bind_ok (ensureTableFileExists_run file), run_bind_ok (openTableFile_run file),
    run_bind_ok (runStream_ok (checkFileValidity_file env false f) _)]
  dsimp only
  rw [run_bind_ok (run_get _), schema, run_bind_ok (run_lift_ok _ _)]
  simp only [bind_assoc]
  refine congrArg (fun p : Exec Unit => p.run w) ?_
  refine bind_congr fun oldRecords => bind_congr fun newRecords => bind_congr fun _ => ?_
  rw [maintain, t.key]
  rfl

theorem updateMarks_complete_iff (env : Env) (w : World) {node : UpdateNode} {rs : List (TableRecord n)}
    (evaluates : Evaluates (scanned node) rs) :
    (updateMarks env w node rs).stop = none ↔ node.tableName ∈ w.ctx.deleteCounterPerTable ∨
      ∀ r ∈ liveRecords rs, accepts (scanned node) r = false := by
  rw [← missingFault_eq_none_iff env]
  exact scanMarks_complete_iff _ evaluates

/-- It stops with the scan, or writes the new records of those that were marked. -/
theorem replaceRecords_run (env : Env) {node : UpdateNode} (sound : Sound t node.tableName w f idx)
    (ready : UpdateReady (n + 1) node.inverseProjMask node.schemaIndexToLiteralMap) :
    (replaceRecords env node t.schema (atRecords f)).run w =
      let marks := updateMarks env w node f.records
      match marks.stop with
      | some e => .error e (markedState w node.tableName f marks)
      | none => (insertRecords env node.tableName (allColumns t) .update
          (updatedRecords node marks.matched)).run (markedState w node.tableName f marks) := by
  have scan := markOldRecords_run env sound.file (t := t)
  rw [replaceRecords]
  cases hs : (updateMarks env w node f.records).stop with
  | some e =>
      simp only [hs] at scan ⊢
      exact run_bind_error scan _
  | none =>
      simp only [hs] at scan ⊢
      rw [run_bind_ok scan, mapM_updatedRecord ready, run_bind_ok (run_lift_ok _ _)]
      rfl

theorem complete_of_replaceRecords {env : Env} {node : UpdateNode} (sound : Sound t node.tableName w f idx)
    (ready : UpdateReady (n + 1) node.inverseProjMask node.schemaIndexToLiteralMap) {w' : World}
    (run : (replaceRecords env node t.schema (atRecords f)).run w = .ok () w') :
    (updateMarks env w node f.records).stop = none := by
  have steps := replaceRecords_run env sound ready
  rw [run] at steps
  cases stop : (updateMarks env w node f.records).stop with
  | none => rfl
  | some e =>
      simp only [stop] at steps
      cases steps

/-! The new records -/

theorem Appended.recordType {type : RecordType} {projectionMask : List Bool} {records : List ValueRecordNode}
    {rs : List (TableRecord n)} (appended : Appended t type projectionMask records rs) :
    ∀ r ∈ rs, r.recordType = type.toByte := by
  intro r hr
  have mem := List.mem_map_of_mem (f := fun r : TableRecord n => r.toStoredRecord) hr
  rw [appended.stored] at mem
  obtain ⟨record, -, written⟩ := mem_writtenRecords mem
  obtain ⟨key, values, -, -, -, stored⟩ := writtenRecord_ok written
  rw [stored]
  rfl

/-! Replacing each match once -/

/-- The statement comes to its upkeep; each record that satisfies `p` has been marked and
written once more behind the old file, and nothing else has changed; as many records are
live as before, also after the upkeep. -/
def UpdatesOnce (env : Env) (w : World) (t : TableSchema n) (f : TableFile n) (node : UpdateNode)
    (p : TableRecord n → Bool) : Prop :=
  ∃ (w' : World) (old : Bytes) (news : List (TableRecord n)),
    (replaceRecords env node t.schema (atRecords f)).run w = .ok () w' ∧
    w'.disk.tableFiles.lookup node.tableName = some (old ++ encodeAll news) ∧ OnlyTypesChanged p f old ∧
    news.map (fun r => r.row) =
      ((liveRecords f.records).filter p).map (fun r => rewrittenRow t node r.row) ∧
    (∀ r ∈ news, r.recordType = RecordType.update.toByte ∧ IndexedBy t.payloadCodes r) ∧
    ∃ f' f'' : TableFile n, HasFile w' node.tableName f' ∧
      HasFile (finalState ((maintain env node.tableName t.pkColName).run w')) node.tableName f'' ∧
      (liveRecords f'.records).length = (liveRecords f.records).length ∧
      (liveRecords f''.records).length = (liveRecords f.records).length

section Statement

variable (env : Env) {node : UpdateNode} (sound : Sound t node.tableName w f idx)
  (ready : UpdateReady (n + 1) node.inverseProjMask node.schemaIndexToLiteralMap)
  (fits : ∀ old ∈ liveRecords f.records, ∀ r, writtenRecord t .update (allColumns t)
    (stringRecord (updatedRow node old.row)) = .ok r → r.recordLength < 2 ^ 63)

include sound ready fits

/-- A scan that marks what satisfies `p` and comes to the end of the file. -/
theorem replaceRecords_of_marks {p : TableRecord n → Bool}
    (marks : updateMarks env w node f.records =
      ⟨markMatching p f.records, (liveRecords f.records).filter p, none⟩) :
    ∃ w' idx' news,
      Appended t .update (allColumns t) (updatedRecords node ((liveRecords f.records).filter p)) news ∧
      (replaceRecords env node t.schema (atRecords f)).run w = .ok () w' ∧
      Sound t node.tableName w' (f.withRecords (markMatching p f.records ++ news)) idx' := by
  have copies : MarkedFrom f.records (updateMarks env w node f.records).records :=
    .scan (fun r => whereMatches node.optWhereNode r.row) _ _
  have run := replaceRecords_run env sound ready
  simp only [marks] at run copies
  obtain ⟨news, appended⟩ := writtenRecords_appended (.inr rfl)
    (updatedRecords node ((liveRecords f.records).filter p)) fun r hr => by
      obtain ⟨record, mem, written⟩ := mem_writtenRecords hr
      obtain ⟨old, hold, rfl⟩ := List.mem_map.mp mem
      exact fits old (List.mem_filter.mp hold).1 r written
  have sound' := sound.marked copies ((liveRecords f.records).filter p).length
  obtain ⟨w', written, -, -, sound''⟩ := sound'.insertRecords env (.inr rfl) appended
  rw [updatedRecords_complete] at written
  exact ⟨w', _, news, appended, run.trans written, sound''⟩

/-- If it comes there it has marked what it accepts. -/
theorem updatesOnce_of_complete (evaluates : Evaluates (scanned node) f.records)
    (complete : (updateMarks env w node f.records).stop = none) {p : TableRecord n → Bool}
    (agree : ∀ r ∈ liveRecords f.records, p r = accepts (scanned node) r) : UpdatesOnce env w t f node p := by
  have marks : updateMarks env w node f.records =
      ⟨markMatching p f.records, (liveRecords f.records).filter p, none⟩ := by
    rw [markMatching_congr agree, List.filter_congr agree]
    exact scanMarks_of_complete evaluates complete
  obtain ⟨w', idx', news, appended, run, sound'⟩ := replaceRecords_of_marks env sound ready fits marks
  obtain ⟨-, f'', idx'', upkeep, rows⟩ := sound'.maintain env
  have count : (liveRecords (markMatching p f.records ++ news)).length = (liveRecords f.records).length := by
    have copied := congrArg List.length (updatedRecords_rows appended)
    rw [List.length_map, List.length_map] at copied
    rw [appended.liveRecords_append, liveRecords_markMatching, List.length_append, copied,
      List.length_eq_length_filter_add (l := liveRecords f.records) p, Nat.add_comm]
  refine ⟨w', (f.withRecords (markMatching p f.records)).bytes, news, run, ?_,
    onlyTypesChanged_markMatching p f, updatedRecords_rows appended,
    fun r hr => ⟨appended.recordType r hr, appended.indexed r hr⟩, _, f'', sound'.file, upkeep.file, count, ?_⟩
  · refine sound'.file.trans ?_
    simp [TableFile.bytes]
  · rw [rows]
    exact count

/-- A statement that marks what satisfies `p` has come there, and accepts it. -/
theorem agree_of_updatesOnce (evaluates : Evaluates (scanned node) f.records) {p : TableRecord n → Bool}
    (updates : UpdatesOnce env w t f node p) :
    (updateMarks env w node f.records).stop = none ∧
      ∀ r ∈ liveRecords f.records, p r = accepts (scanned node) r := by
  obtain ⟨w', old, news, run, content, changed, -, -, -⟩ := updates
  have stop := complete_of_replaceRecords sound ready run
  refine ⟨stop, encodeAll_markMatching_inj ?_⟩
  obtain ⟨w'', _, news', _, run', sound'⟩ := replaceRecords_of_marks env sound ready fits
    (scanMarks_of_complete evaluates stop)
  rw [run] at run'
  cases run'
  have same := content.symm.trans sound'.file
  rw [Option.some.injEq, changed.eq] at same
  simp only [TableFile.bytes, TableFile.withRecords_header, TableFile.withRecords_records,
    encodeAll_append, List.append_assoc, List.append_cancel_left_eq] at same
  exact (List.append_inj same (by rw [encodeAll_markMatching_length, encodeAll_markMatching_length])).1

end Statement

/-- An accepted `UPDATE` replaces each match once if and only if the matches are the records
that its scan accepts and the table has a counter or no record matches. With the key in
front the scan compares the column that is named; the buffer it reads into does not show. -/
theorem updatesOnce_iff (env : Env) {node node' : UpdateNode} (sound : Sound t node.tableName w f idx)
    (normalized : normalizeUpdate node w.ctx.untypedTables = .ok (node', true))
    (fits : Fits t f w (.update node)) (evaluates : Evaluates (scanned node') f.records) :
    (updateData env node').run w = (do
      replaceRecords env node' t.schema (atRecords f)
      maintain env node'.tableName t.pkColName : Exec Unit).run w ∧
    (∀ p, UpdatesOnce env w t f node' p ↔ (∀ r ∈ liveRecords f.records, p r = accepts (scanned node') r) ∧
      (node'.tableName ∈ w.ctx.deleteCounterPerTable ∨ ∀ r ∈ liveRecords f.records, p r = false)) ∧
    (t.pkIdx = 0 → ∀ r : TableRecord n, scanned node' r = conditionHolds t node.optWhereNode r) ∧
    ∀ moved recordBuffer, markOldRecordsInto env node' t.schema moved recordBuffer (atRecords f) =
      markOldRecords env node' t.schema (atRecords f) := by
  obtain ⟨name, ready, where_⟩ := normalizeUpdate_ok sound.registered.schema normalized
  obtain ⟨where_, column⟩ := normalizeWhereClause_ok where_
  have fits' := fits node' normalized
  rw [← name] at sound
  have complete := updateMarks_complete_iff env w evaluates
  refine ⟨updateData_replaceRecords env sound.registered.schema sound.file, fun p => ?_, fun first r => ?_,
    fun moved recordBuffer => markOldRecordsInto_eq ..⟩
  · constructor
    · intro updates
      obtain ⟨stop, agree⟩ := agree_of_updatesOnce env sound ready fits' evaluates updates
      refine ⟨agree, (complete.mp stop).imp_right fun nothing r hr => ?_⟩
      rw [agree r hr]
      exact nothing r hr
    · rintro ⟨agree, counted⟩
      have stop := complete.mpr (counted.imp_right fun nothing r hr => (agree r hr).symm.trans (nothing r hr))
      exact updatesOnce_of_complete env sound ready fits' evaluates stop agree
  · rw [scanned, where_]
    exact whereMatches_eq first column r

/-! One table -/

/-- `SET name = 'y'` for every row, as the parser leaves it. -/
def setName : UpdateNode := ⟨ascii "people", [⟨ascii "name", ⟨.string, ascii "'y'"⟩⟩], none, [], ∅⟩

/-- The same as the normalizer leaves it. -/
def setNameNormalized : UpdateNode :=
  ⟨ascii "people", [⟨ascii "name", ⟨.string, ascii "y"⟩⟩], none, [true, false], Finmap.insert 1 (ascii "y") ∅⟩

theorem setName_fits (key : Bytes) (short : ∀ k ∈ [key], k.length + (ascii "x").length < 2 ^ 62)
    (counters : Map Bytes Nat) : Fits pairSchema (pairFile [key] (ascii "x") short)
      (singleTable (ascii "people") pairSchema (pairFile [key] (ascii "x") short) counters) (.update setName) := by
  intro node' normalized old live r written
  have same : normalizeUpdate setName (singleTable (ascii "people") pairSchema (pairFile [key] (ascii "x") short)
      counters).ctx.untypedTables = .ok (setNameNormalized, true) := rfl
  rw [same] at normalized
  cases normalized
  have single : old = pairRecord key (ascii "x") (short key List.mem_cons_self) :=
    List.mem_singleton.mp (mem_liveRecords.mp live).1
  subst single
  have text : writtenRecord pairSchema .update (allColumns pairSchema) (stringRecord (updatedRow setNameNormalized
      (pairRecord key (ascii "x") (short key List.mem_cons_self)).row)) =
      .ok (storedRecord pairSchema .update (removeOuterQuotes key) [ascii "y"]) := rfl
  rw [text] at written
  cases written
  have bound := short key List.mem_cons_self
  have shorter := length_removeOuterQuotes_le key
  have one : ([ascii "y"].map fun literal => 8 + literal.length).sum = 9 := rfl
  rw [recordLength_storedRecord pairSchema rfl, one, columnOffsetSize]
  omega

/-- A table with a counter: the row is replaced. -/
theorem updatesOnce_iff_pair :
    let file := pairFile [ascii "1"] (ascii "x") (by decide)
    let counters : Map Bytes Nat := Finmap.insert (ascii "people") 0 ∅
    UpdatesOnce ⟨false, id⟩ (singleTable (ascii "people") pairSchema file counters) pairSchema file setNameNormalized
      fun _ => true := by
  intro file counters
  have sound : Sound pairSchema setName.tableName (singleTable (ascii "people") pairSchema file counters) file
      file.index := singleTable_sound _ _ _ _ (pairFile_indexed _ _ _)
  have normalized : normalizeUpdate setName (singleTable (ascii "people") pairSchema file
      counters).ctx.untypedTables = .ok (setNameNormalized, true) := rfl
  exact ((updatesOnce_iff ⟨false, id⟩ sound normalized (setName_fits _ _ _) (fun _ _ => ⟨true, rfl⟩)).2.1 _).mpr
    ⟨fun _ _ => rfl, .inl (Finmap.mem_insert.mpr (.inl rfl))⟩

/-- A table as `CREATE` leaves it: the row is marked, and the process ends before its copy
is written. -/
theorem not_updatesOnce :
    let file := pairFile [ascii "1"] (ascii "x") (by decide)
    let w := singleTable (ascii "people") pairSchema file ∅
    normalizeUpdate setName w.ctx.untypedTables = .ok (setNameNormalized, true) ∧
      validateUpdateSemantics setNameNormalized w.ctx = .ok none ∧ Evaluates (scanned setNameNormalized) file.records ∧
      ¬ UpdatesOnce ⟨false, id⟩ w pairSchema file setNameNormalized fun _ => true := by
  intro file w
  have evaluates : Evaluates (scanned setNameNormalized) file.records := fun _ _ => ⟨true, rfl⟩
  have missing : ascii "people" ∉ w.ctx.deleteCounterPerTable := Finmap.notMem_empty
  have normalized : normalizeUpdate setName w.ctx.untypedTables = .ok (setNameNormalized, true) := rfl
  refine ⟨normalized, rfl, evaluates, fun updates => ?_⟩
  have sound := singleTable_sound (ascii "people") pairSchema file ∅ (pairFile_indexed _ _ _)
  have ready := (normalizeUpdate_ok sound.registered.schema normalized).2.1
  have complete := (agree_of_updatesOnce ⟨false, id⟩ sound ready
    (setName_fits _ _ ∅ setNameNormalized normalized) evaluates updates).1
  rcases (updateMarks_complete_iff ⟨false, id⟩ w evaluates).mp complete with counted | nothing
  · exact missing counted
  · have first : pairRecord (ascii "1") (ascii "x") (by decide) ∈ liveRecords file.records :=
      mem_liveRecords.mpr ⟨List.mem_cons_self, rfl⟩
    cases nothing _ first

end Jssql.FileHandler
