import Jssql.Theory.TextRecords

/-!
The rows that `IMPORT` takes. A line with as many fields as the table has columns becomes a
record. Any other line is warned about as one to be skipped and then written like the rest:
too many fields are cut off, and too few are read behind their end.
-/
namespace Jssql.FileHandler
open Foundation

variable {n : Nat} {w : World} {t : TableSchema n} {f : TableFile n} {idx : Index}

/-- The lines that have a field for every column. -/
def goodRows (t : TableSchema n) (text : Bytes) : List Record :=
  ((getlines text).map parseCsvRow).filter fun row => row.length = t.schema.length

/-- The import ends well, and it has appended a live record for each line with the right
number of fields and no other record. -/
def TakesGoodRows (env : Env) (w : World) (t : TableSchema n) (f : TableFile n) (node : CSVImportNode)
    (text : Bytes) : Prop :=
  ∃ w' rs, (performCSVImport env node).run w = .ok () w' ∧
    w'.disk.tableFiles.lookup node.tableName = some (f.withRecords (f.records ++ rs)).bytes ∧
    (∀ r ∈ rs, r.isTombstone = false) ∧
    rs.map (fun r => r.row) = (goodRows t text).map fun row => (keyFirst t row).map removeOuterQuotes

/-! The statement -/

section Statement

variable (env : Env) {node : CSVImportNode} {text : Bytes} (sound : Sound t node.tableName w f idx)
  (opened : w.disk.csvFiles.lookup (removeOuterQuotes node.filePath) = some text)

include sound opened

theorem performCSVImport_run {rs : List (TableRecord n)}
    (appended : Appended t .insert (allColumns t) (csvRecords w node) rs) :
    ∃ v, (performCSVImport env node).run w =
        stopped (writtenRecords t .insert (allColumns t) (csvRecords w node)).2 v ∧
      v.disk.tableFiles.lookup node.tableName = some (f.withRecords (f.records ++ rs)).bytes := by
  have schema : w.ctx.untypedTables.at node.tableName .tableName = .ok t.schema :=
    Map.at_of_lookup sound.registered.schema _
  obtain ⟨v, run, -, -, sound'⟩ := sound.insertRecords env (.inl rfl) appended
  refine ⟨v, ?_, sound'.file⟩
  have rows : (getlines text).map csvRecord = csvRecords w node := by rw [csvRecords, opened]; rfl
  rw [performCSVImport, run_bind_ok (ensureTableFileExists_run sound.file), run_bind_ok (run_get w), schema,
    run_bind_ok (run_lift_ok _ _), opened]
  change (catchException (insertRecords env node.tableName (allColumns t) .insert
    ((getlines text).map csvRecord)) _).run w = _
  rw [rows, catchException_run, run]
  cases stop : (writtenRecords t .insert (allColumns t) (csvRecords w node)).2 with
  | none => rfl
  | some e =>
      obtain ⟨record, mem, failed⟩ := mem_of_writtenRecords_stop stop
      obtain ⟨line, -, rfl⟩ := List.mem_map.mp mem
      rw [writtenRecord_string_error failed]
      rfl

/-- An import takes the lines with the right number of fields and no other if and only if
there is no other. -/
theorem takesGoodRows_iff (fits : Fits t f w (.csvImport node)) :
    TakesGoodRows env w t f node text ↔ ∀ line ∈ getlines text, (parseCsvRow line).length = t.schema.length := by
  have rows : csvRecords w node = ((getlines text).map parseCsvRow).map stringRecord := by
    rw [csvRecords, opened, List.map_map]
    rfl
  obtain ⟨rs, appended⟩ := writtenRecords_appended (.inl rfl) (csvRecords w node) fits
  obtain ⟨v, run, file⟩ := performCSVImport_run env sound opened appended
  constructor
  · rintro ⟨v', rs', run', file', -, taken⟩ line mem
    rw [run] at run'
    have complete : (writtenRecords t .insert (allColumns t) (csvRecords w node)).2 = none := by
      cases stop : (writtenRecords t .insert (allColumns t) (csvRecords w node)).2 with
      | none => rfl
      | some e => rw [stop] at run'; cases run'
    rw [complete] at run'
    cases run'
    have all : rs.length = (getlines text).length := by
      have written := (writtenRecords_all complete).length_eq
      rw [← appended.stored, rows, List.length_map, List.length_map, List.length_map] at written
      exact written.symm
    have good : rs'.length = (goodRows t text).length := by
      have := congrArg List.length taken
      rwa [List.length_map, List.length_map] at this
    have same : rs.length = rs'.length := by
      have bytes := Option.some.inj (file.symm.trans file')
      have records := length_of_encodeAll (List.append_cancel_left bytes)
      rw [TableFile.withRecords_records, TableFile.withRecords_records, List.length_append,
        List.length_append] at records
      exact Nat.add_left_cancel records
    have every : (goodRows t text).length = ((getlines text).map parseCsvRow).length := by
      rw [← good, ← same, all, List.length_map]
    have width := List.length_filter_eq_length_iff.mp every (parseCsvRow line) (List.mem_map_of_mem mem)
    exact of_decide_eq_true width
  · intro good
    have width : ∀ row ∈ (getlines text).map parseCsvRow, row.length = n + 1 := by
      intro row mem
      obtain ⟨line, inFile, rfl⟩ := List.mem_map.mp mem
      rw [good line inFile, t.width]
    rw [rows] at run appended
    rw [(writtenRecords_string .insert width).1] at run
    refine ⟨v, rs, run, file, appended.live, ?_⟩
    have every : goodRows t text = (getlines text).map parseCsvRow := by
      refine List.filter_eq_self.mpr fun row mem => ?_
      rw [decide_eq_true_eq, width row mem, t.width]
    rw [every]
    exact appended.rows_string width

end Statement

/-- The table is empty, and a file of this text lies beside it. -/
def besideText (text : Bytes) : World :=
  let w := singleTable (ascii "people") pairSchema (pairFile [] (ascii "x") (by decide)) ∅
  { w with disk := { w.disk with csvFiles := Finmap.insert (ascii "people.csv") text ∅ } }

theorem besideText_sound (text : Bytes) :
    Sound pairSchema (ascii "people") (besideText text) (pairFile [] (ascii "x") (by decide))
      (pairFile [] (ascii "x") (by decide)).index :=
  (singleTable_sound _ _ _ ∅ (pairFile_indexed _ _ _)).congr rfl rfl

/-- Two lines with two fields each, one of them in quotes. -/
theorem takesGoodRows_iff_two :
    TakesGoodRows ⟨false, id⟩ (besideText (ascii "1,a\n2,\"b,c\"\n")) pairSchema
      (pairFile [] (ascii "x") (by decide)) ⟨ascii "people", ascii "'people.csv'"⟩ (ascii "1,a\n2,\"b,c\"\n") := by
  have two : (writtenRecords pairSchema .insert (allColumns pairSchema)
      (csvRecords (besideText (ascii "1,a\n2,\"b,c\"\n")) ⟨ascii "people", ascii "'people.csv'"⟩)).1 =
      [storedRecord pairSchema .insert (ascii "1") [ascii "a"],
        storedRecord pairSchema .insert (ascii "2") [ascii "b,c"]] := rfl
  refine (takesGoodRows_iff ⟨false, id⟩ (besideText_sound _) (Finmap.lookup_insert _) ?_).mpr (by decide)
  intro r mem
  rw [two] at mem
  rcases List.mem_pair.mp mem with rfl | rfl <;> decide

/-- One line with one field. -/
theorem not_takesGoodRows :
    ¬ TakesGoodRows ⟨false, id⟩ (besideText (ascii "1\n")) pairSchema
      (pairFile [] (ascii "x") (by decide)) ⟨ascii "people", ascii "'people.csv'"⟩ (ascii "1\n") := by
  have stop : writtenRecords pairSchema .insert (allColumns pairSchema)
      (csvRecords (besideText (ascii "1\n")) ⟨ascii "people", ascii "'people.csv'"⟩) =
      ([], some (.undefined .outOfBounds)) := rfl
  have fits : ∀ r ∈ (writtenRecords pairSchema .insert (allColumns pairSchema)
      (csvRecords (besideText (ascii "1\n")) ⟨ascii "people", ascii "'people.csv'"⟩)).1,
      r.recordLength < 2 ^ 63 := by
    rw [stop]
    rintro r ⟨⟩
  obtain ⟨rs, appended⟩ := writtenRecords_appended (.inl rfl) _ fits
  obtain ⟨v, run, -⟩ := performCSVImport_run ⟨false, id⟩ (besideText_sound _) (Finmap.lookup_insert _) appended
  rintro ⟨v', rs', run', -⟩
  rw [run, stop] at run'
  cases run'

end Jssql.FileHandler
