import Jssql.Theory.WorldRules

/-!
`compactTable` on a well-formed file: the file becomes a fresh header followed by
the live records, and nothing else of the state changes.
-/
namespace Jssql.FileHandler
open Foundation Foundation.Stream

variable {n : Nat} {w : World} {table : Bytes}

/-- The state with this content in the new file. -/
def withNew (w : World) (table content : Bytes) : World :=
  w.setNewTableFiles (w.disk.newTableFiles.insert table content)

private theorem appendToNewTableFile_run (w : World) (content bytes : Bytes) :
    (appendToNewTableFile table bytes).run (withNew w table content) =
      .ok () (withNew w table (content ++ bytes)) := by
  rw [appendToNewTableFile, run_modify]
  simp [withNew, World.setNewTableFiles]

private theorem copyRound_record (env : Env) (r : TableRecord n) (before after content : Bytes) :
    (copyRound env table n (split before (r.encode ++ after))).run (withNew w table content) =
      .ok (false, split (before ++ r.encode) after)
        (withNew w table (content ++ if r.isTombstone then [] else r.encode)) := by
  unfold copyRound
  rw [run_bind_ok (runStream_ok (copyNextLiveRecord_record env r before after) _)]
  cases r.isTombstone <;>
    simp only [Bool.false_eq_true, if_false, if_true, run_bind_ok (appendToNewTableFile_run w _ _)] <;> rfl

private theorem copyRound_end (env : Env) (before content : Bytes) :
    (copyRound env table n (split before [])).run (withNew w table content) =
      .ok (true, exhausted before) (withNew w table content) := by
  unfold copyRound
  rw [run_bind_ok (runStream_ok (copyNextLiveRecord_end env n before) _),
    run_bind_ok (appendToNewTableFile_run w _ _), List.append_nil]
  rfl

theorem liveRecords_live (rs : List (TableRecord n)) : ∀ r ∈ liveRecords rs, r.isTombstone = false := by
  intro r hr
  simpa [isLive] using (List.mem_filter.mp hr).2

theorem liveRecords_idem (rs : List (TableRecord n)) : liveRecords (liveRecords rs) = liveRecords rs :=
  List.filter_filter.trans (by simp [liveRecords])

theorem encodeAll_liveRecords_cons (r : TableRecord n) (rest : List (TableRecord n)) :
    encodeAll (liveRecords (r :: rest)) =
      (if r.isTombstone then [] else r.encode) ++ encodeAll (liveRecords rest) := by
  cases state : r.isTombstone <;> simp [liveRecords, isLive, state]

/-- The copy loop appends the live records to the new file. -/
private theorem copyLoop (env : Env) (before : Bytes) (rs : List (TableRecord n)) (content : Bytes) :
    (repeatUntil .diverges (copyRound env table n) (scanRounds (before ++ encodeAll rs))
      (split before (encodeAll rs))).run (withNew w table content) =
      .ok (exhausted (before ++ encodeAll rs))
        (withNew w table (content ++ encodeAll (liveRecords rs))) := by
  obtain ⟨spare, rounds⟩ := scanRounds_eq before rs []
  rw [List.append_nil] at rounds
  have loop := outcome_repeatUntil id Fault.diverges (copyRound env table n)
    (fun rest (copy : Bytes × Bytes) => (withNew w table copy.2, split copy.1 (encodeAll rest)))
    (fun copy r => .ok (copy.1 ++ r.encode, copy.2 ++ if r.isTombstone then [] else r.encode))
    (fun r rest copy => by
      rw [encodeAll_cons, copyRound_record]
      rfl)
    rs (spare + 1) (before, content)
  have fold : ∀ (rs : List (TableRecord n)) (copy : Bytes × Bytes),
      rs.foldlM (fun copy r => (.ok (copy.1 ++ r.encode, copy.2 ++ if r.isTombstone then []
        else r.encode) : Except (Fault × World) _)) copy =
        .ok (copy.1 ++ encodeAll rs, copy.2 ++ encodeAll (liveRecords rs)) := by
    intro rs
    induction rs with
    | nil => intro copy; simp [liveRecords]; rfl
    | cons r rest ih =>
        intro copy
        rw [List.foldlM_cons, ok_bind, ih, encodeAll_liveRecords_cons]
        simp
  rw [fold, ok_bind] at loop
  rw [rounds]
  exact outcome_eq_ok.mp
    (loop.trans (outcome_repeatUntil_finish (copyRound_end env _ _) spare))

/-- The states between two rounds of the copy loop. -/
theorem copyRound_reaches (env : Env) (before : Bytes) {rs : List (TableRecord n)} {content : Bytes}
    {s : Stream} {v : World}
    (reached : Reaches (copyRound env table n) (split before (encodeAll rs)) (withNew w table content) s v) :
    ∃ copied rest, rs = copied ++ rest ∧ s = split (before ++ encodeAll copied) (encodeAll rest) ∧
      v = withNew w table (content ++ encodeAll (liveRecords copied)) := by
  induction reached with
  | start => exact ⟨[], rs, rfl, by simp, by simp [liveRecords]⟩
  | @next s s' v v' _ round ih =>
      obtain ⟨copied, rest, rfl, rfl, rfl⟩ := ih
      cases rest with
      | nil =>
          rw [encodeAll_nil, copyRound_end] at round
          cases round
      | cons r rest =>
          rw [encodeAll_cons, copyRound_record] at round
          cases round
          refine ⟨copied ++ [r], rest, by simp, by simp, ?_⟩
          have last := encodeAll_liveRecords_cons r []
          simp only [liveRecords, List.filter_nil, encodeAll_nil, List.append_nil] at last
          simp only [liveRecords, List.filter_append, encodeAll_append, last, List.append_assoc]

/-- The content in front of the copied records: a file left from before is continued. -/
def newFileStart (w : World) (table : Bytes) : Bytes :=
  (w.disk.newTableFiles.lookup table).getD tableFileHeader

private theorem createNewTableFile_run (w : World) (table : Bytes) :
    (createNewTableFile table).run w = .ok () (withNew w table (newFileStart w table)) := by
  rw [createNewTableFile, run_modify, newFileStart, withNew]
  cases left : w.disk.newTableFiles.lookup table with
  | none => rfl
  | some content =>
      rw [Option.getD_some, insert_of_lookup left]
      rfl

/-- `compactTable` leaves the live records behind what it found of a new file. -/
theorem compactTable_run_onto (env : Env) (t : TableSchema n) (f : TableFile n)
    (file : HasFile w table f) (known : w.ctx.untypedTables.lookup table = some t.schema) :
    (compactTable env table).run w =
      .ok () ((w.setTableFile table (newFileStart w table ++ encodeAll (liveRecords f.records))).setNewTableFiles
        (w.disk.newTableFiles.erase table)) := by
  let start := newFileStart w table
  have file' : (withNew w table start).disk.tableFiles.lookup table = some f.bytes := file
  have schema : (withNew w table start).ctx.untypedTables.at table .tableName = .ok t.schema :=
    Map.at_of_lookup known _
  have replaced (content : Bytes) : (replaceTableFile table).run (withNew w table content) =
      .ok () ((w.setTableFile table content).setNewTableFiles (w.disk.newTableFiles.erase table)) := by
    have new : (withNew w table content).disk.newTableFiles.lookup table = some content :=
      Finmap.lookup_insert _
    rw [replaceTableFile, run_modify, new]
    have clean : (w.disk.newTableFiles.insert table content).erase table =
        w.disk.newTableFiles.erase table := erase_insert _ _ _
    simp only [withNew, World.setNewTableFiles, World.setTableFile, World.setTableFiles, clean]
  have copied : (repeatUntil .diverges (copyRound env table n) (scanRounds (atRecords f).content)
      (atRecords f)).run (withNew w table start) = _ :=
    copyLoop env f.header f.records start
  unfold compactTable
  rw [run_bind_ok (ensureTableFileExists_run file), run_bind_ok (createNewTableFile_run w table),
    run_bind_ok (openTableFile_run file'),
    run_bind_ok (runStream_ok (checkFileValidity_file env true f) _), run_bind_ok (run_get _),
    schema, run_bind_ok (run_lift_ok _ _), t.columnsWithoutPk_eq,
    run_bind_ok copied, replaced]

/-- `compactTable` leaves a fresh header and the live records. -/
theorem compactTable_run (env : Env) (t : TableSchema n) (f : TableFile n)
    (file : HasFile w table f) (known : w.ctx.untypedTables.lookup table = some t.schema)
    (noNewFile : w.disk.newTableFiles.lookup table = none) :
    (compactTable env table).run w =
      .ok () (w.setTableFile table (TableFile.fresh (liveRecords f.records)).bytes) := by
  rw [compactTable_run_onto env t f file known, newFileStart, noNewFile, erase_of_lookup_none noNewFile]
  rfl

end Jssql.FileHandler
