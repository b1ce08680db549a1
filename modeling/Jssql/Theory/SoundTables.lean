import Jssql.Theory.Construction
import Jssql.Theory.MarkedRecords

/-!
The invariant of one table over runs of statements. The file is well formed, each
offset region fits its values, and the index in memory leads to records of the
file, though they need not be live or have the key. Every handler keeps it, however
it ends, and leaves the other tables alone.
-/
namespace Jssql.FileHandler
open Foundation Foundation.Stream SemanticNormalizer SemanticValidator StrategyDecider

variable {n : Nat} {t : TableSchema n} {table : Bytes} {w w' w'' : World} {f f' : TableFile n} {idx idx' : Index}

/-! The other tables -/

/-- The states differ in the entries of this table at most. -/
structure SameElsewhere (table : Bytes) (w w' : World) : Prop where
  metadata : w'.disk.metadata = w.disk.metadata
  newTableFiles : w'.disk.newTableFiles = w.disk.newTableFiles
  csvFiles : w'.disk.csvFiles = w.disk.csvFiles
  schemas : w'.ctx.untypedTables = w.ctx.untypedTables
  colcodes : w'.ctx.tableColcodes = w.ctx.tableColcodes
  tables : ∀ x, x ≠ table → tableState x w' = tableState x w

namespace SameElsewhere

theorem refl (table : Bytes) (w : World) : SameElsewhere table w w := ⟨rfl, rfl, rfl, rfl, rfl, fun _ _ => rfl⟩

theorem trans (first : SameElsewhere table w w') (second : SameElsewhere table w' w'') :
    SameElsewhere table w w'' where
  metadata := second.metadata.trans first.metadata
  newTableFiles := second.newTableFiles.trans first.newTableFiles
  csvFiles := second.csvFiles.trans first.csvFiles
  schemas := second.schemas.trans first.schemas
  colcodes := second.colcodes.trans first.colcodes
  tables x other := (second.tables x other).trans (first.tables x other)

theorem setTableFile (table content : Bytes) (w : World) : SameElsewhere table w (w.setTableFile table content) := by
  refine ⟨rfl, rfl, rfl, rfl, rfl, fun x other => ?_⟩
  simp only [tableState, World.setTableFile, World.setTableFiles, Finmap.lookup_insert_of_ne _ other]

theorem setIndices (table : Bytes) (columns : Map Bytes Index) (w : World) :
    SameElsewhere table w (w.setIndices (w.ctx.indices.insert table columns)) := by
  refine ⟨rfl, rfl, rfl, rfl, rfl, fun x other => ?_⟩
  simp only [tableState, World.setIndices, Finmap.lookup_insert_of_ne _ other]

theorem setCounters (table : Bytes) (count : Nat) (w : World) :
    SameElsewhere table w (w.setCounters (w.ctx.deleteCounterPerTable.insert table count)) := by
  refine ⟨rfl, rfl, rfl, rfl, rfl, fun x other => ?_⟩
  simp only [tableState, World.setCounters, Finmap.lookup_insert_of_ne _ other]

theorem withTable (w : World) (table content : Bytes) (columns : Map Bytes Index) :
    SameElsewhere table w (withTable w table content columns) :=
  (setTableFile table content w).trans (setIndices table columns _)

theorem marking (w : World) (table content : Bytes) (counted : Nat) :
    SameElsewhere table w (marking w table content counted) := by
  rw [FileHandler.marking]
  cases w.ctx.deleteCounterPerTable.lookup table with
  | none => exact setTableFile table content w
  | some count => exact (setTableFile table content w).trans (setCounters table _ _)

theorem compacted (w : World) (table : Bytes) (t : TableSchema n) (f : TableFile n) :
    SameElsewhere table w (compacted w table t f) :=
  (setTableFile table _ w).trans ((setCounters table 0 _).trans (setIndices table _ _))

end SameElsewhere

/-! The invariant -/

/-- Every offset in the index is the place of a record's type byte. -/
def PointsInto (f : TableFile n) (idx : Index) : Prop :=
  ∀ key offset, idx.lookup key = some offset → ∃ before r after, f.records = before ++ r :: after ∧
    offset = f.header.length + (encodeAll before).length + 8

structure Sound (t : TableSchema n) (table : Bytes) (w : World) (f : TableFile n) (idx : Index) : Prop where
  registered : Registered w.ctx table t
  file : HasFile w table f
  index : HasIndex w table t idx
  places : PointsInto f idx
  indexed : ∀ r ∈ f.records, IndexedBy t.payloadCodes r
  noNewFile : w.disk.newTableFiles.lookup table = none

theorem PointsInto.ofIndex (f : TableFile n) : PointsInto f f.index := by
  intro key offset found
  obtain ⟨before, r, after, records, _, _, at_⟩ := f.index_split found
  exact ⟨before, r, after, records, at_⟩

theorem PointsInto.marked {rs : List (TableRecord n)} (places : PointsInto f idx)
    (copies : MarkedFrom f.records rs) : PointsInto (f.withRecords rs) idx := by
  intro key offset found
  obtain ⟨before, r, after, records, at_⟩ := places key offset found
  obtain ⟨before', s, after', rfl, front⟩ := (records ▸ copies).split
  refine ⟨before', s, after', rfl, ?_⟩
  rw [at_, front.length_encodeAll]
  rfl

theorem PointsInto.erase (places : PointsInto f idx) (key : Bytes) : PointsInto f (idx.erase key) := by
  intro key' offset found
  by_cases same : key' = key
  · rw [same, Finmap.lookup_erase] at found
    cases found
  · rw [Finmap.lookup_erase_ne same] at found
    exact places key' offset found

theorem PointsInto.append (places : PointsInto f idx) (rs : List (TableRecord n)) :
    PointsInto (f.withRecords (f.records ++ rs)) (insertAll idx (liveEntries f.bytes.length rs)) := by
  intro key offset found
  rw [lookup_insertAll] at found
  cases new : firstOf key (liveEntries f.bytes.length rs).reverse with
  | none =>
      rw [new, Option.none_or] at found
      obtain ⟨before, r, after, records, at_⟩ := places key offset found
      exact ⟨before, r, after ++ rs, by simp [records], at_⟩
  | some place =>
      rw [new, Option.some_or, Option.some.injEq] at found
      subst found
      obtain ⟨before, r, after, rfl, _, _, at_⟩ :=
        liveEntries_split rs (List.mem_reverse.mp (mem_of_firstOf new))
      refine ⟨f.records ++ before, r, after, by simp, ?_⟩
      rw [at_, f.length_bytes, encodeAll_append, List.length_append, TableFile.withRecords_header,
        f.header_length]
      omega

/-- What the next state needs besides the entries of the table. -/
theorem Sound.next (sound : Sound t table w f idx) (same : SameElsewhere table w w')
    (file : HasFile w' table f') (index : HasIndex w' table t idx') (places : PointsInto f' idx')
    (indexed : ∀ r ∈ f'.records, IndexedBy t.payloadCodes r) : Sound t table w' f' idx' where
  registered := ⟨by rw [same.schemas]; exact sound.registered.schema,
    by rw [same.colcodes]; exact sound.registered.colcodes⟩
  file := file
  index := index
  places := places
  indexed := indexed
  noNewFile := by rw [same.newTableFiles]; exact sound.noNewFile

/-- It depends on the entries of the table alone. -/
theorem Sound.congr (sound : Sound t table w f idx) (same : tableState table w' = tableState table w)
    (newFile : w'.disk.newTableFiles.lookup table = w.disk.newTableFiles.lookup table) :
    Sound t table w' f idx where
  registered := ⟨(congrArg TableState.schema same).trans sound.registered.schema,
    (congrArg TableState.colcodes same).trans sound.registered.colcodes⟩
  file := (congrArg TableState.file same).trans sound.file
  index := by
    obtain ⟨columns, hc, hi⟩ := sound.index
    exact ⟨columns, (congrArg TableState.index same).trans hc, hi⟩
  places := sound.places
  indexed := sound.indexed
  noNewFile := newFile.trans sound.noNewFile

/-- The handlers of one table leave the entries of another as they are. -/
theorem framed_elsewhere {x : Bytes} (other : x ≠ table) (w : World) : Framed table (fun v =>
    tableState x v = tableState x w ∧
      v.disk.newTableFiles.lookup x = w.disk.newTableFiles.lookup x) fun _ => True where
  files v files differ h := by
    refine ⟨?_, h.2⟩
    rw [← h.1]
    simp only [tableState, World.setTableFiles, differ x other]
  newFiles v files differ h := ⟨h.1, (differ x other).trans h.2⟩
  index v columns h := by
    refine ⟨?_, h.2⟩
    rw [← h.1]
    simp only [tableState, World.setIndices, Finmap.lookup_insert_of_ne _ other]
  counter v count h := by
    refine ⟨?_, h.2⟩
    rw [← h.1]
    simp only [tableState, World.setCounters, Finmap.lookup_insert_of_ne _ other]
  fault _ _ := trivial
  known _ _ _ _ := trivial

/-- No handler of one table changes the metadata. -/
theorem framed_metadata (table : Bytes) (w : World) :
    Framed table (fun v => v.disk.metadata = w.disk.metadata) fun _ => True :=
  ⟨⟨fun _ _ _ h => h, fun _ _ _ h => h, fun _ _ h => h, fun _ _ => trivial, fun _ _ _ _ => trivial⟩,
    fun _ _ h => h⟩

/-- The records are left as they are, and the index is the one that they determine. -/
theorem Sound.rebuilt (sound : Sound t table w f idx) : Sound t table (withIndex w table t f.index) f f.index :=
  sound.next (.setIndices table _ w) sound.file (withIndex_hasIndex _ _ _ _) (.ofIndex f) sound.indexed

theorem Sound.marked {rs : List (TableRecord n)} (sound : Sound t table w f idx)
    (copies : MarkedFrom f.records rs) (counted : Nat) :
    Sound t table (marking w table (f.withRecords rs).bytes counted) (f.withRecords rs) idx := by
  refine sound.next (.marking w table _ counted) (marking_hasContent _ _) ?_ (sound.places.marked copies)
    (copies.forall_mem (fun _ h => h.marked) sound.indexed)
  exact sound.index

theorem Sound.compacted (sound : Sound t table w f idx) :
    Sound t table (compacted w table t f) (.fresh (liveRecords f.records))
      (TableFile.fresh (liveRecords f.records)).index := by
  refine sound.next (.compacted w table t f) (Finmap.lookup_insert _) (withIndex_hasIndex _ _ _ _)
    (.ofIndex _) fun r hr => sound.indexed r (List.mem_filter.mp hr).1

/-- The rows of a table file are a function of its bytes. -/
theorem rows_of_bytes (t : TableSchema n) (same : f.bytes = f'.bytes) :
    (liveRecords f.records).map (fun r => r.row) = (liveRecords f'.records).map (fun r => r.row) := by
  let mask := List.replicate (n + 1) true
  obtain ⟨headers, records⟩ := List.append_inj same (f.header_length.trans f'.header_length.symm)
  have rows (g : TableFile n) : selectedRows mask none g.records =
      .ok ((liveRecords g.records).map fun r => r.row) := by
    rw [selectedRows_of_ok (fun _ => true) fun _ _ => rfl, List.filter_true]
    refine congrArg _ (List.map_congr_left fun r _ => ?_)
    have all := projectRow_all r.row
    rw [r.length_row] at all
    exact all
  have scan (g : TableFile n) := result_of_outcome (selectSequentially_records ⟨false, id⟩ t
    (show mask.length = n + 1 from List.length_replicate) none g.header g.records)
  have read := (scan f).symm
  rw [headers, records, scan f', rows f, rows f', Except.ok.injEq] at read
  exact read

/-! The handlers -/

/-- A sound table with these live records, and the other tables as they were. -/
def Leaves (t : TableSchema n) (table : Bytes) (w w' : World) (rows : List (TableRecord n)) : Prop :=
  SameElsewhere table w w' ∧ ∃ f' idx', Sound t table w' f' idx' ∧ liveRecords f'.records = rows

theorem Leaves.behind {rows : List (TableRecord n)} (before : SameElsewhere table w w')
    (leaves : Leaves t table w' w'' rows) : Leaves t table w w'' rows :=
  ⟨before.trans leaves.1, leaves.2⟩

theorem Sound.leaves (sound : Sound t table w f idx) : Leaves t table w w (liveRecords f.records) :=
  ⟨.refl table w, f, idx, sound, rfl⟩

theorem Sound.leaves_compacted (sound : Sound t table w f idx) :
    Leaves t table w (FileHandler.compacted w table t f) (liveRecords f.records) :=
  ⟨.compacted w table t f, _, _, sound.compacted, liveRecords_idem f.records⟩

theorem Sound.compactIfNecessary (env : Env) (sound : Sound t table w f idx) :
    Leaves t table w (finalState ((compactIfNecessary env table t.pkColName).run w))
      (liveRecords f.records) := by
  cases counter : w.ctx.deleteCounterPerTable.lookup table with
  | none =>
      rw [compactIfNecessary_missing env t sound.index counter]
      exact sound.leaves
  | some count =>
      rw [compactIfNecessary_run env t f sound.file sound.registered.schema sound.index counter
        sound.noNewFile, finalState_ok]
      split
      · exact sound.leaves_compacted
      · exact sound.leaves

theorem Sound.maintain (env : Env) (sound : Sound t table w f idx) :
    Leaves t table w (finalState ((maintain env table t.pkColName).run w)) (liveRecords f.records) := by
  rw [FileHandler.maintain,
    run_bind_ok (recalculateIndicesForTable_run env t f sound.file sound.registered.schema)]
  exact (sound.rebuilt.compactIfNecessary env).behind (.setIndices table _ w)

/-- Records are appended, and perhaps not all. -/
theorem Sound.insertRecords (env : Env) (sound : Sound t table w f idx) {type : RecordType}
    (kind : type = .insert ∨ type = .update) {projectionMask : List Bool} {records : List ValueRecordNode}
    {rs : List (TableRecord n)} (appended : Appended t type projectionMask records rs) :
    ∃ v, (insertRecords env table projectionMask type records).run w =
        stopped (writtenRecords t type projectionMask records).2 v ∧
      SameElsewhere table w v ∧ v.ctx.deleteCounterPerTable = w.ctx.deleteCounterPerTable ∧
      Sound t table v (f.withRecords (f.records ++ rs)) (insertAll idx (liveEntries f.bytes.length rs)) := by
  obtain ⟨columns, hc, hi⟩ := sound.index
  have run := insertRecords_appended env sound.file sound.registered hc hi kind appended
  have same := SameElsewhere.withTable w table (f.withRecords (f.records ++ rs)).bytes
    (columns.insert t.pkColName (insertAll idx (liveEntries f.bytes.length rs)))
  refine ⟨_, run, same, rfl, sound.next same (Finmap.lookup_insert _)
    ⟨_, Finmap.lookup_insert _, Finmap.lookup_insert _⟩ (sound.places.append rs) fun r hr => ?_⟩
  rcases List.mem_append.mp hr with old | new
  · exact sound.indexed r old
  · exact appended.indexed r new

theorem finalState_stopped (stop : Option Fault) (w : World) : finalState (stopped stop w) = w := by
  cases stop <;> rfl

theorem Appended.liveRecords_append {type : RecordType} {projectionMask : List Bool}
    {records : List ValueRecordNode} {rs : List (TableRecord n)}
    (appended : Appended t type projectionMask records rs) (old : List (TableRecord n)) :
    liveRecords (old ++ rs) = liveRecords old ++ rs := by
  rw [FileHandler.liveRecords_append]
  exact congrArg _ (List.filter_eq_self.mpr fun r hr => by simp [isLive, appended.live r hr])

theorem Sound.insertData (env : Env) {node : InsertNode} (sound : Sound t node.tableName w f idx)
    {rs : List (TableRecord n)} (appended : Appended t .insert node.projectionMask node.records rs) :
    Leaves t node.tableName w (finalState ((insertData env node).run w)) (liveRecords f.records ++ rs) := by
  obtain ⟨v, run, same, _, sound'⟩ := sound.insertRecords env (.inl rfl) appended
  rw [FileHandler.insertData, run_bind_ok (ensureTableFileExists_run sound.file), run, finalState_stopped]
  exact ⟨same, _, _, sound', appended.liveRecords_append _⟩

/-! DELETE -/

/-- A `DELETE` by key up to its upkeep, where the index has the key. -/
theorem Sound.deleteByKey_run (env : Env) {node : DeleteNode} {cond : ConditionNode}
    (sound : Sound t node.tableName w f idx) (condition : node.optWhereNode = some ⟨cond⟩)
    (isKey : cond.colName = t.pkColName)
    (lookup : isUniqueEqualityLookup node.optWhereNode t.pkColName = true) {offset : Nat}
    (found : idx.lookup (removeOuterQuotes cond.literal.value) = some offset)
    {before after : List (TableRecord n)} {r : TableRecord n} (records : f.records = before ++ r :: after)
    (at_ : offset = f.header.length + (encodeAll before).length + 8) :
    ∃ v, SameElsewhere node.tableName w v ∧
      Sound t node.tableName v (f.withRecords (before ++ r.marked :: after))
        (idx.erase (removeOuterQuotes cond.literal.value)) ∧
      v.ctx.deleteCounterPerTable = w.ctx.deleteCounterPerTable ∧
      (deleteData env node).run w = (do
        let count ← getDeleteCountForTable env node.tableName
        setDeleteCountForTable node.tableName (1 + count)
        FileHandler.compactIfNecessary env node.tableName t.pkColName : Exec Unit).run v := by
  obtain ⟨columns, hc, hi⟩ := sound.index
  obtain ⟨s, run⟩ := performDeleteByIndexLookup_run env isKey hc hi found records at_
  have copies : MarkedFrom f.records (before ++ r.marked :: after) := records ▸ .one before after r
  have branch : deleteMatching env node t.pkColName (atRecords f) = (do
      let _ ← performDeleteByIndexLookup env node cond (atRecords f)
      let count ← getDeleteCountForTable env node.tableName
      setDeleteCountForTable node.tableName (1 + count)) := by
    rw [deleteMatching, lookup, condition]
  have same : SameElsewhere node.tableName w _ := .withTable w _
    (f.withRecords (before ++ r.marked :: after)).bytes
    (columns.insert t.pkColName (idx.erase (removeOuterQuotes cond.literal.value)))
  refine ⟨_, same, ?_, rfl, ?_⟩
  · exact sound.next same (Finmap.lookup_insert _)
      ⟨_, Finmap.lookup_insert _, Finmap.lookup_insert _⟩ ((sound.places.marked copies).erase _)
      (copies.forall_mem (fun _ h => h.marked) sound.indexed)
  · rw [deleteData_run env sound.registered.schema sound.file, branch, bind_assoc, run_bind_ok run,
      bind_assoc]

/-- A `DELETE` by key is stopped where the index does not have the key. -/
theorem Sound.deleteByKey_missing (env : Env) {node : DeleteNode} {cond : ConditionNode}
    (sound : Sound t node.tableName w f idx) (condition : node.optWhereNode = some ⟨cond⟩)
    (isKey : cond.colName = t.pkColName)
    (lookup : isUniqueEqualityLookup node.optWhereNode t.pkColName = true)
    (missing : idx.lookup (removeOuterQuotes cond.literal.value) = none) :
    (deleteData env node).run w = .error (.exception (.missingKey .keyValue)) w := by
  obtain ⟨columns, hc, hi⟩ := sound.index
  rw [deleteData_run env sound.registered.schema sound.file, deleteMatching, lookup, condition]
  dsimp only
  rw [bind_assoc, run_bind_error (performDeleteByIndexLookup_missing env isKey hc hi missing _)]

theorem Sound.deleteByKey (env : Env) {node : DeleteNode} {cond : ConditionNode}
    (sound : Sound t node.tableName w f idx) (condition : node.optWhereNode = some ⟨cond⟩)
    (isKey : cond.colName = t.pkColName)
    (lookup : isUniqueEqualityLookup node.optWhereNode t.pkColName = true) :
    ∃ rows, Leaves t node.tableName w (finalState ((deleteData env node).run w)) rows ∧
      rows.Sublist (liveRecords f.records) := by
  cases found : idx.lookup (removeOuterQuotes cond.literal.value) with
  | none =>
      rw [sound.deleteByKey_missing env condition isKey lookup found]
      exact ⟨_, sound.leaves, List.Sublist.refl _⟩
  | some offset =>
      obtain ⟨before, r, after, records, at_⟩ := sound.places _ _ found
      obtain ⟨v, same, sound', _, run⟩ :=
        sound.deleteByKey_run env condition isKey lookup found records at_
      have copies : MarkedFrom f.records (before ++ r.marked :: after) := records ▸ .one before after r
      refine ⟨_, ?_, copies.liveRecords_sublist⟩
      rw [run]
      cases counter : v.ctx.deleteCounterPerTable.lookup node.tableName with
      | none =>
          rw [run_bind_error (getDeleteCountForTable_none env counter)]
          exact sound'.leaves.behind same
      | some count =>
          have counted : SameElsewhere node.tableName v _ := .setCounters _ (1 + count) v
          have sound'' := sound'.next counted sound'.file sound'.index sound'.places sound'.indexed
          rw [run_bind_ok (getDeleteCountForTable_some env counter)]
          exact (sound''.compactIfNecessary env).behind (same.trans counted)

theorem Sound.deleteData (env : Env) {node : DeleteNode} (sound : Sound t node.tableName w f idx)
    (column : ColumnKnown t node.optWhereNode) :
    ∃ rows, Leaves t node.tableName w (finalState ((deleteData env node).run w)) rows ∧
      rows.Sublist (liveRecords f.records) := by
  cases lookup : isUniqueEqualityLookup node.optWhereNode t.pkColName with
  | true =>
      cases condition : node.optWhereNode with
      | none => rw [condition] at lookup; cases lookup
      | some where_ =>
          obtain ⟨cond⟩ := where_
          have isKey : cond.colName = t.pkColName := by
            rw [condition, isUniqueEqualityLookup, Bool.and_eq_true, beq_iff_eq] at lookup
            exact lookup.1
          exact sound.deleteByKey env condition isKey lookup
  | false =>
      have copies := MarkedFrom.scan (deleteMatches t node.optWhereNode)
        (missingFault env w node.tableName) f.records
      have same := SameElsewhere.marking w node.tableName
        (f.withRecords (deleteMarks env w t node f.records).records).bytes
        (deleteMarks env w t node f.records).matched.length
      have sound' := sound.marked copies (deleteMarks env w t node f.records).matched.length
      refine ⟨_, ?_, copies.liveRecords_sublist⟩
      rw [deleteData_sequential env sound.registered sound.file sound.indexed column lookup]
      dsimp only
      split
      · exact sound'.leaves.behind same
      · exact (sound'.maintain env).behind same

/-! UPDATE -/

theorem scanMarks_matched_sublist (isMatch : TableRecord n → Except Fault Bool) (missing : Option Fault)
    (rs : List (TableRecord n)) :
    (scanMarks isMatch missing rs).matched.Sublist ((liveRecords rs).filter (accepts isMatch)) := by
  induction rs with
  | nil => exact .slnil
  | cons r rest ih =>
      cases state : r.isTombstone with
      | true =>
          rw [scanMarks_tombstone _ state, liveRecords_cons_tombstone state]
          exact ih
      | false =>
          rw [liveRecords_cons_live state]
          cases answer : isMatch r with
          | error e =>
              rw [scanMarks_throws _ state answer]
              exact List.nil_sublist _
          | ok b =>
              have kept := accepts_of_ok answer
              cases b with
              | false =>
                  rw [scanMarks_rejects _ state answer, List.filter_cons_of_neg (by simp [kept])]
                  exact ih
              | true =>
                  rw [List.filter_cons_of_pos kept]
                  cases missing with
                  | none =>
                      rw [scanMarks_counts _ state answer]
                      exact ih.cons_cons r
                  | some fault =>
                      rw [scanMarks_missing _ state answer]
                      exact (List.nil_sublist _).cons_cons r

theorem mem_matched {isMatch : TableRecord n → Except Fault Bool} {missing : Option Fault}
    {rs : List (TableRecord n)} {r : TableRecord n} (h : r ∈ (scanMarks isMatch missing rs).matched) :
    r ∈ liveRecords rs ∧ isMatch r = .ok true := by
  obtain ⟨live, kept⟩ := List.mem_filter.mp ((scanMarks_matched_sublist isMatch missing rs).subset h)
  refine ⟨live, ?_⟩
  rw [accepts] at kept
  cases answer : isMatch r with
  | error e => rw [answer] at kept; cases kept
  | ok b => rw [answer] at kept; rw [show b = true from kept]

/-- The new records of the rows that an `UPDATE` has marked. -/
def updatedRecords (node : UpdateNode) (matched : List (TableRecord n)) : List ValueRecordNode :=
  matched.map fun r => stringRecord (updatedRow node r.row)

/-- The mask of the records that `UPDATE` and `IMPORT` write. -/
def allColumns (t : TableSchema n) : List Bool := List.replicate t.schema.length true

theorem Sound.updateData (env : Env) {node : UpdateNode} (sound : Sound t node.tableName w f idx)
    (ready : UpdateReady (n + 1) node.inverseProjMask node.schemaIndexToLiteralMap)
    {rs : List (TableRecord n)} (appended : Appended t .update (allColumns t)
      (updatedRecords node (updateMarks env w node f.records).matched) rs) :
    Leaves t node.tableName w (finalState ((updateData env node).run w))
      (match (updateMarks env w node f.records).stop with
        | some _ => liveRecords (updateMarks env w node f.records).records
        | none => liveRecords (updateMarks env w node f.records).records ++ rs) := by
  have copies : MarkedFrom f.records (updateMarks env w node f.records).records :=
    .scan (fun r => whereMatches node.optWhereNode r.row) _ _
  rw [updateData_run env sound.registered.schema sound.file ready]
  dsimp only
  generalize updateMarks env w node f.records = marks at appended copies ⊢
  have same : SameElsewhere node.tableName w (markedState w node.tableName f marks) := .marking w _ _ _
  have sound' : Sound t node.tableName (markedState w node.tableName f marks) (f.withRecords marks.records) idx :=
    sound.marked copies marks.matched.length
  cases stop : marks.stop with
  | some e => exact sound'.leaves.behind same
  | none =>
      obtain ⟨v, run, same', _, sound''⟩ := sound'.insertRecords env (.inr rfl) appended
      have live := appended.liveRecords_append marks.records
      refine Leaves.behind same ?_
      dsimp only
      rw [← live]
      rw [updatedRecords, allColumns] at run
      cases unwritten : (writtenRecords t .update (List.replicate t.schema.length true)
          (marks.matched.map fun r => stringRecord (updatedRow node r.row))).2 with
      | some e =>
          rw [unwritten] at run
          rw [run_bind_error run]
          exact ⟨same', _, _, sound'', rfl⟩
      | none =>
          rw [unwritten] at run
          rw [run_bind_ok run]
          exact (sound''.maintain env).behind same'

/-! IMPORT -/

/-- The records of the rows of the file that is imported. -/
def csvRecords (w : World) (node : CSVImportNode) : List ValueRecordNode :=
  (getlines ((w.disk.csvFiles.lookup (removeOuterQuotes node.filePath)).getD [])).map csvRecord

theorem Sound.performCSVImport (env : Env) {node : CSVImportNode} (sound : Sound t node.tableName w f idx)
    {rs : List (TableRecord n)} (appended : Appended t .insert (allColumns t) (csvRecords w node) rs) :
    ∃ rows, Leaves t node.tableName w (finalState ((performCSVImport env node).run w)) rows ∧
      (rows = liveRecords f.records ∨ rows = liveRecords f.records ++ rs) := by
  have schema : w.ctx.untypedTables.at node.tableName .tableName = .ok t.schema :=
    Map.at_of_lookup sound.registered.schema _
  obtain ⟨v, run, same, _, sound'⟩ := sound.insertRecords env (.inl rfl) appended
  have imported : Leaves t node.tableName w v (liveRecords f.records ++ rs) :=
    ⟨same, _, _, sound', appended.liveRecords_append _⟩
  have write : finalState ((catchException (FileHandler.insertRecords env node.tableName (allColumns t)
      .insert (csvRecords w node)) fun _ => handleFatalError env .csvImportUnknownException).run w) = v := by
    rw [catchException_run, run]
    cases (writtenRecords t .insert (allColumns t) (csvRecords w node)).2 with
    | none => rfl
    | some e =>
        cases e with
        | exception e =>
            cases silent : env.silent <;> simp only [stopped, handleFatalError, silent] <;> rfl
        | exit | undefined | diverges => rfl
  rw [← write] at imported
  rw [FileHandler.performCSVImport, run_bind_ok (ensureTableFileExists_run sound.file),
    run_bind_ok (run_get w), schema, run_bind_ok (run_lift_ok _ _)]
  dsimp only
  cases missing : (w.disk.csvFiles.lookup (removeOuterQuotes node.filePath)).isNone with
  | false => exact ⟨_, imported, .inr rfl⟩
  | true =>
      cases silent : env.silent with
      | true =>
          rw [handleFatalError, silent]
          exact ⟨_, imported, .inr rfl⟩
      | false =>
          rw [handleFatalError, silent]
          exact ⟨_, sound.leaves, .inl rfl⟩

/-! SELECT -/

/-- Where the file is there, a `SELECT` changes nothing. -/
theorem selectData_final (env : Env) {node : SelectNode} {content : Bytes}
    (file : w.disk.tableFiles.lookup node.tableName = some content) :
    finalState ((selectData env node).run w) = w := by
  have reads {α : Type} (op : StreamM α) (s : Stream) :
      Keeps (fun v => v = w) (fun _ => True) (runStream s op) :=
    runStream_keeps (fun v _ => by cases op.run v <;> simp) s
  have results (op : StreamM ResultSet) (s : Stream) : Keeps (fun v => v = w) (fun _ => True) (do
      let read ← runStream s op
      return read.1 : Exec ResultSet) := (reads op s).bind fun _ => .ofPure _
  have there : Keeps (fun v => v = w) (fun _ => True) (ensureTableFileExists node.tableName) :=
    .ofRun fun v hv => ⟨(), v, hv ▸ ensureTableFileExists_run file, hv⟩
  have looks {α : Type} (x : Except Fault α) : Keeps (fun v => v = w) (fun _ => True) (lift x : Exec α) :=
    .ofLift fun _ _ => trivial
  have kept : Keeps (fun v => v = w) (fun _ => True) (selectData env node) := by
    refine there.bind fun _ => (openTableFile_keeps _).bind fun stream => .bindGet fun v hv => ?_
    refine (looks _).bind fun schema => (reads _ _).bind fun _ => .ofIte (fun _ => ?_) fun _ => .ofPure _
    refine (looks _).bind fun primaryKeyColumn => ?_
    split
    · refine .ofIte (fun _ => ?_) fun _ => results _ _
      exact (looks _).bind fun columns => (looks _).bind fun idx => (looks _).bind fun offset =>
        results _ _
    · exact results _ _
  exact kept.final rfl

/-! Statements -/

/-- No record that the statement writes is too long for a file. -/
def Fits (t : TableSchema n) (f : TableFile n) (w : World) : Statement → Prop
  | .insert node =>
      ∀ r ∈ (writtenRecords t .insert (normalizeInsert node w.ctx.untypedTables).1.projectionMask
        (normalizeInsert node w.ctx.untypedTables).1.records).1, r.recordLength < 2 ^ 63
  | .csvImport node =>
      ∀ r ∈ (writtenRecords t .insert (allColumns t) (csvRecords w node)).1, r.recordLength < 2 ^ 63
  | .update node => ∀ node', normalizeUpdate node w.ctx.untypedTables = .ok (node', true) →
      ∀ old ∈ liveRecords f.records, ∀ r, writtenRecord t .update (allColumns t)
        (stringRecord (updatedRow node' old.row)) = .ok r → r.recordLength < 2 ^ 63
  | _ => True

/-- What is live after a statement: some of the rows, and what the statement writes. -/
inductive RowsAfter (env : Env) (t : TableSchema n) (w : World) (f : TableFile n) :
    Statement → List (TableRecord n) → Prop where
  | fewer {stmt : Statement} {rows : List (TableRecord n)} (kept : rows.Sublist (liveRecords f.records)) :
      RowsAfter env t w f stmt rows
  | inserted {node node' : InsertNode} {rs : List (TableRecord n)}
      (normalized : normalizeInsert node w.ctx.untypedTables = (node', .normalized))
      (valid : validateInsertSemantics node' w.ctx = .ok none)
      (appended : Appended t .insert node'.projectionMask node'.records rs) :
      RowsAfter env t w f (.insert node) (liveRecords f.records ++ rs)
  | imported {node : CSVImportNode} {rs : List (TableRecord n)}
      (appended : Appended t .insert (allColumns t) (csvRecords w node) rs) :
      RowsAfter env t w f (.csvImport node) (liveRecords f.records ++ rs)
  | updated {node node' : UpdateNode} {rs : List (TableRecord n)}
      (normalized : normalizeUpdate node w.ctx.untypedTables = .ok (node', true))
      (valid : validateUpdateSemantics node' w.ctx = .ok none)
      (complete : (updateMarks env w node' f.records).stop = none)
      (appended : Appended t .update (allColumns t)
        (updatedRecords node' (updateMarks env w node' f.records).matched) rs) :
      RowsAfter env t w f (.update node) (liveRecords (updateMarks env w node' f.records).records ++ rs)

theorem mem_writtenRecords {type : RecordType} {projectionMask : List Bool} {records : List ValueRecordNode}
    {r : StoredRecord} (h : r ∈ (writtenRecords t type projectionMask records).1) :
    ∃ record ∈ records, writtenRecord t type projectionMask record = .ok r := by
  induction records with
  | nil => cases h
  | cons record records ih =>
      cases written : writtenRecord t type projectionMask record with
      | error e =>
          simp only [writtenRecords, written] at h
          cases h
      | ok s =>
          simp only [writtenRecords, written, List.mem_cons] at h
          rcases h with rfl | later
          · exact ⟨record, List.mem_cons_self, written⟩
          · obtain ⟨record', mem, written'⟩ := ih later
            exact ⟨record', List.mem_cons_of_mem _ mem, written'⟩

/-- Every accepted statement about a sound table leaves it sound, however it ends. -/
theorem Sound.executes {env : Env} {stmt : Statement} {handler : Exec InterpreterVisitor.Response}
    (sound : Sound t table w f idx) (executes : InterpreterVisitor.Executes env w stmt handler)
    (of : stmt.tableName = table) (other : stmt.KeepsTables) (fits : Fits t f w stmt) :
    ∃ rows, Leaves t table w (finalState (handler.run w)) rows ∧ RowsAfter env t w f stmt rows := by
  have respond {p : Exec Unit} : finalState ((do p; return {} : Exec InterpreterVisitor.Response).run w) =
      finalState (p.run w) := by
    rw [EStateM.run_bind]
    cases p.run w <;> rfl
  cases executes with
  | create | drop => exact other.elim
  | @insert node node' normalized valid =>
      have name := InterpreterVisitor.normalizeInsert_tableName normalized
      rw [Fits, normalized] at fits
      obtain ⟨rs, appended⟩ := writtenRecords_appended (.inl rfl) node'.records fits
      rw [show table = node'.tableName from of.symm.trans name.symm] at sound ⊢
      rw [respond]
      exact ⟨_, sound.insertData env appended, .inserted normalized valid appended⟩
  | @select node node' normalized valid =>
      have name := InterpreterVisitor.normalizeSelect_tableName normalized
      rw [show table = node'.tableName from of.symm.trans name.symm] at sound ⊢
      have respond' : finalState ((do
          let results ← selectData env node'
          return { rows := some results } : Exec InterpreterVisitor.Response).run w) =
          finalState ((selectData env node').run w) := by
        rw [EStateM.run_bind]
        cases (selectData env node').run w <;> rfl
      rw [respond', selectData_final env sound.file]
      exact ⟨_, sound.leaves, .fewer (List.Sublist.refl _)⟩
  | csvImport node =>
      obtain ⟨rs, appended⟩ := writtenRecords_appended (.inl rfl) (csvRecords w node) fits
      rw [show table = node.tableName from of.symm] at sound ⊢
      rw [InterpreterVisitor.visitCsvImport, respond]
      obtain ⟨rows, leaves, rfl | rfl⟩ := sound.performCSVImport env appended
      · exact ⟨_, leaves, .fewer (List.Sublist.refl _)⟩
      · exact ⟨_, leaves, .imported appended⟩
  | @delete node node' normalized valid =>
      have schema := sound.registered.schema
      rw [show table = node.tableName from of.symm] at schema
      obtain ⟨name, where_, columns⟩ := normalizeDelete_ok schema normalized
      have column : ColumnKnown t node'.optWhereNode := by
        rw [where_]
        intro v hv
        obtain ⟨v', given, rfl⟩ := Option.map_eq_some_iff.mp hv
        exact columns v' given
      rw [show table = node'.tableName from of.symm.trans name.symm] at sound ⊢
      rw [respond]
      obtain ⟨rows, leaves, kept⟩ := sound.deleteData env column
      exact ⟨rows, leaves, .fewer kept⟩
  | @update node node' normalized valid =>
      have schema := sound.registered.schema
      rw [show table = node.tableName from of.symm] at schema
      obtain ⟨name, ready, where_⟩ := normalizeUpdate_ok schema normalized
      obtain ⟨rs, appended⟩ := writtenRecords_appended (.inr rfl)
        (updatedRecords node' (updateMarks env w node' f.records).matched) fun r hr => by
          obtain ⟨record, mem, written⟩ := mem_writtenRecords hr
          obtain ⟨old, hold, rfl⟩ := List.mem_map.mp mem
          exact fits node' normalized old (mem_matched hold).1 r written
      rw [show table = node'.tableName from of.symm.trans name.symm] at sound ⊢
      rw [respond]
      have leaves := sound.updateData env ready appended
      cases complete : (updateMarks env w node' f.records).stop with
      | some e =>
          rw [complete] at leaves
          have copies := MarkedFrom.scan (fun r => whereMatches node'.optWhereNode r.row)
            (missingFault env w node'.tableName) f.records
          exact ⟨_, leaves, .fewer copies.liveRecords_sublist⟩
      | none =>
          rw [complete] at leaves
          exact ⟨_, leaves, .updated normalized valid complete appended⟩

theorem Sound.step {env : Env} {stmt : Statement} (sound : Sound t table w f idx)
    (step : InterpreterVisitor.Step env stmt w w') (of : stmt.tableName = table) (other : stmt.KeepsTables)
    (fits : Fits t f w stmt) : ∃ rows, Leaves t table w w' rows ∧ RowsAfter env t w f stmt rows := by
  rcases step.cases with rfl | ⟨handler, executes, ended⟩
  · exact ⟨_, sound.leaves, .fewer (List.Sublist.refl _)⟩
  · have after := sound.executes executes of other fits
    rcases ended with ⟨_, run⟩ | ⟨_, run⟩
    · rw [run] at after
      exact after
    · rw [run] at after
      exact after

/-! Steps that are known to end -/

theorem step_of_ok {env : Env} {stmt : Statement} {r : InterpreterVisitor.Response}
    (run : (InterpreterVisitor.visit env stmt).run w = .ok r w') : InterpreterVisitor.Step env stmt w w' := by
  refine ⟨.completed r, ?_⟩
  rw [InterpreterVisitor.parseAndExecute, catchException_run, run_bind_ok run]
  rfl

/-- An accepted batch whose records can all be computed is written. -/
theorem Sound.step_insert (env : Env) {node node' : InsertNode} (sound : Sound t node'.tableName w f idx)
    (normalized : normalizeInsert node w.ctx.untypedTables = (node', .normalized))
    (valid : validateInsertSemantics node' w.ctx = .ok none) {rs : List (TableRecord n)}
    (appended : Appended t .insert node'.projectionMask node'.records rs)
    (complete : (writtenRecords t .insert node'.projectionMask node'.records).2 = none) :
    ∃ w' idx', InterpreterVisitor.Step env (.insert node) w w' ∧
      Sound t node'.tableName w' (f.withRecords (f.records ++ rs)) idx' := by
  obtain ⟨v, run, _, _, sound'⟩ := sound.insertRecords env (.inl rfl) appended
  rw [complete] at run
  have inserted : (FileHandler.insertData env node').run w = .ok () v := by
    rw [FileHandler.insertData, run_bind_ok (ensureTableFileExists_run sound.file)]
    exact run
  have visited : (InterpreterVisitor.visit env (.insert node)).run w = .ok {} v := by
    rw [InterpreterVisitor.visit, InterpreterVisitor.visitInsert, run_bind_ok (run_get w)]
    dsimp only
    rw [normalized]
    dsimp only
    rw [valid, run_bind_ok (run_lift_ok _ _)]
    exact run_bind_ok inserted _
  exact ⟨v, _, step_of_ok visited, sound'⟩

/-- The state of a database with one table is sound. -/
theorem singleTable_sound (table : Bytes) (t : TableSchema n) (f : TableFile n) (counters : Map Bytes Nat)
    (indexed : ∀ r ∈ f.records, IndexedBy t.payloadCodes r) :
    Sound t table (singleTable table t f counters) f f.index where
  registered := singleTable_registered table t f counters
  file := singleTable_hasFile table t f counters
  index := singleTable_hasIndex table t f counters
  places := .ofIndex f
  indexed := indexed
  noNewFile := rfl

end Jssql.FileHandler
