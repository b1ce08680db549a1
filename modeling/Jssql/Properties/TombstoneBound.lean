import Jssql.Theory.KeyConditions
import Jssql.Theory.SoundTables

/-!
Tombstones stay bounded as long as the counter in memory is not behind the file.
Every statement that marks records counts them, and the compaction that the bound
needs is the one that the counter asks for. A restart sets the counter to zero and
leaves the file, so the tombstones of the file are forgotten.
-/
namespace Jssql.FileHandler
open Foundation Foundation.Stream InterpreterVisitor StrategyDecider

variable {n : Nat} {t t' : TableSchema n} {table : Bytes} {w w' v : World} {f : TableFile n} {idx : Index}
  {env : Env}

/-! Tombstones -/

def tombstones (rs : List (TableRecord n)) : Nat := (rs.filter fun r => r.isTombstone).length

/-- The share of the tombstones is less than two fifths. -/
def TombstonesBounded (f : TableFile n) : Prop :=
  3 * tombstones f.records < 2 * ((liveRecords f.records).length + 1)

theorem length_eq_live_tombstones (rs : List (TableRecord n)) :
    rs.length = (liveRecords rs).length + tombstones rs := by
  have parts := List.length_eq_length_filter_add (l := rs) fun r => r.isTombstone
  rw [Nat.add_comm] at parts
  exact parts

theorem tombstones_append_live (rs : List (TableRecord n)) {ss : List (TableRecord n)}
    (live : ∀ r ∈ ss, r.isTombstone = false) : tombstones (rs ++ ss) = tombstones rs := by
  have none_ : ss.filter (fun r => r.isTombstone) = [] :=
    List.filter_eq_nil_iff.mpr fun r hr => by simp [live r hr]
  rw [tombstones, List.filter_append, none_, List.append_nil]
  rfl

theorem tombstones_liveRecords (rs : List (TableRecord n)) : tombstones (liveRecords rs) = 0 := by
  have none_ : (liveRecords rs).filter (fun r => r.isTombstone) = [] :=
    List.filter_eq_nil_iff.mpr fun r hr => by simp [(mem_liveRecords.mp hr).2]
  rw [tombstones, none_]
  rfl

theorem fresh_bounded (rs : List (TableRecord n)) :
    TombstonesBounded (TableFile.fresh (liveRecords rs)) := by
  have none_ : tombstones (TableFile.fresh (liveRecords rs)).records = 0 := tombstones_liveRecords rs
  rw [TombstonesBounded, none_]
  omega

theorem tombstones_cons (r : TableRecord n) (rs : List (TableRecord n)) :
    tombstones (r :: rs) = tombstones rs + if r.isTombstone then 1 else 0 := by
  cases state : r.isTombstone <;> simp [tombstones, state]

theorem tombstones_append (rs ss : List (TableRecord n)) :
    tombstones (rs ++ ss) = tombstones rs + tombstones ss := by
  rw [tombstones, List.filter_append, List.length_append]
  rfl

theorem marked_isTombstone (r : TableRecord n) : r.marked.isTombstone = true := rfl

/-- Their number is a function of the bytes of the file. -/
theorem tombstones_of_bytes {f f' : TableFile n} (same : f.bytes = f'.bytes) :
    tombstones f.records = tombstones f'.records := by
  obtain ⟨headers, records⟩ := List.append_inj same (f.header_length.trans f'.header_length.symm)
  have counts := countRecords_records ⟨false, id⟩ f.header f.records
  rw [headers, records, countRecords_records, EStateM.Result.ok.injEq] at counts
  exact (congrArg RecordCounts.tombstoneCount counts.1).symm

/-- A scan makes at most as many tombstones as it counts. -/
theorem tombstones_scanMarks (isMatch : TableRecord n → Except Fault Bool) (missing : Option Fault)
    (rs : List (TableRecord n)) :
    tombstones (scanMarks isMatch missing rs).records ≤
      tombstones rs + (scanMarks isMatch missing rs).matched.length := by
  induction rs with
  | nil => exact Nat.le_refl _
  | cons r rest ih =>
      cases state : r.isTombstone with
      | true =>
          rw [scanMarks_tombstone _ state]
          simp only [tombstones_cons, state, if_true]
          omega
      | false =>
          cases answer : isMatch r with
          | error e =>
              rw [scanMarks_throws _ state answer]
              exact Nat.le_add_right _ _
          | ok b =>
              cases b with
              | false =>
                  rw [scanMarks_rejects _ state answer]
                  simp only [tombstones_cons, state, Bool.false_eq_true, if_false]
                  omega
              | true =>
                  cases missing with
                  | none =>
                      rw [scanMarks_counts _ state answer]
                      simp only [tombstones_cons, state, marked_isTombstone r, if_true, Bool.false_eq_true,
                        if_false, List.length_cons]
                      omega
                  | some fault =>
                      rw [scanMarks_missing _ state answer]
                      simp only [tombstones_cons, state, marked_isTombstone r, if_true, Bool.false_eq_true,
                        if_false, List.length_cons, List.length_nil]
                      omega

/-! The counter -/

/-- A counter in memory covers the tombstones of the file. -/
def Covered (table : Bytes) (w : World) (f : TableFile n) : Prop :=
  ∀ count, w.ctx.deleteCounterPerTable.lookup table = some count → tombstones f.records ≤ count

/-- The index has no more keys than there are live records, and the counter covers the
tombstones. -/
structure Tallied (t : TableSchema n) (table : Bytes) (w : World) (f : TableFile n) (idx : Index) : Prop
    extends Sound t table w f idx where
  keys : idx.keys.card ≤ (liveRecords f.records).length
  covered : Covered table w f

theorem index_keys (f : TableFile n) :
    f.index.keys = ((liveRecords f.records).map fun r => r.pkLiteral).toFinset := by
  ext key
  rw [Finmap.mem_keys, f.mem_index, List.mem_toFinset]

theorem card_index_le (f : TableFile n) : f.index.keys.card ≤ (liveRecords f.records).length := by
  rw [index_keys]
  exact (List.toFinset_card_le _).trans (List.length_map _).le

theorem Sound.tallied (sound : Sound t table w f f.index) (covered : Covered table w f) :
    Tallied t table w f f.index :=
  ⟨sound, card_index_le f, covered⟩

/-- Where the bound does not hold the upkeep compacts. -/
theorem Tallied.needsCompaction (tallied : Tallied t table w f idx) {count : Nat}
    (counter : w.ctx.deleteCounterPerTable.lookup table = some count) (many : ¬ TombstonesBounded f) :
    needsCompaction count idx f = true := by
  have keys := tallied.keys
  have covers := tallied.covered count counter
  have total := length_eq_live_tombstones f.records
  rw [TombstonesBounded] at many
  rw [FileHandler.needsCompaction, Bool.and_eq_true]
  constructor
  · simp only [reachesThreshold, Bool.and_eq_true, decide_eq_true_eq]
    omega
  · have counts : recordCounts f.records = ⟨tombstones f.records, f.records.length⟩ := rfl
    simp only [reachesThreshold, counts, Bool.and_eq_true, decide_eq_true_eq]
    omega

theorem Tallied.compacted (tallied : Tallied t table w f idx) :
    Tallied t table (compacted w table t f) (.fresh (liveRecords f.records))
      (TableFile.fresh (liveRecords f.records)).index :=
  tallied.toSound.compacted.tallied fun count _ =>
    (tombstones_liveRecords f.records).trans_le (Nat.zero_le count)

/-- What a handler leaves that comes to the end of its upkeep. -/
def LeavesBounded (t : TableSchema n) (table : Bytes) (w : World) : Prop :=
  ∃ f idx, Tallied t table w f idx ∧ TombstonesBounded f

theorem Tallied.compactIfNecessary (tallied : Tallied t table w f idx)
    (run : (compactIfNecessary env table t.pkColName).run w = .ok () v) : LeavesBounded t table v := by
  cases counter : w.ctx.deleteCounterPerTable.lookup table with
  | none =>
      rw [compactIfNecessary_missing env t tallied.index counter] at run
      cases run
  | some count =>
      rw [compactIfNecessary_run env t f tallied.file tallied.registered.schema tallied.index counter
        tallied.noNewFile, EStateM.Result.ok.injEq] at run
      rw [← run.2]
      by_cases few : TombstonesBounded f
      · split
        · exact ⟨_, _, tallied.compacted, fresh_bounded f.records⟩
        · exact ⟨f, idx, tallied, few⟩
      · rw [if_pos (tallied.needsCompaction counter few)]
        exact ⟨_, _, tallied.compacted, fresh_bounded f.records⟩

theorem Sound.maintain_bounded (sound : Sound t table w f idx) (covered : Covered table w f)
    (run : (FileHandler.maintain env table t.pkColName).run w = .ok () v) : LeavesBounded t table v := by
  rw [FileHandler.maintain,
    run_bind_ok (recalculateIndicesForTable_run env t f sound.file sound.registered.schema)] at run
  exact (sound.rebuilt.tallied covered).compactIfNecessary run

/-! The handlers -/

theorem final_of_stopped {stop : Option Fault} (run : stopped stop w = .ok () v) : v = w := by
  cases stop with
  | none => cases run; rfl
  | some e => cases run

theorem Covered.marked {rs : List (TableRecord n)} (covered : Covered table w f) {counted : Nat}
    (more : tombstones rs ≤ tombstones f.records + counted) (content : Bytes) :
    Covered table (marking w table content counted) (f.withRecords rs) := by
  intro count counter
  rw [marking_counter] at counter
  obtain ⟨count', before, rfl⟩ := Option.map_eq_some_iff.mp counter
  exact more.trans (Nat.add_le_add_right (covered count' before) counted)

theorem Tallied.deleteByKey {node : DeleteNode} {cond : ConditionNode}
    (tallied : Tallied t node.tableName w f idx) (condition : node.optWhereNode = some ⟨cond⟩)
    (isKey : cond.colName = t.pkColName)
    (lookup : isUniqueEqualityLookup node.optWhereNode t.pkColName = true)
    (run : (deleteData env node).run w = .ok () v) : LeavesBounded t node.tableName v := by
  have sound := tallied.toSound
  cases found : idx.lookup (removeOuterQuotes cond.literal.value) with
  | none =>
      rw [sound.deleteByKey_missing env condition isKey lookup found] at run
      cases run
  | some offset =>
      obtain ⟨before, r, after, records, at_⟩ := sound.places _ _ found
      obtain ⟨u, _, sound', counters, whole⟩ :=
        sound.deleteByKey_run env condition isKey lookup found records at_
      rw [whole] at run
      cases counter : u.ctx.deleteCounterPerTable.lookup node.tableName with
      | none =>
          rw [run_bind_error (getDeleteCountForTable_none env counter)] at run
          cases run
      | some count =>
          rw [run_bind_ok (getDeleteCountForTable_some env counter)] at run
          have counted : SameElsewhere node.tableName u _ := .setCounters _ (1 + count) u
          have sound'' := sound'.next counted sound'.file sound'.index sound'.places sound'.indexed
          have present : removeOuterQuotes cond.literal.value ∈ idx := Finmap.mem_iff.mpr ⟨offset, found⟩
          have total := length_eq_live_tombstones f.records
          have total' := length_eq_live_tombstones (before ++ r.marked :: after)
          have marks : tombstones (before ++ r.marked :: after) ≤ tombstones f.records + 1 := by
            rw [records, tombstones_append, tombstones_append, tombstones_cons, tombstones_cons,
              marked_isTombstone]
            simp only [if_true]
            omega
          refine Tallied.compactIfNecessary ⟨sound'', ?_, fun count' counter' => ?_⟩ run
          · have keys := tallied.keys
            rw [← card_keys_erase present] at keys
            have lengths : f.records.length = (before ++ r.marked :: after).length := by simp [records]
            change _ ≤ (liveRecords (before ++ r.marked :: after)).length
            omega
          · have counted' : count' = 1 + count :=
              Option.some.inj (counter'.symm.trans (Finmap.lookup_insert _))
            have covers := tallied.covered count (counters ▸ counter)
            change tombstones (before ++ r.marked :: after) ≤ count'
            omega

theorem Tallied.deleteData {node : DeleteNode} (tallied : Tallied t node.tableName w f idx)
    (column : ColumnKnown t node.optWhereNode) (run : (deleteData env node).run w = .ok () v) :
    LeavesBounded t node.tableName v := by
  cases lookup : isUniqueEqualityLookup node.optWhereNode t.pkColName with
  | true =>
      cases condition : node.optWhereNode with
      | none => rw [condition] at lookup; cases lookup
      | some where_ =>
          obtain ⟨cond⟩ := where_
          have isKey : cond.colName = t.pkColName := by
            rw [condition, isUniqueEqualityLookup, Bool.and_eq_true, beq_iff_eq] at lookup
            exact lookup.1
          exact tallied.deleteByKey condition isKey lookup run
  | false =>
      have copies := MarkedFrom.scan (deleteMatches t node.optWhereNode)
        (missingFault env w node.tableName) f.records
      have more := tombstones_scanMarks (deleteMatches t node.optWhereNode)
        (missingFault env w node.tableName) f.records
      rw [deleteData_sequential env tallied.registered tallied.file tallied.indexed column lookup] at run
      dsimp only at run
      split at run
      · cases run
      · exact (tallied.toSound.marked copies _).maintain_bounded (tallied.covered.marked more _) run

theorem Tallied.updateData {node : UpdateNode} (tallied : Tallied t node.tableName w f idx)
    (ready : UpdateReady (n + 1) node.inverseProjMask node.schemaIndexToLiteralMap)
    {rs : List (TableRecord n)} (appended : Appended t .update (allColumns t)
      (updatedRecords node (updateMarks env w node f.records).matched) rs)
    (run : (updateData env node).run w = .ok () v) : LeavesBounded t node.tableName v := by
  have copies : MarkedFrom f.records (updateMarks env w node f.records).records :=
    .scan (fun r => whereMatches node.optWhereNode r.row) _ _
  have more : tombstones (updateMarks env w node f.records).records ≤ _ :=
    tombstones_scanMarks (fun r => whereMatches node.optWhereNode r.row) _ _
  have marked := tallied.toSound.marked copies (updateMarks env w node f.records).matched.length
  have covered := tallied.covered.marked more
    (f.withRecords (updateMarks env w node f.records).records).bytes
  rw [updateData_run env tallied.registered.schema tallied.file ready] at run
  dsimp only at run
  split at run
  · cases run
  · obtain ⟨u, insert_, _, counters, sound⟩ := marked.insertRecords env (.inr rfl) appended
    obtain ⟨_, u', inserted, run⟩ := run_bind_eq_ok.mp run
    have same : u' = u := final_of_stopped (insert_.symm.trans inserted)
    subst same
    refine sound.maintain_bounded (fun count counter => ?_) run
    exact (tombstones_append_live _ appended.live).trans_le (covered count (counters ▸ counter))

theorem Tallied.insertData {node : InsertNode} (tallied : Tallied t node.tableName w f idx)
    {rs : List (TableRecord n)} (appended : Appended t .insert node.projectionMask node.records rs)
    (run : (insertData env node).run w = .ok () v) :
    ∃ idx', Tallied t node.tableName v (f.withRecords (f.records ++ rs)) idx' := by
  obtain ⟨u, insert_, _, counters, sound⟩ := tallied.toSound.insertRecords env (.inl rfl) appended
  rw [FileHandler.insertData, run_bind_ok (ensureTableFileExists_run tallied.file)] at run
  have same : v = u := final_of_stopped (insert_.symm.trans run)
  subst same
  refine ⟨_, sound, ?_, fun count counter => ?_⟩
  · have more := card_keys_insertAll_le (liveEntries f.bytes.length rs) idx
    have keys := tallied.keys
    have entries := congrArg List.length (map_fst_liveEntries rs f.bytes.length)
    have live := congrArg List.length (appended.liveRecords_append f.records)
    have all := congrArg List.length (appended.liveRecords_append [])
    rw [List.length_map, List.length_map] at entries
    rw [List.length_append] at live
    rw [List.nil_append, List.length_append] at all
    change _ ≤ (liveRecords (f.records ++ rs)).length
    rw [show liveRecords ([] : List (TableRecord n)) = [] from rfl, List.length_nil] at all
    omega
  · exact (tombstones_append_live _ appended.live).trans_le (tallied.covered count (counters ▸ counter))

/-! Statements and restarts -/

inductive Event where
  | statement (stmt : Statement)
  | restart

/-- The event raises no error. -/
def Event.Takes (env : Env) : Event → World → World → Prop
  | .statement stmt, w, w' => ∃ r, (visit env stmt).run w = .ok r w'
  | .restart, w, w' => (constructExecutionContext env).run ⟨w.disk, .empty⟩ = .ok () w'

def ChangesRows : Statement → Prop
  | .insert _ | .update _ | .delete _ => True
  | _ => False

/-- `INSERT`, `UPDATE`, `DELETE`, with records that are not too long, and restarts. -/
def Admitted (n : Nat) (table : Bytes) (w : World) : Event → Prop
  | .statement stmt => ChangesRows stmt ∧ (stmt.tableName = table → ∀ (t : TableSchema n) (f : TableFile n),
      Registered w.ctx table t → HasFile w table f → Fits t f w stmt)
  | .restart => True

/-- The process is not started again while the file of the table has tombstones. -/
def ForgetsNone (n : Nat) (table : Bytes) (w : World) : Event → Prop
  | .statement _ => True
  | .restart => ∀ f : TableFile n, HasFile w table f → tombstones f.records = 0

def Run (env : Env) (allowed : World → Event → Prop) : World → World → Prop :=
  Relation.ReflTransGen fun w w' => ∃ event, allowed w event ∧ event.Takes env w w'

/-- The schema that a restart reads for the table. -/
structure ReadBack (disk : Disk) (table text : Bytes) (t' : TableSchema n) : Prop where
  listed : FileHandler.listed disk table = some text
  parsed : parseMetadata text = t'.schema

theorem Tallied.congr (tallied : Tallied t table w f idx) (same : tableState table w' = tableState table w)
    (newFile : w'.disk.newTableFiles.lookup table = w.disk.newTableFiles.lookup table) :
    Tallied t table w' f idx :=
  ⟨tallied.toSound.congr same newFile, tallied.keys, fun count counter =>
    tallied.covered count ((congrArg TableState.counter same).symm.trans counter)⟩

theorem Tallied.executes {stmt : Statement} {handler : Exec Response} {r : Response}
    (tallied : Tallied t table w f idx) (few : TombstonesBounded f) (executes : Executes env w stmt handler)
    (of : stmt.tableName = table) (changes : ChangesRows stmt) (fits : Fits t f w stmt)
    (run : handler.run w = .ok r v) : LeavesBounded t table v := by
  have ends {p : Exec Unit} (run : (do p; return {} : Exec Response).run w = .ok r v) :
      p.run w = .ok () v := by
    obtain ⟨_, u, first, last⟩ := run_bind_eq_ok.mp run
    cases last
    exact first
  cases executes with
  | create | drop | select | csvImport => exact changes.elim
  | @insert node node' normalized valid =>
      have name := normalizeInsert_tableName normalized
      rw [Fits, normalized] at fits
      obtain ⟨rs, appended⟩ := writtenRecords_appended (.inl rfl) node'.records fits
      rw [show table = node'.tableName from of.symm.trans name.symm] at tallied ⊢
      obtain ⟨idx', tallied'⟩ := tallied.insertData appended (ends run)
      refine ⟨_, idx', tallied', ?_⟩
      have live := congrArg List.length (appended.liveRecords_append f.records)
      have dead := tombstones_append_live f.records appended.live
      rw [List.length_append] at live
      change 3 * tombstones (f.records ++ rs) < 2 * ((liveRecords (f.records ++ rs)).length + 1)
      rw [TombstonesBounded] at few
      omega
  | @delete node node' normalized valid =>
      have schema := tallied.registered.schema
      rw [show table = node.tableName from of.symm] at schema
      obtain ⟨name, where_, columns⟩ := normalizeDelete_ok schema normalized
      have column : ColumnKnown t node'.optWhereNode := by
        rw [where_]
        intro v hv
        obtain ⟨v', given, rfl⟩ := Option.map_eq_some_iff.mp hv
        exact columns v' given
      rw [show table = node'.tableName from of.symm.trans name.symm] at tallied ⊢
      exact tallied.deleteData column (ends run)
  | @update node node' normalized valid =>
      have schema := tallied.registered.schema
      rw [show table = node.tableName from of.symm] at schema
      obtain ⟨name, ready, -⟩ := normalizeUpdate_ok schema normalized
      obtain ⟨rs, appended⟩ := writtenRecords_appended (.inr rfl)
        (updatedRecords node' (updateMarks env w node' f.records).matched) fun r hr => by
          obtain ⟨record, mem, written⟩ := mem_writtenRecords hr
          obtain ⟨old, hold, rfl⟩ := List.mem_map.mp mem
          exact fits node' normalized old (mem_matched hold).1 r written
      rw [show table = node'.tableName from of.symm.trans name.symm] at tallied ⊢
      exact tallied.updateData ready appended (ends run)

/-- A statement that ends without an error leaves the bound, about this table or another. -/
theorem Tallied.statement {stmt : Statement} {r : Response} (tallied : Tallied t table w f idx)
    (few : TombstonesBounded f) (admitted : Admitted n table w (.statement stmt))
    (run : (visit env stmt).run w = .ok r v) :
    LeavesBounded t table v ∧ v.disk.metadata = w.disk.metadata := by
  obtain ⟨changes, fits⟩ := admitted
  have keeps : stmt.KeepsTables := by
    cases stmt with
    | insert | update | delete => trivial
    | create | drop | describe | select | csvImport => exact changes.elim
  rcases visit_cases env stmt w with ⟨x, idle⟩ | ⟨handler, executes, same⟩
  · rw [idle] at run
    cases x with
    | error e => cases run
    | ok _ =>
        cases run
        exact ⟨⟨f, idx, tallied, few⟩, rfl⟩
  · rw [same] at run
    refine ⟨?_, (executes.keeps keeps (framed_metadata _ w)).ok rfl run⟩
    by_cases of : stmt.tableName = table
    · exact tallied.executes few executes of changes (fits of t f tallied.registered tallied.file) run
    · have other : table ≠ stmt.tableName := fun same => of same.symm
      obtain ⟨state, newFile⟩ := (executes.keeps keeps (framed_elsewhere other w)).ok ⟨rfl, rfl⟩ run
      exact ⟨f, idx, tallied.congr state newFile, few⟩

/-- A restart reads the index from the file and sets the counter to zero. -/
theorem Sound.restart {text : Bytes} (sound : Sound t table w f idx)
    (codes : t'.payloadCodes = t.payloadCodes) (readBack : ReadBack w.disk table text t')
    (run : (constructExecutionContext env).run ⟨w.disk, .empty⟩ = .ok () v) :
    Sound t' table v f f.index ∧ v.ctx.deleteCounterPerTable.lookup table = some 0 ∧
      v.disk.metadata = w.disk.metadata := by
  obtain ⟨_, _, rfl⟩ := constructExecutionContext_ok.mp run
  have entry : loadedIndex env (parseMetadata text)
      ((w.disk.tableFiles.lookup table).getD tableFileHeader) = .ok (t'.pkColName, f.index) := by
    rw [readBack.parsed, show w.disk.tableFiles.lookup table = _ from sound.file]
    exact loadedIndex_file env t' f
  have state := tableState_constructed env w.disk readBack.listed entry
  rw [readBack.parsed, show w.disk.tableFiles.lookup table = _ from sound.file] at state
  have declared := constructed_declaration env w.disk
  simp only [declaration, declaredTables_disk, Prod.mk.injEq] at declared
  refine ⟨?_, congrArg TableState.counter state, declared.1⟩
  exact {
    registered := ⟨congrArg TableState.schema state, congrArg TableState.colcodes state⟩
    file := congrArg TableState.file state
    index := ⟨_, congrArg TableState.index state, Finmap.lookup_insert _⟩
    places := .ofIndex f
    indexed := fun r hr => codes ▸ sound.indexed r hr
    noNewFile := by rw [declared.2.2.1]; exact sound.noNewFile }

/-! Runs -/

/-- Where every restart finds the file of the table without tombstones, they stay
bounded in every state of a run, and so after every `DELETE` and every `UPDATE`. -/
theorem tombstones_bounded (env : Env) {table text : Bytes} {t t' : TableSchema n} {w w' : World}
    {f : TableFile n} (sound : Sound t table w f f.index) (clean : tombstones f.records = 0)
    (readBack : ReadBack w.disk table text t') (codes : t'.payloadCodes = t.payloadCodes)
    (run : Run env (fun w event => Admitted n table w event ∧ ForgetsNone n table w event) w w') :
    ∃ f' : TableFile n, HasFile w' table f' ∧ TombstonesBounded f' := by
  let holds (v : World) : Prop := v.disk.metadata = w.disk.metadata ∧ ∃ u : TableSchema n,
    t'.payloadCodes = u.payloadCodes ∧ LeavesBounded u table v
  have final : holds w' := by
    induction run with
    | refl =>
        refine ⟨rfl, t, codes, f, _, sound.tallied fun count _ => clean.trans_le (Nat.zero_le count), ?_⟩
        rw [TombstonesBounded, clean]
        omega
    | tail _ step ih =>
        obtain ⟨event, ⟨admitted, forgets⟩, takes⟩ := step
        obtain ⟨same, u, codes', f', idx', tallied, few⟩ := ih
        cases event with
        | statement stmt =>
            obtain ⟨_, run⟩ := takes
            obtain ⟨leaves, same'⟩ := tallied.statement few admitted run
            exact ⟨same'.trans same, u, codes', leaves⟩
        | restart =>
            have none_ := forgets f' tallied.file
            have readBack' : ReadBack _ table text t' :=
              ⟨by rw [listed, same]; exact readBack.listed, readBack.parsed⟩
            obtain ⟨sound', counter, same'⟩ := tallied.toSound.restart codes' readBack' takes
            refine ⟨same'.trans same, t', rfl, f', _, sound'.tallied fun count _ => ?_, few⟩
            exact none_.trans_le (Nat.zero_le count)
  obtain ⟨_, _, _, f', _, tallied, few⟩ := final
  exact ⟨f', tallied.file, few⟩

/-! A restart that forgets -/

/-- A `DELETE` that names the key of a live row, where no compaction is due after it. -/
theorem Sound.step_deleteKey (env : Env) {literal : LiteralNode} {key : Bytes} (lexeme : Lexeme literal key)
    (plain : removeOuterQuotes key = key) (sound : Sound t table w f f.index)
    (distinct : DistinctKeys f.records) {before after : List (TableRecord n)} {r : TableRecord n}
    (records : f.records = before ++ r :: after) (live : r.isTombstone = false) (named : r.pkLiteral = key)
    {count : Nat} (counter : w.ctx.deleteCounterPerTable.lookup table = some count)
    (stays : FileHandler.needsCompaction (1 + count) (f.withRecords (before ++ r.marked :: after)).index
      (f.withRecords (before ++ r.marked :: after)) = false) :
    ∃ v, (visit env (.delete ⟨table, some ⟨⟨t.pkColName, .eq, literal, 255⟩⟩⟩)).run w = .ok {} v ∧
      Sound t table v (f.withRecords (before ++ r.marked :: after))
        (f.withRecords (before ++ r.marked :: after)).index ∧
      v.ctx.deleteCounterPerTable.lookup table = some (1 + count) ∧ SameElsewhere table w v := by
  let cond : ConditionNode := ⟨t.pkColName, .eq, literal, 255⟩
  let node : DeleteNode := ⟨table, some ⟨cond⟩⟩
  let node' : DeleteNode := ⟨table, some ⟨strippedCondition t.schema cond⟩⟩
  have contents : (strippedCondition t.schema cond).literal.value = key := lexeme.removeOuterQuotes_value
  have stripped : removeOuterQuotes (strippedCondition t.schema cond).literal.value = key := by
    rw [contents, plain]
  have found : f.index.lookup key = some (f.header.length + (encodeAll before).length + 8) :=
    named ▸ index_lookup_record records live distinct
  have present : (strippedCondition t.schema cond).literal.value ∈ f.index :=
    contents.symm ▸ Finmap.mem_iff.mpr ⟨_, found⟩
  have known : findColumn t.schema t.pkColName ≠ t.schema.length := by
    have inside := List.idxOf_lt_length_iff.mpr t.pkColName_mem
    rw [columnNames, List.length_map] at inside
    exact inside.ne
  have normalized : SemanticNormalizer.normalizeDelete node w.ctx.untypedTables = (node', true) := by
    rw [SemanticNormalizer.normalizeDelete, show w.ctx.untypedTables.lookup node.tableName = _ from
      sound.registered.schema]
    dsimp only [node]
    rw [SemanticNormalizer.normalizeWhereClause, if_neg known]
    rfl
  have valid : SemanticValidator.validateDeleteSemantics node' w.ctx = .ok none := by
    obtain ⟨columns, hc, hi⟩ := sound.index
    rw [SemanticValidator.validateDeleteSemantics, show w.ctx.untypedTables.lookup node'.tableName = _ from
      sound.registered.schema]
    exact validateWhereOfTable_key hc hi rfl rfl present lexeme.type_eq
  have lookup : isUniqueEqualityLookup node'.optWhereNode t.pkColName = true := by
    rw [isUniqueEqualityLookup, Bool.and_eq_true, beq_iff_eq, beq_iff_eq]
    exact ⟨rfl, rfl⟩
  have sound_ : Sound t node'.tableName w f f.index := sound
  obtain ⟨u, same, marked, counters, run⟩ := sound_.deleteByKey_run env rfl rfl lookup
    (stripped.symm ▸ found) records rfl
  rw [stripped, ← named, ← index_mark records live distinct] at marked
  let v := u.setCounters (u.ctx.deleteCounterPerTable.insert table (1 + count))
  have counted : SameElsewhere table u v := .setCounters _ (1 + count) u
  have sound' := marked.next counted marked.file marked.index marked.places marked.indexed
  have counter' : v.ctx.deleteCounterPerTable.lookup table = some (1 + count) := Finmap.lookup_insert _
  have deleted : (FileHandler.deleteData env node').run w = .ok () v := by
    rw [run, run_bind_ok (getDeleteCountForTable_some env (counters.symm ▸ counter))]
    refine (compactIfNecessary_run env t _ sound'.file sound'.registered.schema sound'.index counter'
      sound'.noNewFile).trans ?_
    rw [stays]
    rfl
  refine ⟨v, ?_, sound', counter', same.trans counted⟩
  rw [visit, visitDelete, run_bind_ok (run_get w)]
  dsimp only
  rw [normalized]
  dsimp only
  rw [valid, run_bind_ok (run_lift_ok _ _)]
  exact run_bind_ok deleted _

/-- Three rows in a table, without tombstones. -/
def threeRows : TableFile 1 := pairFile [ascii "1", ascii "2", ascii "3"] (ascii "x") (by decide)

def threeRowsStored : World :=
  singleTable (ascii "people") pairSchema threeRows (Finmap.insert (ascii "people") 0 ∅)

def row (key : Bytes) (short : key.length + 1 < 2 ^ 62) : TableRecord 1 := pairRecord key (ascii "x") short

def rowDeletion (key : Bytes) : DeleteNode :=
  ⟨ascii "people", some ⟨⟨ascii "id", .eq, ⟨.number, key⟩, 255⟩⟩⟩

/-- The database with this table can be started again. -/
theorem restart_takes (env : Env) {f : TableFile 1} (file : HasFile w (ascii "people") f)
    (metadata : w.disk.metadata = threeRowsStored.disk.metadata) :
    ReadBack w.disk (ascii "people") (metadataText pairSchema.schema) pairSchemaRead ∧
      ∃ v, Event.restart.Takes env w v := by
  have names (x : Bytes) : listed w.disk x =
      if x = ascii "people" then some (metadataText pairSchema.schema) else none := by
    rw [listed, metadata]
    exact listed_singleTable (ascii "people") pairSchema threeRows _ x
  have readBack : ReadBack w.disk (ascii "people") (metadataText pairSchema.schema) pairSchemaRead :=
    ⟨by rw [names, if_pos rfl], pairSchema_parsed⟩
  refine ⟨readBack, _, constructExecutionContext_ok.mpr ⟨.inl (by rw [metadata]; rfl), ?_, rfl⟩⟩
  intro x text here
  rw [names] at here
  split at here
  next same =>
    subst same
    cases here
    refine ⟨.inr (pairSchema_parsed ▸ pairSchemaRead.few), ⟨(pairSchemaRead.pkColName, f.index), ?_⟩⟩
    rw [pairSchema_parsed, show w.disk.tableFiles.lookup (ascii "people") = _ from file]
    exact loadedIndex_file env pairSchemaRead f
  next => cases here

theorem rowDeletion_admitted (key : Bytes) : Admitted 1 (ascii "people") w (.statement (.delete (rowDeletion key))) :=
  ⟨trivial, fun _ _ _ _ _ => trivial⟩

/-- The files after the first `DELETE`, and after the second. -/
def twoRows : TableFile 1 :=
  threeRows.withRecords ([] ++ (row (ascii "1") (by decide)).marked ::
    [row (ascii "2") (by decide), row (ascii "3") (by decide)])

def oneRow : TableFile 1 :=
  twoRows.withRecords ([(row (ascii "1") (by decide)).marked] ++ (row (ascii "2") (by decide)).marked ::
    [row (ascii "3") (by decide)])

theorem threeRows_distinct : DistinctKeys threeRows.records := by
  rw [DistinctKeys, threeRows, pairFile_keys]
  decide

theorem twoRows_distinct : DistinctKeys twoRows.records := by
  have keys : (liveRecords twoRows.records).map (fun r => r.pkLiteral) = [ascii "2", ascii "3"] := rfl
  rw [DistinctKeys, keys]
  decide

theorem twoRows_stays : FileHandler.needsCompaction (1 + 0) twoRows.index twoRows = false := by
  have keys : (liveRecords twoRows.records).map (fun r => r.pkLiteral) = [ascii "2", ascii "3"] := rfl
  rw [FileHandler.needsCompaction, index_keys, keys]
  decide

theorem oneRow_stays : FileHandler.needsCompaction (1 + 0) oneRow.index oneRow = false := by
  have keys : (liveRecords oneRow.records).map (fun r => r.pkLiteral) = [ascii "3"] := rfl
  rw [FileHandler.needsCompaction, index_keys, keys]
  decide

theorem threeRows_sound : Sound pairSchema (ascii "people") threeRowsStored threeRows threeRows.index := by
  refine singleTable_sound _ _ _ _ fun r hr => ?_
  obtain ⟨key, _, rfl⟩ := List.mem_map.mp hr
  exact tableRecord_indexedBy _ _ _ _ _ _

theorem number_lexeme (c : UInt8) (start : c ∈ ascii "+-0123456789") : Lexeme ⟨.number, [c]⟩ [c] := .number c [] start

theorem tombstones_bounded_rows : ∃ w w', Event.restart.Takes ⟨false, id⟩ threeRowsStored w ∧
    (∃ r, (visit ⟨false, id⟩ (.delete (rowDeletion (ascii "1")))).run w = .ok r w') ∧
    ∃ f' : TableFile 1, HasFile w' (ascii "people") f' ∧ TombstonesBounded f' := by
  have codes : pairSchemaRead.payloadCodes = pairSchema.payloadCodes := rfl
  obtain ⟨readBack, w, restart⟩ := restart_takes ⟨false, id⟩ threeRows_sound.file rfl
  obtain ⟨sound, counter, _⟩ := threeRows_sound.restart codes readBack restart
  obtain ⟨w', delete, _⟩ := sound.step_deleteKey ⟨false, id⟩ (number_lexeme 49 (by decide)) (by decide)
    threeRows_distinct rfl rfl rfl counter twoRows_stays
  refine ⟨w, w', restart, ⟨_, delete⟩, ?_⟩
  refine tombstones_bounded ⟨false, id⟩ threeRows_sound rfl readBack codes
    ((Relation.ReflTransGen.single ⟨.restart, ⟨trivial, fun f file => ?_⟩, restart⟩).tail
      ⟨.statement _, ⟨rowDeletion_admitted (ascii "1"), trivial⟩, _, delete⟩)
  exact tombstones_of_bytes (Option.some.inj (file.symm.trans threeRows_sound.file))

/-- Two rows are deleted with a restart between them, and two of three records are
tombstones. -/
theorem not_tombstones_bounded : DistinctKeys threeRows.records ∧ tombstones threeRows.records = 0 ∧
    ∃ w', Run ⟨false, id⟩ (Admitted 1 (ascii "people")) threeRowsStored w' ∧
      ∃ f' : TableFile 1, HasFile w' (ascii "people") f' ∧ ¬ TombstonesBounded f' := by
  have codes : pairSchemaRead.payloadCodes = pairSchema.payloadCodes := rfl
  obtain ⟨u, first, sound, _, same⟩ := threeRows_sound.step_deleteKey ⟨false, id⟩
    (number_lexeme 49 (by decide)) (by decide) threeRows_distinct rfl rfl rfl
    (Finmap.lookup_insert _) twoRows_stays
  obtain ⟨readBack, v, restart⟩ := restart_takes ⟨false, id⟩ sound.file same.metadata
  obtain ⟨sound', counter, _⟩ := sound.restart codes readBack restart
  have rows : twoRows.records = [(row (ascii "1") (by decide)).marked] ++ row (ascii "2") (by decide) ::
    [row (ascii "3") (by decide)] := rfl
  obtain ⟨w', second, sound'', _⟩ := sound'.step_deleteKey ⟨false, id⟩ (number_lexeme 50 (by decide))
    (by decide) twoRows_distinct rows rfl rfl counter oneRow_stays
  refine ⟨threeRows_distinct, rfl, w', ?_, oneRow, sound''.file, ?_⟩
  · exact ((Relation.ReflTransGen.single ⟨.statement _, rowDeletion_admitted (ascii "1"), _, first⟩).tail
      ⟨.restart, trivial, restart⟩).tail ⟨.statement _, rowDeletion_admitted (ascii "2"), _, second⟩
  · rw [TombstonesBounded]
    decide

end Jssql.FileHandler
