import Jssql.Theory.StoreRows
import Jssql.Theory.TextRecords

/-!
The handlers as steps of the store. A table is held when its entries in the state are sound and
every key of its index leads to a record with that key; where a handler ends, normally or with
an exception, the table is held again, and its rows are those that the store says.
-/
namespace Jssql.FileHandler
open Foundation Foundation.Stream Store StrategyDecider

variable {n : Nat} {t : TableSchema n} {table : Bytes} {w w' w'' : World} {f f' : TableFile n} {idx idx' : Index}

/-! Programs that let the process go on -/

inductive Ended {α : Type} (p : Exec α) (w : World) : Option α → World → Prop
  | returned {a : α} {w' : World} (run : p.run w = .ok a w') : Ended p w (some a) w'
  | thrown {e : Exception} {w' : World} (run : p.run w = .error (.exception e) w') : Ended p w none w'

namespace Ended

variable {α β : Type} {p q : Exec α} {a : Option α}

theorem congr (same : p.run w = q.run w'') (h : Ended p w a w') : Ended q w'' a w' := by
  cases h with
  | returned run => exact .returned (same.symm.trans run)
  | thrown run => exact .thrown (same.symm.trans run)

theorem of_ok {b : α} {v : World} (h : Ended p w a w') (run : p.run w = .ok b v) : a = some b ∧ w' = v := by
  cases h with
  | returned run' =>
      cases run.symm.trans run'
      exact ⟨rfl, rfl⟩
  | thrown run' => cases run.symm.trans run'

theorem of_error {fault : Fault} {v : World} (h : Ended p w a w') (run : p.run w = .error fault v) :
    (∃ e, fault = .exception e) ∧ a = none ∧ w' = v := by
  cases h with
  | returned run' => cases run.symm.trans run'
  | thrown run' =>
      cases run.symm.trans run'
      exact ⟨⟨_, rfl⟩, rfl, rfl⟩

theorem of_bind {rest : α → Exec β} {b : Option β} (h : Ended (p >>= rest) w b w') :
    (∃ x v, p.run w = .ok x v ∧ Ended (rest x) v b w') ∨ (b = none ∧ Ended p w none w') := by
  cases run : p.run w with
  | ok x v => exact .inl ⟨x, v, rfl, h.congr (run_bind_ok run rest)⟩
  | error fault v =>
      obtain ⟨⟨e, rfl⟩, rfl, rfl⟩ := h.of_error (run_bind_error run rest)
      exact .inr ⟨rfl, .thrown run⟩

theorem of_return {g : α → β} {b : Option β} (h : Ended (do let a ← p; return g a) w b w') :
    ∃ a, b = a.map g ∧ Ended p w a w' := by
  rcases h.of_bind with ⟨x, v, run, last⟩ | ⟨rfl, last⟩
  · obtain ⟨rfl, rfl⟩ := last.of_ok rfl
    exact ⟨some x, rfl, .returned run⟩
  · exact ⟨none, rfl, last⟩

end Ended

/-- The answer of a program that ends so, with the results that are told. -/
def answered {α : Type} (results : α → Option ResultSet) : Option α → Answer
  | some a => .done (results a)
  | none => .stopped

/-- No results are told. -/
def noResults {α : Type} (_ : α) : Option ResultSet := none

theorem missingCounter_ne (env : Env) (e : Exception) : missingCounter env ≠ .exception e := by
  rw [missingCounter]
  split
  · rintro ⟨⟩
  · rintro ⟨⟩

/-! Tables that are held -/

/-- A key of the index leads to a record with this key, live or not. -/
def KeysLead (f : TableFile n) (idx : Index) : Prop :=
  ∀ key offset, idx.lookup key = some offset → ∃ before r after, f.records = before ++ r :: after ∧
    offset = f.header.length + (encodeAll before).length + 8 ∧ r.pkLiteral = key

structure Held (t : TableSchema n) (table : Bytes) (w : World) (f : TableFile n) (idx : Index) : Prop
    extends Sound t table w f idx where
  keys : KeysLead f idx

theorem KeysLead.ofIndex (f : TableFile n) : KeysLead f f.index := by
  intro key offset found
  obtain ⟨before, r, after, records, -, same, at_⟩ := f.index_split found
  exact ⟨before, r, after, records, at_, same⟩

theorem KeysLead.erase (keys : KeysLead f idx) (key : Bytes) : KeysLead f (idx.erase key) := by
  intro key' offset found
  by_cases same : key' = key
  · rw [same, Finmap.lookup_erase] at found
    cases found
  · rw [Finmap.lookup_erase_ne same] at found
    exact keys key' offset found

theorem MarkedFrom.split_key {rs before after : List (TableRecord n)} {r : TableRecord n}
    (h : MarkedFrom (before ++ r :: after) rs) : ∃ before' s after', rs = before' ++ s :: after' ∧
      MarkedFrom before before' ∧ s.pkLiteral = r.pkLiteral := by
  induction before generalizing rs with
  | nil =>
      cases h with
      | cons head _ =>
          refine ⟨[], _, _, rfl, .nil, ?_⟩
          rcases head with rfl | rfl <;> rfl
  | cons b before ih =>
      cases h with
      | cons head tail =>
          obtain ⟨before', s, after', rfl, copies, same⟩ := ih tail
          exact ⟨_ :: before', s, after', rfl, .cons head copies, same⟩

theorem KeysLead.marked {rs : List (TableRecord n)} (keys : KeysLead f idx) (copies : MarkedFrom f.records rs) :
    KeysLead (f.withRecords rs) idx := by
  intro key offset found
  obtain ⟨before, r, after, records, at_, same⟩ := keys key offset found
  obtain ⟨before', s, after', rfl, front, same'⟩ := (records ▸ copies).split_key
  refine ⟨before', s, after', rfl, ?_, same'.trans same⟩
  rw [at_, front.length_encodeAll]
  rfl

theorem KeysLead.append (keys : KeysLead f idx) (rs : List (TableRecord n)) :
    KeysLead (f.withRecords (f.records ++ rs)) (insertAll idx (liveEntries f.bytes.length rs)) := by
  intro key offset found
  rw [lookup_insertAll] at found
  cases new : firstOf key (liveEntries f.bytes.length rs).reverse with
  | none =>
      rw [new, Option.none_or] at found
      obtain ⟨before, r, after, records, at_, same⟩ := keys key offset found
      exact ⟨before, r, after ++ rs, by simp [records], at_, same⟩
  | some place =>
      rw [new, Option.some_or, Option.some.injEq] at found
      subst found
      obtain ⟨before, r, after, rfl, -, same, at_⟩ := liveEntries_split rs (List.mem_reverse.mp (mem_of_firstOf new))
      refine ⟨f.records ++ before, r, after, by simp, ?_, same⟩
      rw [at_, f.length_bytes, encodeAll_append, List.length_append, TableFile.withRecords_header,
        f.header_length]
      omega

/-- The table is held, with these rows, and the other tables are as they were. -/
def HeldWith (t : TableSchema n) (table : Bytes) (w w' : World) (rows : List Record) : Prop :=
  SameElsewhere table w w' ∧ ∃ f' idx', Held t table w' f' idx' ∧ rowsIn f'.records = rows

theorem HeldWith.behind {rows : List Record} (before : SameElsewhere table w w') (h : HeldWith t table w' w'' rows) :
    HeldWith t table w w'' rows :=
  ⟨before.trans h.1, h.2⟩

theorem Held.self (held : Held t table w f idx) : HeldWith t table w w (rowsIn f.records) :=
  ⟨.refl table w, f, idx, held, rfl⟩

/-! Upkeep -/

theorem Held.compactIfNecessary {env : Env} (held : Held t table w f idx) {a : Option Unit}
    (ended : Ended (compactIfNecessary env table t.pkColName) w a w') :
    a = some () ∧ HeldWith t table w w' (rowsIn f.records) := by
  cases counter : w.ctx.deleteCounterPerTable.lookup table with
  | none =>
      obtain ⟨⟨e, fault⟩, -⟩ := ended.of_error (compactIfNecessary_missing env t held.index counter)
      exact absurd fault (missingCounter_ne env e)
  | some count =>
      obtain ⟨rfl, rfl⟩ := ended.of_ok (compactIfNecessary_run env t f held.file held.registered.schema held.index
        counter held.noNewFile)
      refine ⟨rfl, ?_⟩
      split
      · refine ⟨.compacted w table t f, _, _, ⟨held.compacted, .ofIndex _⟩, ?_⟩
        exact congrArg (List.map fun r : TableRecord n => r.row) (liveRecords_idem f.records)
      · exact held.self

theorem Held.maintain {env : Env} (held : Held t table w f idx) {a : Option Unit}
    (ended : Ended (FileHandler.maintain env table t.pkColName) w a w') :
    a = some () ∧ HeldWith t table w w' (rowsIn f.records) := by
  have rebuilt : Held t table (withIndex w table t f.index) f f.index := ⟨held.rebuilt, .ofIndex f⟩
  obtain ⟨done, after⟩ := rebuilt.compactIfNecessary
    (ended.congr (run_bind_ok (recalculateIndicesForTable_run env t f held.file held.registered.schema) _))
  exact ⟨done, after.behind (.setIndices table _ w)⟩

/-! INSERT -/

theorem Held.insertRecords (env : Env) (held : Held t table w f idx) {type : RecordType}
    (kind : type = .insert ∨ type = .update) {projectionMask : List Bool} {records : List ValueRecordNode}
    {rs : List (TableRecord n)} (appended : Appended t type projectionMask records rs) :
    ∃ v, (insertRecords env table projectionMask type records).run w =
        stopped (rowsOf t.schema projectionMask records).2 v ∧ SameElsewhere table w v ∧
      ∃ f' idx', Held t table v f' idx' ∧
        rowsIn f'.records = rowsIn f.records ++ (rowsOf t.schema projectionMask records).1 := by
  obtain ⟨v, run, same, -, sound⟩ := held.toSound.insertRecords env kind appended
  rw [rowsOf_eq t type]
  refine ⟨v, run, same, _, _, ⟨sound, held.keys.append rs⟩, ?_⟩
  rw [TableFile.withRecords_records, rowsIn_append, appended.rowsIn_eq, rowsOf_eq t type]

theorem answered_stopped {p : Exec Unit} {stop : Option Fault} {v : World} {a : Option Unit} (ended : Ended p w a w')
    (run : p.run w = stopped stop v) : answered noResults a = .of stop ∧ w' = v := by
  cases stop with
  | none =>
      obtain ⟨rfl, rfl⟩ := ended.of_ok run
      exact ⟨rfl, rfl⟩
  | some e =>
      obtain ⟨-, rfl, rfl⟩ := ended.of_error run
      exact ⟨rfl, rfl⟩

theorem Held.insertData {env : Env} {node : InsertNode} (held : Held t node.tableName w f idx)
    {rs : List (TableRecord n)} (appended : Appended t .insert node.projectionMask node.records rs) {a : Option Unit}
    (ended : Ended (insertData env node) w a w') :
    ∃ rows, HeldWith t node.tableName w w' rows ∧
      Effect t.schema w.disk.csvFiles (rowsIn f.records) (.insert node) (answered noResults a) rows := by
  obtain ⟨v, run, same, after⟩ := held.insertRecords env (.inl rfl) appended
  have whole : (FileHandler.insertData env node).run w = _ :=
    (run_bind_ok (ensureTableFileExists_run held.file) _).trans run
  obtain ⟨answer, rfl⟩ := answered_stopped ended whole
  rw [answer]
  obtain ⟨f', idx', held', rows⟩ := after
  exact ⟨_, ⟨same, f', idx', held', rows⟩, .insert⟩

/-! IMPORT -/

/-- Rows of strings are all written, or one is too short and is read behind its end. -/
theorem rowsOf_strings (t : TableSchema n) (rows : List Record) :
    (rowsOf t.schema (allTrue t.schema) (rows.map stringRecord)).2 = none ∨
      (rowsOf t.schema (allTrue t.schema) (rows.map stringRecord)).2 = some (.undefined .outOfBounds) := by
  rw [rowsOf_eq t .insert]
  cases stop : (writtenRecords t .insert (allTrue t.schema) (rows.map stringRecord)).2 with
  | none => exact .inl rfl
  | some e =>
      obtain ⟨record, mem, failed⟩ := mem_of_writtenRecords_stop stop
      obtain ⟨row, -, rfl⟩ := List.mem_map.mp mem
      rw [writtenRecord_string_error failed]
      exact .inr rfl

theorem Ended.of_fatal {α : Type} {env : Env} {code : FatalErrorCode} {rest : Exec α} {a : Option α}
    (h : Ended (do handleFatalError env code; rest) w a w') : Ended rest w a w' := by
  cases silent : env.silent with
  | true => exact h.congr (run_bind_ok (show (handleFatalError env code : Exec Unit).run w = .ok () w by
      rw [handleFatalError, silent]; rfl) _)
  | false =>
      obtain ⟨⟨_, ⟨⟩⟩, -⟩ := h.of_error (run_bind_error
        (show (handleFatalError env code : Exec Unit).run w = .error (.exit code) w by
          rw [handleFatalError, silent]; rfl) _)

theorem Held.performCSVImport {env : Env} {node : CSVImportNode} (held : Held t node.tableName w f idx)
    {rs : List (TableRecord n)} (appended : Appended t .insert (allColumns t) (csvRecords w node) rs) {a : Option Unit}
    (ended : Ended (performCSVImport env node) w a w') :
    ∃ rows, HeldWith t node.tableName w w' rows ∧
      Effect t.schema w.disk.csvFiles (rowsIn f.records) (.csvImport node) (answered noResults a) rows := by
  have schema : w.ctx.untypedTables.at node.tableName .tableName = .ok t.schema :=
    Map.at_of_lookup held.registered.schema _
  obtain ⟨v, run, same, f', idx', held', rows⟩ := held.insertRecords env (.inl rfl) appended
  have caught : Ended (catchException (FileHandler.insertRecords env node.tableName (allColumns t) .insert
      (csvRecords w node)) fun _ => handleFatalError env .csvImportUnknownException) w a w' := by
    rw [FileHandler.performCSVImport] at ended
    have opened := ended.congr ((run_bind_ok (ensureTableFileExists_run held.file) _).trans
      ((run_bind_ok (run_get w) _).trans ((congrArg (fun x => (lift x >>= _ : Exec Unit).run w) schema).trans
        (run_bind_ok (run_lift_ok _ _) _))))
    dsimp only at opened
    split at opened
    · exact opened.of_fatal
    · exact opened
  have lines : csvRecords w node = ((getlines ((w.disk.csvFiles.lookup (removeOuterQuotes node.filePath)).getD [])).map
      parseCsvRow).map stringRecord := by
    rw [List.map_map]
    rfl
  rcases rowsOf_strings t ((getlines ((w.disk.csvFiles.lookup (removeOuterQuotes node.filePath)).getD [])).map
    parseCsvRow) with whole | short
  · rw [← lines] at whole
    change (rowsOf t.schema (allColumns t) (csvRecords w node)).2 = none at whole
    rw [whole] at run
    obtain ⟨rfl, rfl⟩ := caught.of_ok (b := ()) (v := v) (by rw [catchException_run, run]; rfl)
    exact ⟨_, ⟨same, f', idx', held', rows⟩, .csvImport (Prod.ext rfl whole)⟩
  · rw [← lines] at short
    change (rowsOf t.schema (allColumns t) (csvRecords w node)).2 = _ at short
    rw [short] at run
    obtain ⟨⟨_, ⟨⟩⟩, -⟩ := caught.of_error (v := v) (by rw [catchException_run, run]; rfl)

/-! DELETE -/

theorem Held.deleteByKey {env : Env} {node : DeleteNode} (held : Held t node.tableName w f idx)
    (lookup : isUniqueEqualityLookup node.optWhereNode t.pkColName = true) {a : Option Unit}
    (ended : Ended (deleteData env node) w a w') :
    ∃ rows, HeldWith t node.tableName w w' rows ∧
      Effect t.schema w.disk.csvFiles (rowsIn f.records) (.delete node) (answered noResults a) rows := by
  have byKey : byKey t.schema node.optWhereNode = true := (byKey_eq t node.optWhereNode).trans lookup
  obtain ⟨cond, condition, isKey⟩ : ∃ cond, node.optWhereNode = some ⟨cond⟩ ∧ cond.colName = t.pkColName := by
    cases condition : node.optWhereNode with
    | none => rw [condition] at lookup; cases lookup
    | some where_ =>
        rw [condition, isUniqueEqualityLookup, Bool.and_eq_true, beq_iff_eq] at lookup
        exact ⟨where_.condition, rfl, lookup.1⟩
  cases found : idx.lookup (removeOuterQuotes cond.literal.value) with
  | none =>
      obtain ⟨-, rfl, rfl⟩ := ended.of_error (held.toSound.deleteByKey_missing env condition isKey lookup found)
      exact ⟨_, held.self, .deleteKeyStopped byKey⟩
  | some offset =>
      obtain ⟨before, r, after, records, at_, key⟩ := held.keys _ _ found
      obtain ⟨v, same, sound, -, run⟩ := held.toSound.deleteByKey_run env condition isKey lookup found records at_
      have copies : MarkedFrom f.records (before ++ r.marked :: after) := records ▸ .one before after r
      have held' : Held t node.tableName v (f.withRecords (before ++ r.marked :: after)) _ :=
        ⟨sound, (held.keys.marked copies).erase _⟩
      have hasKey : HasKey node.optWhereNode r.row := ⟨cond, condition, congrArg some key⟩
      cases counter : v.ctx.deleteCounterPerTable.lookup node.tableName with
      | none =>
          obtain ⟨⟨e, fault⟩, -⟩ := ended.of_error
            (run.trans (run_bind_error (getDeleteCountForTable_none env counter) _))
          exact absurd fault (missingCounter_ne env e)
      | some count =>
          have counted : SameElsewhere node.tableName v _ := .setCounters _ (1 + count) v
          have held'' : Held t node.tableName _ (f.withRecords (before ++ r.marked :: after)) _ :=
            ⟨held'.toSound.next counted held'.file held'.index held'.places held'.indexed, held'.keys⟩
          obtain ⟨rfl, after_⟩ := held''.compactIfNecessary
            (ended.congr (run.trans ((run_bind_ok (getDeleteCountForTable_some env counter) _).trans rfl)))
          refine ⟨_, after_.behind (same.trans counted), ?_⟩
          rw [TableFile.withRecords_records, records, rowsIn_append, rowsIn_append]
          cases state : r.isTombstone with
          | true =>
              have dead : rowsIn (r.marked :: after) = rowsIn (r :: after) := by
                rw [rowsIn, rowsIn, liveRecords_cons_tombstone (by rfl), liveRecords_cons_tombstone state]
              rw [dead]
              exact .deleteNoKey byKey
          | false =>
              have dead : rowsIn (r.marked :: after) = rowsIn after := by
                rw [rowsIn, liveRecords_cons_tombstone (by rfl)]
                rfl
              have live : rowsIn (r :: after) = r.row :: rowsIn after := by
                rw [rowsIn, liveRecords_cons_live state]
                rfl
              rw [dead, live]
              exact .deleteKey byKey hasKey rfl

theorem Held.deleteData {env : Env} {node : DeleteNode} (held : Held t node.tableName w f idx)
    (column : ColumnKnown t node.optWhereNode) {a : Option Unit} (ended : Ended (deleteData env node) w a w') :
    ∃ rows, HeldWith t node.tableName w w' rows ∧
      Effect t.schema w.disk.csvFiles (rowsIn f.records) (.delete node) (answered noResults a) rows := by
  cases lookup : isUniqueEqualityLookup node.optWhereNode t.pkColName with
  | true => exact held.deleteByKey lookup ended
  | false =>
      have copies := MarkedFrom.scan (deleteMatches t node.optWhereNode)
        (missingFault env w node.tableName) f.records
      have same := SameElsewhere.marking w node.tableName
        (f.withRecords (deleteMarks env w t node f.records).records).bytes
        (deleteMarks env w t node f.records).matched.length
      have held' : Held t node.tableName (markedState w node.tableName f (deleteMarks env w t node f.records))
          (f.withRecords (deleteMarks env w t node f.records).records) idx :=
        ⟨held.toSound.marked copies _, held.keys.marked copies⟩
      have scan : byKey t.schema node.optWhereNode = false := (byKey_eq t node.optWhereNode).trans lookup
      have run := deleteData_sequential env held.registered held.file held.indexed column lookup
      have rows (counted : (deleteMarks env w t node f.records).stop ≠ some (missingCounter env)) :
          sift (namedMatches t.schema node.optWhereNode) (rowsIn f.records) = _ :=
        scanMarks_rows (fun r => (namedMatches_eq column r).symm) counted
      have effect : Effect t.schema w.disk.csvFiles (rowsIn f.records) (.delete node) _ _ := .delete scan
      dsimp only at run
      cases stop : (deleteMarks env w t node f.records).stop with
      | some e =>
          rw [stop] at run
          obtain ⟨⟨e, rfl⟩, rfl, rfl⟩ := ended.of_error run
          have sifted := rows fun fault => missingCounter_ne env e (Option.some.inj (fault.symm.trans stop))
          rw [sifted, show (scanMarks _ _ f.records).stop = _ from stop] at effect
          exact ⟨_, held'.self.behind same, effect⟩
      | none =>
          rw [stop] at run
          obtain ⟨rfl, after⟩ := held'.maintain (ended.congr run)
          have sifted := rows fun fault => by rw [stop] at fault; cases fault
          rw [sifted, show (scanMarks _ _ f.records).stop = _ from stop] at effect
          exact ⟨_, after.behind same, effect⟩

/-! UPDATE -/

theorem Held.updateData {env : Env} {node : UpdateNode} (held : Held t node.tableName w f idx)
    (ready : UpdateReady (n + 1) node.inverseProjMask node.schemaIndexToLiteralMap)
    {rs : List (TableRecord n)} (appended : Appended t .update (allColumns t)
      (updatedRecords node (updateMarks env w node f.records).matched) rs) {a : Option Unit}
    (ended : Ended (updateData env node) w a w') :
    ∃ rows, HeldWith t node.tableName w w' rows ∧
      Effect t.schema w.disk.csvFiles (rowsIn f.records) (.update node) (answered noResults a) rows := by
  have run := updateData_run env held.registered.schema held.file ready
  have copies : MarkedFrom f.records (updateMarks env w node f.records).records :=
    .scan (fun r => whereMatches node.optWhereNode r.row) _ _
  have same : SameElsewhere node.tableName w (markedState w node.tableName f (updateMarks env w node f.records)) :=
    .marking w _ _ _
  have held' : Held t node.tableName (markedState w node.tableName f (updateMarks env w node f.records))
      (f.withRecords (updateMarks env w node f.records).records) idx :=
    ⟨held.toSound.marked copies _, held.keys.marked copies⟩
  have rows (counted : (updateMarks env w node f.records).stop ≠ some (missingCounter env)) :
      sift (whereMatches node.optWhereNode) (rowsIn f.records) = _ :=
    scanMarks_rows (fun _ => rfl) counted
  dsimp only at run
  cases stop : (updateMarks env w node f.records).stop with
  | some e =>
      rw [stop] at run
      obtain ⟨⟨e, rfl⟩, rfl, rfl⟩ := ended.of_error run
      have sifted := rows fun fault => missingCounter_ne env e (Option.some.inj (fault.symm.trans stop))
      have effect : Effect t.schema w.disk.csvFiles (rowsIn f.records) (.update node) .stopped _ :=
        .updateStopped ((congrArg Sifted.stop sifted).trans stop)
      rw [sifted] at effect
      exact ⟨_, held'.self.behind same, effect⟩
  | none =>
      rw [stop] at run
      have sifted := rows fun fault => by rw [stop] at fault; cases fault
      obtain ⟨v, write, same', f', idx', held'', written⟩ := held'.insertRecords env (.inr rfl) appended
      have lines : updatedRecords node (updateMarks env w node f.records).matched =
          (((updateMarks env w node f.records).matched.map fun r => r.row).map (updatedRow node)).map stringRecord := by
        rw [List.map_map, List.map_map]
        rfl
      rcases rowsOf_strings t (((updateMarks env w node f.records).matched.map fun r => r.row).map (updatedRow node))
        with whole | short
      · rw [← lines] at whole
        change (rowsOf t.schema (allColumns t) _).2 = none at whole
        rw [whole] at write
        obtain ⟨rfl, after⟩ := held''.maintain (ended.congr (run.trans (run_bind_ok write _)))
        refine ⟨_, after.behind (same.trans same'), ?_⟩
        rw [written]
        refine .update sifted stop (Prod.ext ?_ ?_)
        · exact congrArg (fun records => (rowsOf t.schema (allTrue t.schema) records).1) (List.map_map ..)
        · refine Eq.trans (congrArg (fun records => (rowsOf t.schema (allTrue t.schema) records).2) ?_) whole
          exact List.map_map ..
      · rw [← lines] at short
        change (rowsOf t.schema (allColumns t) _).2 = _ at short
        rw [short] at write
        obtain ⟨⟨_, ⟨⟩⟩, -⟩ := ended.of_error (run.trans (run_bind_error write _))

/-! SELECT -/

theorem selectData_keeps {env : Env} {node : SelectNode} (held : Held t node.tableName w f idx)
    {a : Option ResultSet} (ended : Ended (selectData env node) w a w') : w' = w := by
  have final := selectData_final env held.file
  cases ended with
  | returned run =>
      rw [run] at final
      exact final
  | thrown run =>
      rw [run] at final
      exact final

/-- The answer of a program of which only the result is known. -/
theorem Ended.of_settle {α : Type} {p : Exec α} {a : Option α} {x : Except Fault α} (h : Ended p w a w')
    (run : outcome (fun _ => ()) (p.run w) = settle x w ()) : (∃ b, x = .ok b ∧ a = some b) ∨ (∃ e, x = .error e) ∧ a = none := by
  cases h with
  | returned run' =>
      rw [run'] at run
      cases x with
      | ok b =>
          cases run
          exact .inl ⟨_, rfl, rfl⟩
      | error e => cases run
  | thrown run' =>
      rw [run'] at run
      cases x with
      | ok b => cases run
      | error e => exact .inr ⟨⟨e, rfl⟩, rfl⟩

/-- The record that the index leads to is a tombstone. -/
theorem selectByIndexLookup_tombstone (env : Env) {before after : List (TableRecord n)} {r : TableRecord n}
    (records : f.records = before ++ r :: after) (dead : r.isTombstone = true) (projectionMask : List Bool)
    (optWhere : Option WhereNode) {offset : Nat} (at_ : offset = f.header.length + (encodeAll before).length + 8) :
    ∃ s, (selectByIndexLookup env t.schema projectionMask optWhere offset).run (atRecords f) = .ok [] s := by
  have start : (offset : Int) - 8 = (f.header ++ encodeAll before).length := by
    simp [at_]
  have parts : (atRecords f).content =
      (f.header ++ encodeAll before) ++ (r.encode ++ encodeAll after) := by
    simp [atRecords, records]
  have read := deserializeNextRecord_tombstone env t r (f.header ++ encodeAll before) (encodeAll after) dead
    projectionMask optWhere
  unfold selectByIndexLookup
  rw [run_bind_ok (seekBeg_split start rfl rfl parts), run_bind_ok read]
  exact ⟨_, rfl⟩

theorem Held.selectByKey {env : Env} {node : SelectNode} (held : Held t node.tableName w f idx)
    (width : node.projectionMask.length = n + 1) (lookup : isUniqueEqualityLookup node.optWhereNode t.pkColName = true)
    {a : Option ResultSet} (ended : Ended (selectData env node) w a w') :
    Effect t.schema w.disk.csvFiles (rowsIn f.records) (.select node) (answered some a) (rowsIn f.records) := by
  have byKey : byKey t.schema node.optWhereNode = true := (byKey_eq t node.optWhereNode).trans lookup
  obtain ⟨cond, condition⟩ : ∃ cond, node.optWhereNode = some ⟨cond⟩ := by
    cases condition : node.optWhereNode with
    | none => rw [condition] at lookup; cases lookup
    | some where_ => exact ⟨where_.condition, rfl⟩
  have start := selectData_keyed env held.registered.schema held.file held.index condition lookup
  cases found : idx.lookup (removeOuterQuotes cond.literal.value) with
  | none =>
      rw [Map.at, found, run_bind_error (run_lift_error _ _)] at start
      obtain ⟨-, rfl, -⟩ := ended.of_error start
      exact .selectKeyStopped byKey
  | some offset =>
      obtain ⟨before, r, after, records, at_, key⟩ := held.keys _ _ found
      rw [Map.at_of_lookup found, run_bind_ok (run_lift_ok _ _)] at start
      obtain ⟨read, rfl, looked⟩ := (ended.congr start).of_return
      cases state : r.isTombstone with
      | true =>
          obtain ⟨s, run⟩ := selectByIndexLookup_tombstone (t := t) env records state node.projectionMask
            node.optWhereNode at_
          obtain ⟨rfl, -⟩ := looked.of_ok (runStream_ok run w)
          exact .selectNoKey byKey
      | false =>
          have mem : r.row ∈ rowsIn f.records :=
            List.mem_map_of_mem (mem_liveRecords.mpr ⟨by rw [records]; simp, state⟩)
          obtain ⟨s', run⟩ := selectByIndexLookup_record (t := t) env records state width node.optWhereNode at_
          cases answer : whereMatches node.optWhereNode r.row with
          | error e =>
              rw [answer] at run
              cases read : (selectByIndexLookup env t.schema node.projectionMask node.optWhereNode offset).run
                  (atRecords f) with
              | ok results s => rw [read] at run; cases run
              | error e s =>
                  obtain ⟨-, rfl, -⟩ := looked.of_error (runStream_error read w)
                  exact .selectKeyStopped byKey
          | ok b =>
              rw [answer] at run
              cases read : (selectByIndexLookup env t.schema node.projectionMask node.optWhereNode offset).run
                  (atRecords f) with
              | error e s => rw [read] at run; cases run
              | ok results s =>
                  obtain ⟨rfl, -⟩ := looked.of_ok (runStream_ok read w)
                  rw [read] at run
                  cases b with
                  | false =>
                      cases run
                      exact .selectNoKey byKey
                  | true =>
                      cases run
                      exact .selectKey byKey mem ⟨cond, condition, congrArg some key⟩ answer

theorem Held.selectData {env : Env} {node : SelectNode} (held : Held t node.tableName w f idx)
    (width : node.projectionMask.length = n + 1) {a : Option ResultSet} (ended : Ended (selectData env node) w a w') :
    w' = w ∧ Effect t.schema w.disk.csvFiles (rowsIn f.records) (.select node) (answered some a) (rowsIn f.records) := by
  refine ⟨selectData_keeps held ended, ?_⟩
  cases lookup : isUniqueEqualityLookup node.optWhereNode t.pkColName with
  | true => exact held.selectByKey width lookup ended
  | false =>
      have scan : byKey t.schema node.optWhereNode = false := (byKey_eq t node.optWhereNode).trans lookup
      have run := selectData_sequential env held.registered.schema held.file width lookup
      rw [selectedRows_sift] at run
      cases stop : (sift (whereMatches node.optWhereNode) (rowsIn f.records)).stop with
      | some e =>
          rw [stop] at run
          rcases ended.of_settle run with ⟨_, ⟨⟩, -⟩ | ⟨-, rfl⟩
          exact .selectStopped scan stop
      | none =>
          rw [stop] at run
          rcases ended.of_settle run with ⟨_, ⟨⟩, rfl⟩ | ⟨⟨_, ⟨⟩⟩, -⟩
          exact .select scan stop rfl

end Jssql.FileHandler
