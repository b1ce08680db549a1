import Jssql.Theory.SelectRuns

/-!
Compaction keeps the live records, each byte for byte and in their order, behind
a fresh header. The rows of a scan are a function of the live records, so no scan
sees the difference, and a file without tombstones is its own compaction.
-/
namespace Jssql.FileHandler
open Foundation SemanticNormalizer SemanticValidator StrategyDecider InterpreterVisitor

variable {n : Nat}

/-- Tombstones do not show in the rows of a scan. -/
theorem selectedRows_liveRecords (projectionMask : List Bool) (optWhere : Option WhereNode)
    (rs : List (TableRecord n)) : selectedRows projectionMask optWhere (liveRecords rs) =
      selectedRows projectionMask optWhere rs := by
  have fold : ∀ rows, (liveRecords rs).foldlM (selectStep projectionMask optWhere) rows =
      rs.foldlM (selectStep projectionMask optWhere) rows := by
    induction rs with
    | nil => intro rows; rfl
    | cons r rest ih =>
        intro rows
        cases state : r.isTombstone with
        | true =>
            have gone : liveRecords (r :: rest) = liveRecords rest :=
              List.filter_cons_of_neg (by simp [isLive, state])
            rw [gone, ih, List.foldlM_cons, selectStep, if_pos state]
            rfl
        | false =>
            have kept : liveRecords (r :: rest) = r :: liveRecords rest :=
              List.filter_cons_of_pos (by simp [isLive, state])
            rw [kept, List.foldlM_cons, List.foldlM_cons]
            exact bind_congr ih
  exact fold []

/-- The table after a compaction answers every scan as before. -/
theorem visitSelect_compacted (env : Env) {w : World} {table : Bytes} {t : TableSchema n}
    {f : TableFile n} (known : w.ctx.untypedTables.lookup table = some t.schema)
    (file : HasFile w table f) {node : SelectNode} (of : node.tableName = table)
    (scan : isUniqueEqualityLookup node.optWhereNode t.pkColName = false) :
    result ((visitSelect env node).run
        (w.setTableFile table (TableFile.fresh (liveRecords f.records)).bytes)) =
      result ((visitSelect env node).run w) := by
  subst of
  let w' := w.setTableFile node.tableName (TableFile.fresh (liveRecords f.records)).bytes
  have file' : HasFile w' node.tableName (TableFile.fresh (liveRecords f.records)) :=
    Finmap.lookup_insert _
  have known' : w'.ctx.untypedTables.lookup node.tableName = some t.schema := known
  rw [visitSelect_run, visitSelect_run, World.setTableFile_ctx]
  cases hn : normalizeSelect node w.ctx.untypedTables with
  | mk node' ok =>
      cases validateSelectSemantics node' w.ctx with
      | error e => rfl
      | ok verdict =>
          dsimp only
          cases hok : ok with
          | false => simp
          | true =>
              cases verdict with
              | some report => rfl
              | none =>
                  subst hok
                  obtain ⟨name, _, width, _, where_⟩ := normalizeSelect_ok known hn
                  rw [t.width] at width
                  have scan' := (isUniqueEqualityLookup_normalized where_ t.pkColName).trans scan
                  rw [← name] at known known' file file'
                  have old := result_of_outcome (selectData_sequential env known file width scan')
                  have new := result_of_outcome (selectData_sequential env known' file' width scan')
                  rw [TableFile.fresh, selectedRows_liveRecords, ← old] at new
                  have rows (v : World) : result ((do
                      let results ← selectData env node'
                      return { rows := some results } : Exec Response).run v) =
                      (result ((selectData env node').run v)).map fun results =>
                        { rows := some results } := by
                    rw [EStateM.run_bind]
                    cases (selectData env node').run v <;> rfl
                  rw [if_neg (by simp), if_neg (by simp), rows, rows]
                  exact congrArg _ new

/-- Compaction is exact and invisible. -/
theorem compactTable_exact (env : Env) (w : World) (table : Bytes) (t : TableSchema n)
    (f : TableFile n) (known : w.ctx.untypedTables.lookup table = some t.schema)
    (file : HasFile w table f) (noNewFile : w.disk.newTableFiles.lookup table = none) :
    let f' : TableFile n := TableFile.fresh (liveRecords f.records)
    let w' := w.setTableFile table f'.bytes
    (compactTable env table).run w = .ok () w' ∧
      f'.bytes = tableFileHeader ++ (f.records.filter isLive).flatMap (fun r => r.encode) ∧
      (∀ r ∈ f'.records, r.isTombstone = false) ∧
      (∀ node : SelectNode, node.tableName = table →
        isUniqueEqualityLookup node.optWhereNode t.pkColName = false →
        result ((visitSelect env node).run w') = result ((visitSelect env node).run w)) ∧
      (compactTable env table).run w' = .ok () w' := by
  intro f' w'
  have file' : HasFile w' table f' := Finmap.lookup_insert _
  refine ⟨compactTable_run env t f file known noNewFile, rfl, liveRecords_live f.records,
    fun node of scan => visitSelect_compacted env known file of scan, ?_⟩
  have again := compactTable_run env t f' file' known noNewFile
  have same : TableFile.fresh (liveRecords f'.records) = f' := by
    simp only [f', TableFile.fresh, liveRecords_idem]
  rw [same, setTableFile_of_lookup file'] at again
  exact again

theorem compactTable_exact_pair :
    let records := (pairFile [ascii "1", ascii "2"] (ascii "x") (by decide)).records
    let file : TableFile 1 := TableFile.fresh (records.map TableRecord.marked ++ records)
    let world := singleTable (ascii "people") pairSchema file ∅
    let compacted := world.setTableFile (ascii "people") (TableFile.fresh records).bytes
    (compactTable ⟨false, id⟩ (ascii "people")).run world = .ok () compacted ∧
      (compactTable ⟨false, id⟩ (ascii "people")).run compacted = .ok () compacted := by
  intro records file world compacted
  have live : liveRecords file.records = records := by
    have dead : (records.map TableRecord.marked).filter isLive = [] := by
      simp [isLive]
    have all : records.filter isLive = records := List.filter_eq_self.mpr fun r hr => by
      obtain ⟨key, _, rfl⟩ := List.mem_map.mp hr
      rfl
    change (records.map TableRecord.marked ++ records).filter isLive = records
    rw [List.filter_append, dead, all]
    rfl
  have exact_ := compactTable_exact ⟨false, id⟩ world (ascii "people") pairSchema file
    (Finmap.lookup_insert _) (Finmap.lookup_insert _) rfl
  rw [live] at exact_
  exact ⟨exact_.1, exact_.2.2.2.2⟩

end Jssql.FileHandler
