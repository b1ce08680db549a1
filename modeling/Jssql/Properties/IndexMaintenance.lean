import Jssql.Theory.Appending

/-!
The index in memory is kept up to date record by record where statements add or
delete by key. It stays the index that `extractPrimaryKeysIndex` reads from the
file: the offset noted between the length and the type byte of a record being
written is the one a walk over the whole file comes to.
-/
namespace Jssql.FileHandler
open Foundation Foundation.Stream

variable {n : Nat} {w : World} {table : Bytes}

/-! Insertion -/

/-- A batch with new and distinct keys leaves the index equal to the rebuilt one,
also when a value that cannot be computed stops it. -/
theorem insertData_index (env : Env) {t : TableSchema n} {f : TableFile n}
    (known : Registered w.ctx table t) (file : HasFile w table f)
    (index : HasIndex w table t f.index) {node : InsertNode} (of : node.tableName = table)
    {rs : List (TableRecord n)} (appended : Appended t .insert node.projectionMask node.records rs)
    (distinct : (rs.map fun r => r.pkLiteral).Nodup) (new : ∀ r ∈ rs, r.pkLiteral ∉ f.index) :
    HasFile (finalState ((insertData env node).run w)) table
        (f.withRecords (f.records ++ rs)) ∧
      HasIndex (finalState ((insertData env node).run w)) table t
        (f.withRecords (f.records ++ rs)).index := by
  obtain ⟨columns, hc, hi⟩ := index
  have run := insertRecords_appended env file known hc hi (.inl rfl) appended
  rw [index_appended f distinct new appended.live] at run
  have whole : finalState ((insertData env node).run w) =
      withTable w table (f.withRecords (f.records ++ rs)).bytes
        (columns.insert t.pkColName (f.withRecords (f.records ++ rs)).index) := by
    unfold insertData
    rw [of, run_bind_ok (ensureTableFileExists_run file), run]
    cases (writtenRecords t .insert node.projectionMask node.records).2 <;> rfl
  rw [whole]
  exact ⟨Finmap.lookup_insert _, _, Finmap.lookup_insert _, Finmap.lookup_insert _⟩

/-! Deletion -/

/-- Deleting a key of the index takes it out of the file and out of the index. -/
theorem performDeleteByIndexLookup_index (env : Env) {t : TableSchema n} {f : TableFile n}
    (index : HasIndex w table t f.index) (distinct : DistinctKeys f.records) {node : DeleteNode}
    (of : node.tableName = table) {cond : ConditionNode} (isKey : cond.colName = t.pkColName)
    (present : removeOuterQuotes cond.literal.value ∈ f.index) :
    ∃ before r after s' w', f.records = before ++ r :: after ∧ r.isTombstone = false ∧
      r.pkLiteral = removeOuterQuotes cond.literal.value ∧
      (performDeleteByIndexLookup env node cond (atRecords f)).run w = .ok s' w' ∧
      HasFile w' table (f.withRecords (before ++ r.marked :: after)) ∧
      HasIndex w' table t (f.withRecords (before ++ r.marked :: after)).index ∧
      (f.withRecords (before ++ r.marked :: after)).index =
        f.index.erase (removeOuterQuotes cond.literal.value) := by
  obtain ⟨columns, hc, hi⟩ := index
  obtain ⟨offset, found⟩ := Finmap.mem_iff.mp present
  obtain ⟨before, r, after, records, live, key, at_⟩ := f.index_split found
  subst of
  obtain ⟨s', run⟩ := performDeleteByIndexLookup_run env isKey hc hi found records at_
  have erased := index_mark records live distinct
  rw [← key, ← erased] at run
  refine ⟨before, r, after, s', _, records, live, key, run, Finmap.lookup_insert _,
    ⟨_, Finmap.lookup_insert _, Finmap.lookup_insert _⟩, ?_⟩
  rw [erased, key]

/-- Incremental maintenance refines the rebuild. -/
theorem incrementalIndex_refines_rebuild (env : Env) (t : TableSchema n) (f : TableFile n)
    (known : Registered w.ctx table t) (file : HasFile w table f)
    (rebuilt : IndexIsRebuilt env w table t) :
    (∀ (node : InsertNode) (keys : List Bytes), node.tableName = table →
      node.records.mapM (serializedKey t) = .ok keys → keys.Nodup → (∀ key ∈ keys, key ∉ f.index) →
      (∀ r ∈ (writtenRecords t .insert node.projectionMask node.records).1,
        r.recordLength < 2 ^ 63) →
      ∃ rs, HasFile (finalState ((insertData env node).run w)) table
          (f.withRecords (f.records ++ rs)) ∧
        IndexIsRebuilt env (finalState ((insertData env node).run w)) table t) ∧
    (DistinctKeys f.records → ∀ (node : DeleteNode) (cond : ConditionNode), node.tableName = table →
      cond.colName = t.pkColName → removeOuterQuotes cond.literal.value ∈ f.index →
      ∃ s' w', (performDeleteByIndexLookup env node cond (atRecords f)).run w = .ok s' w' ∧
        IndexIsRebuilt env w' table t) := by
  have index := (indexIsRebuilt_iff file).mp rebuilt
  constructor
  · intro node keys of batch distinct new fits
    obtain ⟨rs, appended⟩ := writtenRecords_appended (.inl rfl) node.records fits
    have written := writtenRecords_keys .insert node.projectionMask node.records batch
    rw [← appended.stored, List.map_map] at written
    obtain ⟨file', index'⟩ := insertData_index env known file index of appended
      (written.sublist.nodup distinct)
      fun r hr => new _ (written.subset (List.mem_map_of_mem hr))
    exact ⟨rs, file', (indexIsRebuilt_iff file').mpr index'⟩
  · intro distinct node cond of isKey present
    obtain ⟨before, r, after, s', w', _, _, _, run, file', index', _⟩ :=
      performDeleteByIndexLookup_index env index distinct of isKey present
    exact ⟨s', w', run, (indexIsRebuilt_iff file').mpr index'⟩

theorem incrementalIndex_refines_rebuild_pair :
    let file := pairFile [ascii "1", ascii "2"] (ascii "x") (by decide)
    let world := singleTable (ascii "people") pairSchema file ∅
    let insert : InsertNode := ⟨ascii "people", none,
      [[some ⟨.number, ascii "3"⟩, some ⟨.string, ascii "'y'"⟩]], [true, true]⟩
    let cond : ConditionNode := ⟨ascii "id", .eq, ⟨.number, ascii "1"⟩, 0⟩
    (∃ rs, HasFile (finalState ((insertData ⟨false, id⟩ insert).run world)) (ascii "people")
        (file.withRecords (file.records ++ rs)) ∧
      IndexIsRebuilt ⟨false, id⟩ (finalState ((insertData ⟨false, id⟩ insert).run world))
        (ascii "people") pairSchema) ∧
    ∃ s' w', (performDeleteByIndexLookup ⟨false, id⟩ ⟨ascii "people", some ⟨cond⟩⟩ cond
        (atRecords file)).run world = .ok s' w' ∧
      IndexIsRebuilt ⟨false, id⟩ w' (ascii "people") pairSchema := by
  intro file world insert cond
  have keys : (liveRecords file.records).map (fun r => r.pkLiteral) = [ascii "1", ascii "2"] :=
    pairFile_keys _ _ _
  have refines := incrementalIndex_refines_rebuild ⟨false, id⟩ pairSchema file
    (singleTable_registered (ascii "people") pairSchema file ∅)
    (singleTable_hasFile (ascii "people") pairSchema file ∅)
    ((indexIsRebuilt_iff (singleTable_hasFile (ascii "people") pairSchema file ∅)).mpr
      (singleTable_hasIndex (ascii "people") pairSchema file ∅))
  constructor
  · refine refines.1 insert [ascii "3"] rfl rfl (by decide) ?_ (by decide)
    intro key hk
    rw [file.mem_index, keys]
    exact (show ∀ key ∈ [ascii "3"], key ∉ [ascii "1", ascii "2"] by decide) key hk
  · refine refines.2 ?_ _ cond rfl rfl ?_
    · rw [DistinctKeys, keys]
      decide
    · rw [file.mem_index, keys]
      decide

end Jssql.FileHandler
