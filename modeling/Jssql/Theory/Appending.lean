import Jssql.Theory.IndexLookup

/-!
The records that a batch appends to a table file. Written records are live
records of the table, in the order of the batch, up to the first one whose
values cannot be computed. The index in memory takes their keys at the offsets
at which they stand in the extended file.
-/
namespace Jssql.FileHandler
open Foundation Foundation.Stream

variable {n : Nat} {t : TableSchema n} {type : RecordType} {projectionMask : List Bool}

/-- The records in a file that a batch has been written as. -/
structure Appended (t : TableSchema n) (type : RecordType) (projectionMask : List Bool)
    (records : List ValueRecordNode) (rs : List (TableRecord n)) : Prop where
  stored : rs.map (fun r => r.toStoredRecord) = (writtenRecords t type projectionMask records).1
  live : ∀ r ∈ rs, r.isTombstone = false
  indexed : ∀ r ∈ rs, IndexedBy t.payloadCodes r

theorem writtenRecord_ok {record : ValueRecordNode} {r : StoredRecord}
    (h : writtenRecord t type projectionMask record = .ok r) :
    ∃ key values, serializedKey t record = .ok key ∧
      payloadValues record projectionMask t.pkIdx 0 t.schema = .ok values ∧ values.length = n ∧
      r = storedRecord t type key values := by
  unfold writtenRecord at h
  cases hk : serializedKey t record with
  | error e => rw [hk] at h; cases h
  | ok key =>
      cases hv : payloadValues record projectionMask t.pkIdx 0 t.schema with
      | error e => rw [hk, hv] at h; cases h
      | ok values =>
          rw [hk, hv] at h
          cases h
          exact ⟨key, values, rfl, rfl, length_payloadValues_schema t hv, rfl⟩

theorem storedRecord_isTombstone (kind : type = .insert ∨ type = .update) (key : Bytes)
    (values : List Bytes) : (storedRecord t type key values).isTombstone = false := by
  rcases kind with rfl | rfl <;> rfl

theorem writtenRecords_appended (kind : type = .insert ∨ type = .update)
    (records : List ValueRecordNode)
    (fits : ∀ r ∈ (writtenRecords t type projectionMask records).1, r.recordLength < 2 ^ 63) :
    ∃ rs, Appended t type projectionMask records rs := by
  induction records with
  | nil => exact ⟨[], rfl, by simp, by simp⟩
  | cons record records ih =>
      cases hr : writtenRecord t type projectionMask record with
      | error e => exact ⟨[], by simp [writtenRecords, hr], by simp, by simp⟩
      | ok r =>
          simp only [writtenRecords, hr, List.mem_cons, forall_eq_or_imp] at fits
          obtain ⟨rs, stored, live, indexed⟩ := ih fits.2
          obtain ⟨key, values, _, _, width, rfl⟩ := writtenRecord_ok hr
          refine ⟨tableRecord t type key values width fits.1 :: rs, ?_, ?_, ?_⟩
          · simp only [writtenRecords, hr, List.map_cons, stored]
            rfl
          · intro s hs
            rcases List.mem_cons.mp hs with rfl | hs
            · exact storedRecord_isTombstone kind key values
            · exact live s hs
          · intro s hs
            rcases List.mem_cons.mp hs with rfl | hs
            · exact tableRecord_indexedBy t type key values width fits.1
            · exact indexed s hs

variable (type projectionMask) in
/-- The keys written are those of the batch, as far as it came. -/
theorem writtenRecords_keys (records : List ValueRecordNode) : ∀ {keys : List Bytes},
    records.mapM (serializedKey t) = .ok keys →
      (writtenRecords t type projectionMask records).1.map (fun r => r.pkLiteral) <+: keys := by
  induction records with
  | nil => intro keys h; exact List.nil_prefix
  | cons record records ih =>
      intro keys h
      rw [List.mapM_cons] at h
      cases hk : serializedKey t record with
      | error e => rw [hk] at h; cases h
      | ok key =>
          cases hks : records.mapM (serializedKey t) with
          | error e => rw [hk, hks] at h; cases h
          | ok rest =>
              rw [hk, hks] at h
              cases h
              cases hr : writtenRecord t type projectionMask record with
              | error e => simp [writtenRecords, hr]
              | ok r =>
                  obtain ⟨key', values, hk', _, _, rfl⟩ := writtenRecord_ok hr
                  rw [hk, Except.ok.injEq] at hk'
                  subst hk'
                  simpa [writtenRecords, hr, storedRecord] using ih hks

variable (t type projectionMask) in
/-- The records before the first that cannot be computed are written with their keys. -/
theorem writtenRecords_front (records : List ValueRecordNode) : ∃ batch rest, records = batch ++ rest ∧
    List.Forall₂ (fun record key => ∃ r, writtenRecord t type projectionMask record = .ok r ∧ r.pkLiteral = key)
      batch ((writtenRecords t type projectionMask records).1.map fun r => r.pkLiteral) := by
  induction records with
  | nil => exact ⟨[], [], rfl, .nil⟩
  | cons record records ih =>
      obtain ⟨batch, rest, whole, keys⟩ := ih
      rw [writtenRecords]
      cases written : writtenRecord t type projectionMask record with
      | error e => exact ⟨[], record :: records, rfl, .nil⟩
      | ok r => exact ⟨record :: batch, rest, congrArg (record :: ·) whole, .cons ⟨r, written, rfl⟩ keys⟩

/-- No more of them than those. -/
theorem keys_prefix_writtenRecords {records : List ValueRecordNode} : ∀ {batch rest : List ValueRecordNode}
    {keys : List Bytes}, records = batch ++ rest →
      List.Forall₂ (fun record key => ∃ r, writtenRecord t type projectionMask record = .ok r ∧ r.pkLiteral = key)
        batch keys →
      keys <+: (writtenRecords t type projectionMask records).1.map fun r => r.pkLiteral := by
  induction records with
  | nil =>
      intro batch rest keys whole each
      obtain ⟨rfl, -⟩ := List.nil_eq_append_iff.mp whole
      cases each
      exact List.nil_prefix
  | cons record records ih =>
      intro batch rest keys whole each
      cases each with
      | nil => exact List.nil_prefix
      | @cons first key batch keys head tail =>
          obtain ⟨rfl, later⟩ := List.cons.inj whole
          obtain ⟨r, written, rfl⟩ := head
          rw [writtenRecords, written]
          exact List.cons_prefix_cons.mpr ⟨rfl, ih later tail⟩

theorem writtenRecords_complete_iff (records : List ValueRecordNode) :
    (writtenRecords t type projectionMask records).2 = none ↔
      ∀ record ∈ records, ∃ r, writtenRecord t type projectionMask record = .ok r := by
  induction records with
  | nil => simp [writtenRecords]
  | cons record records ih =>
      rw [writtenRecords, List.forall_mem_cons]
      cases written : writtenRecord t type projectionMask record with
      | error e => simp
      | ok r => simpa using ih

theorem writtenRecords_all {records : List ValueRecordNode}
    (complete : (writtenRecords t type projectionMask records).2 = none) :
    List.Forall₂ (fun record r => writtenRecord t type projectionMask record = .ok r) records
      (writtenRecords t type projectionMask records).1 := by
  induction records with
  | nil => exact .nil
  | cons record records ih =>
      rw [writtenRecords] at complete ⊢
      cases written : writtenRecord t type projectionMask record with
      | error e =>
          rw [written] at complete
          cases complete
      | ok r =>
          rw [written] at complete
          exact .cons written (ih complete)

/-- A batch that stops has the fault of one of its records. -/
theorem mem_of_writtenRecords_stop {records : List ValueRecordNode} {e : Fault}
    (stop : (writtenRecords t type projectionMask records).2 = some e) :
    ∃ record ∈ records, writtenRecord t type projectionMask record = .error e := by
  induction records with
  | nil => cases stop
  | cons record records ih =>
      rw [writtenRecords] at stop
      cases written : writtenRecord t type projectionMask record with
      | error e' =>
          rw [written] at stop
          cases stop
          exact ⟨record, List.mem_cons_self, written⟩
      | ok r =>
          rw [written] at stop
          obtain ⟨record', mem, failed⟩ := ih stop
          exact ⟨record', List.mem_cons_of_mem _ mem, failed⟩

/-- It has written nothing if and only if the first record failed. -/
theorem writtenRecords_nil_iff {records : List ValueRecordNode} {e : Fault}
    (stop : (writtenRecords t type projectionMask records).2 = some e) :
    (writtenRecords t type projectionMask records).1 = [] ↔
      ∃ first rest, records = first :: rest ∧ ¬ ∃ r, writtenRecord t type projectionMask first = .ok r := by
  cases records with
  | nil => cases stop
  | cons record records =>
      rw [writtenRecords]
      cases written : writtenRecord t type projectionMask record with
      | error e' =>
          refine iff_of_true rfl ⟨record, records, rfl, ?_⟩
          rintro ⟨r, ok⟩
          rw [written] at ok
          cases ok
      | ok r =>
          refine iff_of_false (List.cons_ne_nil _ _) ?_
          rintro ⟨first, rest, same, failed⟩
          cases same
          exact failed ⟨r, written⟩

theorem upsertAll_eq_insertAll (rs : List (TableRecord n)) (live : ∀ r ∈ rs, r.isTombstone = false) :
    ∀ (start : Nat) (idx : Index), upsertAll start (rs.map fun r => r.toStoredRecord) idx =
      insertAll idx (liveEntries start rs) := by
  induction rs with
  | nil => intro start idx; rfl
  | cons r rest ih =>
      intro start idx
      have head : r.isTombstone = false := live r (by simp)
      have tail := ih fun s hs => live s (by simp [hs])
      rw [List.map_cons, upsertAll, tail, liveEntries, if_neg (by simp [head])]
      rfl

theorem flatMap_encode (rs : List (TableRecord n)) :
    (rs.map fun r => r.toStoredRecord).flatMap StoredRecord.encode = encodeAll rs := by
  rw [List.flatMap_map]
  rfl

/-- Inserting a batch: the records are appended and their keys entered, and a value
that cannot be computed stops the batch behind the records before it. -/
theorem insertRecords_appended (env : Env) {w : World} {table : Bytes} {f : TableFile n}
    (file : HasFile w table f) (known : Registered w.ctx table t) {columns : Map Bytes Index}
    {idx : Index} (hc : w.ctx.indices.lookup table = some columns)
    (hi : columns.lookup t.pkColName = some idx) (kind : type = .insert ∨ type = .update)
    {records : List ValueRecordNode} {rs : List (TableRecord n)}
    (appended : Appended t type projectionMask records rs) :
    (insertRecords env table projectionMask type records).run w =
      stopped (writtenRecords t type projectionMask records).2
        (withTable w table (f.withRecords (f.records ++ rs)).bytes
          (columns.insert t.pkColName (insertAll idx (liveEntries f.bytes.length rs)))) := by
  have run := insertRecords_run env t known kind projectionMask records f.bytes columns idx hi
  simp only [withTable_self file hc, ← appended.stored, flatMap_encode,
    upsertAll_eq_insertAll rs appended.live] at run
  rw [run]
  simp [TableFile.bytes]

/-- New and distinct keys keep the index equal to the one read from the file. -/
theorem index_appended (f : TableFile n) {rs : List (TableRecord n)}
    (distinct : (rs.map fun r => r.pkLiteral).Nodup) (new : ∀ r ∈ rs, r.pkLiteral ∉ f.index)
    (live : ∀ r ∈ rs, r.isTombstone = false) :
    insertAll f.index (liveEntries f.bytes.length rs) =
      (f.withRecords (f.records ++ rs)).index := by
  have all : liveRecords rs = rs := List.filter_eq_self.mpr fun r hr => by simp [isLive, live r hr]
  have keys := map_fst_liveEntries rs f.bytes.length
  rw [all] at keys
  rw [f.index_append, ← f.length_bytes]
  refine insertAll_eq_insertAllNew _ _ (keys ▸ distinct) ?_
  intro entry he
  have mem : entry.1 ∈ rs.map fun r => r.pkLiteral := keys ▸ List.mem_map_of_mem he
  obtain ⟨r, hr, same⟩ := List.mem_map.mp mem
  rw [← same]
  exact new r hr

/-! A database with one table -/

/-- The state with this table alone, its index as the file has it. -/
def singleTable (table : Bytes) (t : TableSchema n) (f : TableFile n) (counters : Map Bytes Nat) :
    World where
  disk := {
    metadata := some (AList.insert table (some (metadataText t.schema)) ∅)
    tableFiles := Finmap.insert table f.bytes ∅
    newTableFiles := ∅
    csvFiles := ∅ }
  ctx := {
    untypedTables := Finmap.insert table t.schema ∅
    tableColcodes := Finmap.insert table (columnCodes t.schema) ∅
    indices := Finmap.insert table (Finmap.insert t.pkColName f.index ∅) ∅
    deleteCounterPerTable := counters }

section SingleTable

variable (table : Bytes) (t : TableSchema n) (f : TableFile n) (counters : Map Bytes Nat)

theorem singleTable_hasFile : HasFile (singleTable table t f counters) table f :=
  Finmap.lookup_insert _

theorem singleTable_registered : Registered (singleTable table t f counters).ctx table t :=
  ⟨Finmap.lookup_insert _, Finmap.lookup_insert _⟩

theorem singleTable_hasIndex : HasIndex (singleTable table t f counters) table t f.index :=
  ⟨_, Finmap.lookup_insert _, Finmap.lookup_insert _⟩

end SingleTable

/-- A schema with the key first and one column more. -/
def pairSchema : TableSchema 1 where
  schema := [⟨ascii "id", [ascii "PRIMARY KEY"]⟩, ⟨ascii "name", []⟩]
  pkColName := ascii "id"
  width := rfl
  few := by decide
  key := by decide

theorem pairRecord_fits (key value : Bytes) (short : key.length + value.length < 2 ^ 62) :
    (storedRecord pairSchema .insert key [value]).recordLength < 2 ^ 63 := by
  rw [recordLength_storedRecord pairSchema rfl]
  simp only [List.map_cons, List.map_nil, List.sum_cons, List.sum_nil, columnOffsetSize]
  omega

/-- A record of that schema as `INSERT` writes it. -/
def pairRecord (key value : Bytes) (short : key.length + value.length < 2 ^ 62) : TableRecord 1 :=
  tableRecord pairSchema .insert key [value] List.length_singleton (pairRecord_fits key value short)

/-- The table file with records of these keys, one value for all. -/
def pairFile (keys : List Bytes) (value : Bytes)
    (short : ∀ key ∈ keys, key.length + value.length < 2 ^ 62) : TableFile 1 :=
  TableFile.fresh (keys.attach.map fun key => pairRecord key.1 value (short key.1 key.2))

theorem pairFile_keys (keys : List Bytes) (value : Bytes)
    (short : ∀ key ∈ keys, key.length + value.length < 2 ^ 62) :
    (liveRecords (pairFile keys value short).records).map (fun r => r.pkLiteral) = keys := by
  have all : liveRecords (pairFile keys value short).records =
      (pairFile keys value short).records := List.filter_eq_self.mpr fun r hr => by
    obtain ⟨key, _, rfl⟩ := List.mem_map.mp hr
    rfl
  have key (k : { key // key ∈ keys }) :
      (pairRecord k.1 value (short k.1 k.2)).pkLiteral = k.1 := rfl
  rw [all]
  simp [pairFile, TableFile.fresh, Function.comp_def, key]

theorem pairFile_indexed (keys : List Bytes) (value : Bytes)
    (short : ∀ key ∈ keys, key.length + value.length < 2 ^ 62) :
    ∀ r ∈ (pairFile keys value short).records, IndexedBy pairSchema.payloadCodes r := by
  intro r hr
  obtain ⟨key, -, rfl⟩ := List.mem_map.mp hr
  exact tableRecord_indexedBy ..

end Jssql.FileHandler
