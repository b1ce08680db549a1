import Jssql.Theory.Statements

/-!
The construction of the context. Its loops go over the tables that the metadata
directory lists and treat each by itself, so whether it succeeds, and what it
makes of a table, depends on the table's metadata text and file alone.
-/
namespace Jssql.FileHandler
open Foundation Foundation.Stream

/-- What the state has of one table. -/
structure TableState where
  schema : Option Schema
  colcodes : Option (Map Bytes UInt8)
  index : Option (Map Bytes Index)
  counter : Option Nat
  file : Option Bytes

def tableState (table : Bytes) (w : World) : TableState where
  schema := w.ctx.untypedTables.lookup table
  colcodes := w.ctx.tableColcodes.lookup table
  index := w.ctx.indices.lookup table
  counter := w.ctx.deleteCounterPerTable.lookup table
  file := w.disk.tableFiles.lookup table

/-- The metadata text of a table that the directory lists. -/
def listed (disk : Disk) (table : Bytes) : Option Bytes :=
  ((disk.metadata.getD ∅).lookup table).join

/-! One table -/

/-- The key column and the index that are read from the content of a table file. -/
def loadedIndex (env : Env) (schema : Schema) (content : Bytes) : Except Fault (Bytes × Index) :=
  match (checkFileValidity env true).run (.opened content) with
  | .error e _ => .error e
  | .ok _ stream => do
      let pkColName ← extractPrimaryKeyColumn schema
      let idx ← result ((extractPrimaryKeysIndex (columnsWithoutPk schema)).run stream)
      return (pkColName, idx)

theorem loadedIndex_eq_ok {env : Env} {schema : Schema} {content pkColName : Bytes} {idx : Index} :
    loadedIndex env schema content = .ok (pkColName, idx) ↔ ∃ s s',
      (checkFileValidity env true).run (.opened content) = .ok () s ∧
      extractPrimaryKeyColumn schema = .ok pkColName ∧
      (extractPrimaryKeysIndex (columnsWithoutPk schema)).run s = .ok idx s' := by
  rw [loadedIndex]
  constructor
  · intro entry
    cases check : (checkFileValidity env true).run (.opened content) with
    | error e s => rw [check] at entry; cases entry
    | ok _ s =>
        rw [check] at entry
        dsimp only at entry
        cases key : extractPrimaryKeyColumn schema with
        | error e => rw [key] at entry; cases entry
        | ok name =>
            cases extract : (extractPrimaryKeysIndex (columnsWithoutPk schema)).run s with
            | error e s' => rw [key, extract] at entry; cases entry
            | ok idx' s' =>
                rw [key, extract] at entry
                cases entry
                exact ⟨s, s', rfl, rfl, extract⟩
  · rintro ⟨s, s', check, key, extract⟩
    rw [check, key]
    dsimp only
    rw [extract]
    rfl

/-- Of a well-formed file the index is the one that its records determine. -/
theorem loadedIndex_file (env : Env) {n : Nat} (t : TableSchema n) (f : TableFile n) :
    loadedIndex env t.schema f.bytes = .ok (t.pkColName, f.index) := by
  have read : (extractPrimaryKeysIndex (columnsWithoutPk t.schema)).run (atRecords f) =
      .ok f.index (exhausted f.bytes) := by
    have read := extractPrimaryKeysIndex_records f.header f.records
    rw [f.header_length] at read
    rw [t.columnsWithoutPk_eq]
    exact read
  exact loadedIndex_eq_ok.mpr ⟨_, _, checkFileValidity_file env true f, t.key, read⟩

/-- The codes of the table's columns suffice. -/
def TableState.Encodable (env : Env) (s : TableState) : Prop :=
  ∃ schema, s.schema = some schema ∧ (env.silent = true ∨ schema.length ≤ 255)

/-- The index of the table can be read from its file, or from the new file in its place. -/
def TableState.Loadable (env : Env) (s : TableState) : Prop :=
  ∃ schema entry, s.schema = some schema ∧
    loadedIndex env schema (s.file.getD tableFileHeader) = .ok entry

def withCodes (table : Bytes) (w : World) : World :=
  let codes := columnCodes ((w.ctx.untypedTables.lookup table).getD [])
  { w with ctx := { w.ctx with tableColcodes := w.ctx.tableColcodes.insert table codes } }

theorem initializeColumnEncodingMapForTable_ok (env : Env) (table : Bytes) (w w' : World) :
    (initializeColumnEncodingMapForTable env table).run w = .ok () w' ↔
      (tableState table w).Encodable env ∧ w' = withCodes table w := by
  rw [initializeColumnEncodingMapForTable, run_bind_ok (run_get w)]
  cases found : w.ctx.untypedTables.lookup table with
  | none =>
      constructor
      · intro run
        obtain ⟨_, _, _, stops⟩ := run_bind_eq_ok.mp run
        cases stops
      · rintro ⟨⟨schema, known, _⟩, _⟩
        rw [show w.ctx.untypedTables.lookup table = some schema from known] at found
        cases found
  | some schema =>
      have codes := assignColumnCodes_run env schema w 0 ∅ (.inl (by decide))
      rw [Nat.zero_add, show UInt8.ofNat 0 = 0 from rfl] at codes
      have same : withCodes table w = { w with ctx := { w.ctx with
          tableColcodes := w.ctx.tableColcodes.insert table (columnCodes schema) } } := by
        rw [withCodes, found]
        rfl
      have encodable : (tableState table w).Encodable env ↔
          (env.silent = true ∨ schema.length ≤ 255) := by
        constructor
        · rintro ⟨schema', known, fits⟩
          rw [show w.ctx.untypedTables.lookup table = some schema' from known] at found
          cases found
          exact fits
        · exact fun fits => ⟨schema, found, fits⟩
      rw [encodable, same]
      dsimp only
      by_cases fits : env.silent = true ∨ schema.length ≤ 255
      · rw [if_pos fits] at codes
        rw [run_bind_ok codes]
        exact ⟨fun run => ⟨fits, by cases run; rfl⟩, fun result => by rw [result.2]; rfl⟩
      · rw [if_neg fits] at codes
        rw [run_bind_error codes]
        exact ⟨fun run => (by cases run), fun h => absurd h.1 fits⟩

/-- The file is there, and the index of the key column as it was or as the file has it. -/
def withLoadedIndex (env : Env) (table : Bytes) (w : World) : World :=
  let content := (w.disk.tableFiles.lookup table).getD tableFileHeader
  match loadedIndex env ((w.ctx.untypedTables.lookup table).getD []) content with
  | .error _ => w
  | .ok (pkColName, idx) => (w.setTableFile table content).setIndices (w.ctx.indices.insert table
      (insertNew ((w.ctx.indices.lookup table).getD ∅) pkColName idx))

theorem withLoadedIndex_eq {env : Env} {table : Bytes} {w : World} {schema : Schema}
    {pkColName : Bytes} {idx : Index} (found : w.ctx.untypedTables.lookup table = some schema)
    (entry : loadedIndex env schema ((w.disk.tableFiles.lookup table).getD tableFileHeader) =
      .ok (pkColName, idx)) :
    withLoadedIndex env table w =
      (w.setTableFile table ((w.disk.tableFiles.lookup table).getD tableFileHeader)).setIndices
        (w.ctx.indices.insert table
          (insertNew ((w.ctx.indices.lookup table).getD ∅) pkColName idx)) := by
  simp only [withLoadedIndex, found, Option.getD_some, entry]

theorem initializePrimaryKeyIndicesForTable_ok (env : Env) (table : Bytes) (w w' : World) :
    (initializePrimaryKeyIndicesForTable env table).run w = .ok () w' ↔
      (tableState table w).Loadable env ∧ w' = withLoadedIndex env table w := by
  let content := (w.disk.tableFiles.lookup table).getD tableFileHeader
  let columns := (w.ctx.indices.lookup table).getD ∅
  let v := (w.setTableFile table content).setIndices (w.ctx.indices.insert table columns)
  have entered : (modify fun w : World => if table ∈ w.ctx.indices then w
      else w.setIndices (w.ctx.indices.insert table ∅) : Exec PUnit).run
        (w.setTableFile table content) = .ok () v := by
    rw [run_modify]
    cases present : w.ctx.indices.lookup table with
    | none =>
        rw [if_neg (by exact Finmap.lookup_eq_none.mp present)]
        simp only [v, columns, present, Option.getD_none]
        rfl
    | some there =>
        rw [if_pos (by exact Finmap.mem_iff.mpr ⟨there, present⟩)]
        simp only [v, columns, present, Option.getD_some, insert_of_lookup present]
        rfl
  have opened : (openTableFile table).run v = .ok (.opened content) v :=
    openTableFile_run (Finmap.lookup_insert _)
  have inIndices : v.ctx.indices.at table .tableName = .ok columns :=
    Map.at_of_lookup (Finmap.lookup_insert _) _
  have stored (pkColName : Bytes) (idx : Index) :
      v.setIndices (v.ctx.indices.insert table
        (if pkColName ∈ columns then columns else columns.insert pkColName idx)) =
      (w.setTableFile table content).setIndices
        (w.ctx.indices.insert table (insertNew columns pkColName idx)) := by
    have indices : v.ctx.indices = w.ctx.indices.insert table columns := rfl
    rw [indices, Finmap.insert_insert]
    rfl
  rw [initializePrimaryKeyIndicesForTable, run_bind_ok (ensureTableFileExists_eq w table),
    run_bind_ok entered, run_bind_ok opened,
    if_pos (show (Stream.opened content).isOpen = true from rfl)]
  constructor
  · intro run
    obtain ⟨⟨_, s⟩, _, checked, run⟩ := run_bind_eq_ok.mp run
    obtain ⟨check, rfl⟩ := runStream_eq_ok.mp checked
    rw [run_bind_ok (run_get v)] at run
    obtain ⟨schema, _, schemaRead, run⟩ := run_bind_eq_ok.mp run
    obtain ⟨known, rfl⟩ := run_lift_eq_ok.mp schemaRead
    obtain ⟨pkColName, _, keyRead, run⟩ := run_bind_eq_ok.mp run
    obtain ⟨key, rfl⟩ := run_lift_eq_ok.mp keyRead
    rw [inIndices, run_bind_ok (run_lift_ok _ _)] at run
    obtain ⟨⟨idx, _⟩, _, extracted, run⟩ := run_bind_eq_ok.mp run
    obtain ⟨extract, rfl⟩ := runStream_eq_ok.mp extracted
    have found : w.ctx.untypedTables.lookup table = some schema := Map.at_eq_ok.mp known
    have entry := loadedIndex_eq_ok.mpr ⟨s, _, check, key, extract⟩
    refine ⟨⟨schema, _, found, entry⟩, ?_⟩
    rw [withLoadedIndex_eq found entry, ← stored]
    cases run
    rfl
  · rintro ⟨⟨schema, ⟨pkColName, idx⟩, found, entry⟩, rfl⟩
    have known : v.ctx.untypedTables.at table .tableName = .ok schema := Map.at_of_lookup found _
    change loadedIndex env schema content = _ at entry
    obtain ⟨s, s', check, key, extract⟩ := loadedIndex_eq_ok.mp entry
    rw [run_bind_ok (runStream_ok check v), run_bind_ok (run_get v), known,
      run_bind_ok (run_lift_ok _ _), key, run_bind_ok (run_lift_ok _ _), inIndices,
      run_bind_ok (run_lift_ok _ _), run_bind_ok (runStream_ok extract v), withLoadedIndex_eq found entry]
    exact congrArg _ (stored _ _)

/-! What the loops change of one table -/

def TableState.withCodes (s : TableState) : TableState :=
  { s with colcodes := some (columnCodes (s.schema.getD [])) }

def TableState.withLoadedIndex (env : Env) (s : TableState) : TableState :=
  let content := s.file.getD tableFileHeader
  match loadedIndex env (s.schema.getD []) content with
  | .error _ => s
  | .ok (pkColName, idx) =>
      { s with index := some (insertNew (s.index.getD ∅) pkColName idx), file := some content }

def TableState.withCounter (s : TableState) : TableState := { s with counter := some 0 }

theorem tableState_withCodes (table : Bytes) (w : World) :
    tableState table (withCodes table w) = (tableState table w).withCodes := by
  simp only [tableState, withCodes, TableState.withCodes, Finmap.lookup_insert]

theorem tableState_withCodes_ne {table x : Bytes} (w : World) (other : table ≠ x) :
    tableState x (withCodes table w) = tableState x w := by
  simp only [tableState, withCodes, Finmap.lookup_insert_of_ne _ other.symm]

theorem tableState_withLoadedIndex (env : Env) (table : Bytes) (w : World) :
    tableState table (withLoadedIndex env table w) = (tableState table w).withLoadedIndex env := by
  rw [withLoadedIndex, TableState.withLoadedIndex]
  dsimp only [tableState]
  split
  · rfl
  · simp only [World.setIndices, World.setTableFile, World.setTableFiles, Finmap.lookup_insert]

theorem tableState_withLoadedIndex_ne (env : Env) {table x : Bytes} (w : World) (other : table ≠ x) :
    tableState x (withLoadedIndex env table w) = tableState x w := by
  rw [withLoadedIndex]
  split
  · rfl
  · simp only [tableState, World.setIndices, World.setTableFile, World.setTableFiles,
      Finmap.lookup_insert_of_ne _ other.symm]

def withCounter (table : Bytes) (w : World) : World :=
  w.setCounters (w.ctx.deleteCounterPerTable.insert table 0)

theorem tableState_withCounter (table : Bytes) (w : World) :
    tableState table (withCounter table w) = (tableState table w).withCounter := by
  simp only [tableState, withCounter, TableState.withCounter, World.setCounters, Finmap.lookup_insert]

theorem tableState_withCounter_ne {table x : Bytes} (w : World) (other : table ≠ x) :
    tableState x (withCounter table w) = tableState x w := by
  simp only [tableState, withCounter, World.setCounters, Finmap.lookup_insert_of_ne _ other.symm]

/-- The schema of a listed table comes from its metadata text. -/
def declareEntry (entry : Sigma fun _ : Bytes => Option Bytes) (w : World) : World :=
  match entry.2 with
  | none => w
  | some text => { w with ctx := { w.ctx with
      untypedTables := w.ctx.untypedTables.insert entry.1 (parseMetadata text) } }

def TableState.declareEntry (entry : Sigma fun _ : Bytes => Option Bytes) (s : TableState) :
    TableState :=
  match entry.2 with
  | none => s
  | some text => { s with schema := some (parseMetadata text) }

theorem tableState_declareEntry (entry : Sigma fun _ : Bytes => Option Bytes) (w : World) :
    tableState entry.1 (declareEntry entry w) = (tableState entry.1 w).declareEntry entry := by
  rw [declareEntry, TableState.declareEntry]
  split
  · rfl
  · simp only [tableState, Finmap.lookup_insert]

theorem tableState_declareEntry_ne {x : Bytes} (entry : Sigma fun _ : Bytes => Option Bytes)
    (w : World) (other : entry.1 ≠ x) : tableState x (declareEntry entry w) = tableState x w := by
  rw [declareEntry]
  split
  · rfl
  · simp only [tableState, Finmap.lookup_insert_of_ne _ other.symm]

/-! The constructor -/

/-- The tables whose metadata text is there. -/
def listedTables (disk : Disk) : List Bytes :=
  (disk.metadata.getD ∅).keys.filter fun table => (listed disk table).isSome

def declaredTables (disk : Disk) : World :=
  (disk.metadata.getD ∅).entries.foldl (fun w entry => declareEntry entry w) ⟨disk, .empty⟩

/-- The state that a construction from this disk ends in when it succeeds. -/
def constructed (env : Env) (disk : Disk) : World :=
  let names := listedTables disk
  names.foldl (fun w table => withCounter table w)
    (names.foldl (fun w table => withLoadedIndex env table w)
      (names.foldl (fun w table => withCodes table w) (declaredTables disk)))

/-- A table with this metadata text and this file can be started with. -/
def Starts (env : Env) (text : Bytes) (file : Option Bytes) : Prop :=
  (env.silent = true ∨ (parseMetadata text).length ≤ 255) ∧
    ∃ entry, loadedIndex env (parseMetadata text) (file.getD tableFileHeader) = .ok entry

theorem listed_eq_some {disk : Disk} {table text : Bytes} :
    listed disk table = some text ↔ ⟨table, some text⟩ ∈ (disk.metadata.getD ∅).entries := by
  rw [listed, Option.join_eq_some_iff, AList.mem_lookup_iff.symm, Option.mem_def]

theorem mem_listedTables {disk : Disk} {table : Bytes} :
    table ∈ listedTables disk ↔ ∃ text, listed disk table = some text := by
  rw [listedTables, List.mem_filter, Option.isSome_iff_exists, and_iff_right_iff_imp]
  rintro ⟨text, found⟩
  exact List.mem_map_of_mem (listed_eq_some.mp found)

theorem listedTables_nodup (disk : Disk) : (listedTables disk).Nodup :=
  (AList.keys_nodup _).filter _

theorem tableState_declaredTables (disk : Disk) (table : Bytes) :
    tableState table (declaredTables disk) =
      ⟨(listed disk table).map parseMetadata, none, none, none, disk.tableFiles.lookup table⟩ := by
  obtain ⟨inside, outside⟩ := foldl_view tableState Sigma.fst
    tableState_declareEntry (fun entry _ w => tableState_declareEntry_ne entry w)
    (disk.metadata.getD ∅).entries ⟨disk, .empty⟩ (disk.metadata.getD ∅).nodupKeys
  by_cases known : table ∈ (disk.metadata.getD ∅).entries.map Sigma.fst
  · obtain ⟨entry, mem, rfl⟩ := List.mem_map.mp known
    have here : (disk.metadata.getD ∅).lookup entry.1 = some entry.2 := AList.mem_lookup_iff.mpr mem
    rw [declaredTables, inside _ mem, listed, here, TableState.declareEntry]
    cases entry.2 <;> rfl
  · have absent : (disk.metadata.getD ∅).lookup table = none := AList.lookup_eq_none.mpr known
    rw [declaredTables, outside _ known, listed, absent]
    rfl

theorem declaredTables_disk (disk : Disk) : (declaredTables disk).disk = disk :=
  foldl_same World.disk (fun entry w => by rw [declareEntry]; split <;> rfl) _ _

theorem initializeUntypedTableMetadata_ok (env : Env) (disk : Disk) (w : World) :
    (initializeUntypedTableMetadata env).run ⟨disk, .empty⟩ = .ok () w ↔
      (disk.metadata.isSome = true ∨ env.silent = true) ∧ w = declaredTables disk := by
  rw [initializeUntypedTableMetadata, run_bind_ok (run_get _), declaredTables]
  dsimp only
  cases disk.metadata with
  | none =>
      rw [handleFatalError]
      by_cases silent : env.silent = true
      · rw [if_pos silent]
        exact Iff.intro (fun run => ⟨.inr silent, by cases run; rfl⟩) fun h => by rw [h.2]; rfl
      · rw [if_neg silent]
        constructor
        · rintro ⟨⟩
        · rintro ⟨⟨⟨⟩⟩ | quiet, _⟩
          exact absurd quiet silent
  | some tables =>
      have distinct : tables.entries.Nodup := tables.nodupKeys.nodup
      refine (run_forM_ok_iff (g := declareEntry) (fun _ _ => True) (fun entry v v' => ?_)
        (fun _ _ _ _ => Iff.rfl) tables.entries ⟨disk, .empty⟩ w distinct).trans (by simp)
      obtain ⟨table, _ | text⟩ := entry
      · exact Iff.intro (fun run => ⟨trivial, by cases run; rfl⟩) fun h => by rw [h.2]; rfl
      · exact Iff.intro (fun run => ⟨trivial, by cases run; rfl⟩) fun h => by rw [h.2]; rfl

/-- The names are the same in every state that has the metadata and the schemas. -/
theorem tableNames_eq {disk : Disk} {w : World} (metadata : w.disk.metadata = disk.metadata)
    (schemas : w.ctx.untypedTables = (declaredTables disk).ctx.untypedTables) :
    tableNames w = listedTables disk := by
  have known (table : Bytes) : table ∈ w.ctx.untypedTables ↔ (listed disk table).isSome = true := by
    have state := congrArg TableState.schema (tableState_declaredTables disk table)
    rw [schemas, Finmap.mem_iff, show (declaredTables disk).ctx.untypedTables.lookup table = _ from state,
      Option.isSome_iff_exists]
    simp
  rw [tableNames, metadata, listedTables]
  cases disk.metadata with
  | none => rfl
  | some tables => exact List.filter_congr fun table _ => by simp [known]

section Loops

variable (env : Env) {disk : Disk} {w w' : World}

theorem initializeColumnEncodingMap_ok (names : tableNames w = listedTables disk) :
    (initializeColumnEncodingMap env).run w = .ok () w' ↔
      (∀ table ∈ listedTables disk, (tableState table w).Encodable env) ∧
        w' = (listedTables disk).foldl (fun w table => withCodes table w) w := by
  rw [initializeColumnEncodingMap, run_bind_ok (run_get w), names]
  refine run_forM_ok_iff (fun table w => (tableState table w).Encodable env)
    (initializeColumnEncodingMapForTable_ok env) (fun table x v other => ?_) _ w w'
    (listedTables_nodup disk)
  rw [tableState_withCodes_ne v other]

theorem initializePrimaryKeyIndices_ok (names : tableNames w = listedTables disk) :
    (initializePrimaryKeyIndices env).run w = .ok () w' ↔
      (∀ table ∈ listedTables disk, (tableState table w).Loadable env) ∧
        w' = (listedTables disk).foldl (fun w table => withLoadedIndex env table w) w := by
  rw [initializePrimaryKeyIndices, run_bind_ok (run_get w), names]
  refine run_forM_ok_iff (fun table w => (tableState table w).Loadable env)
    (initializePrimaryKeyIndicesForTable_ok env) (fun table x v other => ?_) _ w w'
    (listedTables_nodup disk)
  rw [tableState_withLoadedIndex_ne env v other]

theorem initializeDeleteCounters_ok (names : tableNames w = listedTables disk) :
    initializeDeleteCounters.run w = .ok () w' ↔
      w' = (listedTables disk).foldl (fun w table => withCounter table w) w := by
  rw [initializeDeleteCounters, run_bind_ok (run_get w), names]
  refine (run_forM_ok_iff (g := withCounter) (fun _ _ => True) (fun table v v' => ?_)
    (fun _ _ _ _ => Iff.rfl) _ w w' (listedTables_nodup disk)).trans (by simp)
  exact Iff.intro (fun run => ⟨trivial, by cases run; rfl⟩) fun h => by rw [h.2]; rfl

end Loops

/-- What the loops leave as the declaration of the tables made it. -/
def declaration (w : World) : Option (AList fun _ : Bytes => Option Bytes) × Map Bytes Schema ×
    Map Bytes Bytes × Map Bytes Bytes :=
  (w.disk.metadata, w.ctx.untypedTables, w.disk.newTableFiles, w.disk.csvFiles)

theorem declaration_withCodes (table : Bytes) (w : World) :
    declaration (withCodes table w) = declaration w := rfl

theorem declaration_withLoadedIndex (env : Env) (table : Bytes) (w : World) :
    declaration (withLoadedIndex env table w) = declaration w := by
  rw [withLoadedIndex]
  split <;> rfl

theorem declaration_withCounter (table : Bytes) (w : World) :
    declaration (withCounter table w) = declaration w := rfl

theorem tableNames_of_declaration {disk : Disk} {w : World}
    (same : declaration w = declaration (declaredTables disk)) : tableNames w = listedTables disk := by
  simp only [declaration, declaredTables_disk, Prod.mk.injEq] at same
  exact tableNames_eq same.1 same.2.1

section Constructed

variable (env : Env) (disk : Disk)

/-- The states between the loops. -/
def encodedTables : World :=
  (listedTables disk).foldl (fun w table => withCodes table w) (declaredTables disk)

def loadedTables : World :=
  (listedTables disk).foldl (fun w table => withLoadedIndex env table w) (encodedTables disk)

theorem encodedTables_declaration :
    declaration (encodedTables disk) = declaration (declaredTables disk) :=
  foldl_same declaration declaration_withCodes _ _

theorem loadedTables_declaration :
    declaration (loadedTables env disk) = declaration (declaredTables disk) :=
  (foldl_same declaration (declaration_withLoadedIndex env) _ _).trans (encodedTables_declaration disk)

theorem constructed_declaration :
    declaration (constructed env disk) = declaration (declaredTables disk) :=
  (foldl_same declaration declaration_withCounter _ _).trans (loadedTables_declaration env disk)

theorem mem_of_listed {table text : Bytes} (here : listed disk table = some text) :
    table ∈ listedTables disk := mem_listedTables.mpr ⟨text, here⟩

theorem map_id_nodup : ((listedTables disk).map id).Nodup := by
  simpa using listedTables_nodup disk

theorem tableState_encodedTables {table text : Bytes} (here : listed disk table = some text) :
    tableState table (encodedTables disk) = ⟨some (parseMetadata text),
      some (columnCodes (parseMetadata text)), none, none, disk.tableFiles.lookup table⟩ := by
  have loop := foldl_view tableState id tableState_withCodes
    (fun _ _ w => tableState_withCodes_ne w) _ (declaredTables disk) (map_id_nodup disk)
  refine (loop.1 table (mem_of_listed disk here)).trans ?_
  rw [id, tableState_declaredTables, here]
  rfl

theorem tableState_loadedTables {table text pkColName : Bytes} {idx : Index}
    (here : listed disk table = some text)
    (entry : loadedIndex env (parseMetadata text)
      ((disk.tableFiles.lookup table).getD tableFileHeader) = .ok (pkColName, idx)) :
    tableState table (loadedTables env disk) = ⟨some (parseMetadata text),
      some (columnCodes (parseMetadata text)), some (Finmap.insert pkColName idx ∅), none,
      some ((disk.tableFiles.lookup table).getD tableFileHeader)⟩ := by
  have loop := foldl_view tableState id (tableState_withLoadedIndex env)
    (fun _ _ w => tableState_withLoadedIndex_ne env w) _ (encodedTables disk) (map_id_nodup disk)
  refine (loop.1 table (mem_of_listed disk here)).trans ?_
  rw [id, tableState_encodedTables disk here, TableState.withLoadedIndex]
  dsimp only
  rw [Option.getD_some, entry]
  rfl

/-- What a successful construction makes of a listed table. -/
theorem tableState_constructed {table text pkColName : Bytes} {idx : Index}
    (here : listed disk table = some text)
    (entry : loadedIndex env (parseMetadata text)
      ((disk.tableFiles.lookup table).getD tableFileHeader) = .ok (pkColName, idx)) :
    tableState table (constructed env disk) = ⟨some (parseMetadata text),
      some (columnCodes (parseMetadata text)), some (Finmap.insert pkColName idx ∅), some 0,
      some ((disk.tableFiles.lookup table).getD tableFileHeader)⟩ := by
  have loop := foldl_view tableState id tableState_withCounter
    (fun _ _ w => tableState_withCounter_ne w) _ (loadedTables env disk) (map_id_nodup disk)
  refine (loop.1 table (mem_of_listed disk here)).trans ?_
  rw [id, tableState_loadedTables env disk here entry]
  rfl

/-- The other tables are not in the context, and a file of such a name is left alone. -/
theorem tableState_constructed_unlisted {table : Bytes} (none_ : listed disk table = none) :
    tableState table (constructed env disk) =
      ⟨none, none, none, none, disk.tableFiles.lookup table⟩ := by
  have outside : table ∉ (listedTables disk).map id := by
    rw [List.map_id, mem_listedTables, none_]
    rintro ⟨_, ⟨⟩⟩
  have counters := (foldl_view tableState id tableState_withCounter
    (fun _ _ w => tableState_withCounter_ne w) _ (loadedTables env disk) (map_id_nodup disk)).2
  have indices := (foldl_view tableState id (tableState_withLoadedIndex env)
    (fun _ _ w => tableState_withLoadedIndex_ne env w) _ (encodedTables disk) (map_id_nodup disk)).2
  have codes := (foldl_view tableState id tableState_withCodes
    (fun _ _ w => tableState_withCodes_ne w) _ (declaredTables disk) (map_id_nodup disk)).2
  refine (counters table outside).trans ((indices table outside).trans ((codes table outside).trans ?_))
  rw [tableState_declaredTables, none_]
  rfl

variable {env disk}

/-- The construction succeeds when every listed table can be started with, and then
its result is determined by the disk. -/
theorem constructExecutionContext_ok {w : World} :
    (constructExecutionContext env).run ⟨disk, .empty⟩ = .ok () w ↔
      (disk.metadata.isSome = true ∨ env.silent = true) ∧
      (∀ table text, listed disk table = some text → Starts env text (disk.tableFiles.lookup table)) ∧
      w = constructed env disk := by
  have encodable : (∀ table ∈ listedTables disk,
      (tableState table (declaredTables disk)).Encodable env) ↔
      ∀ table text, listed disk table = some text →
        (env.silent = true ∨ (parseMetadata text).length ≤ 255) := by
    simp only [TableState.Encodable, tableState_declaredTables, mem_listedTables]
    constructor
    · intro all table text here
      obtain ⟨schema, known, fits⟩ := all table ⟨text, here⟩
      rw [here] at known
      cases known
      exact fits
    · rintro all table ⟨text, here⟩
      exact ⟨_, by rw [here]; rfl, all table text here⟩
  have loadable : (∀ table ∈ listedTables disk,
      (tableState table (encodedTables disk)).Loadable env) ↔
      ∀ table text, listed disk table = some text → ∃ entry, loadedIndex env (parseMetadata text)
        ((disk.tableFiles.lookup table).getD tableFileHeader) = .ok entry := by
    simp only [TableState.Loadable, mem_listedTables]
    constructor
    · intro all table text here
      obtain ⟨schema, entry, known, loaded⟩ := all table ⟨text, here⟩
      rw [tableState_encodedTables disk here] at known loaded
      cases known
      exact ⟨entry, loaded⟩
    · rintro all table ⟨text, here⟩
      obtain ⟨entry, loaded⟩ := all table text here
      rw [tableState_encodedTables disk here]
      exact ⟨_, entry, rfl, loaded⟩
  have declared : tableNames (declaredTables disk) = listedTables disk := tableNames_of_declaration rfl
  have encoded := tableNames_of_declaration (encodedTables_declaration disk)
  have loaded := tableNames_of_declaration (loadedTables_declaration env disk)
  rw [constructExecutionContext]
  constructor
  · intro run
    obtain ⟨_, _, first, run⟩ := run_bind_eq_ok.mp run
    obtain ⟨metadata, rfl⟩ := (initializeUntypedTableMetadata_ok env disk _).mp first
    obtain ⟨_, _, second, run⟩ := run_bind_eq_ok.mp run
    obtain ⟨codes, rfl⟩ := (initializeColumnEncodingMap_ok env declared).mp second
    obtain ⟨_, _, third, run⟩ := run_bind_eq_ok.mp run
    obtain ⟨indices, rfl⟩ := (initializePrimaryKeyIndices_ok env encoded).mp third
    exact ⟨metadata, fun table text here => ⟨encodable.mp codes table text here,
      loadable.mp indices table text here⟩, (initializeDeleteCounters_ok loaded).mp run⟩
  · rintro ⟨metadata, starts, rfl⟩
    have first := (initializeUntypedTableMetadata_ok env disk _).mpr ⟨metadata, rfl⟩
    have second := (initializeColumnEncodingMap_ok env declared).mpr
      ⟨encodable.mpr fun table text here => (starts table text here).1, rfl⟩
    have third := (initializePrimaryKeyIndices_ok env encoded).mpr
      ⟨loadable.mpr fun table text here => (starts table text here).2, rfl⟩
    rw [run_bind_ok first, run_bind_ok second]
    exact (run_bind_ok third _).trans ((initializeDeleteCounters_ok loaded).mpr rfl)

end Constructed

/-! A disk with one table -/

section SingleTable

variable (env : Env) {n : Nat} (table : Bytes) (t : TableSchema n) (f : TableFile n)
  (counters : Map Bytes Nat)

theorem listed_singleTable (x : Bytes) :
    listed (singleTable table t f counters).disk x =
      if x = table then some (metadataText t.schema) else none := by
  simp only [listed, singleTable, Option.getD_some]
  split
  next same => rw [same, AList.lookup_insert, Option.join_some]
  next other => rw [AList.lookup_insert_ne other, AList.lookup_empty, Option.join_none]

-- the schema that is read back: its modifiers may have blanks around them
variable {t' : TableSchema n} (parsed : parseMetadata (metadataText t.schema) = t'.schema)
include parsed

theorem constructExecutionContext_singleTable :
    (constructExecutionContext env).run ⟨(singleTable table t f counters).disk, .empty⟩ =
      .ok () (constructed env (singleTable table t f counters).disk) := by
  refine constructExecutionContext_ok.mpr ⟨.inl rfl, fun x text here => ?_, rfl⟩
  rw [listed_singleTable] at here
  split at here
  next same =>
    subst same
    cases here
    refine ⟨.inr (parsed.symm ▸ t'.few), ⟨(t'.pkColName, f.index), ?_⟩⟩
    rw [parsed, show (singleTable x t f counters).disk.tableFiles.lookup x = _ from
      singleTable_hasFile x t f counters]
    exact loadedIndex_file env t' f
  next => cases here

theorem tableState_constructed_singleTable :
    tableState table (constructed env (singleTable table t f counters).disk) =
      ⟨some t'.schema, some (columnCodes t'.schema), some (Finmap.insert t'.pkColName f.index ∅),
        some 0, some f.bytes⟩ := by
  have here : listed (singleTable table t f counters).disk table = some (metadataText t.schema) := by
    rw [listed_singleTable, if_pos rfl]
  have file : (singleTable table t f counters).disk.tableFiles.lookup table = some f.bytes :=
    singleTable_hasFile table t f counters
  have entry : loadedIndex env (parseMetadata (metadataText t.schema))
      (((singleTable table t f counters).disk.tableFiles.lookup table).getD tableFileHeader) =
      .ok (t'.pkColName, f.index) := by
    rw [parsed, file]
    exact loadedIndex_file env t' f
  rw [tableState_constructed env _ here entry, parsed, file]
  rfl

end SingleTable

/-- The schema of `pairSchema` as it is read back, with the blank behind the name. -/
def pairSchemaRead : TableSchema 1 where
  schema := [⟨ascii "id", [ascii " PRIMARY KEY"]⟩, ⟨ascii "name", []⟩]
  pkColName := ascii "id"
  width := rfl
  few := by decide
  key := by decide

theorem pairSchema_parsed : parseMetadata (metadataText pairSchema.schema) = pairSchemaRead.schema := by
  decide

end Jssql.FileHandler
