import Jssql.Theory.StoreRuns
import Jssql.Theory.StoreSteps

/-!
Sizes. With literals, modifiers and CSV files that are not enormous the values of the store stay
short in a run, and records of short values have lengths that the file format can hold.
-/
namespace Jssql.Store
open Foundation FileHandler InterpreterVisitor SemanticNormalizer

/-- A record has at most 255 values: together they stay below `2 ^ 63`. -/
def Short (v : Bytes) : Prop := v.length < 2 ^ 54

theorem Short.of_le {v v' : Bytes} (short : Short v) (le : v'.length ≤ v.length) : Short v' := le.trans_lt short

theorem Short.empty : Short [] := Nat.two_pow_pos 54

def ShortRow (row : Record) : Prop := ∀ v ∈ row, Short v

def ShortLiterals (record : ValueRecordNode) : Prop := ∀ literal : LiteralNode, some literal ∈ record → Short literal.value

/-- The texts of the statement are short, and the columns that it makes can be read back. -/
def Moderate (env : Env) : Statement → Prop
  | .create node => (env.silent = true → node.columns.length ≤ 255) ∧
      SameColumns node.columns (parseMetadata (metadataText node.columns)) ∧
      ∀ col ∈ node.columns, ∀ modifier ∈ col.modifiers, Short modifier
  | .insert node => ∀ record ∈ node.records, ShortLiterals record
  | .update node => (∀ assignment ∈ node.assignments, Short assignment.literal.value) ∧
      node.schemaIndexToLiteralMap = ∅
  | _ => True

/-! Values that are written -/

variable {columns columns' : Schema} {projectionMask : List Bool} {record : ValueRecordNode}

def ShortDefaults (columns : Schema) : Prop := ∀ col ∈ columns, ∀ v, getDefaultValue col.modifiers = .ok v → Short v

theorem length_trim_le (s : Bytes) : (trim s).length ≤ s.length :=
  ((List.rdropWhile_prefix _ _).length_le).trans (List.dropWhile_suffix _).length_le

theorem shortDefaults_of_modifiers (short : ∀ col ∈ columns, ∀ modifier ∈ col.modifiers, Short modifier) :
    ShortDefaults columns := by
  intro col mem v default
  have all := short col mem
  generalize col.modifiers = modifiers at all default
  induction modifiers with
  | nil =>
      cases default
      exact .empty
  | cons modifier rest ih =>
      rw [List.forall_mem_cons] at all
      rw [getDefaultValue] at default
      split at default
      · rw [substr] at default
        split at default
        · cases default
        · cases default
          have dropped : ((trim modifier).drop 8).length ≤ (trim modifier).length := by
            rw [List.length_drop]
            exact Nat.sub_le ..
          exact all.1.of_le ((length_removeOuterQuotes_le _).trans (dropped.trans (length_trim_le modifier)))
      · exact ih all.2 default

theorem ShortDefaults.congr (short : ShortDefaults columns) (same : SameColumns columns columns') :
    ShortDefaults columns' := by
  induction same with
  | nil => exact short
  | cons first _ ih =>
      obtain ⟨head, rest⟩ := List.forall_mem_cons.mp short
      refine List.forall_mem_cons.mpr ⟨fun v default => head v ?_, ih rest⟩
      rwa [getDefaultValue_congr first.2] at default

theorem mem_of_index {α : Type} {xs : List α} {i : Nat} {a : α} (h : index xs i = .ok a) : a ∈ xs := by
  rw [index] at h
  cases found : xs[i]? with
  | none =>
      rw [found] at h
      cases h
  | some b =>
      rw [found] at h
      cases h
      exact List.mem_of_getElem? found

theorem payloadValues_short {pkIdx : Nat} (defaults : ShortDefaults columns) (literals : ShortLiterals record) {i : Nat}
    {values : List Bytes} (h : payloadValues record projectionMask pkIdx i columns = .ok values) : ShortRow values := by
  induction columns generalizing i values with
  | nil =>
      cases h
      exact List.forall_mem_nil _
  | cons col cols ih =>
      obtain ⟨default, others⟩ := List.forall_mem_cons.mp defaults
      rw [payloadValues] at h
      split at h
      · exact ih others h
      · obtain ⟨lit, given, h⟩ := bind_eq_ok.mp h
        obtain ⟨userProvided, -, h⟩ := bind_eq_ok.mp h
        obtain ⟨literal, final, h⟩ := bind_eq_ok.mp h
        obtain ⟨rest, behind, h⟩ := bind_eq_ok.mp h
        cases h
        refine List.forall_mem_cons.mpr ⟨?_, ih others behind⟩
        cases lit with
        | none => exact default _ final
        | some l =>
            rw [finalLiteral] at final
            split at final
            · exact default _ final
            · cases final
              exact (literals _ (mem_of_index given)).of_le (length_removeOuterQuotes_le _)

theorem rowOf_short {row : Record} (defaults : ShortDefaults columns) (literals : ShortLiterals record)
    (h : rowOf columns projectionMask record = .ok row) : ShortRow row := by
  obtain ⟨key, named, h⟩ := bind_eq_ok.mp h
  obtain ⟨values, written, h⟩ := bind_eq_ok.mp h
  cases h
  refine List.forall_mem_cons.mpr ⟨?_, payloadValues_short defaults literals written⟩
  obtain ⟨lit, given, named⟩ := bind_eq_ok.mp named
  cases lit with
  | none => cases named
  | some node =>
      cases named
      exact (literals _ (mem_of_index given)).of_le (length_removeOuterQuotes_le _)

theorem stringRecord_short {row : Record} (short : ShortRow row) : ShortLiterals (stringRecord row) := by
  intro literal mem
  obtain ⟨v, inside, same⟩ := List.mem_map.mp mem
  cases same
  exact short v inside

/-! Literals of the normalized statements -/

theorem normalizeRow_short {schema : Schema} (short : ShortLiterals record) (names : List Bytes) {j : Nat}
    {row : ValueRecordNode} (start : ShortLiterals row) : ShortLiterals (normalizeRow schema record j names row) := by
  induction names generalizing j row with
  | nil => exact start
  | cons name names ih =>
      rw [normalizeRow]
      refine ih fun literal mem => ?_
      rcases List.mem_or_eq_of_mem_set mem with old | new
      · exact start literal old
      · cases found : record[j]? with
        | none =>
            rw [found] at new
            cases new
            exact .empty
        | some value =>
            rw [found] at new
            exact short literal (new ▸ List.mem_of_getElem? found)

theorem normalizeRecords_short {schema : Schema} {names : List Bytes} {records : List ValueRecordNode}
    (short : ∀ record ∈ records, ShortLiterals record) :
    ∀ record ∈ (normalizeRecords schema names records).1, ShortLiterals record := by
  induction records with
  | nil => exact short
  | cons record records ih =>
      rw [normalizeRecords]
      split
      · exact short
      · obtain ⟨first, rest⟩ := List.forall_mem_cons.mp short
        refine List.forall_mem_cons.mpr ⟨normalizeRow_short first names ?_, ih rest⟩
        intro literal mem
        cases List.eq_of_mem_replicate mem

theorem normalizeInsert_short {node : InsertNode} (short : ∀ record ∈ node.records, ShortLiterals record)
    (tables : Map Bytes Schema) : ∀ record ∈ (normalizeInsert node tables).1.records, ShortLiterals record := by
  unfold normalizeInsert
  split
  · exact short
  · dsimp only
    split
    · exact short
    · split <;> exact normalizeRecords_short short

def ShortMap (literals : Map Nat Bytes) : Prop := ∀ i v, literals.lookup i = some v → Short v

theorem normalizeAssignments_short {schema : Schema} {primaryKeyCol : Bytes} {assignments : List AssignmentNode}
    (short : ∀ assignment ∈ assignments, Short assignment.literal.value) {st : AssignmentState}
    (start : ShortMap st.schemaIndexToLiteralMap) :
    ShortMap (normalizeAssignments schema primaryKeyCol assignments st).2.1.schemaIndexToLiteralMap := by
  induction assignments generalizing st with
  | nil => exact start
  | cons assignment rest ih =>
      obtain ⟨first, others⟩ := List.forall_mem_cons.mp short
      have marked : ShortMap (if findColumn schema assignment.colName ∈ st.schemaIndexToLiteralMap
          then st.schemaIndexToLiteralMap else st.schemaIndexToLiteralMap.insert (findColumn schema assignment.colName)
            (removeOuterQuotes assignment.literal.value)) := by
        split
        · exact start
        · intro i v found
          by_cases same : i = findColumn schema assignment.colName
          · rw [same, Finmap.lookup_insert] at found
            cases found
            exact first.of_le (length_removeOuterQuotes_le _)
          · rw [Finmap.lookup_insert_of_ne _ same] at found
            exact start i v found
      simp only [normalizeAssignments]
      split
      · exact start
      · split
        · exact marked
        · split
          · exact marked
          · exact ih others marked

theorem normalizeUpdate_short {node node' : UpdateNode} {tables : Map Bytes Schema} {ok : Bool}
    (short : ∀ assignment ∈ node.assignments, Short assignment.literal.value) (start : node.schemaIndexToLiteralMap = ∅)
    (h : normalizeUpdate node tables = .ok (node', ok)) : ShortMap node'.schemaIndexToLiteralMap := by
  have none_ : ShortMap node.schemaIndexToLiteralMap := by
    intro i v found
    rw [start, Finmap.lookup_empty] at found
    cases found
  unfold normalizeUpdate at h
  split at h
  · cases h
    exact none_
  · obtain ⟨primaryKeyCol, -, h⟩ := bind_eq_ok.mp h
    split at h
    · cases h
      exact none_
    · dsimp only at h
      split at h
      · cases h
        exact normalizeAssignments_short short none_
      · cases h
        exact normalizeAssignments_short short none_

theorem updatedRow_short {node : UpdateNode} {row : Record} (literals : ShortMap node.schemaIndexToLiteralMap)
    (short : ShortRow row) : ShortRow (updatedRow node row) := by
  intro v mem
  obtain ⟨i, -, rfl⟩ := List.mem_map.mp mem
  rw [updatedValue]
  split
  · cases found : row[i]? with
    | none => exact .empty
    | some v => exact short v (List.mem_of_getElem? found)
  · cases found : node.schemaIndexToLiteralMap.lookup i with
    | none => exact .empty
    | some v => exact literals i v found

/-! Fields of CSV files -/

theorem parseCsvFields_length {inQuotes : Bool} {current row field : Bytes}
    (mem : field ∈ parseCsvFields inQuotes current row) : field.length ≤ current.length + row.length := by
  induction row generalizing inQuotes current with
  | nil =>
      obtain rfl := List.mem_singleton.mp mem
      exact Nat.le_add_right ..
  | cons c rest ih =>
      rw [parseCsvFields] at mem
      rw [List.length_cons]
      split at mem
      · have := ih mem
        omega
      · split at mem
        · rcases List.mem_cons.mp mem with rfl | later
          · omega
          · have := ih later
            rw [List.length_nil] at this
            omega
        · have := ih mem
          rw [List.length_append, List.length_singleton] at this
          omega

theorem csvRecord_short {content line : Bytes} (short : Short content) (mem : line ∈ getlines content) :
    ShortLiterals (csvRecord line) := by
  intro literal inside
  obtain ⟨field, parsed, same⟩ := List.mem_map.mp inside
  cases same
  have part : line ∈ content.splitOn newline := by
    rw [getlines] at mem
    split at mem
    · exact List.mem_of_mem_dropLast mem
    · exact mem
  have length := parseCsvFields_length parsed
  rw [List.length_nil, Nat.zero_add] at length
  exact short.of_le (length.trans (length_le_of_mem_splitOn part))

/-! Stores of short values -/

structure Bounded (S : Store) : Prop where
  rows : ∀ table, ∀ row ∈ S.rows table, ShortRow row
  defaults : ∀ table columns, S.schemas.lookup table = some columns → ShortDefaults columns
  csvFiles : ∀ path content, S.csvFiles.lookup path = some content → Short content

variable {S S' : Store} {env : Env} {stmt : Statement} {answer : Answer} {events : List Event} {rows : List Record}
  {row : Record} {csvFiles : Map Bytes Bytes}

theorem csvFile_short (files : ∀ path content, csvFiles.lookup path = some content → Short content) (path : Bytes) :
    Short ((csvFiles.lookup path).getD []) := by
  cases found : csvFiles.lookup path with
  | none => exact .empty
  | some content => exact files path content found

theorem Writes.short (written : Writes columns csvFiles rows row stmt) (moderate : Moderate env stmt)
    (defaults : ShortDefaults columns) (old : ∀ row ∈ rows, ShortRow row)
    (files : ∀ path content, csvFiles.lookup path = some content → Short content) : ShortRow row := by
  cases written with
  | @insert node node' tables known normalized record given written =>
      have literals := normalizeInsert_short moderate tables
      rw [normalized] at literals
      exact rowOf_short defaults (literals record given) written
  | csvImport given written => exact rowOf_short defaults (csvRecord_short (csvFile_short files _) given) written
  | update known normalized mem matched written =>
      have literals := normalizeUpdate_short moderate.1 moderate.2 normalized
      exact rowOf_short defaults (stringRecord_short (updatedRow_short literals (old _ mem))) written

/-- The values stay short, in the table of the statement and in the others. -/
theorem Executes.bounded (h : S.Executes stmt answer S') (bounded : S.Bounded) (moderate : Moderate env stmt) :
    S'.Bounded := by
  cases h with
  | refused | stopped | notThere => exact bounded
  | @created node =>
      refine ⟨fun table row mem => ?_, fun table columns known => ?_, bounded.csvFiles⟩
      · by_cases of : table = node.tableName
        · rw [of, rows_created] at mem
          exact absurd mem List.not_mem_nil
        · rw [rows_created_of_ne of] at mem
          exact bounded.rows table row mem
      · by_cases of : table = node.tableName
        · rw [of, lookup_created] at known
          cases known
          exact shortDefaults_of_modifiers moderate.2.2
        · rw [lookup_created_of_ne of] at known
          exact bounded.defaults table columns known
  | @dropped node =>
      refine ⟨fun table row mem => ?_, fun table columns known => ?_, bounded.csvFiles⟩
      · by_cases of : table = node.tableName
        · rw [of, rows_dropped] at mem
          exact absurd mem List.not_mem_nil
        · rw [rows_dropped_of_ne of] at mem
          exact bounded.rows table row mem
      · by_cases of : table = node.tableName
        · rw [of, lookup_dropped] at known
          cases known
        · rw [lookup_dropped_of_ne of] at known
          exact bounded.defaults table columns known
  | @effect _ _ ctx columns _ rows schemas check known effect =>
      refine ⟨fun table row mem => ?_, bounded.defaults, bounded.csvFiles⟩
      by_cases of : table = stmt.tableName
      · rw [of, rows_withRows] at mem
        obtain ⟨kept, news, rfl, pruned, written⟩ := effect.changed check (schemas ▸ known)
        rcases List.mem_append.mp mem with old | new
        · exact bounded.rows _ row (pruned.subset old)
        · exact (written row new).short moderate (bounded.defaults _ columns known) (bounded.rows _) bounded.csvFiles
      · rw [rows_withRows_of_ne of] at mem
        exact bounded.rows table row mem

theorem Restarts.bounded (h : S.Restarts S') (bounded : S.Bounded) : S'.Bounded where
  rows := by
    obtain ⟨rows, -, -⟩ := h
    exact rows ▸ bounded.rows
  defaults table columns known := by
    obtain ⟨columns', known', same⟩ := h.knew known
    exact (bounded.defaults table columns' known').congr same
  csvFiles := by
    obtain ⟨-, csvFiles, -⟩ := h
    exact csvFiles ▸ bounded.csvFiles

/-! Records of short values -/

variable {n : Nat} {t : TableSchema n} {type : RecordType} {r : StoredRecord}

theorem storedRecord_fits {key : Bytes} {values : List Bytes} (width : values.length = n)
    (short : ShortRow (key :: values)) : (storedRecord t type key values).recordLength < 2 ^ 63 := by
  obtain ⟨first, others⟩ := List.forall_mem_cons.mp short
  have few := t.few
  rw [t.width] at few
  have sum := List.sum_le_card_nsmul (values.map fun literal => 8 + literal.length) (2 ^ 54 + 8) fun size mem => by
    obtain ⟨v, inside, rfl⟩ := List.mem_map.mp mem
    have := others v inside
    rw [Short] at this
    omega
  rw [List.length_map, width, smul_eq_mul] at sum
  rw [Short] at first
  rw [recordLength_storedRecord t width, columnOffsetSize]
  have : n * (2 ^ 54 + 8) ≤ 254 * (2 ^ 54 + 8) := Nat.mul_le_mul_right _ (by omega)
  omega

theorem writtenRecord_fits (defaults : ShortDefaults t.schema) (literals : ShortLiterals record)
    (h : writtenRecord t type projectionMask record = .ok r) : r.recordLength < 2 ^ 63 := by
  have row := rowOf_eq t type projectionMask record
  rw [h] at row
  have short := rowOf_short defaults literals row
  obtain ⟨key, values, -, -, width, rfl⟩ := writtenRecord_ok h
  exact storedRecord_fits width short

/-- In a state of short values a moderate statement writes no record that is too long. -/
theorem storable {w : World} (rep : Represents w S) (bounded : S.Bounded) (moderate : Moderate env stmt) :
    Storable env stmt w := by
  have files : ∀ path content, w.disk.csvFiles.lookup path = some content → Short content :=
    rep.csvFiles ▸ bounded.csvFiles
  have shortDefaults {n : Nat} {t : TableSchema n} {table : Bytes}
      (known : w.ctx.untypedTables.lookup table = some t.schema) : ShortDefaults t.schema :=
    bounded.defaults table t.schema (rep.schemas ▸ known)
  cases stmt with
  | create node => exact ⟨moderate.1, moderate.2.1⟩
  | insert node =>
      intro n t f known file r mem
      obtain ⟨record, given, written⟩ := mem_writtenRecords mem
      exact writtenRecord_fits (shortDefaults known) (normalizeInsert_short moderate _ record given) written
  | csvImport node =>
      intro n t f known file r mem
      obtain ⟨record, given, written⟩ := mem_writtenRecords mem
      obtain ⟨line, inside, rfl⟩ := List.mem_map.mp given
      exact writtenRecord_fits (shortDefaults known) (csvRecord_short (csvFile_short files _) inside) written
  | update node =>
      intro n t f known file node' normalized old live r written
      have here : S.schemas.lookup node.tableName = some t.schema := rep.schemas ▸ known
      obtain ⟨n', t', f', idx, text, same, held, rows, -⟩ := (rep.tables node.tableName).present here
      have widths : n' = n := Nat.succ.inj (t'.width.symm.trans ((congrArg List.length same).trans t.width))
      subst widths
      have bytes : f.bytes = f'.bytes := Option.some.inj (file.symm.trans held.file)
      have mem : old.row ∈ S.rows node.tableName := by
        rw [← rows, rowsIn, ← rows_of_bytes t bytes]
        exact List.mem_map_of_mem live
      have literals := normalizeUpdate_short moderate.1 moderate.2 normalized
      exact writtenRecord_fits (shortDefaults known)
        (stringRecord_short (updatedRow_short literals (bounded.rows _ _ mem))) written
  | drop | describe | select | delete => exact fun _ _ _ _ _ => trivial

end Jssql.Store
