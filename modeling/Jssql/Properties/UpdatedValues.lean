import Jssql.Properties.UpdatedRows
import Jssql.Theory.Assignments
import Jssql.Theory.KeyConditions
import Jssql.Theory.StoredValues

/-!
The values in a record that `UPDATE` writes. Kept values and new values both go through
the serializer, which takes outer quotes off whatever it is given: of a stored value that
stands in quotes, and of a literal whose quotes the normalizer has taken off before.
-/
namespace Jssql.FileHandler
open Foundation Foundation.Stream SemanticNormalizer SemanticValidator

variable {n : Nat} {w : World} {t : TableSchema n} {f : TableFile n} {idx : Index}

/-! Rows -/

theorem keyFirst_of_first (first : t.pkIdx = 0) {row : Record} (width : row.length = n + 1) :
    keyFirst t row = row := by
  cases row with
  | nil => cases width
  | cons key rest => rw [keyFirst, first]; rfl

/-- With the key in front the new record has each value at the place of its column. -/
theorem getElem?_rewrittenRow (first : t.pkIdx = 0) (node : UpdateNode) (r : TableRecord n) {i : Nat}
    (inside : i < n + 1) :
    (rewrittenRow t node r.row)[i]? = some (removeOuterQuotes (updatedValue node r.row i)) := by
  have width : (updatedRow node r.row).length = n + 1 := by rw [length_updatedRow, r.length_row]
  rw [rewrittenRow, keyFirst_of_first first width, List.getElem?_map,
    getElem?_updatedRow node (r.length_row ▸ inside)]
  rfl

/-! Columns that are not assigned -/

/-- The rows agree in every column that is not assigned. -/
def SameUnassigned (t : TableSchema n) (node : UpdateNode) (new old : Record) : Prop :=
  ∀ (i : Nat) (name : Bytes), (columnNames t.schema)[i]? = some name →
    name ∉ assignedNames node.assignments → new[i]? = old[i]?

/-- The records that the statement appends hold, in every column that it does not assign,
what the records hold that they replace. -/
def KeepsUnassigned (env : Env) (w : World) (t : TableSchema n) (f : TableFile n)
    (node node' : UpdateNode) : Prop :=
  ∀ (w' : World) (news : List (TableRecord n)),
    (replaceRecords env node' t.schema (atRecords f)).run w = .ok () w' →
    HasFile w' node.tableName (f.withRecords (markMatching (accepts (scanned node')) f.records ++ news)) →
    (∀ r ∈ news, r.isTombstone = false) →
    List.Forall₂ (fun new old => SameUnassigned t node new.row old.row) news
      ((liveRecords f.records).filter (accepts (scanned node')))

/-- The new records are determined by the bytes. -/
theorem rows_of_appended (t : TableSchema n) {marked news news' : List (TableRecord n)}
    (same : (f.withRecords (marked ++ news)).bytes = (f.withRecords (marked ++ news')).bytes)
    (live : ∀ r ∈ news, r.isTombstone = false) (live' : ∀ r ∈ news', r.isTombstone = false) :
    news.map (fun r => r.row) = news'.map fun r => r.row := by
  have all (rs : List (TableRecord n)) (h : ∀ r ∈ rs, r.isTombstone = false) : liveRecords rs = rs :=
    List.filter_eq_self.mpr fun r hr => by simp [isLive, h r hr]
  have rows := rows_of_bytes t same
  simp only [TableFile.withRecords_records, liveRecords_append, List.map_append, all news live,
    all news' live'] at rows
  exact List.append_cancel_left rows

section Kept

variable (env : Env) {node node' : UpdateNode} (sound : Sound t node.tableName w f idx)
  (normalized : normalizeUpdate node w.ctx.untypedTables = .ok (node', true))
  (fits : Fits t f w (.update node))

include sound normalized fits

/-- The records appended by a statement that comes to its upkeep are the rewritten rows. -/
theorem appended_rows (complete : (updateMarks env w node' f.records).stop = none) :
    (∃ (w' : World) (news : List (TableRecord n)),
      (replaceRecords env node' t.schema (atRecords f)).run w = .ok () w' ∧
      HasFile w' node.tableName (f.withRecords (markMatching (accepts (scanned node')) f.records ++ news)) ∧
      ∀ r ∈ news, r.isTombstone = false) ∧
    ∀ (w' : World) (news : List (TableRecord n)),
      (replaceRecords env node' t.schema (atRecords f)).run w = .ok () w' →
      HasFile w' node.tableName (f.withRecords (markMatching (accepts (scanned node')) f.records ++ news)) →
      (∀ r ∈ news, r.isTombstone = false) →
      news.map (fun r => r.row) = ((liveRecords f.records).filter (accepts (scanned node'))).map fun r =>
        rewrittenRow t node' r.row := by
  obtain ⟨name, ready, -⟩ := normalizeUpdate_ok sound.registered.schema normalized
  rw [← name] at sound ⊢
  have marks := scanMarks_of_complete (evaluates_of_complete complete) complete
  obtain ⟨w', _, news, appended, run, sound'⟩ := replaceRecords_of_marks env sound ready (fits node' normalized) marks
  refine ⟨⟨w', news, run, sound'.file, appended.live⟩, fun w'' news' run' file live => ?_⟩
  rw [run] at run'
  cases run'
  have same := Option.some.inj (file.symm.trans sound'.file)
  exact (rows_of_appended t same live appended.live).trans (updatedRecords_rows appended)

end Kept

/-- A rewritten row has the old values where none of them stands in quotes. -/
theorem rewrittenRow_kept_iff (first : t.pkIdx = 0) {tables : Map Bytes Schema} {node node' : UpdateNode}
    (known : tables.lookup node.tableName = some t.schema)
    (normalized : normalizeUpdate node tables = .ok (node', true)) (r : TableRecord n) :
    SameUnassigned t node (rewrittenRow t node' r.row) r.row ↔
      ∀ (i : Nat) (name value : Bytes), (columnNames t.schema)[i]? = some name →
        name ∉ assignedNames node.assignments → r.row[i]? = some value → removeOuterQuotes value = value := by
  have kept {i : Nat} {name value : Bytes} (column : (columnNames t.schema)[i]? = some name)
      (unassigned : name ∉ assignedNames node.assignments) (stored : r.row[i]? = some value) :
      (rewrittenRow t node' r.row)[i]? = some (removeOuterQuotes value) := by
    have inside := (List.getElem?_eq_some_iff.mp stored).1
    rw [r.length_row] at inside
    rw [getElem?_rewrittenRow first node' r inside, updatedValue_kept known normalized column unassigned, stored]
    rfl
  constructor
  · intro same i name value column unassigned stored
    have held := same i name column unassigned
    rw [kept column unassigned stored, stored, Option.some.injEq] at held
    exact held
  · intro plain i name column unassigned
    have inside : i < r.row.length := by
      have place := (List.getElem?_eq_some_iff.mp column).1
      rwa [columnNames, List.length_map, t.width, ← r.length_row] at place
    have stored := List.getElem?_eq_getElem inside
    rw [kept column unassigned stored, plain i name _ column unassigned stored, stored]

/-- The records agree with those they replace if their rows do. -/
theorem forall₂_rows {node : UpdateNode} {news old : List (TableRecord n)} :
    List.Forall₂ (fun row old => SameUnassigned t node row old.row) (news.map fun r => r.row) old ↔
      List.Forall₂ (fun new old => SameUnassigned t node new.row old.row) news old :=
  List.forall₂_map_left_iff

section Statement

variable (env : Env) {node node' : UpdateNode} (sound : Sound t node.tableName w f idx)
  (normalized : normalizeUpdate node w.ctx.untypedTables = .ok (node', true))
  (fits : Fits t f w (.update node))

include sound normalized fits

/-- A statement that comes to its upkeep and changes nothing that it does not assign has
no new record that differs. -/
theorem sameUnassigned_of_keeps (complete : (updateMarks env w node' f.records).stop = none)
    (keeps : KeepsUnassigned env w t f node node') :
    ∀ r ∈ liveRecords f.records, accepts (scanned node') r = true →
      SameUnassigned t node (rewrittenRow t node' r.row) r.row := by
  intro r live yes
  obtain ⟨⟨w', news, run, file, liveNews⟩, rows⟩ := appended_rows env sound normalized fits complete
  have held := forall₂_rows.mpr (keeps w' news run file liveNews)
  rw [rows w' news run file liveNews, List.forall₂_map_left_iff, List.forall₂_same] at held
  exact held r (List.mem_filter.mpr ⟨live, yes⟩)

/-- They do if and only if no matching record stores, in its key or in another column that
is not assigned, a value that stands in quotes of its own. A statement that stops before
it appends leaves nothing to compare. -/
theorem keepsUnassigned_iff (first : t.pkIdx = 0) :
    KeepsUnassigned env w t f node node' ↔
      (Evaluates (scanned node') f.records → node.tableName ∈ w.ctx.deleteCounterPerTable →
        ∀ r ∈ liveRecords f.records, accepts (scanned node') r = true →
          ∀ (i : Nat) (name value : Bytes), (columnNames t.schema)[i]? = some name →
            name ∉ assignedNames node.assignments → r.row[i]? = some value →
              removeOuterQuotes value = value) := by
  obtain ⟨name, ready, -⟩ := normalizeUpdate_ok sound.registered.schema normalized
  have plain_iff := rewrittenRow_kept_iff first sound.registered.schema normalized
  constructor
  · intro keeps evaluates counted r live yes
    have complete := (updateMarks_complete_iff env w evaluates).mpr (.inl (name ▸ counted))
    exact (plain_iff r).mp (sameUnassigned_of_keeps env sound normalized fits complete keeps r live yes)
  · intro plain w' news run file liveNews
    have complete := complete_of_replaceRecords (name ▸ sound) ready run
    have evaluates : Evaluates (scanned node') f.records := evaluates_of_complete complete
    obtain ⟨-, rows⟩ := appended_rows env sound normalized fits complete
    refine forall₂_rows.mp ?_
    rw [rows w' news run file liveNews, List.forall₂_map_left_iff, List.forall₂_same]
    intro r matched
    obtain ⟨live, yes⟩ := List.mem_filter.mp matched
    refine (plain_iff r).mpr ?_
    rcases (updateMarks_complete_iff env w evaluates).mp complete with counted | nothing
    · exact plain evaluates (name ▸ counted) r live yes
    · rw [nothing r live] at yes
      cases yes

end Statement

/-- The key of the row stands in no quotes. -/
theorem keepsUnassigned_iff_pair :
    let file := pairFile [ascii "1"] (ascii "x") (by decide)
    let counters : Map Bytes Nat := Finmap.insert (ascii "people") 0 ∅
    KeepsUnassigned ⟨false, id⟩ (singleTable (ascii "people") pairSchema file counters) pairSchema file
      setName setNameNormalized := by
  intro file counters
  have sound : Sound pairSchema setName.tableName (singleTable (ascii "people") pairSchema file counters) file
      file.index := singleTable_sound _ _ _ _ (pairFile_indexed _ _ _)
  refine (keepsUnassigned_iff ⟨false, id⟩ sound rfl (setName_fits _ _ _) rfl).mpr ?_
  intro _ _ r live _ i name value column unassigned stored
  obtain rfl : r = pairRecord (ascii "1") (ascii "x") (by decide) :=
    List.mem_singleton.mp (mem_liveRecords.mp live).1
  match i, column, stored with
  | 0, column, stored =>
      cases stored
      decide
  | 1, column, stored =>
      cases column
      exact absurd (List.mem_singleton.mpr rfl) unassigned

/-- A key that was written in quotes is another one after `SET name = 'y'`. -/
theorem not_keepsUnassigned :
    let quoted := ascii "\"1\""
    let file := pairFile [quoted] (ascii "x") (by decide)
    let counters : Map Bytes Nat := Finmap.insert (ascii "people") 0 ∅
    let w := singleTable (ascii "people") pairSchema file counters
    writtenRecord pairSchema .insert [true, true] [some ⟨.string, ascii "'\"1\"'"⟩, some ⟨.string, ascii "'x'"⟩] =
        .ok (pairRecord quoted (ascii "x") (by decide)).toStoredRecord ∧
      normalizeUpdate setName w.ctx.untypedTables = .ok (setNameNormalized, true) ∧
      validateUpdateSemantics setNameNormalized w.ctx = .ok none ∧
      ¬ KeepsUnassigned ⟨false, id⟩ w pairSchema file setName setNameNormalized := by
  intro quoted file counters w
  refine ⟨rfl, rfl, rfl, fun keeps => ?_⟩
  have sound : Sound pairSchema setName.tableName w file file.index :=
    singleTable_sound _ _ _ _ (pairFile_indexed _ _ _)
  have evaluates : Evaluates (scanned setNameNormalized) file.records := fun _ _ => ⟨true, rfl⟩
  have complete := (updateMarks_complete_iff ⟨false, id⟩ w evaluates).mpr (.inl (Finmap.mem_insert.mpr (.inl rfl)))
  have same := sameUnassigned_of_keeps ⟨false, id⟩ sound rfl (setName_fits _ _ _) complete keeps
    (pairRecord quoted (ascii "x") (by decide)) (mem_liveRecords.mpr ⟨List.mem_cons_self, rfl⟩) rfl 0 (ascii "id") rfl
    (by decide)
  exact absurd same (by decide)

/-! Assigned columns -/

/-- Where a record stores the value of the schema column `i`, which is not the key. -/
def storedPlace (t : TableSchema n) (i : Nat) : Nat := if i < t.pkIdx then i + 1 else i

/-- The serializer stores the value of a column at its place. -/
theorem recordPayload_place {record : ValueRecordNode} {projectionMask : List Bool}
    (recordWidth : record.length = t.schema.length) (maskWidth : projectionMask.length = t.schema.length)
    {type : RecordType} {p : RecordPayload}
    (written : recordPayload t.schema (columnCodes t.schema) record projectionMask type = .ok p) {i : Nat}
    (inside : i < t.schema.length) (other : i ≠ t.pkIdx) :
    ∃ value, p.record.row[storedPlace t i]? = some value ∧
      storedValue t record projectionMask i = .ok value := by
  rw [recordPayload_eq] at written
  cases stored : writtenRecord t type projectionMask record with
  | error e =>
      rw [stored] at written
      cases written
  | ok r =>
      rw [stored] at written
      cases written
      obtain ⟨key, values, -, payload, -, rfl⟩ := writtenRecord_ok stored
      have width := t.width
      have key_ := t.pkIdx_lt
      by_cases before : i < t.pkIdx
      · obtain ⟨value, place, at_⟩ := getElem?_payloadValues recordWidth maskWidth payload
          (show i < n by omega)
        rw [if_pos before] at at_
        refine ⟨value, ?_, at_⟩
        rw [storedPlace, if_pos before]
        exact place
      · obtain ⟨j, rfl⟩ : ∃ j, i = j + 1 := ⟨i - 1, by omega⟩
        obtain ⟨value, place, at_⟩ := getElem?_payloadValues recordWidth maskWidth payload
          (show j < n by omega)
        rw [if_neg (by omega)] at at_
        refine ⟨value, ?_, at_⟩
        rw [storedPlace, if_neg before]
        exact place

/-- A literal that is given is stored without its outer quotes. -/
theorem storedValue_given {record : ValueRecordNode} {projectionMask : List Bool} {i : Nat} {literal : LiteralNode}
    (given : record[i]? = some (some literal)) (listed : projectionMask[i]? = some true)
    (nonempty : literal.type ≠ .empty) (inside : i < t.schema.length) (other : i ≠ t.pkIdx) :
    storedValue t record projectionMask i = .ok (removeOuterQuotes literal.value) := by
  have column : index t.schema i = .ok t.schema[i] := by rw [index, List.getElem?_eq_getElem inside]
  have lit : index record i = .ok (some literal) := by rw [index, given]
  have mask : index projectionMask i = .ok true := by rw [index, listed]
  rw [storedValue, lit, mask, column, ok_bind, ok_bind, ok_bind, if_neg other, finalLiteral, if_neg (by simpa using nonempty)]

theorem findColumn_ne_pkIdx {name : Bytes} (known : findColumn t.schema name ≠ t.schema.length)
    (notKey : name ≠ t.pkColName) : findColumn t.schema name ≠ t.pkIdx := by
  intro same
  have place := getElem?_findColumn known
  rw [same, columnNames, List.getElem?_map, t.getElem?_pkIdx, Option.map_some, t.pkCol_name,
    Option.some.injEq] at place
  exact notKey place.symm

section Literal

variable {tables : Map Bytes Schema} {literal : LiteralNode} {contents : Bytes}
  (written : WrittenLiteral literal contents) {name : Bytes}

include written

/-- `INSERT` stores the contents of the literal. -/
theorem insertedValue {insert insert' : InsertNode} (known : tables.lookup insert.tableName = some t.schema)
    (normalized : normalizeInsert insert tables = (insert', .normalized)) {record : ValueRecordNode}
    (mem : record ∈ insert'.records) {i : Nat} (given : record[i]? = some (some literal))
    (listed : insert'.projectionMask[i]? = some true) (other : i ≠ t.pkIdx) {p : RecordPayload}
    (inserted : recordPayload t.schema (columnCodes t.schema) record insert'.projectionMask .insert = .ok p) :
    p.record.row[storedPlace t i]? = some contents := by
  obtain ⟨-, mask, records, -⟩ := normalizeInsert_ok known normalized
  have maskWidth : insert'.projectionMask.length = t.schema.length := by
    rw [projectionMaskOf_length _ mask, List.length_replicate]
  have recordWidth : record.length = t.schema.length := by
    rw [records] at mem
    obtain ⟨raw, -, rfl⟩ := List.mem_map.mp mem
    rw [length_normalizeRow, List.length_replicate]
  have inside : i < t.schema.length := recordWidth ▸ (List.getElem?_eq_some_iff.mp given).1
  obtain ⟨value, place, stored⟩ := recordPayload_place recordWidth maskWidth inserted inside other
  rw [storedValue_given given listed written.type_ne inside other, Except.ok.injEq] at stored
  rw [place, ← stored, written.removeOuterQuotes_value]

/-- `UPDATE` stores the contents of the contents. -/
theorem updatedStoredValue {node node' : UpdateNode} (known : tables.lookup node.tableName = some t.schema)
    (normalized : normalizeUpdate node tables = .ok (node', true)) (parsed : node.schemaIndexToLiteralMap = ∅)
    (assigned : ⟨name, literal⟩ ∈ node.assignments) (r : TableRecord n) {record : ValueRecordNode}
    (values : updatedRecord node' t.schema r.row = .ok record) {p : RecordPayload}
    (updated : recordPayload t.schema (columnCodes t.schema) record (List.replicate t.schema.length true)
      .update = .ok p) :
    p.record.row[storedPlace t (findColumn t.schema name)]? = some (removeOuterQuotes contents) := by
  obtain ⟨accepted, -, -⟩ := normalizeUpdate_assignments known normalized
  obtain ⟨place, -, notKey⟩ := normalizeAssignments_new node.assignments _ accepted _ assigned
  have other := findColumn_ne_pkIdx place notKey
  have inside : findColumn t.schema name < t.schema.length := by
    have bound := (List.getElem?_eq_some_iff.mp (getElem?_findColumn place)).1
    rwa [columnNames, List.length_map] at bound
  have ready := (normalizeUpdate_ok known normalized).2.1
  rw [updatedRecord_eq ready r, Except.ok.injEq] at values
  subst values
  have width : (updatedRow node' r.row).length = t.schema.length := by
    rw [length_updatedRow, r.length_row, t.width]
  obtain ⟨value, at_, stored⟩ := recordPayload_place (by rw [stringRecord, List.length_map, width])
    List.length_replicate updated inside other
  have given : (stringRecord (updatedRow node' r.row))[findColumn t.schema name]? =
      some (some ⟨.string, contents⟩) := by
    rw [stringRecord, List.getElem?_map, getElem?_updatedRow node' (by rw [r.length_row, ← t.width]; exact inside),
      updatedValue_assigned known normalized parsed assigned, written.removeOuterQuotes_value]
    rfl
  rw [storedValue_given given (by rw [List.getElem?_replicate, if_pos inside]) (by rintro ⟨⟩) inside other,
    Except.ok.injEq] at stored
  rw [at_, ← stored]

end Literal

/-- The two statements store the contents of a literal if and only if these do not stand in
quotes themselves. -/
theorem storesContents_iff {tables : Map Bytes Schema} {literal : LiteralNode} {contents name : Bytes}
    (written : WrittenLiteral literal contents) {insert insert' : InsertNode}
    (knownInsert : tables.lookup insert.tableName = some t.schema)
    (normalizedInsert : normalizeInsert insert tables = (insert', .normalized)) {node node' : UpdateNode}
    (known : tables.lookup node.tableName = some t.schema)
    (normalized : normalizeUpdate node tables = .ok (node', true)) (parsed : node.schemaIndexToLiteralMap = ∅)
    (assigned : ⟨name, literal⟩ ∈ node.assignments) {given : ValueRecordNode} (mem : given ∈ insert'.records)
    (value : given[findColumn t.schema name]? = some (some literal))
    (listed : insert'.projectionMask[findColumn t.schema name]? = some true) {p p' : RecordPayload}
    (inserted : recordPayload t.schema (columnCodes t.schema) given insert'.projectionMask .insert = .ok p)
    (r : TableRecord n) {record : ValueRecordNode} (values : updatedRecord node' t.schema r.row = .ok record)
    (updated : recordPayload t.schema (columnCodes t.schema) record (List.replicate t.schema.length true)
      .update = .ok p') :
    let place := storedPlace t (findColumn t.schema name)
    (p.record.row[place]? = some contents ∧ p'.record.row[place]? = some contents) ↔
      removeOuterQuotes contents = contents := by
  intro place
  obtain ⟨accepted, -, -⟩ := normalizeUpdate_assignments known normalized
  obtain ⟨there, -, notKey⟩ := normalizeAssignments_new node.assignments _ accepted _ assigned
  have first := insertedValue written knownInsert normalizedInsert mem value listed
    (findColumn_ne_pkIdx there notKey) inserted
  have second := updatedStoredValue written known normalized parsed assigned r values updated
  rw [first, second]
  exact ⟨fun h => Option.some.inj h.2, fun plain => ⟨rfl, congrArg some plain⟩⟩

/-- `INSERT` of `'y'` and `SET name = 'y'`. -/
theorem storesContents_iff_pair :
    let r := pairRecord (ascii "1") (ascii "x") (by decide)
    let tables : Map Bytes Schema := Finmap.insert (ascii "people") pairSchema.schema ∅
    let given : ValueRecordNode := [some ⟨.number, ascii "2"⟩, some ⟨.string, ascii "'y'"⟩]
    ∃ node' record p p', normalizeUpdate setName tables = .ok (node', true) ∧
      updatedRecord node' pairSchema.schema r.row = .ok record ∧
      recordPayload pairSchema.schema (columnCodes pairSchema.schema) given [true, true] .insert = .ok p ∧
      recordPayload pairSchema.schema (columnCodes pairSchema.schema) record [true, true] .update = .ok p' ∧
      p.record.row[1]? = some (ascii "y") ∧ p'.record.row[1]? = some (ascii "y") := by
  intro r tables given
  have known : tables.lookup (ascii "people") = some pairSchema.schema := Finmap.lookup_insert _
  have normalized : normalizeInsert ⟨ascii "people", none, [given], []⟩ tables =
      (⟨ascii "people", some [ascii "id", ascii "name"], [given], [true, true]⟩, .normalized) := rfl
  have updated : normalizeUpdate setName tables = .ok (setNameNormalized, true) := rfl
  have assigned : (⟨ascii "name", ⟨.string, ascii "'y'"⟩⟩ : AssignmentNode) ∈ setName.assignments :=
    List.mem_cons_self
  refine ⟨setNameNormalized, stringRecord [ascii "1", ascii "y"], _, _, updated, rfl, rfl, rfl, ?_⟩
  exact (storesContents_iff (.lexeme (.string (ascii "y"))) known normalized known updated rfl assigned
    List.mem_cons_self rfl rfl rfl r rfl rfl).mpr (by decide)

/-- `INSERT` of `'"y"'` keeps the double quotes and `SET name = '"y"'` does not. -/
theorem not_storesContents :
    let quoted := ascii "\"y\""
    let r := pairRecord (ascii "1") (ascii "x") (by decide)
    let tables : Map Bytes Schema := Finmap.insert (ascii "people") pairSchema.schema ∅
    let literal : LiteralNode := ⟨.string, ascii "'\"y\"'"⟩
    let given : ValueRecordNode := [some ⟨.number, ascii "2"⟩, some literal]
    ∃ node' record p p', WrittenLiteral literal quoted ∧
      normalizeUpdate ⟨ascii "people", [⟨ascii "name", literal⟩], none, [], ∅⟩ tables = .ok (node', true) ∧
      updatedRecord node' pairSchema.schema r.row = .ok record ∧
      recordPayload pairSchema.schema (columnCodes pairSchema.schema) given [true, true] .insert = .ok p ∧
      recordPayload pairSchema.schema (columnCodes pairSchema.schema) record [true, true] .update = .ok p' ∧
      p.record.row[1]? = some quoted ∧ p'.record.row[1]? = some (ascii "y") := by
  intro quoted r tables literal given
  exact ⟨⟨ascii "people", [⟨ascii "name", ⟨.string, quoted⟩⟩], none, [true, false], Finmap.insert 1 quoted ∅⟩,
    stringRecord [ascii "1", quoted], _, _, .lexeme (.string quoted), rfl, rfl, rfl, rfl, rfl, rfl⟩

end Jssql.FileHandler
