import Jssql.Theory.SoundTables

/-!
Records of texts, as `UPDATE` and `IMPORT` write them. Every column is given, so no
default is taken and the record can always be computed: the key in front, the other
texts behind it, each without its outer quotes.
-/
namespace Jssql.FileHandler
open Foundation

variable {n : Nat} {t : TableSchema n} {row : Record}

theorem index_stringRecord {i : Nat} {text : Bytes} (given : row[i]? = some text) :
    index (stringRecord row) i = .ok (some ⟨.string, text⟩) := by
  rw [index, stringRecord, List.getElem?_map, given]
  rfl

theorem index_allColumns {i : Nat} (inside : i < t.schema.length) :
    index (allColumns t) i = .ok true := by
  rw [index, allColumns, List.getElem?_replicate, if_pos inside]

theorem serializedKey_string {key : Bytes} (given : row[t.pkIdx]? = some key) :
    serializedKey t (stringRecord row) = .ok (removeOuterQuotes key) := by
  rw [serializedKey, index_stringRecord given]
  rfl

/-- The first text of the rest, and the others. -/
theorem payloadValues_string_cons {i : Nat} {text : Bytes} {texts : Record}
    (width : row.length = t.schema.length) (rest : row.drop i = text :: texts) (other : i ≠ t.pkIdx)
    (col : UntypedColumnDefNode) (cols : Schema) :
    payloadValues (stringRecord row) (allColumns t) t.pkIdx i (col :: cols) =
      (payloadValues (stringRecord row) (allColumns t) t.pkIdx (i + 1) cols).map
        (removeOuterQuotes text :: ·) := by
  have given : row[i]? = some text := by
    rw [← List.head?_drop, rest]
    rfl
  obtain ⟨inside, -⟩ := List.getElem?_eq_some_iff.mp given
  rw [payloadValues, if_neg other, index_stringRecord given, index_allColumns (width ▸ inside), ok_bind, ok_bind]
  rfl

theorem drop_succ_of_cons {α : Type} {xs rest : List α} {x : α} {i : Nat} (h : xs.drop i = x :: rest) :
    xs.drop (i + 1) = rest := by
  rw [← List.tail_drop, h]
  rfl

/-- Behind the key all texts are written. -/
theorem payloadValues_string_behind (width : row.length = t.schema.length) (cols : Schema) : ∀ {i : Nat},
    t.pkIdx < i → i + cols.length = t.schema.length →
      payloadValues (stringRecord row) (allColumns t) t.pkIdx i cols =
        .ok ((row.drop i).map removeOuterQuotes) := by
  induction cols with
  | nil =>
      intro i _ all
      rw [List.drop_eq_nil_of_le (by simpa [width] using Nat.le_of_eq all.symm)]
      rfl
  | cons col cols ih =>
      intro i behind all
      rw [List.length_cons] at all
      cases rest : row.drop i with
      | nil =>
          have := List.drop_eq_nil_iff.mp rest
          omega
      | cons text texts =>
          rw [payloadValues_string_cons width rest (by omega), ih (by omega) (by omega),
            drop_succ_of_cons rest]
          rfl

/-- Up to the key the texts are written but for the key's. -/
theorem payloadValues_string (width : row.length = t.schema.length) (cols : Schema) : ∀ {i : Nat},
    i ≤ t.pkIdx → i + cols.length = t.schema.length →
      payloadValues (stringRecord row) (allColumns t) t.pkIdx i cols =
        .ok (((row.drop i).eraseIdx (t.pkIdx - i)).map removeOuterQuotes) := by
  induction cols with
  | nil =>
      intro i _ all
      rw [List.drop_eq_nil_of_le (by simpa [width] using Nat.le_of_eq all.symm)]
      rfl
  | cons col cols ih =>
      intro i before all
      rw [List.length_cons] at all
      cases rest : row.drop i with
      | nil =>
          have := List.drop_eq_nil_iff.mp rest
          omega
      | cons text texts =>
          by_cases here : i = t.pkIdx
          · subst here
            rw [payloadValues, if_pos rfl, payloadValues_string_behind width cols (Nat.lt_succ_self _) (by omega),
              drop_succ_of_cons rest, Nat.sub_self]
            rfl
          · have step : t.pkIdx - i = (t.pkIdx - (i + 1)) + 1 := by omega
            rw [payloadValues_string_cons width rest here, ih (by omega) (by omega), drop_succ_of_cons rest, step]
            rfl

/-- The texts in the order of the file, the key first. -/
def keyFirst (t : TableSchema n) (row : Record) : Record :=
  (row[t.pkIdx]?).getD [] :: row.eraseIdx t.pkIdx

theorem writtenRecord_string (type : RecordType) (width : row.length = n + 1) :
    ∃ key values, (keyFirst t row).map removeOuterQuotes = key :: values ∧
      writtenRecord t type (allColumns t) (stringRecord row) = .ok (storedRecord t type key values) := by
  have schema : row.length = t.schema.length := width.trans t.width.symm
  have inside : t.pkIdx < row.length := schema ▸ t.pkIdx_lt
  have given := List.getElem?_eq_getElem inside
  refine ⟨_, _, rfl, ?_⟩
  rw [writtenRecord, serializedKey_string given, payloadValues_string schema t.schema (Nat.zero_le _)
    (Nat.zero_add _), given]
  rfl

/-- Records of texts of the table's width can all be written. -/
theorem writtenRecords_string (type : RecordType) {rows : List Record}
    (width : ∀ row ∈ rows, row.length = n + 1) :
    (writtenRecords t type (allColumns t) (rows.map stringRecord)).2 = none ∧
      (writtenRecords t type (allColumns t) (rows.map stringRecord)).1.map (fun r => r.row) =
        rows.map fun row => (keyFirst t row).map removeOuterQuotes := by
  induction rows with
  | nil => exact ⟨rfl, rfl⟩
  | cons row rows ih =>
      rw [List.forall_mem_cons] at width
      obtain ⟨key, values, stored, written⟩ := writtenRecord_string (t := t) type width.1
      obtain ⟨complete, texts⟩ := ih width.2
      rw [List.map_cons, writtenRecords, written]
      refine ⟨complete, ?_⟩
      rw [List.map_cons, texts, List.map_cons, stored]
      rfl

theorem Appended.rows_string {type : RecordType} {rows : List Record} {rs : List (TableRecord n)}
    (appended : Appended t type (allColumns t) (rows.map stringRecord) rs)
    (width : ∀ row ∈ rows, row.length = n + 1) :
    rs.map (fun r => r.row) = rows.map fun row => (keyFirst t row).map removeOuterQuotes := by
  obtain ⟨_, texts⟩ := writtenRecords_string (t := t) type width
  rw [← appended.stored, List.map_map] at texts
  exact texts

/-! Rows of any width -/

theorem index_error {α : Type} {xs : List α} {i : Nat} {e : Fault} (h : index xs i = .error e) :
    e = .undefined .outOfBounds := by
  rw [index] at h
  split at h <;> cases h
  rfl

theorem of_index_stringRecord {i : Nat} {lit : Option LiteralNode}
    (h : index (stringRecord row) i = .ok lit) : ∃ text, lit = some ⟨.string, text⟩ := by
  rw [index, stringRecord, List.getElem?_map] at h
  cases given : row[i]? with
  | none => rw [given] at h; cases h
  | some text => rw [given] at h; cases h; exact ⟨text, rfl⟩

theorem of_index_allColumns {i : Nat} {isWritten : Bool} (h : index (allColumns t) i = .ok isWritten) :
    isWritten = true := by
  rw [index, allColumns, List.getElem?_replicate] at h
  by_cases inside : i < t.schema.length
  · rw [if_pos inside] at h
    exact (Except.ok.inj h).symm
  · rw [if_neg inside] at h
    cases h

theorem payloadValues_string_error (cols : Schema) : ∀ {i : Nat} {e : Fault},
    payloadValues (stringRecord row) (allColumns t) t.pkIdx i cols = .error e → e = .undefined .outOfBounds := by
  induction cols with
  | nil => intro i e h; cases h
  | cons col cols ih =>
      intro i e h
      rw [payloadValues] at h
      split at h
      · exact ih h
      · cases lit : index (stringRecord row) i with
        | error e' =>
            rw [lit] at h
            cases h
            exact index_error lit
        | ok l =>
            cases mask : index (allColumns t) i with
            | error e' =>
                rw [lit, mask] at h
                cases h
                exact index_error mask
            | ok isWritten =>
                obtain ⟨text, rfl⟩ := of_index_stringRecord lit
                obtain rfl := of_index_allColumns mask
                rw [lit, mask, ok_bind, ok_bind] at h
                cases rest : payloadValues (stringRecord row) (allColumns t) t.pkIdx (i + 1) cols with
                | error e' =>
                    rw [rest] at h
                    cases h
                    exact ih rest
                | ok values => rw [rest] at h; cases h

/-- A row that cannot be written is read behind its end. -/
theorem writtenRecord_string_error {type : RecordType} {e : Fault}
    (h : writtenRecord t type (allColumns t) (stringRecord row) = .error e) : e = .undefined .outOfBounds := by
  rw [writtenRecord] at h
  cases key : serializedKey t (stringRecord row) with
  | error e' =>
      rw [key] at h
      cases h
      rw [serializedKey] at key
      cases lit : index (stringRecord row) t.pkIdx with
      | error e' =>
          rw [lit] at key
          cases key
          exact index_error lit
      | ok l =>
          obtain ⟨text, rfl⟩ := of_index_stringRecord lit
          rw [lit] at key
          cases key
  | ok k =>
      rw [key, ok_bind] at h
      cases values : payloadValues (stringRecord row) (allColumns t) t.pkIdx 0 t.schema with
      | error e' =>
          rw [values] at h
          cases h
          exact payloadValues_string_error t.schema values
      | ok vs => rw [values] at h; cases h

/-- The values of a row after the assignments, as they are stored. -/
def rewrittenRow (t : TableSchema n) (node : UpdateNode) (row : Record) : Record :=
  (keyFirst t (updatedRow node row)).map removeOuterQuotes

theorem getElem?_updatedRow (node : UpdateNode) {row : Record} {i : Nat} (inside : i < row.length) :
    (updatedRow node row)[i]? = some (updatedValue node row i) := by
  rw [updatedRow, List.getElem?_map, List.getElem?_range' inside, Nat.zero_add, Nat.one_mul]
  rfl

theorem length_updatedRow (node : UpdateNode) (row : Record) : (updatedRow node row).length = row.length := by
  rw [updatedRow, List.length_map, List.length_range']

theorem updatedRecords_rows {node : UpdateNode} {matched rs : List (TableRecord n)}
    (appended : Appended t .update (allColumns t) (updatedRecords node matched) rs) :
    rs.map (fun r => r.row) = matched.map fun r => rewrittenRow t node r.row := by
  have texts : updatedRecords node matched = (matched.map fun r => updatedRow node r.row).map stringRecord := by
    rw [updatedRecords, List.map_map]
    rfl
  rw [texts] at appended
  refine (appended.rows_string fun row hrow => ?_).trans ?_
  · obtain ⟨r, -, rfl⟩ := List.mem_map.mp hrow
    rw [length_updatedRow, r.length_row]
  · rw [List.map_map]
    rfl

theorem updatedRecords_complete (t : TableSchema n) (node : UpdateNode) (matched : List (TableRecord n)) :
    (writtenRecords t .update (allColumns t) (updatedRecords node matched)).2 = none := by
  have texts : updatedRecords node matched = (matched.map fun r => updatedRow node r.row).map stringRecord := by
    rw [updatedRecords, List.map_map]
    rfl
  rw [texts]
  refine (writtenRecords_string .update fun row hrow => ?_).1
  obtain ⟨r, -, rfl⟩ := List.mem_map.mp hrow
  rw [length_updatedRow, r.length_row]

end Jssql.FileHandler
