import Jssql.Theory.SelectRuns

/-!
Lists of columns. `SELECT` makes a mask of its list; `INSERT` makes one as well and moves
the values of each record to the places of the listed columns. Names that are listed once
get the value at their place in the list.
-/
namespace Jssql.FileHandler
open Foundation SemanticNormalizer

variable {n : Nat} {t : TableSchema n} {schema : Schema}

/-! Places -/

theorem getElem?_findColumn {name : Bytes} (known : findColumn schema name ≠ schema.length) :
    (columnNames schema)[findColumn schema name]? = some name := by
  have bound : findColumn schema name < (columnNames schema).length := by
    have le := List.idxOf_le_length (a := name) (l := columnNames schema)
    rw [columnNames, List.length_map] at le ⊢
    exact Nat.lt_of_le_of_ne le known
  rw [List.getElem?_eq_getElem bound]
  exact congrArg some (List.getElem_idxOf bound)

theorem findColumn_inj {a b : Bytes} (known : findColumn schema a ≠ schema.length)
    (same : findColumn schema a = findColumn schema b) : a = b := by
  have ha := getElem?_findColumn known
  rw [same, getElem?_findColumn (same ▸ known), Option.some.injEq] at ha
  exact ha.symm

/-! Masks -/

theorem map_set_idxOf {α β : Type} [BEq α] [LawfulBEq α] [DecidableEq α] (g : α → β) (a : α) (b : β) (as : List α)
    (distinct : as.Nodup) :
    (as.map g).set (as.idxOf a) b = as.map fun x => if x = a then b else g x := by
  induction as with
  | nil => rfl
  | cons x as ih =>
      rw [List.nodup_cons] at distinct
      by_cases same : x = a
      · subst same
        have others : as.map (fun y => if y = x then b else g y) = as.map g :=
          List.map_congr_left fun y hy => if_neg fun (h : y = x) => distinct.1 (h ▸ hy)
        rw [List.idxOf_cons_self, List.map_cons, List.set_cons_zero, List.map_cons, if_pos rfl, others]
      · rw [List.idxOf_cons_ne _ same, List.map_cons, List.set_cons_succ, List.map_cons, if_neg same,
          ih distinct.2]

/-- With distinct names the mask has the listed columns. -/
theorem projectionMaskOf_eq (distinct : (columnNames schema).Nodup) (names : List Bytes) :
    ∀ {g : Bytes → Bool} {mask : List Bool},
      projectionMaskOf schema names ((columnNames schema).map g) = .ok mask →
        mask = (columnNames schema).map fun name => g name || decide (name ∈ names) := by
  induction names with
  | nil =>
      intro g mask h
      cases h
      simp
  | cons name names ih =>
      intro g mask h
      rw [projectionMaskOf] at h
      split at h
      · cases h
      · rw [findColumn, map_set_idxOf g name true _ distinct] at h
        rw [ih h]
        refine List.map_congr_left fun x _ => ?_
        by_cases same : x = name <;> simp [same]

theorem projectionMaskOf_known (names : List Bytes) : ∀ {mask mask' : List Bool},
    projectionMaskOf schema names mask = .ok mask' →
      ∀ name ∈ names, findColumn schema name ≠ schema.length := by
  induction names with
  | nil => intro mask mask' _ name h; cases h
  | cons head names ih =>
      intro mask mask' h
      rw [projectionMaskOf] at h
      split at h
      · cases h
      · next known =>
          rw [List.forall_mem_cons]
          exact ⟨known, ih h⟩

/-! Rows -/

@[simp] theorem length_normalizeRow (record : ValueRecordNode) (names : List Bytes) :
    ∀ (j : Nat) (row : ValueRecordNode), (normalizeRow schema record j names row).length = row.length := by
  induction names with
  | nil => intro j row; rfl
  | cons name names ih =>
      intro j row
      rw [normalizeRow, ih, List.length_set]

/-- A place that no listed column has is left as it is. -/
theorem normalizeRow_frame (record : ValueRecordNode) {i : Nat} (names : List Bytes) :
    ∀ (j : Nat) (row : ValueRecordNode), (∀ name ∈ names, findColumn schema name ≠ i) →
      (normalizeRow schema record j names row)[i]? = row[i]? := by
  induction names with
  | nil => intro j row _; rfl
  | cons name names ih =>
      intro j row apart
      rw [List.forall_mem_cons] at apart
      rw [normalizeRow, ih (j + 1) _ apart.2, List.getElem?_set_ne apart.1]

/-- The value of the list's place `k`, an empty literal where the record has none. -/
def listedValue (record : ValueRecordNode) (k : Nat) : Option LiteralNode :=
  (record[k]?).getD (some emptyLiteral)

/-- A column that is listed once gets the value of its place in the list. -/
theorem normalizeRow_value (record : ValueRecordNode) (names : List Bytes) (distinct : names.Nodup)
    (known : ∀ name ∈ names, findColumn schema name ≠ schema.length) :
    ∀ (j : Nat) (row : ValueRecordNode), row.length = schema.length → ∀ (k : Nat) (name : Bytes),
      names[k]? = some name →
        (normalizeRow schema record j names row)[findColumn schema name]? =
          some (listedValue record (j + k)) := by
  induction names with
  | nil => intro j row _ k name h; cases h
  | cons head names ih =>
      intro j row width k name place
      rw [List.nodup_cons] at distinct
      rw [List.forall_mem_cons] at known
      rw [normalizeRow]
      cases k with
      | zero =>
          cases place
          have apart (other : Bytes) (mem : other ∈ names) : findColumn schema other ≠ findColumn schema head :=
            fun same => distinct.1 (findColumn_inj (known.2 other mem) same ▸ mem)
          have inside : findColumn schema head < row.length := by
            have bound := (List.getElem?_eq_some_iff.mp (getElem?_findColumn known.1)).1
            rwa [columnNames, List.length_map, ← width] at bound
          rw [normalizeRow_frame record names (j + 1) _ apart]
          exact List.getElem?_set_self inside
      | succ k =>
          have later := ih distinct.2 known.2 (j + 1) (row.set (findColumn schema head)
            (listedValue record j)) (by rw [List.length_set, width]) k name place
          rw [Nat.add_assoc, Nat.add_comm 1 k] at later
          exact later

/-! Batches -/

/-- An accepted batch has no record wider than the table, and each is rearranged. -/
theorem normalizeRecords_ok {columns : List Bytes} (records : List ValueRecordNode) :
    ∀ {records' : List ValueRecordNode}, normalizeRecords schema columns records = (records', true) →
      records' = records.map (fun record =>
        normalizeRow schema record 0 columns (List.replicate schema.length none)) ∧
      ∀ record ∈ records, record.length ≤ schema.length := by
  induction records with
  | nil =>
      intro records' h
      cases h
      exact ⟨rfl, by simp⟩
  | cons record records ih =>
      intro records' h
      rw [normalizeRecords] at h
      split at h
      · cases h
      · next fits =>
          cases rest : normalizeRecords schema columns records with
          | mk rest_ ok =>
              rw [rest] at h
              obtain ⟨rfl, rfl⟩ := Prod.mk.inj h
              obtain ⟨rfl, widths⟩ := ih rest
              rw [List.forall_mem_cons]
              exact ⟨rfl, Nat.le_of_not_lt fits, widths⟩

/-- The columns that an `INSERT` is about. -/
def listedColumns (schema : Schema) (node : InsertNode) : List Bytes :=
  node.columns.getD (columnNames schema)

/-- What a successful normalization of an `INSERT` on a known table makes of it. -/
theorem normalizeInsert_ok {node node' : InsertNode} {tables : Map Bytes Schema}
    (known : tables.lookup node.tableName = some schema)
    (h : normalizeInsert node tables = (node', .normalized)) :
    node'.tableName = node.tableName ∧
      projectionMaskOf schema (listedColumns schema node) (List.replicate schema.length false) =
        .ok node'.projectionMask ∧
      node'.records = node.records.map (fun record =>
        normalizeRow schema record 0 (listedColumns schema node) (List.replicate schema.length none)) ∧
      ∀ record ∈ node.records, record.length ≤ schema.length := by
  simp only [normalizeInsert, known] at h
  cases mask : projectionMaskOf schema (node.columns.getD (columnNames schema))
      (List.replicate schema.length false) with
  | error name =>
      rw [mask] at h
      cases h
  | ok mask' =>
      rw [mask] at h
      cases records : normalizeRecords schema (node.columns.getD (columnNames schema)) node.records with
      | mk records' ok =>
          rw [records] at h
          cases ok with
          | false => cases h
          | true =>
              cases h
              obtain ⟨rearranged, widths⟩ := normalizeRecords_ok node.records records
              exact ⟨rfl, mask, rearranged, widths⟩

end Jssql.FileHandler
