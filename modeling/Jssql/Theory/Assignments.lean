import Jssql.Theory.ColumnLists
import Jssql.Theory.TextRecords

/-!
The assignments of an `UPDATE`. The normalizer leaves a column that is not assigned as it
is, and an accepted list assigns a column once, so that the literal of each assignment is
the one that is written. Its quotes are off by then.
-/
namespace Jssql.FileHandler
open Foundation SemanticNormalizer

variable {n : Nat}

/-- The columns that the assignments are about. -/
def assignedNames (assignments : List AssignmentNode) : List Bytes := assignments.map (·.colName)

/-- Columns without an assignment keep their entries. -/
theorem normalizeAssignments_frame {schema : Schema} (primaryKeyCol : Bytes) {i : Nat} {name : Bytes}
    (column : (columnNames schema)[i]? = some name) (assignments : List AssignmentNode) :
    ∀ st : AssignmentState, name ∉ assignedNames assignments →
      (normalizeAssignments schema primaryKeyCol assignments st).2.1.inverseProjMask[i]? =
        st.inverseProjMask[i]? ∧
      (normalizeAssignments schema primaryKeyCol assignments st).2.1.schemaIndexToLiteralMap.lookup i =
        st.schemaIndexToLiteralMap.lookup i := by
  induction assignments with
  | nil => intro st _; exact ⟨rfl, rfl⟩
  | cons assignment rest ih =>
      intro st unassigned
      rw [assignedNames, List.map_cons, List.mem_cons, not_or] at unassigned
      obtain ⟨other, later⟩ := unassigned
      simp only [normalizeAssignments]
      by_cases unknown : findColumn schema assignment.colName = schema.length
      · rw [if_pos unknown]
        exact ⟨rfl, rfl⟩
      · have apart : findColumn schema assignment.colName ≠ i := by
          rintro rfl
          rw [getElem?_findColumn unknown, Option.some.injEq] at column
          exact other column.symm
        have mask : (st.inverseProjMask.set (findColumn schema assignment.colName) false)[i]? =
            st.inverseProjMask[i]? := List.getElem?_set_ne apart
        have literal (value : Bytes) : (if findColumn schema assignment.colName ∈ st.schemaIndexToLiteralMap
            then st.schemaIndexToLiteralMap
            else st.schemaIndexToLiteralMap.insert (findColumn schema assignment.colName) value).lookup i =
              st.schemaIndexToLiteralMap.lookup i := by
          split
          · rfl
          · exact Finmap.lookup_insert_of_ne _ apart.symm
        rw [if_neg unknown]
        split
        · exact ⟨mask, literal _⟩
        · split
          · exact ⟨mask, literal _⟩
          · obtain ⟨mask', literal'⟩ := ih _ later
            exact ⟨mask'.trans mask, literal'.trans (literal _)⟩

section Accepted

variable {schema : Schema} {primaryKeyCol : Bytes}

/-- An accepted list goes on behind its first assignment. -/
theorem normalizeAssignments_cons {assignment : AssignmentNode} {rest : List AssignmentNode} {st : AssignmentState}
    (accepted : (normalizeAssignments schema primaryKeyCol (assignment :: rest) st).2.2 = true) :
    let schemaIndex := findColumn schema assignment.colName
    let next : AssignmentState := ⟨st.inverseProjMask.set schemaIndex false,
      if schemaIndex ∈ st.schemaIndexToLiteralMap then st.schemaIndexToLiteralMap
      else st.schemaIndexToLiteralMap.insert schemaIndex (removeOuterQuotes assignment.literal.value),
      assignment.colName :: st.assignedColumns⟩
    schemaIndex ≠ schema.length ∧ assignment.colName ∉ st.assignedColumns ∧
      assignment.colName ≠ primaryKeyCol ∧
      (normalizeAssignments schema primaryKeyCol (assignment :: rest) st).2 =
        (normalizeAssignments schema primaryKeyCol rest next).2 := by
  simp only [normalizeAssignments] at accepted ⊢
  by_cases unknown : findColumn schema assignment.colName = schema.length
  · rw [if_pos unknown] at accepted
    cases accepted
  · by_cases again : assignment.colName ∈ st.assignedColumns
    · rw [if_neg unknown, if_pos again] at accepted
      cases accepted
    · by_cases isKey : assignment.colName = primaryKeyCol
      · rw [if_neg unknown, if_neg again, if_pos isKey] at accepted
        cases accepted
      · rw [if_neg unknown, if_neg again, if_neg isKey]
        exact ⟨unknown, again, isKey, rfl⟩

theorem normalizeAssignments_new (assignments : List AssignmentNode) : ∀ st : AssignmentState,
    (normalizeAssignments schema primaryKeyCol assignments st).2.2 = true →
      ∀ assignment ∈ assignments, findColumn schema assignment.colName ≠ schema.length ∧
        assignment.colName ∉ st.assignedColumns ∧ assignment.colName ≠ primaryKeyCol := by
  induction assignments with
  | nil => intro st _ assignment h; cases h
  | cons head rest ih =>
      intro st accepted
      obtain ⟨known, new, notKey, step⟩ := normalizeAssignments_cons accepted
      rw [step] at accepted
      rw [List.forall_mem_cons]
      refine ⟨⟨known, new, notKey⟩, fun assignment later => ?_⟩
      obtain ⟨known', new', notKey'⟩ := ih _ accepted assignment later
      exact ⟨known', fun old => new' (List.mem_cons_of_mem _ old), notKey'⟩

/-- In an accepted list each assignment is the one that counts. -/
theorem normalizeAssignments_value (assignments : List AssignmentNode) : ∀ st : AssignmentState,
    (normalizeAssignments schema primaryKeyCol assignments st).2.2 = true →
    (∀ name, findColumn schema name ≠ schema.length →
      findColumn schema name ∈ st.schemaIndexToLiteralMap → name ∈ st.assignedColumns) →
    st.inverseProjMask.length = schema.length →
      ∀ assignment ∈ assignments,
        (normalizeAssignments schema primaryKeyCol assignments st).2.1.inverseProjMask[
          findColumn schema assignment.colName]? = some false ∧
        (normalizeAssignments schema primaryKeyCol assignments st).2.1.schemaIndexToLiteralMap.lookup
          (findColumn schema assignment.colName) = some (removeOuterQuotes assignment.literal.value) := by
  induction assignments with
  | nil => intro st _ _ _ assignment h; cases h
  | cons head rest ih =>
      intro st accepted assigned width
      obtain ⟨known, new, -, step⟩ := normalizeAssignments_cons accepted
      rw [step] at accepted ⊢
      have free : findColumn schema head.colName ∉ st.schemaIndexToLiteralMap := fun there =>
        new (assigned head.colName known there)
      rw [if_neg free] at accepted ⊢
      rw [List.forall_mem_cons]
      constructor
      · -- the later assignments are about other columns
        have apart : head.colName ∉ assignedNames rest := by
          intro again
          obtain ⟨later, mem, same⟩ := List.mem_map.mp again
          exact (normalizeAssignments_new rest _ accepted later mem).2.1 (same ▸ List.mem_cons_self)
        obtain ⟨mask, literal⟩ := normalizeAssignments_frame _ (getElem?_findColumn known) rest _ apart
        have inside : findColumn schema head.colName < st.inverseProjMask.length := by
          have place := (List.getElem?_eq_some_iff.mp (getElem?_findColumn known)).1
          rwa [columnNames, List.length_map, ← width] at place
        refine ⟨mask.trans ?_, literal.trans (Finmap.lookup_insert _)⟩
        exact List.getElem?_set_self inside
      · refine ih _ accepted (fun name known' there => ?_) (by rw [List.length_set, width])
        rcases Finmap.mem_insert.mp there with same | old
        · rw [findColumn_inj known' same]
          exact List.mem_cons_self
        · exact List.mem_cons_of_mem _ (assigned name known' old)

end Accepted

/-! The statement -/

section Update

variable {tables : Map Bytes Schema} {t : TableSchema n} {node node' : UpdateNode}
  (known : tables.lookup node.tableName = some t.schema)
  (normalized : normalizeUpdate node tables = .ok (node', true))

include known normalized

theorem normalizeUpdate_assignments :
    let final := normalizeAssignments t.schema t.pkColName node.assignments
      ⟨List.replicate t.schema.length true, node.schemaIndexToLiteralMap, []⟩
    final.2.2 = true ∧ node'.inverseProjMask = final.2.1.inverseProjMask ∧
      node'.schemaIndexToLiteralMap = final.2.1.schemaIndexToLiteralMap := by
  simp only [normalizeUpdate, known, t.key, ok_bind] at normalized
  split at normalized
  · cases normalized
  · split at normalized
    · cases normalized
    · next accepted =>
        obtain ⟨nodes, -⟩ := Prod.mk.inj (Except.ok.inj normalized)
        subst nodes
        exact ⟨by simpa using accepted, rfl, rfl⟩

/-- A column that is not assigned keeps its value. -/
theorem updatedValue_kept {i : Nat} {name : Bytes} (column : (columnNames t.schema)[i]? = some name)
    (unassigned : name ∉ assignedNames node.assignments) (row : Record) :
    updatedValue node' row i = (row[i]?).getD [] := by
  obtain ⟨-, mask, -⟩ := normalizeUpdate_assignments known normalized
  have frame := normalizeAssignments_frame t.pkColName column node.assignments
    ⟨List.replicate t.schema.length true, node.schemaIndexToLiteralMap, []⟩ unassigned
  have inside : i < t.schema.length := by
    have place := (List.getElem?_eq_some_iff.mp column).1
    rwa [columnNames, List.length_map] at place
  have keep : node'.inverseProjMask[i]? = some true := by
    rw [mask, frame.1, List.getElem?_replicate, if_pos inside]
  rw [updatedValue, if_pos keep]

/-- An assigned column gets the literal without its quotes. -/
theorem updatedValue_assigned (parsed : node.schemaIndexToLiteralMap = ∅) {assignment : AssignmentNode}
    (mem : assignment ∈ node.assignments) (row : Record) :
    updatedValue node' row (findColumn t.schema assignment.colName) =
      removeOuterQuotes assignment.literal.value := by
  obtain ⟨accepted, mask, literals⟩ := normalizeUpdate_assignments known normalized
  have none_ (name : Bytes) (_ : findColumn t.schema name ≠ t.schema.length)
      (there : findColumn t.schema name ∈ node.schemaIndexToLiteralMap) : name ∈ ([] : List Bytes) := by
    rw [parsed] at there
    exact absurd there Finmap.notMem_empty
  obtain ⟨assigned, literal⟩ := normalizeAssignments_value node.assignments _ accepted none_
    List.length_replicate assignment mem
  rw [← mask] at assigned
  rw [← literals] at literal
  rw [updatedValue, if_neg (by rw [assigned]; simp), literal, Option.getD_some]

end Update

end Jssql.FileHandler
