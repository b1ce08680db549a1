import Jssql.Theory.DeleteReader
import Jssql.Theory.SelectRuns

/-!
Conditions on named columns. A record stores its key first and the other columns in
the order of the schema; `DELETE` finds a column through its code and `SELECT` through
its index in the schema. With distinct names the first is the column that is named,
and with the key in front of the schema the second is as well.
-/
namespace Jssql.FileHandler
open Foundation ConditionEvaluator SemanticNormalizer

variable {n : Nat} {t : TableSchema n} {r : TableRecord n}

theorem lookup_zip {α β : Type} [BEq α] [LawfulBEq α] (a : α) (as : List α) : ∀ bs : List β,
    as.length = bs.length → (as.zip bs).lookup a = bs[as.idxOf a]? := by
  induction as with
  | nil =>
      intro bs width
      rw [List.length_eq_zero_iff.mp width.symm]
      rfl
  | cons x as ih =>
      intro bs width
      cases bs with
      | nil => cases width
      | cons b bs =>
          rw [List.zip_cons_cons, List.lookup_cons]
          by_cases same : a = x
          · subst same
            rw [beq_self_eq_true, List.idxOf_cons_self]
            rfl
          · rw [beq_false_of_ne same, List.idxOf_cons_ne _ (Ne.symm same)]
            exact ih bs (Nat.succ.inj width)

/-! Names and values -/

/-- The names of the columns in the order in which a record stores the values. -/
def storedNames (t : TableSchema n) : List Bytes := t.pkColName :: columnNames t.payloadSchema

/-- The value that a record stores for the column of this name. -/
def columnValue (t : TableSchema n) (name : Bytes) (r : TableRecord n) : Option Bytes :=
  ((storedNames t).zip r.row).lookup name

theorem length_storedNames (t : TableSchema n) (r : TableRecord n) :
    (storedNames t).length = r.row.length := by
  rw [storedNames, List.length_cons, columnNames, List.length_map, t.length_payloadSchema, r.length_row]

theorem columnValue_eq (name : Bytes) : columnValue t name r = r.row[(storedNames t).idxOf name]? :=
  lookup_zip name (storedNames t) r.row (length_storedNames t r)

/-- The condition of a `WHERE` clause, on the column that it names. -/
def conditionHolds (t : TableSchema n) (optWhere : Option WhereNode) (r : TableRecord n) :
    Except Fault Bool :=
  match optWhere with
  | none => .ok true
  | some w =>
      match columnValue t w.condition.colName r with
      | some value => evaluateComparator value w.condition.cmp w.condition.literal
      | none => .ok false

/-! `DELETE` -/

/-- With distinct codes the last value that has the code is the first. -/
theorem lastField_eq_lookup (code : Bytes → UInt8) (name : Bytes) (names : List Bytes)
    (apart : ∀ a ∈ names, code a = code name → a = name) (distinct : names.Nodup) :
    ∀ (values : List Bytes) (offset : Nat) (found : Option (Nat × Bytes)),
      (lastField (code name) offset ((names.map code).zip values) found).map Prod.snd =
        ((names.zip values).lookup name).or (found.map Prod.snd) := by
  induction names with
  | nil => intro values offset found; simp [lastField]
  | cons a names ih =>
      intro values offset found
      cases values with
      | nil => simp [lastField]
      | cons value values =>
          rw [List.nodup_cons] at distinct
          rw [List.map_cons, List.zip_cons_cons, List.zip_cons_cons, lastField, List.lookup_cons,
            ih (fun b hb => apart b (List.mem_cons_of_mem _ hb)) distinct.2]
          by_cases same : a = name
          · subst same
            have later : (names.zip values).lookup a = none :=
              List.lookup_eq_none_iff.mpr fun p hp => bne_iff_ne.mpr fun same =>
                distinct.1 (same ▸ (List.of_mem_zip hp).1)
            rw [later, if_pos rfl, beq_self_eq_true]
            rfl
          · have other : code a ≠ code name := fun h => same (apart a List.mem_cons_self h)
            rw [if_neg other, beq_false_of_ne (Ne.symm same)]

/-- The stored columns are those of the schema, the key moved to the front. -/
theorem storedNames_perm (t : TableSchema n) : (storedNames t).Perm (columnNames t.schema) := by
  have moved := List.getElem_cons_eraseIdx_perm t.pkIdx_lt
  have names := moved.map UntypedColumnDefNode.name
  rw [List.map_cons] at names
  rw [storedNames, ← t.pkCol_name]
  exact names

theorem deletedValue_eq (distinct : (columnNames t.schema).Nodup) {name : Bytes}
    (known : name ∈ columnNames t.schema) (r : TableRecord n) :
    deletedValue t name r = columnValue t name r := by
  have perm := storedNames_perm t
  have stored := perm.nodup_iff.mpr distinct
  rw [storedNames, List.nodup_cons] at stored
  rw [deletedValue, columnValue, storedNames, StoredRecord.row, List.zip_cons_cons, List.lookup_cons]
  by_cases isKey : t.pkColName = name
  · rw [if_pos isKey, isKey, beq_self_eq_true]
  · have found := lastField_eq_lookup t.codeOf name (columnNames t.payloadSchema)
      (fun a ha same => t.codeOf_inj (perm.subset (List.mem_cons_of_mem _ ha)) known same) stored.2
      r.payloadLiterals 0 none
    rw [if_neg isKey, beq_false_of_ne (Ne.symm isKey), fieldOf, TableSchema.payloadCodes]
    rw [columnNames, List.map_map] at found
    rw [Option.map_none, Option.or_none] at found
    exact found

/-- With distinct names the scan of `DELETE` compares the column that is named. -/
theorem deleteMatches_eq (distinct : (columnNames t.schema).Nodup) {optWhere : Option WhereNode}
    (column : ColumnKnown t optWhere) (r : TableRecord n) :
    deleteMatches t optWhere r = conditionHolds t optWhere r := by
  cases optWhere with
  | none => rfl
  | some w =>
      refine congrArg (fun value : Option Bytes => match value with
        | some value => evaluateComparator value w.condition.cmp w.condition.literal
        | none => .ok false) ?_
      exact deletedValue_eq distinct (column w rfl) r

/-! `SELECT` -/

theorem schema_of_first (first : t.pkIdx = 0) : ∃ cols, t.schema = t.pkCol :: cols := by
  have head := t.getElem?_pkIdx
  rw [first] at head
  cases schema : t.schema with
  | nil => rw [schema] at head; cases head
  | cons col cols =>
      rw [schema] at head
      cases head
      exact ⟨cols, rfl⟩

theorem storedNames_of_first (first : t.pkIdx = 0) : storedNames t = columnNames t.schema := by
  obtain ⟨cols, schema⟩ := schema_of_first first
  rw [storedNames, TableSchema.payloadSchema, first, ← t.pkCol_name, schema]
  rfl

/-- With the key in front the scan of `SELECT` compares the column that is named. -/
theorem whereMatches_eq (first : t.pkIdx = 0) {optWhere : Option WhereNode}
    (column : ColumnKnown t optWhere) (r : TableRecord n) :
    whereMatches (indexedWhere t.schema optWhere) r.row = conditionHolds t optWhere r := by
  cases optWhere with
  | none => rfl
  | some w =>
      have place : findColumn t.schema w.condition.colName = (storedNames t).idxOf w.condition.colName := by
        rw [storedNames_of_first first, findColumn]
      have inside : findColumn t.schema w.condition.colName < t.schema.length := by
        rw [findColumn, ← List.length_map (f := UntypedColumnDefNode.name)]
        exact List.idxOf_lt_length_iff.mpr (column w rfl)
      have few := t.few
      have code : (UInt8.ofNat (findColumn t.schema w.condition.colName)).toNat =
          (storedNames t).idxOf w.condition.colName := by
        rw [← place, UInt8.toNat_ofNat', Nat.mod_eq_of_lt (by omega)]
      have bound : (storedNames t).idxOf w.condition.colName < r.row.length := by
        rw [← place, r.length_row, ← t.width]
        exact inside
      obtain ⟨stored, value⟩ : ∃ stored, r.row[(storedNames t).idxOf w.condition.colName]? = some stored :=
        ⟨_, List.getElem?_eq_getElem bound⟩
      have compared := value
      rw [← code] at compared
      rw [conditionHolds, columnValue_eq, value]
      exact whereMatches_of_getElem? compared

end Jssql.FileHandler
