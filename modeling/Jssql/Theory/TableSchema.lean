import Jssql.Theory.Readers

/-!
A schema the engine can work with: it has a key column, and so few columns that
each index fits the 8-bit codes. `columnCodes` is what the initializer computes
for such a schema; equal names share a code, different names have different ones.
-/
namespace Jssql.FileHandler
open Foundation

/-- A schema with a key column and at most 255 columns, `n` of them besides the key. -/
structure TableSchema (n : Nat) where
  schema : Schema
  pkColName : Bytes
  width : schema.length = n + 1
  few : schema.length ≤ 255
  key : extractPrimaryKeyColumn schema = .ok pkColName

theorem extractPrimaryKeyColumn_eq_ok {schema : Schema} {name : Bytes} :
    extractPrimaryKeyColumn schema = .ok name ↔
      ∃ h : schema.findIdx isPrimaryKey < schema.length,
        (schema[schema.findIdx isPrimaryKey]).name = name := by
  induction schema with
  | nil => simp [extractPrimaryKeyColumn]
  | cons col rest ih =>
      cases key : isPrimaryKey col with
      | true => simp [extractPrimaryKeyColumn, key, List.findIdx_cons]
      | false =>
          rw [extractPrimaryKeyColumn, key, if_neg Bool.false_ne_true, ih]
          simp [List.findIdx_cons, key]

/-- A schema has one key column. -/
theorem TableSchema.eq_of_schema {n : Nat} {t u : TableSchema n} (same : t.schema = u.schema) : t = u := by
  have name := t.key
  rw [same, u.key, Except.ok.injEq] at name
  cases t
  cases u
  cases same
  cases name
  rfl

/-- The codes of the columns from `code` on, as `assignColumnCodes` gives them. -/
def columnCodesFrom (code : Nat) (schema : Schema) (codes : Map Bytes UInt8) : Map Bytes UInt8 :=
  match schema with
  | [] => codes
  | col :: cols => columnCodesFrom (code + 1) cols (codes.insert col.name (UInt8.ofNat code))

def columnCodes (schema : Schema) : Map Bytes UInt8 := columnCodesFrom 0 schema ∅

/-- The codes run out at the 256th column, which ends the process unless the logger
is silent; then they start again at zero. -/
theorem assignColumnCodes_run (env : Env) (schema : Schema) (w : World) :
    ∀ (code : Nat) (codes : Map Bytes UInt8), (code ≤ 255 ∨ env.silent = true) →
      (assignColumnCodes env (UInt8.ofNat code) schema codes).run w =
        if env.silent = true ∨ code + schema.length ≤ 255 then .ok (columnCodesFrom code schema codes) w
        else .error (.exit .colOffsetRegionHasMoreColsThanAllowed) w := by
  induction schema with
  | nil =>
      intro code codes start
      rw [if_pos (start.symm.imp id fun h => by simpa using h)]
      rfl
  | cons col cols ih =>
      intro code codes start
      have next : UInt8.ofNat code + 1 = UInt8.ofNat (code + 1) := by
        rw [UInt8.ofNat_add]
        rfl
      have width : code + (col :: cols).length = (code + 1) + cols.length := by
        rw [List.length_cons, Nat.add_right_comm, Nat.add_assoc]
      rw [assignColumnCodes, next, columnCodesFrom, width]
      by_cases silent : env.silent = true
      · have go := ih (code + 1) (codes.insert col.name (UInt8.ofNat code)) (.inr silent)
        have quiet : (handleFatalError env .colOffsetRegionHasMoreColsThanAllowed : Exec Unit) =
            pure () := by rw [handleFatalError, silent, if_pos rfl]
        refine Eq.trans ?_ (if_pos (.inl silent)).symm
        rw [if_pos (.inl silent)] at go
        split
        · rw [quiet]
          exact go
        · exact go
      · have loud : env.silent = false := by simpa using silent
        have bound : code ≤ 255 := start.resolve_right silent
        by_cases last : code = 255
        · subst last
          have stop : (handleFatalError env .colOffsetRegionHasMoreColsThanAllowed : Exec Unit) =
              throw (.exit .colOffsetRegionHasMoreColsThanAllowed) := by
            rw [handleFatalError, loud]
            rfl
          have tooMany : ¬ (env.silent = true ∨ 255 + 1 + cols.length ≤ 255) := by
            rintro (quiet | fits)
            · exact silent quiet
            · omega
          rw [if_pos (by decide), stop, if_neg tooMany]
          rfl
        · have nonzero : UInt8.ofNat (code + 1) ≠ 0 := by
            intro zero
            have := congrArg UInt8.toNat zero
            rw [UInt8.toNat_ofNat', UInt8.toNat_zero] at this
            omega
          rw [if_neg nonzero]
          exact ih (code + 1) _ (.inl (by omega))

/-- A code is the index of a column with the name. -/
theorem columnCodesFrom_lookup (schema : Schema) (name : Bytes) :
    ∀ (code : Nat) (codes : Map Bytes UInt8) (c : UInt8),
      (columnCodesFrom code schema codes).lookup name = some c →
      codes.lookup name = some c ∨
        ∃ i, ∃ h : i < schema.length, schema[i].name = name ∧ c = UInt8.ofNat (code + i) := by
  induction schema with
  | nil => intro code codes c h; exact .inl h
  | cons col cols ih =>
      intro code codes c h
      rcases ih (code + 1) _ c h with inserted | ⟨i, hi, named, value⟩
      · by_cases same : name = col.name
        · subst same
          rw [Finmap.lookup_insert, Option.some.injEq] at inserted
          exact .inr ⟨0, by simp, rfl, inserted.symm⟩
        · rw [Finmap.lookup_insert_of_ne _ same] at inserted
          exact .inl inserted
      · exact .inr ⟨i + 1, by simpa using hi, named, by rw [value, Nat.add_right_comm]; rfl⟩

theorem columnCodesFrom_mem (schema : Schema) (name : Bytes) :
    ∀ (code : Nat) (codes : Map Bytes UInt8),
      name ∈ columnCodesFrom code schema codes ↔ name ∈ codes ∨ name ∈ columnNames schema := by
  induction schema with
  | nil => simp [columnCodesFrom, columnNames]
  | cons col cols ih =>
      intro code codes
      rw [columnCodesFrom, ih, Finmap.mem_insert]
      simp only [columnNames, List.map_cons, List.mem_cons]
      tauto

theorem columnCodes_injective {schema : Schema} (few : schema.length ≤ 256) {a b : Bytes} {c : UInt8}
    (ha : (columnCodes schema).lookup a = some c) (hb : (columnCodes schema).lookup b = some c) :
    a = b := by
  have place (name : Bytes) (h : (columnCodes schema).lookup name = some c) :
      ∃ i, ∃ h : i < schema.length, schema[i].name = name ∧ c = UInt8.ofNat i := by
    rcases columnCodesFrom_lookup schema name 0 ∅ c h with none_ | found
    · simp at none_
    · simpa using found
  obtain ⟨i, hi, rfl, hci⟩ := place a ha
  obtain ⟨j, hj, rfl, hcj⟩ := place b hb
  have same : i = j := by
    have := congrArg UInt8.toNat (hci.symm.trans hcj)
    rw [UInt8.toNat_ofNat', UInt8.toNat_ofNat'] at this
    omega
  subst same
  rfl

namespace TableSchema

variable {n : Nat} (t : TableSchema n)

/-- The position of the key column. -/
def pkIdx : Nat := t.schema.findIdx isPrimaryKey

theorem pkIdx_lt : t.pkIdx < t.schema.length :=
  (extractPrimaryKeyColumn_eq_ok.mp t.key).1

def pkCol : UntypedColumnDefNode := t.schema.get ⟨t.pkIdx, t.pkIdx_lt⟩

theorem pkCol_name : t.pkCol.name = t.pkColName :=
  (extractPrimaryKeyColumn_eq_ok.mp t.key).2

theorem getElem?_pkIdx : t.schema[t.pkIdx]? = some t.pkCol :=
  List.getElem?_eq_getElem t.pkIdx_lt

theorem pkColName_mem : t.pkColName ∈ columnNames t.schema :=
  t.pkCol_name ▸ List.mem_map_of_mem (List.mem_of_getElem? t.getElem?_pkIdx)

theorem primaryKeyIndex_eq : primaryKeyIndex t.schema = .ok t.pkIdx := by
  have := t.pkIdx_lt
  have few := t.few
  rw [primaryKeyIndex]
  exact if_pos (show t.schema.findIdx isPrimaryKey < 256 by rw [pkIdx] at this; omega)

theorem columnsWithoutPk_eq : columnsWithoutPk t.schema = n := by
  have width := t.width
  cases h : t.schema with
  | nil => rw [h] at width; cases width
  | cons col cols => rw [h] at width; exact Nat.succ.inj width

/-- The columns besides the key, in the order of the schema. -/
def payloadSchema : Schema := t.schema.eraseIdx t.pkIdx

theorem length_payloadSchema : t.payloadSchema.length = n := by
  rw [payloadSchema, List.length_eraseIdx_of_lt t.pkIdx_lt, t.width]
  rfl

def codeOf (name : Bytes) : UInt8 := ((columnCodes t.schema).lookup name).getD 0

/-- The codes in the offset region of every record. -/
def payloadCodes : List UInt8 := t.payloadSchema.map fun col => t.codeOf col.name

theorem length_payloadCodes : t.payloadCodes.length = n := by
  rw [payloadCodes, List.length_map, t.length_payloadSchema]

theorem lookup_codeOf {name : Bytes} (h : name ∈ columnNames t.schema) :
    (columnCodes t.schema).lookup name = some (t.codeOf name) := by
  have mem : name ∈ columnCodes t.schema :=
    (columnCodesFrom_mem t.schema name 0 ∅).mpr (.inr h)
  obtain ⟨c, hc⟩ := Finmap.mem_iff.mp mem
  rw [codeOf, hc]
  rfl

theorem codeOf_inj {a b : Bytes} (ha : a ∈ columnNames t.schema) (hb : b ∈ columnNames t.schema)
    (h : t.codeOf a = t.codeOf b) : a = b :=
  columnCodes_injective (Nat.le_succ_of_le t.few) (t.lookup_codeOf ha) (h ▸ t.lookup_codeOf hb)

end TableSchema
end Jssql.FileHandler
