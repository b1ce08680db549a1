import Jssql.Theory.ColumnLists
import Jssql.Theory.SoundTables
import Jssql.Theory.StoredValues

/-!
The records of an `INSERT` that the validator has accepted. Each of them can be computed
where the defaults it takes can, and only the cutting out of a default can fail.
-/
namespace Jssql.FileHandler
open Foundation SemanticNormalizer SemanticValidator

variable {n : Nat} {w : World} {t : TableSchema n} {f : TableFile n} {idx : Index}
  {record : ValueRecordNode} {projectionMask : List Bool}

/-! The verdict on each record -/

theorem validateRecord_value {table : Bytes} {pkIndex : Index} {projectionMask : List Bool}
    {vals : ValueRecordNode} (cols : Schema) : ∀ {j : Nat} {seen seen' : List Bytes},
      validateRecord table pkIndex projectionMask vals j cols seen = .ok (.ok seen') →
      ∀ (i : Nat) (col : UntypedColumnDefNode) (lit : Option LiteralNode), cols[i]? = some col →
        vals[j + i]? = some lit → ∃ isWritten, projectionMask[j + i]? = some isWritten ∧
          ∃ before behind, validateValue table pkIndex col lit isWritten before = .ok behind := by
  induction cols with
  | nil => intro j seen seen' _ i col lit hcol; cases hcol
  | cons head rest ih =>
      intro j seen seen' valid i col lit hcol hlit
      rw [validateRecord] at valid
      cases first : vals[j]? with
      | none => rw [index, first] at valid; cases valid
      | some lit₀ =>
          cases mask : projectionMask[j]? with
          | none => rw [index, index, first, mask] at valid; cases valid
          | some isWritten =>
              rw [index, index, first, mask, ok_bind, ok_bind] at valid
              cases value : validateValue table pkIndex head lit₀ isWritten seen with
              | error report => rw [value] at valid; cases valid
              | ok seen₁ =>
                  rw [value] at valid
                  cases i with
                  | zero =>
                      cases hcol
                      cases first.symm.trans hlit
                      exact ⟨isWritten, mask, _, _, value⟩
                  | succ i =>
                      have shift : j + (i + 1) = j + 1 + i := by omega
                      rw [shift] at hlit ⊢
                      exact ih valid i col lit hcol hlit

theorem validateRecords_record {table : Bytes} {pkIndex : Index} {projectionMask : List Bool}
    {schema : Schema} (records : List ValueRecordNode) : ∀ {seen : List Bytes},
      validateRecords table pkIndex projectionMask schema records seen = .ok none →
      ∀ vals ∈ records, ∃ before behind,
        validateRecord table pkIndex projectionMask vals 0 schema before = .ok (.ok behind) := by
  induction records with
  | nil => intro seen _ vals mem; cases mem
  | cons vals records ih =>
      intro seen valid
      rw [validateRecords] at valid
      split at valid
      · cases valid
      · cases first : validateRecord table pkIndex projectionMask vals 0 schema seen with
        | error e => rw [first] at valid; cases valid
        | ok verdict =>
            rw [first] at valid
            cases verdict with
            | error report => cases valid
            | ok seen' => exact List.forall_mem_cons.mpr ⟨⟨seen, seen', first⟩, ih valid⟩

/-- An accepted statement has accepted records. -/
theorem validateInsertSemantics_record {w : World} {node : InsertNode}
    (known : w.ctx.untypedTables.lookup node.tableName = some t.schema)
    (valid : validateInsertSemantics node w.ctx = .ok none) {record : ValueRecordNode}
    (mem : record ∈ node.records) : ∃ pkIndex before behind,
      validateRecord node.tableName pkIndex node.projectionMask record 0 t.schema before = .ok (.ok behind) := by
  rw [validateInsertSemantics, known] at valid
  dsimp only at valid
  cases key : primaryKeyIndexOf w.ctx node.tableName t.schema with
  | error e => rw [key] at valid; cases valid
  | ok entry =>
      rw [key, ok_bind] at valid
      exact ⟨entry.2, validateRecords_record node.records valid record mem⟩

/-! What can fail -/

theorem getDefaultValue_error {modifiers : List Bytes} {e : Fault} (h : getDefaultValue modifiers = .error e) :
    e = .exception .substr := by
  induction modifiers with
  | nil => cases h
  | cons modifier rest ih =>
      rw [getDefaultValue] at h
      split at h
      · rw [substr] at h
        split at h <;> cases h
        rfl
      · exact ih h

theorem finalLiteral_error {col : UntypedColumnDefNode} {lit : Option LiteralNode} {userProvided : Bool} {e : Fault}
    (h : finalLiteral col lit userProvided = .error e) : e = .exception .substr := by
  cases lit with
  | none => exact getDefaultValue_error h
  | some l =>
      rw [finalLiteral] at h
      split at h
      · exact getDefaultValue_error h
      · cases h

theorem payloadValues_error (maskWidth : projectionMask.length = t.schema.length)
    (recordWidth : record.length = t.schema.length) (cols : Schema) : ∀ {i : Nat} {e : Fault},
      i + cols.length = t.schema.length →
      payloadValues record projectionMask t.pkIdx i cols = .error e → e = .exception .substr := by
  induction cols with
  | nil => intro i e _ h; cases h
  | cons col cols ih =>
      intro i e all h
      rw [List.length_cons] at all
      have lit : index record i = .ok record[i] := by rw [index, List.getElem?_eq_getElem (by omega)]
      have mask : index projectionMask i = .ok projectionMask[i] := by
        rw [index, List.getElem?_eq_getElem (by omega)]
      rw [payloadValues] at h
      split at h
      · exact ih (by omega) h
      · rw [lit, mask, ok_bind, ok_bind] at h
        cases value : finalLiteral col record[i] projectionMask[i] with
        | error e' =>
            rw [value] at h
            cases h
            exact finalLiteral_error value
        | ok literal =>
            rw [value, ok_bind] at h
            cases rest : payloadValues record projectionMask t.pkIdx (i + 1) cols with
            | error e' =>
                rw [rest] at h
                cases h
                exact ih (by omega) rest
            | ok values => rw [rest] at h; cases h

section Record

variable (maskWidth : projectionMask.length = t.schema.length) (recordWidth : record.length = t.schema.length)
  {table : Bytes} {pkIndex : Index} {seenKeys seenKeys' : List Bytes}
  (valid : validateRecord table pkIndex projectionMask record 0 t.schema seenKeys = .ok (.ok seenKeys'))

include maskWidth recordWidth valid

/-- An accepted record can be computed where its defaults can. -/
theorem writtenRecord_ok_iff (type : RecordType) : (∃ r, writtenRecord t type projectionMask record = .ok r) ↔
    DefaultsReadable t record projectionMask := by
  rw [← storedValue_ok_iff recordWidth maskWidth valid]
  constructor
  · rintro ⟨r, written⟩ i inside
    obtain ⟨key, values, hkey, hvalues, -, -⟩ := writtenRecord_ok written
    have width := t.width
    by_cases isKey : i = t.pkIdx
    · subst isKey
      exact ⟨key, (storedValue_key maskWidth).trans hkey⟩
    · have key_ := t.pkIdx_lt
      by_cases before : i < t.pkIdx
      · obtain ⟨value, -, stored⟩ := getElem?_payloadValues recordWidth maskWidth hvalues (show i < n by omega)
        rw [if_pos before] at stored
        exact ⟨value, stored⟩
      · obtain ⟨j, rfl⟩ : ∃ j, i = j + 1 := ⟨i - 1, by omega⟩
        obtain ⟨value, -, stored⟩ := getElem?_payloadValues recordWidth maskWidth hvalues (show j < n by omega)
        rw [if_neg (by omega)] at stored
        exact ⟨value, stored⟩
  · intro all
    obtain ⟨key, values, -, -, written⟩ := writtenRecord_of_storedValue recordWidth maskWidth type all
    exact ⟨_, written⟩

/-- Where it cannot, the fault is the exception of `substr`. -/
theorem writtenRecord_error {type : RecordType} {e : Fault}
    (h : writtenRecord t type projectionMask record = .error e) : e = .exception .substr := by
  have column := List.getElem?_eq_getElem t.pkIdx_lt
  obtain ⟨node, given⟩ := validateRecord_key t.schema valid t.pkIdx _ column
    (List.findIdx_getElem (w := t.pkIdx_lt))
  rw [Nat.zero_add] at given
  have hkey : serializedKey t record = .ok (removeOuterQuotes node.value) := by
    rw [serializedKey, index, given]
    rfl
  rw [writtenRecord, hkey, ok_bind] at h
  cases values : payloadValues record projectionMask t.pkIdx 0 t.schema with
  | error e' =>
      rw [values] at h
      cases h
      exact payloadValues_error maskWidth recordWidth t.schema (Nat.zero_add _) values
  | ok values => rw [values] at h; cases h

end Record

/-! The batch -/

section Statement

variable {node node' : InsertNode} (sound : Sound t node.tableName w f idx)
  (normalized : normalizeInsert node w.ctx.untypedTables = (node', .normalized))
  (valid : validateInsertSemantics node' w.ctx = .ok none)

include sound normalized valid

/-- The records of an accepted batch, each computed where its defaults can. -/
theorem accepted_records : ∀ record ∈ node'.records,
    ((∃ r, writtenRecord t .insert node'.projectionMask record = .ok r) ↔
      DefaultsReadable t record node'.projectionMask) ∧
    ∀ e, writtenRecord t .insert node'.projectionMask record = .error e → e = .exception .substr := by
  obtain ⟨name, mask, records, -⟩ := normalizeInsert_ok sound.registered.schema normalized
  intro record mem
  have maskWidth : node'.projectionMask.length = t.schema.length := by
    rw [projectionMaskOf_length _ mask, List.length_replicate]
  have recordWidth : record.length = t.schema.length := by
    rw [records] at mem
    obtain ⟨raw, -, rfl⟩ := List.mem_map.mp mem
    rw [length_normalizeRow, List.length_replicate]
  obtain ⟨_, _, _, accepted⟩ := validateInsertSemantics_record (name ▸ sound.registered.schema) valid mem
  exact ⟨writtenRecord_ok_iff maskWidth recordWidth accepted .insert,
    fun e failed => writtenRecord_error maskWidth recordWidth accepted failed⟩

end Statement

end Jssql.FileHandler
