import Jssql.Theory.Appending

/-!
How a record is framed. The length counts the bytes behind it, and the offset that
the region gives a column leads, from behind the key, to the size and the bytes of
the value stored for that column.
-/
namespace Jssql.FileHandler
open Foundation

variable {n : Nat}

/-- The value stored for a column that is not the key: the text of its literal
without the outer quotes, or its default where no literal counts. -/
def StoredFor (col : UntypedColumnDefNode) (lit : Option LiteralNode) (given : Bool)
    (value : Bytes) : Prop :=
  (∃ l, lit = some l ∧ given = true ∧ l.type ≠ .empty ∧ value = removeOuterQuotes l.value) ∨
  ((lit = none ∨ given = false ∨ ∃ l, lit = some l ∧ l.type = .empty) ∧
    getDefaultValue col.modifiers = .ok value)

theorem finalLiteral_storedFor {col : UntypedColumnDefNode} {lit : Option LiteralNode} {given : Bool}
    {value : Bytes} (h : finalLiteral col lit given = .ok value) : StoredFor col lit given value := by
  cases lit with
  | none => exact .inr ⟨.inl rfl, h⟩
  | some l =>
      rw [finalLiteral] at h
      cases given with
      | false => exact .inr ⟨.inr (.inl rfl), by simpa using h⟩
      | true =>
          by_cases empty : l.type = .empty
          · exact .inr ⟨.inr (.inr ⟨l, rfl, empty⟩), by simpa [empty] using h⟩
          · rw [if_neg (by simp [empty])] at h
            cases h
            exact .inl ⟨l, rfl, rfl, empty, rfl⟩

/-- Each column besides the key has its value at the column's place in the list. -/
theorem payloadValues_split {record : ValueRecordNode} {projectionMask : List Bool} {pkIdx : Nat}
    (cols : Schema) : ∀ {i : Nat} {values : List Bytes},
      payloadValues record projectionMask pkIdx i cols = .ok values →
      ∀ (j : Nat) (col : UntypedColumnDefNode), cols[j]? = some col → i + j ≠ pkIdx →
        ∃ lit given value before after, record[i + j]? = some lit ∧
          projectionMask[i + j]? = some given ∧ finalLiteral col lit given = .ok value ∧
          (besides pkIdx i cols).zip values = before ++ (col, value) :: after := by
  induction cols with
  | nil => intro i values _ j col h; cases h
  | cons head rest ih =>
      intro i values h j col hcol other
      rw [payloadValues] at h
      by_cases here : i = pkIdx
      · rw [if_pos here] at h
        rw [besides, if_pos here]
        cases j with
        | zero => exact absurd here other
        | succ j =>
            have shift : i + (j + 1) = (i + 1) + j := by omega
            rw [shift] at other ⊢
            exact ih h j col hcol other
      · rw [if_neg here] at h
        rw [besides, if_neg here]
        cases hl : record[i]? with
        | none => rw [index, hl] at h; cases h
        | some lit =>
            cases hm : projectionMask[i]? with
            | none => rw [index, index, hl, hm] at h; cases h
            | some given =>
                rw [index, index, hl, hm, ok_bind, ok_bind] at h
                cases hf : finalLiteral head lit given with
                | error e => rw [hf] at h; cases h
                | ok value =>
                    cases hr : payloadValues record projectionMask pkIdx (i + 1) rest with
                    | error e => rw [hf, hr] at h; cases h
                    | ok tail =>
                        rw [hf, hr] at h
                        cases h
                        rw [List.zip_cons_cons]
                        cases j with
                        | zero =>
                            cases hcol
                            exact ⟨lit, given, value, [], _, hl, hm, hf, rfl⟩
                        | succ j =>
                            have shift : i + (j + 1) = (i + 1) + j := by omega
                            rw [shift] at other ⊢
                            obtain ⟨lit', given', value', before, after, hl', hm', hf', parts⟩ :=
                              ih hr j col hcol other
                            exact ⟨lit', given', value', (head, value) :: before, after, hl', hm', hf',
                              by rw [parts]; rfl⟩

theorem offsetTable_append (front back : List (UInt8 × Bytes)) : ∀ offset : Nat,
    offsetTable offset (front ++ back) = offsetTable offset front ++
      offsetTable (offset + (front.flatMap fun column => encodeString column.2).length) back := by
  induction front with
  | nil => intro offset; rfl
  | cons column front ih =>
      intro offset
      rw [List.cons_append, offsetTable, offsetTable, ih]
      simp [Nat.add_assoc]

theorem map_snd_offsetTable (columns : List (UInt8 × Bytes)) : ∀ offset : Nat,
    (offsetTable offset columns).map Prod.snd = columns.map Prod.fst := by
  induction columns with
  | nil => intro offset; rfl
  | cons column rest ih => intro offset; simp [offsetTable, ih]

/-- Under distinct codes a column has one entry, which leads to its value. -/
theorem columnOffsetsOf_place {before after : List (UInt8 × Bytes)} {code : UInt8} {value : Bytes}
    (distinct : ((before ++ (code, value) :: after).map Prod.fst).Nodup) :
    ∃ off, (columnOffsetsOf 0 (before ++ (code, value) :: after)).filter (fun off => off.colId = code) =
        [off] ∧
      off.offset = (before.flatMap fun column => encodeString column.2).length := by
  rw [List.map_append, List.map_cons, List.nodup_middle, List.nodup_cons, List.mem_append] at distinct
  have elsewhere (columns : List (UInt8 × Bytes)) (offset : Nat) (absent : code ∉ columns.map Prod.fst) :
      (columnOffsetsOf offset columns).filter (fun off => off.colId = code) = [] := by
    rw [List.filter_eq_nil_iff]
    intro off h
    obtain ⟨entry, he, rfl⟩ := List.mem_map.mp h
    rw [← map_snd_offsetTable columns offset] at absent
    rw [decide_eq_true_eq]
    exact fun same => absent (List.mem_map.mpr ⟨entry, he, same⟩)
  refine ⟨⟨(before.flatMap fun column => encodeString column.2).length, code,
    List.replicate 7 0⟩, ?_, rfl⟩
  rw [columnOffsetsOf, offsetTable_append, offsetTable, List.map_append, List.map_cons,
    ← columnOffsetsOf, ← columnOffsetsOf, List.filter_append, List.filter_cons_of_pos (by simp),
    elsewhere before 0 fun h => distinct.1 (.inl h), elsewhere after _ fun h => distinct.1 (.inr h),
    Nat.zero_add]
  rfl

/-- Different names in the schema give different codes to the columns. -/
theorem TableSchema.payloadCodes_nodup (t : TableSchema n) (distinct : (columnNames t.schema).Nodup) :
    t.payloadCodes.Nodup := by
  have part : t.payloadSchema.Sublist t.schema := List.eraseIdx_sublist ..
  have names : (t.payloadSchema.map fun col => col.name).Nodup :=
    (part.map _).nodup (show (t.schema.map fun col => col.name).Nodup from distinct)
  rw [TableSchema.payloadCodes]
  refine (List.nodup_map_iff_inj_on names.of_map).mpr ?_
  intro a ha b hb same
  have known {col : UntypedColumnDefNode} (h : col ∈ t.payloadSchema) :
      col.name ∈ columnNames t.schema := List.mem_map_of_mem (part.subset h)
  exact List.inj_on_of_nodup_map names ha hb (t.codeOf_inj (known ha) (known hb) same)

section Framing

variable {w w' : World} {table : Bytes} {t : TableSchema n}

/-- A completed write appends a length and as many bytes behind it, and for every
column besides the key the offset region has one entry under its code, which leads to
the size and the bytes of the column's value. -/
theorem serializeNormalizedRecord_framed (env : Env) {idx : Index} {content : Bytes}
    (distinct : (columnNames t.schema).Nodup) (known : Registered w.ctx table t)
    (index : HasIndex w table t idx) (file : w.disk.tableFiles.lookup table = some content)
    {type : RecordType} (kind : type = .insert ∨ type = .update) (record : ValueRecordNode)
    (projectionMask : List Bool)
    (completes : (serializeNormalizedRecord env table record projectionMask type).run w = .ok () w') :
    ∃ payload : RecordPayload, ∃ bytes : Bytes,
      recordPayload t.schema (columnCodes t.schema) record projectionMask type = .ok payload ∧
      w'.disk.tableFiles.lookup table =
        some (content ++ (toLE 8 payload.recordLength ++ bytes)) ∧
      bytes.length = payload.recordLength ∧
      bytes = payload.record.recordType :: (payload.record.columnRegion ++
        encodeString payload.record.pkLiteral ++ payload.record.payload) ∧
      ∀ (i : Nat) (col : UntypedColumnDefNode), t.schema[i]? = some col → i ≠ t.pkIdx →
        ∃ code lit given value off before after,
          (columnCodes t.schema).lookup col.name = some code ∧
          record[i]? = some lit ∧ projectionMask[i]? = some given ∧ StoredFor col lit given value ∧
          payload.record.columnOffsets.filter (fun off => off.colId = code) = [off] ∧
          payload.record.payload = before ++ (toLE 8 value.length ++ value) ++ after ∧
          off.offset = before.length := by
  obtain ⟨columns, hc, hi⟩ := index
  have run := serializeNormalizedRecord_run content env t known hi kind projectionMask record
  rw [withTable_self file hc, completes] at run
  cases hr : writtenRecord t type projectionMask record with
  | error e => rw [hr] at run; cases run
  | ok r =>
      rw [hr] at run
      cases run
      obtain ⟨key, values, _, hv, width, rfl⟩ := writtenRecord_ok hr
      refine ⟨⟨t.pkColName, _, storedRecord t type key values⟩, _, ?_, Finmap.lookup_insert _, ?_, rfl,
        ?_⟩
      · rw [recordPayload_eq, hr]
        rfl
      · rw [List.length_cons, Nat.add_comm]
      · intro i col hcol other
        obtain ⟨lit, given, value, before, after, hl, hm, hf, parts⟩ :=
          payloadValues_split t.schema hv i col hcol (by rwa [Nat.zero_add])
        rw [Nat.zero_add] at hl hm
        rw [payloadSchema_eq_besides] at parts
        have coded : t.payloadCodes.zip values =
            before.map (Prod.map (fun col => t.codeOf col.name) id) ++ (t.codeOf col.name, value) ::
              after.map (Prod.map (fun col => t.codeOf col.name) id) := by
          rw [TableSchema.payloadCodes, List.zip_map_left, parts]
          simp
        have codes : (t.payloadCodes.zip values).map Prod.fst = t.payloadCodes :=
          List.map_fst_zip (by rw [t.length_payloadCodes, width])
        have literals : (t.payloadSchema.zip values).map Prod.snd = values :=
          List.map_snd_zip (by rw [t.length_payloadSchema, width])
        have nodup := t.payloadCodes_nodup distinct
        rw [← codes, coded] at nodup
        obtain ⟨off, one, place⟩ := columnOffsetsOf_place nodup
        refine ⟨t.codeOf col.name, lit, given, value, off,
          (before.map Prod.snd).flatMap encodeString, (after.map Prod.snd).flatMap encodeString,
          t.lookup_codeOf (List.mem_map_of_mem (List.mem_of_getElem? hcol)), hl, hm,
          finalLiteral_storedFor hf, ?_, ?_, ?_⟩
        · rw [← one, ← coded]
          rfl
        · rw [StoredRecord.payload]
          change values.flatMap encodeString = _
          rw [← literals, parts]
          simp [encodeString]
        · rw [place]
          simp [List.flatMap_map]

end Framing

/-- A record with a name, written into an empty file. -/
theorem serializeNormalizedRecord_framed_pair :
    let w := singleTable (ascii "people") pairSchema (TableFile.fresh []) ∅
    let record : ValueRecordNode := [some ⟨.number, ascii "3"⟩, some ⟨.string, ascii "'y'"⟩]
    ∃ w' payload bytes,
      (serializeNormalizedRecord ⟨false, id⟩ (ascii "people") record [true, true] .insert).run w =
        .ok () w' ∧
      w'.disk.tableFiles.lookup (ascii "people") =
        some ((TableFile.fresh (n := 1) []).bytes ++
          (toLE 8 (RecordPayload.recordLength payload) ++ bytes)) ∧
      bytes.length = payload.recordLength ∧
      ∃ code value off before after,
        StoredFor ⟨ascii "name", []⟩ (some ⟨.string, ascii "'y'"⟩) true value ∧
        payload.record.columnOffsets.filter (fun off => off.colId = code) = [off] ∧
        payload.record.payload = before ++ (toLE 8 value.length ++ value) ++ after ∧
        off.offset = before.length := by
  intro w record
  have known := singleTable_registered (ascii "people") pairSchema (TableFile.fresh []) ∅
  have index := singleTable_hasIndex (ascii "people") pairSchema (TableFile.fresh []) ∅
  have file := singleTable_hasFile (ascii "people") pairSchema (TableFile.fresh []) ∅
  obtain ⟨columns, hc, hi⟩ := index
  have run := serializeNormalizedRecord_run (TableFile.fresh (n := 1) []).bytes ⟨false, id⟩ pairSchema
    known hi (.inl rfl) [true, true] record
  rw [withTable_self file hc] at run
  obtain ⟨payload, bytes, _, written, length, _, columns_⟩ :=
    serializeNormalizedRecord_framed ⟨false, id⟩ (by decide) known ⟨columns, hc, hi⟩ file (.inl rfl)
      record [true, true] run
  obtain ⟨code, lit, given, value, off, before, after, _, hl, hm, stored, one, parts, place⟩ :=
    columns_ 1 ⟨ascii "name", []⟩ rfl (by decide)
  cases hl
  cases hm
  exact ⟨_, payload, bytes, run, written, length, code, value, off, before, after, stored, one, parts,
    place⟩

end Jssql.FileHandler
