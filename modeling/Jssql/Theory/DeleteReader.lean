import Jssql.Theory.ColumnReaders

/-!
The reader of the sequential `DELETE`. It finds the compared column through the
offset region: the last entry with the column's code says where the value starts.
`fieldOf` is that search on the codes and values of a record, and a record whose
offset region fits its values is read as `fieldOf` says.
-/
namespace Jssql.FileHandler
open Foundation Foundation.Stream ConditionEvaluator

variable {n : Nat}

/-- The offsets and codes the writer gives to columns with these codes and values. -/
def offsetTable : Nat → List (UInt8 × Bytes) → List (Nat × UInt8)
  | _, [] => []
  | offset, (code, value) :: rest => (offset, code) :: offsetTable (offset + (8 + value.length)) rest

/-- The last column with the code: where its value starts, and the value. -/
def lastField (code : UInt8) : Nat → List (UInt8 × Bytes) → Option (Nat × Bytes) →
    Option (Nat × Bytes)
  | _, [], found => found
  | offset, (c, value) :: rest, found =>
      lastField code (offset + (8 + value.length)) rest
        (if c = code then some (offset, value) else found)

/-- The last value with the code. -/
def fieldOf (code : UInt8) (columns : List (UInt8 × Bytes)) : Option Bytes :=
  (lastField code 0 columns none).map Prod.snd

private theorem lastField_isSome (code : UInt8) (columns : List (UInt8 × Bytes)) :
    ∀ (offset : Nat) (found : Option (Nat × Bytes)),
      found.isSome ∨ code ∈ columns.map Prod.fst →
      (lastField code offset columns found).isSome := by
  induction columns with
  | nil => intro offset found h; simpa [lastField] using h
  | cons column rest ih =>
      obtain ⟨c, value⟩ := column
      intro offset found h
      rw [lastField]
      apply ih
      by_cases same : c = code
      · simp [same]
      · simpa [same, Ne.symm same] using h

theorem fieldOf_of_mem {code : UInt8} {codes : List UInt8} {literals : List Bytes}
    (h : code ∈ codes) (width : codes.length = literals.length) :
    ∃ value, fieldOf code (codes.zip literals) = some value := by
  have some_ := lastField_isSome code (codes.zip literals) 0 none
    (.inr (by rwa [List.map_fst_zip (Nat.le_of_eq width)]))
  obtain ⟨place, hp⟩ := Option.isSome_iff_exists.mp some_
  exact ⟨place.2, by rw [fieldOf, hp]; rfl⟩

/-- The offset region of the record is the one for its values under the codes. -/
def IndexedBy (codes : List UInt8) (r : TableRecord n) : Prop :=
  r.columnOffsets.map (fun off => (off.offset, off.colId)) =
    offsetTable 0 (codes.zip r.payloadLiterals)

theorem IndexedBy.marked {codes : List UInt8} {r : TableRecord n} (h : IndexedBy codes r) :
    IndexedBy codes r.marked := h

/-- The entry a scan of the offset region ends with. -/
def lastOffset (code : UInt8) (entries : List (Nat × UInt8)) (start : Nat) : Nat :=
  entries.foldl (fun found entry => if entry.2 = code then entry.1 else found) start

theorem lastOffset_offsetTable (code : UInt8) (columns : List (UInt8 × Bytes)) :
    ∀ (offset start : Nat) (found : Option (Nat × Bytes)),
      (∀ place ∈ found, start = place.1) →
      ∀ place ∈ lastField code offset columns found,
        lastOffset code (offsetTable offset columns) start = place.1 := by
  induction columns with
  | nil => intro offset start found h; exact h
  | cons column rest ih =>
      obtain ⟨c, value⟩ := column
      intro offset start found h
      rw [lastField, offsetTable, lastOffset, List.foldl_cons]
      apply ih
      by_cases same : c = code
      · simp [same]
      · simpa [same] using h

/-- A place found by the search is inside the encoded values. -/
theorem lastField_place (code : UInt8) (columns : List (UInt8 × Bytes)) :
    ∀ (offset : Nat) (found : Option (Nat × Bytes)) (before : Bytes),
      (∀ place ∈ found, ∃ a b, before = a ++ encodeString place.2 ++ b ∧ place.1 = a.length) →
      before.length = offset →
      ∀ place ∈ lastField code offset columns found, ∃ a b,
        before ++ columns.flatMap (fun column => encodeString column.2) =
          a ++ encodeString place.2 ++ b ∧ place.1 = a.length := by
  induction columns with
  | nil =>
      intro offset found before h _
      simpa [lastField] using h
  | cons column rest ih =>
      obtain ⟨c, value⟩ := column
      intro offset found before h length place hp
      rw [lastField] at hp
      have step := ih (offset + (8 + value.length)) _ (before ++ encodeString value)
        (fun place hp => by
          by_cases same : c = code
          · rw [if_pos same, Option.mem_some_iff] at hp
            exact ⟨before, [], by simp [← hp], by rw [← hp, length]⟩
          · rw [if_neg same] at hp
            obtain ⟨a, b, split, at_⟩ := h place hp
            exact ⟨a, b ++ encodeString value, by simp [split], at_⟩)
        (by rw [List.length_append, length_encodeString, length]) place hp
      simpa using step

/-- No entry points behind the values. -/
theorem offsetTable_le (columns : List (UInt8 × Bytes)) : ∀ (offset : Nat),
    ∀ entry ∈ offsetTable offset columns,
      entry.1 ≤ offset + (columns.flatMap fun column => encodeString column.2).length := by
  induction columns with
  | nil => simp [offsetTable]
  | cons column rest ih =>
      obtain ⟨c, value⟩ := column
      intro offset entry he
      rw [offsetTable, List.mem_cons] at he
      simp only [List.flatMap_cons, List.length_append, length_encodeString]
      rcases he with rfl | he
      · omega
      · have := ih _ entry he
        omega

theorem findColumnOffset_split (env : Env) (code : UInt8) (offs : List ColumnOffset) (after : Bytes)
    (padding : ∀ off ∈ offs, off.padding.length = 7) (small : ∀ off ∈ offs, off.offset < 2 ^ 64) :
    ∀ (start : Nat) (before : Bytes),
      (findColumnOffset env code offs.length start).run
        (split before (offs.flatMap encodeColumnOffset ++ after)) =
        .ok (lastOffset code (offs.map fun off => (off.offset, off.colId)) start)
          (split (before ++ offs.flatMap encodeColumnOffset) after) := by
  induction offs with
  | nil => intro start before; simp [findColumnOffset, lastOffset]
  | cons off rest ih =>
      intro start before
      have length : (encodeColumnOffset off).length = columnOffsetSize := by
        simp [encodeColumnOffset, padding off (by simp), columnOffsetSize]
      have value : ofLE ((encodeColumnOffset off).take 8) = off.offset := by
        have bound := small off (by simp)
        rw [encodeColumnOffset, List.take_left' (length_toLE 8 _), ofLE_toLE_of_lt (by omega)]
      have id : ((encodeColumnOffset off).drop 8).head? = some off.colId := by
        rw [encodeColumnOffset, List.drop_left' (length_toLE 8 _)]
        rfl
      have parts : (off :: rest).flatMap encodeColumnOffset ++ after =
          encodeColumnOffset off ++ (rest.flatMap encodeColumnOffset ++ after) := by simp
      rw [parts, List.length_cons, findColumnOffset,
        run_bind_ok (readUnchecked_split env length before _),
        ih (fun o ho => padding o (by simp [ho])) (fun o ho => small o (by simp [ho])), value, id]
      simp [lastOffset, Option.some.injEq]

section Record

variable (env : Env) (r : TableRecord n) (before after : Bytes)

/-- A stream that is in order and holds the record between the two parts. -/
structure Inside (s : Stream) : Prop where
  ok : s.fail = false
  isOpen : s.isOpen = true
  content : s.content = before ++ r.encode ++ after

private theorem split_inside (front back : Bytes) (h : front ++ back = before ++ r.encode ++ after) :
    Inside r before after (split front back) := ⟨rfl, rfl, h⟩

theorem comparedKey_record :
    ∃ s, (comparedKey env n).run
      (split (before ++ toLE 8 r.recordLength ++ [r.recordType]) (r.body ++ after)) =
        .ok r.pkLiteral s ∧ Inside r before after s := by
  have keyBound : r.pkLiteral.length < 2 ^ 63 - 1 :=
    r.length_value_lt_max (by simp [StoredRecord.row])
  have parts : r.body ++ after = r.columnRegion ++
      (toLE 8 r.pkLiteral.length ++ (r.pkLiteral ++ (r.payload ++ after))) := by
    simp [StoredRecord.body, encodeString]
  refine ⟨_, ?_, split_inside r before after (before ++ toLE 8 r.recordLength ++ [r.recordType] ++
    r.columnRegion ++ toLE 8 r.pkLiteral.length ++ r.pkLiteral) (r.payload ++ after) ?_⟩
  · unfold comparedKey
    rw [parts, run_bind_ok (skipColumnOffsetRegion_record r _ _),
      run_bind_ok (readSize_split env (by omega) _ _), readSized_split keyBound]
  · simp [StoredRecord.encode, StoredRecord.body, encodeString]

/-- The column with the code, where the record has one. -/
theorem comparedColumn_record {codes : List UInt8} (indexed : IndexedBy codes r)
    (width : codes.length = n) {code : UInt8} {value : Bytes}
    (found : fieldOf code (codes.zip r.payloadLiterals) = some value) :
    ∃ s, (comparedColumn env code n (before.length + 8) r.recordLength).run
      (split (before ++ toLE 8 r.recordLength ++ [r.recordType]) (r.body ++ after)) =
        .ok value s ∧ Inside r before after s := by
  obtain ⟨place, hp, rfl⟩ := Option.map_eq_some_iff.mp found
  have payload : (codes.zip r.payloadLiterals).flatMap (fun column => encodeString column.2) =
      r.payload := by
    have literals : (codes.zip r.payloadLiterals).map Prod.snd = r.payloadLiterals :=
      List.map_snd_zip (by rw [r.literals_length, width])
    rw [StoredRecord.payload, ← List.flatMap_map Prod.snd encodeString, literals]
  obtain ⟨a, b, split_payload, start⟩ :=
    lastField_place code _ 0 none [] (by simp) rfl place hp
  rw [payload, List.nil_append] at split_payload
  have payloadBound : r.payload.length < 2 ^ 63 := by
    have := r.recordLength_lt
    simp only [StoredRecord.recordLength, StoredRecord.body, List.length_append] at this
    omega
  have aBound : a.length < 2 ^ 63 := by
    rw [split_payload, List.length_append, List.length_append] at payloadBound
    omega
  have small (off : ColumnOffset) (h : off ∈ r.columnOffsets) : off.offset < 2 ^ 64 := by
    have entry : (off.offset, off.colId) ∈ offsetTable 0 (codes.zip r.payloadLiterals) :=
      indexed ▸ List.mem_map_of_mem h
    have := offsetTable_le _ 0 _ entry
    rw [payload] at this
    omega
  have keyBound : r.pkLiteral.length < 2 ^ 63 - 1 :=
    r.length_value_lt_max (by simp [StoredRecord.row])
  have valueBound : place.2.length < 2 ^ 63 - 1 := by
    have := payloadBound
    rw [split_payload, List.length_append, List.length_append, length_encodeString] at this
    omega
  have offset : lastOffset code (r.columnOffsets.map fun off => (off.offset, off.colId))
      (2 ^ 64 - 1) = a.length := by
    rw [indexed, lastOffset_offsetTable code _ 0 (2 ^ 64 - 1) none (by simp) place hp, start]
  have parts : r.body ++ after = r.columnOffsets.flatMap encodeColumnOffset ++
      (toLE 8 r.pkLiteral.length ++ (r.pkLiteral ++ (a ++
        (toLE 8 place.2.length ++ (place.2 ++ (b ++ after)))))) := by
    simp [StoredRecord.body, StoredRecord.columnRegion, split_payload, encodeString]
  have search := findColumnOffset_split env code r.columnOffsets
    (toLE 8 r.pkLiteral.length ++ (r.pkLiteral ++ (a ++
      (toLE 8 place.2.length ++ (place.2 ++ (b ++ after))))))
    r.padding_length small (2 ^ 64 - 1) (before ++ toLE 8 r.recordLength ++ [r.recordType])
  rw [r.offsets_length, offset] at search
  have typeStart : ((before.length + 8 : Nat) : Int) = (before ++ toLE 8 r.recordLength).length := by
    simp
  have rest : ((r.recordType :: r.body).length : Int) = streamOff r.recordLength := by
    rw [streamOff_of_lt r.recordLength_lt]
    simp only [StoredRecord.recordLength, List.length_cons]
    omega
  refine ⟨_, ?_, split_inside r before after
    (before ++ toLE 8 r.recordLength ++ (r.recordType :: r.body)) after
    (by simp [StoredRecord.encode])⟩
  have goBack {s : Stream} (ok : s.fail = false) (isOpen : s.isOpen = true)
      (content : s.content = (before ++ toLE 8 r.recordLength) ++
        ((r.recordType :: r.body) ++ after)) :
      (seekBeg (before.length + 8 : Nat) : StreamM Unit).run s = _ :=
    seekBeg_split typeStart ok isOpen content
  unfold comparedColumn
  rw [parts, run_bind_ok search, if_neg (by omega), run_bind_ok (readSize_split env (by omega) _ _),
    run_bind_ok (seekCur_split (streamOff_of_lt (by omega)).symm _ _),
    run_bind_ok (seekCur_split (streamOff_of_lt aBound).symm _ _),
    run_bind_ok (readSize_split env (by omega) _ _), run_bind_ok (readSized_split valueBound _ _),
    run_bind_ok (goBack rfl rfl ?_), run_bind_ok (seekCur_split rest _ _)]
  · rfl
  · simp [StoredRecord.body, StoredRecord.columnRegion, split_payload, encodeString]

/-! The reader -/

/-- The context knows the table under its name, with the codes of its columns. -/
structure Registered (ctx : ExecutionContext) (table : Bytes) (t : TableSchema n) : Prop where
  schema : ctx.untypedTables.lookup table = some t.schema
  colcodes : ctx.tableColcodes.lookup table = some (columnCodes t.schema)

/-- The value of a record that `DELETE` compares for a column of the table. -/
def deletedValue (t : TableSchema n) (colName : Bytes) (r : TableRecord n) : Option Bytes :=
  if t.pkColName = colName then some r.pkLiteral
  else fieldOf (t.codeOf colName) (t.payloadCodes.zip r.payloadLiterals)

theorem comparedLiteral_record {t : TableSchema n} {ctx : ExecutionContext} {table : Bytes}
    (known : Registered ctx table t) (indexed : IndexedBy t.payloadCodes r) {colName value : Bytes}
    (exists_ : colName ∈ columnNames t.schema) (found : deletedValue t colName r = some value) :
    ∃ s, (comparedLiteral env table colName ctx (before.length + 8) r.recordLength).run
      (split (before ++ toLE 8 r.recordLength ++ [r.recordType]) (r.body ++ after)) =
        .ok value s ∧ Inside r before after s := by
  have schema : ctx.untypedTables.at table .tableName = .ok t.schema := by
    rw [Map.at, known.schema]
  unfold comparedLiteral
  rw [schema, run_bind_ok (run_lift_ok _ _), t.key, run_bind_ok (run_lift_ok _ _),
    t.columnsWithoutPk_eq]
  by_cases isKey : t.pkColName = colName
  · rw [deletedValue, if_pos isKey, Option.some.injEq] at found
    rw [if_pos isKey, ← found]
    exact comparedKey_record env r before after
  · rw [deletedValue, if_neg isKey] at found
    have colcodes : ctx.tableColcodes.at table .tableName = .ok (columnCodes t.schema) := by
      rw [Map.at, known.colcodes]
    have colcode : (columnCodes t.schema).at colName .columnName = .ok (t.codeOf colName) := by
      rw [Map.at, t.lookup_codeOf exists_]
    rw [if_neg isKey, colcodes, run_bind_ok (run_lift_ok _ _), colcode,
      run_bind_ok (run_lift_ok _ _)]
    exact comparedColumn_record env r before after indexed t.length_payloadCodes found

/-- What marking readers return for a record whose comparison gives `isMatch`. -/
def markOutcome (isMatch : Except Fault Bool) : Except (Fault × Bytes) (Indicator × Stream) :=
  match isMatch with
  | .error e => .error (e, before ++ r.encode ++ after)
  | .ok true => .ok (.live, split (before ++ r.marked.encode) after)
  | .ok false => .ok (.skip, split (before ++ r.encode) after)

theorem deleteIfMatching_record {s : Stream} (inside : Inside r before after s) (isMatch : Bool) :
    outcome Stream.content ((deleteIfMatching (before.length + 8) r.recordLength isMatch).run s) =
      markOutcome r before after (.ok isMatch) := by
  cases isMatch with
  | true =>
      rw [deleteIfMatching, run_bind_ok (markAsTombstone_record r before after inside.ok
        inside.isOpen inside.content)]
      rfl
  | false =>
      have next : ((before.length + 8 : Nat) : Int) + streamOff r.recordLength =
          (before ++ r.encode).length := by
        rw [streamOff_of_lt r.recordLength_lt, List.length_append, StoredRecord.length_encode]
        omega
      rw [deleteIfMatching, run_bind_ok (seekBeg_split next inside.ok inside.isOpen inside.content)]
      rfl

/-- The comparison that `DELETE` makes on a record. -/
def deleteMatches (t : TableSchema n) (optWhere : Option WhereNode) (r : TableRecord n) :
    Except Fault Bool :=
  match optWhere with
  | none => .ok true
  | some ⟨cond⟩ =>
      match deletedValue t cond.colName r with
      | some value => evaluateComparator value cond.cmp cond.literal
      | none => .ok false

theorem deleteMatches_some {t : TableSchema n} {cond : ConditionNode} {r : TableRecord n} {value : Bytes}
    (stored : deletedValue t cond.colName r = some value) :
    deleteMatches t (some ⟨cond⟩) r = evaluateComparator value cond.cmp cond.literal := by
  rw [deleteMatches, stored]

/-- The column of the condition, if there is one, is a column of the table. -/
def ColumnKnown (t : TableSchema n) (optWhere : Option WhereNode) : Prop :=
  ∀ w ∈ optWhere, w.condition.colName ∈ columnNames t.schema

theorem deletedValue_known {t : TableSchema n} {colName : Bytes}
    (known : colName ∈ columnNames t.schema) : ∃ value, deletedValue t colName r = some value := by
  by_cases isKey : t.pkColName = colName
  · exact ⟨_, if_pos isKey⟩
  · obtain ⟨col, hcol, rfl⟩ := List.mem_map.mp known
    obtain ⟨i, hi, rfl⟩ := List.mem_iff_getElem.mp hcol
    have other : i ≠ t.pkIdx := by
      rintro rfl
      exact isKey t.pkCol_name.symm
    have payload : t.schema[i] ∈ t.payloadSchema :=
      List.mem_eraseIdx_iff_getElem.mpr ⟨i, hi, other, rfl⟩
    have code : t.codeOf t.schema[i].name ∈ t.payloadCodes :=
      List.mem_map_of_mem (f := fun col => t.codeOf col.name) payload
    rw [deletedValue, if_neg isKey]
    exact fieldOf_of_mem code (by rw [t.length_payloadCodes, r.literals_length])

theorem performSequentialDelete_live {t : TableSchema n} {ctx : ExecutionContext}
    {node : DeleteNode} (live : r.isTombstone = false)
    (known : Registered ctx node.tableName t) (indexed : IndexedBy t.payloadCodes r)
    (column : ColumnKnown t node.optWhereNode) :
    outcome Stream.content ((performSequentialDelete env node ctx).run
      (split before (r.encode ++ after))) =
      markOutcome r before after (deleteMatches t node.optWhereNode r) := by
  have whole : before ++ toLE 8 r.recordLength ++ [r.recordType] ++ (r.body ++ after) =
      before ++ r.encode ++ after := by simp [StoredRecord.encode]
  unfold performSequentialDelete
  rw [run_bind_ok (readHead_live r.recordLength_lt live before after)]
  cases hw : node.optWhereNode with
  | none => exact deleteIfMatching_record r before after (split_inside r before after _ _ whole) true
  | some w =>
      obtain ⟨cond⟩ := w
      have exists_ : cond.colName ∈ columnNames t.schema := column ⟨cond⟩ hw
      obtain ⟨value, found⟩ := deletedValue_known r exists_
      obtain ⟨s, read, inside⟩ := comparedLiteral_record env r before after known indexed exists_ found
      simp only [deleteMatches, found]
      rw [run_bind_ok read, outcome_bind, outcome_lift]
      cases evaluateComparator value cond.cmp cond.literal with
      | error e => simp [markOutcome, inside.content]
      | ok isMatch => exact deleteIfMatching_record r before after inside isMatch

theorem performSequentialDelete_tombstone (dead : r.isTombstone = true) (node : DeleteNode)
    (ctx : ExecutionContext) :
    (performSequentialDelete env node ctx).run (split before (r.encode ++ after)) =
      .ok .tombstone (split (before ++ r.encode) after) := by
  unfold performSequentialDelete
  rw [run_bind_ok (readHead_tombstone r.recordLength_lt dead before after)]
  rfl

theorem performSequentialDelete_end (node : DeleteNode) (ctx : ExecutionContext) :
    (performSequentialDelete env node ctx).run (split before []) =
      .ok .endOfTable (exhausted before) := by
  unfold performSequentialDelete
  rw [run_bind_ok (readHead_end before)]
  rfl

end Record
end Jssql.FileHandler
