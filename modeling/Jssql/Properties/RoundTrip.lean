import Jssql.Theory.SelectRuns
import Jssql.Theory.StoredValues

/-!
Writing a record and reading it back. The writer puts the key in front of the
other columns and the reader takes the values by their places, so the values come
back in the order of the schema only where the move of the key does not show: when
the columns up to the key all store one value, as they do when the key is first.
-/
namespace Jssql.FileHandler
open Foundation Foundation.Stream SemanticValidator ConditionEvaluator

variable {n : Nat}

/-- Writing succeeds, and the record written is read back as a live one with the
value stored for each schema column at the column's index, where a condition
finds it. -/
def RoundTrips (env : Env) (w : World) (table : Bytes) (t : TableSchema n)
    (record : ValueRecordNode) (projectionMask : List Bool) : Prop :=
  ∃ before written w' row s, w.disk.tableFiles.lookup table = some before ∧
    (serializeNormalizedRecord env table record projectionMask .insert).run w = .ok () w' ∧
    w'.disk.tableFiles.lookup table = some (before ++ written) ∧
    (deserializeNextRecord env t.schema (List.replicate t.schema.length true) none).run
      (split before written) = .ok (.live, row) s ∧
    (∀ i < t.schema.length, storedValue t record projectionMask i = index row i) ∧
    ∀ (cond : ConditionNode) (value : Bytes),
      storedValue t record projectionMask cond.schemaIndex.toNat = .ok value →
      result ((deserializeNextRecord env t.schema (List.replicate t.schema.length true)
        (some ⟨cond⟩)).run (split before written)) =
        (evaluateComparator value cond.cmp cond.literal).map fun isMatch =>
          (if isMatch then .live else .skip, row)

/-! The round trip -/

section RoundTrip

variable {w : World} {table : Bytes} {t : TableSchema n} {content : Bytes} {columns : Map Bytes Index}
  {idx : Index} {projectionMask : List Bool} {record : ValueRecordNode}

/-- A record that is written is read back with its values in the order of the file. -/
theorem serializeNormalizedRecord_read (env : Env) (known : Registered w.ctx table t)
    (hf : w.disk.tableFiles.lookup table = some content)
    (hc : w.ctx.indices.lookup table = some columns) (hi : columns.lookup t.pkColName = some idx)
    {r : StoredRecord} (hr : writtenRecord t .insert projectionMask record = .ok r)
    (fits : r.recordLength < 2 ^ 63) :
    ∃ w', (serializeNormalizedRecord env table record projectionMask .insert).run w = .ok () w' ∧
      w'.disk.tableFiles.lookup table = some (content ++ r.encode) ∧
      ∀ optWhere, outcome (fun _ => ()) ((deserializeNextRecord env t.schema
          (List.replicate t.schema.length true) optWhere).run (split content r.encode)) =
        settle ((whereMatches optWhere r.row).map fun result =>
          (if result then Indicator.live else .skip, r.row)) (split (content ++ r.encode) []) () := by
  obtain ⟨key, values, _, _, width, rfl⟩ := writtenRecord_ok hr
  have run := serializeNormalizedRecord_run content env t known hi (.inl rfl) projectionMask record
  rw [withTable_self hf hc, hr] at run
  refine ⟨_, run, Finmap.lookup_insert _, fun optWhere => ?_⟩
  let r := tableRecord t .insert key values width fits
  have read := outcome_unit (deserializeNextRecord_live env t r content []
    (storedRecord_isTombstone (.inl rfl) key values) (List.replicate t.schema.length true) optWhere)
  rw [List.append_nil] at read
  rw [t.width] at read ⊢
  refine read.trans ?_
  rw [recordResult_eq (by rw [List.length_replicate, r.length_row]), ← r.length_row, projectRow_all]
  rfl

/-- The key in front stands for the columns in schema order when those before it store what it does. -/
theorem storedValue_inOrder_iff (recordWidth : record.length = t.schema.length)
    (maskWidth : projectionMask.length = t.schema.length) {key : Bytes} {values : List Bytes}
    (hk : serializedKey t record = .ok key)
    (hv : payloadValues record projectionMask t.pkIdx 0 t.schema = .ok values) :
    (∀ i < t.schema.length, storedValue t record projectionMask i = index (key :: values) i) ↔
      ∀ i < t.pkIdx, storedValue t record projectionMask i = storedValue t record projectionMask t.pkIdx := by
  have width := t.width
  have inside := t.pkIdx_lt
  constructor
  · intro inOrder i hi
    have step (j : Nat) (hj : j < t.pkIdx) : storedValue t record projectionMask j =
        storedValue t record projectionMask (j + 1) := by
      obtain ⟨value, place, stored⟩ := getElem?_payloadValues recordWidth maskWidth hv
        (show j < n by omega)
      rw [if_pos hj] at stored
      rw [stored, inOrder (j + 1) (by omega), index, List.getElem?_cons_succ, place]
    have chain (k : Nat) : i + k ≤ t.pkIdx → storedValue t record projectionMask i =
        storedValue t record projectionMask (i + k) := by
      induction k with
      | zero => intro _; rfl
      | succ k ih =>
          intro bound
          rw [ih (by omega), step (i + k) (by omega), Nat.add_assoc]
    have last := chain (t.pkIdx - i) (by omega)
    rwa [show i + (t.pkIdx - i) = t.pkIdx by omega] at last
  · intro same i hi
    cases i with
    | zero =>
        have first : storedValue t record projectionMask 0 =
            storedValue t record projectionMask t.pkIdx := by
          rcases Nat.eq_zero_or_pos t.pkIdx with here | behind
          · rw [here]
          · exact same 0 behind
        rw [first, storedValue_key maskWidth, hk]
        rfl
    | succ j =>
        obtain ⟨value, place, at_⟩ := getElem?_payloadValues recordWidth maskWidth hv
          (show j < n by omega)
        have next_ : storedValue t record projectionMask (j + 1) = .ok value := by
          by_cases before : j < t.pkIdx
          · rw [if_pos before, same j before] at at_
            rcases Nat.lt_or_ge (j + 1) t.pkIdx with still | reached
            · rw [same (j + 1) still, at_]
            · rwa [show j + 1 = t.pkIdx by omega]
          · rwa [if_neg before] at at_
        rw [next_, index, List.getElem?_cons_succ, place]

/-- The values come back in the order of the schema when the key's move does not show. -/
theorem roundTrips_iff_storedValue (env : Env) (known : Registered w.ctx table t)
    (hf : w.disk.tableFiles.lookup table = some content) (index_ : HasIndex w table t idx)
    (recordWidth : record.length = t.schema.length)
    (maskWidth : projectionMask.length = t.schema.length)
    (fits : ∀ r, writtenRecord t .insert projectionMask record = .ok r → r.recordLength < 2 ^ 63) :
    RoundTrips env w table t record projectionMask ↔
      (∀ i < t.schema.length, ∃ value, storedValue t record projectionMask i = .ok value) ∧
      ∀ i < t.pkIdx, storedValue t record projectionMask i =
        storedValue t record projectionMask t.pkIdx := by
  obtain ⟨columns, hc, hi⟩ := index_
  have width := t.width
  constructor
  · rintro ⟨before, written, w', row, s, hf', run, file, read, inOrder, -⟩
    rw [hf, Option.some.injEq] at hf'
    subst hf'
    cases hr : writtenRecord t .insert projectionMask record with
    | error e =>
        have write := serializeNormalizedRecord_run content env t known hi (.inl rfl)
          projectionMask record
        rw [withTable_self hf hc, hr, run] at write
        cases write
    | ok r =>
        obtain ⟨w'', run', file', read'⟩ :=
          serializeNormalizedRecord_read env known hf hc hi hr (fits r hr)
        rw [run'] at run
        cases run
        rw [file', Option.some.injEq, List.append_cancel_left_eq] at file
        subst file
        have rows := read' none
        rw [read] at rows
        obtain ⟨key, values, hk, hv, valuesWidth, rfl⟩ := writtenRecord_ok hr
        obtain rfl : row = key :: values := by
          cases rows
          rfl
        refine ⟨fun i inside => ?_, (storedValue_inOrder_iff recordWidth maskWidth hk hv).mp inOrder⟩
        rw [inOrder i inside, index, List.getElem?_eq_getElem (by simp [valuesWidth]; omega)]
        exact ⟨_, rfl⟩
  · rintro ⟨all, same⟩
    obtain ⟨key, values, hk, hv, hr⟩ :=
      writtenRecord_of_storedValue recordWidth maskWidth .insert all
    obtain ⟨w', run, file, read⟩ :=
      serializeNormalizedRecord_read env known hf hc hi hr (fits _ hr)
    have stored := (storedValue_inOrder_iff recordWidth maskWidth hk hv).mpr same
    have live := outcome_eq_ok.mp (read none)
    refine ⟨content, _, w', key :: values, _, hf, run, file, live, stored, ?_⟩
    intro cond value hv
    rcases Nat.lt_or_ge cond.schemaIndex.toNat t.schema.length with known_ | outside
    · have matches_ : whereMatches (some ⟨cond⟩) (storedRecord t .insert key values).row =
          evaluateComparator value cond.cmp cond.literal :=
        whereMatches_of_getElem? (getElem?_of_index ((stored _ known_).symm.trans hv))
      rw [result_of_outcome (read (some ⟨cond⟩)), matches_]
      rfl
    · have missing : index record cond.schemaIndex.toNat = .error (.undefined .outOfBounds) := by
        rw [index, List.getElem?_eq_none (by omega)]
      rw [storedValue, missing] at hv
      cases hv

/-- An accepted record comes back as it was stored if and only if the defaults it takes
are readable and the columns before the key store what the key does. -/
theorem roundTrips_iff (env : Env) (known : Registered w.ctx table t)
    (hf : w.disk.tableFiles.lookup table = some content) (index_ : HasIndex w table t idx)
    (recordWidth : record.length = t.schema.length)
    (maskWidth : projectionMask.length = t.schema.length) {seenKeys seenKeys' : List Bytes}
    (valid : validateRecord table idx projectionMask record 0 t.schema seenKeys =
      .ok (.ok seenKeys'))
    (fits : ∀ r, writtenRecord t .insert projectionMask record = .ok r → r.recordLength < 2 ^ 63) :
    RoundTrips env w table t record projectionMask ↔
      DefaultsReadable t record projectionMask ∧
      ∀ i < t.pkIdx, storedValue t record projectionMask i =
        storedValue t record projectionMask t.pkIdx := by
  rw [← storedValue_ok_iff recordWidth maskWidth valid]
  exact roundTrips_iff_storedValue env known hf index_ recordWidth maskWidth fits

end RoundTrip

/-- A number for the key and a text for the other column fit a record. -/
private theorem fits_pair {t : TableSchema 1} {record : ValueRecordNode} {key value : Bytes}
    (written : writtenRecord t .insert [true, true] record =
      .ok (storedRecord t .insert key [value])) (short : key.length + value.length < 2 ^ 62) :
    ∀ r, writtenRecord t .insert [true, true] record = .ok r → r.recordLength < 2 ^ 63 := by
  intro r h
  rw [written, Except.ok.injEq] at h
  rw [← h, recordLength_storedRecord t rfl]
  simp only [List.map_cons, List.map_nil, List.sum_cons, List.sum_nil, columnOffsetSize]
  omega

theorem roundTrips_iff_pair :
    RoundTrips ⟨false, id⟩ (singleTable (ascii "people") pairSchema (TableFile.fresh []) ∅)
      (ascii "people") pairSchema [some ⟨.number, ascii "1"⟩, some ⟨.string, ascii "'x'"⟩]
      [true, true] := by
  have valid : validateRecord (ascii "people") (TableFile.fresh (n := 1) []).index [true, true]
      [some ⟨.number, ascii "1"⟩, some ⟨.string, ascii "'x'"⟩] 0 pairSchema.schema [] =
      .ok (.ok [ascii "1"]) := by decide
  have written : writtenRecord pairSchema .insert [true, true]
      [some ⟨.number, ascii "1"⟩, some ⟨.string, ascii "'x'"⟩] =
      .ok (storedRecord pairSchema .insert (ascii "1") [ascii "x"]) := rfl
  refine (roundTrips_iff ⟨false, id⟩ (singleTable_registered _ _ _ _) (singleTable_hasFile _ _ _ _)
    (singleTable_hasIndex _ _ _ _) rfl rfl valid (fits_pair written (by decide))).mpr ⟨?_, ?_⟩
  · intro i col hcol other takes
    match i with
    | 0 => exact absurd rfl other
    | 1 => cases hcol; exact ⟨_, rfl⟩
    | i + 2 => cases hcol
  · intro i before
    exact absurd before (Nat.not_lt_zero i)

/-- A schema with the key behind another column. -/
def lateKeySchema : TableSchema 1 where
  schema := [⟨ascii "name", []⟩, ⟨ascii "id", [ascii "PRIMARY KEY"]⟩]
  pkColName := ascii "id"
  width := rfl
  few := by decide
  key := by decide

/-- With the key behind it, the name comes back in the key's place. -/
theorem roundTrips_lateKey :
    let record : ValueRecordNode := [some ⟨.string, ascii "'x'"⟩, some ⟨.number, ascii "1"⟩]
    validateRecord (ascii "people") ∅ [true, true] record 0 lateKeySchema.schema [] =
        .ok (.ok [ascii "1"]) ∧
      ¬ RoundTrips ⟨false, id⟩ (singleTable (ascii "people") lateKeySchema (TableFile.fresh []) ∅)
        (ascii "people") lateKeySchema record [true, true] := by
  intro record
  refine ⟨by decide, fun roundTrips => ?_⟩
  have written : writtenRecord lateKeySchema .insert [true, true] record =
      .ok (storedRecord lateKeySchema .insert (ascii "1") [ascii "x"]) := rfl
  have conditions := (roundTrips_iff_storedValue ⟨false, id⟩ (singleTable_registered _ _ _ _)
    (singleTable_hasFile _ _ _ _) (singleTable_hasIndex _ _ _ _) rfl rfl
    (fits_pair written (by decide))).mp roundTrips
  exact absurd (conditions.2 0 (by decide)) (by decide)

end Jssql.FileHandler
