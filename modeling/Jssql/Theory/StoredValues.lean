import Jssql.Services.SemanticValidator
import Jssql.Theory.Appending

/-!
The values that the writer stores for the columns of a record. A default that is taken
must be cut out of its modifier, and that is all that can fail once the validator has
accepted the record.
-/
namespace Jssql.FileHandler
open Foundation SemanticValidator

variable {n : Nat}

/-- The value that the writer stores for the schema column `i`. -/
def storedValue (t : TableSchema n) (record : ValueRecordNode) (projectionMask : List Bool)
    (i : Nat) : Except Fault Bytes := do
  let lit ← index record i
  let userProvided ← index projectionMask i
  let col ← index t.schema i
  if i = t.pkIdx then
    match lit with
    | some node => .ok (removeOuterQuotes node.value)
    | none => .error (.undefined .nullPointer)
  else finalLiteral col lit userProvided

/-- The value of a column is left to its default. -/
def TakesDefault (record : ValueRecordNode) (projectionMask : List Bool) (i : Nat) : Prop :=
  ∀ node, record[i]? = some (some node) → projectionMask[i]? = some false ∨ node.type = .empty

/-- Every default that is taken can be cut out of its modifier. -/
def DefaultsReadable (t : TableSchema n) (record : ValueRecordNode) (projectionMask : List Bool) :
    Prop :=
  ∀ (i : Nat) (col : UntypedColumnDefNode), t.schema[i]? = some col → i ≠ t.pkIdx →
    TakesDefault record projectionMask i → ∃ value, getDefaultValue col.modifiers = .ok value

section Values

variable {t : TableSchema n} {record : ValueRecordNode} {projectionMask : List Bool}

theorem getElem?_of_index {α : Type} {xs : List α} {i : Nat} {a : α}
    (h : index xs i = .ok a) : xs[i]? = some a := by
  unfold index at h
  cases hx : xs[i]? with
  | none => rw [hx] at h; cases h
  | some b => rw [hx] at h; cases h; rfl

theorem index_ok {α : Type} {xs : List α} {i : Nat} {a : α} (h : xs[i]? = some a) :
    index xs i = .ok a := by
  rw [index, h]

/-- An accepted record has a literal for the key. -/
theorem validateRecord_key {table : Bytes} {pkIndex : Index} (cols : Schema) :
    ∀ {j : Nat} {seenKeys seenKeys' : List Bytes},
      validateRecord table pkIndex projectionMask record j cols seenKeys = .ok (.ok seenKeys') →
      ∀ (k : Nat) (col : UntypedColumnDefNode), cols[k]? = some col → isPrimaryKey col = true →
        ∃ node, record[j + k]? = some (some node) := by
  induction cols with
  | nil => intro j seen seen' _ k col h; cases h
  | cons head rest ih =>
      intro j seen seen' h k col hcol isKey
      rw [validateRecord] at h
      cases hl : index record j with
      | error e => rw [hl] at h; cases h
      | ok lit =>
          cases hm : index projectionMask j with
          | error e => rw [hl, hm] at h; cases h
          | ok isWritten =>
              rw [hl, hm, ok_bind, ok_bind] at h
              cases hv : validateValue table pkIndex head lit isWritten seen with
              | error report => rw [hv] at h; cases h
              | ok seen₁ =>
                  rw [hv] at h
                  cases k with
                  | succ k =>
                      obtain ⟨node, found⟩ := ih h k col hcol isKey
                      exact ⟨node, by rwa [Nat.add_comm k 1, ← Nat.add_assoc]⟩
                  | zero =>
                      cases hcol
                      cases lit with
                      | some node => exact ⟨node, getElem?_of_index hl⟩
                      | none =>
                          have key : (getModifiers head.modifiers).primaryKey = true := isKey
                          simp [validateValue, emptyLiteralRuleViolation, key] at hv

/-- The columns besides the key, as the writer's loop comes to them. -/
theorem payloadValues_eq_mapM (maskWidth : projectionMask.length = t.schema.length)
    (recordWidth : record.length = t.schema.length) (cols : Schema) :
    ∀ i, t.schema.drop i = cols →
      payloadValues record projectionMask t.pkIdx i cols =
        ((List.range' i cols.length).filter (· != t.pkIdx)).mapM
          (storedValue t record projectionMask) := by
  induction cols with
  | nil => intro i _; rfl
  | cons col rest ih =>
      intro i place
      have inside : i < t.schema.length := by
        by_contra outside
        rw [List.drop_eq_nil_of_le (by omega)] at place
        cases place
      have tail : t.schema.drop (i + 1) = rest := by
        rw [List.drop_eq_getElem_cons inside] at place
        exact (List.cons.inj place).2
      have head : t.schema[i]? = some col := by
        rw [List.drop_eq_getElem_cons inside] at place
        rw [List.getElem?_eq_getElem inside, (List.cons.inj place).1]
      rw [payloadValues, List.length_cons, List.range'_succ, ih (i + 1) tail]
      by_cases here : i = t.pkIdx
      · rw [if_pos here, List.filter_cons_of_neg (by simp [here])]
      · rw [if_neg here, List.filter_cons_of_pos (by simp [here]), List.mapM_cons]
        have lit : index record i = .ok record[i] := by
          rw [index, List.getElem?_eq_getElem (by omega)]
        have mask : index projectionMask i = .ok projectionMask[i] := by
          rw [index, List.getElem?_eq_getElem (by omega)]
        have column : index t.schema i = .ok col := by rw [index, head]
        rw [storedValue, lit, mask, column, ok_bind, ok_bind, ok_bind, ok_bind, ok_bind, if_neg here]

theorem filter_range_ne {p m : Nat} (h : p < m) :
    (List.range' 0 m).filter (· != p) = (List.range m).eraseIdx p := by
  have nodup := List.nodup_range (n := m)
  have place : (List.range m).idxOf p = p := by
    have := nodup.idxOf_getElem p (by simpa using h)
    rwa [List.getElem_range] at this
  rw [← List.range_eq_range', ← nodup.erase_eq_filter, ← List.eraseIdx_idxOf_eq_erase, place]

theorem storedValue_key (maskWidth : projectionMask.length = t.schema.length) :
    storedValue t record projectionMask t.pkIdx = serializedKey t record := by
  have inside := t.pkIdx_lt
  have mask : index projectionMask t.pkIdx = .ok projectionMask[t.pkIdx] := by
    rw [index, List.getElem?_eq_getElem (by omega)]
  have column : index t.schema t.pkIdx = .ok t.pkCol := by rw [index, t.getElem?_pkIdx]
  rw [storedValue, serializedKey, mask, column]
  cases index record t.pkIdx with
  | error e => rfl
  | ok lit =>
      rw [ok_bind, ok_bind, ok_bind, ok_bind]
      exact if_pos rfl

theorem storedValue_of_column (recordWidth : record.length = t.schema.length)
    (maskWidth : projectionMask.length = t.schema.length) {i : Nat} {col : UntypedColumnDefNode}
    (hcol : t.schema[i]? = some col) (other : i ≠ t.pkIdx) :
    (∃ value, storedValue t record projectionMask i = .ok value) ↔
      (TakesDefault record projectionMask i → ∃ value, getDefaultValue col.modifiers = .ok value) := by
  obtain ⟨inside, -⟩ := List.getElem?_eq_some_iff.mp hcol
  have hl : record[i]? = some record[i] := List.getElem?_eq_getElem (by omega)
  have hm : projectionMask[i]? = some projectionMask[i] := List.getElem?_eq_getElem (by omega)
  have value : storedValue t record projectionMask i =
      finalLiteral col record[i] projectionMask[i] := by
    rw [storedValue, index_ok hl, index_ok hm, index_ok hcol, ok_bind, ok_bind, ok_bind,
      if_neg other]
  rw [value]
  cases given : record[i] with
  | none =>
      have takes : TakesDefault record projectionMask i := by
        intro node h
        rw [hl, given] at h
        cases h
      exact ⟨fun h _ => h, fun h => h takes⟩
  | some node =>
      rw [given] at hl
      by_cases left : (!projectionMask[i] || decide (node.type = .empty)) = true
      · have takes : TakesDefault record projectionMask i := by
          intro node' h
          rw [hl, Option.some.injEq, Option.some.injEq] at h
          subst h
          rw [hm]
          simpa using left
        rw [finalLiteral, if_pos (by simpa using left)]
        exact ⟨fun h _ => h, fun h => h takes⟩
      · rw [finalLiteral, if_neg (by simpa using left)]
        refine ⟨fun _ takes => absurd ?_ left, fun _ => ⟨_, rfl⟩⟩
        simpa [hm] using takes node hl

/-- The values of an accepted record can be computed when the defaults can. -/
theorem storedValue_ok_iff (recordWidth : record.length = t.schema.length)
    (maskWidth : projectionMask.length = t.schema.length) {table : Bytes} {pkIndex : Index}
    {seenKeys seenKeys' : List Bytes}
    (valid : validateRecord table pkIndex projectionMask record 0 t.schema seenKeys =
      .ok (.ok seenKeys')) :
    (∀ i < t.schema.length, ∃ value, storedValue t record projectionMask i = .ok value) ↔
      DefaultsReadable t record projectionMask := by
  constructor
  · intro all i col hcol other
    obtain ⟨inside, -⟩ := List.getElem?_eq_some_iff.mp hcol
    exact (storedValue_of_column recordWidth maskWidth hcol other).mp (all i inside)
  · intro readable i inside
    have hcol := List.getElem?_eq_getElem inside
    by_cases isKey : i = t.pkIdx
    · subst isKey
      have key : isPrimaryKey t.schema[t.pkIdx] = true := List.findIdx_getElem (w := inside)
      obtain ⟨node, given⟩ := validateRecord_key t.schema valid t.pkIdx _ hcol key
      rw [Nat.zero_add] at given
      rw [storedValue_key maskWidth, serializedKey, index_ok given]
      exact ⟨_, rfl⟩
    · exact (storedValue_of_column recordWidth maskWidth hcol isKey).mpr (readable i _ hcol isKey)

/-- Where the value of a column stands in the record, behind the key. -/
theorem getElem?_payloadValues (recordWidth : record.length = t.schema.length)
    (maskWidth : projectionMask.length = t.schema.length) {values : List Bytes}
    (h : payloadValues record projectionMask t.pkIdx 0 t.schema = .ok values) {j : Nat} (hj : j < n) :
    ∃ value, values[j]? = some value ∧
      storedValue t record projectionMask (if j < t.pkIdx then j else j + 1) = .ok value := by
  have width := t.width
  rw [payloadValues_eq_mapM maskWidth recordWidth t.schema 0 rfl, filter_range_ne t.pkIdx_lt] at h
  refine (getElem?_of_mapM_ok h).2 j _ ?_
  rw [List.getElem?_eraseIdx]
  split <;> rw [List.getElem?_range (by omega)]

/-- The values can be computed when each of them can. -/
theorem writtenRecord_of_storedValue (recordWidth : record.length = t.schema.length)
    (maskWidth : projectionMask.length = t.schema.length) (type : RecordType)
    (all : ∀ i < t.schema.length, ∃ value, storedValue t record projectionMask i = .ok value) :
    ∃ key values, serializedKey t record = .ok key ∧
      payloadValues record projectionMask t.pkIdx 0 t.schema = .ok values ∧
      writtenRecord t type projectionMask record = .ok (storedRecord t type key values) := by
  obtain ⟨key, hk⟩ := all t.pkIdx t.pkIdx_lt
  rw [storedValue_key maskWidth] at hk
  obtain ⟨values, hv⟩ : ∃ values,
      payloadValues record projectionMask t.pkIdx 0 t.schema = .ok values := by
    rw [payloadValues_eq_mapM maskWidth recordWidth t.schema 0 rfl]
    refine mapM_ok_of_forall fun i hi => all i ?_
    have := List.mem_range'_1.mp (List.mem_filter.mp hi).1
    omega
  exact ⟨key, values, hk, hv, by rw [writtenRecord, hk, hv]; rfl⟩

end Values


/-! Keys -/

section Keys

variable {t : TableSchema n} {type : RecordType} {projectionMask : List Bool} {records : List ValueRecordNode}

/-- The values of the record besides the key can be computed. -/
def Storable (t : TableSchema n) (projectionMask : List Bool) (record : ValueRecordNode) : Prop :=
  ∃ values, payloadValues record projectionMask t.pkIdx 0 t.schema = .ok values

/-- The stored keys of the records in front of the first one that cannot be written differ
from each other, and from those of the live records. -/
def NewKeys (t : TableSchema n) (rs : List (TableRecord n)) (projectionMask : List Bool)
    (records : List ValueRecordNode) : Prop :=
  ∀ batch rest keys, records = batch ++ rest →
    List.Forall₂ (fun record key => Storable t projectionMask record ∧ serializedKey t record = .ok key) batch keys →
    keys.Nodup ∧ ∀ key ∈ keys, key ∉ (liveRecords rs).map fun r => r.pkLiteral

theorem storable_key_iff (type : RecordType) {record : ValueRecordNode} {key : Bytes} :
    Storable t projectionMask record ∧ serializedKey t record = .ok key ↔
      ∃ r, writtenRecord t type projectionMask record = .ok r ∧ r.pkLiteral = key := by
  constructor
  · rintro ⟨⟨values, hvalues⟩, hkey⟩
    exact ⟨storedRecord t type key values, by rw [writtenRecord, hkey, hvalues]; rfl, rfl⟩
  · rintro ⟨r, written, rfl⟩
    obtain ⟨key, values, hkey, hvalues, -, rfl⟩ := writtenRecord_ok written
    exact ⟨⟨values, hvalues⟩, hkey⟩

/-- The keys are new if and only if those of the records that are written are. -/
theorem newKeys_iff {rs news : List (TableRecord n)} (appended : Appended t type projectionMask records news) :
    NewKeys t rs projectionMask records ↔ (news.map fun r => r.pkLiteral).Nodup ∧
      ∀ r ∈ news, r.pkLiteral ∉ (liveRecords rs).map fun r => r.pkLiteral := by
  have written : (news.map fun r => r.pkLiteral) =
      (writtenRecords t type projectionMask records).1.map fun r => r.pkLiteral := by
    rw [← appended.stored, List.map_map]
    rfl
  have each : (∀ r ∈ news, r.pkLiteral ∉ (liveRecords rs).map fun r => r.pkLiteral) ↔
      ∀ key ∈ news.map (fun r => r.pkLiteral), key ∉ (liveRecords rs).map fun r => r.pkLiteral := by
    simp only [List.forall_mem_map]
  rw [each, written]
  constructor
  · intro new
    obtain ⟨batch, rest, whole, keys⟩ := writtenRecords_front t type projectionMask records
    exact new batch rest _ whole (keys.imp fun _ _ => (storable_key_iff type).mpr)
  · rintro ⟨distinct, new⟩ batch rest keys whole keysOf
    have front := keys_prefix_writtenRecords whole (keysOf.imp fun _ _ => (storable_key_iff type).mp)
    exact ⟨front.sublist.nodup distinct, fun key mem => new key (front.subset mem)⟩

end Keys

end Jssql.FileHandler
