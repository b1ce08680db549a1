import Jssql.Theory.Appending
import Jssql.Theory.CutScans

/-!
A table file of which the end is missing. Both readers are safe on it as long as no live
record is cut behind its type byte. On one that is, `deserializeNextRecord` uses the size it
could not read and stops at the value; `copyNextLiveRecord` checks no read and reports the
record as live.
-/
namespace Jssql.FileHandler
open Foundation Foundation.Stream

variable {n : Nat} {γ : Type}

/-- Where a scan starts. -/
def behindHeader (content : Bytes) : Stream := split (content.take 32) (content.drop 32)

/-- Where the record behind these starts. -/
def startBehind (before : List (TableRecord n)) : Nat := 32 + (encodeAll before).length

/-- The scan of a file that is cut at `p`. A size of which bytes are missing has them from
what memory held; so where no such size is used, the scan is the same for any memory. -/
structure ScansSafely (R : Env → StreamM (Indicator × List γ)) (f : TableFile n) (p : Nat) : Prop where
  sizes : ∀ env env' rounds, calls (R env) rounds (behindHeader (f.bytes.take p)) =
    calls (R env') rounds (behindHeader (f.bytes.take p))
  complete : ∀ env before after, f.records = before ++ after → startBehind before ≤ p →
    calls (R env) before.length (behindHeader (f.bytes.take p)) = calls (R env) before.length (behindHeader f.bytes)
  cut : ∀ env before r after, f.records = before ++ r :: after → startBehind before ≤ p →
    p < startBehind before + r.encode.length → ∀ rounds,
      ∀ call ∈ (calls (R env) rounds (behindHeader (f.bytes.take p))).drop before.length,
        ∀ read, call ≠ .ok (.live, read)

/-- All that is copied are live records that end before `p`. -/
def CopiesWhole (f : TableFile n) (p : Nat) : Prop :=
  ∀ env rounds indicator copied,
    .ok (indicator, copied) ∈ calls (copyNextLiveRecord env n) rounds (behindHeader (f.bytes.take p)) →
      copied = [] ∨ ∃ before r after, f.records = before ++ r :: after ∧ r.isTombstone = false ∧
        startBehind before + r.encode.length ≤ p ∧ copied = r.encode

structure SafelyTruncated (t : TableSchema n) (projectionMask : List Bool) (optWhere : Option WhereNode)
    (f : TableFile n) (p : Nat) : Prop where
  read : ScansSafely (fun env => deserializeNextRecord env t.schema projectionMask optWhere) f p
  copy : ScansSafely (fun env => copyNextLiveRecord env n) f p
  whole : CopiesWhole f p

/-- No live record is cut behind its type byte. -/
def CutsNoLiveBody (f : TableFile n) (p : Nat) : Prop :=
  ∀ before r after, f.records = before ++ r :: after → r.isTombstone = false → startBehind before + 9 ≤ p →
    startBehind before + r.encode.length ≤ p

/-! The cut -/

section Cut

variable {f : TableFile n} {p : Nat}

theorem behindHeader_bytes (f : TableFile n) : behindHeader f.bytes = split f.header (encodeAll f.records) := by
  rw [behindHeader, TableFile.bytes, List.take_left' f.header_length, List.drop_left' f.header_length]

theorem behindHeader_take {before after : List (TableRecord n)} (records : f.records = before ++ after)
    (inside : startBehind before ≤ p) : behindHeader (f.bytes.take p) =
      split f.header (encodeAll before ++ (encodeAll after).take (p - startBehind before)) := by
  obtain ⟨k, rfl⟩ := Nat.exists_eq_add_of_le inside
  have whole : f.bytes.take (startBehind before + k) = f.header ++ (encodeAll before ++ (encodeAll after).take k) := by
    rw [startBehind, Nat.add_assoc, TableFile.bytes, records, encodeAll_append, take_append_add f.header_length,
      take_append_add rfl]
  rw [whole, behindHeader, List.take_left' f.header_length, List.drop_left' f.header_length, Nat.add_sub_cancel_left]

/-- The records before the cut. -/
theorem exists_cut (rs : List (TableRecord n)) (q : Nat) : ∃ before after, rs = before ++ after ∧
    (encodeAll before).length ≤ q ∧
      (after = [] ∨ ∃ r rest, after = r :: rest ∧ q < (encodeAll before).length + r.encode.length) := by
  induction rs generalizing q with
  | nil => exact ⟨[], [], rfl, Nat.zero_le q, .inl rfl⟩
  | cons r rs ih =>
      by_cases inside : q < r.encode.length
      · exact ⟨[], r :: rs, rfl, Nat.zero_le q, .inr ⟨r, rs, rfl, by rwa [encodeAll_nil, List.length_nil, Nat.zero_add]⟩⟩
      · obtain ⟨before, after, rfl, far, last⟩ := ih (q - r.encode.length)
        refine ⟨r :: before, after, rfl, ?_, last.imp_right ?_⟩
        · rw [encodeAll_cons, List.length_append]
          omega
        · rintro ⟨s, rest, rfl, near⟩
          refine ⟨s, rest, rfl, ?_⟩
          rw [encodeAll_cons, List.length_append]
          omega

variable {R : Env → StreamM (Indicator × List γ)} {treat : TableRecord n → Except Fault (Indicator × List γ)}

/-- What is behind the whole records, when no live record is cut behind its type. -/
theorem RecordReader.idle_tail (reader : RecordReader R treat) (safe : CutsNoLiveBody f p)
    {before : List (TableRecord n)} {r : TableRecord n} {after : List (TableRecord n)}
    (records : f.records = before ++ r :: after) (inside : startBehind before ≤ p)
    (cut : p < startBehind before + r.encode.length) (front : Bytes) :
    Idle R (split front ((encodeAll (r :: after)).take (p - startBehind before))) := by
  have part : p - startBehind before < r.encode.length := by omega
  rw [encodeAll_cons, List.take_append_of_le_length (Nat.le_of_lt part)]
  refine reader.idle_cut r front part fun type => ?_
  by_contra live
  have whole := safe before r after records (Bool.not_eq_true _ ▸ live) (by omega)
  omega

/-- The stream of a scan, and that nothing is reported behind the whole records. -/
theorem RecordReader.cut_cases (reader : RecordReader R treat) (header : 32 ≤ p) (safe : CutsNoLiveBody f p) :
    ∃ before after tail, f.records = before ++ after ∧ startBehind before ≤ p ∧
      behindHeader (f.bytes.take p) = split f.header (encodeAll before ++ tail) ∧
      Idle R (split (f.header ++ encodeAll before) tail) := by
  obtain ⟨before, after, records, far, last⟩ := exists_cut f.records (p - 32)
  have inside : startBehind before ≤ p := by
    rw [startBehind]
    omega
  refine ⟨before, after, _, records, inside, behindHeader_take records inside, ?_⟩
  rcases last with rfl | ⟨r, rest, rfl, near⟩
  · refine reader.idle_spent (.inr ?_)
    rw [encodeAll_nil, List.take_nil, split_content, split_pos, List.append_nil]
    omega
  · refine reader.idle_tail safe records inside ?_ _
    rw [startBehind]
    omega

theorem RecordReader.scansSafely (reader : RecordReader R treat) (header : 32 ≤ p) (safe : CutsNoLiveBody f p) :
    ScansSafely R f p where
  sizes := by
    intro env env' rounds
    obtain ⟨before, after, tail, -, -, stream, idle⟩ := reader.cut_cases header safe
    have same : (fun rounds => calls (R env) rounds (split (f.header ++ encodeAll before) tail)) =
        fun rounds => calls (R env') rounds (split (f.header ++ encodeAll before) tail) :=
      funext fun rounds => idle.1 env env' rounds
    rw [stream, reader.calls_records, reader.calls_records, same]
  complete := by
    intro env before after records inside
    have length : before.length = (before.map treat).length := (List.length_map _).symm
    rw [behindHeader_take records inside, behindHeader_bytes, records, encodeAll_append, reader.calls_records,
      reader.calls_records, length]
    exact replay_length _ _
  cut := by
    intro env before r after records inside near rounds call mem read same
    have length : before.length = (before.map treat).length := (List.length_map _).symm
    rw [behindHeader_take records inside, reader.calls_records, length] at mem
    obtain ⟨rounds, mem⟩ := mem_drop_replay mem
    obtain ⟨indicator, unmarked, idle⟩ := (reader.idle_tail safe records inside near _).2 env rounds call mem
    rw [same] at idle
    cases idle
    exact unmarked rfl

theorem copiesWhole (header : 32 ≤ p) (safe : CutsNoLiveBody f p) : CopiesWhole f p := by
  intro env rounds indicator copied mem
  obtain ⟨before, after, tail, records, inside, stream, idle⟩ := copyReader.cut_cases header safe
  rw [stream, copyReader.calls_records] at mem
  rcases mem_replay mem with whole | ⟨rounds, mem⟩
  · obtain ⟨r, here, treated⟩ := List.mem_map.mp whole
    obtain ⟨front, back, rfl⟩ := List.append_of_mem here
    cases state : r.isTombstone with
    | true =>
        rw [copyTreat, state] at treated
        cases treated
        exact .inl rfl
    | false =>
        rw [copyTreat, state] at treated
        cases treated
        refine .inr ⟨front, r, back ++ after, by rw [records, List.append_assoc, List.cons_append], state, ?_, rfl⟩
        rw [startBehind, encodeAll_append, encodeAll_cons, List.length_append, List.length_append] at inside
        rw [startBehind]
        omega
  · obtain ⟨_, _, same⟩ := idle.2 env rounds _ mem
    cases same
    exact .inl rfl

/-- Behind the type of a live record a cut is not noticed. -/
theorem copy_reports_cut {before : List (TableRecord n)} {r : TableRecord n} {after : List (TableRecord n)}
    (records : f.records = before ++ r :: after) (live : r.isTombstone = false) (type : startBehind before + 9 ≤ p)
    (cut : p < startBehind before + r.encode.length) :
    ∃ copied, .ok (.live, copied) ∈ (calls (copyNextLiveRecord ⟨false, fun _ => 0⟩ n) (before.length + 1)
      (behindHeader (f.bytes.take p))).drop before.length := by
  have part : p - startBehind before < r.encode.length := by omega
  have zeroed : ∀ i, (⟨false, fun _ => 0⟩ : Env).uninit i = 0 := fun _ => rfl
  obtain ⟨copied, s, run⟩ := copyNextLiveRecord_cut zeroed r live (f.header ++ encodeAll before) part (by omega)
  have answers : before.map copyTreat =
      (before.map fun r => if r.isTombstone then (.tombstone, []) else (.live, r.encode)).map Except.ok := by
    rw [List.map_map]
    rfl
  have length : before.length =
      (before.map fun r => if r.isTombstone then (Indicator.tombstone, []) else (.live, r.encode)).length :=
    (List.length_map _).symm
  refine ⟨copied, ?_⟩
  rw [behindHeader_take records (by omega), encodeAll_cons, List.take_append_of_le_length (Nat.le_of_lt part),
    copyReader.calls_records, answers, length, replay_ok, List.drop_left' (List.length_map _), calls_succ_ok run]
  exact List.mem_cons_self

/-- The reader of `SELECT` reports no cut record as live, wherever it is cut. -/
theorem read_reports_no_cut (env : Env) (t : TableSchema n) (projectionMask : List Bool) (optWhere : Option WhereNode)
    {before : List (TableRecord n)} {r : TableRecord n} {after : List (TableRecord n)}
    (records : f.records = before ++ r :: after) (inside : startBehind before ≤ p)
    (cut : p < startBehind before + r.encode.length) (rounds : Nat) (record : Record) :
    .ok (.live, record) ∉ (calls (deserializeNextRecord env t.schema projectionMask optWhere) rounds
      (behindHeader (f.bytes.take p))).drop before.length := by
  have part : p - startBehind before < r.encode.length := by omega
  have length : before.length = (before.map (readTreat projectionMask optWhere)).length := (List.length_map _).symm
  intro mem
  rw [behindHeader_take records inside, encodeAll_cons, List.take_append_of_le_length (Nat.le_of_lt part),
    (recordReader t projectionMask optWhere).calls_records, length] at mem
  obtain ⟨rounds, mem⟩ := mem_drop_replay mem
  exact deserializeNextRecord_cut env t projectionMask optWhere r _ part rounds record mem

end Cut

/-- Both readers are safe on a file that is cut if and only if no live record is cut behind
its type byte. -/
theorem safelyTruncated_iff (t : TableSchema n) (projectionMask : List Bool) (optWhere : Option WhereNode)
    (f : TableFile n) {p : Nat} (header : 32 ≤ p) :
    SafelyTruncated t projectionMask optWhere f p ↔ CutsNoLiveBody f p := by
  constructor
  · intro safe before r after records live type
    by_contra cut
    obtain ⟨copied, reported⟩ := copy_reports_cut records live type (Nat.lt_of_not_le cut)
    exact safe.copy.cut _ before r after records (by omega) (Nat.lt_of_not_le cut) _ _ reported copied rfl
  · intro safe
    exact ⟨(recordReader t projectionMask optWhere).scansSafely header safe, copyReader.scansSafely header safe,
      copiesWhole header safe⟩

/-- The file of a table with one record. -/
def oneRecord : TableFile 1 := pairFile [ascii "7"] (ascii "x") (by decide)

theorem oneRecord_records : oneRecord.records = [] ++ pairRecord (ascii "7") (ascii "x") (by decide) :: [] := rfl

/-- Cut within the length of its record. -/
theorem safelyTruncated_iff_inLength : SafelyTruncated pairSchema [true, true] none oneRecord 37 := by
  refine (safelyTruncated_iff pairSchema [true, true] none oneRecord (by decide)).mpr ?_
  intro before r after _ _ type
  rw [startBehind] at type
  omega

/-- Cut behind the type of its record. -/
theorem not_safelyTruncated : ¬ SafelyTruncated pairSchema [true, true] none oneRecord 41 := by
  have start : startBehind ([] : List (TableRecord 1)) = 32 := rfl
  have long : 41 < startBehind ([] : List (TableRecord 1)) +
      (pairRecord (ascii "7") (ascii "x") (by decide)).encode.length := by
    rw [start, StoredRecord.length_encode, TableRecord.recordLength_eq]
    omega
  obtain ⟨copied, reported⟩ := copy_reports_cut oneRecord_records rfl (by rw [start]) long
  intro safe
  exact safe.copy.cut _ [] _ [] oneRecord_records (by rw [start]; omega) long _ _ reported copied rfl

end Jssql.FileHandler
