import Jssql.Theory.ColumnReaders

/-!
The scans that only read a table file: `SELECT`, the index, the counts, and the
copy of the compaction. Each is the fold of what its reader does to one record,
so its result is a function of the list of records.
-/
namespace Jssql.FileHandler
open Foundation Foundation.Stream ConditionEvaluator

variable {n : Nat}

/-- A scan has a round for every record and one for the end of the file. -/
theorem scanRounds_eq (before : Bytes) (rs : List (TableRecord n)) (after : Bytes) :
    ∃ spare, scanRounds (before ++ encodeAll rs ++ after) = rs.length + (spare + 1) := by
  have records := length_lt_encodeAll rs
  have content : (encodeAll rs).length ≤ (before ++ encodeAll rs ++ after).length := by
    simp only [List.length_append]
    omega
  have square : (before ++ encodeAll rs ++ after).length + 2 ≤
      scanRounds (before ++ encodeAll rs ++ after) := by
    rw [scanRounds, Nat.pow_two]
    exact Nat.le_mul_of_pos_left _ (by omega)
  exact ⟨scanRounds (before ++ encodeAll rs ++ after) - rs.length - 1, by omega⟩

/-- The fold over records that knows where each of them starts. -/
def foldFrom {β : Type} (f : Nat → β → TableRecord n → Except Fault β) :
    Nat → β → List (TableRecord n) → Except Fault β
  | _, b, [] => .ok b
  | start, b, r :: rest => do
      let b' ← f start b r
      foldFrom f (start + r.encode.length) b' rest

theorem foldFrom_const {β : Type} (f : β → TableRecord n → Except Fault β)
    (rs : List (TableRecord n)) : ∀ (start : Nat) (b : β),
      foldFrom (fun _ => f) start b rs = rs.foldlM f b := by
  induction rs with
  | nil => intro start b; rfl
  | cons r rest ih =>
      intro start b
      rw [foldFrom, List.foldlM_cons]
      cases f b r with
      | error e => rfl
      | ok b' => exact ih _ b'

/-- A loop of a reader that treats a record as `f` does is the fold of `f`. -/
theorem outcome_scan {β : Type} {body : β → StreamM (Bool × β)}
    (f : Nat → β → TableRecord n → Except Fault β)
    (step : ∀ b r before after,
      outcome (fun _ => ()) ((body b).run (split before (r.encode ++ after))) =
        settle ((f before.length b r).map fun b' => (false, b')) (split (before ++ r.encode) after) ())
    (finish : ∀ b before, (body b).run (split before []) = .ok (true, b) (exhausted before))
    (before : Bytes) (rs : List (TableRecord n)) (b : β) :
    outcome (fun _ => ()) ((repeatUntil .diverges body (scanRounds (before ++ encodeAll rs)) b).run
      (split before (encodeAll rs))) =
      settle (foldFrom f before.length b rs) (exhausted (before ++ encodeAll rs)) () := by
  let g := fun (scan : Bytes × β) (r : TableRecord n) =>
    (settle (f scan.1.length scan.2 r) (scan.1 ++ r.encode) ()).map Prod.swap
  obtain ⟨spare, rounds⟩ := scanRounds_eq before rs []
  rw [List.append_nil] at rounds
  have loop := outcome_repeatUntil (fun _ => ()) Fault.diverges body
    (fun rest (scan : Bytes × β) => (split scan.1 (encodeAll rest), scan.2)) g
    (fun r rest scan => by
      simp only [encodeAll_cons, step, g]
      cases f scan.1.length scan.2 r <;> rfl)
    rs (spare + 1) (before, b)
  have fold : ∀ (rs : List (TableRecord n)) (scan : Bytes × β), rs.foldlM g scan =
      (settle (foldFrom f scan.1.length scan.2 rs) (scan.1 ++ encodeAll rs) ()).map Prod.swap := by
    intro rs
    induction rs with
    | nil => intro scan; simp [foldFrom, Except.map, pure, Except.pure]
    | cons r rest ih =>
        intro scan
        rw [List.foldlM_cons, foldFrom]
        simp only [g] at ih ⊢
        cases f scan.1.length scan.2 r with
        | error e => rfl
        | ok b' =>
            rw [settle_ok, Except.map, ok_bind, ok_bind, ih]
            simp
  rw [rounds, loop, fold]
  cases foldFrom f before.length b rs with
  | error e => rfl
  | ok b' =>
      rw [settle_ok, settle_ok, Except.map, ok_bind]
      exact outcome_repeatUntil_finish (finish b' _) spare

/-! SELECT -/

/-- What a scan of `SELECT` does with one record. -/
def selectStep (projectionMask : List Bool) (optWhere : Option WhereNode) (rows : ResultSet)
    (r : TableRecord n) : Except Fault ResultSet :=
  if r.isTombstone then .ok rows
  else (whereMatches optWhere r.row).map fun isMatch =>
    if isMatch then rows ++ [projectRow projectionMask r.row] else rows

/-- The rows of the live records that satisfy the condition, in file order. -/
def selectedRows (projectionMask : List Bool) (optWhere : Option WhereNode)
    (rs : List (TableRecord n)) : Except Fault ResultSet :=
  rs.foldlM (selectStep projectionMask optWhere) []

/-- Where the condition can be evaluated on all live records, the rows are the masked
values of those that satisfy it. -/
theorem selectedRows_of_ok {projectionMask : List Bool} {optWhere : Option WhereNode}
    {rs : List (TableRecord n)} (isMatch : TableRecord n → Bool)
    (evaluates : ∀ r ∈ liveRecords rs, whereMatches optWhere r.row = .ok (isMatch r)) :
    selectedRows projectionMask optWhere rs =
      .ok (((liveRecords rs).filter isMatch).map fun r => projectRow projectionMask r.row) := by
  have fold : ∀ rows, rs.foldlM (selectStep projectionMask optWhere) rows =
      .ok (rows ++ ((liveRecords rs).filter isMatch).map
        fun r => projectRow projectionMask r.row) := by
    induction rs with
    | nil => intro rows; simp [liveRecords, pure, Except.pure]
    | cons r rest ih =>
        intro rows
        rw [List.foldlM_cons, selectStep]
        cases state : r.isTombstone with
        | true =>
            have gone : liveRecords (r :: rest) = liveRecords rest :=
              List.filter_cons_of_neg (by simp [isLive, state])
            rw [gone] at evaluates ⊢
            exact ih evaluates rows
        | false =>
            have kept : liveRecords (r :: rest) = r :: liveRecords rest :=
              List.filter_cons_of_pos (by simp [isLive, state])
            rw [kept] at evaluates ⊢
            rw [if_neg Bool.false_ne_true, evaluates r (by simp), Except.map, ok_bind,
              ih fun s hs => evaluates s (by simp [hs])]
            cases hm : isMatch r <;> simp [hm]
  exact (fold []).trans (by rw [List.nil_append])

theorem deserializeNextRecord_end (env : Env) (schema : Schema) (projectionMask : List Bool)
    (optWhere : Option WhereNode) (before : Bytes) :
    (deserializeNextRecord env schema projectionMask optWhere).run (split before []) =
      .ok (.endOfTable, []) (exhausted before) := by
  unfold deserializeNextRecord
  rw [run_bind_ok (readHead_end before)]
  rfl

/-- The rows of a sequential scan are those of the matching live records. -/
theorem selectSequentially_records (env : Env) (t : TableSchema n) {projectionMask : List Bool}
    (width : projectionMask.length = n + 1) (optWhere : Option WhereNode) (before : Bytes)
    (rs : List (TableRecord n)) :
    outcome (fun _ => ()) ((selectSequentially env t.schema projectionMask optWhere).run
      (split before (encodeAll rs))) =
      settle (selectedRows projectionMask optWhere rs) (exhausted (before ++ encodeAll rs)) () := by
  unfold selectSequentially
  rw [run_bind_ok (show (get : StreamM Stream).run (split before (encodeAll rs)) = _ from rfl)]
  rw [selectedRows, ← foldFrom_const _ rs before.length]
  refine outcome_scan (fun _ => selectStep projectionMask optWhere) ?_ ?_ before rs []
  · intro rows r before after
    cases state : r.isTombstone with
    | true =>
        rw [run_bind_ok (deserializeNextRecord_tombstone env t r before after state _ _),
          selectStep, if_pos state]
        rfl
    | false =>
        have read := outcome_unit
          (deserializeNextRecord_live env t r before after state projectionMask optWhere)
        rw [outcome_bind, read, recordResult_eq (by rw [width, r.length_row]), selectStep,
          if_neg (by rw [state]; exact Bool.false_ne_true)]
        cases whereMatches optWhere r.row with
        | error e => rfl
        | ok isMatch => cases isMatch <;> rfl
  · intro rows before
    rw [run_bind_ok (deserializeNextRecord_end env t.schema projectionMask optWhere before)]
    rfl

/-! The index -/

theorem deserializeNextPrimaryKey_end (columnsWithoutPk : Nat) (before : Bytes) :
    (deserializeNextPrimaryKey columnsWithoutPk).run (split before []) =
      .ok (.endOfTable, [], 0) (exhausted before) := by
  unfold deserializeNextPrimaryKey
  rw [run_bind_ok (readHead_end before)]
  rfl

/-- What a scan for the index does with one record. -/
def indexStep (start : Nat) (result : Index) (r : TableRecord n) : Index :=
  if r.isTombstone then result else insertNew result r.pkLiteral (start + 8)

theorem foldFrom_indexStep (rs : List (TableRecord n)) : ∀ (start : Nat) (result : Index),
    foldFrom (fun start result r => .ok (indexStep start result r)) start result rs =
      .ok (insertAllNew result (liveEntries start rs)) := by
  induction rs with
  | nil => intro start result; rfl
  | cons r rest ih =>
      intro start result
      rw [foldFrom, ok_bind, ih, liveEntries, indexStep]
      cases r.isTombstone <;> rfl

/-- The index read from a file is the one its records determine. -/
theorem extractPrimaryKeysIndex_records (before : Bytes) (rs : List (TableRecord n)) :
    (extractPrimaryKeysIndex n).run (split before (encodeAll rs)) =
      .ok (indexOfEntries (liveEntries before.length rs)) (exhausted (before ++ encodeAll rs)) := by
  unfold extractPrimaryKeysIndex
  rw [run_bind_ok (show (get : StreamM Stream).run (split before (encodeAll rs)) = _ from rfl)]
  refine outcome_eq_ok.mp ((outcome_scan (n := n)
    (fun start result r => .ok (indexStep start result r)) ?_ ?_ before rs ∅).trans ?_)
  · intro result r before after
    rw [run_bind_ok (deserializeNextPrimaryKey_record r before after), indexStep]
    cases r.isTombstone <;> rfl
  · intro result before
    rw [run_bind_ok (deserializeNextPrimaryKey_end n before)]
    rfl
  · rw [foldFrom_indexStep]
    rfl

/-! The counts -/

theorem deserializeNextRecordType_end (before : Bytes) :
    deserializeNextRecordType.run (split before []) = .ok .endOfTable (exhausted before) := by
  unfold deserializeNextRecordType
  rw [run_bind_ok (readHead_end before)]
  rfl

/-- The counts of a list of records. -/
def recordCounts (rs : List (TableRecord n)) : RecordCounts :=
  ⟨(rs.filter fun r => r.isTombstone).length, rs.length⟩

def countStep (counts : RecordCounts) (r : TableRecord n) : RecordCounts :=
  counts.count (if r.isTombstone then .tombstone else .live)

theorem countRecords_records (env : Env) (before : Bytes) (rs : List (TableRecord n)) :
    (countRecords env).run (split before (encodeAll rs)) =
      .ok (recordCounts rs) (exhausted (before ++ encodeAll rs)) := by
  have fold : ∀ (rs : List (TableRecord n)) (start : Nat) (counts : RecordCounts),
      foldFrom (fun _ counts r => .ok (countStep counts r)) start counts rs = .ok ⟨counts.tombstoneCount + (recordCounts rs).tombstoneCount,
          counts.totalCount + (recordCounts rs).totalCount⟩ := by
    intro rs
    induction rs with
    | nil => intro start counts; rfl
    | cons r rest ih =>
        intro start counts
        rw [foldFrom, ok_bind, ih]
        cases state : r.isTombstone <;> simp [recordCounts, countStep, RecordCounts.count, state] <;> omega
  unfold countRecords
  rw [run_bind_ok (show (get : StreamM Stream).run (split before (encodeAll rs)) = _ from rfl)]
  refine outcome_eq_ok.mp ((outcome_scan (n := n)
    (fun _ counts r => .ok (countStep counts r)) ?_ ?_ before rs ⟨0, 0⟩).trans ?_)
  · intro counts r before after
    rw [run_bind_ok (deserializeNextRecordType_record r before after), countStep]
    cases r.isTombstone <;> rfl
  · intro counts before
    rw [run_bind_ok (deserializeNextRecordType_end before)]
    rfl
  · rw [fold]
    simp

end Jssql.FileHandler
