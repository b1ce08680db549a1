import Jssql.Foundation.Calls
import Jssql.Theory.CompactionScan
import Jssql.Theory.CutRecords

/-!
Scans over a file whose end is cut off. The readers of `SELECT` and of the compaction give
the records before the cut their own results, whatever follows. On the record that is cut
they agree as long as its head tells them to stop; behind the head of a live record the
reader of the compaction goes on, since it checks no read.
-/
namespace Jssql.FileHandler
open Foundation Foundation.Stream

variable {n : Nat} {γ : Type}

/-- A reader that stops where the head does, and treats a whole record by itself. -/
structure RecordReader (R : Env → StreamM (Indicator × List γ))
    (treat : TableRecord n → Except Fault (Indicator × List γ)) : Prop where
  done : ∀ {env : Env} {s s' : Stream} {indicator : Indicator},
    readHead.run s = .ok (.done indicator) s' → (R env).run s = .ok (indicator, []) s'
  record : ∀ (env : Env) (r : TableRecord n) (before after : Bytes),
    outcome (fun _ => ()) ((R env).run (split before (r.encode ++ after))) =
      settle (treat r) (split (before ++ r.encode) after) ()

/-- What `copyNextLiveRecord` does with a record. -/
def copyTreat (r : TableRecord n) : Except Fault (Indicator × Bytes) :=
  .ok (if r.isTombstone then (.tombstone, []) else (.live, r.encode))

theorem copyReader : RecordReader (fun env => copyNextLiveRecord env n) (copyTreat (n := n)) where
  done := by
    intro env s s' indicator run
    unfold copyNextLiveRecord
    rw [run_bind_ok run]
    rfl
  record := by
    intro env r before after
    rw [copyNextLiveRecord_record, outcome_ok]
    rfl

/-- What `deserializeNextRecord` does with a record. -/
def readTreat (projectionMask : List Bool) (optWhere : Option WhereNode) (r : TableRecord n) :
    Except Fault (Indicator × Record) :=
  if r.isTombstone then .ok (.tombstone, []) else recordResult projectionMask optWhere r.row

theorem recordReader (t : TableSchema n) (projectionMask : List Bool) (optWhere : Option WhereNode) :
    RecordReader (fun env => deserializeNextRecord env t.schema projectionMask optWhere)
      (readTreat (n := n) projectionMask optWhere) where
  done := by
    intro env s s' indicator run
    unfold deserializeNextRecord
    rw [run_bind_ok run]
    rfl
  record := by
    intro env r before after
    rw [readTreat]
    cases state : r.isTombstone with
    | true =>
        rw [deserializeNextRecord_tombstone env t r before after state]
        rfl
    | false => exact outcome_unit (deserializeNextRecord_live env t r before after state projectionMask optWhere)

section Reader

variable {R : Env → StreamM (Indicator × List γ)} {treat : TableRecord n → Except Fault (Indicator × List γ)}
  (reader : RecordReader R treat)

include reader

/-- A scan over whole records, and then over what follows them. -/
theorem RecordReader.calls_records (env : Env) (rs : List (TableRecord n)) (before tail : Bytes) (rounds : Nat) :
    calls (R env) rounds (split before (encodeAll rs ++ tail)) =
      replay (rs.map treat) (fun rounds => calls (R env) rounds (split (before ++ encodeAll rs) tail)) rounds := by
  have step (before : Bytes) (r : TableRecord n) (rs : List (TableRecord n)) :
      outcome (fun _ => ()) ((R env).run (split before (encodeAll (r :: rs) ++ tail))) =
        settle (treat r) (split (before ++ r.encode) (encodeAll rs ++ tail)) () := by
    rw [encodeAll_cons, List.append_assoc]
    exact reader.record env r before _
  have whole : ∀ before : Bytes, rs.foldl (fun before r => before ++ r.encode) before = before ++ encodeAll rs := by
    intro before
    induction rs generalizing before with
    | nil => exact (List.append_nil before).symm
    | cons r rs ih => rw [List.foldl_cons, ih, encodeAll_cons, List.append_assoc]
  have items := calls_items (fun before rs => split before (encodeAll rs ++ tail))
    (fun before r => before ++ r.encode) step rs before rounds
  rw [whole] at items
  exact items

/-- Nothing but the end of the table is reported when nothing is left to read. -/
theorem RecordReader.calls_spent (env : Env) {s : Stream} (spent : Spent s) (rounds : Nat) :
    calls (R env) rounds s = List.replicate rounds (.ok (.endOfTable, [])) := by
  induction rounds generalizing s with
  | zero => rfl
  | succ rounds ih =>
      obtain ⟨s', run, -, failed⟩ := readHead_spent spent
      rw [calls_succ_ok (reader.done run), ih (.inl failed), List.replicate_succ]

/-- Calls that report no live record and bring nothing, whatever memory holds. -/
def Idle (R : Env → StreamM (Indicator × List γ)) (s : Stream) : Prop :=
  (∀ env env' rounds, calls (R env) rounds s = calls (R env') rounds s) ∧
    ∀ env rounds, ∀ call ∈ calls (R env) rounds s, ∃ indicator, indicator ≠ .live ∧ call = .ok (indicator, [])

theorem RecordReader.idle_spent {s : Stream} (spent : Spent s) : Idle R s := by
  refine ⟨fun env env' rounds => ?_, fun env rounds call mem => ?_⟩
  · rw [reader.calls_spent env spent, reader.calls_spent env' spent]
  · rw [reader.calls_spent env spent] at mem
    exact ⟨.endOfTable, by decide, List.eq_of_mem_replicate mem⟩

/-- On a record that is cut before its type, or is a tombstone, the reader stops with the head. -/
theorem RecordReader.idle_cut (r : TableRecord n) (before : Bytes) {k : Nat} (cut : k < r.encode.length)
    (early : 9 ≤ k → r.isTombstone = true) : Idle R (split before (r.encode.take k)) := by
  cases readHead_cut r before cut with
  | @done indicator s' _ run unmarked _ spent =>
      refine ⟨fun env env' rounds => ?_, fun env rounds call mem => ?_⟩
      · cases rounds with
        | zero => rfl
        | succ rounds =>
            rw [calls_succ_ok (reader.done run), calls_succ_ok (reader.done run), reader.calls_spent env spent,
              reader.calls_spent env' spent]
      · cases rounds with
        | zero => cases mem
        | succ rounds =>
            rw [calls_succ_ok (reader.done run), reader.calls_spent env spent] at mem
            rcases List.mem_cons.mp mem with rfl | mem
            · exact ⟨indicator, unmarked, rfl⟩
            · exact ⟨.endOfTable, by decide, List.eq_of_mem_replicate mem⟩
  | entered type live _ _ =>
      rw [early (by omega)] at live
      cases live

end Reader

theorem Broken.outcome {content : Bytes} {result : EStateM.Result Fault Stream (Option (Bool × Record))}
    (broken : Broken content result) :
    (∃ s, Foundation.outcome (fun _ => ()) result = .ok (none, s) ∧ s.fail = true) ∨
      ∃ e, Foundation.outcome (fun _ => ()) result = .error (e, ()) := by
  cases broken with
  | @unread s _ failed => exact .inl ⟨s, rfl, failed⟩
  | @thrown e _ _ => exact .inr ⟨e, rfl⟩

/-- Wherever its record is cut, the reader of `SELECT` does not report it as live. -/
theorem deserializeNextRecord_cut (env : Env) (t : TableSchema n) (projectionMask : List Bool)
    (optWhere : Option WhereNode) (r : TableRecord n) (before : Bytes) {k : Nat} (cut : k < r.encode.length)
    (rounds : Nat) (record : Record) : .ok (.live, record) ∉
      calls (deserializeNextRecord env t.schema projectionMask optWhere) rounds (split before (r.encode.take k)) := by
  have reader := recordReader t projectionMask optWhere
  intro mem
  by_cases early : 9 ≤ k → r.isTombstone = true
  · obtain ⟨indicator, unmarked, same⟩ := (reader.idle_cut r before cut early).2 env rounds _ mem
    cases same
    exact unmarked rfl
  · cases rounds with
    | zero => cases mem
    | succ rounds =>
        cases readHead_cut r before cut with
        | done stops _ _ _ _ => exact early fun type => stops.resolve_left (by omega)
        | @entered j type live run same =>
            rw [StoredRecord.length_encode, StoredRecord.recordLength] at cut
            have columns := readColumns_cutBody env t r (index projectionMask) optWhere
              (before ++ toLE 8 r.recordLength ++ [r.recordType]) (k := j) (by omega)
            have reads : (∃ s, outcome (fun _ => ()) ((deserializeNextRecord env t.schema projectionMask optWhere).run
                (split before (r.encode.take k))) = .ok ((.ioError, []), s) ∧ s.fail = true) ∨
                  ∃ e, outcome (fun _ => ()) ((deserializeNextRecord env t.schema projectionMask optWhere).run
                    (split before (r.encode.take k))) = .error (e, ()) := by
              unfold deserializeNextRecord
              rw [run_bind_ok run]
              simp only [← bind_assoc]
              rw [outcome_bind]
              rcases columns.outcome with ⟨s, unread, failed⟩ | ⟨e, thrown⟩
              · rw [unread]
                exact .inl ⟨s, rfl, failed⟩
              · rw [thrown]
                exact .inr ⟨e, rfl⟩
            rcases reads with ⟨s, read, failed⟩ | ⟨e, thrown⟩
            · rw [calls_succ_ok (outcome_eq_ok.mp read), reader.calls_spent env (.inl failed)] at mem
              rcases List.mem_cons.mp mem with same | mem
              · cases same
              · cases List.eq_of_mem_replicate mem
            · rw [calls_succ_stopped thrown] at mem
              cases List.mem_singleton.mp mem

/-! The copy of a record that is cut -/

/-- The stream has failed, or stands before a part of this text. -/
def Onward (text : Bytes) (s : Stream) : Prop := s.fail = true ∨ ∃ before k, s = split before (text.take k)

theorem read_onward {a text : Bytes} {s : Stream} (onward : Onward (a ++ text) s) :
    ∃ got s', (read a.length : StreamM Bytes).run s = .ok got s' ∧
      (got = a ∧ Onward text s' ∨ got.length < a.length ∧ s'.fail = true) := by
  rcases onward with failed | ⟨before, k, rfl⟩
  · refine ⟨[], s, read_failed failed _, ?_⟩
    cases a with
    | nil => exact .inl ⟨rfl, .inl failed⟩
    | cons c a => exact .inr ⟨Nat.succ_pos _, failed⟩
  · by_cases whole : a.length ≤ k
    · obtain ⟨k, rfl⟩ := Nat.exists_eq_add_of_le whole
      rw [take_append_add rfl]
      exact ⟨a, _, read_split rfl before _, .inl ⟨rfl, .inr ⟨_, k, rfl⟩⟩⟩
    · have short : ((a ++ text).take k).length < a.length := by
        rw [List.length_take]
        omega
      exact ⟨_, _, read_split_short short before, .inr ⟨short, rfl⟩⟩

/-- A size of which the last byte is missing is small where memory holds zeros. -/
theorem ofLE_overlay_lt {got : Bytes} (short : got.length < 8) : ofLE (overlay got (toLE 8 0)) < 256 ^ 7 := by
  have zeros : ∀ j < 8, ofLE ((toLE 8 0).drop j) = 0 := by decide
  have bytes : ∀ d ∈ got.map UInt8.toNat, d < 256 := by
    intro d mem
    obtain ⟨b, -, rfl⟩ := List.mem_map.mp mem
    exact b.toNat_lt
  have value : ofLE (overlay got (toLE 8 0)) = ofLE got := by
    rw [overlay, ofLE, List.map_append, Nat.ofDigits_append]
    have rest := zeros got.length short
    rw [ofLE] at rest
    rw [rest, Nat.mul_zero, Nat.add_zero]
    rfl
  have small := Nat.ofDigits_lt_base_pow_length (by decide : 1 < 256) bytes
  rw [List.length_map] at small
  rw [value]
  exact small.trans_le (Nat.pow_le_pow_right (by decide) (Nat.le_of_lt_succ short))

section Zeroed

variable {env : Env} (zeroed : ∀ i, env.uninit i = 0) {text : Bytes} {s : Stream}

include zeroed

theorem readUnchecked_onward {a : Bytes} (onward : Onward (a ++ text) s) :
    ∃ bytes s', (readUnchecked env a.length).run s = .ok bytes s' ∧
      (bytes = a ∧ Onward text s' ∨
        (∃ got, got.length < a.length ∧ bytes = overlay got (toLE a.length 0)) ∧ s'.fail = true) := by
  obtain ⟨got, s', run, read⟩ := read_onward onward
  refine ⟨overlay got (toLE a.length (env.uninit s.pos)), s', ?_, ?_⟩
  · rw [readUnchecked, run_bind_ok (run_tell s), run_bind_ok run]
    rfl
  · rcases read with ⟨rfl, further⟩ | ⟨short, failed⟩
    · exact .inl ⟨overlay_full (by rw [length_toLE]), further⟩
    · exact .inr ⟨⟨got, short, by rw [zeroed]⟩, failed⟩

theorem copyColumnOffsets_onward (offs : List ColumnOffset) (padding : ∀ off ∈ offs, off.padding.length = 7)
    (onward : Onward (offs.flatMap encodeColumnOffset ++ text) s) :
    ∃ bytes s', (copyColumnOffsets env offs.length).run s = .ok bytes s' ∧ Onward text s' := by
  induction offs generalizing s with
  | nil => exact ⟨[], s, rfl, onward⟩
  | cons off rest ih =>
      rw [List.forall_mem_cons] at padding
      have length : (encodeColumnOffset off).length = columnOffsetSize := by
        simp [encodeColumnOffset, padding.1, columnOffsetSize]
      rw [List.flatMap_cons, List.append_assoc] at onward
      obtain ⟨entry, s', run, read⟩ := readUnchecked_onward zeroed onward
      have further : Onward (rest.flatMap encodeColumnOffset ++ text) s' := read.elim And.right fun h => .inl h.2
      obtain ⟨entries, s'', run', last⟩ := ih padding.2 further
      rw [length] at run
      refine ⟨entry ++ entries, s'', ?_, last⟩
      rw [List.length_cons, copyColumnOffsets, run_bind_ok run, run_bind_ok run']
      rfl

theorem copyString_onward {value : Bytes} (short : value.length < 2 ^ 63 - 1)
    (onward : Onward (encodeString value ++ text) s) :
    ∃ bytes s', (copyString env).run s = .ok bytes s' ∧ Onward text s' := by
  rw [encodeString, List.append_assoc] at onward
  obtain ⟨bytes, s', run, read⟩ := readUnchecked_onward zeroed onward
  rw [length_toLE] at run read
  have size : (readSize env).run s = .ok (ofLE bytes) s' := by
    rw [readSize, run_bind_ok run]
    rfl
  -- A size that was cut off is followed by nothing; any other is that of the value.
  have sized : ∃ got s'', (readSized (ofLE bytes)).run s' = .ok got s'' ∧ Onward text s'' := by
    rcases read with ⟨rfl, further⟩ | ⟨⟨got, few, rfl⟩, failed⟩
    · obtain ⟨got, s'', run', read'⟩ := read_onward further
      rw [ofLE_toLE_of_lt (by omega)]
      refine ⟨overlay got (List.replicate value.length 0), s'', ?_, read'.elim And.right fun h => .inl h.2⟩
      rw [readSized, if_neg (Nat.not_le_of_lt short), run_bind_ok run']
      rfl
    · have small := ofLE_overlay_lt few
      have allowed : ¬ 2 ^ 63 - 1 ≤ ofLE (overlay got (toLE 8 0)) := by omega
      refine ⟨overlay [] (List.replicate (ofLE (overlay got (toLE 8 0))) 0), s', ?_, .inl failed⟩
      rw [readSized, if_neg allowed, run_bind_ok (read_failed failed _)]
      rfl
  obtain ⟨got, s'', run', further⟩ := sized
  refine ⟨encodeString got, s'', ?_, further⟩
  rw [copyString, run_bind_ok size, run_bind_ok run']
  rfl

theorem copyLiterals_onward (values : List Bytes) (short : ∀ value ∈ values, value.length < 2 ^ 63 - 1)
    (onward : Onward (values.flatMap encodeString ++ text) s) :
    ∃ bytes s', (copyLiterals env values.length).run s = .ok bytes s' ∧ Onward text s' := by
  induction values generalizing s with
  | nil => exact ⟨[], s, rfl, onward⟩
  | cons value rest ih =>
      rw [List.forall_mem_cons] at short
      rw [List.flatMap_cons, List.append_assoc] at onward
      obtain ⟨literal, s', run, further⟩ := copyString_onward zeroed short.1 onward
      obtain ⟨literals, s'', run', last⟩ := ih short.2 further
      refine ⟨literal ++ literals, s'', ?_, last⟩
      rw [List.length_cons, copyLiterals, run_bind_ok run, run_bind_ok run']
      rfl

/-- A live record that is cut behind its type is reported as live. -/
theorem copyNextLiveRecord_cut (r : TableRecord n) (live : r.isTombstone = false) (before : Bytes) {k : Nat}
    (cut : k < r.encode.length) (type : 9 ≤ k) :
    ∃ bytes s', (copyNextLiveRecord env n).run (split before (r.encode.take k)) = .ok (.live, bytes) s' := by
  cases readHead_cut r before cut with
  | done early _ _ _ _ =>
      rcases early with early | dead
      · omega
      · rw [dead] at live
        cases live
  | @entered j _ _ run _ =>
      have body : r.body = r.columnOffsets.flatMap encodeColumnOffset ++
          (encodeString r.pkLiteral ++ (r.payloadLiterals.flatMap encodeString ++ [])) := by
        simp [StoredRecord.body, StoredRecord.columnRegion, StoredRecord.payload]
      have start : Onward (r.columnOffsets.flatMap encodeColumnOffset ++
          (encodeString r.pkLiteral ++ (r.payloadLiterals.flatMap encodeString ++ [])))
          (split (before ++ toLE 8 r.recordLength ++ [r.recordType]) (r.body.take j)) := by
        rw [← body]
        exact .inr ⟨_, j, rfl⟩
      obtain ⟨offsets, s₁, run₁, onward₁⟩ := copyColumnOffsets_onward zeroed _ r.padding_length start
      obtain ⟨key, s₂, run₂, onward₂⟩ := copyString_onward zeroed (r.length_value_lt_max (by simp [StoredRecord.row]))
        onward₁
      obtain ⟨literals, s₃, run₃, -⟩ := copyLiterals_onward zeroed _
        (fun v hv => r.length_value_lt_max (by simp [StoredRecord.row, hv])) onward₂
      rw [r.offsets_length] at run₁
      rw [r.literals_length] at run₃
      refine ⟨toLE 8 r.recordLength ++ [r.recordType] ++ offsets ++ key ++ literals, s₃, ?_⟩
      unfold copyNextLiveRecord
      rw [run_bind_ok run]
      simp only [run_bind_ok run₁, run_bind_ok run₂, run_bind_ok run₃]
      rfl

end Zeroed

end Jssql.FileHandler
