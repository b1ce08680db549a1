import Jssql.Theory.UpdateRuns

/-!
A record that is cut off at the end of a file. The reader of `UPDATE` does not come to its
last value: it reports the end of the table, an I/O error or a tombstone, or throws, and it
marks nothing. After that there is nothing left to read.
-/
namespace Jssql.FileHandler
open Foundation Foundation.Stream

variable {n : Nat} (env : Env)

/-! Streams at their end -/

/-- The next read of a length fails. -/
def Spent (s : Stream) : Prop := s.fail = true ∨ s.content.length < s.pos + 8

section Spent

variable {s : Stream} (spent : Spent s)

include spent

theorem read_spent : ∃ got s', (read 8 : StreamM Bytes).run s = .ok got s' ∧
    s'.content = s.content ∧ s'.fail = true := by
  by_cases failed : s.fail = true
  · exact ⟨[], s, read_failed failed 8, rfl, failed⟩
  · let got := (s.content.drop s.pos).take 8
    have short : got.length < 8 := by
      rw [List.length_take, List.length_drop]
      have := spent.resolve_left failed
      omega
    refine ⟨got, { s with pos := s.pos + got.length, fail := decide (got.length < 8) }, ?_, rfl,
      decide_eq_true short⟩
    simp [Stream.read, EStateM.run, failed, got]

theorem readHead_spent :
    ∃ s', readHead.run s = .ok (.done .endOfTable) s' ∧ s'.content = s.content ∧ s'.fail = true := by
  obtain ⟨got, s', run, content, failed⟩ := read_spent spent
  refine ⟨s', ?_, content, failed⟩
  rw [readHead, run_bind_ok run, run_bind_ok (run_failed s'), if_pos failed]
  rfl

end Spent

/-! Columns -/

/-- The columns have not been read to the last: the content is as before, and unless the
reader has thrown the stream is at its end. -/
inductive Broken (content : Bytes) : EStateM.Result Fault Stream (Option (Bool × Record)) → Prop where
  | unread {s : Stream} (same : s.content = content) (failed : s.fail = true) : Broken content (.ok none s)
  | thrown {e : Fault} {s : Stream} (same : s.content = content) : Broken content (.error e s)

section Columns

variable {project : Nat → Except Fault Bool} {optWhere : Option WhereNode}

/-- A value is not read from a stream that has failed. -/
theorem readValue_failed {s : Stream} (failed : s.fail = true) (size remaining i : Nat) (whereResult : Bool)
    (out : Record) : Broken s.content ((do
      let value ← readSized size
      if ← Stream.failed then return none
      let whereResult ← lift (evaluateWhere optWhere i value whereResult)
      let projected ← lift (project i)
      readColumns env project optWhere remaining (i + 1) whereResult
        (if projected then out ++ [value] else out) : StreamM _).run s) := by
  rw [readSized]
  by_cases long : 2 ^ 63 - 1 ≤ size
  · rw [if_pos long]
    exact .thrown rfl
  · rw [if_neg long, bind_assoc, run_bind_ok (read_failed failed size), pure_bind, run_bind_ok (run_failed s),
      if_pos failed]
    exact .unread rfl failed

theorem readColumns_spent {s : Stream} (spent : Spent s) (remaining i : Nat) (whereResult : Bool) (out : Record) :
    Broken s.content ((readColumns env project optWhere (remaining + 1) i whereResult out).run s) := by
  obtain ⟨got, s', run, content, failed⟩ := read_spent spent
  have size : (readSize env).run s = .ok (ofLE (overlay got (toLE 8 (env.uninit s.pos)))) s' := by
    rw [readSize, readUnchecked, bind_assoc, run_bind_ok (run_tell s), bind_assoc, run_bind_ok run]
    rfl
  rw [readColumns, run_bind_ok size, ← content]
  exact readValue_failed env failed _ remaining i whereResult out

theorem take_append_add {α : Type} {xs ys : List α} {w k : Nat} (width : xs.length = w) :
    (xs ++ ys).take (w + k) = xs ++ ys.take k := by
  subst width
  exact List.take_length_add_append k

/-- Values that are cut off are not read to the last. -/
theorem readColumns_cut (values : List Bytes) (short : ∀ value ∈ values, value.length < 2 ^ 63 - 1) :
    ∀ (k i : Nat) (whereResult : Bool) (out : Record) (before : Bytes), k < (values.flatMap encodeString).length →
      Broken (before ++ (values.flatMap encodeString).take k)
        ((readColumns env project optWhere values.length i whereResult out).run
          (split before ((values.flatMap encodeString).take k))) := by
  induction values with
  | nil => intro k i whereResult out before cut; cases cut
  | cons value rest ih =>
      intro k i whereResult out before cut
      rw [List.forall_mem_cons] at short
      rw [List.flatMap_cons, List.length_append, length_encodeString] at cut
      rw [List.flatMap_cons, List.length_cons]
      by_cases inSize : k < 8
      · have spent : Spent (split before ((encodeString value ++ rest.flatMap encodeString).take k)) := by
          refine .inr ?_
          rw [split_content, split_pos, List.length_append, List.length_take]
          omega
        exact readColumns_spent env spent rest.length i whereResult out
      · obtain ⟨k, rfl⟩ : ∃ j, k = 8 + j := ⟨k - 8, by omega⟩
        have size : (encodeString value ++ rest.flatMap encodeString).take (8 + k) =
            toLE 8 value.length ++ (value ++ rest.flatMap encodeString).take k := by
          rw [encodeString, List.append_assoc, take_append_add (length_toLE 8 _)]
        rw [size, readColumns, run_bind_ok (readSize_split env (by omega) before _), ← List.append_assoc before]
        by_cases inValue : k < value.length
        · have long : ¬ 2 ^ 63 - 1 ≤ value.length := Nat.not_le_of_lt short.1
          have part : ((value ++ rest.flatMap encodeString).take k).length < value.length := by
            rw [List.length_take]
            omega
          rw [readSized, if_neg long, bind_assoc, run_bind_ok (read_split_short part _), pure_bind,
            run_bind_ok (run_failed _), if_pos (exhausted_fail _)]
          exact .unread rfl rfl
        · obtain ⟨k, rfl⟩ : ∃ j, k = value.length + j := ⟨k - value.length, by omega⟩
          rw [take_append_add rfl, run_bind_ok (readSized_split short.1 _ _), run_bind_ok (run_failed _),
            if_neg (by simp), ← List.append_assoc (before ++ _)]
          cases evaluateWhere optWhere i value whereResult with
          | error e => exact .thrown rfl
          | ok result =>
              rw [run_bind_ok (run_lift_ok result _)]
              cases project i with
              | error e => exact .thrown rfl
              | ok projected =>
                  rw [run_bind_ok (run_lift_ok projected _)]
                  exact ih short.2 k (i + 1) result _ _ (by omega)

end Columns

/-! The record -/

/-- Nothing has been marked, and unless the reader has thrown it has reported the end of
the table or left nothing to read. -/
inductive ReadsCut (content : Bytes) : EStateM.Result Fault Stream (Indicator × Record) → Prop where
  | read {indicator : Indicator} {record : Record} {s : Stream} (unmarked : indicator ≠ .live)
      (same : s.content = content) (last : indicator = .endOfTable ∨ Spent s) :
      ReadsCut content (.ok (indicator, record) s)
  | thrown {e : Fault} {s : Stream} (same : s.content = content) : ReadsCut content (.error e s)

theorem Broken.markIfMatching {content : Bytes} {columns : StreamM (Option (Bool × Record))} {s : Stream}
    (broken : Broken content (columns.run s)) (startOfType recordLength : Nat) :
    ReadsCut content ((do
      let columns ← columns
      FileHandler.markIfMatching startOfType recordLength columns : StreamM _).run s) := by
  rw [EStateM.run_bind]
  generalize columns.run s = read at broken ⊢
  cases broken with
  | unread same failed => exact .read (by decide) same (.inr (.inl failed))
  | thrown same => exact .thrown same

/-- A stream that has been moved on. -/
theorem seekCur_onward (distance : Nat) (small : distance < 2 ^ 63) (before after : Bytes) :
    ∃ s : Stream, (seekCur (streamOff distance) : StreamM Unit).run (split before after) = .ok () s ∧
      s.content = before ++ after ∧ s.pos = before.length + distance := by
  refine ⟨⟨before ++ after, before.length + distance, false, true⟩, ?_, rfl, rfl⟩
  have target : ¬ ((before.length + distance : Nat) : Int) < 0 := by omega
  rw [run_seekCur, streamOff_of_lt small, split_pos, ← Int.natCast_add, run_seekBeg, seeked, split_fail,
    if_neg Bool.false_ne_true, if_neg target, Int.toNat_natCast]
  rfl

/-- The columns of a record that is cut off behind its type. -/
theorem readColumns_cutBody (t : TableSchema n) (r : TableRecord n) (project : Nat → Except Fault Bool)
    (optWhere : Option WhereNode) (before : Bytes) {k : Nat} (cut : k < r.body.length) :
    Broken (before ++ r.body.take k) ((do
      skipColumnOffsetRegion (columnsWithoutPk t.schema)
      readColumns env project optWhere t.schema.length 0 true [] : StreamM _).run
        (split before (r.body.take k))) := by
  have bound := r.recordLength_lt
  have whole := r.recordLength_eq
  rw [t.columnsWithoutPk_eq]
  by_cases inRegion : k < 16 * n
  · have small : n * columnOffsetSize < 2 ^ 63 := by
      rw [columnOffsetSize]
      omega
    obtain ⟨s, run, content, pos⟩ := seekCur_onward (n * columnOffsetSize) small before (r.body.take k)
    rw [skipColumnOffsetRegion, run_bind_ok run, t.width, ← content]
    refine readColumns_spent env (.inr ?_) n 0 true []
    rw [content, pos, List.length_append, List.length_take, columnOffsetSize]
    omega
  · obtain ⟨k, rfl⟩ : ∃ j, k = 16 * n + j := ⟨k - 16 * n, by omega⟩
    have columns : t.schema.length = r.row.length := by rw [t.width, r.length_row]
    rw [StoredRecord.body_eq_row, List.length_append, r.length_columnRegion] at cut
    rw [StoredRecord.body_eq_row, take_append_add r.length_columnRegion,
      run_bind_ok (skipColumnOffsetRegion_record r before _), columns, ← List.append_assoc]
    exact readColumns_cut env r.row (fun value h => r.length_value_lt_max h) k 0 true [] _ (by omega)

/-- A length without a type. -/
theorem readHead_untyped (recordLength : Nat) (before : Bytes) :
    readHead.run (split before (toLE 8 recordLength)) =
      .ok (.done .ioError) (exhausted (before ++ toLE 8 recordLength)) := by
  have short : ([] : Bytes).length < 1 := Nat.one_pos
  have run : readHead.run (split before (toLE 8 recordLength ++ [])) =
      .ok (.done .ioError) (exhausted (before ++ toLE 8 recordLength ++ [])) := by
    unfold readHead
    rw [run_bind_ok (read_split (length_toLE 8 _) before _), run_bind_ok (run_failed _), if_neg (by simp),
      run_bind_ok (run_tell _), run_bind_ok (read_split_short short _), run_bind_ok (run_failed _),
      if_pos (exhausted_fail _)]
    rfl
  rwa [List.append_nil, List.append_nil] at run

/-- The head of a record that is cut off: a live record whose type is there is entered. -/
inductive HeadOfCut (r : TableRecord n) (before : Bytes) (k : Nat) : Prop
  | done {indicator : Indicator} {s : Stream} (early : k ≤ 8 ∨ r.isTombstone = true)
      (run : readHead.run (split before (r.encode.take k)) = .ok (.done indicator) s) (unmarked : indicator ≠ .live)
      (same : s.content = before ++ r.encode.take k) (spent : Spent s)
  | entered {j : Nat} (type : k = 9 + j) (live : r.isTombstone = false)
      (run : readHead.run (split before (r.encode.take k)) =
        .ok (.live r.recordLength (before.length + 8) [r.recordType])
          (split (before ++ toLE 8 r.recordLength ++ [r.recordType]) (r.body.take j)))
      (same : before ++ r.encode.take k = before ++ toLE 8 r.recordLength ++ [r.recordType] ++ r.body.take j)

theorem readHead_cut (r : TableRecord n) (before : Bytes) {k : Nat} (cut : k < r.encode.length) :
    HeadOfCut r before k := by
  rw [StoredRecord.length_encode, StoredRecord.recordLength] at cut
  by_cases inLength : k < 8
  · have spent : Spent (split before (r.encode.take k)) := by
      refine .inr ?_
      rw [split_content, split_pos, List.length_append, List.length_take]
      omega
    obtain ⟨s, run, content, failed⟩ := readHead_spent spent
    exact .done (.inl (Nat.le_of_lt inLength)) run (by decide) content (.inl failed)
  · obtain ⟨k, rfl⟩ : ∃ j, k = 8 + j := ⟨k - 8, by omega⟩
    cases k with
    | zero =>
        have front : r.encode.take (8 + 0) = toLE 8 r.recordLength := by
          rw [StoredRecord.encode, take_append_add (length_toLE 8 _), List.take_zero, List.append_nil]
        have head := readHead_untyped r.recordLength before
        rw [← front] at head
        exact .done (.inl (Nat.le_refl _)) head (by decide) rfl (.inl rfl)
    | succ k =>
        have bound := r.recordLength_lt
        have front : r.encode.take (8 + (k + 1)) = toLE 8 r.recordLength ++ ([r.recordType] ++ r.body.take k) := by
          rw [StoredRecord.encode, take_append_add (length_toLE 8 _), List.take_succ_cons]
          rfl
        have same : before ++ r.encode.take (8 + (k + 1)) =
            before ++ toLE 8 r.recordLength ++ [r.recordType] ++ r.body.take k := by
          rw [front]
          simp only [List.append_assoc]
        have typed := readHead_typed bound r.recordType before (r.body.take k)
        rw [← front] at typed
        by_cases dead : [r.recordType] = [RecordType.delete.toByte] ∨ [r.recordType] = [RecordType.unused.toByte]
        · have rest : (r.recordLength : Int) - 1 = (r.body.length : Nat) := by
            rw [StoredRecord.recordLength]
            omega
          have small : r.body.length < 2 ^ 63 := by
            rw [StoredRecord.recordLength] at bound
            omega
          obtain ⟨s, run, content, pos⟩ := seekCur_onward r.body.length small
            (before ++ toLE 8 r.recordLength ++ [r.recordType]) (r.body.take k)
          rw [if_pos dead, rest, run_bind_ok run] at typed
          refine .done (.inr ?_) typed (by decide) (content.trans same.symm) (.inr ?_)
          · simpa [StoredRecord.isTombstone] using dead
          · rw [content, pos, List.length_append, List.length_take]
            omega
        · rw [if_neg dead] at typed
          refine .entered (j := k) (by omega) ?_ typed same
          simpa [StoredRecord.isTombstone] using dead

theorem deserializeNextRecordAndMarkAsTombstone_cut (t : TableSchema n) (r : TableRecord n)
    (optWhere : Option WhereNode) (before : Bytes) {k : Nat} (cut : k < r.encode.length) :
    ReadsCut (before ++ r.encode.take k)
      ((deserializeNextRecordAndMarkAsTombstone env t.schema optWhere).run (split before (r.encode.take k))) := by
  rw [deserializeNextRecordAndMarkAsTombstone]
  cases readHead_cut r before cut with
  | done _ run unmarked same spent =>
      rw [run_bind_ok run]
      exact .read unmarked same (.inr spent)
  | @entered j type live run same =>
      rw [StoredRecord.length_encode, StoredRecord.recordLength] at cut
      rw [run_bind_ok run, same]
      have columns := readColumns_cutBody env t r (fun _ => .ok true) optWhere
        (before ++ toLE 8 r.recordLength ++ [r.recordType]) (k := j) (by omega)
      have marked := columns.markIfMatching (before.length + 8) r.recordLength
      rw [bind_assoc] at marked
      exact marked

/-! The scan of `UPDATE` -/

section Scan

variable {t : TableSchema n} {node : UpdateNode} {v : World} {matched : List Record}

/-- A round with nothing left to read is the last. -/
theorem updateRound_spent (t : TableSchema n) (matched : List Record) {s : Stream} (spent : Spent s)
    (file : v.disk.tableFiles.lookup node.tableName = some s.content) :
    ∃ s', (updateRound env node t.schema (s, matched)).run v = .ok (true, s', matched) v := by
  obtain ⟨s', run, content, -⟩ := readHead_spent spent
  refine ⟨s', ?_⟩
  rw [updateRound, EStateM.run_bind, runTableStream_outcome, deserializeNextRecordAndMarkAsTombstone,
    run_bind_ok run]
  change (do
    return (decide (Indicator.endOfTable = .endOfTable), s', matched) : Exec _).run
      (v.setTableFile node.tableName s'.content) = _
  rw [content, setTableFile_of_lookup file]
  rfl

/-- A round on a record that is cut off changes nothing. -/
theorem updateRound_cut (r : TableRecord n) {k : Nat} (cut : k < r.encode.length) (before : Bytes)
    (file : v.disk.tableFiles.lookup node.tableName = some (before ++ r.encode.take k)) :
    (∃ e, (updateRound env node t.schema (split before (r.encode.take k), matched)).run v = .error e v) ∨
      ∃ finished s', (updateRound env node t.schema (split before (r.encode.take k), matched)).run v =
          .ok (finished, s', matched) v ∧
        (finished = true ∨ Spent s' ∧ s'.content = before ++ r.encode.take k) := by
  have reads := deserializeNextRecordAndMarkAsTombstone_cut env t r node.optWhereNode before cut
  unfold updateRound
  rw [EStateM.run_bind, runTableStream_outcome]
  dsimp only
  generalize (deserializeNextRecordAndMarkAsTombstone env t.schema node.optWhereNode).run _ = result at reads ⊢
  cases reads with
  | @thrown e s same =>
      refine .inl ⟨e, ?_⟩
      rw [outcome_error]
      dsimp only
      rw [same, setTableFile_of_lookup file]
  | @read indicator record s unmarked same last =>
      rw [outcome_ok]
      dsimp only
      rw [same, setTableFile_of_lookup file, if_neg unmarked]
      cases indicator with
      | live => exact absurd rfl unmarked
      | endOfTable => exact .inr ⟨true, s, rfl, .inl rfl⟩
      | tombstone | skip =>
          refine .inr ⟨false, s, rfl, .inr ⟨?_, same⟩⟩
          exact last.resolve_left (by decide)
      | ioError =>
          cases silent : env.silent with
          | true =>
              refine .inr ⟨false, s, ?_, .inr ⟨last.resolve_left (by decide), same⟩⟩
              simp only [handleFatalError, silent]
              rfl
          | false =>
              refine .inl ⟨.exit .unknownIoErrorDuringDeserialization, ?_⟩
              simp only [handleFatalError, silent]
              rfl

/-- Nor does the rest of the scan. -/
theorem updateRounds_cut (r : TableRecord n) {k : Nat} (cut : k < r.encode.length) (before : Bytes)
    (file : v.disk.tableFiles.lookup node.tableName = some (before ++ r.encode.take k)) (rounds : Nat) :
    (∃ e, (repeatUntil .diverges (updateRound env node t.schema) (rounds + 2)
      (split before (r.encode.take k), matched)).run v = .error e v) ∨
      ∃ s', (repeatUntil .diverges (updateRound env node t.schema) (rounds + 2)
        (split before (r.encode.take k), matched)).run v = .ok (s', matched) v := by
  rw [run_repeatUntil_succ]
  rcases updateRound_cut env r cut before file with ⟨e, run⟩ | ⟨finished, s', run, last⟩
  · exact .inl ⟨e, run_bind_error run _⟩
  · refine .inr ?_
    rw [run_bind_ok run]
    cases finished with
    | true => exact ⟨s', rfl⟩
    | false =>
        obtain ⟨spent, content⟩ := last.resolve_left Bool.false_ne_true
        obtain ⟨s'', run'⟩ := updateRound_spent env t matched spent (content ▸ file)
        refine ⟨s'', ?_⟩
        dsimp only
        rw [if_neg Bool.false_ne_true, run_repeatUntil_succ, run_bind_ok run']
        rfl

end Scan

section Loop

variable {w : World} {t : TableSchema n} {f : TableFile n} {node : UpdateNode}

/-- The scan on a file with a record that is cut off behind the others: what stops it, if
anything, has left the marks on the records and the rest of the file as it was. -/
theorem markOldRecords_cut (r : TableRecord n) {k : Nat} (cut : k < r.encode.length)
    (file : w.disk.tableFiles.lookup node.tableName = some (f.bytes ++ r.encode.take k)) :
    let marks := updateMarks env w node f.records
    let final := marking w node.tableName (f.header ++ encodeAll marks.records ++ r.encode.take k)
      marks.matched.length
    let run := (markOldRecords env node t.schema (split f.header (encodeAll f.records ++ r.encode.take k))).run w
    (∀ e, marks.stop = some e → run = .error e final) ∧
      (marks.stop = none → (∃ e, run = .error e final) ∨ run = .ok (marks.matched.map fun r => r.row) final) := by
  intro marks final run
  have whole : f.header ++ (encodeAll f.records ++ r.encode.take k) =
      f.header ++ encodeAll f.records ++ r.encode.take k := (List.append_assoc ..).symm
  obtain ⟨spare, rounds⟩ : ∃ spare, scanRounds (f.header ++ (encodeAll f.records ++ r.encode.take k)) =
      f.records.length + (spare + 2) := by
    have records := length_lt_encodeAll f.records
    have square : (f.header ++ (encodeAll f.records ++ r.encode.take k)).length + 2 ≤
        scanRounds (f.header ++ (encodeAll f.records ++ r.encode.take k)) := by
      rw [scanRounds, Nat.pow_two]
      exact Nat.le_mul_of_pos_left _ (by omega)
    rw [List.length_append, List.length_append] at square
    exact ⟨scanRounds (f.header ++ (encodeAll f.records ++ r.encode.take k)) - f.records.length - 2, by omega⟩
  have start : marking w node.tableName (f.header ++ encodeAll f.records ++ r.encode.take k) 0 = w :=
    marking_zero file
  have scan := run_marking env (spare + 2) (r.encode.take k) f.records
    (fun r _ => updateRound_record env t w node r) f.header [] 0
  simp only [start, List.nil_append, Nat.zero_add] at scan
  have loop : run = ((repeatUntil .diverges (updateRound env node t.schema) (f.records.length + (spare + 2))
      (updateScan (split f.header (encodeAll f.records ++ r.encode.take k)) ([] : List (TableRecord n)))) >>=
        fun scan => pure scan.2).run w := by
    rw [← rounds]
    rfl
  rw [loop]
  refine ⟨fun e stop => ?_, fun stop => ?_⟩
  · simp only [marks, updateMarks] at stop
    simp only [stop] at scan
    exact run_bind_error scan _
  · simp only [marks, updateMarks] at stop
    simp only [stop] at scan
    have content : final.disk.tableFiles.lookup node.tableName =
        some (f.header ++ encodeAll marks.records ++ r.encode.take k) := marking_hasContent _ _
    rcases updateRounds_cut env r cut _ content spare with ⟨e, stopped⟩ | ⟨s', finished⟩
    · exact .inl ⟨e, run_bind_error (scan.trans stopped) _⟩
    · exact .inr (run_bind_ok (scan.trans finished) _)

end Loop

end Jssql.FileHandler
