import Jssql.Theory.CutRecords
import Jssql.Theory.MarkedRecords
import Jssql.Theory.TextRecords

/-!
An `UPDATE` that does not come to the end of the file. It marks the matching records as it
goes and writes their copies when the scan is over, so a scan that stops loses every
record that it has marked.
-/
namespace Jssql.FileHandler
open Foundation Foundation.Stream SemanticNormalizer SemanticValidator

variable {n : Nat} {w : World} {t : TableSchema n} {f : TableFile n} {node : UpdateNode}

/-! The scan that stops -/

/-- What ends a scan on a value that cannot be compared or a record that cannot be read. -/
def AbortCause (e : Fault) : Prop := e = .exception .stod ∨ e = .exit .unknownIoErrorDuringDeserialization

theorem missingCounter_not_abortCause (env : Env) : ¬ AbortCause (missingCounter env) := by
  unfold AbortCause missingCounter
  split <;> simp

/-- What a scan that stops for one of these causes leaves in the file. -/
theorem markOldRecords_stopped {env : Env} {r : TableRecord n} {k : Nat} (cut : k < r.encode.length)
    (file : w.disk.tableFiles.lookup node.tableName = some (f.bytes ++ r.encode.take k)) {e : Fault} {w' : World}
    (stopped : (markOldRecords env node t.schema (split f.header (encodeAll f.records ++ r.encode.take k))).run w =
      .error e w') (cause : AbortCause e) :
    w'.disk.tableFiles.lookup node.tableName =
      some (f.header ++ encodeAll (scanMarks (scanned node) none f.records).records ++ r.encode.take k) := by
  have scan := markOldRecords_cut env (t := t) r cut file
  have other : e ≠ missingCounter env := fun same => missingCounter_not_abortCause env (same ▸ cause)
  rw [stopped] at scan
  have final : (updateMarks env w node f.records).stop ≠ some (missingCounter env) ∧
      w' = marking w node.tableName
        (f.header ++ encodeAll (updateMarks env w node f.records).records ++ r.encode.take k)
        (updateMarks env w node f.records).matched.length := by
    cases stop : (updateMarks env w node f.records).stop with
    | some e' =>
        obtain ⟨rfl, final⟩ := EStateM.Result.error.inj (scan.1 e' stop)
        exact ⟨fun same => other (Option.some.inj same), final⟩
    | none =>
        refine ⟨(Option.some_ne_none _).symm, ?_⟩
        rcases scan.2 stop with ⟨e', aborted⟩ | finished
        · exact (EStateM.Result.error.inj aborted).2
        · cases finished
  have counted : updateMarks env w node f.records = scanMarks (scanned node) none f.records :=
    scanMarks_counted env final.1
  rw [final.2, ← counted]
  exact marking_hasContent _ _

/-- The statement ends with its scan. -/
theorem updateData_stopped {env : Env} {tail : Bytes}
    (known : w.ctx.untypedTables.lookup node.tableName = some t.schema)
    (file : w.disk.tableFiles.lookup node.tableName = some (f.bytes ++ tail)) {e : Fault} {w' : World}
    (stopped : (markOldRecords env node t.schema (split f.header (encodeAll f.records ++ tail))).run w =
      .error e w') : (updateData env node).run w = .error e w' := by
  have schema : w.ctx.untypedTables.at node.tableName .tableName = .ok t.schema := Map.at_of_lookup known _
  have valid : (checkFileValidity env false).run (.opened (f.bytes ++ tail)) =
      .ok () (split f.header (encodeAll f.records ++ tail)) := by
    rw [TableFile.bytes, List.append_assoc]
    exact checkFileValidity_split env false f.header_length f.header_magic _
  unfold updateData
  rw [run_bind_ok (ensureTableFileExists_run file), run_bind_ok (openTableFile_run file),
    run_bind_ok (runStream_ok valid _)]
  dsimp only
  rw [run_bind_ok (run_get _), schema, run_bind_ok (run_lift_ok _ _)]
  exact run_bind_error stopped _

/-! The rows afterwards -/

/-- A record afterwards: as before, or marked, and then it was dead or has a live copy. -/
def KeptAs (t : TableSchema n) (node : UpdateNode) (copies : List (TableRecord n)) (r s : TableRecord n) : Prop :=
  s = r ∨ s = r.marked ∧ (r.isTombstone = true ∨
    ∃ copy ∈ copies, copy.isTombstone = false ∧ copy.row = rewrittenRow t node r.row)

/-- The content holds the old records, each kept in this sense, and behind them the copies. -/
def KeepsRows (t : TableSchema n) (node : UpdateNode) (f : TableFile n) (tail content : Bytes) : Prop :=
  ∃ rs copies : List (TableRecord n), content = f.header ++ encodeAll rs ++ tail ++ encodeAll copies ∧
    List.Forall₂ (KeptAs t node copies) f.records rs

theorem KeptAs.markedFrom {copies rs ss : List (TableRecord n)}
    (kept : List.Forall₂ (KeptAs t node copies) rs ss) : MarkedFrom rs ss :=
  kept.imp fun _ _ h => h.imp_right And.left

/-- Without copies all that was live is live. -/
theorem KeptAs.length_liveRecords {rs ss : List (TableRecord n)}
    (kept : List.Forall₂ (KeptAs t node []) rs ss) : (liveRecords ss).length = (liveRecords rs).length := by
  induction kept with
  | nil => rfl
  | @cons r s rs ss head _ ih =>
      rcases head with rfl | ⟨rfl, dead | ⟨copy, none_, -⟩⟩
      · cases state : s.isTombstone with
        | true => rw [liveRecords_cons_tombstone state, liveRecords_cons_tombstone state, ih]
        | false => rw [liveRecords_cons_live state, liveRecords_cons_live state, List.length_cons, List.length_cons, ih]
      · rw [liveRecords_cons_tombstone (by rfl), liveRecords_cons_tombstone dead, ih]
      · cases none_

/-- Before the copies are written a file keeps the rows if and only if nothing is marked. -/
theorem keepsRows_scanMarks_iff (isMatch : TableRecord n → Except Fault Bool) (tail : Bytes) :
    KeepsRows t node f tail (f.header ++ encodeAll (scanMarks isMatch none f.records).records ++ tail) ↔
      ∀ r ∈ liveRecords (reached isMatch f.records), accepts isMatch r = false := by
  have matched := scanMarks_matched isMatch f.records
  constructor
  · rintro ⟨rs, copies, content, kept⟩
    have marks : MarkedFrom f.records (scanMarks isMatch none f.records).records := .scan isMatch none f.records
    have nothing : encodeAll copies = [] := by
      have lengths := congrArg List.length content
      simp only [List.length_append, (KeptAs.markedFrom kept).length_encodeAll, marks.length_encodeAll] at lengths
      exact List.length_eq_zero_iff.mp (by omega)
    obtain rfl : copies = [] := List.length_eq_zero_iff.mp (length_of_encodeAll (show _ = encodeAll [] from nothing))
    rw [nothing, List.append_nil] at content
    have same := List.append_cancel_left (List.append_cancel_right content)
    have count := length_liveRecords_scanMarks isMatch f.records
    rw [length_liveRecords_of_encodeAll same, KeptAs.length_liveRecords kept] at count
    have empty : (scanMarks isMatch none f.records).matched = [] := List.length_eq_zero_iff.mp (by omega)
    rw [matched] at empty
    exact fun r hr => Bool.eq_false_iff.mpr (List.filter_eq_nil_iff.mp empty r hr)
  · intro nothing
    have empty : (scanMarks isMatch none f.records).matched = [] := by
      rw [matched]
      exact List.filter_eq_nil_iff.mpr fun r hr => Bool.eq_false_iff.mp (nothing r hr)
    refine ⟨f.records, [], ?_, List.forall₂_same.mpr fun r _ => .inl rfl⟩
    rw [scanMarks_unmatched empty]
    exact (List.append_nil _).symm

/-- An `UPDATE` whose scan stops loses no row if and only if none of the live records that
the scan has come to satisfies its condition: those before the first one on which the
comparison throws, or all of them. -/
theorem keepsRows_iff (env : Env) {written : UpdateNode}
    (known : w.ctx.untypedTables.lookup written.tableName = some t.schema)
    (normalized : normalizeUpdate written w.ctx.untypedTables = .ok (node, true))
    (r : TableRecord n) {k : Nat} (cut : k < r.encode.length)
    (file : w.disk.tableFiles.lookup node.tableName = some (f.bytes ++ r.encode.take k)) {e : Fault} {w' : World}
    (stopped : (markOldRecords env node t.schema (split f.header (encodeAll f.records ++ r.encode.take k))).run w =
      .error e w') (cause : AbortCause e) :
    (updateData env node).run w = .error e w' ∧
      ∃ content, w'.disk.tableFiles.lookup node.tableName = some content ∧
        (KeepsRows t node f (r.encode.take k) content ↔
          ∀ r ∈ liveRecords (reached (scanned node) f.records), accepts (scanned node) r = false) := by
  obtain ⟨name, -, -⟩ := normalizeUpdate_ok known normalized
  rw [← name] at known
  exact ⟨updateData_stopped known file stopped, _, markOldRecords_stopped cut file stopped cause,
    keepsRows_scanMarks_iff _ _⟩

/-! A stored value out of range -/

/-- `SET name = 'y' WHERE id > 5`, as the parser leaves it. -/
def setNameAbove : UpdateNode :=
  ⟨ascii "people", [⟨ascii "name", ⟨.string, ascii "'y'"⟩⟩], some ⟨ascii "id", .gt, ⟨.number, ascii "5"⟩, 0⟩, [], ∅⟩

/-- The same as the normalizer leaves it. -/
def setNameAboveNormalized : UpdateNode :=
  ⟨ascii "people", [⟨ascii "name", ⟨.string, ascii "y"⟩⟩], some ⟨ascii "id", .gt, ⟨.number, ascii "5"⟩, 0⟩,
    [true, false], Finmap.insert 1 (ascii "y") ∅⟩

/-- A record of this key, with the name `x`. -/
def named (key : Bytes) (short : key.length + (ascii "x").length < 2 ^ 62) : TableRecord 1 :=
  pairRecord key (ascii "x") short

def outOfRange : TableFile 1 := pairFile [ascii "7", ascii "1e999"] (ascii "x") (by decide)

def outOfRangeTable : World :=
  singleTable (ascii "people") pairSchema outOfRange (Finmap.insert (ascii "people") 0 ∅)

theorem outOfRange_records :
    outOfRange.records = [named (ascii "7") (by decide)] ++ named (ascii "1e999") (by decide) :: [] := rfl

theorem outOfRange_first : scanned setNameAboveNormalized (named (ascii "7") (by decide)) = .ok true := by
  decide +kernel

theorem outOfRange_second :
    scanned setNameAboveNormalized (named (ascii "1e999") (by decide)) = .error (.exception .stod) := by
  decide +kernel

theorem outOfRange_evaluates : Evaluates (scanned setNameAboveNormalized) [named (ascii "7") (by decide)] := by
  intro r hr
  obtain rfl := List.mem_singleton.mp (mem_liveRecords.mp hr).1
  exact ⟨true, outOfRange_first⟩

theorem outOfRange_reached :
    reached (scanned setNameAboveNormalized) outOfRange.records = [named (ascii "7") (by decide)] := by
  rw [outOfRange_records]
  exact reached_throwing outOfRange_evaluates rfl outOfRange_second

theorem outOfRange_cut : 0 < (named (ascii "7") (by decide)).encode.length := by
  rw [StoredRecord.length_encode]
  omega

theorem outOfRange_file : outOfRangeTable.disk.tableFiles.lookup setNameAboveNormalized.tableName =
    some (outOfRange.bytes ++ (named (ascii "7") (by decide)).encode.take 0) := by
  rw [List.take_zero, List.append_nil]
  exact Finmap.lookup_insert _

theorem outOfRange_stopped : ∃ w', (markOldRecords ⟨false, id⟩ setNameAboveNormalized pairSchema.schema
    (split outOfRange.header (encodeAll outOfRange.records ++ (named (ascii "7") (by decide)).encode.take 0))).run
      outOfRangeTable = .error (.exception .stod) w' := by
  have counted : missingFault ⟨false, id⟩ outOfRangeTable setNameAboveNormalized.tableName = none :=
    (missingFault_eq_none_iff _).mpr (Finmap.mem_insert.mpr (.inl rfl))
  have stop : (updateMarks ⟨false, id⟩ outOfRangeTable setNameAboveNormalized outOfRange.records).stop =
      some (.exception .stod) := by
    rw [updateMarks, counted, outOfRange_records]
    exact congrArg Marks.stop (scanMarks_throwing outOfRange_evaluates rfl outOfRange_second)
  exact ⟨_, (markOldRecords_cut ⟨false, id⟩ _ outOfRange_cut outOfRange_file).1 _ stop⟩

/-- A table with a counter and a key that is out of range. -/
theorem keepsRows_iff_outOfRange : ∃ w', (updateData ⟨false, id⟩ setNameAboveNormalized).run outOfRangeTable =
      .error (.exception .stod) w' ∧
    ∃ content, w'.disk.tableFiles.lookup (ascii "people") = some content ∧
      (KeepsRows pairSchema setNameAboveNormalized outOfRange [] content ↔
        ∀ r ∈ liveRecords (reached (scanned setNameAboveNormalized) outOfRange.records),
          accepts (scanned setNameAboveNormalized) r = false) := by
  obtain ⟨w', stopped⟩ := outOfRange_stopped
  have known : outOfRangeTable.ctx.untypedTables.lookup setNameAbove.tableName = some pairSchema.schema :=
    Finmap.lookup_insert _
  exact ⟨w', keepsRows_iff ⟨false, id⟩ known rfl _ outOfRange_cut outOfRange_file stopped
    (.inl rfl)⟩

/-- The scan stops on the key that is out of range, and the row before it is gone. -/
theorem not_keepsRows : normalizeUpdate setNameAbove outOfRangeTable.ctx.untypedTables =
      .ok (setNameAboveNormalized, true) ∧
    validateUpdateSemantics setNameAboveNormalized outOfRangeTable.ctx = .ok none ∧
    HasFile outOfRangeTable (ascii "people") outOfRange ∧
    ∃ w' content, (updateData ⟨false, id⟩ setNameAboveNormalized).run outOfRangeTable =
        .error (.exception .stod) w' ∧ w'.disk.tableFiles.lookup (ascii "people") = some content ∧
      ¬ KeepsRows pairSchema setNameAboveNormalized outOfRange [] content := by
  obtain ⟨w', stopped⟩ := outOfRange_stopped
  have known : outOfRangeTable.ctx.untypedTables.lookup setNameAboveNormalized.tableName = some pairSchema.schema :=
    Finmap.lookup_insert _
  refine ⟨rfl, rfl, Finmap.lookup_insert _, w', _, updateData_stopped known outOfRange_file stopped,
    markOldRecords_stopped outOfRange_cut outOfRange_file stopped (.inl rfl), fun kept => ?_⟩
  have first : named (ascii "7") (by decide) ∈
      liveRecords (reached (scanned setNameAboveNormalized) outOfRange.records) := by
    rw [outOfRange_reached]
    exact List.mem_cons_self
  have rejected := (keepsRows_scanMarks_iff _ _).mp kept _ first
  rw [accepts_of_ok outOfRange_first] at rejected
  cases rejected

end Jssql.FileHandler
