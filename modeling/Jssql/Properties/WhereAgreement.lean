import Jssql.Properties.DeletedRows
import Jssql.Theory.Comparators
import Jssql.Theory.KeyConditions
import Jssql.Theory.SoundTables

/-!
One `WHERE` clause for two statements. The normalizer of `DELETE` takes the quotes off the
literal and the comparison takes quotes off again; for `SELECT` only the comparison does.
Of columns with one name `DELETE` compares the last and `SELECT` the first. With distinct
names the scans differ on values that tell the contents of the literal from what is left
of them without quotes of their own.
-/
namespace Jssql.FileHandler
open Foundation ConditionEvaluator SemanticNormalizer SemanticValidator StrategyDecider InterpreterVisitor

variable {n : Nat} {w : World} {t : TableSchema n} {f : TableFile n}

/-- The comparison of the scan of a normalized `SELECT`, and the records that it takes. -/
def selectMatches (select : SelectNode) (r : TableRecord n) : Except Fault Bool :=
  whereMatches select.optWhereNode r.row

def taken (select : SelectNode) (r : TableRecord n) : Bool := accepts (selectMatches select) r

/-- The loop of `DELETE` comes to the end of the file, and it has overwritten the type bytes
of the live records that `SELECT` takes and nothing else. -/
def AgreesOnWhere (env : Env) (w : World) (f : TableFile n) (delete : DeleteNode) (select : SelectNode) : Prop :=
  ∃ s w' content,
    (repeatUntil .diverges (deleteRound env delete) (scanRounds f.bytes) (atRecords f)).run w = .ok s w' ∧
    w'.disk.tableFiles.lookup delete.tableName = some content ∧ OnlyTypesChanged (taken select) f content

/-- The comparison of `DELETE` gives the answer of the comparison of `SELECT`. -/
def SameAnswer (t : TableSchema n) (cond : ConditionNode) (r : TableRecord n) : Prop :=
  ∀ value last, columnValue t cond.colName r = some value → deletedValue t cond.colName r = some last →
    evaluateComparator last cond.cmp { cond.literal with value := removeOuterQuotes cond.literal.value } =
      evaluateComparator value cond.cmp cond.literal

/-- A stored value for which the two texts are not the same literal. -/
def TellsApart (cmp : ComparatorType) (text other value : Bytes) : Prop :=
  match cmp with
  | .eq | .ne => text ≠ other ∧ (value = text ∨ value = other)
  | .like | .notLike => classify value = .string ∧ likeMatch value text ≠ likeMatch value other
  | _ => False

/-! Comparisons -/

/-- What one removal of quotes more changes, on a literal that the comparator takes. -/
theorem evaluateComparator_stripped_iff {cmp : ComparatorType} {literal : LiteralNode} {value : Bytes}
    (valid : comparatorViolation cmp literal.type = none)
    (plain : literal.type ≠ .string → removeOuterQuotes literal.value = literal.value) :
    evaluateComparator value cmp { literal with value := removeOuterQuotes literal.value } =
        evaluateComparator value cmp literal ↔
      ¬ TellsApart cmp (removeOuterQuotes literal.value) (removeOuterQuotes (removeOuterQuotes literal.value))
        value := by
  cases cmp with
  | eq =>
      rw [evaluateComparator_eq, evaluateComparator_eq, Except.ok.injEq, decide_eq_decide, TellsApart]
      grind
  | ne =>
      rw [evaluateComparator_ne, evaluateComparator_ne, Except.ok.injEq, decide_eq_decide, TellsApart]
      grind
  | like =>
      rw [evaluateComparator_like, evaluateComparator_like, Except.ok.injEq, TellsApart]
      grind
  | notLike =>
      rw [evaluateComparator_notLike, evaluateComparator_notLike, Except.ok.injEq, TellsApart]
      grind
  | is | isNot =>
      have unquoted : literal.type ≠ .string := by
        intro text
        simp [comparatorViolation, text] at valid
      exact iff_of_true (by rw [plain unquoted]) id
  | lt | le | gt | ge =>
      have unquoted : literal.type ≠ .string := by
        intro text
        simp [comparatorViolation, text] at valid
      exact iff_of_true (by rw [plain unquoted]) id

/-! The statements -/

/-- The condition compares the stored value of the column that it names. -/
theorem conditionHolds_some {cond : ConditionNode} (known : cond.colName ∈ columnNames t.schema) (r : TableRecord n) :
    ∃ value, columnValue t cond.colName r = some value ∧
      conditionHolds t (some ⟨cond⟩) r = evaluateComparator value cond.cmp cond.literal := by
  have inside : (storedNames t).idxOf cond.colName < r.row.length := by
    rw [← length_storedNames t r]
    exact List.idxOf_lt_length_iff.mpr ((storedNames_perm t).mem_iff.mpr known)
  have value := List.getElem?_eq_getElem inside
  rw [← columnValue_eq] at value
  exact ⟨_, value, by rw [conditionHolds, value]⟩

/-- An accepted condition takes a literal that the comparator takes. -/
theorem comparatorViolation_of_valid {ctx : ExecutionContext} {table : Bytes} {columns : Map Bytes Index}
    {idx : Index} (hc : ctx.indices.lookup table = some columns) (hi : columns.lookup t.pkColName = some idx)
    {cond : ConditionNode} (scan : isUniqueEqualityLookup (some ⟨cond⟩) t.pkColName = false)
    (valid : validateWhereOfTable ctx table t.schema (some ⟨cond⟩) = .ok none) :
    comparatorViolation cond.cmp cond.literal.type = none := by
  rw [validateWhereOfTable, absentKeyViolation_other hc hi scan, ok_bind] at valid
  have accepted := Except.ok.inj valid
  rw [validateWhereClauseSemantics] at accepted
  split at accepted
  · cases accepted
  · split at accepted
    · cases accepted
    · exact accepted

theorem visitDelete_accepted (env : Env) {node node' : DeleteNode}
    (normalized : normalizeDelete node w.ctx.untypedTables = (node', true))
    (valid : validateDeleteSemantics node' w.ctx = .ok none) :
    (visitDelete env node).run w = (do deleteData env node'; return {} : Exec Response).run w := by
  rw [visitDelete, run_bind_ok (run_get w)]
  dsimp only
  rw [normalized]
  dsimp only
  rw [valid, run_bind_ok (run_lift_ok _ _)]
  rfl

/-- With distinct names the answers are the same unless the value tells the literals apart. -/
theorem sameAnswer_iff {cond : ConditionNode} (distinct : (columnNames t.schema).Nodup)
    (known : cond.colName ∈ columnNames t.schema) (valid : comparatorViolation cond.cmp cond.literal.type = none)
    (plain : cond.literal.type ≠ .string → removeOuterQuotes cond.literal.value = cond.literal.value)
    (r : TableRecord n) :
    SameAnswer t cond r ↔ ∀ value, columnValue t cond.colName r = some value →
      ¬ TellsApart cond.cmp (removeOuterQuotes cond.literal.value)
        (removeOuterQuotes (removeOuterQuotes cond.literal.value)) value := by
  rw [SameAnswer, deletedValue_eq distinct known]
  refine forall_congr' fun value => ?_
  constructor
  · exact fun same stored => (evaluateComparator_stripped_iff valid plain).mp (same value stored stored)
  · intro told last stored stored'
    obtain rfl := Option.some.inj (stored.symm.trans stored')
    exact (evaluateComparator_stripped_iff valid plain).mpr (told stored)

section Statement

variable (env : Env) {table : Bytes} {idx : Index} {cond : ConditionNode} {delete : DeleteNode} {select : SelectNode}
  (sound : Sound t table w f idx) (first : t.pkIdx = 0)
  (deletes : normalizeDelete ⟨table, some ⟨cond⟩⟩ w.ctx.untypedTables = (delete, true))
  (selects : normalizeSelect ⟨none, table, some ⟨cond⟩, []⟩ w.ctx.untypedTables = (select, true))
  (deleteEvaluates : Evaluates (deleteMatches t delete.optWhereNode) f.records)
  (selectEvaluates : Evaluates (selectMatches select) f.records)

include sound first deletes selects deleteEvaluates selectEvaluates

/-- A live record is marked if it is taken, or not if not, just where the answers are the same. -/
theorem marked_eq_taken_iff {r : TableRecord n} (live : r ∈ liveRecords f.records) :
    accepts (deleteMatches t delete.optWhereNode) r = taken select r ↔ SameAnswer t cond r := by
  obtain ⟨-, deleted, known⟩ := normalizeDelete_ok sound.registered.schema deletes
  obtain ⟨-, -, -, -, where_⟩ := normalizeSelect_ok sound.registered.schema selects
  obtain ⟨where_, column⟩ := normalizeWhereClause_ok where_
  obtain ⟨last, stored⟩ := deletedValue_known r (known ⟨cond⟩ rfl)
  obtain ⟨value, stored', answer'⟩ := conditionHolds_some (known ⟨cond⟩ rfl) r
  have answer : deleteMatches t delete.optWhereNode r = evaluateComparator last cond.cmp
      { cond.literal with value := removeOuterQuotes cond.literal.value } := by
    rw [deleted]
    exact deleteMatches_some stored
  rw [← whereMatches_eq first column r, ← where_, ← selectMatches] at answer'
  obtain ⟨b, ok⟩ := deleteEvaluates r live
  obtain ⟨b', ok'⟩ := selectEvaluates r live
  rw [taken, accepts_of_ok ok, accepts_of_ok ok', SameAnswer]
  rw [answer] at ok
  rw [answer'] at ok'
  constructor
  · rintro rfl v l hv hl
    obtain rfl := Option.some.inj (stored'.symm.trans hv)
    obtain rfl := Option.some.inj (stored.symm.trans hl)
    exact ok.trans ok'.symm
  · intro same
    have both := same value last stored' stored
    rw [ok, ok', Except.ok.injEq] at both
    exact both

/-- `DELETE` marks the records that `SELECT` takes if and only if the table has a counter or
none is taken, and the answers are the same on every live record. -/
theorem agreesOnWhere_iff_same : AgreesOnWhere env w f delete select ↔
    (table ∈ w.ctx.deleteCounterPerTable ∨ ∀ r ∈ liveRecords f.records, taken select r = false) ∧
      ∀ r ∈ liveRecords f.records, SameAnswer t cond r := by
  obtain ⟨name, where_, known⟩ := normalizeDelete_ok sound.registered.schema deletes
  have each (r : TableRecord n) (live : r ∈ liveRecords f.records) :=
    marked_eq_taken_iff sound first deletes selects deleteEvaluates selectEvaluates live
  have column : ColumnKnown t delete.optWhereNode := by
    rw [where_]
    rintro v ⟨⟩
    exact known ⟨cond⟩ rfl
  have file : HasFile w delete.tableName f := name ▸ sound.file
  have registered : Registered w.ctx delete.tableName t := name ▸ sound.registered
  have loop := deleteRounds_run env registered file sound.indexed column
  have stops : (deleteMarks env w t delete f.records).stop = none ↔ table ∈ w.ctx.deleteCounterPerTable ∨
      ∀ r ∈ liveRecords f.records, accepts (deleteMatches t delete.optWhereNode) r = false := by
    rw [deleteMarks, scanMarks_complete_iff _ deleteEvaluates, missingFault_eq_none_iff, name]
  constructor
  · rintro ⟨s, w', content, run, lookup, changed⟩
    have complete := deleteRounds_complete env registered file sound.indexed column run
    simp only [complete] at loop
    rw [run] at loop
    cases loop
    have marks : ∀ r ∈ liveRecords f.records, taken select r = accepts (deleteMatches t delete.optWhereNode) r := by
      have bytes := Option.some.inj (lookup.symm.trans (markedState_hasFile w delete.tableName f _))
      rw [changed.eq, deleteMarks, scanMarks_of_complete deleteEvaluates complete] at bytes
      exact encodeAll_markMatching_inj (List.append_cancel_left bytes)
    exact ⟨(stops.mp complete).imp_right fun nothing r live => (marks r live).trans (nothing r live),
      fun r live => (each r live).mp (marks r live).symm⟩
  · rintro ⟨counted, same⟩
    have marks (r : TableRecord n) (live : r ∈ liveRecords f.records) := (each r live).mpr (same r live)
    have complete := stops.mpr (counted.imp_right fun nothing r live => (marks r live).trans (nothing r live))
    simp only [complete] at loop
    refine ⟨_, _, _, loop, markedState_hasFile w delete.tableName f _, ?_⟩
    rw [deleteMarks, scanMarks_of_complete deleteEvaluates complete, markMatching_congr marks]
    exact onlyTypesChanged_markMatching _ f

/-- Where both statements are accepted: `DELETE` is the loop, the index and the compaction;
`SELECT` answers with the values of the records that it takes; the loop marks these under
that condition; and with distinct names it is one on the value and the literal. -/
theorem agreesOnWhere_iff (deleteValid : validateDeleteSemantics delete w.ctx = .ok none)
    (selectValid : validateSelectSemantics select w.ctx = .ok none)
    (scan : isUniqueEqualityLookup (some ⟨cond⟩) t.pkColName = false)
    (plain : cond.literal.type ≠ .string → removeOuterQuotes cond.literal.value = cond.literal.value) :
    (visitDelete env ⟨table, some ⟨cond⟩⟩).run w = (do
      let _ ← repeatUntil .diverges (deleteRound env delete) (scanRounds f.bytes) (atRecords f)
      maintain env table t.pkColName
      return {} : Exec Response).run w ∧
    (visitSelect env ⟨none, table, some ⟨cond⟩, []⟩).run w = .ok { rows := some (((liveRecords f.records).filter
      (taken select)).map fun r => projectRow select.projectionMask r.row) } w ∧
    (AgreesOnWhere env w f delete select ↔
      (table ∈ w.ctx.deleteCounterPerTable ∨ ∀ r ∈ liveRecords f.records, taken select r = false) ∧
        ∀ r ∈ liveRecords f.records, SameAnswer t cond r) ∧
    ((columnNames t.schema).Nodup → ∀ r, SameAnswer t cond r ↔
      ∀ value, columnValue t cond.colName r = some value →
        ¬ TellsApart cond.cmp (removeOuterQuotes cond.literal.value)
          (removeOuterQuotes (removeOuterQuotes cond.literal.value)) value) := by
  obtain ⟨name, where_, known⟩ := normalizeDelete_ok sound.registered.schema deletes
  obtain ⟨name', -, width, -, normalized⟩ := normalizeSelect_ok sound.registered.schema selects
  obtain ⟨columns, hc, hi⟩ := sound.index
  have valid : comparatorViolation cond.cmp cond.literal.type = none := by
    rw [validateDeleteSemantics, name, sound.registered.schema, where_] at deleteValid
    have accepted : comparatorViolation (strippedCondition t.schema cond).cmp
        (strippedCondition t.schema cond).literal.type = none := comparatorViolation_of_valid hc hi scan deleteValid
    exact accepted
  refine ⟨?_, ?_, agreesOnWhere_iff_same env sound first deletes selects deleteEvaluates selectEvaluates,
    fun distinct r => sameAnswer_iff distinct (known ⟨cond⟩ rfl) valid plain r⟩
  · have scan' : isUniqueEqualityLookup delete.optWhereNode t.pkColName = false := by
      rw [where_]
      exact scan
    have registered : Registered w.ctx delete.tableName t := name ▸ sound.registered
    have file : HasFile w delete.tableName f := name ▸ sound.file
    have handler := deleteData_scan env registered.schema file scan'
    rw [visitDelete_accepted env deletes deleteValid, EStateM.run_bind, handler, ← EStateM.run_bind, bind_assoc, name]
  · have registered : Registered w.ctx select.tableName t := name' ▸ sound.registered
    have file : HasFile w select.tableName f := name' ▸ sound.file
    have run := selectData_sequential env registered.schema file (width.trans t.width)
      (isUniqueEqualityLookup_normalized normalized _ ▸ scan)
    have rows : selectedRows select.projectionMask select.optWhereNode f.records =
        .ok (((liveRecords f.records).filter (taken select)).map fun r => projectRow select.projectionMask r.row) := by
      refine selectedRows_of_ok (taken select) fun r live => ?_
      obtain ⟨b, ok⟩ := selectEvaluates r live
      rw [taken, accepts_of_ok ok]
      exact ok
    rw [rows] at run
    rw [visitSelect_run, selects, selectValid]
    dsimp only
    rw [if_neg (by simp), run_bind_ok (outcome_eq_ok.mp run)]
    rfl

end Statement

/-- The literal's contents have no quotes. -/
theorem agreesOnWhere_iff_pair :
    let file := pairFile [ascii "1", ascii "2"] (ascii "x") (by decide)
    let w := singleTable (ascii "people") pairSchema file (Finmap.insert (ascii "people") 0 ∅)
    let cond : ConditionNode := ⟨ascii "name", .eq, ⟨.string, ascii "'x'"⟩, 255⟩
    ∃ delete select, normalizeDelete ⟨ascii "people", some ⟨cond⟩⟩ w.ctx.untypedTables = (delete, true) ∧
      normalizeSelect ⟨none, ascii "people", some ⟨cond⟩, []⟩ w.ctx.untypedTables = (select, true) ∧
      AgreesOnWhere ⟨false, id⟩ w file delete select := by
  intro file w cond
  let delete : DeleteNode := ⟨ascii "people", some ⟨⟨ascii "name", .eq, ⟨.string, ascii "x"⟩, 1⟩⟩⟩
  let select : SelectNode := ⟨some [ascii "id", ascii "name"], ascii "people", some ⟨⟨ascii "name", .eq,
    ⟨.string, ascii "'x'"⟩, 1⟩⟩, [true, true]⟩
  have deletes : normalizeDelete ⟨ascii "people", some ⟨cond⟩⟩ w.ctx.untypedTables = (delete, true) := rfl
  have selects : normalizeSelect ⟨none, ascii "people", some ⟨cond⟩, []⟩ w.ctx.untypedTables = (select, true) := rfl
  have sound : Sound pairSchema (ascii "people") w file file.index :=
    singleTable_sound _ _ _ _ (pairFile_indexed _ _ _)
  have deleteEvaluates : Evaluates (deleteMatches pairSchema delete.optWhereNode) file.records := by
    intro r live
    obtain ⟨key, _, rfl⟩ := List.mem_map.mp (mem_liveRecords.mp live).1
    exact ⟨true, rfl⟩
  have selectEvaluates : Evaluates (selectMatches select) file.records := by
    intro r live
    obtain ⟨key, _, rfl⟩ := List.mem_map.mp (mem_liveRecords.mp live).1
    exact ⟨true, rfl⟩
  have statement := agreesOnWhere_iff ⟨false, id⟩ sound rfl deletes selects deleteEvaluates selectEvaluates rfl rfl
    rfl (absurd rfl)
  refine ⟨delete, select, deletes, selects, statement.2.2.1.mpr ⟨.inl (Finmap.mem_insert.mpr (.inl rfl)), ?_⟩⟩
  rintro r - 
  refine (statement.2.2.2 (by decide) r).mpr ?_
  rintro value - ⟨other, -⟩
  exact other rfl

/-- The contents stand in quotes of their own: `DELETE` takes these off as well, and marks
the row that holds the text inside, which `SELECT` does not return. -/
theorem not_agreesOnWhere :
    let file := pairFile [ascii "1"] (ascii "x") (by decide)
    let w := singleTable (ascii "people") pairSchema file (Finmap.insert (ascii "people") 0 ∅)
    let cond : ConditionNode := ⟨ascii "name", .eq, ⟨.string, ascii "'\"x\"'"⟩, 255⟩
    ∃ delete select, normalizeDelete ⟨ascii "people", some ⟨cond⟩⟩ w.ctx.untypedTables = (delete, true) ∧
      validateDeleteSemantics delete w.ctx = .ok none ∧
      normalizeSelect ⟨none, ascii "people", some ⟨cond⟩, []⟩ w.ctx.untypedTables = (select, true) ∧
      validateSelectSemantics select w.ctx = .ok none ∧
      isUniqueEqualityLookup (some ⟨cond⟩) pairSchema.pkColName = false ∧ pairSchema.pkIdx = 0 ∧
      Evaluates (deleteMatches pairSchema delete.optWhereNode) file.records ∧
      Evaluates (selectMatches select) file.records ∧
      ¬ AgreesOnWhere ⟨false, id⟩ w file delete select := by
  intro file w cond
  let delete : DeleteNode := ⟨ascii "people", some ⟨⟨ascii "name", .eq, ⟨.string, ascii "\"x\""⟩, 1⟩⟩⟩
  let select : SelectNode := ⟨some [ascii "id", ascii "name"], ascii "people", some ⟨⟨ascii "name", .eq,
    ⟨.string, ascii "'\"x\"'"⟩, 1⟩⟩, [true, true]⟩
  have deletes : normalizeDelete ⟨ascii "people", some ⟨cond⟩⟩ w.ctx.untypedTables = (delete, true) := rfl
  have selects : normalizeSelect ⟨none, ascii "people", some ⟨cond⟩, []⟩ w.ctx.untypedTables = (select, true) := rfl
  have sound : Sound pairSchema (ascii "people") w file file.index :=
    singleTable_sound _ _ _ _ (pairFile_indexed _ _ _)
  have deleteEvaluates : Evaluates (deleteMatches pairSchema delete.optWhereNode) file.records := by
    intro r live
    obtain ⟨key, _, rfl⟩ := List.mem_map.mp (mem_liveRecords.mp live).1
    exact ⟨true, rfl⟩
  have selectEvaluates : Evaluates (selectMatches select) file.records := by
    intro r live
    obtain ⟨key, _, rfl⟩ := List.mem_map.mp (mem_liveRecords.mp live).1
    exact ⟨false, rfl⟩
  refine ⟨delete, select, deletes, rfl, selects, rfl, rfl, rfl, deleteEvaluates, selectEvaluates, fun agrees => ?_⟩
  have told := (agreesOnWhere_iff_same ⟨false, id⟩ sound rfl deletes selects deleteEvaluates selectEvaluates).mp agrees
  have live : pairRecord (ascii "1") (ascii "x") (by decide) ∈ liveRecords file.records :=
    mem_liveRecords.mpr ⟨List.mem_cons_self, rfl⟩
  have same := told.2 _ live (ascii "x") (ascii "x") rfl rfl
  cases same

end Jssql.FileHandler
