import Jssql.Properties.UniqueKeys
import Jssql.Theory.Restarts
import Jssql.Theory.StoreBounds

/-!
The engine is the store: what the statements of a run answer, with restarts in between, the
store can answer. So a row stays until a statement that can take it out, and comes from a
statement that can write it.
-/
namespace Jssql.InterpreterVisitor
open Foundation FileHandler Store SemanticNormalizer SemanticValidator

variable {env : Env} {w w' w'' : World} {S S' : Store} {event : Event} {events : List Event} {answer : Answer}

/-! Runs -/

/-- The statements that are executed are moderate. -/
def ModerateEvents (env : Env) (events : List Event) : Prop :=
  ∀ stmt answer, Event.executed stmt answer ∈ events → Moderate env stmt

theorem Represents.happened (rep : Represents w S) (bounded : S.Bounded) (step : Process env event w w')
    (moderate : ∀ stmt answer, event = .executed stmt answer → Moderate env stmt) :
    ∃ S', Store.Step event S S' ∧ Represents w' S' ∧ S'.Bounded := by
  cases event with
  | executed stmt answer =>
      have moderate := moderate stmt answer rfl
      obtain ⟨S', executes, rep'⟩ := rep.step (storable rep bounded moderate) step
      exact ⟨S', executes, rep', executes.bounded bounded moderate⟩
  | restarted =>
      obtain ⟨S', restarts, rep'⟩ := rep.restarted step
      exact ⟨S', restarts, rep', restarts.bounded bounded⟩

/-- A run of the engine is one of the store, with the same answers. -/
theorem run_refines (rep : Represents w S) (bounded : S.Bounded) (run : Run (Process env) events w w')
    (moderate : ModerateEvents env events) : ∃ S', Run Store.Step events S S' ∧ Represents w' S' ∧ S'.Bounded := by
  refine @Run.simulate _ _ _ _ _ _ _ Store.Step (fun w S => Represents w S ∧ S.Bounded) run S ⟨rep, bounded⟩ ?_
  rintro event mem w w' S ⟨rep, bounded⟩ step
  refine rep.happened bounded step ?_
  rintro stmt answer rfl
  exact moderate stmt answer mem

/-! A run from no tables -/

theorem represents_noTables : Represents emptyDatabase (noTables ∅) where
  schemas := rfl
  csvFiles := rfl
  directory := ⟨∅, rfl⟩
  tables _ := .unknown rfl rfl rfl rfl

theorem bounded_noTables : (noTables ∅).Bounded where
  rows _ _ mem := absurd mem List.not_mem_nil
  defaults table columns known := by
    rw [noTables, Finmap.lookup_empty] at known
    cases known
  csvFiles path content known := by
    rw [noTables, Finmap.lookup_empty] at known
    cases known

/-- The table of `pairSchema` is made. -/
def pairCreated : Statement := .create ⟨ascii "t", pairSchema.schema⟩

/-- The key 1 is stored. -/
def keyInserted : Statement := .insert (insertKeys [⟨.number, ascii "1"⟩])

theorem pairCreated_moderate : Moderate ⟨false, id⟩ pairCreated := by
  refine ⟨by rintro ⟨⟩, sameColumns_iff.mpr ?_, ?_⟩
  · rw [pairSchema_parsed]
    decide
  · unfold Short
    decide

theorem keyInserted_moderate : Moderate ⟨false, id⟩ keyInserted := by
  refine List.forall_mem_singleton.mpr ?_
  intro literal mem
  cases List.mem_singleton.mp mem
  exact show 1 < 2 ^ 54 by decide

/-- The two statements are executed, and then the process is started again. -/
theorem key_stored : ∃ w w' v a b S, Process ⟨false, id⟩ (.executed pairCreated a) emptyDatabase w ∧
    Process ⟨false, id⟩ (.executed keyInserted b) w w' ∧ Process ⟨false, id⟩ .restarted w' v ∧ Represents w S ∧
    S.Bounded ∧ S.schemas.lookup (ascii "t") = some pairSchema.schema := by
  obtain ⟨w, ⟨a, created⟩, sound⟩ := createPair_sound
  have appended : Appended pairSchema .insert [true, true] (insertedKeys [⟨.number, ascii "1"⟩]).records [keyRecord] :=
    ⟨rfl, List.forall_mem_singleton.mpr rfl, List.forall_mem_singleton.mpr (tableRecord_indexedBy _ _ _ _ _ _)⟩
  obtain ⟨w', idx, ⟨b, inserted⟩, -⟩ := Sound.step_insert ⟨false, id⟩ sound
    (insertKeys_normalized _ sound.registered.schema) (insertKeys_valid sound rfl) appended rfl
  have first : Process ⟨false, id⟩ (.executed pairCreated (answerOf a)) emptyDatabase w := ⟨a, created, rfl⟩
  have second : Process ⟨false, id⟩ (.executed keyInserted (answerOf b)) w w' := ⟨b, inserted, rfl⟩
  obtain ⟨S, -, rep, bounded⟩ := represents_noTables.happened bounded_noTables first fun _ _ same => by
    cases same
    exact pairCreated_moderate
  obtain ⟨S', -, rep', -⟩ := rep.happened bounded second fun _ _ same => by
    cases same
    exact keyInserted_moderate
  exact ⟨w, w', _, _, _, S, first, second, rep'.restartable _, rep, bounded,
    rep.schemas ▸ sound.registered.schema⟩

theorem run_refines_keyStored : ∃ a b v S', Run Store.Step [.executed pairCreated a, .executed keyInserted b, .restarted]
    (noTables ∅) S' ∧ Represents v S' ∧ S'.Bounded := by
  obtain ⟨w, w', v, a, b, S, created, inserted, restarted, -⟩ := key_stored
  have moderate : ModerateEvents ⟨false, id⟩ [.executed pairCreated a, .executed keyInserted b, .restarted] := by
    rw [ModerateEvents, forall_executed_cons, forall_executed_cons, forall_executed_restarted]
    exact ⟨pairCreated_moderate, keyInserted_moderate, forall_executed_nil⟩
  obtain ⟨S', run⟩ := run_refines represents_noTables bounded_noTables
    (.cons created (.cons inserted (.cons restarted .refl))) moderate
  exact ⟨a, b, v, S', run⟩

/-! Reading a table -/

theorem sift_all (rows : List Record) : sift (whereMatches none) rows = ⟨[], rows, none⟩ := by
  induction rows with
  | nil => rfl
  | cons row rows ih => rw [sift_true (show whereMatches none row = .ok true from rfl), ih]

/-- The columns that the statement asks for. -/
def Asks (node : SelectNode) (columns : Schema) (mask : List Bool) : Prop :=
  projectionMaskOf columns (node.columns.getD (columnNames columns)) (List.replicate columns.length false) = .ok mask

theorem Asks.congr {node : SelectNode} {columns columns' : Schema} {mask : List Bool}
    (same : SameColumns columns columns') : Asks node columns' mask ↔ Asks node columns mask := by
  have masks (names : List Bytes) (start : List Bool) :
      projectionMaskOf columns' names start = projectionMaskOf columns names start := by
    induction names generalizing start with
    | nil => rfl
    | cons name names ih =>
        simp only [projectionMaskOf, findColumn_congr same, ih]
        rw [show columns'.length = columns.length from same.length_eq.symm]
  rw [Asks, Asks, masks, columnNames_congr same, same.length_eq]

/-- Without a condition a `SELECT` answers all rows of the table, and changes nothing. -/
theorem Represents.reads (rep : Represents w S) (env : Env) {node : SelectNode} (whole : node.optWhereNode = none)
    {columns : Schema} (known : S.schemas.lookup node.tableName = some columns) {mask : List Bool}
    (asks : Asks node columns mask) :
    Process env (.executed (.select node) (.done (some ((S.rows node.tableName).map (projectRow mask))))) w w := by
  obtain ⟨n, t, f, idx, text, rfl, held, rows, -⟩ := (rep.tables node.tableName).present known
  let node' : SelectNode := { node with columns := some (columnNames t.schema), projectionMask := mask, optWhereNode := none }
  have normalized : normalizeSelect node w.ctx.untypedTables = (node', true) := by
    rw [Asks] at asks
    simp only [normalizeSelect, held.registered.schema, asks, whole, normalizeWhereClause, node']
  have valid : validateSelectSemantics node' w.ctx = .ok none := by
    have all : missingColumn (columnNames t.schema) t.schema = none :=
      List.find?_eq_none.mpr fun name mem => by simpa using mem
    simp only [validateSelectSemantics, node', held.registered.schema, Option.getD_some, all]
    rfl
  have check : checked w.ctx (.select node) = .ok (some (.select node')) :=
    checked_select.mpr ⟨node', rfl, normalized, valid⟩
  have width : mask.length = n + 1 := by
    rw [projectionMaskOf_length _ asks, List.length_replicate, t.width]
  have selected : (selectData env node').run w = .ok ((S.rows node.tableName).map (projectRow mask)) w := by
    have schema : w.ctx.untypedTables.lookup node'.tableName = some t.schema := held.registered.schema
    have run := selectData_sequential env schema held.file width rfl
    rw [selectedRows_sift, show node'.optWhereNode = none from rfl, sift_all, rows] at run
    exact outcome_eq_ok.mp run
  have visited := visit_checked env (.select node) w
  rw [check] at visited
  refine ⟨.completed { rows := some ((S.rows node.tableName).map (projectRow mask)) }, ?_, rfl⟩
  rw [parseAndExecute, catchException_run, run_bind_ok (visited.trans (run_bind_ok selected _))]
  rfl

/-- What a `SELECT` without a condition has answered. -/
theorem Represents.answered (rep : Represents w S) {node : SelectNode} (whole : node.optWhereNode = none)
    {results : ResultSet} (step : Process env (.executed (.select node) (.done (some results))) w w') :
    Represents w' S ∧ ∃ columns mask, S.schemas.lookup node.tableName = some columns ∧ Asks node columns mask ∧
      results = (S.rows node.tableName).map (projectRow mask) := by
  have storable : Storable env (.select node) w := fun _ _ _ _ _ => trivial
  obtain ⟨S', executes, rep'⟩ := rep.step storable step
  cases executes with
  | effect schemas check known effect =>
      obtain ⟨node', rfl, normalized, -⟩ := checked_select.mp check
      obtain ⟨-, -, -, asks, where_⟩ := normalizeSelect_ok (schemas ▸ known) normalized
      rw [whole] at where_
      have none_ : node'.optWhereNode = none := (congrArg Prod.fst where_).symm
      cases effect with
      | select scan _ found =>
          rw [none_, sift_all] at found
          subst found
          have kept : Represents w' (S.withRows node.tableName (S.rows node.tableName)) := rep'
          rw [withRows_rows] at kept
          exact ⟨kept, _, _, known, asks, rfl⟩
      | selectKey lookup =>
          rw [byKey, none_] at lookup
          cases lookup
      | selectNoKey lookup =>
          rw [byKey, none_] at lookup
          cases lookup

/-- The rows that a `SELECT` has answered it answers again after a run, without those that a
statement of the run can take out, and with those behind them that it can write. -/
theorem answers_kept (rep : Represents w S) (bounded : S.Bounded) {node : SelectNode} (whole : node.optWhereNode = none)
    {results : ResultSet} (asked : Process env (.executed (.select node) (.done (some results))) w w')
    (run : Run (Process env) events w' w'') (moderate : ModerateEvents env events)
    (undropped : Undropped node.tableName events) :
    ∃ columns mask rows rows', w.ctx.untypedTables.lookup node.tableName = some columns ∧ Asks node columns mask ∧
      results = rows.map (projectRow mask) ∧
      Process env (.executed (.select node) (.done (some (rows'.map (projectRow mask))))) w'' w'' ∧
      Changed (RemovedBy events node.tableName columns) (WrittenBy events node.tableName columns w.disk.csvFiles)
        rows rows' := by
  obtain ⟨rep', columns, mask, known, asks, rfl⟩ := rep.answered whole asked
  obtain ⟨S', run', rep'', -⟩ := run_refines rep' bounded run moderate
  obtain ⟨columns', known', same, changed⟩ := run_changed run' known undropped
  refine ⟨columns, mask, _, _, rep.schemas ▸ known, asks, rfl, rep''.reads env whole known' ((Asks.congr same).mpr asks), ?_⟩
  rw [rep.csvFiles]
  exact changed

def selectAll : SelectNode := ⟨none, ascii "t", none, []⟩

theorem answers_kept_keyStored : ∃ b w v results columns mask rows rows',
    Process ⟨false, id⟩ (.executed (.select selectAll) (.done (some results))) w w ∧
      results = rows.map (projectRow mask) ∧
      Process ⟨false, id⟩ (.executed (.select selectAll) (.done (some (rows'.map (projectRow mask))))) v v ∧
      Changed (RemovedBy [.executed keyInserted b, .restarted] (ascii "t") columns)
        (WrittenBy [.executed keyInserted b, .restarted] (ascii "t") columns w.disk.csvFiles) rows rows' := by
  obtain ⟨w, w', v, a, b, S, -, inserted, restarted, rep, bounded, known⟩ := key_stored
  have asks : Asks selectAll pairSchema.schema [true, true] := rfl
  have asked := rep.reads ⟨false, id⟩ (show selectAll.optWhereNode = none from rfl) known asks
  have undropped : Undropped (ascii "t") [.executed keyInserted b, .restarted] := by
    intro answer mem
    simp [keyInserted] at mem
  have moderate : ModerateEvents ⟨false, id⟩ [.executed keyInserted b, .restarted] := by
    rw [ModerateEvents, forall_executed_cons, forall_executed_restarted]
    exact ⟨keyInserted_moderate, forall_executed_nil⟩
  obtain ⟨columns, mask, rows, rows', -, -, same, answered, changed⟩ :=
    answers_kept rep bounded rfl asked (.cons inserted (.cons restarted .refl)) moderate undropped
  exact ⟨b, w, v, _, columns, mask, rows, rows', asked, same, answered, changed⟩

/-- After each run the process can be ended and started again, and what a `SELECT` answered it
answers then as well. -/
theorem restart_answers (rep : Represents w S) (bounded : S.Bounded) (run : Run (Process env) events w w')
    (moderate : ModerateEvents env events) :
    ∃ w'', Process env .restarted w' w'' ∧ ∀ (node : SelectNode) (results : ResultSet) (v : World),
      node.optWhereNode = none → Process env (.executed (.select node) (.done (some results))) w' v →
        Process env (.executed (.select node) (.done (some results))) w'' w'' := by
  obtain ⟨S', -, rep', -⟩ := run_refines rep bounded run moderate
  obtain ⟨restarts, rep''⟩ := rep'.reopened env
  refine ⟨_, rep'.restartable env, fun node results v whole asked => ?_⟩
  obtain ⟨-, columns, mask, known, asks, rfl⟩ := rep'.answered whole asked
  obtain ⟨columns', here, same⟩ := restarts.known known
  obtain ⟨rows, -, -⟩ := restarts
  have read := rep''.reads env whole here ((Asks.congr same).mpr asks)
  rwa [rows] at read

theorem restart_answers_keyStored : ∃ w w'', Process ⟨false, id⟩ .restarted w w'' ∧ ∃ results,
    Process ⟨false, id⟩ (.executed (.select selectAll) (.done (some results))) w'' w'' := by
  obtain ⟨w, w', v, a, b, S, created, -, -, rep, -, known⟩ := key_stored
  have moderate : ModerateEvents ⟨false, id⟩ [.executed pairCreated a] :=
    forall_executed_cons.mpr ⟨pairCreated_moderate, forall_executed_nil⟩
  have asked := rep.reads ⟨false, id⟩ (show selectAll.optWhereNode = none from rfl) known
    (show Asks selectAll pairSchema.schema [true, true] from rfl)
  obtain ⟨w'', restarted, answers⟩ := restart_answers represents_noTables bounded_noTables (.cons created .refl) moderate
  exact ⟨w, w'', restarted, _, answers selectAll _ w rfl asked⟩

end Jssql.InterpreterVisitor
