import Jssql.Theory.AllTables
import Jssql.Theory.KeyConditions
import Jssql.Theory.StoredValues
import Jssql.Theory.TextRecords

/-!
The keys of a table over whole runs. The validator of `INSERT` compares literals as they are
written, `UPDATE` and `IMPORT` compare nothing, and what is stored has lost its quotes, so
two records come to have one key unless every statement brings keys that are new when stored.
-/
namespace Jssql.InterpreterVisitor
open Foundation FileHandler SemanticNormalizer SemanticValidator

variable {n : Nat} {env : Env} {w w' : World} {t : TableSchema n} {f : TableFile n}

/-- The key of a row after the assignments, as it is stored. -/
def rewrittenKey (t : TableSchema n) (node : UpdateNode) (row : Record) : Bytes :=
  removeOuterQuotes (updatedValue node row t.pkIdx)

/-- The keys of the rows that do not match, and of those that match when they are rewritten. -/
def keysAfterUpdate (t : TableSchema n) (f : TableFile n) (node : UpdateNode) : List Bytes :=
  ((liveRecords f.records).filter fun r => !accepts (scanned node) r).map (fun r => r.pkLiteral) ++
    ((liveRecords f.records).filter (accepts (scanned node))).map fun r => rewrittenKey t node r.row

/-- What the statement stores in the table has keys of its own. -/
def BringsNewKeys (t : TableSchema n) (f : TableFile n) (w : World) : Statement → Prop
  | .insert node => NewKeys t f.records (normalizeInsert node w.ctx.untypedTables).1.projectionMask
      (normalizeInsert node w.ctx.untypedTables).1.records
  | .csvImport node => NewKeys t f.records (allColumns t) (csvRecords w node)
  | .update node => ∀ node', normalizeUpdate node w.ctx.untypedTables = .ok (node', true) →
      node'.tableName ∈ w.ctx.deleteCounterPerTable → Evaluates (scanned node') f.records →
      (keysAfterUpdate t f node').Nodup
  | _ => True

/-- The keys of some records. -/
abbrev keysOf (rs : List (TableRecord n)) : List Bytes := rs.map fun r => r.pkLiteral

theorem keysOf_rewritten {node : UpdateNode} {matched news : List (TableRecord n)}
    (rows : news.map (fun r => r.row) = matched.map fun r => rewrittenRow t node r.row) :
    keysOf news = matched.map fun r => rewrittenKey t node r.row := by
  have keys := congrArg (List.map fun row : Record => row.headD []) rows
  rw [List.map_map, List.map_map] at keys
  refine keys.trans (List.map_congr_left fun r _ => ?_)
  have inside : t.pkIdx < r.row.length := by
    rw [r.length_row, ← t.width]
    exact t.pkIdx_lt
  change removeOuterQuotes (((updatedRow node r.row)[t.pkIdx]?).getD []) = _
  rw [getElem?_updatedRow node inside]
  rfl

theorem RowsAfter.distinct {stmt : Statement} {rows : List (TableRecord n)}
    (after : RowsAfter env t w f stmt rows) (brings : BringsNewKeys t f w stmt)
    (old : (keysOf (liveRecords f.records)).Nodup) : (keysOf rows).Nodup := by
  have appended {type : RecordType} {mask : List Bool} {records : List ValueRecordNode} {rs : List (TableRecord n)}
      (new : NewKeys t f.records mask records) (appended : Appended t type mask records rs) :
      (keysOf (liveRecords f.records ++ rs)).Nodup := by
    obtain ⟨distinct, others⟩ := (newKeys_iff appended).mp new
    rw [keysOf, List.map_append, List.nodup_append']
    refine ⟨old, distinct, fun key there here => ?_⟩
    obtain ⟨r, hr, rfl⟩ := List.mem_map.mp here
    exact others r hr there
  cases after with
  | fewer kept => exact (kept.map _).nodup old
  | inserted normalized _ written =>
      rw [BringsNewKeys, normalized] at brings
      exact appended brings written
  | imported written => exact appended brings written
  | @updated node node' rs normalized valid complete written =>
      have evaluates : Evaluates (scanned node') f.records := evaluates_of_complete complete
      have marks : updateMarks env w node' f.records = ⟨markMatching (accepts (scanned node')) f.records,
          (liveRecords f.records).filter (accepts (scanned node')), none⟩ := scanMarks_of_complete evaluates complete
      have news := keysOf_rewritten (updatedRecords_rows written)
      rw [marks] at news ⊢
      rw [keysOf, List.map_append, liveRecords_markMatching, show rs.map (fun r => r.pkLiteral) = _ from news]
      rcases (scanMarks_complete_iff _ evaluates).mp complete with counted | nothing
      · exact brings node' normalized ((missingFault_eq_none_iff env).mp counted) evaluates
      · have none_ : (liveRecords f.records).filter (accepts (scanned node')) = [] :=
          List.filter_eq_nil_iff.mpr fun r hr => Bool.eq_false_iff.mp (nothing r hr)
        dsimp only
        rw [none_, List.map_nil, List.append_nil]
        exact (List.filter_sublist.map _).nodup old

/-- `INSERT` of these two keys, the other column left empty. -/
def insertKeys (keys : List LiteralNode) : InsertNode := ⟨ascii "t", none, keys.map fun key => [some key], []⟩

def insertedKeys (keys : List LiteralNode) : InsertNode :=
  ⟨ascii "t", some [ascii "id", ascii "name"], keys.map fun key => [some key, some emptyLiteral], [true, true]⟩

theorem eq_pairSchema {t : TableSchema n} (same : t.schema = pairSchema.schema) : ∃ one : 1 = n, t = one ▸ pairSchema := by
  have width := t.width
  rw [same] at width
  obtain rfl : 1 = n := Nat.succ.inj width
  exact ⟨rfl, TableSchema.eq_of_schema same⟩

theorem createPair_sound : ∃ w', Step ⟨false, id⟩ (.create ⟨ascii "t", pairSchema.schema⟩) emptyDatabase w' ∧
    Sound pairSchema (ascii "t") w' (.fresh []) (TableFile.fresh (n := 1) []).index := by
  have runs : ∃ w', Step ⟨false, id⟩ (.create ⟨ascii "t", pairSchema.schema⟩) emptyDatabase w' := ⟨_, _, rfl⟩
  obtain ⟨w', step⟩ := runs
  obtain ⟨n, t, same, sound⟩ := step.create_sound (by rintro ⟨⟩) (by rintro ⟨⟩) rfl rfl
  obtain ⟨rfl, rfl⟩ := eq_pairSchema same
  exact ⟨w', step, sound⟩

/-- The record of this key that the statement stores. -/
def keyRecord : TableRecord 1 := pairRecord (ascii "1") [] (by decide)

theorem insertKeys_normalized (keys : List LiteralNode)
    (known : w.ctx.untypedTables.lookup (ascii "t") = some pairSchema.schema) :
    normalizeInsert (insertKeys keys) w.ctx.untypedTables = (insertedKeys keys, .normalized) := by
  have records : normalizeRecords pairSchema.schema [ascii "id", ascii "name"] (keys.map fun key => [some key]) =
      ((insertedKeys keys).records, true) := by
    induction keys with
    | nil => rfl
    | cons key keys ih =>
        rw [List.map_cons, normalizeRecords, ih]
        rfl
  have mask : projectionMaskOf pairSchema.schema [ascii "id", ascii "name"] [false, false] = .ok [true, true] := rfl
  rw [normalizeInsert, show w.ctx.untypedTables.lookup (insertKeys keys).tableName = _ from known]
  dsimp only [insertKeys, Option.getD_none]
  rw [show columnNames pairSchema.schema = [ascii "id", ascii "name"] from rfl,
    show List.replicate pairSchema.schema.length false = [false, false] from rfl, mask]
  dsimp only
  rw [records]
  rfl

/-- The keys are checked against the index, as they are written. -/
theorem insertKeys_valid {keys : List LiteralNode} {f : TableFile 1} (sound : Sound pairSchema (ascii "t") w f f.index)
    (valid : validateRecords (ascii "t") f.index [true, true] pairSchema.schema (insertedKeys keys).records [] =
      .ok none) : validateInsertSemantics (insertedKeys keys) w.ctx = .ok none := by
  obtain ⟨columns, hc, hi⟩ := sound.index
  have index := primaryKeyIndexOf_eq hc hi
  rw [validateInsertSemantics, show w.ctx.untypedTables.lookup (insertedKeys keys).tableName = _ from
    sound.registered.schema]
  dsimp only
  rw [show primaryKeyIndexOf w.ctx (insertedKeys keys).tableName pairSchema.schema = _ from index, ok_bind]
  exact valid

end Jssql.InterpreterVisitor
