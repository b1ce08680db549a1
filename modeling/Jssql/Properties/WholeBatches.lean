import Jssql.Theory.AcceptedRecords

/-!
A batch of records that `INSERT` writes. The records go to the file and the index one by
one, and an accepted record fails only where a default is taken that cannot be cut out of
its modifier. A batch that fails behind its first record has been written in part.
-/
namespace Jssql.FileHandler
open Foundation SemanticNormalizer SemanticValidator

variable {n : Nat} {w : World} {t : TableSchema n} {f : TableFile n} {idx : Index}
  {record : ValueRecordNode} {projectionMask : List Bool}

/-! The statement -/

/-- All records are appended and indexed; or the statement ends with an exception, and the
file and the index are as they were. -/
def AllOrNothing (env : Env) (w : World) (t : TableSchema n) (f : TableFile n) (idx : Index) (node : InsertNode) :
    Prop :=
  (∃ (w' : World) (rs : List (TableRecord n)), (insertData env node).run w = .ok () w' ∧
    List.Forall₂ (fun record r => writtenRecord t .insert node.projectionMask record = .ok r.toStoredRecord)
      node.records rs ∧
    HasFile w' node.tableName (f.withRecords (f.records ++ rs)) ∧
    HasIndex w' node.tableName t (insertAll idx (liveEntries f.bytes.length rs))) ∨
  ∃ (e : Exception) (w' : World), (insertData env node).run w = .error (.exception e) w' ∧
    HasFile w' node.tableName f ∧ HasIndex w' node.tableName t idx

theorem nil_of_bytes {rs : List (TableRecord n)} (same : f.bytes = (f.withRecords (f.records ++ rs)).bytes) :
    rs = [] := by
  have records := length_of_encodeAll (List.append_cancel_left same)
  rw [TableFile.withRecords_records, List.length_append] at records
  exact List.eq_nil_of_length_eq_zero (by omega)

/-- A batch that stops behind a written record is neither. -/
theorem not_allOrNothing_of_written (env : Env) {node : InsertNode} (sound : Sound t node.tableName w f idx)
    {rs : List (TableRecord n)} (appended : Appended t .insert node.projectionMask node.records rs) {e : Fault}
    (stop : (writtenRecords t .insert node.projectionMask node.records).2 = some e) (written : rs ≠ []) :
    ¬ AllOrNothing env w t f idx node := by
  obtain ⟨v, run, -, -, sound'⟩ := sound.insertRecords env (.inl rfl) appended
  have inserted : (insertData env node).run w = .error e v := by
    rw [insertData, run_bind_ok (ensureTableFileExists_run sound.file), run, stop]
    rfl
  rintro (⟨w', rs', run', -⟩ | ⟨e', w', run', file, -⟩)
  · rw [inserted] at run'
    cases run'
  · rw [inserted] at run'
    cases run'
    exact written (nil_of_bytes (Option.some.inj (file.symm.trans sound'.file)))

section Statement

variable (env : Env) {node node' : InsertNode} (sound : Sound t node.tableName w f idx)
  (normalized : normalizeInsert node w.ctx.untypedTables = (node', .normalized))
  (valid : validateInsertSemantics node' w.ctx = .ok none)

include sound normalized valid

/-- An accepted batch is written whole or not at all if and only if all its defaults can be
read or its first record takes one that cannot. -/
theorem allOrNothing_iff (fits : Fits t f w (.insert node)) :
    AllOrNothing env w t f idx node' ↔
      (∀ record ∈ node'.records, DefaultsReadable t record node'.projectionMask) ∨
      ∃ first rest, node'.records = first :: rest ∧ ¬ DefaultsReadable t first node'.projectionMask := by
  have name := (normalizeInsert_ok sound.registered.schema normalized).1
  have each := accepted_records sound normalized valid
  rw [Fits, normalized] at fits
  obtain ⟨rs, appended⟩ := writtenRecords_appended (.inl rfl) node'.records fits
  rw [← name] at sound
  obtain ⟨v, run, -, -, sound'⟩ := sound.insertRecords env (.inl rfl) appended
  have inserted : (insertData env node').run w =
      stopped (writtenRecords t .insert node'.projectionMask node'.records).2 v := by
    rw [insertData, run_bind_ok (ensureTableFileExists_run sound.file), run]
  cases stop : (writtenRecords t .insert node'.projectionMask node'.records).2 with
  | none =>
      rw [stop] at inserted
      have all := (writtenRecords_complete_iff node'.records).mp stop
      refine iff_of_true (.inl ⟨v, rs, inserted, ?_, sound'.file, sound'.index⟩)
        (.inl fun record mem => (each record mem).1.mp (all record mem))
      have written := writtenRecords_all stop
      rw [← appended.stored] at written
      have pairs := List.forall₂_map_right_iff.mp written
      exact pairs
  | some e =>
      rw [stop] at inserted
      obtain ⟨record, mem, failed⟩ := mem_of_writtenRecords_stop stop
      obtain rfl := (each record mem).2 e failed
      have unreadable : ¬ ∀ record ∈ node'.records, DefaultsReadable t record node'.projectionMask := by
        intro readable
        obtain ⟨r, ok⟩ := (each record mem).1.mpr (readable record mem)
        rw [failed] at ok
        cases ok
      have first : rs = [] ↔ ∃ first rest, node'.records = first :: rest ∧
          ¬ DefaultsReadable t first node'.projectionMask := by
        rw [← List.map_eq_nil_iff (f := fun r : TableRecord n => r.toStoredRecord), appended.stored,
          writtenRecords_nil_iff stop]
        refine exists_congr fun first => exists_congr fun rest => and_congr_right fun same => ?_
        exact not_congr (each first (same ▸ List.mem_cons_self)).1
      rw [or_iff_right unreadable, ← first]
      constructor
      · intro whole
        by_contra written
        exact not_allOrNothing_of_written env sound appended stop written whole
      · rintro rfl
        refine .inr ⟨.substr, v, inserted, ?_, sound'.index⟩
        have file := sound'.file
        rwa [List.append_nil] at file

end Statement

/-- Two records of a table without defaults. -/
theorem allOrNothing_iff_pair :
    let file := pairFile [] (ascii "x") (by decide)
    let w := singleTable (ascii "people") pairSchema file ∅
    let node : InsertNode := ⟨ascii "people", none,
      [[some ⟨.number, ascii "1"⟩], [some ⟨.number, ascii "2"⟩]], []⟩
    ∃ node', normalizeInsert node w.ctx.untypedTables = (node', .normalized) ∧
      AllOrNothing ⟨false, id⟩ w pairSchema file file.index node' := by
  intro file w node
  let node' : InsertNode := ⟨ascii "people", some [ascii "id", ascii "name"],
    [[some ⟨.number, ascii "1"⟩, some emptyLiteral], [some ⟨.number, ascii "2"⟩, some emptyLiteral]], [true, true]⟩
  have normalized : normalizeInsert node w.ctx.untypedTables = (node', .normalized) := rfl
  have valid : validateInsertSemantics node' w.ctx = .ok none := rfl
  have sound : Sound pairSchema node.tableName w file file.index :=
    singleTable_sound _ _ _ _ (pairFile_indexed _ _ _)
  have two : (writtenRecords pairSchema .insert node'.projectionMask node'.records).1 =
      [storedRecord pairSchema .insert (ascii "1") [[]], storedRecord pairSchema .insert (ascii "2") [[]]] := rfl
  have fits : Fits pairSchema file w (.insert node) := by
    rw [Fits, normalized]
    intro r mem
    rw [two] at mem
    rcases List.mem_pair.mp mem with rfl | rfl <;> decide
  refine ⟨node', normalized, (allOrNothing_iff ⟨false, id⟩ sound normalized valid fits).mpr (.inl ?_)⟩
  intro record _ i col column other _
  rcases i with _ | _ | i
  · exact absurd rfl other
  · cases column
    exact ⟨[], rfl⟩
  · cases column

/-- A table with `name DEFAULT`, the literal left out. -/
def defaultSchema : TableSchema 1 where
  schema := [⟨ascii "id", [ascii "PRIMARY KEY"]⟩, ⟨ascii "name", [ascii "DEFAULT "]⟩]
  pkColName := ascii "id"
  width := rfl
  few := by decide
  key := by decide

/-- The second record takes that default: the first one stays. -/
theorem not_allOrNothing :
    let file : TableFile 1 := .fresh []
    let w := singleTable (ascii "people") defaultSchema file ∅
    let node : InsertNode := ⟨ascii "people", none,
      [[some ⟨.number, ascii "1"⟩, some ⟨.string, ascii "'x'"⟩], [some ⟨.number, ascii "2"⟩]], []⟩
    ∃ node', normalizeInsert node w.ctx.untypedTables = (node', .normalized) ∧
      validateInsertSemantics node' w.ctx = .ok none ∧
      ¬ AllOrNothing ⟨false, id⟩ w defaultSchema file file.index node' := by
  intro file w node
  let node' : InsertNode := ⟨ascii "people", some [ascii "id", ascii "name"],
    [[some ⟨.number, ascii "1"⟩, some ⟨.string, ascii "'x'"⟩], [some ⟨.number, ascii "2"⟩, some emptyLiteral]],
    [true, true]⟩
  have normalized : normalizeInsert node w.ctx.untypedTables = (node', .normalized) := rfl
  have sound : Sound defaultSchema node'.tableName w file file.index :=
    singleTable_sound _ _ _ _ (by rintro r ⟨⟩)
  have one : writtenRecords defaultSchema .insert node'.projectionMask node'.records =
      ([storedRecord defaultSchema .insert (ascii "1") [ascii "x"]], some (.exception .substr)) := rfl
  obtain ⟨rs, appended⟩ := writtenRecords_appended (t := defaultSchema) (.inl rfl) node'.records fun r mem => by
    rw [one] at mem
    rw [List.mem_singleton.mp mem]
    decide
  have written : rs ≠ [] := by
    rintro rfl
    exact List.cons_ne_nil _ _ (appended.stored.trans (congrArg Prod.fst one)).symm
  exact ⟨node', normalized, rfl,
    not_allOrNothing_of_written ⟨false, id⟩ sound appended (congrArg Prod.snd one) written⟩

end Jssql.FileHandler
