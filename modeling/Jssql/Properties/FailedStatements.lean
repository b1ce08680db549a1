import Jssql.Theory.MarkedBytes
import Jssql.Theory.StoredValues
import Jssql.Theory.TextRecords

/-!
The index after a statement that ends with an exception. A scan that is stopped has
marked records and does not come to the rebuild, so the index has keys that are gone.
`INSERT` enters the keys as it goes and the rebuild keeps the first record of a key.
-/
namespace Jssql.FileHandler
open Foundation SemanticNormalizer SemanticValidator StrategyDecider InterpreterVisitor

variable {n : Nat} {w w' : World} {t : TableSchema n} {f : TableFile n} {idx : Index} {table : Bytes}

/-! Marks and the index -/

/-- Where the scan comes to the first live record of a key, that record does not match. -/
def FirstsRejected (isMatch : TableRecord n → Except Fault Bool) (rs : List (TableRecord n)) : Prop :=
  ∀ before r after, rs = before ++ r :: after → r.isTombstone = false → Evaluates isMatch before →
    (∀ s ∈ liveRecords before, s.pkLiteral ≠ r.pkLiteral) → accepts isMatch r = false

/-- As it is with a single record on which the comparison throws. -/
theorem firstsRejected_of_throws {isMatch : TableRecord n → Except Fault Bool} {r : TableRecord n} {e : Fault}
    (throws : isMatch r = .error e) : FirstsRejected isMatch [r] := by
  intro before s after whole live evaluates others
  have mem : s ∈ [r] := whole ▸ List.mem_append_right before List.mem_cons_self
  obtain rfl := List.mem_singleton.mp mem
  rw [accepts, throws]

section Marks

variable {isMatch : TableRecord n → Except Fault Bool}

/-- The entry of a key stays where its first live record is not marked. -/
theorem firstOf_scanMarks (key : Bytes) {rs : List (TableRecord n)} : ∀ start : Nat,
    (∀ before r after, rs = before ++ r :: after → r.isTombstone = false → Evaluates isMatch before →
      r.pkLiteral = key → (∀ s ∈ liveRecords before, s.pkLiteral ≠ key) → accepts isMatch r = false) →
    firstOf key (liveEntries start (scanMarks isMatch none rs).records) = firstOf key (liveEntries start rs) := by
  induction rs with
  | nil => intro start _; rfl
  | cons r rest ih =>
      intro start rejected
      have later (evaluates : Evaluates isMatch [r]) (other : ∀ s ∈ liveRecords [r], s.pkLiteral ≠ key) :
          firstOf key (liveEntries (start + r.encode.length) (scanMarks isMatch none rest).records) =
            firstOf key (liveEntries (start + r.encode.length) rest) := by
        refine ih _ fun before s after whole live front same others => ?_
        subst whole
        refine rejected (r :: before) s after rfl live ?_ same ?_
        · intro s' mem
          rw [← List.singleton_append, liveRecords_append, List.mem_append] at mem
          exact mem.elim (evaluates s') (front s')
        · intro s' mem
          rw [← List.singleton_append, liveRecords_append, List.mem_append] at mem
          exact mem.elim (other s') (others s')
      cases state : r.isTombstone with
      | true =>
          have none_ : liveRecords [r] = [] := liveRecords_cons_tombstone state []
          rw [scanMarks_tombstone _ state, liveEntries, liveEntries, if_pos state, if_pos state]
          exact later (by rw [Evaluates, none_]; rintro _ ⟨⟩) (by rw [none_]; rintro _ ⟨⟩)
      | false =>
          have one : liveRecords [r] = [r] := liveRecords_cons_live state []
          cases answer : isMatch r with
          | error e => rw [scanMarks_throws _ state answer]
          | ok b =>
              have evaluates : Evaluates isMatch [r] := by
                rw [Evaluates, one]
                exact List.forall_mem_singleton.mpr ⟨b, answer⟩
              have dead : ¬ r.isTombstone = true := by rw [state]; exact Bool.false_ne_true
              by_cases same : key = r.pkLiteral
              · subst same
                have no := rejected [] r rest rfl state (by rintro _ ⟨⟩) rfl (by rintro _ ⟨⟩)
                rw [accepts_of_ok answer] at no
                subst no
                rw [scanMarks_rejects _ state answer, liveEntries, liveEntries, if_neg dead, if_neg dead,
                  firstOf_cons, firstOf_cons, if_pos rfl]
                rfl
              · have tail := later evaluates (by rw [one]; exact List.forall_mem_singleton.mpr (Ne.symm same))
                cases b with
                | false =>
                    rw [scanMarks_rejects _ state answer, liveEntries, liveEntries, if_neg dead, if_neg dead,
                      firstOf_cons, firstOf_cons, tail]
                | true =>
                    rw [scanMarks_counts _ state answer, liveEntries, liveEntries, if_pos (by rfl), if_neg dead,
                      firstOf_cons, if_neg same, Option.none_or, TableRecord.marked_toStoredRecord,
                      StoredRecord.marked_encode_length]
                    exact tail

/-- The index of the marked file is that of the old one if and only if no first record of a key
is marked. -/
theorem index_scanMarks_iff : (f.withRecords (scanMarks isMatch none f.records).records).index = f.index ↔
    FirstsRejected isMatch f.records := by
  constructor
  · intro same before r after whole live evaluates others
    by_contra accepted
    rw [Bool.not_eq_false] at accepted
    have answer : isMatch r = .ok true := by
      rw [accepts] at accepted
      cases answer : isMatch r with
      | error e => rw [answer] at accepted; cases accepted
      | ok b => rw [answer] at accepted; rw [show b = true from accepted]
    have old := index_lookup_first whole live others
    rw [f.header_length] at old
    have copies : MarkedFrom before (markMatching (accepts isMatch) before) := by
      have scan := MarkedFrom.scan isMatch none before
      rwa [scanMarks_all evaluates] at scan
    have marks : (scanMarks isMatch none f.records).records =
        markMatching (accepts isMatch) before ++ r.marked :: (scanMarks isMatch none after).records := by
      rw [whole, scanMarks_append evaluates, scanMarks_counts _ live answer]
    rw [← same, TableFile.index_lookup, TableFile.withRecords_records, marks,
      (liveEntries_mark _ _ live 32).2] at old
    rcases List.mem_append.mp (mem_of_firstOf old) with front | behind
    · have bound := (liveEntries_offset_lt front).2
      rw [copies.length_encodeAll] at bound
      simp only at bound
      omega
    · have bound := (liveEntries_offset_lt behind).1
      rw [copies.length_encodeAll, StoredRecord.length_encode] at bound
      simp only at bound
      omega
  · intro rejected
    refine Finmap.ext_lookup fun key => ?_
    rw [TableFile.index_lookup, TableFile.index_lookup]
    refine firstOf_scanMarks key 32 fun before r after whole live evaluates same others => ?_
    exact rejected before r after whole live evaluates (by rwa [same])

end Marks

/-! New keys -/

/-- The index that `INSERT` leaves is that of the file if and only if the keys are new. -/
theorem insertAll_index_iff {rs : List (TableRecord n)} (live : ∀ r ∈ rs, r.isTombstone = false) :
    insertAll f.index (liveEntries f.bytes.length rs) = (f.withRecords (f.records ++ rs)).index ↔
      (rs.map fun r => r.pkLiteral).Nodup ∧ ∀ r ∈ rs, r.pkLiteral ∉ f.index := by
  have all : liveRecords rs = rs := List.filter_eq_self.mpr fun r hr => by simp [isLive, live r hr]
  have keys := map_fst_liveEntries rs f.bytes.length
  rw [all] at keys
  constructor
  · intro same
    rw [f.index_append, ← f.length_bytes] at same
    have fresh : ∀ entry ∈ liveEntries f.bytes.length rs, ∀ k, f.index.lookup k ≠ some entry.2 := by
      intro entry mem k found
      rw [TableFile.index_lookup] at found
      have old := (liveEntries_offset_lt (mem_of_firstOf found)).2
      have new := (liveEntries_offset_lt mem).1
      rw [f.length_bytes] at new
      simp only at old
      omega
    obtain ⟨distinct, new⟩ := new_of_insertAll_eq _ _ (liveEntries_offsets_nodup _ _) fresh same
    refine ⟨keys ▸ distinct, fun r hr => ?_⟩
    have mem : r.pkLiteral ∈ (liveEntries f.bytes.length rs).map Prod.fst := keys ▸ List.mem_map_of_mem hr
    obtain ⟨entry, he, key⟩ := List.mem_map.mp mem
    exact key ▸ new entry he
  · rintro ⟨distinct, new⟩
    exact index_appended f distinct new live

/-! Statements -/

/-- What a statement that fails must not have done before: entered a key that is there, or
marked the first record of one. -/
def FailsHarmlessly (t : TableSchema n) (w : World) (f : TableFile n) : Statement → Prop
  | .insert node => NewKeys t f.records (normalizeInsert node w.ctx.untypedTables).1.projectionMask
      (normalizeInsert node w.ctx.untypedTables).1.records
  | .delete node => ∀ node', normalizeDelete node w.ctx.untypedTables = (node', true) →
      isUniqueEqualityLookup node'.optWhereNode t.pkColName = false →
      FirstsRejected (deleteMatches t node'.optWhereNode) f.records
  | .update node => ∀ node', normalizeUpdate node w.ctx.untypedTables = .ok (node', true) →
      FirstsRejected (scanned node') f.records
  | _ => True

/-- `INSERT`, `DELETE` and `UPDATE`. -/
def Modifies : Statement → Prop
  | .insert _ | .delete _ | .update _ => True
  | _ => False

theorem missingCounter_ne_exception (env : Env) (e : Exception) : missingCounter env ≠ .exception e := by
  unfold missingCounter
  split <;> simp

/-- The program has failed in its first part. -/
theorem failed_of_respond {p : Exec Unit} {e : Fault}
    (failed : (do p; return {} : Exec Response).run w = .error e w') : p.run w = .error e w' := by
  rw [EStateM.run_bind] at failed
  cases run : p.run w with
  | ok u v => rw [run] at failed; cases failed
  | error e' v => rw [run] at failed; cases failed; rfl

/-- The upkeep throws nothing. -/
theorem Sound.compactIfNecessary_throws (env : Env) {e : Exception} (sound : Sound t table w f idx) :
    (FileHandler.compactIfNecessary env table t.pkColName).run w ≠ .error (.exception e) w' := by
  cases counter : w.ctx.deleteCounterPerTable.lookup table with
  | none =>
      rw [compactIfNecessary_missing env t sound.index counter]
      exact fun failed => missingCounter_ne_exception env e (EStateM.Result.error.inj failed).1
  | some count =>
      rw [compactIfNecessary_run env t f sound.file sound.registered.schema sound.index counter sound.noNewFile]
      exact fun failed => by cases failed

theorem Sound.maintain_throws (env : Env) {e : Exception} (sound : Sound t table w f idx) :
    (FileHandler.maintain env table t.pkColName).run w ≠ .error (.exception e) w' := by
  rw [FileHandler.maintain,
    run_bind_ok (recalculateIndicesForTable_run env t f sound.file sound.registered.schema)]
  exact sound.rebuilt.compactIfNecessary_throws env

section Failure

variable (env : Env) {e : Exception}

theorem insertData_failed_iff {node node' : InsertNode} (sound : Sound t node.tableName w f f.index)
    (normalized : normalizeInsert node w.ctx.untypedTables = (node', .normalized))
    (fits : Fits t f w (.insert node)) (failed : (insertData env node').run w = .error (.exception e) w') :
    IndexIsRebuilt env w' node'.tableName t ↔ NewKeys t f.records node'.projectionMask node'.records := by
  have name := normalizeInsert_tableName normalized
  rw [Fits, normalized] at fits
  obtain ⟨rs, appended⟩ := writtenRecords_appended (.inl rfl) node'.records fits
  rw [newKeys_iff appended]
  rw [← name] at sound
  obtain ⟨v, run, -, -, sound'⟩ := sound.insertRecords env (.inl rfl) appended
  have final : w' = v := by
    rw [insertData, run_bind_ok (ensureTableFileExists_run sound.file), run] at failed
    have last := congrArg finalState failed
    rw [finalState_stopped] at last
    exact last.symm
  subst final
  simp only [← f.mem_index]
  rw [indexIsRebuilt_iff sound'.file, ← insertAll_index_iff appended.live]
  constructor
  · intro index
    exact sound'.index.unique index
  · intro same
    exact same ▸ sound'.index

/-- A scan that was stopped and the index, which it has not changed. -/
theorem marked_failed_iff {isMatch : TableRecord n → Except Fault Bool} (sound : Sound t table w f f.index)
    {marks : Marks n} (scan : marks = scanMarks isMatch (missingFault env w table) f.records)
    (stop : marks.stop = some (.exception e)) :
    IndexIsRebuilt env (markedState w table f marks) table t ↔ FirstsRejected isMatch f.records := by
  subst scan
  have counted : scanMarks isMatch (missingFault env w table) f.records = scanMarks isMatch none f.records := by
    refine scanMarks_counted env ?_
    rw [stop]
    exact fun same => missingCounter_ne_exception env e (Option.some.inj same).symm
  have sound' := sound.marked (.scan isMatch (missingFault env w table) f.records)
    (scanMarks isMatch (missingFault env w table) f.records).matched.length
  rw [indexIsRebuilt_iff (markedState_hasFile ..), ← index_scanMarks_iff (f := f), ← counted]
  constructor
  · intro index
    exact index.unique sound'.index
  · intro same
    rw [same]
    exact sound'.index

theorem deleteData_failed_iff {node' : DeleteNode} (sound : Sound t node'.tableName w f f.index)
    (column : ColumnKnown t node'.optWhereNode)
    (failed : (deleteData env node').run w = .error (.exception e) w') :
    IndexIsRebuilt env w' node'.tableName t ↔
      (isUniqueEqualityLookup node'.optWhereNode t.pkColName = false →
        FirstsRejected (deleteMatches t node'.optWhereNode) f.records) := by
  cases lookup : isUniqueEqualityLookup node'.optWhereNode t.pkColName with
  | true =>
      refine iff_of_true ?_ fun no => by cases no
      cases condition : node'.optWhereNode with
      | none => rw [condition] at lookup; cases lookup
      | some where_ =>
          obtain ⟨cond⟩ := where_
          have isKey : cond.colName = t.pkColName := by
            rw [condition, isUniqueEqualityLookup, Bool.and_eq_true, beq_iff_eq] at lookup
            exact lookup.1
          cases found : f.index.lookup (removeOuterQuotes cond.literal.value) with
          | none =>
              rw [sound.deleteByKey_missing env condition isKey lookup found] at failed
              cases failed
              exact (indexIsRebuilt_iff sound.file).mpr sound.index
          | some offset =>
              obtain ⟨before, r, after, records, at_⟩ := sound.places _ _ found
              obtain ⟨v, -, sound', -, run⟩ := sound.deleteByKey_run env condition isKey lookup found records at_
              rw [run] at failed
              cases counter : v.ctx.deleteCounterPerTable.lookup node'.tableName with
              | none =>
                  rw [run_bind_error (getDeleteCountForTable_none env counter)] at failed
                  exact absurd (EStateM.Result.error.inj failed).1 (missingCounter_ne_exception env e)
              | some count =>
                  have counted : SameElsewhere node'.tableName v _ := .setCounters _ (1 + count) v
                  have sound'' := sound'.next counted sound'.file sound'.index sound'.places sound'.indexed
                  rw [run_bind_ok (getDeleteCountForTable_some env counter)] at failed
                  exact absurd failed (sound''.compactIfNecessary_throws env)
  | false =>
      rw [forall_prop_of_true rfl]
      rw [deleteData_sequential env sound.registered sound.file sound.indexed column lookup] at failed
      dsimp only at failed
      cases stop : (deleteMarks env w t node' f.records).stop with
      | some e' =>
          rw [stop] at failed
          cases failed
          exact marked_failed_iff env sound rfl stop
      | none =>
          have sound' := sound.marked (.scan (deleteMatches t node'.optWhereNode)
            (missingFault env w node'.tableName) f.records) (deleteMarks env w t node' f.records).matched.length
          rw [stop] at failed
          exact absurd failed (sound'.maintain_throws env)

theorem updateData_failed_iff {node' : UpdateNode} (sound : Sound t node'.tableName w f f.index)
    (ready : UpdateReady (n + 1) node'.inverseProjMask node'.schemaIndexToLiteralMap)
    {rs : List (TableRecord n)} (appended : Appended t .update (allColumns t)
      (updatedRecords node' (updateMarks env w node' f.records).matched) rs)
    (failed : (updateData env node').run w = .error (.exception e) w') :
    IndexIsRebuilt env w' node'.tableName t ↔ FirstsRejected (scanned node') f.records := by
  rw [updateData_run env sound.registered.schema sound.file ready] at failed
  dsimp only at failed
  cases stop : (updateMarks env w node' f.records).stop with
  | some e' =>
      rw [stop] at failed
      cases failed
      exact marked_failed_iff env sound rfl stop
  | none =>
      have sound' := sound.marked (.scan (scanned node') (missingFault env w node'.tableName) f.records)
        (updateMarks env w node' f.records).matched.length
      obtain ⟨v, run, -, -, sound''⟩ := sound'.insertRecords env (.inr rfl) appended
      rw [updatedRecords_complete] at run
      rw [stop] at failed
      exact absurd ((run_bind_ok run _).symm.trans failed) (sound''.maintain_throws env)

/-- After a statement that ends with an exception the index in memory is the one built from
the file if and only if the statement has failed harmlessly, or is about another table. -/
theorem indexIsRebuilt_failed_iff {stmt : Statement} {handler : Exec Response}
    (sound : Sound t table w f idx) (rebuilt : IndexIsRebuilt env w table t)
    (executes : Executes env w stmt handler) (modifies : Modifies stmt)
    (fits : stmt.tableName = table → Fits t f w stmt) (failed : handler.run w = .error (.exception e) w') :
    IndexIsRebuilt env w' table t ↔ (stmt.tableName = table → FailsHarmlessly t w f stmt) := by
  obtain rfl := sound.index.unique ((indexIsRebuilt_iff sound.file).mp rebuilt)
  by_cases of : stmt.tableName = table
  · rw [forall_prop_of_true of]
    have fits := fits of
    cases executes with
    | create | drop | select | csvImport => exact modifies.elim
    | @insert node node' normalized valid =>
        rw [show table = node.tableName from of.symm] at sound ⊢
        have iff_ := insertData_failed_iff env sound normalized fits (failed_of_respond failed)
        rw [FailsHarmlessly, normalized]
        rwa [normalizeInsert_tableName normalized] at iff_
    | @delete node node' normalized valid =>
        rw [show table = node.tableName from of.symm] at sound ⊢
        obtain ⟨name, where_, columns⟩ := normalizeDelete_ok sound.registered.schema normalized
        have column : ColumnKnown t node'.optWhereNode := by
          rw [where_]
          intro v hv
          obtain ⟨v', given, rfl⟩ := Option.map_eq_some_iff.mp hv
          exact columns v' given
        rw [← name] at sound ⊢
        rw [deleteData_failed_iff env sound column (failed_of_respond failed), FailsHarmlessly, normalized]
        constructor
        · rintro harmless _ ⟨⟩
          exact harmless
        · intro harmless
          exact harmless node' rfl
    | @update node node' normalized valid =>
        rw [show table = node.tableName from of.symm] at sound ⊢
        obtain ⟨name, ready, where_⟩ := normalizeUpdate_ok sound.registered.schema normalized
        obtain ⟨rs, appended⟩ := writtenRecords_appended (.inr rfl)
          (updatedRecords node' (updateMarks env w node' f.records).matched) fun r hr => by
            obtain ⟨record, mem, written⟩ := mem_writtenRecords hr
            obtain ⟨old, hold, rfl⟩ := List.mem_map.mp mem
            exact fits node' normalized old (mem_matched hold).1 r written
        rw [← name] at sound ⊢
        rw [updateData_failed_iff env sound ready appended (failed_of_respond failed), FailsHarmlessly, normalized]
        constructor
        · rintro harmless _ ⟨⟩
          exact harmless
        · intro harmless
          exact harmless node' rfl
  · refine iff_of_true ?_ fun same => absurd same of
    have keeps : stmt.KeepsTables := by
      cases stmt <;> first | exact trivial | exact modifies.elim
    obtain ⟨state, newFile⟩ := (executes.keeps keeps (framed_elsewhere (Ne.symm of) w)).final ⟨rfl, rfl⟩
    rw [failed] at state newFile
    have sound' := sound.congr state newFile
    exact (indexIsRebuilt_iff sound'.file).mpr sound'.index

/-- A `DELETE` whose scan comes to a record on which the comparison throws. -/
theorem deleteData_throws {node : DeleteNode} (sound : Sound t node.tableName w f idx)
    (column : ColumnKnown t node.optWhereNode)
    (lookup : isUniqueEqualityLookup node.optWhereNode t.pkColName = false)
    (counted : node.tableName ∈ w.ctx.deleteCounterPerTable) {before after : List (TableRecord n)} {r : TableRecord n}
    (whole : f.records = before ++ r :: after) (evaluates : Evaluates (deleteMatches t node.optWhereNode) before)
    (live : r.isTombstone = false) {e : Fault} (throws : deleteMatches t node.optWhereNode r = .error e) :
    ∃ w', (deleteData env node).run w = .error e w' := by
  have stop : (deleteMarks env w t node f.records).stop = some e := by
    rw [deleteMarks, (missingFault_eq_none_iff env).mpr counted, whole, scanMarks_throwing evaluates live throws]
  rw [deleteData_sequential env sound.registered sound.file sound.indexed column lookup]
  dsimp only
  rw [stop]
  exact ⟨_, rfl⟩

end Failure

/-! A key out of range -/

/-- `DELETE ... WHERE id > 5`. -/
def deleteAbove : DeleteNode := ⟨ascii "people", some ⟨ascii "id", .gt, ⟨.number, ascii "5"⟩, 255⟩⟩

def deleteAboveNormalized : DeleteNode := ⟨ascii "people", some ⟨ascii "id", .gt, ⟨.number, ascii "5"⟩, 0⟩⟩

theorem deleteAbove_first : deleteMatches pairSchema deleteAboveNormalized.optWhereNode
    (pairRecord (ascii "7") (ascii "x") (by decide)) = .ok true := by
  decide +kernel

theorem deleteAbove_second : deleteMatches pairSchema deleteAboveNormalized.optWhereNode
    (pairRecord (ascii "1e999") (ascii "x") (by decide)) = .error (.exception .stod) := by
  decide +kernel

/-- The database with one table that has these keys, and a counter. -/
def keysTable (keys : List Bytes) (short : ∀ key ∈ keys, key.length + (ascii "x").length < 2 ^ 62) : World :=
  singleTable (ascii "people") pairSchema (pairFile keys (ascii "x") short) (Finmap.insert (ascii "people") 0 ∅)

/-- The statement is accepted whatever the keys are, and its scan throws on such a key. -/
theorem deleteAbove_fails (keys : List Bytes) (short : ∀ key ∈ keys, key.length + (ascii "x").length < 2 ^ 62)
    (before after : List (TableRecord 1))
    (whole : (pairFile keys (ascii "x") short).records =
      before ++ pairRecord (ascii "1e999") (ascii "x") (by decide) :: after)
    (evaluates : Evaluates (deleteMatches pairSchema deleteAboveNormalized.optWhereNode) before) :
    Sound pairSchema (ascii "people") (keysTable keys short) (pairFile keys (ascii "x") short)
      (pairFile keys (ascii "x") short).index ∧
    IndexIsRebuilt ⟨false, id⟩ (keysTable keys short) (ascii "people") pairSchema ∧
    Executes ⟨false, id⟩ (keysTable keys short) (.delete deleteAbove)
      (do deleteData ⟨false, id⟩ deleteAboveNormalized; return {}) ∧
    ∃ w', (do deleteData ⟨false, id⟩ deleteAboveNormalized; return {} : Exec Response).run (keysTable keys short) =
      .error (.exception .stod) w' := by
  have sound : Sound pairSchema deleteAboveNormalized.tableName (keysTable keys short)
      (pairFile keys (ascii "x") short) (pairFile keys (ascii "x") short).index :=
    singleTable_sound _ _ _ _ (pairFile_indexed _ _ _)
  have column : ColumnKnown pairSchema deleteAboveNormalized.optWhereNode := by
    rintro v ⟨⟩
    decide
  have counted : deleteAboveNormalized.tableName ∈ (keysTable keys short).ctx.deleteCounterPerTable :=
    Finmap.mem_insert.mpr (.inl rfl)
  obtain ⟨w', throws⟩ := deleteData_throws ⟨false, id⟩ sound column rfl counted whole evaluates rfl deleteAbove_second
  exact ⟨sound, (indexIsRebuilt_iff sound.file).mpr sound.index, .delete rfl rfl, w', run_bind_error throws _⟩

/-- The first record stops the scan: nothing has been marked. -/
theorem indexIsRebuilt_failed_iff_first : ∃ w', (deleteData ⟨false, id⟩ deleteAboveNormalized).run
      (keysTable [ascii "1e999"] (by decide)) = .error (.exception .stod) w' ∧
    IndexIsRebuilt ⟨false, id⟩ w' (ascii "people") pairSchema := by
  obtain ⟨sound, rebuilt, executes, w', failed⟩ := deleteAbove_fails [ascii "1e999"] (by decide) [] [] rfl
    (by rintro _ ⟨⟩)
  refine ⟨w', failed_of_respond failed, (indexIsRebuilt_failed_iff ⟨false, id⟩ sound rebuilt executes trivial
    (fun _ => trivial) failed).mpr fun _ => ?_⟩
  rintro _ ⟨⟩ _
  exact firstsRejected_of_throws deleteAbove_second

/-- The record before it has been marked, and the index still has its key. -/
theorem not_indexIsRebuilt_failed : ∃ w', IndexIsRebuilt ⟨false, id⟩ (keysTable [ascii "7", ascii "1e999"] (by decide))
      (ascii "people") pairSchema ∧
    validateDeleteSemantics deleteAboveNormalized (keysTable [ascii "7", ascii "1e999"] (by decide)).ctx = .ok none ∧
    (deleteData ⟨false, id⟩ deleteAboveNormalized).run (keysTable [ascii "7", ascii "1e999"] (by decide)) =
      .error (.exception .stod) w' ∧
    ¬ IndexIsRebuilt ⟨false, id⟩ w' (ascii "people") pairSchema := by
  have answers : Evaluates (deleteMatches pairSchema deleteAboveNormalized.optWhereNode)
      [pairRecord (ascii "7") (ascii "x") (by decide)] := by
    intro r hr
    obtain rfl := List.mem_singleton.mp (mem_liveRecords.mp hr).1
    exact ⟨true, deleteAbove_first⟩
  obtain ⟨sound, rebuilt, -, w', failed⟩ := deleteAbove_fails [ascii "7", ascii "1e999"] (by decide)
    [pairRecord (ascii "7") (ascii "x") (by decide)] [] rfl answers
  have column : ColumnKnown pairSchema deleteAboveNormalized.optWhereNode := by
    rintro v ⟨⟩
    decide
  refine ⟨w', rebuilt, rfl, failed_of_respond failed, fun rebuilt' => ?_⟩
  have harmless := (deleteData_failed_iff ⟨false, id⟩ sound column (failed_of_respond failed)).mp rebuilt' rfl
  have rejected := harmless [] _ _ rfl rfl (by rintro _ ⟨⟩) (by rintro _ ⟨⟩)
  rw [accepts_of_ok deleteAbove_first] at rejected
  cases rejected

end Jssql.FileHandler
