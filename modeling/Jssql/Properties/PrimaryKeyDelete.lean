import Jssql.Properties.IndexMaintenance
import Jssql.Theory.KeyConditions

/-!
`DELETE` by primary key. The normalizer takes the quotes off the literal, the
validator finds what is left in the index, and the look-up takes quotes off once
more: the record deleted is the named one unless the key itself stands in quotes.
-/
namespace Jssql.FileHandler
open Foundation SemanticNormalizer SemanticValidator

variable {n : Nat}

/-- The look-up deletes the record with this key: its type byte is overwritten, the
rest of the file stays, and the key leaves the index. -/
def DeletesNamedRow (env : Env) (w : World) (t : TableSchema n) (f : TableFile n)
    (node : DeleteNode) (cond : ConditionNode) (key : Bytes) : Prop :=
  ∃ before r after s' w', f.records = before ++ r :: after ∧ r.isTombstone = false ∧
    r.pkLiteral = key ∧
    (performDeleteByIndexLookup env node cond (atRecords f)).run w = .ok s' w' ∧
    HasFile w' node.tableName (f.withRecords (before ++ r.marked :: after)) ∧
    HasIndex w' node.tableName t (f.index.erase key)

section

variable {w : World} {t : TableSchema n} {f : TableFile n} (node : DeleteNode)
  {cond : ConditionNode}

/-- A key that is in the index is deleted if and only if it has no quotes to lose. -/
theorem deletesNamedRow_of_mem (env : Env) (index : HasIndex w node.tableName t f.index)
    (distinct : DistinctKeys f.records) (isKey : cond.colName = t.pkColName)
    (present : cond.literal.value ∈ f.index) :
    DeletesNamedRow env w t f node cond cond.literal.value ↔
      removeOuterQuotes cond.literal.value = cond.literal.value := by
  obtain ⟨columns, hc, hi⟩ := index
  constructor
  · rintro ⟨_, _, _, s', w', _, _, _, run, _, index'⟩
    by_contra quoted
    cases found : f.index.lookup (removeOuterQuotes cond.literal.value) with
    | none =>
        rw [performDeleteByIndexLookup_missing env isKey hc hi found] at run
        cases run
    | some offset =>
        obtain ⟨before, r, after, records, _, _, at_⟩ := f.index_split found
        obtain ⟨s'', run'⟩ := performDeleteByIndexLookup_run env isKey hc hi found records at_
        rw [run'] at run
        cases run
        -- the index has lost the key without quotes, not the one that was named
        have same := index'.unique
          ⟨_, Finmap.lookup_insert _, Finmap.lookup_insert _⟩
        have kept : (f.index.erase cond.literal.value).lookup
            (removeOuterQuotes cond.literal.value) = some offset := by
          rw [Finmap.lookup_erase_ne quoted, found]
        rw [same, Finmap.lookup_erase] at kept
        cases kept
  · intro plain
    rw [← plain] at present
    obtain ⟨before, r, after, s', w', records, live, key, run, file', index', erased⟩ :=
      performDeleteByIndexLookup_index env ⟨columns, hc, hi⟩ distinct rfl isKey present
    rw [erased, plain] at index'
    exact ⟨before, r, after, s', w', records, live, key.trans plain, run, file', index'⟩

end

/-- An accepted `DELETE` by key deletes the named row and no other if and only if the
contents of its literal do not stand in quotes themselves. -/
theorem deletesNamedRow_iff (env : Env) (w : World) (t : TableSchema n) (f : TableFile n)
    (node node' : DeleteNode) (cond : ConditionNode) (contents : Bytes)
    (known : w.ctx.untypedTables.lookup node.tableName = some t.schema)
    (index : HasIndex w node.tableName t f.index) (distinct : DistinctKeys f.records)
    (condition : node.optWhereNode = some ⟨cond⟩) (isKey : cond.colName = t.pkColName)
    (isEq : cond.cmp = .eq) (lexeme : Lexeme cond.literal contents)
    (normalized : normalizeDelete node w.ctx.untypedTables = (node', true))
    (valid : validateDeleteSemantics node' w.ctx = .ok none) :
    (∃ cond', node'.optWhereNode = some ⟨cond'⟩ ∧
      DeletesNamedRow env w t f node' cond' contents) ↔
      removeOuterQuotes contents = contents := by
  obtain ⟨name, where_, -⟩ := normalizeDelete_ok known normalized
  let cond' := strippedCondition t.schema cond
  have where_ : node'.optWhereNode = some ⟨cond'⟩ := by
    rw [where_, condition]
    rfl
  have isKey' : cond'.colName = t.pkColName := isKey
  have value : cond'.literal.value = contents := lexeme.removeOuterQuotes_value
  have probe {columns : Map Bytes Index} (hc : w.ctx.indices.lookup node.tableName = some columns)
      (hi : columns.lookup t.pkColName = some f.index) :=
    absentKeyViolation_eq hc hi isKey' isEq
  rw [value] at probe
  have present : contents ∈ f.index := by
    obtain ⟨columns, hc, hi⟩ := index
    rw [validateDeleteSemantics, name, known] at valid
    dsimp only at valid
    by_contra absent
    rw [validateWhereOfTable, where_, probe hc hi, if_neg absent] at valid
    cases valid
  rw [← name] at index
  have decided := deletesNamedRow_of_mem node' env index distinct isKey' (value ▸ present)
  rw [value] at decided
  constructor
  · rintro ⟨cond', hcond, deletes⟩
    rw [where_, Option.some.injEq, WhereNode.mk.injEq] at hcond
    subst hcond
    exact decided.mp deletes
  · intro plain
    exact ⟨_, where_, decided.mpr plain⟩

/-- The statement deletes by a key that stands in no quotes of its own. -/
theorem deletesNamedRow_iff_pair :
    let file := pairFile [ascii "1", ascii "2"] (ascii "x") (by decide)
    ∃ node' cond', node'.optWhereNode = some ⟨cond'⟩ ∧
      DeletesNamedRow ⟨false, id⟩ (singleTable (ascii "people") pairSchema file ∅) pairSchema file
        node' cond' (ascii "2") := by
  intro file
  have keys : (liveRecords file.records).map (fun r => r.pkLiteral) = [ascii "1", ascii "2"] :=
    pairFile_keys _ _ _
  let cond : ConditionNode := ⟨ascii "id", .eq, ⟨.string, ascii "'2'"⟩, 255⟩
  let node : DeleteNode := ⟨ascii "people", some ⟨cond⟩⟩
  let node' : DeleteNode := ⟨ascii "people", some ⟨strippedCondition pairSchema.schema cond⟩⟩
  let w := singleTable (ascii "people") pairSchema file ∅
  have index : HasIndex w (ascii "people") pairSchema file.index := singleTable_hasIndex _ _ _ _
  have distinct : DistinctKeys file.records := by
    rw [DistinctKeys, keys]
    decide
  have present : ascii "2" ∈ file.index := by
    rw [file.mem_index, keys]
    decide
  have valid : validateDeleteSemantics node' w.ctx = .ok none := by
    rw [validateDeleteSemantics, (singleTable_registered (ascii "people") pairSchema file ∅).schema]
    exact validateWhereOfTable_key (Finmap.lookup_insert _) (Finmap.lookup_insert _) rfl rfl present
      (.inr rfl)
  exact ⟨node', (deletesNamedRow_iff ⟨false, id⟩ w pairSchema file node node' cond (ascii "2")
    (Finmap.lookup_insert _) index distinct rfl rfl rfl (Lexeme.string (ascii "2")) rfl valid).mpr
    (by decide)⟩

/-- Two keys that differ by quotes: the statement names one and deletes the other. -/
theorem deletesNamedRow_quoted :
    let quoted := ascii "\"a\""
    let file := pairFile [quoted, ascii "a"] (ascii "x") (by decide)
    let w := singleTable (ascii "people") pairSchema file ∅
    let cond : ConditionNode := ⟨ascii "id", .eq, ⟨.string, ascii "'\"a\"'"⟩, 255⟩
    let node : DeleteNode := ⟨ascii "people", some ⟨cond⟩⟩
    let node' : DeleteNode := ⟨ascii "people", some ⟨strippedCondition pairSchema.schema cond⟩⟩
    normalizeDelete node w.ctx.untypedTables = (node', true) ∧
      validateDeleteSemantics node' w.ctx = .ok none ∧
      ¬ ∃ cond', node'.optWhereNode = some ⟨cond'⟩ ∧
        DeletesNamedRow ⟨false, id⟩ w pairSchema file node' cond' quoted := by
  intro quoted file w cond node node'
  have keys : (liveRecords file.records).map (fun r => r.pkLiteral) = [quoted, ascii "a"] :=
    pairFile_keys _ _ _
  have distinct : DistinctKeys file.records := by
    rw [DistinctKeys, keys]
    decide
  have present : quoted ∈ file.index := by
    rw [file.mem_index, keys]
    decide
  refine ⟨rfl, ?_, ?_⟩
  · rw [validateDeleteSemantics, (singleTable_registered (ascii "people") pairSchema file ∅).schema]
    exact validateWhereOfTable_key (Finmap.lookup_insert _) (Finmap.lookup_insert _) rfl rfl present
      (.inr rfl)
  · rintro ⟨cond', hcond, deletes⟩
    cases hcond
    have plain := (deletesNamedRow_of_mem _ ⟨false, id⟩
      (singleTable_hasIndex (ascii "people") pairSchema file ∅) distinct rfl present).mp deletes
    exact absurd plain (by decide)

end Jssql.FileHandler
