import Jssql.Theory.KeyConditions

/-!
The scans that mark records while they read. What `DELETE` and `UPDATE` do to a
file is a function of its records: each live record that matches becomes a
tombstone and is counted, up to the end of the file or to the first record that
stops the scan. A scan on a table without a counter stops at its first match.
-/
namespace Jssql.FileHandler
open Foundation Foundation.Stream ConditionEvaluator

variable {n : Nat}

/-! The scan on records -/

/-- What a scan leaves: the records, those it has marked, and what stopped it. -/
structure Marks (n : Nat) where
  records : List (TableRecord n)
  matched : List (TableRecord n)
  stop : Option Fault

/-- `missing` is the fault of the first match where there is no counter. -/
def scanMarks (isMatch : TableRecord n → Except Fault Bool) (missing : Option Fault) :
    List (TableRecord n) → Marks n
  | [] => ⟨[], [], none⟩
  | r :: rest =>
      let marks := scanMarks isMatch missing rest
      if r.isTombstone then { marks with records := r :: marks.records }
      else
        match isMatch r, missing with
        | .error e, _ => ⟨r :: rest, [], some e⟩
        | .ok false, _ => { marks with records := r :: marks.records }
        | .ok true, none =>
            { marks with records := r.marked :: marks.records, matched := r :: marks.matched }
        | .ok true, some fault => ⟨r.marked :: rest, [r], some fault⟩

/-! The state of a scan -/

section State

variable (w : World) (table : Bytes)

/-- The state of a scan: the file as it is now, and the records counted so far. -/
def marking (content : Bytes) (counted : Nat) : World :=
  (w.setTableFile table content).setCounters
    (match w.ctx.deleteCounterPerTable.lookup table with
      | some count => w.ctx.deleteCounterPerTable.insert table (count + counted)
      | none => w.ctx.deleteCounterPerTable)

variable {w table}

theorem marking_hasContent (content : Bytes) (counted : Nat) :
    (marking w table content counted).disk.tableFiles.lookup table = some content :=
  Finmap.lookup_insert _

theorem marking_setTableFile (content content' : Bytes) (counted : Nat) :
    (marking w table content counted).setTableFile table content' =
      marking w table content' counted := by
  simp only [marking, World.setTableFile, World.setTableFiles, World.setCounters,
    Finmap.insert_insert]

theorem marking_zero {content : Bytes} (h : w.disk.tableFiles.lookup table = some content) :
    marking w table content 0 = w := by
  rw [marking, setTableFile_of_lookup h]
  cases hc : w.ctx.deleteCounterPerTable.lookup table with
  | none => rfl
  | some count => simp only [Nat.add_zero, insert_of_lookup hc, World.setCounters]

theorem marking_uncounted (content : Bytes) (counted counted' : Nat)
    (h : w.ctx.deleteCounterPerTable.lookup table = none) :
    marking w table content counted = marking w table content counted' := by
  simp only [marking, h]

variable (w table) in
theorem marking_counter (content : Bytes) (counted : Nat) :
    (marking w table content counted).ctx.deleteCounterPerTable.lookup table =
      (w.ctx.deleteCounterPerTable.lookup table).map (· + counted) := by
  cases hc : w.ctx.deleteCounterPerTable.lookup table with
  | none => simp only [marking, hc, World.setCounters_deleteCounterPerTable, Option.map_none]
  | some count =>
      simp only [marking, hc, World.setCounters_deleteCounterPerTable, Option.map_some]
      exact Finmap.lookup_insert _

/-- The counter goes up by one for each record that is marked. -/
theorem countMarked_run {α : Type} (env : Env) {next : Nat → Nat}
    (succ : ∀ count, next count = count + 1) (rest : Exec α) (content : Bytes) (counted : Nat) :
    (do
      let count ← getDeleteCountForTable env table
      setDeleteCountForTable table (next count)
      rest).run (marking w table content counted) =
      match w.ctx.deleteCounterPerTable.lookup table with
      | some _ => rest.run (marking w table content (counted + 1))
      | none => .error (missingCounter env) (marking w table content (counted + 1)) := by
  cases hc : w.ctx.deleteCounterPerTable.lookup table with
  | none =>
      have none_ := marking_counter w table content counted
      rw [hc, Option.map_none] at none_
      rw [run_bind_error (getDeleteCountForTable_none env none_),
        marking_uncounted content counted (counted + 1) hc]
  | some count =>
      have some_ := marking_counter w table content counted
      rw [hc, Option.map_some] at some_
      have set_ : (setDeleteCountForTable table (next (count + counted))).run
          (marking w table content counted) = .ok () (marking w table content (counted + 1)) := by
        rw [setDeleteCountForTable, run_modify, succ]
        simp only [marking, hc, World.setCounters, Finmap.insert_insert, Nat.add_assoc]
      rw [run_bind_ok (getDeleteCountForTable_some env some_), run_bind_ok set_]

end State

/-! The loop -/

/-- The fault of a match on this table, where it has no counter. -/
def missingFault (env : Env) (w : World) (table : Bytes) : Option Fault :=
  match w.ctx.deleteCounterPerTable.lookup table with
  | some _ => none
  | none => some (missingCounter env)

theorem missingFault_eq_none_iff (env : Env) {w : World} {table : Bytes} :
    missingFault env w table = none ↔ table ∈ w.ctx.deleteCounterPerTable := by
  rw [missingFault, Finmap.mem_iff]
  cases w.ctx.deleteCounterPerTable.lookup table <;> simp

section Loop

attribute [local simp] scanMarks

variable {β : Type}

/-- What one round does with a record: `config` is the loop's variable at a stream
position with some records matched so far. -/
def roundResult (env : Env) (w : World) (table : Bytes) (isMatch : TableRecord n → Except Fault Bool)
    (config : Stream → List (TableRecord n) → β) (r : TableRecord n) (before after : Bytes)
    (matched : List (TableRecord n)) (counted : Nat) : EStateM.Result Fault World (Bool × β) :=
  let unchanged := marking w table (before ++ r.encode ++ after) counted
  let changed := marking w table (before ++ r.marked.encode ++ after) (counted + 1)
  if r.isTombstone then .ok (false, config (split (before ++ r.encode) after) matched) unchanged
  else
    match isMatch r, missingFault env w table with
    | .error e, _ => .error e unchanged
    | .ok false, _ => .ok (false, config (split (before ++ r.encode) after) matched) unchanged
    | .ok true, none =>
        .ok (false, config (split (before ++ r.marked.encode) after) (matched ++ [r])) changed
    | .ok true, some fault => .error fault changed

/-- A loop whose rounds treat the records so leaves what the scan on records leaves. -/
theorem run_marking (env : Env) {w : World} {table : Bytes}
    {isMatch : TableRecord n → Except Fault Bool} {config : Stream → List (TableRecord n) → β}
    {body : β → Exec (Bool × β)} (rounds : Nat) (tail : Bytes) (rs : List (TableRecord n))
    (round : ∀ r ∈ rs, ∀ before after matched counted,
      (body (config (split before (r.encode ++ after)) matched)).run
        (marking w table (before ++ r.encode ++ after) counted) =
        roundResult env w table isMatch config r before after matched counted) :
    ∀ (before : Bytes) (matched : List (TableRecord n)) (counted : Nat),
      let marks := scanMarks isMatch (missingFault env w table) rs
      let final := marking w table (before ++ encodeAll marks.records ++ tail)
        (counted + marks.matched.length)
      (repeatUntil .diverges body (rs.length + rounds)
        (config (split before (encodeAll rs ++ tail)) matched)).run
        (marking w table (before ++ encodeAll rs ++ tail) counted) =
        match marks.stop with
        | some e => .error e final
        | none => (repeatUntil .diverges body rounds
            (config (split (before ++ encodeAll marks.records) tail)
              (matched ++ marks.matched))).run final := by
  induction rs with
  | nil =>
      intro before matched counted
      simp
  | cons r rest ih =>
      intro before matched counted
      have this_ := round r (by simp) before (encodeAll rest ++ tail) matched counted
      have later := ih fun s hs => round s (by simp [hs])
      have shift : (r :: rest).length + rounds = (rest.length + rounds) + 1 := by
        simp only [List.length_cons]
        omega
      have whole : before ++ encodeAll (r :: rest) ++ tail =
          before ++ r.encode ++ (encodeAll rest ++ tail) := by simp
      have stream : encodeAll (r :: rest) ++ tail = r.encode ++ (encodeAll rest ++ tail) := by simp
      simp only [shift, run_repeatUntil_succ, whole, stream]
      rw [roundResult] at this_
      cases state : r.isTombstone with
      | true =>
          rw [state, if_pos rfl] at this_
          rw [run_bind_ok this_]
          have next := later (before ++ r.encode) matched counted
          simp only [List.append_assoc] at next ⊢
          simp only [Bool.false_eq_true, if_false, scanMarks, state, if_true, next,
            encodeAll_cons, List.append_assoc]
      | false =>
          rw [state, if_neg Bool.false_ne_true] at this_
          cases hm : isMatch r with
          | error e =>
              simp only [hm] at this_
              rw [run_bind_error this_]
              simp [state, hm]
          | ok result =>
              cases result with
              | false =>
                  simp only [hm] at this_
                  rw [run_bind_ok this_]
                  have next := later (before ++ r.encode) matched counted
                  simp only [List.append_assoc] at next ⊢
                  simp only [Bool.false_eq_true, if_false, scanMarks, state, hm, next,
                    encodeAll_cons, List.append_assoc]
              | true =>
                  cases missing : missingFault env w table with
                  | some fault =>
                      simp only [hm, missing] at this_
                      rw [run_bind_error this_]
                      simp [state, hm]
                  | none =>
                      simp only [hm, missing] at this_
                      rw [run_bind_ok this_]
                      have next := later (before ++ r.marked.encode) (matched ++ [r]) (counted + 1)
                      have count (k : Nat) : counted + 1 + k = counted + (k + 1) := by omega
                      simp only [List.append_assoc, missing, count, List.singleton_append] at next ⊢
                      simp only [Bool.false_eq_true, if_false, scanMarks, state, hm,
                        encodeAll_cons, List.append_assoc, List.length_cons,
                        TableRecord.marked_toStoredRecord]
                      exact next

end Loop

end Jssql.FileHandler
