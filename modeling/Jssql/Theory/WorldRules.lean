import Jssql.Theory.CompactionScan

/-!
The operations that open a table file, on a state in which the file is well
formed: the header check leaves the stream at the first record, and the index,
the tombstone ratio and the compaction are functions of the list of records.
-/
namespace Jssql.FileHandler
open Foundation Foundation.Stream

variable {n : Nat} {w : World} {table : Bytes}

/-! Rules -/

theorem run_get (w : World) : (get : Exec World).run w = .ok w w := rfl

theorem run_modify (f : World → World) (w : World) : (modify f : Exec PUnit).run w = .ok () (f w) := rfl

theorem run_set (w w' : World) : (set w' : Exec PUnit).run w = .ok () w' := rfl

theorem runStream_ok {α : Type} {s s' : Stream} {op : StreamM α} {a : α} (h : op.run s = .ok a s')
    (w : World) : (runStream s op).run w = .ok (a, s') w := by
  rw [EStateM.run, runStream, h]

theorem runStream_error {α : Type} {s s' : Stream} {op : StreamM α} {e : Fault}
    (h : op.run s = .error e s') (w : World) : (runStream s op).run w = .error e w := by
  rw [EStateM.run, runStream, h]

theorem runStream_eq_ok {α : Type} {s s' : Stream} {op : StreamM α} {a : α} {w' : World} :
    (runStream s op).run w = .ok (a, s') w' ↔ op.run s = .ok a s' ∧ w' = w := by
  cases ended : op.run s with
  | ok b t =>
      rw [runStream_ok ended]
      constructor
      · rintro ⟨⟩
        exact ⟨rfl, rfl⟩
      · rintro ⟨⟨⟩, rfl⟩
        rfl
  | error e t =>
      rw [runStream_error ended]
      constructor
      · rintro ⟨⟩
      · rintro ⟨⟨⟩, _⟩

/-- Of a stream operation on a table file, the content it leaves is what counts. -/
theorem runTableStream_outcome {α : Type} (table : Bytes) (s : Stream) (op : StreamM α) (w : World) :
    (runTableStream table s op).run w =
      match outcome Stream.content (op.run s) with
      | .ok (a, s') => .ok (a, s') (w.setTableFile table s'.content)
      | .error (e, content) => .error e (w.setTableFile table content) := by
  rw [EStateM.run, runTableStream]
  cases op.run s <;> rfl

theorem setTableFile_of_lookup {content : Bytes} (h : w.disk.tableFiles.lookup table = some content) :
    w.setTableFile table content = w := by
  rw [World.setTableFile, insert_of_lookup h]
  rfl

theorem ensureTableFileExists_run {content : Bytes}
    (h : w.disk.tableFiles.lookup table = some content) :
    (ensureTableFileExists table).run w = .ok () w := by
  rw [ensureTableFileExists, run_modify, h]

/-- A file that is there is kept, a missing one is a header without records. -/
theorem ensureTableFileExists_eq (w : World) (table : Bytes) :
    (ensureTableFileExists table).run w =
      .ok () (w.setTableFile table ((w.disk.tableFiles.lookup table).getD tableFileHeader)) := by
  cases found : w.disk.tableFiles.lookup table with
  | none => rw [ensureTableFileExists, run_modify, found, Option.getD_none]
  | some content =>
      rw [ensureTableFileExists_run found, Option.getD_some, setTableFile_of_lookup found]

theorem ensureTableFileExists_ctx (w : World) (table : Bytes) :
    ∃ v, (ensureTableFileExists table).run w = .ok () v ∧ v.ctx = w.ctx := by
  exact ⟨_, ensureTableFileExists_eq w table, rfl⟩

theorem openTableFile_run {content : Bytes} (h : w.disk.tableFiles.lookup table = some content) :
    (openTableFile table).run w = .ok (.opened content) w := by
  unfold openTableFile
  rw [run_bind_ok (run_get w), h]
  rfl

/-! A well-formed table file -/

/-- The state has this file for the table. -/
def HasFile (w : World) (table : Bytes) (f : TableFile n) : Prop :=
  w.disk.tableFiles.lookup table = some f.bytes

/-- The stream behind the header of a file. -/
def atRecords (f : TableFile n) : Stream := split f.header (encodeAll f.records)

theorem checkFileValidity_file (env : Env) (closes : Bool) (f : TableFile n) :
    (checkFileValidity env closes).run (.opened f.bytes) = .ok () (atRecords f) :=
  checkFileValidity_split env closes f.header_length f.header_magic (encodeAll f.records)

theorem atRecords_isOpen (f : TableFile n) : (atRecords f).isOpen = true := rfl

end Jssql.FileHandler
