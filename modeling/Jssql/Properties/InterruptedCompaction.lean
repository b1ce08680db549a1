import Jssql.Theory.Compaction
import Jssql.Theory.MarkedRecords
import Jssql.Theory.Construction

/-!
A compaction that stops on its way. The new file is made and written before the old
one is removed, and the removal and the rename are two operations, so the next
process may find both files, or only the new one. It does not look for a new file.
-/
namespace Jssql.FileHandler
open Foundation Foundation.Stream

variable {n : Nat} {table : Bytes}

/-! The operations on the files -/

/-- What a compaction does to the disk, one step at a time. -/
inductive FileOp where
  | create
  | write (byte : UInt8)
  | remove
  | rename

def FileOp.apply (table : Bytes) (disk : Disk) : FileOp → Disk
  | .create => { disk with newTableFiles := disk.newTableFiles.insert table [] }
  | .write byte => { disk with newTableFiles :=
      disk.newTableFiles.insert table ((disk.newTableFiles.lookup table).getD [] ++ [byte]) }
  | .remove => { disk with tableFiles := disk.tableFiles.erase table }
  | .rename =>
      match disk.newTableFiles.lookup table with
      | some content => { disk with
          tableFiles := disk.tableFiles.insert table content
          newTableFiles := disk.newTableFiles.erase table }
      | none => disk

/-- What the new file holds in the end. -/
def newContent (f : TableFile n) : Bytes := tableFileHeader ++ encodeAll (liveRecords f.records)

/-- The operations of a compaction that finds no new file. -/
def fileOps (f : TableFile n) : List FileOp :=
  .create :: ((newContent f).map .write ++ [.remove, .rename])

/-- The disk when only the first `k` operations were made. -/
def interrupted (table : Bytes) (f : TableFile n) (k : Nat) (disk : Disk) : Disk :=
  ((fileOps f).take k).foldl (fun disk op => op.apply table disk) disk

theorem newContent_length (f : TableFile n) :
    (newContent f).length = 32 + (encodeAll (liveRecords f.records)).length :=
  (TableFile.fresh (liveRecords f.records)).length_bytes

theorem fileOps_length (f : TableFile n) :
    (fileOps f).length = 35 + (encodeAll (liveRecords f.records)).length := by
  simp only [fileOps, List.length_cons, List.length_append, List.length_map, newContent_length,
    List.length_nil]
  omega

/-- The disk with this content in the new file of the table. -/
def withNewFile (disk : Disk) (table content : Bytes) : Disk :=
  { disk with newTableFiles := disk.newTableFiles.insert table content }

theorem interrupted_next {f : TableFile n} {k : Nat} {op : FileOp} (next : (fileOps f)[k]? = some op)
    (disk : Disk) : interrupted table f (k + 1) disk = op.apply table (interrupted table f k disk) := by
  rw [interrupted, List.take_add_one, next, Option.toList_some, List.foldl_append]
  rfl

/-- While the new file is being written. -/
theorem interrupted_writing (f : TableFile n) (disk : Disk) {j : Nat} (writing : j ≤ (newContent f).length) :
    interrupted table f (j + 1) disk = withNewFile disk table ((newContent f).take j) := by
  induction j with
  | zero => rfl
  | succ j ih =>
      have byte : (newContent f)[j]? = some ((newContent f).get ⟨j, writing⟩) :=
        List.getElem?_eq_getElem writing
      have next : (fileOps f)[j + 1]? = some (.write ((newContent f).get ⟨j, writing⟩)) := by
        rw [fileOps, List.getElem?_cons_succ, List.getElem?_append_left (by simpa using writing),
          List.getElem?_map, byte, Option.map_some]
      rw [interrupted_next next, ih (Nat.le_of_lt writing), List.take_add_one, byte]
      simp only [FileOp.apply, withNewFile, Finmap.lookup_insert, Option.getD_some,
        Finmap.insert_insert, Option.toList_some]

/-- Between two rounds of the copy loop the disk is as after some of the operations. -/
theorem copyRound_interrupted (env : Env) (f : TableFile n) {w v : World} {s : Stream}
    (reached : Reaches (copyRound env table n) (atRecords f) (withNew w table tableFileHeader) s v) :
    ∃ copied, copied <+: f.records ∧
      v.disk = interrupted table f (33 + (encodeAll (liveRecords copied)).length) w.disk := by
  obtain ⟨copied, rest, records, _, rfl⟩ := copyRound_reaches env f.header reached
  have content : newContent f = tableFileHeader ++ encodeAll (liveRecords copied) ++
      encodeAll (liveRecords rest) := by
    rw [newContent, records, liveRecords_append, encodeAll_append, List.append_assoc]
  have front : (tableFileHeader ++ encodeAll (liveRecords copied)).length =
      32 + (encodeAll (liveRecords copied)).length := (TableFile.fresh (liveRecords copied)).length_bytes
  have writing : 32 + (encodeAll (liveRecords copied)).length ≤ (newContent f).length := by
    rw [content, List.length_append, front]
    exact Nat.le_add_right _ _
  have step : 33 + (encodeAll (liveRecords copied)).length =
      32 + (encodeAll (liveRecords copied)).length + 1 := by omega
  refine ⟨copied, ⟨rest, records.symm⟩, ?_⟩
  rw [step, interrupted_writing f w.disk writing, content, List.take_left' front]
  rfl

/-- Between the removal and the rename. -/
theorem interrupted_removed (f : TableFile n) (disk : Disk) :
    interrupted table f ((newContent f).length + 2) disk =
      { withNewFile disk table (newContent f) with tableFiles := disk.tableFiles.erase table } := by
  have next : (fileOps f)[(newContent f).length + 1]? = some .remove := by
    simp [fileOps]
  rw [interrupted_next next, interrupted_writing f disk (Nat.le_refl _), List.take_length]
  rfl

/-- All operations together are `compactTable`. -/
theorem compactTable_fileOps (env : Env) {w : World} {t : TableSchema n} {f : TableFile n}
    (known : w.ctx.untypedTables.lookup table = some t.schema) (file : HasFile w table f)
    (noNewFile : w.disk.newTableFiles.lookup table = none) :
    (compactTable env table).run w =
      .ok () ⟨interrupted table f (fileOps f).length w.disk, w.ctx⟩ := by
  have next : (fileOps f)[(newContent f).length + 2]? = some .rename := by
    simp [fileOps]
  have length : (fileOps f).length = (newContent f).length + 3 := by
    simp [fileOps]
  have clean : (w.disk.newTableFiles.insert table (newContent f)).erase table = w.disk.newTableFiles := by
    rw [erase_insert, erase_of_lookup_none noNewFile]
  rw [compactTable_run env t f file known noNewFile, length, interrupted_next next, interrupted_removed]
  simp only [FileOp.apply, withNewFile, Finmap.lookup_insert, clean, insert_erase]
  rfl

/-! After the restart -/

/-- A table file with these live records. -/
def HoldsRows (content : Option Bytes) (rows : List (TableRecord n)) : Prop :=
  ∃ f : TableFile n, content = some f.bytes ∧ liveRecords f.records = rows

/-- The next process starts, finds the rows in the table file, and has them still when
a compaction of its own is complete. -/
def StillHolds (env : Env) (table : Bytes) (disk : Disk) (rows : List (TableRecord n)) : Prop :=
  ∃ v, (constructExecutionContext env).run ⟨disk, .empty⟩ = .ok () v ∧
    HoldsRows (v.disk.tableFiles.lookup table) rows ∧
    ∀ v', (compactTable env table).run v = .ok () v' → HoldsRows (v'.disk.tableFiles.lookup table) rows

/-- The restart and the later compaction see of the disk the table file and the new file. -/
theorem stillHolds_iff {env : Env} {disk : Disk} {w : World} {text : Bytes} {t : TableSchema n}
    (disk' : Disk) (g : TableFile n) (started : (constructExecutionContext env).run ⟨disk, .empty⟩ = .ok () w)
    (here : listed disk table = some text) (parsed : parseMetadata text = t.schema)
    (metadata : disk'.metadata = disk.metadata)
    (others : ∀ x, x ≠ table → disk'.tableFiles.lookup x = disk.tableFiles.lookup x)
    (found : (disk'.tableFiles.lookup table).getD tableFileHeader = g.bytes)
    (rows : List (TableRecord n)) :
    StillHolds env table disk' rows ↔ HoldsRows (some g.bytes) rows ∧
      HoldsRows (some ((disk'.newTableFiles.lookup table).getD tableFileHeader ++
        encodeAll (liveRecords g.records))) rows := by
  obtain ⟨there, starts, -⟩ := constructExecutionContext_ok.mp started
  have listing (x : Bytes) : listed disk' x = listed disk x := by
    rw [listed, metadata, listed]
  have here' := (listing table).trans here
  have loaded : loadedIndex env (parseMetadata text)
      ((disk'.tableFiles.lookup table).getD tableFileHeader) = .ok (t.pkColName, g.index) := by
    rw [found, parsed]
    exact loadedIndex_file env t g
  have again : (constructExecutionContext env).run ⟨disk', .empty⟩ = .ok () (constructed env disk') := by
    refine constructExecutionContext_ok.mpr ⟨metadata ▸ there, fun x text' known => ?_, rfl⟩
    by_cases same : x = table
    · subst same
      cases here'.symm.trans known
      exact ⟨(starts x text here).1, _, loaded⟩
    · rw [others x same]
      exact starts x text' ((listing x).symm.trans known)
  have state := tableState_constructed env disk' here' loaded
  have known : (constructed env disk').ctx.untypedTables.lookup table = some t.schema := by
    rw [← parsed]
    exact congrArg TableState.schema state
  have file : HasFile (constructed env disk') table g := by
    rw [HasFile, ← found]
    exact congrArg TableState.file state
  have leftover : (constructed env disk').disk.newTableFiles = disk'.newTableFiles := by
    have same := constructed_declaration env disk'
    rw [declaration, declaration, Prod.mk.injEq, Prod.mk.injEq, Prod.mk.injEq,
      declaredTables_disk] at same
    exact same.2.2.1
  have later := compactTable_run_onto env t g file known
  rw [newFileStart, leftover] at later
  have content {w' : World} (bytes : Bytes) (files : Map Bytes Bytes) :
      ((w'.setTableFile table bytes).setNewTableFiles files).disk.tableFiles.lookup table = some bytes :=
    Finmap.lookup_insert _
  constructor
  · rintro ⟨v, run, holds, kept⟩
    cases again.symm.trans run
    rw [file] at holds
    exact ⟨holds, content _ _ ▸ kept _ later⟩
  · rintro ⟨holds, kept⟩
    refine ⟨_, again, file.symm ▸ holds, fun v' run => ?_⟩
    cases later.symm.trans run
    exact (content _ _).symm ▸ kept

/-! Bytes that are read as records -/

/-- Behind the header the bytes are a list of records with these live ones. -/
def ReadsAs (bytes : Bytes) (rows : List (TableRecord n)) : Prop :=
  ∃ rs : List (TableRecord n), encodeAll rs = bytes ∧ liveRecords rs = rows

theorem holdsRows_header {header bytes : Bytes} (length : header.length = 32)
    (magic : ofLE (header.take 8) = dbMagic) (rows : List (TableRecord n)) :
    HoldsRows (some (header ++ bytes)) rows ↔ ReadsAs bytes rows := by
  constructor
  · rintro ⟨f, content, live⟩
    rw [Option.some.injEq, TableFile.bytes] at content
    obtain ⟨_, records⟩ := List.append_inj content (length.trans f.header_length.symm)
    exact ⟨f.records, records.symm, live⟩
  · rintro ⟨rs, rfl, live⟩
    exact ⟨⟨header, length, magic, rs⟩, rfl, live⟩

theorem length_encodeAll_liveRecords (rs : List (TableRecord n)) :
    (encodeAll (liveRecords rs)).length ≤ (encodeAll rs).length :=
  (List.Sublist.flatMap List.filter_sublist fun r : TableRecord n => r.encode).length_le

/-- A header that is cut off is not made good by the records behind it. -/
theorem not_holdsRows_short {start : Bytes} {rows : List (TableRecord n)} (short : start.length < 32) :
    ¬ HoldsRows (some (start ++ encodeAll rows)) rows := by
  rintro ⟨f, content, rfl⟩
  have lengths := congrArg List.length (Option.some.inj content)
  have fewer := length_encodeAll_liveRecords f.records
  rw [f.length_bytes, List.length_append] at lengths
  omega

/-- Records that were copied before are there twice. -/
theorem not_readsAs_twice {rows : List (TableRecord n)} (live : liveRecords rows = rows) {j : Nat}
    (copied : 0 < (encodeAll (rows.take j)).length) :
    ¬ ReadsAs (encodeAll (rows.take j) ++ encodeAll rows) rows := by
  rintro ⟨rs, bytes, rfl⟩
  rw [← encodeAll_append] at bytes
  have lengths := length_liveRecords_of_encodeAll bytes
  have front : liveRecords ((liveRecords rs).take j) = (liveRecords rs).take j :=
    List.filter_eq_self.mpr fun r mem => (List.mem_filter.mp (List.mem_of_mem_take mem)).2
  rw [liveRecords_append, front, live, List.length_append, Nat.right_eq_add] at lengths
  rw [List.length_eq_zero_iff.mp lengths] at copied
  exact absurd copied (Nat.lt_irrefl 0)

/-! The points at which it can stop -/

/-- The stop is inside a record of the new file. -/
def CutsRecord (rows : List (TableRecord n)) (k : Nat) : Prop :=
  33 < k ∧ k < 33 + (encodeAll rows).length ∧ ∀ j, k ≠ 33 + (encodeAll (rows.take j)).length

/-- The stops after which no row is lost or doubled: nothing is made yet, the new file has
its header and no more, there is no row, or the bytes of the record that was cut off are
by chance read on into the records behind them as these and tombstones. -/
def Harmless (rows : List (TableRecord n)) (k : Nat) : Prop :=
  k = 0 ∨ k = 33 ∨ (rows = [] ∧ k = 34) ∨
    (CutsRecord rows k ∧ ReadsAs ((encodeAll rows).take (k - 33) ++ encodeAll rows) rows)

theorem encodeAll_eq_nil {rows : List (TableRecord n)} : (encodeAll rows).length = 0 ↔ rows = [] := by
  refine ⟨fun none_ => ?_, fun none_ => by rw [none_]; rfl⟩
  have many := length_lt_encodeAll rows
  rw [none_, Nat.le_zero, Nat.mul_eq_zero] at many
  exact List.length_eq_zero_iff.mp (many.resolve_left (by decide))

/-- What the later compaction makes of a new file that was being written. -/
theorem holdsRows_writing_iff {f : TableFile n} {j : Nat} (writing : j ≤ (newContent f).length) :
    HoldsRows (some ((newContent f).take j ++ encodeAll (liveRecords f.records))) (liveRecords f.records) ↔
      Harmless (liveRecords f.records) (j + 1) := by
  have live := liveRecords_idem f.records
  rw [newContent_length] at writing
  rw [newContent]
  generalize liveRecords f.records = rows at writing live ⊢
  have headerLength : tableFileHeader.length = 32 := (TableFile.fresh (n := n) []).header_length
  by_cases short : j < 32
  · have cut : (tableFileHeader ++ encodeAll rows).take j = tableFileHeader.take j :=
      List.take_append_of_le_length (by omega)
    rw [cut]
    refine iff_of_false (not_holdsRows_short (by rw [List.length_take]; omega)) ?_
    rintro (start | header | ⟨_, removed⟩ | ⟨⟨inside, _⟩, _⟩) <;> omega
  obtain ⟨i, rfl⟩ := Nat.exists_eq_add_of_le (Nat.not_lt.mp short)
  have cut : (tableFileHeader ++ encodeAll rows).take (32 + i) =
      tableFileHeader ++ (encodeAll rows).take i := by
    rw [← headerLength]
    exact List.take_length_add_append i
  have magic : ofLE (tableFileHeader.take 8) = dbMagic := (TableFile.fresh (n := n) []).header_magic
  have position : 32 + i + 1 = 33 + i := by omega
  rw [cut, List.append_assoc, holdsRows_header headerLength magic, Harmless, position,
    Nat.add_sub_cancel_left]
  constructor
  · intro reads
    rcases Nat.eq_zero_or_pos i with rfl | copied
    · exact .inr (.inl rfl)
    -- at the end of a record the records in front are there twice
    have between : ∀ m, 33 + i ≠ 33 + (encodeAll (rows.take m)).length := by
      intro m same
      have here : i = (encodeAll (rows.take m)).length := Nat.add_left_cancel same
      have whole : (encodeAll rows).take i = encodeAll (rows.take m) := by
        have parts := congrArg encodeAll (List.take_append_drop m rows)
        rw [encodeAll_append] at parts
        rw [← parts, here]
        exact List.take_left
      rw [whole] at reads
      exact not_readsAs_twice live (here ▸ copied) reads
    have last := between rows.length
    rw [List.take_length] at last
    exact .inr (.inr (.inr ⟨⟨by omega, by omega, between⟩, reads⟩))
  · rintro (start | header | ⟨none_, removed⟩ | ⟨_, reads⟩)
    · omega
    · have first : i = 0 := by omega
      rw [first, List.take_zero, List.nil_append]
      exact ⟨rows, rfl, live⟩
    · have empty := encodeAll_eq_nil.mpr none_
      omega
    · exact reads

section

variable (env : Env) {disk : Disk} {w : World} {text : Bytes} {t : TableSchema n} {f : TableFile n}
  (started : (constructExecutionContext env).run ⟨disk, .empty⟩ = .ok () w)
  (here : listed disk table = some text) (parsed : parseMetadata text = t.schema)
include started here parsed

/-- Between the removal and the rename there is no table file, and the start makes an
empty one. -/
theorem stillHolds_removed_iff :
    StillHolds env table (interrupted table f ((newContent f).length + 2) disk) (liveRecords f.records) ↔
      liveRecords f.records = [] := by
  let g : TableFile n := .fresh []
  let left : Disk := { withNewFile disk table (newContent f) with tableFiles := disk.tableFiles.erase table }
  have found : ((disk.tableFiles.erase table).lookup table).getD tableFileHeader = g.bytes := by
    rw [Finmap.lookup_erase, Option.getD_none]
    exact (List.append_nil _).symm
  rw [interrupted_removed, stillHolds_iff left g started here parsed rfl
    (fun x other => Finmap.lookup_erase_ne other) found]
  simp only [left, withNewFile, Finmap.lookup_insert, Option.getD_some]
  constructor
  · rintro ⟨empty, _⟩
    obtain ⟨rs, bytes, live⟩ := (holdsRows_header g.header_length g.header_magic _).mp empty
    rw [encodeAll_eq_nil.mp (congrArg List.length bytes)] at live
    exact live.symm
  · intro none_
    rw [newContent, none_]
    exact ⟨⟨g, rfl, rfl⟩, ⟨g, rfl, rfl⟩⟩

/-- A compaction that stops at any point of its way neither loses nor doubles a row, if
and only if the point is a harmless one. -/
theorem interrupted_iff (file : disk.tableFiles.lookup table = some f.bytes)
    (noNewFile : disk.newTableFiles.lookup table = none) {k : Nat} (stops : k < (fileOps f).length) :
    StillHolds env table (interrupted table f k disk) (liveRecords f.records) ↔
      Harmless (liveRecords f.records) k := by
  have old : HoldsRows (some f.bytes) (liveRecords f.records) := ⟨f, rfl, rfl⟩
  have found : (disk.tableFiles.lookup table).getD tableFileHeader = f.bytes := by
    rw [file, Option.getD_some]
  have length : (fileOps f).length = (newContent f).length + 3 := by
    rw [fileOps_length, newContent_length]
    omega
  rcases Nat.lt_trichotomy k ((newContent f).length + 2) with writing | rfl | late
  · cases k with
    | zero =>
        have fresh : HoldsRows (some (tableFileHeader ++ encodeAll (liveRecords f.records)))
            (liveRecords f.records) := ⟨.fresh (liveRecords f.records), rfl, liveRecords_idem _⟩
        rw [show interrupted table f 0 disk = disk from rfl,
          stillHolds_iff disk f started here parsed rfl (fun _ _ => rfl) found, noNewFile]
        exact iff_of_true ⟨old, fresh⟩ (.inl rfl)
    | succ j =>
        have written : j ≤ (newContent f).length := by omega
        rw [interrupted_writing f disk written, ← holdsRows_writing_iff written,
          stillHolds_iff (withNewFile disk table _) f started here parsed rfl (fun _ _ => rfl) found,
          and_iff_right old]
        simp only [withNewFile, Finmap.lookup_insert, Option.getD_some]
  · rw [stillHolds_removed_iff env started here parsed, newContent_length]
    constructor
    · intro none_
      exact .inr (.inr (.inl ⟨none_, by rw [none_]; rfl⟩))
    · rintro (start | header | ⟨none_, _⟩ | ⟨⟨_, inside, _⟩, _⟩)
      · omega
      · omega
      · exact none_
      · omega
  · omega

end

/-- A stop behind the header of the new file. -/
theorem interrupted_iff_pair :
    let f := pairFile [ascii "1"] (ascii "x") (by decide)
    let disk := (singleTable (ascii "t") pairSchema f ∅).disk
    StillHolds ⟨false, id⟩ (ascii "t") (interrupted (ascii "t") f 33 disk) (liveRecords f.records) ↔
      Harmless (liveRecords f.records) 33 := by
  intro f disk
  have stops : 33 < (fileOps f).length := by
    rw [fileOps_length]
    omega
  exact interrupted_iff _ (constructExecutionContext_singleTable _ _ _ _ _ pairSchema_parsed)
    (listed_singleTable _ _ _ _ _) pairSchema_parsed (singleTable_hasFile _ _ _ _) rfl stops

/-- The process ends between the removal and the rename, and the row is lost. -/
theorem not_stillHolds :
    let f := pairFile [ascii "1"] (ascii "x") (by decide)
    let disk := (singleTable (ascii "t") pairSchema f ∅).disk
    ¬ ∀ k < (fileOps f).length,
      StillHolds ⟨false, id⟩ (ascii "t") (interrupted (ascii "t") f k disk) (liveRecords f.records) := by
  intro f disk safe
  have stops : (newContent f).length + 2 < (fileOps f).length := by
    rw [fileOps_length, newContent_length]
    omega
  have lost := (stillHolds_removed_iff _
    (constructExecutionContext_singleTable _ _ _ _ _ pairSchema_parsed) (listed_singleTable _ _ _ _ _)
    pairSchema_parsed).mp (safe _ stops)
  have keys := pairFile_keys [ascii "1"] (ascii "x") (by decide)
  rw [lost] at keys
  cases keys

end Jssql.FileHandler
