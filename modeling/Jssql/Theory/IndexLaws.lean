import Jssql.Theory.Writer

/-!
The index of a file as its records change: records appended at the end, and a
live record marked as a tombstone. The offsets of all other records stay, so the
entries of the new file are those of the old one with one list put behind them,
or with one entry taken out.
-/
namespace Jssql.FileHandler
open Foundation

variable {n : Nat}

/-! Entries -/

theorem liveEntries_append (rs ss : List (TableRecord n)) : ∀ start : Nat,
    liveEntries start (rs ++ ss) =
      liveEntries start rs ++ liveEntries (start + (encodeAll rs).length) ss := by
  induction rs with
  | nil => intro start; rfl
  | cons r rest ih =>
      intro start
      rw [List.cons_append, liveEntries, liveEntries, ih]
      cases r.isTombstone <;> simp [Nat.add_assoc]

theorem map_fst_liveEntries (rs : List (TableRecord n)) : ∀ start : Nat,
    (liveEntries start rs).map Prod.fst = (liveRecords rs).map fun r => r.pkLiteral := by
  induction rs with
  | nil => intro start; rfl
  | cons r rest ih =>
      intro start
      cases state : r.isTombstone <;>
        simpa [liveEntries, liveRecords, isLive, state] using ih _

/-- An entry belongs to a live record, whose type byte is at the offset. -/
theorem liveEntries_split (rs : List (TableRecord n)) : ∀ {start : Nat} {key : Bytes} {offset : Nat},
    (key, offset) ∈ liveEntries start rs → ∃ before r after, rs = before ++ r :: after ∧
      r.isTombstone = false ∧ r.pkLiteral = key ∧
      offset = start + (encodeAll before).length + 8 := by
  induction rs with
  | nil => intro start key offset h; cases h
  | cons r rest ih =>
      intro start key offset h
      cases state : r.isTombstone with
      | true =>
          rw [liveEntries, if_pos state] at h
          obtain ⟨before, s, after, rfl, live, key_, at_⟩ := ih h
          exact ⟨r :: before, s, after, rfl, live, key_, by simp [at_, Nat.add_assoc]⟩
      | false =>
          rw [liveEntries, if_neg (by rw [state]; exact Bool.false_ne_true), List.mem_cons] at h
          rcases h with here | later
          · cases here
            exact ⟨[], r, rest, rfl, state, rfl, rfl⟩
          · obtain ⟨before, s, after, rfl, live, key_, at_⟩ := ih later
            exact ⟨r :: before, s, after, rfl, live, key_, by simp [at_, Nat.add_assoc]⟩

/-- Offsets in the index lie between the start and the end of the records. -/
theorem liveEntries_offset_lt {rs : List (TableRecord n)} {start : Nat} {entry : Bytes × Nat}
    (h : entry ∈ liveEntries start rs) :
    start + 8 ≤ entry.2 ∧ entry.2 < start + (encodeAll rs).length := by
  obtain ⟨before, r, after, rfl, _, _, at_⟩ := liveEntries_split rs h
  simp only [encodeAll_append, encodeAll_cons, List.length_append, StoredRecord.length_encode,
    StoredRecord.recordLength]
  omega

theorem liveEntries_offsets_nodup (rs : List (TableRecord n)) : ∀ start : Nat,
    ((liveEntries start rs).map Prod.snd).Nodup := by
  induction rs with
  | nil => intro start; exact List.nodup_nil
  | cons r rest ih =>
      intro start
      cases state : r.isTombstone with
      | true =>
          rw [liveEntries, if_pos state]
          exact ih _
      | false =>
          rw [liveEntries, if_neg (by rw [state]; exact Bool.false_ne_true), List.map_cons,
            List.nodup_cons]
          refine ⟨fun again => ?_, ih _⟩
          obtain ⟨entry, he, same⟩ := List.mem_map.mp again
          have bound := (liveEntries_offset_lt he).1
          rw [StoredRecord.length_encode] at bound
          simp only at same
          omega

/-! The index of a file -/

namespace TableFile

variable (f : TableFile n)

theorem index_lookup (key : Bytes) : f.index.lookup key = firstOf key (liveEntries 32 f.records) := by
  rw [index, indexOfEntries, lookup_insertAllNew, Finmap.lookup_empty, Option.none_or]

theorem mem_index {key : Bytes} :
    key ∈ f.index ↔ key ∈ (liveRecords f.records).map fun r => r.pkLiteral := by
  rw [← map_fst_liveEntries f.records 32, ← not_iff_not, ← firstOf_eq_none, ← index_lookup,
    Finmap.lookup_eq_none]

/-- The index depends on the records alone. -/
theorem index_withRecords (rs : List (TableRecord n)) :
    (f.withRecords rs).index = indexOfEntries (liveEntries 32 rs) := rfl

/-- A key of the index is the key of a live record, the first one with it. -/
theorem index_split {key : Bytes} {offset : Nat} (h : f.index.lookup key = some offset) :
    ∃ before r after, f.records = before ++ r :: after ∧ r.isTombstone = false ∧
      r.pkLiteral = key ∧ offset = f.header.length + (encodeAll before).length + 8 := by
  rw [f.header_length]
  rw [index_lookup] at h
  exact liveEntries_split f.records (mem_of_firstOf h)

/-- Appending records enters their keys behind those of the file. -/
theorem index_append (rs : List (TableRecord n)) :
    (f.withRecords (f.records ++ rs)).index =
      insertAllNew f.index (liveEntries (32 + (encodeAll f.records).length) rs) := by
  rw [index_withRecords, indexOfEntries, liveEntries_append, insertAllNew_append]
  rfl

end TableFile

/-- The live records have pairwise different keys. -/
def DistinctKeys (rs : List (TableRecord n)) : Prop :=
  ((liveRecords rs).map fun r => r.pkLiteral).Nodup

/-- Marking a live record takes its entry out of the list. -/
theorem liveEntries_mark (before after : List (TableRecord n)) {r : TableRecord n}
    (live : r.isTombstone = false) (start : Nat) :
    liveEntries start (before ++ r :: after) =
        liveEntries start before ++ (r.pkLiteral, start + (encodeAll before).length + 8) ::
          liveEntries (start + (encodeAll before).length + r.encode.length) after ∧
      liveEntries start (before ++ r.marked :: after) =
        liveEntries start before ++
          liveEntries (start + (encodeAll before).length + r.encode.length) after := by
  rw [liveEntries_append, liveEntries_append, liveEntries, liveEntries,
    if_neg (by rw [live]; exact Bool.false_ne_true),
    if_pos (by rfl), TableRecord.marked_toStoredRecord, StoredRecord.marked_encode_length]
  exact ⟨rfl, rfl⟩

/-- The index leads from a key to the first live record with it. -/
theorem index_lookup_first {f : TableFile n} {before after : List (TableRecord n)} {r : TableRecord n}
    (records : f.records = before ++ r :: after) (live : r.isTombstone = false)
    (others : ∀ s ∈ liveRecords before, s.pkLiteral ≠ r.pkLiteral) :
    f.index.lookup r.pkLiteral = some (f.header.length + (encodeAll before).length + 8) := by
  have front : firstOf r.pkLiteral (liveEntries 32 before) = none := by
    rw [firstOf_eq_none, map_fst_liveEntries]
    intro mem
    obtain ⟨s, hs, key⟩ := List.mem_map.mp mem
    exact others s hs key
  rw [f.index_lookup, records, (liveEntries_mark before after live 32).1, firstOf_append, front,
    Option.none_or, firstOf_cons, if_pos rfl, f.header_length]
  rfl

/-- With distinct keys there is no other one. -/
theorem index_lookup_record {f : TableFile n} {before after : List (TableRecord n)} {r : TableRecord n}
    (records : f.records = before ++ r :: after) (live : r.isTombstone = false)
    (distinct : DistinctKeys f.records) :
    f.index.lookup r.pkLiteral = some (f.header.length + (encodeAll before).length + 8) := by
  have old := (liveEntries_mark before after live 32).1
  have keys := distinct
  rw [DistinctKeys, ← map_fst_liveEntries f.records 32, records, old, List.map_append,
    List.map_cons, List.nodup_middle, List.nodup_cons, List.mem_append, not_or, map_fst_liveEntries] at keys
  exact index_lookup_first records live fun s hs same => keys.1.1 (List.mem_map.mpr ⟨s, hs, same⟩)

/-- With distinct keys the index of the marked file lacks exactly the marked key. -/
theorem index_mark {f : TableFile n} {before after : List (TableRecord n)} {r : TableRecord n}
    (records : f.records = before ++ r :: after) (live : r.isTombstone = false)
    (distinct : DistinctKeys f.records) :
    (f.withRecords (before ++ r.marked :: after)).index = f.index.erase r.pkLiteral := by
  obtain ⟨old, new⟩ := liveEntries_mark before after live 32
  have keys := distinct
  rw [DistinctKeys, ← map_fst_liveEntries f.records 32, records, old, List.map_append,
    List.map_cons, List.nodup_middle, List.nodup_cons, List.mem_append] at keys
  have filtered : (liveEntries 32 f.records).filter (fun entry => entry.1 ≠ r.pkLiteral) =
      liveEntries 32 (before ++ r.marked :: after) := by
    rw [records, old, new, List.filter_append, List.filter_cons_of_neg (by simp),
      List.filter_eq_self.mpr, List.filter_eq_self.mpr]
    · intro entry h
      rw [decide_eq_true_eq]
      exact fun same => keys.1 (.inr (List.mem_map.mpr ⟨entry, h, same⟩))
    · intro entry h
      rw [decide_eq_true_eq]
      exact fun same => keys.1 (.inl (List.mem_map.mpr ⟨entry, h, same⟩))
  rw [TableFile.index_withRecords, indexOfEntries, ← filtered, insertAllNew_filter]
  rfl

end Jssql.FileHandler
