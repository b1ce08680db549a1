import Jssql.Theory.MarkedRecords

/-!
The bytes that marking changes. A marked record differs from the record in the byte
behind its length, so a file with marked records has the length of the old one and
differs from it at these places only.
-/
namespace Jssql.FileHandler
open Foundation

variable {n : Nat}

/-- Where the type bytes stand of the live records that satisfy `p`. -/
def typePlaces (p : TableRecord n → Bool) : Nat → List (TableRecord n) → List Nat
  | _, [] => []
  | start, r :: rest =>
      if isLive r && p r then (start + 8) :: typePlaces p (start + r.encode.length) rest
      else typePlaces p (start + r.encode.length) rest

theorem typePlaces_ge (p : TableRecord n → Bool) (rs : List (TableRecord n)) : ∀ {start place : Nat},
    place ∈ typePlaces p start rs → start + 8 ≤ place := by
  induction rs with
  | nil => intro start place h; cases h
  | cons r rest ih =>
      intro start place h
      rw [typePlaces] at h
      split at h
      · rcases List.mem_cons.mp h with rfl | later
        · exact Nat.le_refl _
        · have := ih later
          omega
      · have := ih h
        omega

theorem length_typePlaces (p : TableRecord n → Bool) (rs : List (TableRecord n)) : ∀ start : Nat,
    (typePlaces p start rs).length = ((liveRecords rs).filter p).length := by
  induction rs with
  | nil => intro start; rfl
  | cons r rest ih =>
      intro start
      have later := ih (start + r.encode.length)
      rw [typePlaces]
      cases state : r.isTombstone with
      | true =>
          rw [liveRecords_cons_tombstone state, if_neg (by simp [isLive, state])]
          exact later
      | false =>
          rw [liveRecords_cons_live state]
          cases hp : p r with
          | true =>
              rw [if_pos (by simp [isLive, state]), List.filter_cons_of_pos hp, List.length_cons, later,
                List.length_cons]
          | false =>
              rw [if_neg (by simp), List.filter_cons_of_neg (by simp [hp])]
              exact later

/-- The byte behind the length is the one that marking overwrites. -/
theorem getElem?_marked_encode (r : StoredRecord) (i : Nat) :
    r.marked.encode[i]? = if i = 8 then some RecordType.delete.toByte else r.encode[i]? := by
  have width : (toLE 8 r.recordLength).length = 8 := length_toLE _ _
  rw [StoredRecord.marked_encode, StoredRecord.encode, List.getElem?_append, List.getElem?_append, width]
  by_cases here : i = 8
  · subst here
    rfl
  · rw [if_neg here]
    split
    · rfl
    · obtain ⟨j, rfl⟩ : ∃ j, i = 8 + (j + 1) := ⟨i - 9, by omega⟩
      rw [Nat.add_sub_cancel_left, List.getElem?_cons_succ, List.getElem?_cons_succ]

theorem getElem?_encodeAll_markMatching (p : TableRecord n → Bool) (rs : List (TableRecord n)) :
    ∀ (start i : Nat), (encodeAll (markMatching p rs))[i]? =
      if start + i ∈ typePlaces p start rs then some RecordType.delete.toByte else (encodeAll rs)[i]? := by
  induction rs with
  | nil => intro start i; rfl
  | cons r rest ih =>
      intro start i
      let marks := isLive r && p r
      have cons : encodeAll (markMatching p (r :: rest)) =
          (if marks then r.marked.encode else r.encode) ++ encodeAll (markMatching p rest) := by
        rw [markMatching, List.map_cons, encodeAll_cons]
        by_cases h : marks = true
        · rw [if_pos h, if_pos h]
          rfl
        · rw [if_neg h, if_neg h]
          rfl
      have width : (if marks then r.marked.encode else r.encode).length = r.encode.length := by
        split
        · exact StoredRecord.marked_encode_length _
        · rfl
      have long : 9 ≤ r.encode.length := by
        rw [StoredRecord.length_encode, StoredRecord.recordLength]
        omega
      have places : start + i ∈ typePlaces p start (r :: rest) ↔
          (marks = true ∧ i = 8) ∨ start + i ∈ typePlaces p (start + r.encode.length) rest := by
        rw [typePlaces]
        by_cases h : marks = true
        · rw [if_pos h, List.mem_cons, Nat.add_right_inj, and_iff_right h]
        · rw [if_neg h]
          simp [h]
      rw [cons, encodeAll_cons, List.getElem?_append, List.getElem?_append, width]
      by_cases inside : i < r.encode.length
      · -- the places of the later records are behind this one
        have before : start + i ∉ typePlaces p (start + r.encode.length) rest := fun h => by
          have := typePlaces_ge p rest h
          omega
        rw [if_pos inside, if_pos inside]
        by_cases h : marks = true
        · rw [if_pos h, TableRecord.marked_toStoredRecord, getElem?_marked_encode]
          exact if_congr (by rw [places]; simp [h, before]) rfl rfl
        · rw [if_neg h, if_neg (by rw [places]; simp [h, before])]
      · have later := ih (start + r.encode.length) (i - r.encode.length)
        rw [show start + r.encode.length + (i - r.encode.length) = start + i by omega] at later
        rw [if_neg inside, if_neg inside, later]
        exact if_congr (by rw [places]; simp [show i ≠ 8 by omega]) rfl rfl

theorem encodeAll_markMatching_length (p : TableRecord n → Bool) (rs : List (TableRecord n)) :
    (encodeAll (markMatching p rs)).length = (encodeAll rs).length := by
  induction rs with
  | nil => rfl
  | cons r rest ih =>
      rw [markMatching, List.map_cons, ← markMatching, encodeAll_cons, encodeAll_cons, List.length_append,
        List.length_append, ih]
      split
      · rw [TableRecord.marked_toStoredRecord, StoredRecord.marked_encode_length]
      · rfl

/-- The new content has the old length and is the old one but for the type bytes. -/
structure OnlyTypesChanged (p : TableRecord n → Bool) (f : TableFile n) (content : Bytes) : Prop where
  length : content.length = f.bytes.length
  bytes : ∀ i, content[i]? =
    if i ∈ typePlaces p 32 f.records then some RecordType.delete.toByte else f.bytes[i]?

theorem onlyTypesChanged_markMatching (p : TableRecord n → Bool) (f : TableFile n) :
    OnlyTypesChanged p f (f.withRecords (markMatching p f.records)).bytes where
  length := by
    rw [TableFile.length_bytes, TableFile.length_bytes, TableFile.withRecords_records,
      encodeAll_markMatching_length]
  bytes i := by
    have header := f.header_length
    rw [TableFile.bytes, TableFile.bytes, TableFile.withRecords_header, TableFile.withRecords_records,
      List.getElem?_append, List.getElem?_append]
    by_cases inside : i < f.header.length
    · have outside : i ∉ typePlaces p 32 f.records := fun h => by
        have := typePlaces_ge p f.records h
        omega
      rw [if_pos inside, if_pos inside, if_neg outside]
    · have marks := getElem?_encodeAll_markMatching p f.records 32 (i - f.header.length)
      rw [show 32 + (i - f.header.length) = i by omega] at marks
      rw [if_neg inside, if_neg inside, marks]

/-- The content is determined by the records that are marked. -/
theorem OnlyTypesChanged.eq {p : TableRecord n → Bool} {f : TableFile n} {content : Bytes}
    (changed : OnlyTypesChanged p f content) : content = (f.withRecords (markMatching p f.records)).bytes := by
  refine List.ext_getElem? fun i => ?_
  rw [changed.bytes, (onlyTypesChanged_markMatching p f).bytes]

/-! The records that are marked are determined by the bytes -/

theorem marked_encode_ne {r : TableRecord n} (live : r.isTombstone = false) : r.marked.encode ≠ r.encode := by
  intro same
  have byte := congrArg (fun bytes => bytes[8]?) same
  simp only [TableRecord.marked_toStoredRecord, getElem?_marked_encode, if_true] at byte
  rw [getElem?_encode, Option.some.injEq] at byte
  rw [StoredRecord.isTombstone, ← byte] at live
  cases live

theorem encodeAll_markMatching_inj {p q : TableRecord n → Bool} {rs : List (TableRecord n)}
    (same : encodeAll (markMatching p rs) = encodeAll (markMatching q rs)) :
    ∀ r ∈ liveRecords rs, p r = q r := by
  induction rs with
  | nil => intro r hr; cases hr
  | cons r rest ih =>
      have cons (m : TableRecord n → Bool) : encodeAll (markMatching m (r :: rest)) =
          (if isLive r && m r then r.marked else r).encode ++ encodeAll (markMatching m rest) := rfl
      have width (m : TableRecord n → Bool) :
          (if isLive r && m r then r.marked else r).encode.length = r.encode.length := by
        split
        · exact StoredRecord.marked_encode_length _
        · rfl
      rw [cons, cons] at same
      obtain ⟨head, tail⟩ := List.append_inj same ((width p).trans (width q).symm)
      cases state : r.isTombstone with
      | true =>
          rw [liveRecords_cons_tombstone state]
          exact ih tail
      | false =>
          rw [liveRecords_cons_live state, List.forall_mem_cons]
          refine ⟨?_, ih tail⟩
          have live : isLive r = true := by simp [isLive, state]
          have apart := marked_encode_ne state
          rw [live, Bool.true_and, Bool.true_and] at head
          cases hp : p r with
          | false =>
              cases hq : q r with
              | false => rfl
              | true => rw [hp, hq] at head; exact absurd head.symm apart
          | true =>
              cases hq : q r with
              | false => rw [hp, hq] at head; exact absurd head apart
              | true => rfl

end Jssql.FileHandler
