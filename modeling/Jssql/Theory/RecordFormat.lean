import Jssql.DBEngine.FileHandler.Serializer

/-!
The file format as the writer leaves it. A `TableRecord` carries what every
record of a table shares: one offset entry and one literal for each column
besides the key, and a length that a signed seek can express. A table file is a
valid header and a list of such records.
-/
namespace Jssql.FileHandler
open Foundation

namespace StoredRecord

/-- The length field counts what follows it. -/
def recordLength (r : StoredRecord) : Nat := 1 + r.body.length

def encode (r : StoredRecord) : Bytes := toLE 8 r.recordLength ++ r.recordType :: r.body

def isTombstone (r : StoredRecord) : Bool :=
  r.recordType == RecordType.delete.toByte || r.recordType == RecordType.unused.toByte

/-- The values in the order in which they stand in the file. -/
def row (r : StoredRecord) : Record := r.pkLiteral :: r.payloadLiterals

/-- The record with its type byte overwritten. -/
def marked (r : StoredRecord) : StoredRecord := { r with recordType := RecordType.delete.toByte }

@[simp] theorem marked_body (r : StoredRecord) : r.marked.body = r.body := rfl

@[simp] theorem marked_recordLength (r : StoredRecord) : r.marked.recordLength = r.recordLength := rfl

@[simp] theorem marked_row (r : StoredRecord) : r.marked.row = r.row := rfl

@[simp] theorem marked_isTombstone (r : StoredRecord) : r.marked.isTombstone = true := rfl

theorem length_encode (r : StoredRecord) : r.encode.length = 8 + r.recordLength := by
  simp [encode, recordLength]; omega

theorem marked_encode (r : StoredRecord) :
    r.marked.encode = toLE 8 r.recordLength ++ RecordType.delete.toByte :: r.body := rfl

@[simp] theorem marked_encode_length (r : StoredRecord) :
    r.marked.encode.length = r.encode.length := by simp [length_encode]

theorem body_eq_row (r : StoredRecord) : r.body = r.columnRegion ++ r.row.flatMap encodeString := by
  simp [body, row, payload]

end StoredRecord

/-- A record of a table with `n` columns besides the key. -/
structure TableRecord (n : Nat) extends StoredRecord where
  offsets_length : columnOffsets.length = n
  literals_length : payloadLiterals.length = n
  padding_length : ∀ off ∈ columnOffsets, off.padding.length = 7
  recordLength_lt : toStoredRecord.recordLength < 2 ^ 63

namespace TableRecord

variable {n : Nat}

theorem ext {r s : TableRecord n} (h : r.toStoredRecord = s.toStoredRecord) : r = s := by
  cases r; cases s; cases h; rfl

def marked (r : TableRecord n) : TableRecord n where
  toStoredRecord := r.toStoredRecord.marked
  offsets_length := r.offsets_length
  literals_length := r.literals_length
  padding_length := r.padding_length
  recordLength_lt := r.recordLength_lt

@[simp] theorem marked_toStoredRecord (r : TableRecord n) :
    r.marked.toStoredRecord = r.toStoredRecord.marked := rfl

theorem length_row (r : TableRecord n) : r.row.length = n + 1 := by
  simp [StoredRecord.row, r.literals_length]

theorem length_columnRegion (r : TableRecord n) : r.columnRegion.length = 16 * n := by
  have entry (offs : List ColumnOffset) (h : ∀ off ∈ offs, off.padding.length = 7) :
      (offs.flatMap encodeColumnOffset).length = 16 * offs.length := by
    induction offs with
    | nil => rfl
    | cons off rest ih =>
        have head : off.padding.length = 7 := h off (by simp)
        have tail := ih fun o ho => h o (by simp [ho])
        simp only [List.flatMap_cons, List.length_append, tail, encodeColumnOffset,
          length_toLE, List.length_cons, head]
        omega
  simpa only [StoredRecord.columnRegion, r.offsets_length] using entry _ r.padding_length

theorem recordLength_eq (r : TableRecord n) :
    r.recordLength = 1 + 16 * n + (r.row.flatMap encodeString).length := by
  simp only [StoredRecord.recordLength, StoredRecord.body_eq_row, List.length_append,
    length_columnRegion]
  omega

/-- Every value of a record is shorter than the record. -/
theorem length_value_lt (r : TableRecord n) {value : Bytes} (h : value ∈ r.row) :
    value.length + 16 * n + 9 ≤ r.recordLength := by
  obtain ⟨before, after, split⟩ := List.append_of_mem h
  have part : (encodeString value).length ≤ (r.row.flatMap encodeString).length := by
    simp only [split, List.flatMap_append, List.flatMap_cons, List.length_append]
    omega
  rw [length_encodeString] at part
  rw [recordLength_eq]
  omega

end TableRecord

/-! Lists of records -/

section Records

variable {n : Nat}

def encodeAll (rs : List (TableRecord n)) : Bytes := rs.flatMap fun r => r.encode

@[simp] theorem encodeAll_nil : encodeAll ([] : List (TableRecord n)) = [] := rfl

@[simp] theorem encodeAll_cons (r : TableRecord n) (rs : List (TableRecord n)) :
    encodeAll (r :: rs) = r.encode ++ encodeAll rs := rfl

@[simp] theorem encodeAll_append (rs ss : List (TableRecord n)) :
    encodeAll (rs ++ ss) = encodeAll rs ++ encodeAll ss := List.flatMap_append

/-- There are more rounds in a scan than records in the file. -/
theorem length_lt_encodeAll (rs : List (TableRecord n)) :
    9 * rs.length ≤ (encodeAll rs).length := by
  induction rs with
  | nil => exact Nat.le_refl 0
  | cons r rest ih =>
      simp only [encodeAll_cons, List.length_cons, List.length_append,
        StoredRecord.length_encode, StoredRecord.recordLength]
      omega

theorem recordLength_of_encode {r s : TableRecord n} {before after : Bytes}
    (same : r.encode ++ before = s.encode ++ after) : r.recordLength = s.recordLength := by
  have bound (q : TableRecord n) : q.recordLength < 256 ^ 8 := Nat.lt_trans q.recordLength_lt (by decide)
  rw [StoredRecord.encode, StoredRecord.encode, List.append_assoc, List.append_assoc] at same
  obtain ⟨field, -⟩ := List.append_inj same (by rw [length_toLE, length_toLE])
  have := congrArg ofLE field
  rwa [ofLE_toLE_of_lt (bound r), ofLE_toLE_of_lt (bound s)] at this

/-- The bytes of a file are those of its records, one by one. -/
theorem encodeAll_inj {rs : List (TableRecord n)} : ∀ {ss : List (TableRecord n)},
    encodeAll rs = encodeAll ss → List.Forall₂ (fun r s => r.encode = s.encode) rs ss := by
  have some_ (r : TableRecord n) (rest : List (TableRecord n)) : encodeAll (r :: rest) ≠ [] := by
    rw [encodeAll_cons, StoredRecord.encode]
    simp
  induction rs with
  | nil =>
      intro ss same
      cases ss with
      | nil => exact .nil
      | cons s ss => exact absurd same.symm (some_ s ss)
  | cons r rs ih =>
      intro ss same
      cases ss with
      | nil => exact absurd same (some_ r rs)
      | cons s ss =>
          rw [encodeAll_cons, encodeAll_cons] at same
          have width : r.encode.length = s.encode.length := by
            rw [StoredRecord.length_encode, StoredRecord.length_encode, recordLength_of_encode same]
          obtain ⟨head, tail⟩ := List.append_inj same width
          exact .cons head (ih tail)

theorem length_of_encodeAll {rs ss : List (TableRecord n)} (same : encodeAll rs = encodeAll ss) :
    rs.length = ss.length := (encodeAll_inj same).length_eq

/-- The byte behind the length is the type. -/
theorem getElem?_encode (r : StoredRecord) : r.encode[8]? = some r.recordType := by
  rw [StoredRecord.encode, List.getElem?_append_right (Nat.le_of_eq (length_toLE 8 _)), length_toLE]
  rfl

theorem isTombstone_of_encode {r s : StoredRecord} (same : r.encode = s.encode) :
    r.isTombstone = s.isTombstone := by
  have type := congrArg (fun bytes => bytes[8]?) same
  rw [getElem?_encode, getElem?_encode, Option.some.injEq] at type
  rw [StoredRecord.isTombstone, StoredRecord.isTombstone, type]

def isLive (r : TableRecord n) : Bool := !r.isTombstone

def liveRecords (rs : List (TableRecord n)) : List (TableRecord n) := rs.filter isLive

/-- Bytes tell how many records are live. -/
theorem length_liveRecords_of_encodeAll {rs ss : List (TableRecord n)} (same : encodeAll rs = encodeAll ss) :
    (liveRecords rs).length = (liveRecords ss).length := by
  have each := encodeAll_inj same
  clear same
  rw [liveRecords, liveRecords, ← List.countP_eq_length_filter, ← List.countP_eq_length_filter]
  induction each with
  | nil => rfl
  | @cons r s rs ss head _ ih =>
      have state : isLive r = isLive s := by rw [isLive, isLive, isTombstone_of_encode head]
      rw [List.countP_cons, List.countP_cons, ih, state]

/-- The keys of the live records with the offsets of their type bytes, the first
record starting at `start`. -/
def liveEntries : Nat → List (TableRecord n) → List (Bytes × Nat)
  | _, [] => []
  | start, r :: rest =>
      if r.isTombstone then liveEntries (start + r.encode.length) rest
      else (r.pkLiteral, start + 8) :: liveEntries (start + r.encode.length) rest

/-- The index of a list of entries: the first entry of a key counts. -/
def indexOfEntries (entries : List (Bytes × Nat)) : Index :=
  insertAllNew ∅ entries

end Records

/-- The content of a table file: a valid header and records. -/
structure TableFile (n : Nat) where
  header : Bytes
  header_length : header.length = 32
  header_magic : ofLE (header.take 8) = dbMagic
  records : List (TableRecord n)

namespace TableFile

variable {n : Nat}

def bytes (f : TableFile n) : Bytes := f.header ++ encodeAll f.records

def withRecords (f : TableFile n) (rs : List (TableRecord n)) : TableFile n :=
  { f with records := rs }

/-- The index that the records of the file determine. -/
def index (f : TableFile n) : Index := indexOfEntries (liveEntries 32 f.records)

/-- The file `createTableFile` makes, with records after its header. -/
def fresh (rs : List (TableRecord n)) : TableFile n where
  header := tableFileHeader
  header_length := by simp [tableFileHeader]
  header_magic := by decide
  records := rs

@[simp] theorem withRecords_records (f : TableFile n) (rs : List (TableRecord n)) :
    (f.withRecords rs).records = rs := rfl

@[simp] theorem withRecords_header (f : TableFile n) (rs : List (TableRecord n)) :
    (f.withRecords rs).header = f.header := rfl

theorem length_bytes (f : TableFile n) : f.bytes.length = 32 + (encodeAll f.records).length := by
  simp [bytes, f.header_length]

end TableFile
end Jssql.FileHandler
