import Jssql.DBEngine.FileHandler.Handlers

/-!
Rows of comma-separated fields. A quote only switches the splitter between its two states,
so a field that is wrapped comes back without its quotes and with its commas.
-/
namespace Jssql.FileHandler
open Foundation

/-- A field as it is, or between double quotes. -/
def writtenField (wrapped : Bool) (field : Bytes) : Bytes :=
  if wrapped then doubleQuote :: field ++ [doubleQuote] else field

/-- The row of these fields, each with the choice whether it is wrapped. -/
def csvRow (fields : List (Bool × Bytes)) : Bytes :=
  List.intercalate [comma] (fields.map fun field => writtenField field.1 field.2)

/-- Characters that neither switch the state nor end the field are collected. -/
theorem parseCsvFields_collect {inQuotes : Bool} {field : Bytes} (noQuotes : doubleQuote ∉ field)
    (commas : comma ∈ field → inQuotes = true) (current rest : Bytes) :
    parseCsvFields inQuotes current (field ++ rest) = parseCsvFields inQuotes (current ++ field) rest := by
  induction field generalizing current with
  | nil => rw [List.nil_append, List.append_nil]
  | cons c field ih =>
      rw [List.mem_cons, not_or] at noQuotes
      have inside : ¬ (c = comma ∧ (!inQuotes) = true) := by
        rintro ⟨rfl, outside⟩
        rw [commas List.mem_cons_self] at outside
        cases outside
      rw [List.cons_append, parseCsvFields, if_neg (Ne.symm noQuotes.1), if_neg inside,
        ih noQuotes.2 fun mem => commas (List.mem_cons_of_mem c mem), List.append_assoc]
      rfl

/-- From the state between two fields a written field is collected without its quotes. -/
theorem parseCsvFields_writtenField {wrapped : Bool} {field : Bytes} (noQuotes : doubleQuote ∉ field)
    (commas : comma ∈ field → wrapped = true) (rest : Bytes) :
    parseCsvFields false [] (writtenField wrapped field ++ rest) = parseCsvFields false field rest := by
  cases wrapped with
  | false => exact parseCsvFields_collect noQuotes commas [] rest
  | true =>
      rw [writtenField, if_pos rfl, List.cons_append, List.cons_append, parseCsvFields, if_pos rfl, List.append_assoc]
      refine (parseCsvFields_collect noQuotes commas [] _).trans ?_
      rw [List.nil_append, List.singleton_append, parseCsvFields, if_pos rfl]
      rfl

/-- The splitter gives back the fields of a row. -/
theorem parseCsvRow_csvRow (fields : List (Bool × Bytes)) (nonempty : fields ≠ [])
    (noQuotes : ∀ field ∈ fields, doubleQuote ∉ field.2)
    (commas : ∀ field ∈ fields, comma ∈ field.2 → field.1 = true) :
    parseCsvRow (csvRow fields) = fields.map Prod.snd := by
  induction fields with
  | nil => exact absurd rfl nonempty
  | cons field others ih =>
      rw [List.forall_mem_cons] at noQuotes commas
      rw [parseCsvRow, csvRow]
      cases others with
      | nil =>
          have last := parseCsvFields_writtenField noQuotes.1 commas.1 []
          rw [List.append_nil] at last
          rw [List.map_singleton, List.intercalate_singleton, last]
          rfl
      | cons next others =>
          have rest := ih (List.cons_ne_nil _ _) noQuotes.2 commas.2
          rw [List.map_cons, List.map_cons, List.intercalate_cons_cons, List.append_assoc,
            parseCsvFields_writtenField noQuotes.1 commas.1, List.map_cons, ← rest]
          rfl

/-- The row `"a,b",,""`. -/
theorem parseCsvRow_csvRow_three :
    parseCsvRow (csvRow [(true, ascii "a,b"), (false, []), (true, [])]) = [ascii "a,b", [], []] :=
  parseCsvRow_csvRow _ (List.cons_ne_nil _ _) (by decide) (by decide)

end Jssql.FileHandler
