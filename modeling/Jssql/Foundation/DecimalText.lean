import Jssql.Foundation.Numeral

/-!
Decimal texts as `strtod` reads them: a sign, digits, a fraction and an exponent. What comes
behind is not converted.
-/
namespace Foundation

/-- One digit or more. -/
def Digits (w : Bytes) : Prop := w ≠ [] ∧ ∀ c ∈ w, isDigit c = true

theorem Digits.append {v w : Bytes} (hv : Digits v) (hw : Digits w) : Digits (v ++ w) :=
  ⟨List.append_ne_nil_of_left_ne_nil hv.1 w, List.forall_mem_append.mpr ⟨hv.2, hw.2⟩⟩

/-- Digits behind a marker, or nothing. -/
inductive DigitsAfter (marker : UInt8) : Bytes → Prop
  | none : DigitsAfter marker []
  | some {ds : Bytes} (digits : Digits ds) : DigitsAfter marker (marker :: ds)

theorem isSpace_digit : ∀ c : UInt8, isDigit c = true → isSpace c = false := by
  grind [isDigit, isSpace]

theorem toLower_digit : ∀ c : UInt8, isDigit c = true → toLower c = c := by
  grind [isDigit, toLower]

/-- The characters of an unsigned decimal text. -/
def isDecimalChar (c : UInt8) : Bool := isDigit c || c == 46 || c == 101

theorem toLower_decimalChar : ∀ c : UInt8, isDecimalChar c = true → toLower c ≠ 120 := by
  grind [isDecimalChar, isDigit, toLower]

theorem span_digits {ds rest : Bytes} (digits : ∀ c ∈ ds, isDigit c = true)
    (stops : ∀ c ∈ rest.head?, isDigit c = false) : (ds ++ rest).span isDigit = (ds, rest) := by
  have none_ : rest.takeWhile isDigit = [] ∧ rest.dropWhile isDigit = rest := by
    cases rest with
    | nil => exact ⟨rfl, rfl⟩
    | cons c rest =>
        have other : ¬ isDigit c = true := by rw [stops c rfl]; exact Bool.false_ne_true
        exact ⟨List.takeWhile_cons_of_neg other, List.dropWhile_cons_of_neg other⟩
  rw [List.span_eq_takeWhile_dropWhile, List.takeWhile_append_of_pos digits, List.dropWhile_append_of_pos digits,
    none_.1, none_.2, List.append_nil]

section DecimalText

variable {whole frac exp rest : Bytes}

theorem DigitsAfter.head_append {marker : UInt8} (h : DigitsAfter marker frac) (other : isDigit marker = false)
    (stops : ∀ c ∈ rest.head?, isDigit c = false) : ∀ c ∈ (frac ++ rest).head?, isDigit c = false := by
  cases h with
  | none => exact stops
  | some digits =>
      rintro c ⟨⟩
      exact other

theorem DigitsAfter.forall_mem {marker : UInt8} (h : DigitsAfter marker frac) (point : isDecimalChar marker = true) :
    ∀ c ∈ frac, isDecimalChar c = true := by
  cases h with
  | none => rintro _ ⟨⟩
  | some digits =>
      refine List.forall_mem_cons.mpr ⟨point, fun c mem => ?_⟩
      rw [isDecimalChar, digits.2 c mem]
      rfl

/-- A sign is taken off in front of a digit. -/
theorem splitSign_digit {sign s : Bytes} (signed : sign = [] ∨ sign = [43] ∨ sign = [45]) {d : UInt8}
    (digit : isDigit d = true) : ∃ negative, splitSign (sign ++ d :: s) = (negative, d :: s) := by
  have others : ∀ d : UInt8, isDigit d = true → d ≠ 45 ∧ d ≠ 43 := by grind [isDigit]
  obtain ⟨minus, plus⟩ := others d digit
  rcases signed with rfl | rfl | rfl
  · refine ⟨false, ?_⟩
    rw [List.nil_append, splitSign]
    · rintro _ ⟨⟩
      exact minus rfl
    · rintro _ ⟨⟩
      exact plus rfl
  · exact ⟨false, rfl⟩
  · exact ⟨true, rfl⟩

theorem exponentPart_decimal (exponent : DigitsAfter 101 exp)
    (stops : ∀ c ∈ rest.head?, isDigit c = false ∧ toLower c ≠ 101) :
    ∃ value, exponentPart 101 (exp ++ rest) = (value, rest) := by
  cases exponent with
  | none =>
      cases rest with
      | nil => exact ⟨0, rfl⟩
      | cons c rest =>
          rw [List.nil_append, exponentPart, if_neg (stops c rfl).2]
          exact ⟨0, rfl⟩
  | @some ds digits =>
      obtain ⟨nonempty, all⟩ := digits
      obtain ⟨d, s, rfl⟩ := List.exists_cons_of_ne_nil nonempty
      obtain ⟨negative, unsigned⟩ := splitSign_digit (s := s ++ rest) (.inl rfl) (all d List.mem_cons_self)
      rw [List.nil_append] at unsigned
      have span := span_digits all fun c first => (stops c first).1
      rw [List.cons_append, exponentPart, if_pos (by decide), List.cons_append, unsigned]
      dsimp only
      rw [← List.cons_append, span]
      dsimp only
      rw [if_neg nonempty]
      exact ⟨_, rfl⟩

theorem stripKeyword_digit {d k : UInt8} (digit : isDigit d = true) (letter : isDigit k = false) (keyword s : Bytes) :
    stripKeyword (k :: keyword) (d :: s) = none := by
  rw [stripKeyword, if_neg]
  intro same
  rw [List.length_cons, List.take_succ_cons, List.map_cons, toLower_digit d digit] at same
  rw [← (List.cons.inj same).1, digit] at letter
  cases letter

theorem hexNumeral_decimal {body : Bytes} (chars : ∀ c ∈ body, isDecimalChar c = true) (negative : Bool) :
    hexNumeral negative body = none := by
  unfold hexNumeral
  split
  · next x s => exact if_neg (toLower_decimalChar x (chars x (List.mem_cons_of_mem _ List.mem_cons_self)))
  · rfl

/-- Where the junk starts. -/
theorem DigitsAfter.junk_head (junk : DigitsAfter 46 rest) : ∀ c ∈ rest.head?, isDigit c = false ∧ toLower c ≠ 101 := by
  cases junk with
  | none => rintro _ ⟨⟩
  | some _ =>
      rintro _ ⟨⟩
      exact ⟨rfl, by decide⟩

theorem decimalNumeral_decimal (digits : Digits whole) (fraction : DigitsAfter 46 frac) (exponent : DigitsAfter 101 exp)
    (junk : DigitsAfter 46 rest) (closed : rest ≠ [] → frac ≠ [] ∨ exp ≠ []) (negative : Bool) :
    ∃ value rangeError, decimalNumeral negative (whole ++ (frac ++ (exp ++ rest))) = some ⟨value, rangeError, rest⟩ := by
  have expHead := exponent.head_append rfl fun c first => (junk.junk_head c first).1
  have fracHead := fraction.head_append rfl expHead
  have span : (whole ++ (frac ++ (exp ++ rest))).span isDigit = (whole, frac ++ (exp ++ rest)) :=
    span_digits digits.2 fracHead
  have some_ (ds : Bytes) : whole ++ ds ≠ [] := List.append_ne_nil_of_left_ne_nil digits.1 ds
  obtain ⟨value, exponentRead⟩ := exponentPart_decimal exponent junk.junk_head
  rw [decimalNumeral, digitsNumeral, span]
  dsimp only
  cases fraction with
  | @some ds fractionDigits =>
      split
      · next r same =>
          have behind : r = ds ++ (exp ++ rest) := (List.cons.inj same).2.symm
          rw [behind, span_digits fractionDigits.2 expHead]
          dsimp only
          rw [if_neg (some_ ds), exponentRead]
          exact ⟨_, _, rfl⟩
      · next other => exact absurd rfl (other _)
  | none =>
      have noPoint : ∀ r, exp ++ rest ≠ 46 :: r := by
        intro r same
        cases exponent with
        | some _ => cases same
        | none =>
            cases junk with
            | none => cases same
            | some _ => exact (closed (List.cons_ne_nil _ _)).elim (fun h => h rfl) fun h => h rfl
      rw [List.nil_append]
      split
      · next r same => exact absurd same (noPoint r)
      · rw [if_neg (some_ []), exponentRead]
        exact ⟨_, _, rfl⟩

/-- A decimal text is converted up to the first thing that does not belong to it. -/
theorem strtod_decimal {sign : Bytes} (signed : sign = [] ∨ sign = [43] ∨ sign = [45]) (digits : Digits whole)
    (fraction : DigitsAfter 46 frac) (exponent : DigitsAfter 101 exp) (junk : DigitsAfter 46 rest)
    (closed : rest ≠ [] → frac ≠ [] ∨ exp ≠ []) :
    ∃ value rangeError, strtod (sign ++ (whole ++ (frac ++ (exp ++ rest)))) = some ⟨value, rangeError, rest⟩ := by
  have decimal := decimalNumeral_decimal digits fraction exponent junk closed
  obtain ⟨nonempty, all⟩ := digits
  obtain ⟨d, s, rfl⟩ := List.exists_cons_of_ne_nil nonempty
  have digit : isDigit d = true := all d List.mem_cons_self
  let body := d :: s ++ (frac ++ (exp ++ rest))
  have chars : ∀ c ∈ body, isDecimalChar c = true := by
    refine List.forall_mem_append.mpr ⟨fun c mem => ?_, List.forall_mem_append.mpr
      ⟨fraction.forall_mem rfl, List.forall_mem_append.mpr ⟨exponent.forall_mem rfl, junk.forall_mem rfl⟩⟩⟩
    rw [isDecimalChar, all c mem]
    rfl
  have unspaced : (sign ++ body).dropWhile isSpace = sign ++ body := by
    rcases signed with rfl | rfl | rfl
    · refine List.dropWhile_cons_of_neg ?_
      rw [isSpace_digit d digit]
      exact Bool.false_ne_true
    · rfl
    · rfl
  obtain ⟨negative, unsigned⟩ := splitSign_digit (s := s ++ (frac ++ (exp ++ rest))) signed digit
  have inf : infNumeral negative body = none := by
    rw [infNumeral, show stripKeyword (ascii "infinity") body = none from stripKeyword_digit digit rfl _ _,
      show stripKeyword (ascii "inf") body = none from stripKeyword_digit digit rfl _ _]
    rfl
  have nan : nanNumeral body = none := by
    rw [nanNumeral, show stripKeyword (ascii "nan") body = none from stripKeyword_digit digit rfl _ _]
    rfl
  have hex : hexNumeral negative body = none := hexNumeral_decimal chars negative
  obtain ⟨value, rangeError, converted⟩ := decimal negative
  refine ⟨value, rangeError, ?_⟩
  rw [strtod, unspaced, show splitSign (sign ++ body) = (negative, body) from unsigned]
  dsimp only
  rw [inf, nan, hex, converted]
  rfl

end DecimalText

end Foundation
