import Jssql.Foundation.Regex

/-!
The text of compiled items. Printing escapes exactly the syntax characters, so compiling
a printed list gives the list back: no character is read as another item, and no star as
one for the item before.
-/
namespace Foundation.Regex

def printAtom : Atom → Bytes
  | .any => [46]
  | .char c => if isSyntaxChar c then [92, c] else [c]

def printItem : Item → Bytes
  | .one a => printAtom a
  | .star a => printAtom a ++ [42]
  | .lineStart => [94]
  | .lineEnd => [36]

/-- The first character of a printed item. -/
theorem printAtom_cons (a : Atom) : ∃ c rest, printAtom a = c :: rest ∧ (c = 46 ∨ c = 92 ∨ isSyntaxChar c = false) := by
  cases a with
  | any => exact ⟨46, [], rfl, .inl rfl⟩
  | char c =>
      cases syntax_ : isSyntaxChar c with
      | true => exact ⟨92, [c], by rw [printAtom, if_pos syntax_], .inr (.inl rfl)⟩
      | false => exact ⟨c, [], by rw [printAtom, syntax_, if_neg Bool.false_ne_true], .inr (.inr syntax_)⟩

theorem atom_printAtom (a : Atom) (rest : Bytes) : atom (printAtom a ++ rest) = some (a, rest) := by
  cases a with
  | any => rfl
  | char c =>
      cases syntax_ : isSyntaxChar c with
      | true => simp [printAtom, atom, syntax_]
      | false =>
          rw [printAtom, syntax_, if_neg Bool.false_ne_true, List.singleton_append]
          have escape : c ≠ 92 := by rintro rfl; exact absurd syntax_ (by decide)
          have dot : c ≠ 46 := by rintro rfl; exact absurd syntax_ (by decide)
          unfold atom
          split
          · rename_i same
            exact absurd (List.cons.inj same).1 escape
          · rename_i same
            exact absurd (List.cons.inj same).1 dot
          · rename_i same
            obtain ⟨rfl, rfl⟩ := List.cons.inj same
            rw [syntax_, if_neg Bool.false_ne_true]
          · rename_i same
            exact absurd same (List.cons_ne_nil _ _)

/-- No printed item starts with a star. -/
theorem printItems_head (items : List Item) : ∀ rest, items.flatMap printItem ≠ 42 :: rest := by
  intro rest same
  cases items with
  | nil => cases same
  | cons item items =>
      have atoms (a : Atom) (more : Bytes) (eq : printAtom a ++ more = 42 :: rest) : False := by
        obtain ⟨c, tail, first, kind⟩ := printAtom_cons a
        rw [first] at eq
        obtain rfl := (List.cons.inj eq).1
        revert kind
        decide
      cases item with
      | one a => exact atoms a _ same
      | star a =>
          rw [List.flatMap_cons, printItem, List.append_assoc] at same
          exact atoms a _ same
      | lineStart => exact absurd (List.cons.inj same).1 (by decide)
      | lineEnd => exact absurd (List.cons.inj same).1 (by decide)

/-- One round of the compiler on an atom. -/
theorem compileAux_atom (fuel : Nat) (a : Atom) (rest : Bytes) :
    compileAux (fuel + 1) (printAtom a ++ rest) =
      match rest with
      | 42 :: rest' => (compileAux fuel rest').map (.star a :: ·)
      | _ => (compileAux fuel rest).map (.one a :: ·) := by
  have read := atom_printAtom a rest
  obtain ⟨c, tail, first, kind⟩ := printAtom_cons a
  have start : c ≠ 94 := by rintro rfl; revert kind; decide
  have finish : c ≠ 36 := by rintro rfl; revert kind; decide
  rw [first, List.cons_append] at read ⊢
  rw [compileAux, read]
  · rfl
  · exact fun none_ => absurd none_ (List.cons_ne_nil _ _)
  · exact fun _ same => start (List.cons.inj same).1
  · exact fun _ same => finish (List.cons.inj same).1

/-- What is printed is compiled to itself. -/
theorem compileAux_print (items : List Item) : ∀ {fuel : Nat},
    (items.flatMap printItem).length ≤ fuel → compileAux fuel (items.flatMap printItem) = some items := by
  induction items with
  | nil => intro fuel _; cases fuel <;> rfl
  | cons item items ih =>
      intro fuel enough
      rw [List.flatMap_cons, List.length_append] at enough
      rw [List.flatMap_cons]
      have some_ : 0 < (printItem item).length := by
        cases item with
        | one a => obtain ⟨c, tail, first, -⟩ := printAtom_cons a; simp [printItem, first]
        | star a => simp [printItem]
        | lineStart | lineEnd => exact Nat.one_pos
      obtain ⟨fuel, rfl⟩ : ∃ less, fuel = less + 1 := ⟨fuel - 1, by omega⟩
      have tail := @ih fuel (by omega)
      cases item with
      | one a =>
          rw [printItem, compileAux_atom]
          split
          · rename_i same
            exact absurd same (printItems_head items _)
          · rw [tail]
            rfl
      | star a =>
          rw [printItem, List.append_assoc, compileAux_atom]
          change (compileAux fuel (items.flatMap printItem)).map (.star a :: ·) = _
          rw [tail]
          rfl
      | lineStart | lineEnd =>
          change (compileAux fuel (items.flatMap printItem)).map _ = _
          rw [tail]
          rfl

theorem compile_print (items : List Item) : compile (items.flatMap printItem) = some items :=
  compileAux_print items (Nat.le_refl _)

/-! Matching -/

/-- A star takes some accepted characters and leaves the rest to what follows. -/
theorem matchStar_iff {a : Atom} {k : Bytes → Bool} {t : Bytes} : matchStar a k t = true ↔
    ∃ skipped rest, t = skipped ++ rest ∧ (∀ c ∈ skipped, a.accepts c = true) ∧ k rest = true := by
  induction t with
  | nil =>
      rw [matchStar]
      constructor
      · exact fun h => ⟨[], [], rfl, by simp, h⟩
      · rintro ⟨skipped, rest, split, -, h⟩
        obtain ⟨-, rfl⟩ := List.nil_eq_append_iff.mp split
        exact h
  | cons c t ih =>
      rw [matchStar, Bool.or_eq_true, Bool.and_eq_true, ih]
      constructor
      · rintro (h | ⟨accepted, skipped, rest, rfl, fits, h⟩)
        · exact ⟨[], c :: t, rfl, by simp, h⟩
        · exact ⟨c :: skipped, rest, rfl, List.forall_mem_cons.mpr ⟨accepted, fits⟩, h⟩
      · rintro ⟨skipped, rest, split, fits, h⟩
        cases skipped with
        | nil => exact .inl (split ▸ h)
        | cons d skipped =>
            obtain ⟨rfl, rfl⟩ := List.cons.inj split
            rw [List.forall_mem_cons] at fits
            exact .inr ⟨fits.1, skipped, rest, rfl, fits.2, h⟩

end Foundation.Regex
