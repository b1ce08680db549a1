import Mathlib

/-!
Lists put together with a separator and cut at it again. The parts come back as
they were exactly when none of them contains the separator; the number of parts
that come back already tells.
-/
namespace Foundation

variable {α β : Type}

/-- Parts of lists that are never empty: as many as lists when each list has one. -/
theorem length_flatMap_eq_iff {f : α → List β} (xs : List α) (some_ : ∀ x ∈ xs, f x ≠ []) :
    (xs.flatMap f).length = xs.length ↔ ∀ x ∈ xs, (f x).length = 1 := by
  have many : ∀ ys : List α, (∀ y ∈ ys, f y ≠ []) → ys.length ≤ (ys.flatMap f).length := by
    intro ys
    induction ys with
    | nil => simp
    | cons y rest ih =>
        intro h
        have first := List.length_pos_iff.mpr (h y (by simp))
        have others := ih fun z hz => h z (by simp [hz])
        simp only [List.flatMap_cons, List.length_append, List.length_cons]
        omega
  induction xs with
  | nil => simp
  | cons x rest ih =>
      have first := List.length_pos_iff.mpr (some_ x (by simp))
      have others : ∀ y ∈ rest, f y ≠ [] := fun y hy => some_ y (by simp [hy])
      have bound := many rest others
      simp only [List.flatMap_cons, List.length_append, List.length_cons, List.forall_mem_cons,
        ← ih others]
      omega

theorem mem_joined {parts : List (List α)} {part : List α} {a x : α} (hp : part ∈ parts) (hx : x ∈ part) :
    x ∈ [a].intercalate parts := by
  induction parts with
  | nil => cases hp
  | cons first rest ih =>
      cases rest with
      | nil => simpa using (List.mem_singleton.mp hp) ▸ hx
      | cons next others =>
          have step : [a].intercalate (first :: next :: others) =
              first ++ a :: [a].intercalate (next :: others) := by simp [List.intercalate]
          rw [step, List.mem_append, List.mem_cons]
          rcases List.mem_cons.mp hp with rfl | hp
          · exact .inl hx
          · exact .inr (.inr (ih hp))

theorem length_le_joined {parts : List (List α)} {part : List α} {a : α} (hp : part ∈ parts) :
    part.length ≤ ([a].intercalate parts).length := by
  induction parts with
  | nil => cases hp
  | cons first rest ih =>
      cases rest with
      | nil => simp [List.mem_singleton.mp hp]
      | cons next others =>
          have step : [a].intercalate (first :: next :: others) =
              first ++ a :: [a].intercalate (next :: others) := by simp [List.intercalate]
          rw [step, List.length_append, List.length_cons]
          rcases List.mem_cons.mp hp with rfl | hp
          · omega
          · have := ih hp
            omega

theorem mem_of_mem_joined {parts : List (List α)} {a x : α} (h : x ∈ [a].intercalate parts) :
    x = a ∨ ∃ part ∈ parts, x ∈ part := by
  induction parts with
  | nil => simp at h
  | cons first rest ih =>
      cases rest with
      | nil => exact .inr ⟨first, by simp, by simpa using h⟩
      | cons next others =>
          have step : [a].intercalate (first :: next :: others) =
              first ++ a :: [a].intercalate (next :: others) := by simp [List.intercalate]
          rw [step, List.mem_append, List.mem_cons] at h
          rcases h with here | here | there
          · exact .inr ⟨first, by simp, here⟩
          · exact .inl here
          · rcases ih there with same | ⟨part, hp, hx⟩
            · exact .inl same
            · exact .inr ⟨part, List.mem_cons_of_mem _ hp, hx⟩

section Separator

variable [BEq α] [LawfulBEq α] {a : α}

theorem length_splitOn_eq_one {xs : List α} : (xs.splitOn a).length = 1 ↔ a ∉ xs := by
  constructor
  · intro one mem
    obtain ⟨l, r, rfl⟩ := List.append_of_mem mem
    have left := List.length_pos_iff.mpr (List.splitOn_ne_nil a l)
    have right := List.length_pos_iff.mpr (List.splitOn_ne_nil a r)
    rw [List.splitOn_append_cons_self, List.length_append] at one
    omega
  · intro none_
    rw [List.splitOn_eq_singleton none_]
    rfl

theorem length_le_of_mem_splitOn {xs part : List α} (mem : part ∈ xs.splitOn a) : part.length ≤ xs.length := by
  have joined : [a].intercalate (xs.splitOn a) = xs := List.intercalate_splitOn a
  exact joined ▸ length_le_joined (a := a) mem

/-- Parts that each end with the separator. -/
theorem splitOn_terminated (parts : List (List α)) :
    (parts.flatMap fun part => part ++ [a]).splitOn a =
      (parts.flatMap fun part => part.splitOn a) ++ [[]] := by
  induction parts with
  | nil => rfl
  | cons part rest ih =>
      rw [List.flatMap_cons, List.append_assoc, List.singleton_append, List.splitOn_append_cons_self,
        ih, List.flatMap_cons, List.append_assoc]

/-- Parts with the separator between them. -/
theorem splitOn_joined {parts : List (List α)} (some_ : parts ≠ []) :
    ([a].intercalate parts).splitOn a = parts.flatMap fun part => part.splitOn a := by
  induction parts with
  | nil => exact absurd rfl some_
  | cons part rest ih =>
      cases rest with
      | nil => simp
      | cons next others =>
          have step : [a].intercalate (part :: next :: others) =
              part ++ a :: [a].intercalate (next :: others) := by simp [List.intercalate]
          rw [step, List.splitOn_append_cons_self, ih (by simp)]
          rfl

/-! Parts of which the empty ones are dropped -/

/-- What is left of a list that is cut at the separator. -/
def keptParts (a : α) (xs : List α) : List (List α) :=
  (xs.splitOn a).filter fun part => !part.isEmpty

theorem keptParts_joined (parts : List (List α)) :
    keptParts a ([a].intercalate parts) = parts.flatMap (keptParts a) := by
  cases parts with
  | nil => rfl
  | cons part rest =>
      rw [keptParts, splitOn_joined (by simp), List.filter_flatMap]
      rfl

theorem keptParts_ne_nil {xs : List α} (other : ∃ x ∈ xs, x ≠ a) : keptParts a xs ≠ [] := by
  intro none_
  obtain ⟨x, mem, other⟩ := other
  have empty_ : ∀ part ∈ xs.splitOn a, part = [] := by
    intro part hp
    by_contra full
    have kept : part ∈ keptParts a xs := List.mem_filter.mpr ⟨hp, by simpa using full⟩
    rw [none_] at kept
    cases kept
  have only : ∀ parts : List (List α), (∀ part ∈ parts, part = []) →
      ∀ y ∈ [a].intercalate parts, y = a := by
    intro parts
    induction parts with
    | nil => intro _ y hy; simp at hy
    | cons part rest ih =>
        intro h y hy
        obtain ⟨rfl, others_⟩ := List.forall_mem_cons.mp h
        cases rest with
        | nil => simp at hy
        | cons next others =>
            have step : [a].intercalate ([] :: next :: others) =
                a :: [a].intercalate (next :: others) := by simp [List.intercalate]
            rw [step, List.mem_cons] at hy
            exact hy.elim id (ih others_ y)
  have joined : [a].intercalate (xs.splitOn a) = xs := List.intercalate_splitOn a
  rw [← joined] at mem
  exact other (only _ empty_ x mem)

/-- A list with another element at each end keeps one part when it has no separator. -/
theorem length_keptParts_eq_one {xs : List α} {first last : α} (head : xs.head? = some first)
    (first_ne : first ≠ a) (tail : xs.getLast? = some last) (last_ne : last ≠ a) :
    (keptParts a xs).length = 1 ↔ a ∉ xs := by
  constructor
  · intro one mem
    obtain ⟨l, r, rfl⟩ := List.append_of_mem mem
    have left : keptParts a l ≠ [] := by
      refine keptParts_ne_nil ⟨first, ?_, first_ne⟩
      cases l with
      | nil => exact absurd (Option.some.inj head).symm first_ne
      | cons x rest =>
          rw [List.cons_append, List.head?_cons, Option.some.injEq] at head
          simp [head]
    have right : keptParts a r ≠ [] := by
      refine keptParts_ne_nil ⟨last, ?_, last_ne⟩
      cases r with
      | nil =>
          rw [List.getLast?_append, List.getLast?_singleton, Option.some_or, Option.some.injEq] at tail
          exact absurd tail.symm last_ne
      | cons x rest =>
          rw [List.getLast?_append_of_ne_nil _ (by simp), List.getLast?_cons_cons] at tail
          exact List.mem_of_getLast? tail
    rw [← List.length_pos_iff] at left right
    rw [keptParts, List.splitOn_append_cons_self, List.filter_append, List.length_append] at one
    simp only [keptParts] at left right
    omega
  · intro none_
    have full : xs ≠ [] := by
      rintro rfl
      cases head
    rw [keptParts, List.splitOn_eq_singleton none_]
    simp [full]

end Separator
end Foundation
