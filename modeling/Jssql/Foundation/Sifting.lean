import Mathlib.Data.List.Basic
import Mathlib.Data.List.Forall2

/-!
Lists that are gone through up to an error. `sift` takes out the elements that pass a test,
`mapUntil` maps the elements, and both leave what is behind the first error alone. `Pruned`
says of two lists that the second is the first without some of the elements of a kind, and
`Changed` that it has besides new elements of a kind, behind those that are left.
-/
namespace Foundation

variable {α β γ ε : Type}

/-! Elements taken out -/

inductive Pruned (p : α → Prop) : List α → List α → Prop
  | nil : Pruned p [] []
  | keep {a : α} {as bs : List α} (rest : Pruned p as bs) : Pruned p (a :: as) (a :: bs)
  | drop {a : α} {as bs : List α} (kind : p a) (rest : Pruned p as bs) : Pruned p (a :: as) bs

namespace Pruned

variable {p q : α → Prop} {as bs cs ds : List α}

theorem refl (as : List α) : Pruned p as as := by
  induction as with
  | nil => exact .nil
  | cons a as ih => exact ih.keep

theorem mono (weaker : ∀ a, p a → q a) (h : Pruned p as bs) : Pruned q as bs := by
  induction h with
  | nil => exact .nil
  | keep _ ih => exact ih.keep
  | drop kind _ ih => exact ih.drop (weaker _ kind)

theorem trans (h : Pruned p as bs) (h' : Pruned p bs cs) : Pruned p as cs := by
  induction h generalizing cs with
  | nil => exact h'
  | keep _ ih =>
      cases h' with
      | keep rest => exact (ih rest).keep
      | drop kind rest => exact (ih rest).drop kind
  | drop kind _ ih => exact (ih h').drop kind

theorem append (h : Pruned p as bs) (h' : Pruned p cs ds) : Pruned p (as ++ cs) (bs ++ ds) := by
  induction h with
  | nil => exact h'
  | keep _ ih => exact ih.keep
  | drop kind _ ih => exact ih.drop kind

/-- A list that is cut in two before elements are taken out is cut in two afterwards. -/
theorem of_append (h : Pruned p (as ++ cs) bs) : ∃ kept rest, bs = kept ++ rest ∧ Pruned p as kept ∧ Pruned p cs rest := by
  induction as generalizing bs with
  | nil => exact ⟨[], bs, rfl, .nil, h⟩
  | cons a as ih =>
      cases h with
      | keep behind =>
          obtain ⟨kept, rest, rfl, front, back⟩ := ih behind
          exact ⟨a :: kept, rest, rfl, front.keep, back⟩
      | drop kind behind =>
          obtain ⟨kept, rest, rfl, front, back⟩ := ih behind
          exact ⟨kept, rest, rfl, front.drop kind, back⟩

theorem one {a : α} (kind : p a) : Pruned p (as ++ a :: bs) (as ++ bs) :=
  (refl as).append ((refl bs).drop kind)

theorem eq_of_none (none_ : ∀ a, ¬ p a) (h : Pruned p as bs) : bs = as := by
  induction h with
  | nil => rfl
  | keep _ ih => rw [ih]
  | drop kind _ _ => exact absurd kind (none_ _)

theorem subset (h : Pruned p as bs) : bs ⊆ as := by
  induction h with
  | nil => exact List.Subset.refl _
  | keep _ ih => exact List.cons_subset_cons _ ih
  | drop _ _ ih => exact List.subset_cons_of_subset _ ih

end Pruned

/-- Some of the elements are gone, and new ones are behind those that are left. -/
def Changed (gone new : α → Prop) (as bs : List α) : Prop :=
  ∃ kept news, bs = kept ++ news ∧ Pruned gone as kept ∧ ∀ a ∈ news, new a

namespace Changed

variable {gone gone' new new' : α → Prop} {as bs cs : List α}

theorem refl (as : List α) : Changed gone new as as :=
  ⟨as, [], (List.append_nil as).symm, .refl as, fun _ mem => absurd mem List.not_mem_nil⟩

theorem of_pruned (h : Pruned gone as bs) : Changed gone new as bs :=
  ⟨bs, [], (List.append_nil bs).symm, h, fun _ mem => absurd mem List.not_mem_nil⟩

theorem mono (goes : ∀ a, gone a → gone' a) (comes : ∀ a, new a → new' a) (h : Changed gone new as bs) :
    Changed gone' new' as bs := by
  obtain ⟨kept, news, parts, pruned, written⟩ := h
  exact ⟨kept, news, parts, pruned.mono goes, fun a mem => comes a (written a mem)⟩

theorem trans (h : Changed gone new as bs) (h' : Changed gone new bs cs) : Changed gone new as cs := by
  obtain ⟨kept, news, rfl, pruned, written⟩ := h
  obtain ⟨_, news', rfl, pruned', written'⟩ := h'
  obtain ⟨kept', rest, rfl, front, back⟩ := pruned'.of_append
  refine ⟨kept', rest ++ news', List.append_assoc .., pruned.trans front, fun a mem => ?_⟩
  rcases List.mem_append.mp mem with old | late
  · exact written a (back.subset old)
  · exact written' a late

end Changed

/-! Images -/

theorem forall₂_map_eq {f : α → β} {as bs : List α} :
    List.Forall₂ (fun a b => f b = f a) as bs ↔ bs.map f = as.map f := by
  rw [← List.forall₂_eq_eq_eq, List.forall₂_map_left_iff, List.forall₂_map_right_iff]
  exact ⟨fun h => h.flip, fun h => h.flip⟩

/-! Sifting -/

/-- The elements that are left, those taken out, and the error that has stopped it. -/
structure Sifted (α ε : Type) where
  kept : List α
  taken : List α
  stop : Option ε

def sift (test : α → Except ε Bool) : List α → Sifted α ε
  | [] => ⟨[], [], none⟩
  | a :: as =>
      match test a with
      | .error e => ⟨a :: as, [], some e⟩
      | .ok true => { sift test as with taken := a :: (sift test as).taken }
      | .ok false => { sift test as with kept := a :: (sift test as).kept }

section Sift

variable {test : α → Except ε Bool} {a : α} {as : List α}

theorem sift_error {e : ε} (answer : test a = .error e) : sift test (a :: as) = ⟨a :: as, [], some e⟩ := by
  rw [sift, answer]

theorem sift_true (answer : test a = .ok true) :
    sift test (a :: as) = { sift test as with taken := a :: (sift test as).taken } := by
  rw [sift, answer]

theorem sift_false (answer : test a = .ok false) :
    sift test (a :: as) = { sift test as with kept := a :: (sift test as).kept } := by
  rw [sift, answer]

/-- Nothing is taken out that does not pass. -/
theorem sift_pruned (test : α → Except ε Bool) (as : List α) :
    Pruned (fun a => test a = .ok true) as (sift test as).kept := by
  induction as with
  | nil => exact .nil
  | cons a as ih =>
      cases answer : test a with
      | error e =>
          rw [sift_error answer]
          exact .refl _
      | ok b =>
          cases b with
          | false =>
              rw [sift_false answer]
              exact ih.keep
          | true =>
              rw [sift_true answer]
              exact ih.drop answer

theorem mem_taken (mem : a ∈ (sift test as).taken) : a ∈ as ∧ test a = .ok true := by
  induction as with
  | nil => cases mem
  | cons b as ih =>
      cases answer : test b with
      | error e =>
          rw [sift_error answer] at mem
          cases mem
      | ok found =>
          cases found with
          | false =>
              rw [sift_false answer] at mem
              exact ⟨List.mem_cons_of_mem b (ih mem).1, (ih mem).2⟩
          | true =>
              rw [sift_true answer] at mem
              rcases List.mem_cons.mp mem with rfl | later
              · exact ⟨List.mem_cons_self, answer⟩
              · exact ⟨List.mem_cons_of_mem b (ih later).1, (ih later).2⟩

theorem sift_map (test : β → Except ε Bool) (f : α → β) (as : List α) : sift test (as.map f) =
    ⟨(sift (fun a => test (f a)) as).kept.map f, (sift (fun a => test (f a)) as).taken.map f,
      (sift (fun a => test (f a)) as).stop⟩ := by
  induction as with
  | nil => rfl
  | cons a as ih =>
      cases answer : test (f a) with
      | error e => simp only [List.map_cons, sift, answer, List.map_nil]
      | ok b =>
          cases b with
          | false => simp only [List.map_cons, sift, answer, ih]
          | true => simp only [List.map_cons, sift, answer, ih]

end Sift

/-! Mapping -/

/-- The results up to the first error, and the error. -/
def mapUntil (f : α → Except ε β) : List α → List β × Option ε
  | [] => ([], none)
  | a :: as =>
      match f a with
      | .error e => ([], some e)
      | .ok b => (b :: (mapUntil f as).1, (mapUntil f as).2)

theorem mapUntil_map (f : α → Except ε β) (g : β → γ) (as : List α) :
    mapUntil (fun a => (f a).map g) as = ((mapUntil f as).1.map g, (mapUntil f as).2) := by
  induction as with
  | nil => rfl
  | cons a as ih =>
      rw [mapUntil, mapUntil]
      cases f a with
      | error e => rfl
      | ok b =>
          rw [ih]
          rfl

/-- Every result comes from an element. -/
theorem mem_mapUntil {f : α → Except ε β} {as : List α} {b : β} (mem : b ∈ (mapUntil f as).1) :
    ∃ a ∈ as, f a = .ok b := by
  induction as with
  | nil => cases mem
  | cons a as ih =>
      rw [mapUntil] at mem
      cases made : f a with
      | error e =>
          rw [made] at mem
          cases mem
      | ok c =>
          rw [made] at mem
          rcases List.mem_cons.mp mem with rfl | later
          · exact ⟨a, List.mem_cons_self, made⟩
          · obtain ⟨a', there, made'⟩ := ih later
            exact ⟨a', List.mem_cons_of_mem a there, made'⟩

end Foundation
