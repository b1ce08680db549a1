import Mathlib

/-!
Finite maps: laws of insertion and removal that speak of a key's present value,
and maps built from lists of entries. `insertAll` keeps the last entry of a key,
`insertAllNew` the first; `firstOf` looks an entry up in the list itself.
-/
namespace Foundation

variable {κ α : Type} [DecidableEq κ]

/-- Insertion that keeps what is there. -/
def insertNew (m : Finmap fun _ : κ => α) (k : κ) (a : α) : Finmap fun _ : κ => α :=
  if k ∈ m then m else m.insert k a

def insertAllNew (m : Finmap fun _ : κ => α) (entries : List (κ × α)) : Finmap fun _ : κ => α :=
  entries.foldl (fun m entry => insertNew m entry.1 entry.2) m

def insertAll (m : Finmap fun _ : κ => α) (entries : List (κ × α)) : Finmap fun _ : κ => α :=
  entries.foldl (fun m entry => m.insert entry.1 entry.2) m

/-- The value of the first entry with the key. -/
def firstOf (k : κ) (entries : List (κ × α)) : Option α :=
  (entries.find? fun entry => entry.1 = k).map Prod.snd

theorem insert_of_lookup {m : Finmap fun _ : κ => α} {k : κ} {a : α} (h : m.lookup k = some a) :
    m.insert k a = m := by
  apply Finmap.ext_lookup
  intro x
  by_cases same : x = k
  · subst same
    rw [Finmap.lookup_insert, h]
  · rw [Finmap.lookup_insert_of_ne m same]

theorem erase_of_lookup_none {m : Finmap fun _ : κ => α} {k : κ} (h : m.lookup k = none) :
    m.erase k = m := by
  apply Finmap.ext_lookup
  intro x
  by_cases same : x = k
  · subst same
    rw [Finmap.lookup_erase, h]
  · rw [Finmap.lookup_erase_ne same]

theorem erase_insert (m : Finmap fun _ : κ => α) (k : κ) (a : α) :
    (m.insert k a).erase k = m.erase k := by
  apply Finmap.ext_lookup
  intro x
  by_cases same : x = k
  · subst same
    rw [Finmap.lookup_erase, Finmap.lookup_erase]
  · rw [Finmap.lookup_erase_ne same, Finmap.lookup_erase_ne same, Finmap.lookup_insert_of_ne m same]

theorem insert_erase (m : Finmap fun _ : κ => α) (k : κ) (a : α) :
    (m.erase k).insert k a = m.insert k a := by
  apply Finmap.ext_lookup
  intro x
  by_cases same : x = k
  · subst same
    rw [Finmap.lookup_insert, Finmap.lookup_insert]
  · rw [Finmap.lookup_insert_of_ne _ same, Finmap.lookup_insert_of_ne _ same,
      Finmap.lookup_erase_ne same]

theorem lookup_insertNew (m : Finmap fun _ : κ => α) (k x : κ) (a : α) :
    (insertNew m k a).lookup x = (m.lookup x).or (if x = k then some a else none) := by
  unfold insertNew
  by_cases present : k ∈ m
  · rw [if_pos present]
    by_cases same : x = k
    · subst same
      obtain ⟨b, hb⟩ := Finmap.mem_iff.mp present
      rw [hb, Option.some_or]
    · rw [if_neg same, Option.or_none]
  · rw [if_neg present]
    by_cases same : x = k
    · subst same
      rw [Finmap.lookup_insert, Finmap.lookup_eq_none.mpr present, if_pos rfl, Option.none_or]
    · rw [Finmap.lookup_insert_of_ne m same, if_neg same, Option.or_none]

theorem firstOf_cons (k : κ) (entry : κ × α) (entries : List (κ × α)) :
    firstOf k (entry :: entries) = (if k = entry.1 then some entry.2 else none).or
      (firstOf k entries) := by
  by_cases same : entry.1 = k
  · simp [firstOf, same]
  · simp [firstOf, same, Ne.symm same]

theorem firstOf_append (k : κ) (entries entries' : List (κ × α)) :
    firstOf k (entries ++ entries') = (firstOf k entries).or (firstOf k entries') := by
  induction entries with
  | nil => rfl
  | cons entry rest ih => rw [List.cons_append, firstOf_cons, firstOf_cons, ih, Option.or_assoc]

/-- A map made of the first entries has for a key what it had, or the first entry. -/
theorem lookup_insertAllNew (entries : List (κ × α)) (x : κ) : ∀ m : Finmap fun _ : κ => α,
    (insertAllNew m entries).lookup x = (m.lookup x).or (firstOf x entries) := by
  induction entries with
  | nil => intro m; exact (Option.or_none).symm
  | cons entry rest ih =>
      intro m
      rw [insertAllNew, List.foldl_cons, ← insertAllNew, ih, lookup_insertNew, firstOf_cons,
        Option.or_assoc]

theorem insertAllNew_append (m : Finmap fun _ : κ => α) (entries entries' : List (κ × α)) :
    insertAllNew m (entries ++ entries') = insertAllNew (insertAllNew m entries) entries' :=
  List.foldl_append

theorem firstOf_eq_none {k : κ} {entries : List (κ × α)} :
    firstOf k entries = none ↔ k ∉ entries.map Prod.fst := by
  simp only [firstOf, Option.map_eq_none_iff, List.find?_eq_none, decide_eq_true_eq, List.mem_map,
    not_exists, not_and, Prod.forall]

theorem mem_of_firstOf {k : κ} {a : α} {entries : List (κ × α)} (h : firstOf k entries = some a) :
    (k, a) ∈ entries := by
  obtain ⟨entry, found, rfl⟩ := Option.map_eq_some_iff.mp h
  have key := List.find?_some found
  have mem := List.mem_of_find?_eq_some found
  rw [decide_eq_true_eq] at key
  rwa [← key]

theorem firstOf_filter_ne {k x : κ} (other : x ≠ k) (entries : List (κ × α)) :
    firstOf x (entries.filter fun entry => entry.1 ≠ k) = firstOf x entries := by
  induction entries with
  | nil => rfl
  | cons entry rest ih =>
      by_cases removed : entry.1 = k
      · have skipped : x ≠ entry.1 := by
          rw [removed]
          exact other
        rw [List.filter_cons_of_neg (by simpa using removed), ih, firstOf_cons, if_neg skipped,
          Option.none_or]
      · rw [List.filter_cons_of_pos (by simpa using removed), firstOf_cons, firstOf_cons, ih]

/-- Without the entries of a key, the map lacks exactly that key. -/
theorem insertAllNew_filter (entries : List (κ × α)) (k : κ) :
    insertAllNew ∅ (entries.filter fun entry => entry.1 ≠ k) = (insertAllNew ∅ entries).erase k := by
  apply Finmap.ext_lookup
  intro x
  rw [lookup_insertAllNew, Finmap.lookup_empty, Option.none_or]
  by_cases same : x = k
  · subst same
    rw [Finmap.lookup_erase]
    exact firstOf_eq_none.mpr (by simp)
  · rw [Finmap.lookup_erase_ne same, lookup_insertAllNew, Finmap.lookup_empty, Option.none_or,
      firstOf_filter_ne same]

/-- The last entries are the first ones where each key is new when it comes. -/
theorem insertAll_eq_insertAllNew (entries : List (κ × α)) : ∀ m : Finmap fun _ : κ => α,
    (entries.map Prod.fst).Nodup → (∀ entry ∈ entries, entry.1 ∉ m) →
      insertAll m entries = insertAllNew m entries := by
  induction entries with
  | nil => intro m _ _; rfl
  | cons entry rest ih =>
      intro m distinct new
      have absent : entry.1 ∉ m := new entry (by simp)
      rw [List.map_cons, List.nodup_cons] at distinct
      rw [insertAll, insertAllNew, List.foldl_cons, List.foldl_cons, insertNew, if_neg absent]
      refine ih _ distinct.2 fun e he => ?_
      rw [Finmap.mem_insert]
      rintro (same | present)
      · exact distinct.1 (List.mem_map.mpr ⟨e, he, same⟩)
      · exact new e (by simp [he]) present

theorem lookup_insertAll (entries : List (κ × α)) (x : κ) : ∀ m : Finmap fun _ : κ => α,
    (insertAll m entries).lookup x = (firstOf x entries.reverse).or (m.lookup x) := by
  induction entries with
  | nil => intro m; rfl
  | cons entry rest ih =>
      intro m
      rw [insertAll, List.foldl_cons, ← insertAll, ih, List.reverse_cons, firstOf_append,
        firstOf_cons, Option.or_assoc]
      by_cases same : x = entry.1
      · subst same
        rw [Finmap.lookup_insert, if_pos rfl]
        rfl
      · rw [Finmap.lookup_insert_of_ne m same, if_neg same]
        rfl

theorem card_keys_erase {m : Finmap fun _ : κ => α} {k : κ} (present : k ∈ m) :
    (m.erase k).keys.card + 1 = m.keys.card := by
  rw [Finmap.keys_erase]
  exact Finset.card_erase_add_one (Finmap.mem_keys.mpr present)

theorem card_keys_insertAll_le (entries : List (κ × α)) : ∀ m : Finmap fun _ : κ => α,
    (insertAll m entries).keys.card ≤ m.keys.card + entries.length := by
  induction entries with
  | nil => intro m; exact Nat.le_refl _
  | cons entry rest ih =>
      intro m
      have one : (m.insert entry.1 entry.2).keys ⊆ Insert.insert entry.1 m.keys := by
        intro k present
        rw [Finmap.mem_keys, Finmap.mem_insert] at present
        rw [Finset.mem_insert, Finmap.mem_keys]
        exact present
      have card := (Finset.card_le_card one).trans (Finset.card_insert_le _ _)
      have rest_ := ih (m.insert entry.1 entry.2)
      rw [insertAll, List.foldl_cons, ← insertAll, List.length_cons]
      omega

/-- Conversely, a key that was there or that comes again shows in the map, where
the values of the entries are all new. -/
theorem new_of_insertAll_eq (entries : List (κ × α)) : ∀ m : Finmap fun _ : κ => α,
    (entries.map Prod.snd).Nodup → (∀ entry ∈ entries, ∀ k, m.lookup k ≠ some entry.2) →
      insertAll m entries = insertAllNew m entries →
      (entries.map Prod.fst).Nodup ∧ ∀ entry ∈ entries, entry.1 ∉ m := by
  induction entries with
  | nil => intro m _ _ _; simp
  | cons entry rest ih =>
      intro m values fresh same
      rw [List.map_cons, List.nodup_cons] at values
      have absent : entry.1 ∉ m := by
        intro present
        obtain ⟨b, hb⟩ := Finmap.mem_iff.mp present
        have kept : (insertAllNew m (entry :: rest)).lookup entry.1 = some b := by
          rw [lookup_insertAllNew, hb, Option.some_or]
        rw [← same, lookup_insertAll, hb] at kept
        cases last : firstOf entry.1 (entry :: rest).reverse with
        | none =>
            rw [firstOf_eq_none] at last
            exact last (by simp)
        | some a =>
            rw [last, Option.some_or, Option.some.injEq] at kept
            have mem : (entry.1, a) ∈ entry :: rest := by
              simpa only [List.mem_reverse] using mem_of_firstOf last
            exact fresh _ mem entry.1 (by rw [hb, kept])
      have step : insertAll (m.insert entry.1 entry.2) rest =
          insertAllNew (m.insert entry.1 entry.2) rest := by
        rw [insertAll, insertAllNew, List.foldl_cons, List.foldl_cons, insertNew, if_neg absent] at same
        exact same
      obtain ⟨distinct, new⟩ := ih (m.insert entry.1 entry.2) values.2 (fun e he k => by
        by_cases here : k = entry.1
        · subst here
          rw [Finmap.lookup_insert]
          intro equal
          rw [Option.some.injEq] at equal
          exact values.1 (List.mem_map.mpr ⟨e, he, equal.symm⟩)
        · rw [Finmap.lookup_insert_of_ne m here]
          exact fresh e (by simp [he]) k) step
      refine ⟨?_, ?_⟩
      · rw [List.map_cons, List.nodup_cons]
        refine ⟨fun again => ?_, distinct⟩
        obtain ⟨e, he, key⟩ := List.mem_map.mp again
        exact new e he (by rw [Finmap.mem_insert, key]; exact .inl rfl)
      · intro e he
        rcases List.mem_cons.mp he with rfl | he
        · exact absent
        · exact fun present => new e he (Finmap.mem_insert.mpr (.inr present))

end Foundation
