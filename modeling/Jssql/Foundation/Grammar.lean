import Mathlib

/-!
Phrases of a grammar, and readers for them. A phrase relates tokens to the value that the
actions of the grammar build from them. A reader takes a phrase off its input and may look
one token ahead; `Reads` says that it takes the phrases of the grammar and no others, where
they are followed by a token that may follow them.
-/
namespace Foundation

abbrev Phrase (τ α : Type) := List τ → α → Prop

namespace Phrase

variable {τ α : Type}

/-- One or more phrases with separators between them, in a left recursion. -/
inductive SepBy (item : Phrase τ α) (sep : τ) : Phrase τ (List α)
  | one {ts : List τ} {a : α} (single : item ts a) : SepBy item sep ts [a]
  | more {ts us : List τ} {as : List α} {a : α} (front : SepBy item sep ts as) (last : item us a) :
      SepBy item sep (ts ++ sep :: us) (as ++ [a])

/-- Any number of phrases, in a left recursion. -/
inductive Many (item : Phrase τ α) : Phrase τ (List α)
  | none : Many item [] []
  | more {ts us : List τ} {as : List α} {a : α} (front : Many item ts as) (last : item us a) :
      Many item (ts ++ us) (as ++ [a])

variable {item : Phrase τ α} {sep : τ} {ts us : List τ} {as bs : List α} {a : α}

/-! The recursions from the right -/

theorem SepBy.cons (first : item ts a) (rest : SepBy item sep us as) :
    SepBy item sep (ts ++ sep :: us) (a :: as) := by
  induction rest with
  | one single => exact .more (.one first) single
  | more _ last ih =>
      have whole := ih.more last
      rwa [List.append_assoc, List.cons_append] at whole

theorem SepBy.front (h : SepBy item sep ts as) : (∃ a, as = [a] ∧ item ts a) ∨
    ∃ us vs a bs, ts = us ++ sep :: vs ∧ as = a :: bs ∧ item us a ∧ SepBy item sep vs bs := by
  induction h with
  | one single => exact .inl ⟨_, rfl, single⟩
  | @more ts us as b _ last ih =>
      rcases ih with ⟨a, rfl, single⟩ | ⟨xs, ys, a, bs, rfl, rfl, first, rest⟩
      · exact .inr ⟨ts, us, a, [b], rfl, rfl, single, .one last⟩
      · refine .inr ⟨xs, ys ++ sep :: us, a, bs ++ [b], ?_, rfl, first, rest.more last⟩
        rw [List.append_assoc, List.cons_append]

theorem SepBy.length_le (h : SepBy item sep ts as) : as.length ≤ ts.length + 1 := by
  induction h with
  | one _ => exact Nat.le_add_left 1 _
  | more _ _ ih =>
      simp only [List.length_append, List.length_cons, List.length_nil]
      omega

theorem Many.cons (first : item ts a) (rest : Many item us as) : Many item (ts ++ us) (a :: as) := by
  induction rest with
  | none =>
      rw [List.append_nil]
      exact Many.none.more first
  | more _ last ih =>
      have whole := ih.more last
      rwa [List.append_assoc] at whole

theorem Many.front (h : Many item ts as) : (ts = [] ∧ as = []) ∨
    ∃ us vs a bs, ts = us ++ vs ∧ as = a :: bs ∧ item us a ∧ Many item vs bs := by
  induction h with
  | none => exact .inl ⟨rfl, rfl⟩
  | @more ts us as b _ last ih =>
      rcases ih with ⟨rfl, rfl⟩ | ⟨xs, ys, a, bs, rfl, rfl, first, rest⟩
      · exact .inr ⟨us, [], b, [], (List.append_nil us).symm, rfl, last, .none⟩
      · refine .inr ⟨xs, ys ++ us, a, bs ++ [b], ?_, rfl, first, rest.more last⟩
        rw [List.append_assoc]

theorem Many.length_le (h : Many item ts as) (some_ : ∀ ts a, item ts a → ts ≠ []) : as.length ≤ ts.length := by
  induction h with
  | none => exact Nat.le_refl 0
  | more _ last ih =>
      have positive := List.length_pos_iff.mpr (some_ _ _ last)
      simp only [List.length_append, List.length_cons, List.length_nil]
      omega

/-! The tokens of a phrase -/

theorem SepBy.forall_mem {good : τ → Prop} (h : SepBy item sep ts as) (separates : good sep)
    (inside : ∀ ts a, item ts a → ∀ t ∈ ts, good t) : ∀ t ∈ ts, good t := by
  induction h with
  | one single => exact inside _ _ single
  | more _ last ih =>
      exact List.forall_mem_append.mpr ⟨ih, List.forall_mem_cons.mpr ⟨separates, inside _ _ last⟩⟩

theorem Many.forall_mem {good : τ → Prop} (h : Many item ts as) (inside : ∀ ts a, item ts a → ∀ t ∈ ts, good t) :
    ∀ t ∈ ts, good t := by
  induction h with
  | none => exact fun t mem => absurd mem List.not_mem_nil
  | more _ last ih => exact List.forall_mem_append.mpr ⟨ih, inside _ _ last⟩

theorem Many.mono {item' : Phrase τ α} (h : Many item ts as) (more : ∀ ts a, item ts a → item' ts a) :
    Many item' ts as := by
  induction h with
  | none => exact .none
  | more _ last ih => exact ih.more (more _ _ last)

theorem split_at_stop {stop : τ} {front before : List τ} (clean : stop ∉ front)
    (whole : before ++ stop :: us = front ++ stop :: ts) :
    (before = front ∧ us = ts) ∨ ∃ zs, before = front ++ stop :: zs ∧ ts = zs ++ stop :: us := by
  rcases List.append_eq_append_iff.mp whole with ⟨xs, rfl, behind⟩ | ⟨xs, rfl, behind⟩
  · cases xs with
    | nil => exact .inl ⟨(List.append_nil before).symm, (List.cons.inj behind).2⟩
    | cons x xs =>
        obtain ⟨rfl, -⟩ := List.cons.inj behind
        exact absurd (List.mem_append_right before List.mem_cons_self) clean
  · cases xs with
    | nil => exact .inl ⟨List.append_nil front, (List.cons.inj behind).2.symm⟩
    | cons x xs =>
        obtain ⟨rfl, same⟩ := List.cons.inj behind
        exact .inr ⟨xs, rfl, same⟩

/-- Phrases that end with their first stop are not cut behind a stop. -/
theorem Many.split {stop : τ} (h : Many item (ts ++ us) as) (stops : ts ≠ [] → ts.getLast? = some stop)
    (ends : ∀ ts a, item ts a → ∃ front, ts = front ++ [stop] ∧ stop ∉ front) :
    ∃ bs cs, as = bs ++ cs ∧ Many item ts bs ∧ Many item us cs := by
  induction as generalizing ts with
  | nil =>
      rcases h.front with ⟨none_, -⟩ | ⟨_, _, _, _, -, more, -, -⟩
      · obtain ⟨rfl, rfl⟩ := List.append_eq_nil_iff.mp none_
        exact ⟨[], [], rfl, .none, .none⟩
      · cases more
  | cons a as ih =>
      rcases h.front with ⟨-, none_⟩ | ⟨xs, ys, _, _, whole, more, first, rest⟩
      · cases none_
      · obtain ⟨rfl, rfl⟩ := List.cons.inj more
        obtain ⟨front, rfl, clean⟩ := ends xs a first
        by_cases empty_ : ts = []
        · subst empty_
          exact ⟨[], a :: as, rfl, .none, h⟩
        · obtain ⟨before, rfl⟩ := List.getLast?_eq_some_iff.mp (stops empty_)
          rw [List.append_assoc, List.append_assoc] at whole
          rcases split_at_stop clean whole with ⟨rfl, rfl⟩ | ⟨zs, rfl, rfl⟩
          · exact ⟨[a], as, rfl, Many.none.more first, rest⟩
          · have again : Many item ((zs ++ [stop]) ++ us) as := by rwa [List.append_assoc]
            obtain ⟨bs, cs, rfl, left, right⟩ := ih again fun _ => List.getLast?_concat
            refine ⟨a :: bs, cs, rfl, ?_, right⟩
            rw [List.append_assoc, List.cons_append, ← List.singleton_append, ← List.append_assoc]
            exact .cons first left

/-! Values that can be written with good tokens -/

def Expressible (good : τ → Prop) (phrase : Phrase τ α) (a : α) : Prop :=
  ∃ ts, (∀ t ∈ ts, good t) ∧ phrase ts a

variable {good : τ → Prop}

theorem expressible_sepBy (separates : good sep) :
    Expressible good (SepBy item sep) as ↔ as ≠ [] ∧ ∀ a ∈ as, Expressible good item a := by
  constructor
  · rintro ⟨ts, all, written⟩
    induction written with
    | one single => exact ⟨List.cons_ne_nil _ _, List.forall_mem_singleton.mpr ⟨_, all, single⟩⟩
    | more _ last ih =>
        rw [List.forall_mem_append, List.forall_mem_cons] at all
        refine ⟨List.concat_ne_nil _ _, List.forall_mem_append.mpr ⟨(ih all.1).2, ?_⟩⟩
        exact List.forall_mem_singleton.mpr ⟨_, all.2.2, last⟩
  · rintro ⟨some_, each⟩
    induction as with
    | nil => exact absurd rfl some_
    | cons a as ih =>
        rw [List.forall_mem_cons] at each
        obtain ⟨ts, good_, first⟩ := each.1
        by_cases more : as = []
        · subst more
          exact ⟨ts, good_, .one first⟩
        · obtain ⟨us, others, rest⟩ := ih more each.2
          refine ⟨ts ++ sep :: us, ?_, .cons first rest⟩
          exact List.forall_mem_append.mpr ⟨good_, List.forall_mem_cons.mpr ⟨separates, others⟩⟩

theorem expressible_many : Expressible good (Many item) as ↔ ∀ a ∈ as, Expressible good item a := by
  constructor
  · rintro ⟨ts, all, written⟩
    induction written with
    | none => exact fun a ha => absurd ha List.not_mem_nil
    | more _ last ih =>
        rw [List.forall_mem_append] at all
        exact List.forall_mem_append.mpr ⟨ih all.1, List.forall_mem_singleton.mpr ⟨_, all.2, last⟩⟩
  · intro each
    induction as with
    | nil => exact ⟨[], fun t ht => absurd ht List.not_mem_nil, .none⟩
    | cons a as ih =>
        rw [List.forall_mem_cons] at each
        obtain ⟨ts, good_, first⟩ := each.1
        obtain ⟨us, others, rest⟩ := ih each.2
        exact ⟨ts ++ us, List.forall_mem_append.mpr ⟨good_, others⟩, .cons first rest⟩

end Phrase

/-! Readers -/

abbrev Reader (τ α : Type) := StateT (List τ) Option α

namespace Reader

variable {τ α β : Type}

/-- Takes the next token when it is of a kind, with its value. -/
def token (kind : τ → Option α) : Reader τ α := fun ts =>
  match ts with
  | t :: rest => (kind t).map fun a => (a, rest)
  | [] => none

def next : Reader τ τ := token some

/-- Takes the next token if it is of a kind, with its value. -/
def optionally (kind : τ → Option α) : Reader τ (Option α) := fun ts =>
  match ts with
  | t :: rest => if (kind t).isSome then some (kind t, rest) else some (none, t :: rest)
  | [] => some (none, [])

/-- Takes this token. -/
def expect [DecidableEq τ] (t : τ) : Reader τ Unit := token fun u => if u = t then some () else none

/-- Takes this token if it is the next one. -/
def takes [DecidableEq τ] (t : τ) : Reader τ Bool := fun ts =>
  match ts with
  | u :: rest => if u = t then some (true, rest) else some (false, u :: rest)
  | [] => some (false, [])

/-- Looks one token ahead. -/
def comes (starts : τ → Bool) : Reader τ Bool := fun ts => some (ts.head?.any starts, ts)

/-- The number of tokens bounds the number of items. -/
def sepUpTo [DecidableEq τ] (item : Reader τ α) (sep : τ) : Nat → Reader τ (List α)
  | 0 => failure
  | bound + 1 => do
      let a ← item
      if ← takes sep then return a :: (← sepUpTo item sep bound) else return [a]

def sepBy [DecidableEq τ] (item : Reader τ α) (sep : τ) : Reader τ (List α) := do
  sepUpTo item sep ((← get).length + 1)

def manyUpTo (item : Reader τ α) (starts : τ → Bool) : Nat → Reader τ (List α)
  | 0 => return []
  | bound + 1 => do
      if ← comes starts then
        let a ← item
        return a :: (← manyUpTo item starts bound)
      else return []

def many (item : Reader τ α) (starts : τ → Bool) : Reader τ (List α) := do
  manyUpTo item starts (← get).length

variable {ts rest : List τ} {a : α} {b : β}

@[simp] theorem run_bind_eq_some {p : Reader τ α} {q : α → Reader τ β} :
    (p >>= q).run ts = some (b, rest) ↔ ∃ a us, p.run ts = some (a, us) ∧ (q a).run us = some (b, rest) := by
  rw [StateT.run_bind, Option.bind_eq_bind, Option.bind_eq_some_iff]
  exact Prod.exists

@[simp] theorem run_pure_eq_some {a' : α} :
    (pure a' : Reader τ α).run ts = some (a, rest) ↔ a' = a ∧ ts = rest := by
  rw [StateT.run_pure]
  simp

@[simp] theorem run_failure : (failure : Reader τ α).run ts = none := rfl

@[simp] theorem run_get_eq_some {us : List τ} :
    (get : Reader τ (List τ)).run ts = some (us, rest) ↔ ts = us ∧ ts = rest := by
  rw [StateT.run_get]
  simp

@[simp] theorem run_token_eq_some {kind : τ → Option α} :
    (token kind).run ts = some (a, rest) ↔ ∃ t, ts = t :: rest ∧ kind t = some a := by
  cases ts with
  | nil => simp [token, StateT.run]
  | cons t ts =>
      change ((kind t).map fun a => (a, ts)) = some (a, rest) ↔ _
      rw [Option.map_eq_some_iff]
      constructor
      · rintro ⟨a, read, same⟩
        cases same
        exact ⟨t, rfl, read⟩
      · rintro ⟨t, same, read⟩
        cases same
        exact ⟨a, read, rfl⟩

@[simp] theorem run_next_eq_some {t : τ} : (next : Reader τ τ).run ts = some (t, rest) ↔ ts = t :: rest := by
  simp [next]

@[simp] theorem run_optionally_eq_some {kind : τ → Option α} {found : Option α} :
    (optionally kind).run ts = some (found, rest) ↔
      (∃ t a, ts = t :: rest ∧ kind t = some a ∧ found = some a) ∨
      (found = none ∧ ts = rest ∧ ts.head?.bind kind = none) := by
  cases ts with
  | nil => simp [optionally, StateT.run, eq_comm]
  | cons t ts =>
      change (if (kind t).isSome then some (kind t, ts) else some (none, t :: ts)) = some (found, rest) ↔ _
      cases known : kind t with
      | some a => simp [known, eq_comm, and_comm]
      | none => simp [known, eq_comm]

@[simp] theorem run_comes_eq_some {starts : τ → Bool} {b : Bool} :
    (comes starts).run ts = some (b, rest) ↔ ts.head?.any starts = b ∧ ts = rest := by
  simp [comes, StateT.run]

variable [DecidableEq τ] {t : τ}

@[simp] theorem run_expect_eq_some {u : Unit} : (expect t).run ts = some (u, rest) ↔ ts = t :: rest := by
  simp [expect]

@[simp] theorem run_takes_eq_some {b : Bool} : (takes t).run ts = some (b, rest) ↔
    (b = true ∧ ts = t :: rest) ∨ (b = false ∧ ts = rest ∧ ts.head? ≠ some t) := by
  cases ts with
  | nil => simp [takes, StateT.run, eq_comm]
  | cons u ts =>
      change (if u = t then some (true, ts) else some (false, u :: ts)) = some (b, rest) ↔ _
      split
      · next same => simp [same, eq_comm]
      · next other => simp [Ne.symm other, eq_comm]

theorem run_takes_bind_eq_some {q : Bool → Reader τ β} : (takes t >>= q).run ts = some (b, rest) ↔
    (∃ us, ts = t :: us ∧ (q true).run us = some (b, rest)) ∨
      ts.head? ≠ some t ∧ (q false).run ts = some (b, rest) := by
  simp only [run_bind_eq_some, run_takes_eq_some]
  constructor
  · rintro ⟨_, us, ⟨rfl, rfl⟩ | ⟨rfl, rfl, other⟩, run⟩
    · exact .inl ⟨us, rfl, run⟩
    · exact .inr ⟨other, run⟩
  · rintro (⟨us, rfl, run⟩ | ⟨other, run⟩)
    · exact ⟨true, us, .inl ⟨rfl, rfl⟩, run⟩
    · exact ⟨false, ts, .inr ⟨rfl, rfl, other⟩, run⟩

end Reader

/-! Readers of phrases -/

section Reads

variable {τ α : Type} {r : Reader τ α} {phrase : Phrase τ α} {next next' : Option τ → Prop}

/-- The reader takes phrases only, and takes each that is followed by a token, or the end,
that may come next. -/
structure Reads (r : Reader τ α) (phrase : Phrase τ α) (next : Option τ → Prop) : Prop where
  sound : ∀ {ts rest : List τ} {a : α}, r.run ts = some (a, rest) → ∃ us, ts = us ++ rest ∧ phrase us a
  complete : ∀ {us rest : List τ} {a : α}, phrase us a → next rest.head? → r.run (us ++ rest) = some (a, rest)

theorem Reads.mono (h : Reads r phrase next) (fewer : ∀ t, next' t → next t) : Reads r phrase next' :=
  ⟨h.sound, fun written follows => h.complete written (fewer _ follows)⟩

theorem Reads.map {β : Type} (h : Reads r phrase next) (f : α → β) :
    Reads (do return f (← r)) (fun ts b => ∃ a, b = f a ∧ phrase ts a) next := by
  constructor
  · intro ts rest b run
    simp only [Reader.run_bind_eq_some, Reader.run_pure_eq_some] at run
    obtain ⟨a, _, read, rfl, rfl⟩ := run
    obtain ⟨us, rfl, written⟩ := h.sound read
    exact ⟨us, rfl, a, rfl, written⟩
  · rintro us rest _ ⟨a, rfl, written⟩ follows
    simp only [Reader.run_bind_eq_some, Reader.run_pure_eq_some]
    exact ⟨a, rest, h.complete written follows, rfl, rfl⟩

theorem Reads.whole_iff (h : Reads r phrase next) (ends : next none) {ts : List τ} {a : α} :
    r.run ts = some (a, []) ↔ phrase ts a := by
  constructor
  · intro run
    obtain ⟨us, rfl, written⟩ := h.sound run
    rwa [List.append_nil]
  · intro written
    have run : r.run (ts ++ []) = some (a, []) := h.complete written ends
    rwa [List.append_nil] at run

variable [DecidableEq τ] {sep : τ}

theorem sepUpTo_sound (h : Reads r phrase next) {bound : Nat} : ∀ {ts rest : List τ} {as : List α},
    (Reader.sepUpTo r sep bound).run ts = some (as, rest) → ∃ us, ts = us ++ rest ∧ Phrase.SepBy phrase sep us as := by
  induction bound with
  | zero =>
      intro ts rest as run
      cases run
  | succ bound ih =>
      intro ts rest as run
      rw [Reader.sepUpTo, Reader.run_bind_eq_some] at run
      obtain ⟨a, behind, item, run⟩ := run
      obtain ⟨us, rfl, written⟩ := h.sound item
      rw [Reader.run_bind_eq_some] at run
      obtain ⟨more, later, taken, run⟩ := run
      rcases Reader.run_takes_eq_some.mp taken with ⟨rfl, rfl⟩ | ⟨rfl, rfl, -⟩
      · rw [if_pos rfl, Reader.run_bind_eq_some] at run
        obtain ⟨bs, end_, others, run⟩ := run
        obtain ⟨rfl, rfl⟩ := Reader.run_pure_eq_some.mp run
        obtain ⟨vs, rfl, list⟩ := ih others
        exact ⟨us ++ sep :: vs, by rw [List.append_assoc, List.cons_append], .cons written list⟩
      · rw [if_neg Bool.false_ne_true] at run
        obtain ⟨rfl, rfl⟩ := Reader.run_pure_eq_some.mp run
        exact ⟨us, rfl, .one written⟩

theorem sepUpTo_complete (h : Reads r phrase next) (inside : next (some sep)) {bound : Nat} :
    ∀ {us rest : List τ} {as : List α}, Phrase.SepBy phrase sep us as → as.length ≤ bound →
      next rest.head? → rest.head? ≠ some sep → (Reader.sepUpTo r sep bound).run (us ++ rest) = some (as, rest) := by
  induction bound with
  | zero =>
      intro us rest as written few
      rcases written.front with ⟨a, rfl, -⟩ | ⟨_, _, a, as, -, rfl, -, -⟩
      · cases few
      · cases few
  | succ bound ih =>
      intro us rest as written few follows ends
      rw [Reader.sepUpTo, Reader.run_bind_eq_some]
      rcases written.front with ⟨a, rfl, single⟩ | ⟨us, vs, a, as, rfl, rfl, first, others⟩
      · refine ⟨a, rest, h.complete single follows, ?_⟩
        rw [Reader.run_bind_eq_some]
        exact ⟨false, rest, Reader.run_takes_eq_some.mpr (.inr ⟨rfl, rfl, ends⟩), rfl⟩
      · rw [List.append_assoc, List.cons_append]
        refine ⟨a, sep :: (vs ++ rest), h.complete first inside, ?_⟩
        rw [Reader.run_bind_eq_some]
        refine ⟨true, vs ++ rest, Reader.run_takes_eq_some.mpr (.inl ⟨rfl, rfl⟩), ?_⟩
        rw [if_pos rfl, Reader.run_bind_eq_some]
        exact ⟨as, rest, ih others (Nat.le_of_succ_le_succ few) follows ends, rfl⟩

theorem Reads.sepBy (h : Reads r phrase next) (inside : next (some sep)) :
    Reads (Reader.sepBy r sep) (Phrase.SepBy phrase sep) fun t => next t ∧ t ≠ some sep := by
  constructor
  · intro ts rest as run
    rw [Reader.sepBy, Reader.run_bind_eq_some] at run
    obtain ⟨us, vs, got, run⟩ := run
    obtain ⟨rfl, rfl⟩ := Reader.run_get_eq_some.mp got
    exact sepUpTo_sound h run
  · intro us rest as written follows
    rw [Reader.sepBy, Reader.run_bind_eq_some]
    refine ⟨us ++ rest, us ++ rest, Reader.run_get_eq_some.mpr ⟨rfl, rfl⟩, ?_⟩
    refine sepUpTo_complete h inside written ?_ follows.1 follows.2
    have few := written.length_le
    rw [List.length_append]
    omega

end Reads

section Many

variable {τ α : Type} {r : Reader τ α} {phrase : Phrase τ α} {next : Option τ → Prop} {starts : τ → Bool}

theorem manyUpTo_sound (h : Reads r phrase next) {bound : Nat} : ∀ {ts rest : List τ} {as : List α},
    (Reader.manyUpTo r starts bound).run ts = some (as, rest) → ∃ us, ts = us ++ rest ∧ Phrase.Many phrase us as := by
  induction bound with
  | zero =>
      intro ts rest as run
      obtain ⟨rfl, rfl⟩ := Reader.run_pure_eq_some.mp run
      exact ⟨[], rfl, .none⟩
  | succ bound ih =>
      intro ts rest as run
      rw [Reader.manyUpTo, Reader.run_bind_eq_some] at run
      obtain ⟨more, same, came, run⟩ := run
      obtain ⟨-, rfl⟩ := Reader.run_comes_eq_some.mp came
      split at run
      · rw [Reader.run_bind_eq_some] at run
        obtain ⟨a, behind, item, run⟩ := run
        obtain ⟨us, rfl, written⟩ := h.sound item
        rw [Reader.run_bind_eq_some] at run
        obtain ⟨bs, end_, others, run⟩ := run
        obtain ⟨rfl, rfl⟩ := Reader.run_pure_eq_some.mp run
        obtain ⟨vs, rfl, list⟩ := ih others
        exact ⟨us ++ vs, (List.append_assoc us vs _).symm, .cons written list⟩
      · obtain ⟨rfl, rfl⟩ := Reader.run_pure_eq_some.mp run
        exact ⟨[], rfl, .none⟩

/-- Phrases start with tokens by which they are known, and what follows the last does not. -/
theorem manyUpTo_complete (h : Reads r phrase next)
    (start : ∀ us a, phrase us a → ∃ t ts, us = t :: ts ∧ starts t = true) (inside : ∀ t, starts t = true → next (some t))
    {bound : Nat} : ∀ {us rest : List τ} {as : List α}, Phrase.Many phrase us as → as.length ≤ bound →
      next rest.head? → rest.head?.any starts = false →
      (Reader.manyUpTo r starts bound).run (us ++ rest) = some (as, rest) := by
  induction bound with
  | zero =>
      intro us rest as written few follows ends
      rcases written.front with ⟨rfl, rfl⟩ | ⟨_, _, a, as, -, rfl, -, -⟩
      · rfl
      · cases few
  | succ bound ih =>
      intro us rest as written few follows ends
      rw [Reader.manyUpTo, Reader.run_bind_eq_some]
      rcases written.front with ⟨rfl, rfl⟩ | ⟨us, vs, a, as, rfl, rfl, first, others⟩
      · exact ⟨false, rest, Reader.run_comes_eq_some.mpr ⟨ends, rfl⟩, rfl⟩
      · obtain ⟨t, ts, rfl, known⟩ := start us a first
        refine ⟨true, _, Reader.run_comes_eq_some.mpr ⟨known, rfl⟩, ?_⟩
        have follows' : next (vs ++ rest).head? := by
          rcases others.front with ⟨rfl, -⟩ | ⟨xs, ys, b, bs, rfl, -, second, -⟩
          · exact follows
          · obtain ⟨u, us, rfl, known'⟩ := start xs b second
            exact inside u known'
        rw [if_pos rfl, List.append_assoc, Reader.run_bind_eq_some]
        refine ⟨a, vs ++ rest, h.complete first follows', ?_⟩
        rw [Reader.run_bind_eq_some]
        exact ⟨as, rest, ih others (Nat.le_of_succ_le_succ few) follows ends, rfl⟩

theorem Reads.many (h : Reads r phrase next)
    (start : ∀ us a, phrase us a → ∃ t ts, us = t :: ts ∧ starts t = true)
    (inside : ∀ t, starts t = true → next (some t)) :
    Reads (Reader.many r starts) (Phrase.Many phrase) fun t => next t ∧ t.any starts = false := by
  constructor
  · intro ts rest as run
    rw [Reader.many, Reader.run_bind_eq_some] at run
    obtain ⟨us, vs, got, run⟩ := run
    obtain ⟨rfl, rfl⟩ := Reader.run_get_eq_some.mp got
    exact manyUpTo_sound h run
  · intro us rest as written follows
    rw [Reader.many, Reader.run_bind_eq_some]
    refine ⟨us ++ rest, us ++ rest, Reader.run_get_eq_some.mpr ⟨rfl, rfl⟩, ?_⟩
    refine manyUpTo_complete h start inside written ?_ follows.1 follows.2
    have few := written.length_le fun us a single empty_ => by
      obtain ⟨t, ts, rfl, -⟩ := start us a single
      cases empty_
    rw [List.length_append]
    omega

end Many

end Foundation
