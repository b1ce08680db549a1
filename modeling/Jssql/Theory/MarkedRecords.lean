import Jssql.Theory.MarkingScan

/-!
The records a marking scan leaves. Up to the record that stops it, exactly the
live records that match have become tombstones; from there on the file is as it
was. A marked record keeps its length and its values, so nothing else moves.
-/
namespace Jssql.FileHandler
open Foundation

variable {n : Nat}

/-- The records with those that satisfy `p` marked, as far as they are live. -/
def markMatching (p : TableRecord n → Bool) (rs : List (TableRecord n)) : List (TableRecord n) :=
  rs.map fun r => if isLive r && p r then r.marked else r

/-- The comparison gives an answer, and the answer is yes. -/
def accepts (isMatch : TableRecord n → Except Fault Bool) (r : TableRecord n) : Bool :=
  match isMatch r with
  | .ok b => b
  | .error _ => false

theorem accepts_of_ok {isMatch : TableRecord n → Except Fault Bool} {r : TableRecord n} {b : Bool}
    (h : isMatch r = .ok b) : accepts isMatch r = b := by
  rw [accepts, h]

/-- The comparison answers on every live record. -/
def Evaluates (isMatch : TableRecord n → Except Fault Bool) (rs : List (TableRecord n)) : Prop :=
  ∀ r ∈ liveRecords rs, ∃ b, isMatch r = .ok b

theorem liveRecords_append (rs ss : List (TableRecord n)) :
    liveRecords (rs ++ ss) = liveRecords rs ++ liveRecords ss := List.filter_append ..

theorem liveRecords_cons_live {r : TableRecord n} (live : r.isTombstone = false)
    (rest : List (TableRecord n)) : liveRecords (r :: rest) = r :: liveRecords rest :=
  List.filter_cons_of_pos (by simp [isLive, live])

theorem liveRecords_cons_tombstone {r : TableRecord n} (dead : r.isTombstone = true)
    (rest : List (TableRecord n)) : liveRecords (r :: rest) = liveRecords rest :=
  List.filter_cons_of_neg (by simp [isLive, dead])

theorem mem_liveRecords {r : TableRecord n} {rs : List (TableRecord n)} :
    r ∈ liveRecords rs ↔ r ∈ rs ∧ r.isTombstone = false := by
  simp [liveRecords, isLive]

/-- What is live after the marking is what was live and is not marked. -/
theorem liveRecords_markMatching (p : TableRecord n → Bool) (rs : List (TableRecord n)) :
    liveRecords (markMatching p rs) = (liveRecords rs).filter fun r => !p r := by
  induction rs with
  | nil => rfl
  | cons r rest ih =>
      rw [markMatching, List.map_cons, ← markMatching]
      cases state : r.isTombstone with
      | true =>
          rw [liveRecords_cons_tombstone state, if_neg (by simp [isLive, state]),
            liveRecords_cons_tombstone state, ih]
      | false =>
          rw [liveRecords_cons_live state]
          cases hp : p r with
          | true =>
              rw [if_pos (by simp [isLive, state]), liveRecords_cons_tombstone (by rfl),
                List.filter_cons_of_neg (by simp [hp]), ih]
          | false =>
              rw [if_neg (by simp), liveRecords_cons_live state,
                List.filter_cons_of_pos (by simp [hp]), ih]

theorem markMatching_congr {p q : TableRecord n → Bool} {rs : List (TableRecord n)}
    (agree : ∀ r ∈ liveRecords rs, p r = q r) : markMatching p rs = markMatching q rs := by
  refine List.map_congr_left fun r hr => ?_
  cases state : r.isTombstone with
  | true => simp [isLive, state]
  | false => rw [agree r (mem_liveRecords.mpr ⟨hr, state⟩)]

/-! One record of the scan -/

section Record

variable {isMatch : TableRecord n → Except Fault Bool} {missing : Option Fault}
  {r : TableRecord n} (rest : List (TableRecord n))

theorem scanMarks_tombstone (dead : r.isTombstone = true) :
    scanMarks isMatch missing (r :: rest) =
      { scanMarks isMatch missing rest with
        records := r :: (scanMarks isMatch missing rest).records } := by
  simp only [scanMarks, dead, if_true]

theorem scanMarks_throws (live : r.isTombstone = false) {e : Fault} (throws : isMatch r = .error e) :
    scanMarks isMatch missing (r :: rest) = ⟨r :: rest, [], some e⟩ := by
  simp only [scanMarks, live, Bool.false_eq_true, if_false, throws]

theorem scanMarks_rejects (live : r.isTombstone = false) (no : isMatch r = .ok false) :
    scanMarks isMatch missing (r :: rest) =
      { scanMarks isMatch missing rest with
        records := r :: (scanMarks isMatch missing rest).records } := by
  simp only [scanMarks, live, Bool.false_eq_true, if_false, no]

theorem scanMarks_counts (live : r.isTombstone = false) (yes : isMatch r = .ok true) :
    scanMarks isMatch none (r :: rest) =
      { scanMarks isMatch none rest with
        records := r.marked :: (scanMarks isMatch none rest).records
        matched := r :: (scanMarks isMatch none rest).matched } := by
  simp only [scanMarks, live, Bool.false_eq_true, if_false, yes]

theorem scanMarks_missing (live : r.isTombstone = false) (yes : isMatch r = .ok true)
    (fault : Fault) :
    scanMarks isMatch (some fault) (r :: rest) = ⟨r.marked :: rest, [r], some fault⟩ := by
  simp only [scanMarks, live, Bool.false_eq_true, if_false, yes]

end Record

/-! The scan in closed form -/

section Scan

variable {isMatch : TableRecord n → Except Fault Bool}

/-- Records on which the comparison answers are treated and the scan goes on. -/
theorem scanMarks_append {rs : List (TableRecord n)} (evaluates : Evaluates isMatch rs)
    (rest : List (TableRecord n)) :
    scanMarks isMatch none (rs ++ rest) =
      ⟨markMatching (accepts isMatch) rs ++ (scanMarks isMatch none rest).records,
        (liveRecords rs).filter (accepts isMatch) ++ (scanMarks isMatch none rest).matched,
        (scanMarks isMatch none rest).stop⟩ := by
  induction rs with
  | nil => rfl
  | cons r rs ih =>
      rw [List.cons_append, markMatching, List.map_cons, ← markMatching]
      cases state : r.isTombstone with
      | true =>
          rw [Evaluates, liveRecords_cons_tombstone state] at evaluates
          rw [scanMarks_tombstone _ state, ih evaluates, liveRecords_cons_tombstone state,
            if_neg (by simp [isLive, state])]
          rfl
      | false =>
          rw [Evaluates, liveRecords_cons_live state, List.forall_mem_cons] at evaluates
          obtain ⟨⟨b, answer⟩, later⟩ := evaluates
          have kept := accepts_of_ok answer
          rw [liveRecords_cons_live state, kept]
          cases b with
          | false =>
              rw [scanMarks_rejects _ state answer, ih later, List.filter_cons_of_neg (by simp [kept]),
                if_neg (by simp)]
              rfl
          | true =>
              rw [scanMarks_counts _ state answer, ih later, List.filter_cons_of_pos kept,
                if_pos (by simp [isLive, state])]
              rfl

theorem scanMarks_all {rs : List (TableRecord n)} (evaluates : Evaluates isMatch rs) :
    scanMarks isMatch none rs =
      ⟨markMatching (accepts isMatch) rs, (liveRecords rs).filter (accepts isMatch), none⟩ := by
  have all := scanMarks_append evaluates []
  simpa only [scanMarks, List.append_nil] using all

theorem scanMarks_throwing {before after : List (TableRecord n)} {r : TableRecord n} {e : Fault}
    (evaluates : Evaluates isMatch before) (live : r.isTombstone = false)
    (throws : isMatch r = .error e) :
    scanMarks isMatch none (before ++ r :: after) =
      ⟨markMatching (accepts isMatch) before ++ r :: after,
        (liveRecords before).filter (accepts isMatch), some e⟩ := by
  rw [scanMarks_append evaluates, scanMarks_throws after live throws, List.append_nil]

/-- Either the comparison answers throughout, or there is a first live record on
which it throws. -/
theorem evaluates_or_throws (isMatch : TableRecord n → Except Fault Bool)
    (rs : List (TableRecord n)) :
    Evaluates isMatch rs ∨ ∃ before r after e, rs = before ++ r :: after ∧
      Evaluates isMatch before ∧ r.isTombstone = false ∧ isMatch r = .error e := by
  induction rs with
  | nil => exact .inl (by simp [Evaluates, liveRecords])
  | cons r rs ih =>
      cases state : r.isTombstone with
      | true =>
          rcases ih with all | ⟨before, s, after, e, rfl, earlier, live, throws⟩
          · exact .inl (by rwa [Evaluates, liveRecords_cons_tombstone state])
          · refine .inr ⟨r :: before, s, after, e, rfl, ?_, live, throws⟩
            rwa [Evaluates, liveRecords_cons_tombstone state]
      | false =>
          cases answer : isMatch r with
          | error e =>
              exact .inr ⟨[], r, rs, e, rfl, by simp [Evaluates, liveRecords], state, answer⟩
          | ok b =>
              rcases ih with all | ⟨before, s, after, e, rfl, earlier, live, throws⟩
              · refine .inl ?_
                rw [Evaluates, liveRecords_cons_live state, List.forall_mem_cons]
                exact ⟨⟨b, answer⟩, all⟩
              · refine .inr ⟨r :: before, s, after, e, rfl, ?_, live, throws⟩
                rw [Evaluates, liveRecords_cons_live state, List.forall_mem_cons]
                exact ⟨⟨b, answer⟩, earlier⟩

/-- Without a counter the scan stops at the first match, or nothing matches. -/
theorem scanMarks_uncounted (isMatch : TableRecord n → Except Fault Bool) (fault : Fault)
    (rs : List (TableRecord n)) :
    (scanMarks isMatch (some fault) rs).stop = some fault ∨
      (scanMarks isMatch (some fault) rs = scanMarks isMatch none rs ∧
        (scanMarks isMatch none rs).records = rs ∧ (scanMarks isMatch none rs).matched = []) := by
  induction rs with
  | nil => exact .inr ⟨rfl, rfl, rfl⟩
  | cons r rest ih =>
      cases state : r.isTombstone with
      | true =>
          rw [scanMarks_tombstone _ state, scanMarks_tombstone _ state]
          rcases ih with stopped | ⟨same, records, matched⟩
          · exact .inl stopped
          · exact .inr ⟨by rw [same], congrArg (r :: ·) records, matched⟩
      | false =>
          cases answer : isMatch r with
          | error e =>
              rw [scanMarks_throws _ state answer, scanMarks_throws _ state answer]
              exact .inr ⟨rfl, rfl, rfl⟩
          | ok b =>
              cases b with
              | true =>
                  rw [scanMarks_missing _ state answer]
                  exact .inl rfl
              | false =>
                  rw [scanMarks_rejects _ state answer, scanMarks_rejects _ state answer]
                  rcases ih with stopped | ⟨same, records, matched⟩
                  · exact .inl stopped
                  · exact .inr ⟨by rw [same], congrArg (r :: ·) records, matched⟩

/-- Unless it is the missing counter that stops it, the scan does what it does with one. -/
theorem scanMarks_counted (env : Env) {w : World} {table : Bytes} {rs : List (TableRecord n)}
    (counted : (scanMarks isMatch (missingFault env w table) rs).stop ≠ some (missingCounter env)) :
    scanMarks isMatch (missingFault env w table) rs = scanMarks isMatch none rs := by
  cases fault : missingFault env w table with
  | none => rfl
  | some e =>
      have missing : e = missingCounter env := by
        unfold missingFault at fault
        split at fault <;> cases fault
        rfl
      subst missing
      rw [fault] at counted
      exact ((scanMarks_uncounted _ _ rs).resolve_left counted).1

/-- Where nothing matches the scan marks nothing, whether there is a counter or not. -/
theorem scanMarks_rejected (missing : Option Fault) {rs : List (TableRecord n)}
    (evaluates : Evaluates isMatch rs) (nothing : ∀ r ∈ liveRecords rs, accepts isMatch r = false) :
    scanMarks isMatch missing rs = ⟨rs, [], none⟩ := by
  induction rs with
  | nil => rfl
  | cons r rest ih =>
      cases state : r.isTombstone with
      | true =>
          rw [Evaluates, liveRecords_cons_tombstone state] at evaluates
          rw [liveRecords_cons_tombstone state] at nothing
          rw [scanMarks_tombstone _ state, ih evaluates nothing]
      | false =>
          rw [Evaluates, liveRecords_cons_live state, List.forall_mem_cons] at evaluates
          rw [liveRecords_cons_live state, List.forall_mem_cons] at nothing
          obtain ⟨b, answer⟩ := evaluates.1
          have no : b = false := (accepts_of_ok answer).symm.trans nothing.1
          rw [scanMarks_rejects _ state (no ▸ answer), ih evaluates.2 nothing.2]

/-- A scan that comes to the end of the file has thrown nowhere. -/
theorem evaluates_of_complete {missing : Option Fault} {rs : List (TableRecord n)}
    (complete : (scanMarks isMatch missing rs).stop = none) : Evaluates isMatch rs := by
  have counted : (scanMarks isMatch none rs).stop = none := by
    cases missing with
    | none => exact complete
    | some fault =>
        rcases scanMarks_uncounted isMatch fault rs with stopped | ⟨same, -, -⟩
        · rw [stopped] at complete
          cases complete
        · rw [← same]
          exact complete
  rcases evaluates_or_throws isMatch rs with evaluates | ⟨before, r, after, e, rfl, evaluates, live, throws⟩
  · exact evaluates
  · rw [scanMarks_throwing evaluates live throws] at counted
    cases counted

/-- A scan that comes to the end of the file has marked all that matches. -/
theorem scanMarks_of_complete {missing : Option Fault} {rs : List (TableRecord n)}
    (evaluates : Evaluates isMatch rs) (complete : (scanMarks isMatch missing rs).stop = none) :
    scanMarks isMatch missing rs =
      ⟨markMatching (accepts isMatch) rs, (liveRecords rs).filter (accepts isMatch), none⟩ := by
  cases missing with
  | none => exact scanMarks_all evaluates
  | some fault =>
      rcases scanMarks_uncounted isMatch fault rs with stopped | ⟨same, -, -⟩
      · rw [stopped] at complete
        cases complete
      · exact same.trans (scanMarks_all evaluates)

/-- It comes there if and only if there is a counter or nothing to count. -/
theorem scanMarks_complete_iff (missing : Option Fault) {rs : List (TableRecord n)}
    (evaluates : Evaluates isMatch rs) :
    (scanMarks isMatch missing rs).stop = none ↔
      missing = none ∨ ∀ r ∈ liveRecords rs, accepts isMatch r = false := by
  constructor
  · intro complete
    cases missing with
    | none => exact .inl rfl
    | some fault =>
        refine .inr fun r hr => ?_
        rcases scanMarks_uncounted isMatch fault rs with stopped | ⟨-, -, matched⟩
        · rw [stopped] at complete
          cases complete
        · rw [scanMarks_all evaluates] at matched
          exact Bool.eq_false_iff.mpr (List.filter_eq_nil_iff.mp matched r hr)
  · rintro (rfl | nothing)
    · rw [scanMarks_all evaluates]
    · rw [scanMarks_rejected _ evaluates nothing]

/-- The records before the first live one on which the comparison throws. -/
def reached (isMatch : TableRecord n → Except Fault Bool) (rs : List (TableRecord n)) : List (TableRecord n) :=
  rs.takeWhile fun r => r.isTombstone || (isMatch r).isOk

theorem reached_of_evaluates {rs : List (TableRecord n)} (evaluates : Evaluates isMatch rs) :
    reached isMatch rs = rs := by
  refine List.takeWhile_eq_self_iff.mpr fun r hr => ?_
  cases state : r.isTombstone with
  | true => rfl
  | false =>
      obtain ⟨b, answer⟩ := evaluates r (mem_liveRecords.mpr ⟨hr, state⟩)
      rw [answer]
      rfl

theorem reached_throwing {before after : List (TableRecord n)} {r : TableRecord n} {e : Fault}
    (evaluates : Evaluates isMatch before) (live : r.isTombstone = false) (throws : isMatch r = .error e) :
    reached isMatch (before ++ r :: after) = before := by
  have all : ∀ s ∈ before, (s.isTombstone || (isMatch s).isOk) = true := by
    rw [← List.takeWhile_eq_self_iff]
    exact reached_of_evaluates evaluates
  have stops : (r.isTombstone || (isMatch r).isOk) = false := by
    rw [live, throws]
    rfl
  rw [reached, List.takeWhile_append_of_pos all, List.takeWhile_cons, stops]
  exact List.append_nil before

/-- What the scan has marked when it stops are the matches among the records it has come to. -/
theorem scanMarks_matched (isMatch : TableRecord n → Except Fault Bool) (rs : List (TableRecord n)) :
    (scanMarks isMatch none rs).matched = (liveRecords (reached isMatch rs)).filter (accepts isMatch) := by
  rcases evaluates_or_throws isMatch rs with evaluates | ⟨before, r, after, e, rfl, evaluates, live, throws⟩
  · rw [scanMarks_all evaluates, reached_of_evaluates evaluates]
  · rw [scanMarks_throwing evaluates live throws, reached_throwing evaluates live throws]

/-- A live record is either still live or has been marked. -/
theorem length_liveRecords_scanMarks (isMatch : TableRecord n → Except Fault Bool) (rs : List (TableRecord n)) :
    (liveRecords (scanMarks isMatch none rs).records).length + (scanMarks isMatch none rs).matched.length =
      (liveRecords rs).length := by
  have count (before : List (TableRecord n)) : (liveRecords (markMatching (accepts isMatch) before)).length +
      ((liveRecords before).filter (accepts isMatch)).length = (liveRecords before).length := by
    rw [liveRecords_markMatching, Nat.add_comm]
    exact (List.length_eq_length_filter_add _).symm
  rcases evaluates_or_throws isMatch rs with evaluates | ⟨before, r, after, e, rfl, evaluates, live, throws⟩
  · rw [scanMarks_all evaluates]
    exact count rs
  · rw [scanMarks_throwing evaluates live throws, liveRecords_append, liveRecords_append, List.length_append,
      List.length_append, Nat.add_right_comm, count]

/-- Where the scan has matched nothing it has changed nothing. -/
theorem scanMarks_unmatched {rs : List (TableRecord n)} (nothing : (scanMarks isMatch none rs).matched = []) :
    (scanMarks isMatch none rs).records = rs := by
  have unmarked (before : List (TableRecord n)) (none_ : (liveRecords before).filter (accepts isMatch) = []) :
      markMatching (accepts isMatch) before = before := by
    have no : ∀ r ∈ liveRecords before, accepts isMatch r = (fun _ => false) r := fun r hr =>
      Bool.eq_false_iff.mpr (List.filter_eq_nil_iff.mp none_ r hr)
    rw [markMatching_congr no]
    simp [markMatching]
  rcases evaluates_or_throws isMatch rs with evaluates | ⟨before, r, after, e, rfl, evaluates, live, throws⟩
  · rw [scanMarks_all evaluates] at nothing ⊢
    exact unmarked rs nothing
  · rw [scanMarks_throwing evaluates live throws] at nothing ⊢
    rw [unmarked before nothing]

end Scan

/-! Marked copies -/

/-- The records of one list are those of the other, some of them marked. -/
def MarkedFrom (rs ss : List (TableRecord n)) : Prop :=
  List.Forall₂ (fun r s => s = r ∨ s = r.marked) rs ss

namespace MarkedFrom

variable {rs ss : List (TableRecord n)}

theorem refl (rs : List (TableRecord n)) : MarkedFrom rs rs :=
  List.forall₂_same.mpr fun _ _ => .inl rfl

theorem scan (isMatch : TableRecord n → Except Fault Bool) (missing : Option Fault)
    (rs : List (TableRecord n)) : MarkedFrom rs (scanMarks isMatch missing rs).records := by
  induction rs with
  | nil => exact .nil
  | cons r rest ih =>
      cases state : r.isTombstone with
      | true =>
          rw [scanMarks_tombstone _ state]
          exact .cons (.inl rfl) ih
      | false =>
          cases answer : isMatch r with
          | error e =>
              rw [scanMarks_throws _ state answer]
              exact refl _
          | ok b =>
              cases b with
              | false =>
                  rw [scanMarks_rejects _ state answer]
                  exact .cons (.inl rfl) ih
              | true =>
                  cases missing with
                  | none =>
                      rw [scanMarks_counts _ state answer]
                      exact .cons (.inr rfl) ih
                  | some fault =>
                      rw [scanMarks_missing _ state answer]
                      exact .cons (.inr rfl) (refl _)

theorem one (before after : List (TableRecord n)) (r : TableRecord n) :
    MarkedFrom (before ++ r :: after) (before ++ r.marked :: after) :=
  List.rel_append (refl before) (.cons (.inr rfl) (refl after))

/-- What holds of each record and does not depend on its type holds of the copies. -/
theorem forall_mem {P : TableRecord n → Prop} (h : MarkedFrom rs ss)
    (marked : ∀ r, P r → P r.marked) (all : ∀ r ∈ rs, P r) : ∀ s ∈ ss, P s := by
  induction h with
  | nil => exact all
  | cons head _ ih =>
      rw [List.forall_mem_cons] at all ⊢
      refine ⟨?_, ih all.2⟩
      rcases head with rfl | rfl
      · exact all.1
      · exact marked _ all.1

/-- The live copies are live records, in order. -/
theorem liveRecords_sublist (h : MarkedFrom rs ss) : (liveRecords ss).Sublist (liveRecords rs) := by
  induction h with
  | nil => exact .slnil
  | @cons r s rs ss head _ ih =>
      have behind : (liveRecords rs).Sublist (liveRecords (r :: rs)) :=
        (List.sublist_cons_self r rs).filter isLive
      rcases head with rfl | rfl
      · cases state : s.isTombstone with
        | true =>
            rw [liveRecords_cons_tombstone state]
            exact ih.trans behind
        | false =>
            rw [liveRecords_cons_live state, liveRecords_cons_live state]
            exact ih.cons_cons s
      · rw [liveRecords_cons_tombstone (by rfl)]
        exact ih.trans behind

theorem length_encodeAll (h : MarkedFrom rs ss) : (encodeAll ss).length = (encodeAll rs).length := by
  induction h with
  | nil => rfl
  | cons head _ ih =>
      rw [encodeAll_cons, encodeAll_cons, List.length_append, List.length_append, ih]
      rcases head with rfl | rfl
      · rfl
      · rw [TableRecord.marked_toStoredRecord, StoredRecord.marked_encode_length]

/-- At the place of a record there is a copy of it. -/
theorem split {before after : List (TableRecord n)} {r : TableRecord n}
    (h : MarkedFrom (before ++ r :: after) ss) : ∃ before' s after',
      ss = before' ++ s :: after' ∧ MarkedFrom before before' := by
  induction before generalizing ss with
  | nil =>
      cases h with
      | cons _ _ => exact ⟨[], _, _, rfl, .nil⟩
  | cons b before ih =>
      cases h with
      | cons head tail =>
          obtain ⟨before', s, after', rfl, copies⟩ := ih tail
          exact ⟨_ :: before', s, after', rfl, .cons head copies⟩

end MarkedFrom
end Jssql.FileHandler
