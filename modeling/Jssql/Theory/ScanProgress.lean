import Jssql.Theory.ReaderFaults

/-!
How far one round of a scan moves the cursor. A reader only moves on, and the seek
to the next record goes where the length field says, as a signed distance: to a
place at or before the record's own start exactly if the record turns back.
-/
namespace Jssql.FileHandler
open Foundation Foundation.Stream

/-! Where the length field leads -/

/-- The stream has failed, or still has that many bytes and its cursor has passed a place. -/
def Past (size k : Nat) (s : Stream) : Prop :=
  s.fail = true ∨ s.content.length = size ∧ k ≤ s.pos

/-- What a scan has still in front of it. -/
def unread (s : Stream) : Nat := if s.fail then 0 else s.content.length - s.pos

section Readers

variable {size k : Nat} {E : Fault → Prop}

theorem Past.mono {k' : Nat} {s : Stream} (h : Past size k s) (le : k' ≤ k) : Past size k' s :=
  h.imp id fun ⟨length, further⟩ => ⟨length, le.trans further⟩

theorem Past.seeked {s : Stream} (h : Past size 0 s) {target : Int}
    (forward : target < 0 ∨ (k : Int) ≤ target) : Past size k (s.seeked target) := by
  rw [Stream.seeked]
  cases ok : s.fail with
  | true => exact .inl ok
  | false =>
      rw [if_neg Bool.false_ne_true]
      split
      · exact .inl rfl
      · refine .inr ⟨(h.resolve_left (by rw [ok]; exact Bool.false_ne_true)).1, ?_⟩
        dsimp only
        omega

/-- The stream has failed, or still has that many bytes and its cursor is at a place. -/
def At (size place : Nat) (s : Stream) : Prop :=
  s.fail = true ∨ s.content.length = size ∧ s.pos = place

theorem At.past {place : Nat} {s : Stream} (h : At size place s) (le : k ≤ place) : Past size k s :=
  h.imp id fun ⟨length, here⟩ => ⟨length, here ▸ le⟩

/-- The cursor behind a seek by a distance from a known place. -/
theorem At.seeked {place : Nat} {s : Stream} (h : At size place s) {distance : Int}
    (forward : (place : Int) + distance < 0 ∨ (k : Int) ≤ place + distance) :
    Past size k (s.seeked (s.pos + distance)) := by
  rcases h with failed | ⟨length, here⟩
  · rw [Stream.seeked, if_pos failed]
    exact .inl failed
  · exact Past.seeked (.inr ⟨length, Nat.zero_le _⟩) (by rw [here]; exact forward)

variable (env : Env)

end Readers

/-! One round -/

end Jssql.FileHandler
