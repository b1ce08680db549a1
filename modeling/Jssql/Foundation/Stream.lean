import Jssql.Foundation.Bytes

/-!
A seekable byte stream with one position for reading and writing, as a file
buffer has. A short read delivers what is left and raises the failure flag;
a raised flag turns every later read, write and seek into a no-op.

`split before after` is the stream whose position stands between two parts of
its content. Every operation of a sequential reader moves bytes from the right
part to the left one, so runs over framed data compose by concatenation.
-/
namespace Foundation

structure Stream where
  content : Bytes
  pos : Nat
  fail : Bool
  isOpen : Bool
deriving DecidableEq

namespace Stream

variable {ε : Type}

def opened (content : Bytes) : Stream := ⟨content, 0, false, true⟩

def read (n : Nat) : EStateM ε Stream Bytes := fun s =>
  if s.fail then .ok [] s
  else
    let got := (s.content.drop s.pos).take n
    .ok got { s with pos := s.pos + got.length, fail := decide (got.length < n) }

def failed : EStateM ε Stream Bool := fun s => .ok s.fail s

def tell : EStateM ε Stream Nat := fun s => .ok s.pos s

/-- Relative seek by a signed distance; a negative target raises the flag. -/
def seekCur (distance : Int) : EStateM ε Stream Unit := fun s =>
  if s.fail then .ok () s
  else if (s.pos : Int) + distance < 0 then .ok () { s with fail := true }
  else .ok () { s with pos := ((s.pos : Int) + distance).toNat }

def seekBeg (target : Int) : EStateM ε Stream Unit := fun s =>
  if s.fail then .ok () s
  else if target < 0 then .ok () { s with fail := true }
  else .ok () { s with pos := target.toNat }

/-- A relative seek is an absolute one from the position. -/
theorem run_seekCur (distance : Int) (s : Stream) :
    (seekCur distance : EStateM ε Stream Unit).run s = (seekBeg (s.pos + distance)).run s := rfl

/-- The stream after an absolute seek. -/
def seeked (s : Stream) (target : Int) : Stream :=
  if s.fail then s else if target < 0 then { s with fail := true } else { s with pos := target.toNat }

theorem run_seekBeg (target : Int) (s : Stream) :
    (seekBeg target : EStateM ε Stream Unit).run s = .ok () (s.seeked target) := by
  rw [seeked]
  change (if s.fail then EStateM.Result.ok () s else _) = _
  split
  · rfl
  · split <;> rfl

/-- Overwrite at the position, extending the content at its end. -/
def write (bytes : Bytes) : EStateM ε Stream Unit := fun s =>
  if s.fail then .ok () s
  else
    let before := s.content.take s.pos ++ List.replicate (s.pos - s.content.length) 0
    .ok () { s with
      content := before ++ bytes ++ s.content.drop (s.pos + bytes.length)
      pos := s.pos + bytes.length }

def close : EStateM ε Stream Unit := fun s => .ok () { s with fail := true, isOpen := false }

def split (before after : Bytes) : Stream := ⟨before ++ after, before.length, false, true⟩

@[simp] theorem opened_isOpen (content : Bytes) : (opened content).isOpen = true := rfl

@[simp] theorem split_content (before after : Bytes) :
    (split before after).content = before ++ after := rfl

@[simp] theorem run_failed (s : Stream) : (failed : EStateM ε Stream Bool).run s = .ok s.fail s := rfl

@[simp] theorem run_tell (s : Stream) : (tell : EStateM ε Stream Nat).run s = .ok s.pos s := rfl

@[simp] theorem split_fail (before after : Bytes) : (split before after).fail = false := rfl

@[simp] theorem split_pos (before after : Bytes) : (split before after).pos = before.length := rfl

@[simp] theorem split_isOpen (before after : Bytes) : (split before after).isOpen = true := rfl

theorem read_split {n : Nat} {bytes : Bytes} (h : bytes.length = n) (before after : Bytes) :
    (read n : EStateM ε Stream Bytes).run (split before (bytes ++ after)) =
      .ok bytes (split (before ++ bytes) after) := by
  subst h
  simp [read, split, EStateM.run]

/-- The stream after a read that ran into the end of the content. -/
def exhausted (content : Bytes) : Stream := ⟨content, content.length, true, true⟩

@[simp] theorem exhausted_fail (content : Bytes) : (exhausted content).fail = true := rfl

@[simp] theorem exhausted_content (content : Bytes) : (exhausted content).content = content := rfl

theorem read_split_short {n : Nat} {after : Bytes} (h : after.length < n) (before : Bytes) :
    (read n : EStateM ε Stream Bytes).run (split before after) =
      .ok after (exhausted (before ++ after)) := by
  have all : after.take n = after := List.take_of_length_le (by omega)
  simp [read, split, exhausted, EStateM.run, all, h]

theorem read_failed {s : Stream} (h : s.fail = true) (n : Nat) :
    (read n : EStateM ε Stream Bytes).run s = .ok [] s := by
  simp [read, EStateM.run, h]

theorem seekCur_split {distance : Int} {bytes : Bytes} (h : (bytes.length : Int) = distance)
    (before after : Bytes) :
    (seekCur distance : EStateM ε Stream Unit).run (split before (bytes ++ after)) =
      .ok () (split (before ++ bytes) after) := by
  subst h
  have forward : ¬ ((before.length : Int) + bytes.length < 0) := by omega
  have target : ((before.length : Int) + bytes.length).toNat = before.length + bytes.length := by
    omega
  simp [seekCur, split, EStateM.run, forward, target]

theorem seekBeg_split {target : Int} {before after : Bytes} (h : target = before.length)
    {s : Stream} (ok : s.fail = false) (isOpen : s.isOpen = true)
    (content : s.content = before ++ after) :
    (seekBeg target : EStateM ε Stream Unit).run s = .ok () (split before after) := by
  subst h
  obtain ⟨_, _, _, _⟩ := s
  subst ok isOpen content
  simp [seekBeg, split, EStateM.run]

theorem write_split {old new : Bytes} (h : old.length = new.length) (before after : Bytes) :
    (write new : EStateM ε Stream Unit).run (split before (old ++ after)) =
      .ok () (split (before ++ new) after) := by
  simp [write, split, EStateM.run, ← h]

end Stream
end Foundation
