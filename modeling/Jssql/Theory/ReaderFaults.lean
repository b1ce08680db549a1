import Jssql.DBEngine.FileHandler.Handlers

/-!
The faults that operations on a stream can stop with. The readers themselves can
only refuse a size, a number or an index, or go on without end; the calls of
`handleFatalError` on streams name three codes.
-/
namespace Jssql.FileHandler
open Foundation Foundation.Stream ConditionEvaluator

/-- The faults of a reader that makes no call of `handleFatalError`. -/
inductive ReaderFault : Fault → Prop where
  | stod : ReaderFault (.exception .stod)
  | lengthError : ReaderFault (.exception .lengthError)
  | outOfBounds : ReaderFault (.undefined .outOfBounds)
  | diverges : ReaderFault .diverges

/-- The operation stops with these faults only, on whatever stream. -/
abbrev Raises {α : Type} (E : Fault → Prop) (p : StreamM α) : Prop := Keeps (fun _ => True) E p

theorem Raises.ofOk {α : Type} {E : Fault → Prop} {p : StreamM α}
    (total : ∀ s, ∃ a s', p.run s = .ok a s') : Raises E p := by
  intro s _
  obtain ⟨a, s', run⟩ := total s
  rw [run]
  trivial

section Primitives

variable {E : Fault → Prop}

theorem read_raises (n : Nat) : Raises E (read n) := by
  refine .ofOk fun s => ?_
  cases h : s.fail <;> simp [Stream.read, EStateM.run, h]

theorem failed_raises : Raises E failed := .ofOk fun s => ⟨s.fail, s, rfl⟩

theorem tell_raises : Raises E tell := .ofOk fun s => ⟨s.pos, s, rfl⟩

theorem seekCur_raises (distance : Int) : Raises E (seekCur distance) := by
  refine .ofOk fun s => ?_
  simp only [seekCur, EStateM.run]
  split
  · exact ⟨_, _, rfl⟩
  · split <;> exact ⟨_, _, rfl⟩

theorem seekBeg_raises (target : Int) : Raises E (seekBeg target) := by
  refine .ofOk fun s => ?_
  simp only [seekBeg, EStateM.run]
  split
  · exact ⟨_, _, rfl⟩
  · split <;> exact ⟨_, _, rfl⟩

theorem write_raises (bytes : Bytes) : Raises E (write bytes) := by
  refine .ofOk fun s => ?_
  cases h : s.fail <;> simp [write, EStateM.run, h]

theorem close_raises : Raises E close := .ofOk fun _ => ⟨_, _, rfl⟩

theorem handleFatalError_raises {σ : Type} {P : σ → Prop} (env : Env) {code : FatalErrorCode}
    (allowed : E (.exit code)) : Keeps P E (handleFatalError env code : EStateM Fault σ Unit) :=
  .ofIte (fun _ => .ofPure _) fun _ => .ofThrow allowed

end Primitives

/-! Readers without a fatal error -/

section Readers

variable {E : Fault → Prop} (env : Env)

theorem readUnchecked_raises (n : Nat) : Raises E (readUnchecked env n) :=
  tell_raises.bind fun _ => (read_raises n).bind fun _ => .ofPure _

theorem readSize_raises : Raises E (readSize env) :=
  (readUnchecked_raises env 8).bind fun _ => .ofPure _

theorem readHead_raises : Raises E readHead := by
  refine (read_raises 8).bind fun _ => failed_raises.bind fun _ => .ofIte (fun _ => .ofPure _)
    fun _ => ?_
  refine tell_raises.bind fun _ => (read_raises 1).bind fun _ => failed_raises.bind fun _ =>
    .ofIte (fun _ => .ofPure _) fun _ => ?_
  exact .ofIte (fun _ => (seekCur_raises _).bind fun _ => .ofPure _) fun _ => .ofPure _

theorem skipColumnOffsetRegion_raises (columns : Nat) : Raises E (skipColumnOffsetRegion columns) :=
  seekCur_raises _

theorem deserializeNextRecordType_raises : Raises E deserializeNextRecordType := by
  refine readHead_raises.bind fun head => ?_
  cases head with
  | done indicator => exact .ofPure _
  | live recordLength start type => exact (seekCur_raises _).bind fun _ => .ofPure _

theorem markAsTombstone_raises (startOfType recordLength : Nat) :
    Raises E (markAsTombstone startOfType recordLength) :=
  (seekBeg_raises _).bind fun _ => (write_raises _).bind fun _ => seekBeg_raises _

theorem findColumnOffset_raises (colcode : UInt8) (entries : Nat) :
    ∀ finalOffset, Raises E (findColumnOffset env colcode entries finalOffset) := by
  induction entries with
  | zero => intro finalOffset; exact .ofPure _
  | succ entries ih =>
      intro finalOffset
      exact (readUnchecked_raises env _).bind fun _ => ih _

theorem copyColumnOffsets_raises (entries : Nat) : Raises E (copyColumnOffsets env entries) := by
  induction entries with
  | zero => exact .ofPure _
  | succ entries ih => exact (readUnchecked_raises env _).bind fun _ => ih.bind fun _ => .ofPure _

variable (reader : ∀ e, ReaderFault e → E e)
include reader

theorem readSized_raises (n : Nat) : Raises E (readSized n) := by
  unfold readSized
  refine .ofIte (fun _ => ?_) fun _ => (read_raises n).bind fun _ => .ofPure _
  exact Keeps.bind (.ofThrow (reader _ .lengthError)) fun _ => (read_raises n).bind fun _ => .ofPure _

theorem deserializeNextPrimaryKey_raises (columns : Nat) :
    Raises E (deserializeNextPrimaryKey columns) := by
  refine readHead_raises.bind fun head => ?_
  cases head with
  | done indicator => exact .ofPure _
  | live recordLength start type =>
      refine (skipColumnOffsetRegion_raises _).bind fun _ => (read_raises 8).bind fun _ =>
        failed_raises.bind fun _ => .ofIte (fun _ => .ofPure _) fun _ => ?_
      refine (readSized_raises reader _).bind fun _ => failed_raises.bind fun _ =>
        .ofIte (fun _ => .ofPure _) fun _ => ?_
      exact (seekCur_raises _).bind fun _ => .ofPure _

theorem extractPrimaryKeysIndex_raises (columns : Nat) : Raises E (extractPrimaryKeysIndex columns) :=
  .bindGet fun _ _ => .ofRepeatUntil (reader _ .diverges) (fun _ =>
    (deserializeNextPrimaryKey_raises reader columns).bind fun _ => .ofPure _) _ _

theorem evaluateWhere_fault {optWhere : Option WhereNode} {i : Nat} {value : Bytes} {b : Bool}
    {e : Fault} (h : evaluateWhere optWhere i value b = .error e) : E e := by
  unfold evaluateWhere at h
  split at h
  · split at h
    · rw [evaluateComparator_error h]
      exact reader _ .stod
    · cases h
  · cases h

theorem index_fault {α : Type} {xs : List α} {i : Nat} {e : Fault} (h : index xs i = .error e) :
    E e := by
  unfold index at h
  split at h
  · cases h
  · cases h
    exact reader _ .outOfBounds

theorem readColumns_raises {project : Nat → Except Fault Bool}
    (projects : ∀ i e, project i = .error e → E e) (optWhere : Option WhereNode) (columns : Nat) :
    ∀ i b out, Raises E (readColumns env project optWhere columns i b out) := by
  induction columns with
  | zero => intro i b out; exact .ofPure _
  | succ columns ih =>
      intro i b out
      refine (readSize_raises env).bind fun _ => (readSized_raises reader _).bind fun _ =>
        failed_raises.bind fun _ => .ofIte (fun _ => .ofPure _) fun _ => ?_
      refine Keeps.bind (.ofLift fun e h => evaluateWhere_fault reader h) fun _ => ?_
      exact Keeps.bind (.ofLift (projects i)) fun _ => ih _ _ _

theorem deserializeNextRecord_raises (schema : Schema) (projectionMask : List Bool)
    (optWhere : Option WhereNode) :
    Raises E (deserializeNextRecord env schema projectionMask optWhere) := by
  refine readHead_raises.bind fun head => ?_
  cases head with
  | done indicator => exact .ofPure _
  | live recordLength start type =>
      refine (skipColumnOffsetRegion_raises _).bind fun _ =>
        (readColumns_raises env reader (fun _ _ => index_fault reader) _ _ _ _ _).bind fun r => ?_
      cases r <;> exact .ofPure _

theorem deserializeNextRecordAndMarkAsTombstone_raises (schema : Schema)
    (optWhere : Option WhereNode) :
    Raises E (deserializeNextRecordAndMarkAsTombstone env schema optWhere) := by
  refine readHead_raises.bind fun head => ?_
  cases head with
  | done indicator => exact .ofPure _
  | live recordLength start type =>
      refine (skipColumnOffsetRegion_raises _).bind fun _ => (readColumns_raises env reader
        (fun _ _ h => by cases h) optWhere _ _ _ _).bind fun r => ?_
      match r with
      | none => exact .ofPure _
      | some (false, _) => exact .ofPure _
      | some (true, _) => exact (markAsTombstone_raises _ _).bind fun _ => .ofPure _

theorem selectSequentially_raises (schema : Schema) (projectionMask : List Bool)
    (optWhere : Option WhereNode) :
    Raises E (selectSequentially env schema projectionMask optWhere) :=
  .bindGet fun _ _ => .ofRepeatUntil (reader _ .diverges) (fun _ =>
    (deserializeNextRecord_raises env reader schema projectionMask optWhere).bind
      fun _ => .ofPure _) _ _

theorem selectByIndexLookup_raises (schema : Schema) (projectionMask : List Bool)
    (optWhere : Option WhereNode) (offset : Nat) :
    Raises E (selectByIndexLookup env schema projectionMask optWhere offset) :=
  (seekBeg_raises _).bind fun _ => (deserializeNextRecord_raises env reader schema projectionMask
    optWhere).bind fun _ => .ofPure _

theorem copyString_raises : Raises E (copyString env) :=
  (readSize_raises env).bind fun _ => (readSized_raises reader _).bind fun _ => .ofPure _

theorem copyLiterals_raises (columns : Nat) : Raises E (copyLiterals env columns) := by
  induction columns with
  | zero => exact .ofPure _
  | succ columns ih => exact (copyString_raises env reader).bind fun _ => ih.bind fun _ => .ofPure _

theorem copyNextLiveRecord_raises (columns : Nat) : Raises E (copyNextLiveRecord env columns) := by
  refine readHead_raises.bind fun head => ?_
  cases head with
  | done indicator => exact .ofPure _
  | live recordLength start type =>
      exact (copyColumnOffsets_raises env _).bind fun _ => (copyString_raises env reader).bind
        fun _ => (copyLiterals_raises env reader _).bind fun _ => .ofPure _

theorem comparedKey_raises (columns : Nat) : Raises E (comparedKey env columns) :=
  (skipColumnOffsetRegion_raises _).bind fun _ => (readSize_raises env).bind fun _ =>
    readSized_raises reader _

end Readers
end Jssql.FileHandler
