import ExecutionZone.Circuit.Accepted
import ExecutionZone.Programs.Sample
import ExecutionZone.Transaction.PublicPath

/-!
# Validity windows

A program limits the blocks and the times its output may be used at.  The public path checks the
windows of each output when it is executed.  The circuit does not know the block it will be
verified in: it outputs the intersection of all windows, the largest start and the smallest
end, and refuses if the former is not below the latter.

A value lies in this intersection exactly if it lies in all the windows, so both paths accept
the same blocks and times (`isValidFor_intersectWindows`).  The circuit sees that no value does
where a start meets an end.  Windows without a start that end at zero hold no value either, and
it does not see this (`windows_compose_iff`).
-/

namespace ExecutionZone

open CallTree

/-! ## Intersections -/

instance lawfulOrderSupUInt64 : Std.LawfulOrderSup UInt64 where
  max_le_iff a b c := by
    rw [show max a b = if a ≤ b then b else a from rfl]
    split
    · rename_i hle
      exact ⟨fun h => ⟨UInt64.le_trans hle h, h⟩, And.right⟩
    · rename_i hlt
      have hle : b ≤ a := UInt64.le_of_lt (UInt64.not_le.1 hlt)
      exact ⟨fun h => ⟨h, UInt64.le_trans hle h⟩, And.left⟩

instance maxEqOrUInt64 : Std.MaxEqOr UInt64 where
  max_eq_or a b := by
    rw [show max a b = if a ≤ b then b else a from rfl]
    split
    · exact .inr rfl
    · exact .inl rfl

section

variable {windows : List (ValidityWindow UInt64)} {w : ValidityWindow UInt64} {value : UInt64}

theorem ValidityWindow.isValidFor_iff : w.isValidFor value = true ↔
    (∀ a, w.start = some a → a ≤ value) ∧ ∀ b, w.stop = some b → value < b := by
  obtain ⟨start, stop⟩ := w
  cases start <;> cases stop <;> simp [ValidityWindow.isValidFor]

/-- A window starts where another one has ended. -/
def StartAfterEnd (windows : List (ValidityWindow UInt64)) : Prop :=
  ∃ a ∈ windows.filterMap (·.start), ∃ b ∈ windows.filterMap (·.stop), b ≤ a

/-- No window has a start, and one of them ends before the first value. -/
def EndAtZero (windows : List (ValidityWindow UInt64)) : Prop :=
  windows.filterMap (·.start) = [] ∧ 0 ∈ windows.filterMap (·.stop)

instance : Decidable (StartAfterEnd windows) :=
  inferInstanceAs (Decidable (∃ a ∈ _, ∃ b ∈ _, b ≤ a))

instance : Decidable (EndAtZero windows) := inferInstanceAs (Decidable (_ ∧ _))

theorem forall_isValidFor_iff : (∀ w ∈ windows, w.isValidFor value = true) ↔
    (∀ a ∈ windows.filterMap (·.start), a ≤ value) ∧
      ∀ b ∈ windows.filterMap (·.stop), value < b := by
  simp only [ValidityWindow.isValidFor_iff, List.mem_filterMap]
  constructor
  · intro h
    constructor
    · rintro a ⟨w, hw, ha⟩
      exact (h w hw).1 a ha
    · rintro b ⟨w, hw, hb⟩
      exact (h w hw).2 b hb
  · rintro ⟨hstart, hstop⟩ w hw
    exact ⟨fun a ha => hstart a ⟨w, hw, ha⟩, fun b hb => hstop b ⟨w, hw, hb⟩⟩

/-- What `try_from` refuses. -/
theorem ValidityWindow.tryFrom_eq_none {start stop : Option UInt64} :
    ValidityWindow.tryFrom start stop = none ↔ ∃ a b, start = some a ∧ stop = some b ∧ b ≤ a := by
  unfold ValidityWindow.tryFrom
  cases start with
  | none => simp
  | some a => cases stop <;> simp

theorem ValidityWindow.tryFrom_eq_some {start stop : Option UInt64}
    (h : ValidityWindow.tryFrom start stop = some w) : w = ⟨start, stop⟩ := by
  unfold ValidityWindow.tryFrom at h
  split at h
  · split at h
    · cases h
    · exact (Option.some.inj h).symm
  · exact (Option.some.inj h).symm

/-- The intersection is refused exactly where a start meets an end. -/
theorem intersectWindows_eq_none : intersectWindows windows = none ↔ StartAfterEnd windows := by
  rw [intersectWindows, ValidityWindow.tryFrom_eq_none]
  constructor
  · rintro ⟨a, b, ha, hb, hle⟩
    exact ⟨a, List.max?_mem ha, b, List.min?_mem hb, hle⟩
  · rintro ⟨a, ha, b, hb, hle⟩
    obtain ⟨start, hstart⟩ := Option.ne_none_iff_exists'.1
      (mt List.max?_eq_none_iff.1 (List.ne_nil_of_mem ha))
    obtain ⟨stop, hstop⟩ := Option.ne_none_iff_exists'.1
      (mt List.min?_eq_none_iff.1 (List.ne_nil_of_mem hb))
    refine ⟨start, stop, hstart, hstop, ?_⟩
    have hastart : a ≤ start := (List.max?_le_iff hstart).1 (UInt64.le_refl _) a ha
    have hstopb : stop ≤ b := (List.le_min?_iff hstop).1 (UInt64.le_refl _) b hb
    exact UInt64.le_trans hstopb (UInt64.le_trans hle hastart)

/-- **Intersection.**  A value lies in the intersection exactly if it lies in all windows. -/
theorem isValidFor_intersectWindows (h : intersectWindows windows = some w) :
    w.isValidFor value = true ↔ ∀ w' ∈ windows, w'.isValidFor value = true := by
  rw [ValidityWindow.tryFrom_eq_some h, ValidityWindow.isValidFor_iff, forall_isValidFor_iff]
  refine and_congr ?_ ?_
  · cases hstart : (windows.filterMap (·.start)).max? with
    | none => simp [List.max?_eq_none_iff.1 hstart]
    | some start =>
        rw [← List.max?_le_iff hstart]
        exact ⟨fun h => h start rfl, fun h a ha => Option.some.inj ha ▸ h⟩
  · cases hstop : (windows.filterMap (·.stop)).min? with
    | none => simp [List.min?_eq_none_iff.1 hstop]
    | some stop =>
        constructor
        · intro h b hb
          exact UInt64.lt_of_lt_of_le (h stop rfl)
            ((List.le_min?_iff hstop).1 (UInt64.le_refl _) b hb)
        · intro h b hb
          exact h b (List.min?_mem (hstop.trans hb))

/-- No value lies in all windows where a start meets an end, or where the values below an end
at zero are asked for. -/
theorem not_exists_isValidFor_iff :
    (¬∃ value, ∀ w ∈ windows, w.isValidFor value = true) ↔
      StartAfterEnd windows ∨ EndAtZero windows := by
  simp only [forall_isValidFor_iff]
  constructor
  · intro h
    by_contra hne
    obtain ⟨hmeet, hzero⟩ := not_or.1 hne
    -- the largest start lies in all windows, and zero does if there is no start
    cases hstart : (windows.filterMap (·.start)).max? with
    | some start =>
        refine h ⟨start, (List.max?_le_iff hstart).1 (UInt64.le_refl _), fun b hb => ?_⟩
        exact UInt64.not_le.1 fun hle => hmeet ⟨start, List.max?_mem hstart, b, hb, hle⟩
    | none =>
        have hnil := List.max?_eq_none_iff.1 hstart
        refine h ⟨0, by simp [hnil], fun b hb => ?_⟩
        exact UInt64.pos_iff_ne_zero.2 fun heq => hzero ⟨hnil, heq ▸ hb⟩
  · rintro (⟨a, ha, b, hb, hle⟩ | ⟨_, hzero⟩) ⟨value, hstart, hstop⟩
    · have hlt : value < value :=
        UInt64.lt_of_lt_of_le (hstop b hb) (UInt64.le_trans hle (hstart a ha))
      exact UInt64.lt_irrefl _ hlt
    · exact UInt64.not_lt_zero (hstop 0 hzero)

end

/-! ## The two paths -/

/-- The check of the public path on the windows of an output. -/
def checkWindows (blockId : BlockId) (timestamp : Timestamp) (out : ProgramOutput) :
    Except NssaError Unit :=
  ensure (out.blockValidityWindow.isValidFor blockId ∧
    out.timestampValidityWindow.isValidFor timestamp) .outOfValidityWindow

section

variable {outs : List ProgramOutput} {es es' : ExecutionState}

theorem initial_eq_ok (h : ExecutionState.initial outs = .ok es) :
    intersectWindows (outs.map (·.blockValidityWindow)) = some es.blockValidityWindow ∧
      intersectWindows (outs.map (·.timestampValidityWindow)) =
        some es.timestampValidityWindow := by
  simp only [ExecutionState.initial, bind_eq_ok, expect_eq_ok, pure, Except.pure,
    Except.ok.injEq] at h
  obtain ⟨block, hblock, timestamp, htimestamp, rfl⟩ := h
  exact ⟨hblock, htimestamp⟩

theorem initial_eq_error_iff : (∃ msg, ExecutionState.initial outs = .error msg) ↔
    StartAfterEnd (outs.map (·.blockValidityWindow)) ∨
      StartAfterEnd (outs.map (·.timestampValidityWindow)) := by
  rw [← intersectWindows_eq_none, ← intersectWindows_eq_none]
  unfold ExecutionState.initial
  cases hblock : intersectWindows (outs.map (·.blockValidityWindow)) with
  | none => exact iff_of_true ⟨_, rfl⟩ (.inl rfl)
  | some block =>
      cases htimestamp : intersectWindows (outs.map (·.timestampValidityWindow)) with
      | none => exact iff_of_true ⟨_, rfl⟩ (.inr rfl)
      | some timestamp => simp [expect, bind, Except.bind, pure, Except.pure]

variable [Sha256] [Zkvm]

/-- The loop of calls does not change the windows. -/
theorem windows_of_deriveFromOutputs {input : PrivacyPreservingCircuitInput}
    (h : deriveFromOutputs input.accountIdentities input.programId input.programOutputs =
      .ok es) :
    ∃ es₀, ExecutionState.initial input.programOutputs = .ok es₀ ∧ es.windows = es₀.windows := by
  obtain ⟨first, rest, es₀, _, hes₀, hruns, _⟩ := runs_of_deriveFromOutputs h
  refine ⟨es₀, hes₀, ?_⟩
  have hinv := hruns.invariant (I := fun s => s.2.windows = es₀.windows) (J := fun _ _ => True)
    (P := fun _ => True) (fun c _ s out s' hwindows _ hstep => ?_) rfl (fun _ _ => trivial)
  · exact hinv.1
  · refine ⟨?_, fun _ _ => trivial, trivial⟩
    obtain ⟨_, hconsumed⟩ := consumed_of_step hstep
    have hsame := (related_of_syncTurns (I := fun _ => True)
      (G := fun es es' => es'.windows = es.windows) (fun _ => rfl)
      (fun _ _ _ h h' => h'.trans h) (fun _ _ _ _ _ _ hturn => ⟨trivial, hturn.windows⟩)
      hconsumed.sync trivial).1.2
    exact hsame.trans hwindows

variable [ChaCha20]

omit [Zkvm] in
/-- The accounts do not change the windows either. -/
theorem windows_of_emitAccounts {bound : Ledger.Map Nat (ProgramId × PdaSeed)} {position : Nat}
    {l : List (InputAccountIdentity × AccountWithMetadata × Account)}
    {acc acc' : PrivacyPreservingCircuitOutput × Nat}
    (h : emitAccounts bound position l acc = .ok acc') :
    acc'.1.blockValidityWindow = acc.1.blockValidityWindow ∧
      acc'.1.timestampValidityWindow = acc.1.timestampValidityWindow := by
  induction l generalizing position acc with
  | nil =>
      cases h
      exact ⟨rfl, rfl⟩
  | cons p l ih =>
      obtain ⟨identity, pre, post⟩ := p
      simp only [emitAccounts, bind_eq_ok] at h
      obtain ⟨update, _, acc₁, hacc, h⟩ := h
      obtain ⟨hblock, htimestamp⟩ := ih h
      rw [hblock, htimestamp]
      cases update with
      | none =>
          cases hacc
          exact ⟨rfl, rfl⟩
      | some u =>
          simp only [emitAccount, emitPrivateOutput, bind_eq_ok, ensure_eq_ok, exists_const, pure,
            Except.pure, Except.ok.injEq] at hacc
          obtain ⟨_, rfl⟩ := hacc
          exact ⟨rfl, rfl⟩

/-- The circuit outputs the windows it starts with. -/
theorem windows_of_circuit {input : PrivacyPreservingCircuitInput}
    {output : PrivacyPreservingCircuitOutput} (h : circuit input = .ok output) :
    ∃ es₀, ExecutionState.initial input.programOutputs = .ok es₀ ∧
      output.blockValidityWindow = es₀.blockValidityWindow ∧
      output.timestampValidityWindow = es₀.timestampValidityWindow := by
  obtain ⟨es, hes, h⟩ := bind_eq_ok.1 h
  obtain ⟨es₀, hes₀, hwindows⟩ := windows_of_deriveFromOutputs hes
  simp only [computeCircuitOutput, bind_eq_ok, ensure_eq_ok, exists_const, pure, Except.pure,
    Except.ok.injEq] at h
  obtain ⟨_, _, _, ⟨output', _⟩, hemit, rfl⟩ := h
  obtain ⟨hblock, htimestamp⟩ := windows_of_emitAccounts hemit
  exact ⟨es₀, hes₀, hblock.trans (congrArg Prod.fst hwindows),
    htimestamp.trans (congrArg Prod.snd hwindows)⟩

/-- The circuit fails on the windows of the outputs, which it looks at first. -/
def FailsOnWindows (input : PrivacyPreservingCircuitInput) : Prop :=
  ∃ msg, ExecutionState.initial input.programOutputs = .error msg ∧ circuit input = .error msg

/-- The windows of the outputs compose exactly: the circuit fails on them if no block id, or no
timestamp, lies in all of them, and what it outputs admits the block ids and timestamps at
which the public path lets all outputs pass. -/
structure ComposesExactly (input : PrivacyPreservingCircuitInput) : Prop where
  fails : FailsOnWindows input ↔
    (¬∃ blockId, ∀ out ∈ input.programOutputs, out.blockValidityWindow.isValidFor blockId) ∨
      ¬∃ timestamp, ∀ out ∈ input.programOutputs, out.timestampValidityWindow.isValidFor timestamp
  admits : ∀ es, ExecutionState.initial input.programOutputs = .ok es → ∀ blockId timestamp,
    (es.blockValidityWindow.isValidFor blockId ∧ es.timestampValidityWindow.isValidFor timestamp ↔
      ∀ out ∈ input.programOutputs, checkWindows blockId timestamp out = .ok ())
  outputs : ∀ output, circuit input = .ok output → ∀ blockId timestamp,
    (output.blockValidityWindow.isValidFor blockId ∧
        output.timestampValidityWindow.isValidFor timestamp ↔
      ∀ out ∈ input.programOutputs, checkWindows blockId timestamp out = .ok ())

theorem failsOnWindows_iff {input : PrivacyPreservingCircuitInput} : FailsOnWindows input ↔
    StartAfterEnd (input.programOutputs.map (·.blockValidityWindow)) ∨
      StartAfterEnd (input.programOutputs.map (·.timestampValidityWindow)) := by
  rw [← initial_eq_error_iff]
  constructor
  · rintro ⟨msg, hinitial, _⟩
    exact ⟨msg, hinitial⟩
  · rintro ⟨msg, hinitial⟩
    refine ⟨msg, hinitial, ?_⟩
    rw [circuit, deriveFromOutputs, hinitial]
    rfl

omit [Sha256] [Zkvm] [ChaCha20] in
theorem admits_of_initial (h : ExecutionState.initial outs = .ok es) (blockId : BlockId)
    (timestamp : Timestamp) :
    es.blockValidityWindow.isValidFor blockId ∧ es.timestampValidityWindow.isValidFor timestamp ↔
      ∀ out ∈ outs, checkWindows blockId timestamp out = .ok () := by
  obtain ⟨hblock, htimestamp⟩ := initial_eq_ok h
  rw [isValidFor_intersectWindows hblock, isValidFor_intersectWindows htimestamp]
  simp only [checkWindows, ensure_eq_ok, List.forall_mem_map]
  exact forall₂_and.symm

/-- **Windows.**  The windows of the outputs compose exactly if in neither kind all windows are
without a start and one ends at zero, or if the circuit refuses for a start that meets an end. -/
theorem windows_compose_iff (input : PrivacyPreservingCircuitInput) :
    ComposesExactly input ↔
      (¬EndAtZero (input.programOutputs.map (·.blockValidityWindow)) ∧
        ¬EndAtZero (input.programOutputs.map (·.timestampValidityWindow))) ∨
      StartAfterEnd (input.programOutputs.map (·.blockValidityWindow)) ∨
      StartAfterEnd (input.programOutputs.map (·.timestampValidityWindow)) := by
  have hempty : ((¬∃ blockId, ∀ out ∈ input.programOutputs,
        out.blockValidityWindow.isValidFor blockId) ∨
      ¬∃ timestamp, ∀ out ∈ input.programOutputs,
        out.timestampValidityWindow.isValidFor timestamp) ↔
      (StartAfterEnd (input.programOutputs.map (·.blockValidityWindow)) ∨
        EndAtZero (input.programOutputs.map (·.blockValidityWindow))) ∨
      StartAfterEnd (input.programOutputs.map (·.timestampValidityWindow)) ∨
        EndAtZero (input.programOutputs.map (·.timestampValidityWindow)) := by
    rw [← not_exists_isValidFor_iff, ← not_exists_isValidFor_iff]
    simp only [List.forall_mem_map]
  constructor
  · intro h
    have hfails := h.fails
    rw [failsOnWindows_iff, hempty] at hfails
    tauto
  · intro h
    refine ⟨?_, fun es hes => admits_of_initial hes, fun output houtput blockId timestamp => ?_⟩
    · rw [failsOnWindows_iff, hempty]
      tauto
    · obtain ⟨es, hes, hblock, htimestamp⟩ := windows_of_circuit houtput
      rw [hblock, htimestamp]
      exact admits_of_initial hes blockId timestamp

end

namespace EmptyWindow

/-- Program `10` asks to be used before block `0`. -/
def script : Sample.Script := fun _ input =>
  .ok { input.output [] [] with blockValidityWindow := ⟨none, some 0⟩ }

def input : PrivacyPreservingCircuitInput :=
  ⟨[Sample.output script 10 none [] []], [], Sample.programId 10⟩

end EmptyWindow

/-- The circuit accepts an output whose window holds no block id. -/
theorem empty_window_is_accepted :
    let _ := Sample.sha256; let _ := Sample.zkvm EmptyWindow.script; let _ := Sample.chaCha20
    (circuit EmptyWindow.input).isOk = true ∧ ¬FailsOnWindows EmptyWindow.input ∧
      (¬∃ blockId, ∀ out ∈ EmptyWindow.input.programOutputs,
        out.blockValidityWindow.isValidFor blockId) ∧
      ¬ComposesExactly EmptyWindow.input := by
  intro _ _ _
  have hwindows : ¬(StartAfterEnd (EmptyWindow.input.programOutputs.map (·.blockValidityWindow)) ∨
        StartAfterEnd (EmptyWindow.input.programOutputs.map (·.timestampValidityWindow))) ∧
      EndAtZero (EmptyWindow.input.programOutputs.map (·.blockValidityWindow)) := by
    decide +kernel
  have hfails : ¬FailsOnWindows EmptyWindow.input := mt failsOnWindows_iff.1 hwindows.1
  have hnone : ¬∃ blockId, ∀ out ∈ EmptyWindow.input.programOutputs,
      out.blockValidityWindow.isValidFor blockId := by
    have hnone := not_exists_isValidFor_iff.2 (.inr hwindows.2)
    simpa only [List.forall_mem_map] using hnone
  exact ⟨by decide +kernel, hfails, hnone, fun h => hfails (h.fails.2 (.inl hnone))⟩

end ExecutionZone
