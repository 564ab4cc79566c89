import ExecutionZone.Circuit.Binding
import ExecutionZone.Circuit.Output
import ExecutionZone.Programs.Sample
import ExecutionZone.Transaction.PublicPath

/-!
# How many calls a transaction may make

Three loops execute a tree of calls: the public path, the circuit on the outputs it is given,
and the prover, which executes the programs locally to produce these outputs.  Each counts the
calls it executed and compares the count with the same constant before it executes the next one.
The public path and the circuit let the count reach the constant, the prover does not.
-/

namespace ExecutionZone

open CallTree

/-! ## The prover -/

/-- A program with the programs it may call. -/
structure ProgramWithDependencies where
  program : Program
  dependencies : Ledger.Map ProgramId Program

/-- The errors of `execute_and_prove`. -/
inductive ProvingError where
  | maxChainedCallsDepthExceeded
  | programProveFailed (msg : String)
  | undeclaredProgramDependency (programId : ProgramId)
  | circuitProvingError (msg : String)
deriving DecidableEq

/-- The prover of the circuit: the bytes of the receipt for a journal. -/
class CircuitProver where
  receipt : PrivacyPreservingCircuitInput → PrivacyPreservingCircuitOutput → Bytes

/-- A pending call, with its program. -/
structure ProverCall where
  call : ChainedCall
  program : Program
  callerProgramId : Option ProgramId
deriving DecidableEq

/-- The calls an output chains, with their programs.  They are looked up from the last to the
first. -/
def resolveCalls (dependencies : Ledger.Map ProgramId Program) (callerProgramId : ProgramId)
    (chainedCalls : List ChainedCall) : Except ProvingError (List ProverCall) := do
  let resolved ← chainedCalls.reverse.mapM fun call => do
    let program ← expect (dependencies.lookup call.programId)
      (.undeclaredProgramDependency call.programId)
    return ⟨call, program, some callerProgramId⟩
  return resolved.reverse

section

variable [Zkvm]

/-- `execute_and_prove_program`: proving runs the program, and the journal is its output. -/
def executeAndProveProgram (c : ProverCall) : Except ProvingError ProgramOutput :=
  (Zkvm.execute c.program.elf ⟨c.program.id, c.callerProgramId, c.call.preStates,
    c.call.instructionData⟩).mapError .programProveFailed

/-- One turn of the loop: prove a call, and look up the programs of the calls it chains. -/
def proveCall (dependencies : Ledger.Map ProgramId Program) (c : ProverCall)
    (programOutputs : List ProgramOutput) :
    Except ProvingError ((ProgramOutput × List ProverCall) × List ProgramOutput) := do
  let out ← executeAndProveProgram c
  let calls ← resolveCalls dependencies c.call.programId out.chainedCalls
  return ((out, calls), programOutputs ++ [out])

/-- The loop of `execute_and_prove`. -/
def proverMachine (dependencies : Ledger.Map ProgramId Program) :
    Machine ProverCall (ProgramOutput × List ProverCall) (List ProgramOutput) ProvingError where
  step := proveCall dependencies
  children _ r := r.2
  exceeded := .maxChainedCallsDepthExceeded

/-- The first call. -/
def ProgramWithDependencies.initialCall (p : ProgramWithDependencies)
    (preStates : List AccountWithMetadata) (instructionData : InstructionData) : ProverCall :=
  ⟨⟨p.program.id, preStates, instructionData, []⟩, p.program, none⟩

/-- `execute_and_prove`.  The counter has to be below the maximum when a call is executed. -/
def executeAndProve [Sha256] [ChaCha20] [CircuitProver] (preStates : List AccountWithMetadata)
    (instructionData : InstructionData) (accountIdentities : List InputAccountIdentity)
    (p : ProgramWithDependencies) :
    Except ProvingError (PrivacyPreservingCircuitOutput × Bytes) := do
  let programOutputs ← (proverMachine p.dependencies).run maxNumberChainedCalls
    [p.initialCall preStates instructionData] []
  let input : PrivacyPreservingCircuitInput := ⟨programOutputs, accountIdentities, p.program.id⟩
  let output ← (circuit input).mapError .circuitProvingError
  return (output, CircuitProver.receipt input output)

end

/-! ## Calls of the prover -/

theorem resolveCalls_eq_ok {dependencies : Ledger.Map ProgramId Program}
    {callerProgramId : ProgramId} {chainedCalls : List ChainedCall} {calls : List ProverCall}
    (h : resolveCalls dependencies callerProgramId chainedCalls = .ok calls) :
    List.Forall₂ (fun call c => c.call = call ∧ c.callerProgramId = some callerProgramId)
      chainedCalls calls := by
  simp only [resolveCalls, bind_eq_ok, pure, Except.pure, Except.ok.injEq] at h
  obtain ⟨resolved, h, rfl⟩ := h
  rw [← List.forall₂_reverse_iff, List.reverse_reverse]
  refine (forall₂_of_mapM h).imp fun call c hc => ?_
  obtain ⟨program, _, hc⟩ := bind_eq_ok.1 hc
  cases hc
  exact ⟨rfl, rfl⟩

section

variable [Zkvm]

/-- The specification of one turn of the prover's loop. -/
theorem proveCall_eq_ok {dependencies : Ledger.Map ProgramId Program} {c : ProverCall}
    {outputs outputs' : List ProgramOutput} {r : ProgramOutput × List ProverCall}
    (h : proveCall dependencies c outputs = .ok (r, outputs')) :
    Zkvm.execute c.program.elf ⟨c.program.id, c.callerProgramId, c.call.preStates,
        c.call.instructionData⟩ = .ok r.1 ∧
      List.Forall₂ (fun call c' => c'.call = call ∧ c'.callerProgramId = some c.call.programId)
        r.1.chainedCalls r.2 ∧
      outputs' = outputs ++ [r.1] := by
  simp only [proveCall, executeAndProveProgram, bind_eq_ok, mapError_eq_ok, pure, Except.pure,
    Except.ok.injEq, Prod.mk.injEq] at h
  obtain ⟨out, hout, calls, hcalls, rfl, rfl⟩ := h
  exact ⟨hout, resolveCalls_eq_ok hcalls, rfl⟩

/-- The outputs the prover collects are those of the calls it executed. -/
theorem outputs_of_proverRuns {dependencies : Ledger.Map ProgramId Program}
    {q : List (ProverCall × List (ProverCall × ProgramOutput × List ProverCall))}
    {t : List (Executed ProverCall (ProgramOutput × List ProverCall))}
    {outputs : List ProgramOutput} (h : (proverMachine dependencies).Runs q [] t outputs) :
    outputs = t.map (·.result.1) := by
  have hhistory := h.history (I := fun t outputs => outputs = t.map (·.result.1))
    (G := fun _ _ => True) (fun _ => trivial) (fun _ _ _ _ _ => trivial)
    (fun t c anc s r s' hI hstep => by
      refine ⟨?_, trivial⟩
      rw [(proveCall_eq_ok hstep).2.2, hI, List.map_append]
      rfl) [] rfl
  exact hhistory.1.1

variable [Sha256]

/-! ## The three loops -/

section

variable [ChaCha20] [CircuitProver] {preStates : List AccountWithMetadata}
  {instructionData : InstructionData} {p : ProgramWithDependencies}
  {t : List (Executed ProverCall (ProgramOutput × List ProverCall))}
  {outputs : List ProgramOutput}

/-- The prover rejects a tree for its size if it has more calls than the maximum. -/
theorem executeAndProve_exceeded_iff
    (htree : (proverMachine p.dependencies).Runs [(p.initialCall preStates instructionData, [])] []
      t outputs) (accountIdentities : List InputAccountIdentity) :
    executeAndProve preStates instructionData accountIdentities p =
        .error .maxChainedCallsDepthExceeded ↔ maxNumberChainedCalls < t.length := by
  have hrun : (proverMachine p.dependencies).run maxNumberChainedCalls
      [p.initialCall preStates instructionData] [] = _ := htree.run_eq maxNumberChainedCalls
  by_cases hle : t.length ≤ maxNumberChainedCalls
  · rw [if_pos hle] at hrun
    refine iff_of_false (fun h => ?_) (Nat.not_lt.2 hle)
    -- what fails after the loop is the circuit
    simp only [executeAndProve, hrun, bind_eq_error, mapError_eq_error, reduceCtorEq, false_or,
      Except.ok.injEq, exists_eq_left', and_false, exists_false] at h
    obtain ⟨_, _, h⟩ := h
    cases h
  · rw [if_neg hle] at hrun
    refine iff_of_true ?_ (Nat.not_le.1 hle)
    rw [executeAndProve, hrun]
    rfl

end

/-- The outputs pass the checks that the circuit makes of them one by one. -/
def PassesCircuit (accountIdentities : List InputAccountIdentity) (programId : ProgramId)
    (outputs : List ProgramOutput) : Prop :=
  ∃ first rest es₀ calls es, outputs = first :: rest ∧ ExecutionState.initial outputs = .ok es₀ ∧
    (circuitMachine accountIdentities).Runs [(initialCircuitCall programId first, [])]
      (outputs, es₀) calls ([], es)

/-- Every turn of the circuit consumes one output. -/
theorem length_of_circuitRuns {accountIdentities : List InputAccountIdentity}
    {q : List (CircuitCall × List (CircuitCall × ProgramOutput))}
    {s s' : List ProgramOutput × ExecutionState}
    {calls : List (Executed CircuitCall ProgramOutput)}
    (h : (circuitMachine accountIdentities).Runs q s calls s') :
    s.1.length = calls.length + s'.1.length := by
  induction h with
  | nil s => exact (Nat.zero_add _).symm
  | cons hstep _ ih =>
      rw [(consumed_of_step hstep).1, List.length_cons, ih, List.length_cons]
      omega

/-- The circuit rejects outputs for their number if there are more than one above the maximum. -/
theorem deriveFromOutputs_exceeded_iff {accountIdentities : List InputAccountIdentity}
    {programId : ProgramId} {outputs : List ProgramOutput}
    (h : PassesCircuit accountIdentities programId outputs) :
    deriveFromOutputs accountIdentities programId outputs =
        .error "Max chained calls depth is exceeded" ↔
      maxNumberChainedCalls + 1 < outputs.length := by
  obtain ⟨first, rest, es₀, calls, es, rfl, hes₀, hruns⟩ := h
  have hlen : (first :: rest).length = calls.length := length_of_circuitRuns hruns
  have hrun : (circuitMachine accountIdentities).run (maxNumberChainedCalls + 1)
      [initialCircuitCall programId first] (first :: rest, es₀) = _ := hruns.run_eq _
  rw [hlen, deriveFromOutputs, hes₀]
  by_cases hle : calls.length ≤ maxNumberChainedCalls + 1
  · rw [if_pos hle] at hrun
    refine iff_of_false (fun h => ?_) (Nat.not_lt.2 hle)
    -- the checks after the loop fail with other messages
    simp only [hrun, bind_eq_error, reduceCtorEq, false_or, Except.ok.injEq, exists_eq_left',
      ensure_eq_error, not_true_eq_false, false_and, ensure_eq_ok, exists_const, true_and] at h
    rcases h with h | ⟨_, _, h | ⟨_, _, h⟩⟩
    · obtain ⟨_, _, h⟩ := exists_of_forM_eq_error h
      simp [ensure_eq_error] at h
    · obtain ⟨pre, _, h⟩ := exists_of_forM_eq_error h
      split at h
      · simp [bind_eq_error, expect_eq_error, ensure_eq_error] at h
      · cases h
    · cases h
  · rw [if_neg hle] at hrun
    refine iff_of_true ?_ (Nat.not_le.1 hle)
    refine bind_eq_error.2 (.inr ⟨es₀, rfl, ?_⟩)
    exact bind_eq_error.2 (.inl hrun)

section

variable [Schnorr]

/-- A transaction passes the checks before its execution, and its calls those that are made of
them one by one. -/
def PassesPublicPath (tx : PublicTransaction) (st : V03State) (blockId : BlockId)
    (timestamp : Timestamp) (calls : List (Executed PendingCall ProgramOutput)) : Prop :=
  tx.checkMessage st = .ok () ∧
    ∃ diff, (publicMachine st blockId timestamp).Runs [(tx.initialCall st, [])] ∅ calls diff

variable {tx : PublicTransaction} {st : V03State} {blockId : BlockId} {timestamp : Timestamp}
  {calls : List (Executed PendingCall ProgramOutput)}

/-- The public path rejects a tree for its size if it has more calls than one above the
maximum. -/
theorem fromPublicTransaction_exceeded_iff
    (h : PassesPublicPath tx st blockId timestamp calls) :
    fromPublicTransaction tx st blockId timestamp = .error (.err .maxChainedCallsDepthExceeded) ↔
      maxNumberChainedCalls + 1 < calls.length := by
  obtain ⟨hmessage, diff, hruns⟩ := h
  have hrun : (publicMachine st blockId timestamp).run callBudget [tx.initialCall st] ∅ = _ :=
    hruns.run_eq callBudget
  rw [fromPublicTransaction, hmessage]
  by_cases hle : calls.length ≤ callBudget
  · rw [if_pos hle] at hrun
    refine iff_of_false (fun h => ?_) (Nat.not_lt.2 hle)
    -- the check after the loop fails with another error
    simp only [hrun, bind_eq_error, mapError_eq_error, mapError_eq_ok, reduceCtorEq, false_or,
      false_and, exists_false, Except.ok.injEq, exists_eq_left', exists_const, true_and,
      Fault.err.injEq, exists_eq_right] at h
    rcases h with h | ⟨_, _, h⟩
    · obtain ⟨_, _, h⟩ := exists_of_forM_eq_error h
      simp [ensure_eq_error] at h
    · cases h
  · rw [if_neg hle] at hrun
    refine iff_of_true ?_ (Nat.not_le.1 hle)
    refine bind_eq_error.2 (.inr ⟨(), rfl, ?_⟩)
    exact bind_eq_error.2 (.inl hrun)

/-- The public path executes the calls the prover executes. -/
theorem length_of_publicRuns {preStates : List AccountWithMetadata}
    {instructionData : InstructionData} {p : ProgramWithDependencies}
    {t : List (Executed ProverCall (ProgramOutput × List ProverCall))}
    {outputs : List ProgramOutput}
    (htree : (proverMachine p.dependencies).Runs [(p.initialCall preStates instructionData, [])] []
      t outputs)
    (hpublic : PassesPublicPath tx st blockId timestamp calls)
    (hcall : (tx.initialCall st).call = (p.initialCall preStates instructionData).call)
    (hdeployed : ∀ e ∈ t, st.programs.lookup e.call.call.programId = some e.call.program) :
    calls.length = t.length := by
  obtain ⟨_, diff, hruns⟩ := hpublic
  refine (hruns.lockstep
    (ρ := fun c c' => c.call = c'.call ∧ c.caller.programId = c'.callerProgramId)
    (σ := fun out r => out = r.1) ?_ htree hdeployed (.cons ⟨hcall, rfl⟩ .nil)).length_eq
  rintro c diff out diff' c' anc' outputs r outputs' ⟨hc, hcaller⟩ hprogram hstep hstep'
  obtain ⟨hexecute, hcalls, _⟩ := proveCall_eq_ok hstep'
  have hlookup : st.programs.lookup c.call.programId = some c'.program := hc ▸ hprogram
  have hout := (validCall_of_executeCall hstep).output
  simp only [PendingCall.output, hlookup, Program.execute, mapError_eq_ok] at hout
  rw [hc, hcaller, hexecute, Except.ok.injEq] at hout
  refine ⟨hout.symm, ?_⟩
  change List.Forall₂ _ (out.chainedCalls.map _) r.2
  rw [← hout, List.forall₂_map_left_iff]
  refine hcalls.imp fun call c'' hc'' => ⟨hc''.1.symm, ?_⟩
  rw [hc''.2, hc]

variable [ChaCha20] [CircuitProver]

/-- **Budgets.**  For a tree of calls the prover executes, whatever its size, the prover and the
circuit agree on whether it is too large exactly if its number of calls is not one above the
maximum; so do the prover and the public path.  The circuit and the public path agree. -/
theorem call_budgets_agree_iff {preStates : List AccountWithMetadata}
    {instructionData : InstructionData} {p : ProgramWithDependencies}
    {t : List (Executed ProverCall (ProgramOutput × List ProverCall))}
    {outputs : List ProgramOutput}
    (htree : (proverMachine p.dependencies).Runs [(p.initialCall preStates instructionData, [])] []
      t outputs) (accountIdentities : List InputAccountIdentity) :
    (PassesCircuit accountIdentities p.program.id outputs →
      ((executeAndProve preStates instructionData accountIdentities p ≠
            .error .maxChainedCallsDepthExceeded ↔
          deriveFromOutputs accountIdentities p.program.id outputs ≠
            .error "Max chained calls depth is exceeded") ↔
        t.length ≠ maxNumberChainedCalls + 1)) ∧
    ∀ tx st blockId timestamp calls, PassesPublicPath tx st blockId timestamp calls →
      (tx.initialCall st).call = (p.initialCall preStates instructionData).call →
      (∀ e ∈ t, st.programs.lookup e.call.call.programId = some e.call.program) →
      ((executeAndProve preStates instructionData accountIdentities p ≠
            .error .maxChainedCallsDepthExceeded ↔
          fromPublicTransaction tx st blockId timestamp ≠
            .error (.err .maxChainedCallsDepthExceeded)) ↔
        t.length ≠ maxNumberChainedCalls + 1) ∧
      (PassesCircuit accountIdentities p.program.id outputs →
        (deriveFromOutputs accountIdentities p.program.id outputs ≠
            .error "Max chained calls depth is exceeded" ↔
          fromPublicTransaction tx st blockId timestamp ≠
            .error (.err .maxChainedCallsDepthExceeded))) := by
  have hprover := executeAndProve_exceeded_iff htree accountIdentities
  have hlen : outputs.length = t.length := by
    rw [outputs_of_proverRuns htree, List.length_map]
  refine ⟨fun hcircuit => ?_, fun tx st blockId timestamp calls hpublic hcall hdeployed => ?_⟩
  · rw [ne_eq, ne_eq, hprover, deriveFromOutputs_exceeded_iff hcircuit, hlen]
    omega
  · have hcalls := length_of_publicRuns htree hpublic hcall hdeployed
    refine ⟨?_, fun hcircuit => ?_⟩
    · rw [ne_eq, ne_eq, hprover, fromPublicTransaction_exceeded_iff hpublic, hcalls]
      omega
    · rw [ne_eq, ne_eq, deriveFromOutputs_exceeded_iff hcircuit,
        fromPublicTransaction_exceeded_iff hpublic, hlen, hcalls]

end

end

namespace CallChain

/-- Program `10` calls itself as often as it is told to. -/
def script : Sample.Script
  | 10, input => match input.instructionData with
      | [n] => .ok (input.output [] (if n = 0 then [] else [⟨Sample.programId 10, [], [n - 1], []⟩]))
      | _ => .error "malformed instruction"
  | _, _ => .error "no such program"

@[reducible] def prover : CircuitProver := ⟨fun _ _ => [0]⟩

def program : ProgramWithDependencies :=
  ⟨Sample.program 10, Ledger.insertAll ∅ [(Sample.programId 10, Sample.program 10)]⟩

def state : V03State := Sample.state [] [Sample.program 10]

/-- The transaction that makes `n` further calls. -/
def chain (n : UInt32) : PublicTransaction := Sample.transaction (Sample.programId 10) [] [n] []

/-- What its tree of calls is, executed with a budget of `budget` calls. -/
def tree (budget : Nat) (n : UInt32) :
    Except ProvingError (List (Executed ProverCall (ProgramOutput × List ProverCall)) ×
      List ProgramOutput) :=
  let _ := Sample.zkvm script
  (proverMachine program.dependencies).trace budget [(program.initialCall [] [n], [])] []

/-- The outputs of its calls. -/
def outputs (n : UInt32) : List ProgramOutput := (valueD ([], []) (tree 20 n)).2

end CallChain

/-- The public path and the circuit accept a chain of eleven calls, and the prover does not. -/
theorem eleven_calls_not_proven :
    let _ := Sample.sha256; let _ := Sample.zkvm CallChain.script; let _ := Sample.schnorr
    let _ := Sample.chaCha20; let _ := CallChain.prover
    (CallChain.outputs 10).length = 11 ∧
      (fromPublicTransaction (CallChain.chain 10) CallChain.state 0 0).isOk = true ∧
      (circuit ⟨CallChain.outputs 10, [], Sample.programId 10⟩).isOk = true ∧
      executeAndProve [] [10] [] CallChain.program = .error .maxChainedCallsDepthExceeded := by
  intro _ _ _ _ _
  exact ⟨by decide +kernel, by decide +kernel, by decide +kernel, by decide +kernel⟩

/-- On a chain of two calls the three agree. -/
theorem call_budgets_agree_iff_two :
    let _ := Sample.sha256; let _ := Sample.zkvm CallChain.script; let _ := Sample.schnorr
    let _ := Sample.chaCha20; let _ := CallChain.prover
    (executeAndProve [] [1] [] CallChain.program ≠ .error .maxChainedCallsDepthExceeded ↔
        deriveFromOutputs [] (Sample.programId 10) (CallChain.outputs 1) ≠
          .error "Max chained calls depth is exceeded") ∧
      (executeAndProve [] [1] [] CallChain.program ≠ .error .maxChainedCallsDepthExceeded ↔
        fromPublicTransaction (CallChain.chain 1) CallChain.state 0 0 ≠
          .error (.err .maxChainedCallsDepthExceeded)) := by
  intro _ _ _ _ _
  have hok : (CallChain.tree 20 1).isOk = true ∧
      (fromPublicTransaction (CallChain.chain 1) CallChain.state 0 0).isOk = true ∧
      (deriveFromOutputs [] (Sample.programId 10) (CallChain.outputs 1)).isOk = true ∧
      (valueD ([], []) (CallChain.tree 20 1)).1.length ≠ maxNumberChainedCalls + 1 ∧
      (∀ e ∈ (valueD ([], []) (CallChain.tree 20 1)).1,
        CallChain.state.programs.lookup e.call.call.programId = some e.call.program) := by
    decide +kernel
  obtain ⟨htree, hpublic, hcircuit, hlen, hdeployed⟩ := hok
  have hruns := (Machine.runs_of_trace (eq_ok_valueD ([], []) htree)).1
  obtain ⟨diff, hdiff⟩ := exists_of_isOk hpublic
  obtain ⟨hmessage, hcalls, _⟩ := runs_of_fromPublicTransaction hdiff
  obtain ⟨es, hes⟩ := exists_of_isOk hcircuit
  obtain ⟨first, rest, es₀, houts, hes₀, hconsumed, _⟩ :=
    @runs_of_deriveFromOutputs _ _ ⟨CallChain.outputs 1, [], Sample.programId 10⟩ es hes
  have hagree := call_budgets_agree_iff hruns []
  exact ⟨(hagree.1 ⟨first, rest, es₀, _, es, houts, hes₀, hconsumed⟩).2 hlen,
    (hagree.2 (CallChain.chain 1) CallChain.state 0 0 _ ⟨hmessage, _, hcalls⟩ rfl
      hdeployed).1.2 hlen⟩

end ExecutionZone
