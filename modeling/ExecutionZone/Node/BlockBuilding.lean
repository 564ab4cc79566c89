import ExecutionZone.Node.Admission

/-!
# Building a block

What `build_block_from_mempool` does with the transactions it pops, whatever mix of outcomes
they have: `block_building_exact` says that each of them is included in the block, or was
rejected on the state it would have been applied to, or is the last one popped and put back, to
be popped first again.  Nothing is lost, and no order changes.

The proof reads everything off the turns of the loop (`FillTurn`, `FillEnd`).
-/

namespace ExecutionZone

/-- `From<Block> for HashableBlockData`. -/
def Block.hashableData (b : Block) : HashableBlockData :=
  ⟨b.header.blockId, b.header.prevBlockHash, b.header.timestamp, b.transactions⟩

namespace MemPool

variable {α : Type} {pool pool' : MemPool α} {l : List α}

def Pops (pool : MemPool α) (item : α) (pool' : MemPool α) : Prop := pool.pop = some (item, pool')

theorem items_of_pops (h : Run Pops pool l pool') : pool.items = l ++ pool'.items := by
  induction h with
  | nil => rfl
  | snoc _ hpop ih => rw [ih, items_of_pop hpop, List.append_assoc, List.singleton_append]

/-- What is pushed to the front is popped next. -/
theorem pop_pushFront (pool : MemPool α) (item : α) :
    (pool.pushFront item).pop = some (item, pool) := rfl

end MemPool

section

variable [Sha256] [Zkvm] [Schnorr] [BuiltinPrograms] [InstructionCodec Clock.Instruction]

/-- Transactions take effect one after the other, under the checks for users. -/
def executeAll (blockId : BlockId) (timestamp : Timestamp) (st : V03State)
    (txs : List NSSATransaction) : Except (Fault NssaError) V03State :=
  txs.foldlM (fun st tx => tx.executeCheckOnState st blockId timestamp) st

/-! ## Turns of the loop -/

section

variable {config : SequencerConfig} {blockId : BlockId} {prevBlockHash : Bytes32}
  {timestamp : Timestamp} {s s' : Selection} {outcomes : List Outcome}

/-- **Run.**  Each turn pops one transaction. -/
theorem pops_of_fillTurns
    (h : Run (FillTurn config blockId prevBlockHash timestamp) s outcomes s') :
    Run MemPool.Pops s.mempool (outcomes.map Prod.fst) s'.mempool := by
  induction h with
  | nil => exact .nil
  | snoc _ hturn ih =>
      rw [List.map_append]
      cases hturn with
      | included hpop _ _ _ => exact ih.snoc hpop
      | rejected hpop _ => exact ih.snoc hpop

/-- **Run.**  A block with a transaction of a user fits. -/
theorem fits_of_fillTurns
    (h : Run (FillTurn config blockId prevBlockHash timestamp) s outcomes s')
    (hempty : s.validTransactions = []) (hne : s'.validTransactions ≠ []) :
    (HashableBlockData.toBytes ⟨blockId, prevBlockHash, timestamp,
      s'.validTransactions ++ [.publicTx (clockInvocation timestamp)]⟩).length ≤
        config.maxBlockSize := by
  induction h with
  | nil => exact absurd hempty hne
  | snoc _ hturn ih =>
      cases hturn with
      | included _ hfits _ _ => rwa [List.append_assoc]
      | rejected _ _ => exact ih hne

/-- A rejected transaction was rejected on the state after those included before it. -/
theorem rejected_of_fillTurns {before after : List Outcome} {tx : NSSATransaction} {e : NssaError}
    (h : Run (FillTurn config blockId prevBlockHash timestamp) s
      (before ++ (tx, some e) :: after) s') :
    ∃ st, executeAll blockId timestamp s.state (included before) = .ok st ∧
      tx.validateOnState st blockId timestamp = .error (.err e) := by
  obtain ⟨s₁, hbefore, hrest⟩ := h.exists_of_append
  obtain ⟨s₂, hturn, _⟩ := hrest.exists_of_cons
  cases hturn with
  | rejected _ herror => exact ⟨s₁.state, (executed_of_fillTurns hbefore).2, herror⟩

end

/-! ## The block -/

namespace SequencerCore

variable [Signing]

/-- What a block is built from: the transactions popped, with what became of them, the one put
back at the end, and the mempool without it. -/
structure BuiltFrom (core : SequencerCore) (now : Timestamp) (core' : SequencerCore)
    (block : Block) (outcomes : List Outcome) (deferred : Option NSSATransaction)
    (rest : MemPool NSSATransaction) : Prop where
  popped : Run MemPool.Pops core.mempool (outcomes.map Prod.fst ++ deferred.toList) rest
  mempool : core'.mempool = deferred.elim rest rest.pushFront
  next : ∀ tx ∈ deferred, core'.mempool.pop = some (tx, rest)
  before : core.mempool.items = outcomes.map Prod.fst ++ deferred.toList ++ rest.items
  after : core'.mempool.items = deferred.toList ++ rest.items
  transactions : block.transactions = included outcomes ++ [.publicTx (clockInvocation now)]
  subsequence : (included outcomes).Sublist (outcomes.map Prod.fst)
  rejected : ∀ before tx e after, outcomes = before ++ (tx, some e) :: after →
    ∃ st, executeAll block.header.blockId now core.state (included before) = .ok st ∧
      tx.validateOnState st block.header.blockId now = .error (.err e)
  count : (included outcomes).length ≤ core.sequencerConfig.maxNumTxInBlock
  size : included outcomes ≠ [] →
    block.hashableData.toBytes.length ≤ core.sequencerConfig.maxBlockSize
  state : ∃ st, executeAll block.header.blockId now core.state (included outcomes) = .ok st ∧
    st.transitionFromPublicTransaction (clockInvocation now) block.header.blockId now =
      .ok core'.state

variable {core core' : SequencerCore} {now : Timestamp} {block : Block}

/-- **Building a block.**  A block that may hold a transaction neither loses nor reorders what
is in the mempool. -/
theorem block_building_exact (hmax : 1 ≤ core.sequencerConfig.maxNumTxInBlock)
    (h : core.buildBlockFromMempool now = (core', .ok block)) :
    ∃ outcomes deferred rest, core.BuiltFrom now core' block outcomes deferred rest := by
  obtain ⟨s, _, hfill, hclock, htimestamp, htransactions, hcore'⟩ := exists_selection_of_build h
  have hmempool : core'.mempool = s.mempool := congrArg SequencerCore.mempool hcore'
  obtain ⟨outcomes, s₁, hrun, hend, hcount⟩ := exists_run_of_fillBlock hfill
  obtain ⟨hvalid, hexecuted⟩ := executed_of_fillTurns hrun
  obtain ⟨hstate, hkept⟩ := hend.kept
  have hpops := pops_of_fillTurns hrun
  rw [List.nil_append] at hvalid
  rw [hkept, hvalid] at htransactions hcount
  rw [hstate] at hclock
  -- what the end of the loop popped and put back
  obtain ⟨deferred, rest, hpopped, hback⟩ : ∃ (deferred : Option NSSATransaction)
      (rest : MemPool NSSATransaction),
      Run MemPool.Pops core.mempool (outcomes.map Prod.fst ++ deferred.toList) rest ∧
      core'.mempool = deferred.elim rest rest.pushFront := by
    rw [hmempool]
    cases hend with
    | stopped =>
        refine ⟨none, s.mempool, ?_, rfl⟩
        rwa [Option.toList_none, List.append_nil]
    | @deferred tx mempool hpop _ => exact ⟨some tx, mempool, hpops.snoc hpop, rfl⟩
  refine ⟨outcomes, deferred, rest, hpopped, hback, ?_, MemPool.items_of_pops hpopped, ?_,
    htransactions, List.filter_sublist.map _, ?_, hcount hmax, ?_, _, hexecuted, hclock⟩
  · rintro tx ⟨⟩
    rw [hback]
    exact MemPool.pop_pushFront rest tx
  · rw [hback]
    cases deferred with
    | none => rfl
    | some tx => rfl
  · rintro before tx e after rfl
    exact rejected_of_fillTurns hrun
  · intro hne
    have hfits := fits_of_fillTurns hrun rfl (hvalid ▸ hne)
    rw [hvalid] at hfits
    rw [Block.hashableData, htimestamp, htransactions]
    exact hfits

end SequencerCore

end

/-- Two small deployments of one program, a large one and another small one wait for a block of
300 bytes.  The block holds the first; the second is rejected, and the large one is put back
in front of the last. -/
theorem block_building_exact_deployments :
    let _ := Sample.sha256; let _ := Sample.zkvm SmallBlocks.script; let _ := Sample.schnorr
    let _ := Sample.signing; let _ := Sample.builtins; let _ := Sample.timestampCodec
    let _ := Sample.faucetCodec
    ∃ (core core' : SequencerCore) (block : Block) (outcomes : List Outcome)
      (deferred : Option NSSATransaction) (rest : MemPool NSSATransaction),
      core.mempool.items = [SmallBlocks.smallTransaction, SmallBlocks.smallTransaction,
        SmallBlocks.largeTransaction, SmallBlocks.smallTransaction] ∧
      core.buildBlockFromMempool 7 = (core', .ok block) ∧
      block.transactions = [SmallBlocks.smallTransaction, .publicTx (clockInvocation 7)] ∧
      core'.mempool.items = [SmallBlocks.largeTransaction, SmallBlocks.smallTransaction] ∧
      core.BuiltFrom 7 core' block outcomes deferred rest := by
  intro _ _ _ _ _ _ _
  let waiting : MemPool NSSATransaction := ⟨[SmallBlocks.smallTransaction,
    SmallBlocks.smallTransaction, SmallBlocks.largeTransaction, SmallBlocks.smallTransaction], []⟩
  have hok : (SequencerCore.start HalfwayBlock.genesis SmallBlocks.config).toOption.map (fun p =>
      let built := SequencerCore.buildBlockFromMempool { p.1 with mempool := waiting } 7
      (p.1.sequencerConfig.maxNumTxInBlock, built.1.mempool.items,
        built.2.toOption.map (·.transactions))) =
      some (10, [SmallBlocks.largeTransaction, SmallBlocks.smallTransaction],
        some [SmallBlocks.smallTransaction, .publicTx (clockInvocation 7)]) := by
    decide +kernel
  obtain ⟨⟨core₀, _⟩, _, hbuilt⟩ := Option.map_eq_some_iff.1 hok
  rw [Prod.mk.injEq, Prod.mk.injEq] at hbuilt
  obtain ⟨hmax, hitems, hblock⟩ := hbuilt
  obtain ⟨block, hbuild, htransactions⟩ := Option.map_eq_some_iff.1 hblock
  let core : SequencerCore := { core₀ with mempool := waiting }
  have hbuild' : core.buildBlockFromMempool 7 = ((core.buildBlockFromMempool 7).1, .ok block) :=
    Prod.ext rfl (toOption_eq_some.1 hbuild)
  have hroom : 1 ≤ core.sequencerConfig.maxNumTxInBlock := hmax ▸ (by decide)
  obtain ⟨outcomes, deferred, rest, hfrom⟩ := SequencerCore.block_building_exact hroom hbuild'
  exact ⟨core, _, block, outcomes, deferred, rest, rfl, hbuild', htransactions, hitems, hfrom⟩

end ExecutionZone
