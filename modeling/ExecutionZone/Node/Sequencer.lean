import ExecutionZone.Lib.Run
import ExecutionZone.Node.InitialState
import ExecutionZone.Node.SequencerStore

/-!
# The sequencer

`sequencer_core`: a block is built from the transactions in the mempool.  A transaction that
is rejected on the state so far is dropped, one that would make the block too large is put back
and ends the block, and so does the largest number of transactions; the clock invocation comes
last.  The transactions take effect on the state of the sequencer while the block is built, and
the state is stored together with the block.

`exists_run_of_fillBlock` says what the turns of the loop are, `fillBlock_eq_ok` that it collects
transactions that apply one after the other, and `sequenced_of_run` that the state of the sequencer
is always the one after the blocks it has published, applied to the state before the genesis
transactions.  What a block does is `Block.apply`, so nothing here speaks about the indexer.
-/

namespace ExecutionZone

/-! ## The mempool -/

/-- `MemPool`: the channel, oldest first, and the buffer in front of it, newest first. -/
structure MemPool (α : Type) where
  receiver : List α
  frontBuffer : List α
deriving DecidableEq

namespace MemPool

variable {α : Type}

/-- `new`. -/
def new : MemPool α := ⟨[], []⟩

/-- `pop`: first the buffer, then the channel. -/
def pop (pool : MemPool α) : Option (α × MemPool α) :=
  match pool.frontBuffer with
  | item :: frontBuffer => some (item, { pool with frontBuffer })
  | [] =>
      match pool.receiver with
      | item :: receiver => some (item, { pool with receiver })
      | [] => none

/-- `push_front`. -/
def pushFront (pool : MemPool α) (item : α) : MemPool α :=
  { pool with frontBuffer := item :: pool.frontBuffer }

/-- `MemPoolHandle::push`. -/
def push (pool : MemPool α) (item : α) : MemPool α :=
  { pool with receiver := pool.receiver ++ [item] }

/-- The number of items. -/
def size (pool : MemPool α) : Nat := pool.frontBuffer.length + pool.receiver.length

end MemPool

/-! ## Building blocks -/

/-- `GenesisAction`. -/
inductive GenesisAction where
  | supplyAccount (accountId : AccountId) (balance : U128)
deriving DecidableEq

structure SequencerConfig where
  maxNumTxInBlock : Nat
  maxBlockSize : Nat
  signingKey : PrivateKey
  genesis : List GenesisAction

structure SequencerCore where
  state : V03State
  store : SequencerStore
  mempool : MemPool NSSATransaction
  sequencerConfig : SequencerConfig
  chainHeight : BlockId

/-- The errors of the sequencer: an error of the ledger with texts before it. -/
inductive SequencerError where
  | nssa (e : NssaError)
  | context (text : String) (e : SequencerError)
deriving DecidableEq

/-- What the loop of `build_block_from_mempool` changes. -/
structure Selection where
  mempool : MemPool NSSATransaction
  state : V03State
  validTransactions : List NSSATransaction

/-- What becomes of a transaction that is taken from the mempool: it is included, or it is
rejected with an error. -/
abbrev Outcome := NSSATransaction × Option NssaError

/-- The transactions that are included. -/
def included (outcomes : List Outcome) : List NSSATransaction :=
  (outcomes.filter (·.2.isNone)).map Prod.fst

@[simp] theorem included_concat_none (outcomes : List Outcome) (tx : NSSATransaction) :
    included (outcomes ++ [(tx, none)]) = included outcomes ++ [tx] := by
  simp [included]

@[simp] theorem included_concat_some (outcomes : List Outcome) (tx : NSSATransaction)
    (e : NssaError) : included (outcomes ++ [(tx, some e)]) = included outcomes := by
  simp [included]

section

variable [Sha256] [Zkvm] [Schnorr] [BuiltinPrograms] [InstructionCodec Clock.Instruction]

/-- The loop of `build_block_from_mempool`, for at most as many turns as the first argument
says. -/
def fillBlock (config : SequencerConfig) (blockId : BlockId) (prevBlockHash : Bytes32)
    (timestamp : Timestamp) : Nat → Selection → Except Panic Selection
  | 0, s => .ok s
  | turns + 1, s =>
      match s.mempool.pop with
      | none => .ok s
      | some (tx, mempool) =>
          let tempHashableData : HashableBlockData :=
            ⟨blockId, prevBlockHash, timestamp,
              s.validTransactions ++ [tx, .publicTx (clockInvocation timestamp)]⟩
          if config.maxBlockSize < tempHashableData.toBytes.length then
            -- the transaction is deferred to the next block
            .ok { s with mempool := mempool.pushFront tx }
          else
            match tx.validateOnState s.state blockId timestamp with
            | .error (.panic msg) => .error msg
            | .error (.err _) => fillBlock config blockId prevBlockHash timestamp turns
                { s with mempool }
            | .ok diff =>
                match s.state.applyStateDiff diff with
                | .error msg => .error msg
                | .ok state =>
                    let validTransactions := s.validTransactions ++ [tx]
                    if config.maxNumTxInBlock ≤ validTransactions.length then
                      .ok ⟨mempool, state, validTransactions⟩
                    else fillBlock config blockId prevBlockHash timestamp turns
                      ⟨mempool, state, validTransactions⟩

namespace SequencerCore

omit [Sha256] [Zkvm] [Schnorr] [BuiltinPrograms] [InstructionCodec Clock.Instruction] in
/-- `next_block_id`. -/
def nextBlockId (core : SequencerCore) : Option BlockId :=
  if core.chainHeight.toNat + 1 < 2 ^ 64 then some (core.chainHeight + 1) else none

variable [Signing]

/-- `build_block_from_mempool`, at the given time.  If the clock transaction fails, the
transactions before it stay applied. -/
def buildBlockFromMempool (core : SequencerCore) (newBlockTimestamp : Timestamp) :
    SequencerCore × Except (Fault SequencerError) Block :=
  match core.nextBlockId with
  | none => (core, .error (.panic
      ("Max block height reached: " ++ toString core.chainHeight.toNat)))
  | some newBlockHeight =>
      let latestBlockMeta := core.store.dbio.latestBlockMeta
      match fillBlock core.sequencerConfig newBlockHeight latestBlockMeta.hash newBlockTimestamp
          core.mempool.size ⟨core.mempool, core.state, []⟩ with
      | .error msg => (core, .error (.panic msg))
      | .ok s =>
          match s.state.transitionFromPublicTransaction (clockInvocation newBlockTimestamp)
              newBlockHeight newBlockTimestamp with
          | .error e => ({ core with mempool := s.mempool, state := s.state },
              .error (e.map fun e =>
                .context "Clock transaction failed. Aborting block production." (.nssa e)))
          | .ok state =>
              let hashableData : HashableBlockData :=
                ⟨newBlockHeight, latestBlockMeta.hash, newBlockTimestamp,
                  s.validTransactions ++ [.publicTx (clockInvocation newBlockTimestamp)]⟩
              ({ core with mempool := s.mempool, state, chainHeight := newBlockHeight },
                .ok (hashableData.intoPendingBlock core.store.signingKey Bytes32.zero))

/-- `produce_new_block`.  The block is published in between, and it does not matter whether
this succeeds. -/
def produceNewBlock (core : SequencerCore) (newBlockTimestamp : Timestamp) :
    SequencerCore × Except (Fault SequencerError) BlockId :=
  match core.buildBlockFromMempool newBlockTimestamp with
  | (core, .error e) => (core,
      .error (e.map (.context "Failed to build block from mempool transactions")))
  | (core, .ok block) =>
      ({ core with store := core.store.update block Bytes32.zero core.state },
        .ok core.chainHeight)

end SequencerCore

/-! ## Starting -/

variable [InstructionCodec Faucet.Instruction]

omit [Zkvm] [Schnorr] [InstructionCodec Clock.Instruction] in
/-- `build_supply_account_genesis_transaction`. -/
def buildSupplyAccountGenesisTransaction (accountId : AccountId) (balance : U128) :
    PublicTransaction :=
  let vaultProgramId := BuiltinPrograms.vault.id
  let recipientVaultId := computeVaultAccountId vaultProgramId accountId
  ⟨⟨BuiltinPrograms.faucet.id, [systemFaucetAccountId, recipientVaultId], [],
    InstructionCodec.toVec
      (⟨vaultProgramId, accountId, balance⟩ : Faucet.Instruction)⟩, []⟩

omit [Zkvm] [Schnorr] [InstructionCodec Clock.Instruction] in
/-- The transaction of a genesis action. -/
def GenesisAction.transaction : GenesisAction → PublicTransaction
  | .supplyAccount accountId balance => buildSupplyAccountGenesisTransaction accountId balance

/-- `build_genesis_state`, on a given initial state. -/
def buildGenesisState (initial : V03State) (config : SequencerConfig) :
    Except Panic (V03State × List NSSATransaction) := do
  let txs := config.genesis.map GenesisAction.transaction ++ [clockInvocation 0]
  let state ← txs.foldlM
    (fun state tx => (state.transitionFromPublicTransaction tx genesisBlockId 0).mapError
      fun _ => "Failed to execute genesis transaction") initial
  return (state, txs.map .publicTx)

namespace SequencerCore

/-- `start_from_config` without a database, on a given initial state: the sequencer and the
genesis block it publishes. -/
def start [Signing] (initial : V03State) (config : SequencerConfig) :
    Except Panic (SequencerCore × Block) := do
  let (genesisState, genesisTxs) ← buildGenesisState initial config
  let hashableData : HashableBlockData := ⟨genesisBlockId, Bytes32.zero, 0, genesisTxs⟩
  let genesisBlock := hashableData.intoPendingBlock config.signingKey Bytes32.zero
  let store := SequencerStore.createDbWithGenesis genesisBlock Bytes32.zero genesisState
    config.signingKey
  return (⟨genesisState, store, .new, config, store.dbio.latestBlockMeta.id⟩, genesisBlock)

omit [Zkvm] [Schnorr] [BuiltinPrograms] [InstructionCodec Clock.Instruction]
  [InstructionCodec Faucet.Instruction] in
/-- `start_from_config` with a database. -/
def restart (dbio : SequencerDb) (config : SequencerConfig) : Except Panic SequencerCore := do
  let store ← (SequencerStore.openDb dbio config.signingKey).mapError fun
    | .err e => "Failed to open database with error: " ++ e.additionalInfo
    | .panic msg => msg
  let _ ← expect (dbio.blocks.lookup store.genesisId.toNat) "Genesis block not found in store"
  return ⟨dbio.nssaState, store, .new, config, dbio.latestBlockMeta.id⟩

end SequencerCore

/-! ## What a block holds -/

omit [InstructionCodec Faucet.Instruction] [InstructionCodec Clock.Instruction]
  [BuiltinPrograms] in
/-- A transaction that has a diff passes the stateless check: both paths verify the
signatures again. -/
theorem transactionStatelessCheck_of_stateDiff {tx : NSSATransaction} {st : V03State}
    {blockId : BlockId} {timestamp : Timestamp} {diff : StateDiff}
    (h : tx.stateDiff st blockId timestamp = .ok diff) :
    tx.transactionStatelessCheck = .ok tx := by
  cases tx with
  | publicTx tx =>
      simp only [NSSATransaction.stateDiff, fromPublicTransaction, bind_eq_ok, mapError_eq_ok] at h
      obtain ⟨_, hcheck, _⟩ := h
      simp only [PublicTransaction.checkMessage, bind_eq_ok, ensure_eq_ok, exists_const] at hcheck
      obtain ⟨_, _, hsigned, _⟩ := hcheck
      exact if_pos hsigned
  | privacyPreserving tx =>
      simp only [NSSATransaction.stateDiff, fromPrivacyPreservingTransaction, bind_eq_ok,
        mapError_eq_ok] at h
      obtain ⟨_, hcheck, _⟩ := h
      simp only [PrivacyPreservingTransaction.checkMessage, bind_eq_ok, ensure_eq_ok,
        exists_const] at hcheck
      obtain ⟨_, _, _, _, _, hsigned, _⟩ := hcheck
      exact if_pos hsigned
  | programDeployment tx => rfl

variable {header : BlockHeader} {tx : NSSATransaction} {st st' : V03State} {diff : StateDiff}

omit [InstructionCodec Faucet.Instruction] [InstructionCodec Clock.Instruction] in
/-- Validating and applying a transaction after genesis is what a block does. -/
theorem applyTransaction_of_validateOnState (hid : header.blockId ≠ genesisBlockId)
    (hdiff : tx.validateOnState st header.blockId header.timestamp = .ok diff)
    (happly : st.applyStateDiff diff = .ok st') :
    header.applyTransaction st tx = some st' := by
  have hexecute : tx.executeCheckOnState st header.blockId header.timestamp = .ok st' :=
    bind_eq_ok.2 ⟨diff, hdiff, mapError_eq_ok.2 happly⟩
  simp only [NSSATransaction.validateOnState, bind_eq_ok, mapError_eq_ok] at hdiff
  obtain ⟨_, _, _, hstateDiff, _⟩ := hdiff
  unfold BlockHeader.applyTransaction
  rw [if_neg hid, transactionStatelessCheck_of_stateDiff hstateDiff]
  exact toOption_eq_some.2 hexecute

/-- A turn of the loop that takes a transaction from the mempool: it fits into the block, and is
included or rejected. -/
inductive FillTurn (config : SequencerConfig) (blockId : BlockId) (prevBlockHash : Bytes32)
    (timestamp : Timestamp) : Selection → Outcome → Selection → Prop
  | included {s : Selection} {tx : NSSATransaction} {mempool : MemPool NSSATransaction}
      {diff : StateDiff} {state : V03State} (hpop : s.mempool.pop = some (tx, mempool))
      (hfits : (HashableBlockData.toBytes ⟨blockId, prevBlockHash, timestamp,
        s.validTransactions ++ [tx, .publicTx (clockInvocation timestamp)]⟩).length ≤
          config.maxBlockSize)
      (hdiff : tx.validateOnState s.state blockId timestamp = .ok diff)
      (happly : s.state.applyStateDiff diff = .ok state) :
      FillTurn config blockId prevBlockHash timestamp s (tx, none)
        ⟨mempool, state, s.validTransactions ++ [tx]⟩
  | rejected {s : Selection} {tx : NSSATransaction} {mempool : MemPool NSSATransaction}
      {e : NssaError} (hpop : s.mempool.pop = some (tx, mempool))
      (herror : tx.validateOnState s.state blockId timestamp = .error (.err e)) :
      FillTurn config blockId prevBlockHash timestamp s (tx, some e) { s with mempool }

/-- The end of the loop: nothing changes, or a transaction that does not fit is put back. -/
inductive FillEnd (config : SequencerConfig) (blockId : BlockId) (prevBlockHash : Bytes32)
    (timestamp : Timestamp) : Selection → Selection → Prop
  | stopped (s : Selection) : FillEnd config blockId prevBlockHash timestamp s s
  | deferred {s : Selection} {tx : NSSATransaction} {mempool : MemPool NSSATransaction}
      (hpop : s.mempool.pop = some (tx, mempool))
      (hlarge : config.maxBlockSize < (HashableBlockData.toBytes ⟨blockId, prevBlockHash,
        timestamp, s.validTransactions ++ [tx, .publicTx (clockInvocation timestamp)]⟩).length) :
      FillEnd config blockId prevBlockHash timestamp s { s with mempool := mempool.pushFront tx }

variable {config : SequencerConfig} {prevBlockHash : Bytes32} {turns : Nat} {s s' : Selection}

section

variable {blockId : BlockId} {timestamp : Timestamp} {outcomes : List Outcome}

omit [InstructionCodec Faucet.Instruction] in
/-- **The loop.**  Its turns, and the bound on the number of transactions. -/
theorem exists_run_of_fillBlock
    (h : fillBlock config blockId prevBlockHash timestamp turns s = .ok s') :
    ∃ outcomes s₁, Run (FillTurn config blockId prevBlockHash timestamp) s outcomes s₁ ∧
      FillEnd config blockId prevBlockHash timestamp s₁ s' ∧
      (s.validTransactions.length < config.maxNumTxInBlock →
        s'.validTransactions.length ≤ config.maxNumTxInBlock) := by
  induction turns generalizing s with
  | zero =>
      cases h
      exact ⟨[], _, .nil, .stopped _, Nat.le_of_lt⟩
  | succ turns ih =>
      unfold fillBlock at h
      split at h
      · cases h
        exact ⟨[], _, .nil, .stopped _, Nat.le_of_lt⟩
      · rename_i tx mempool hpop
        dsimp only at h
        split at h
        · rename_i hlarge
          cases h
          exact ⟨[], s, .nil, .deferred hpop hlarge, Nat.le_of_lt⟩
        · rename_i hfits
          split at h
          · cases h
          · rename_i e herror
            obtain ⟨outcomes, s₁, hrun, hend, hcount⟩ := ih h
            exact ⟨_, s₁, .cons (.rejected hpop herror) hrun, hend, hcount⟩
          · rename_i diff hdiff
            split at h
            · cases h
            · rename_i state happly
              have hturn := FillTurn.included hpop (Nat.le_of_not_lt hfits) hdiff happly
              split at h
              · cases h
                refine ⟨_, _, .cons hturn .nil, .stopped _, fun hlt => ?_⟩
                rw [List.length_append, List.length_singleton]
                exact hlt
              · rename_i hroom
                obtain ⟨outcomes, s₁, hrun, hend, hcount⟩ := ih h
                exact ⟨_, s₁, .cons hturn hrun, hend, fun _ => hcount (Nat.lt_of_not_le hroom)⟩

omit [Sha256] [Zkvm] [Schnorr] [InstructionCodec Faucet.Instruction] in
/-- The end of the loop changes the mempool only. -/
theorem FillEnd.kept (h : FillEnd config blockId prevBlockHash timestamp s s') :
    s'.state = s.state ∧ s'.validTransactions = s.validTransactions := by
  cases h with
  | stopped => exact ⟨rfl, rfl⟩
  | deferred _ _ => exact ⟨rfl, rfl⟩

omit [InstructionCodec Faucet.Instruction] in
/-- **Run.**  The included transactions are executed one after the other. -/
theorem executed_of_fillTurns
    (h : Run (FillTurn config blockId prevBlockHash timestamp) s outcomes s') :
    s'.validTransactions = s.validTransactions ++ included outcomes ∧
      (included outcomes).foldlM (fun st tx => tx.executeCheckOnState st blockId timestamp)
        s.state = .ok s'.state := by
  induction h with
  | nil => exact ⟨(List.append_nil _).symm, rfl⟩
  | @snoc _ s₁ _ _ _ hturn ih =>
      obtain ⟨hvalid, hfold⟩ := ih
      cases hturn with
      | @included tx mempool diff state _ _ hdiff happly =>
          have hexecute : tx.executeCheckOnState s₁.state blockId timestamp = .ok state :=
            bind_eq_ok.2 ⟨diff, hdiff, mapError_eq_ok.2 happly⟩
          rw [included_concat_none, hvalid, List.append_assoc, List.foldlM_append, hfold]
          exact ⟨rfl, bind_eq_ok.2 ⟨_, rfl, bind_eq_ok.2 ⟨_, hexecute, rfl⟩⟩⟩
      | rejected _ _ =>
          rw [included_concat_some]
          exact ⟨hvalid, hfold⟩

end

omit [InstructionCodec Faucet.Instruction] in
/-- The transactions the loop adds apply one after the other. -/
theorem fillBlock_eq_ok (header : BlockHeader) (hid : header.blockId ≠ genesisBlockId)
    (h : fillBlock config header.blockId prevBlockHash header.timestamp turns s = .ok s') :
    ∃ txs, s'.validTransactions = s.validTransactions ++ txs ∧
      txs.foldlM header.applyTransaction s.state = some s'.state := by
  obtain ⟨outcomes, s₁, hrun, hend, _⟩ := exists_run_of_fillBlock h
  obtain ⟨hvalid, hfold⟩ := executed_of_fillTurns hrun
  rw [hend.kept.1, hend.kept.2]
  refine ⟨included outcomes, hvalid, foldlM_eq_some_of_ok ?_ hfold⟩
  intro st tx st' hexecute
  obtain ⟨diff, hdiff, happly⟩ := bind_eq_ok.1 hexecute
  exact applyTransaction_of_validateOnState hid hdiff (mapError_eq_ok.1 happly)

/-! ## The state of the sequencer -/

namespace SequencerCore

variable [Signing] {core core' : SequencerCore} {b : Block} {now : Timestamp}

omit [InstructionCodec Faucet.Instruction] in
/-- The selection a block was built from. -/
theorem exists_selection_of_build (h : core.buildBlockFromMempool now = (core', .ok b)) :
    ∃ s, core.nextBlockId = some b.header.blockId ∧
      fillBlock core.sequencerConfig b.header.blockId b.header.prevBlockHash now
        core.mempool.size ⟨core.mempool, core.state, []⟩ = .ok s ∧
      s.state.transitionFromPublicTransaction (clockInvocation now) b.header.blockId now =
        .ok core'.state ∧
      b.header.timestamp = now ∧
      b.transactions = s.validTransactions ++ [.publicTx (clockInvocation now)] ∧
      core' = { core with
        mempool := s.mempool, state := core'.state, chainHeight := b.header.blockId } := by
  unfold buildBlockFromMempool at h
  split at h
  · cases h
  · rename_i height hheight
    dsimp only at h
    split at h
    · cases h
    · rename_i s hs
      split at h
      · cases h
      · rename_i state hstate
        cases h
        exact ⟨s, hheight, hs, hstate, rfl, rfl, rfl⟩

omit [Sha256] [Zkvm] [Schnorr] [BuiltinPrograms] [InstructionCodec Clock.Instruction]
  [InstructionCodec Faucet.Instruction] [Signing] in
theorem toNat_of_nextBlockId {blockId : BlockId} (h : core.nextBlockId = some blockId) :
    blockId.toNat = core.chainHeight.toNat + 1 := by
  unfold nextBlockId at h
  split at h
  · rename_i hlt
    cases h
    rw [UInt64.toNat_add]
    exact Nat.mod_eq_of_lt hlt
  · cases h

omit [InstructionCodec Faucet.Instruction] in
/-- **One block.**  It follows the chain, and applying it to the state before gives the
state after. -/
theorem buildBlockFromMempool_eq_ok (hpos : 0 < core.chainHeight.toNat)
    (h : core.buildBlockFromMempool now = (core', .ok b)) :
    b.apply core.state = some core'.state ∧
      b.header.blockId.toNat = core.chainHeight.toNat + 1 ∧
      core'.chainHeight = b.header.blockId ∧ core'.store = core.store := by
  obtain ⟨s, hheight, hs, hclock, htimestamp, htransactions, hcore'⟩ := exists_selection_of_build h
  have hheight := toNat_of_nextBlockId hheight
  have hid : b.header.blockId ≠ genesisBlockId := by
    intro hgenesis
    have hone : genesisBlockId.toNat = 1 := rfl
    rw [hgenesis] at hheight
    omega
  refine ⟨?_, hheight, congrArg chainHeight hcore', (congrArg store hcore').trans rfl⟩
  subst htimestamp
  obtain ⟨txs, htxs, hfold⟩ := fillBlock_eq_ok b.header hid hs
  rw [List.nil_append] at htxs
  rw [htxs] at htransactions
  have hlast : b.transactions.getLast? = some b.header.clockTransaction := by
    rw [htransactions, List.getLast?_concat]
    rfl
  refine Block.apply_eq_some.2 ⟨hlast, s.state, ?_, toOption_eq_some.2 hclock⟩
  rw [htransactions, List.dropLast_concat]
  exact hfold

/-- The state and the database are those after the blocks. -/
structure Sequenced (init : V03State) (blocks : List Block) (core : SequencerCore) : Prop where
  ids : ConsecutiveBlocks blocks
  pos : 0 < blocks.length
  height : core.chainHeight.toNat = blocks.length
  current : Replay.replay Block.apply init blocks = some core.state
  stored : core.store.dbio.Holds blocks.length core.state

variable {init : V03State} {blocks : List Block}

omit [InstructionCodec Faucet.Instruction] in
/-- **Step.**  A produced block extends the chain. -/
theorem Sequenced.produceNewBlock (h : Sequenced init blocks core)
    (hbuild : (core.buildBlockFromMempool now).2 = .ok b) :
    Sequenced init (blocks ++ [b]) (core.produceNewBlock now).1 := by
  rcases hcore : core.buildBlockFromMempool now with ⟨core₁, result⟩
  rw [hcore] at hbuild
  obtain rfl : result = .ok b := hbuild
  obtain ⟨happly, hid, hheight, hstore⟩ := buildBlockFromMempool_eq_ok (h.height ▸ h.pos) hcore
  rw [h.height] at hid
  have hlen : (blocks ++ [b]).length = blocks.length + 1 := by
    rw [List.length_append, List.length_singleton]
  rw [SequencerCore.produceNewBlock, hcore]
  refine ⟨consecutiveBlocks_concat.2 ⟨h.ids, hid⟩, hlen ▸ Nat.succ_pos _, ?_, ?_, ?_⟩
  · rw [hlen, ← hid]
    exact congrArg UInt64.toNat hheight
  · exact (Replay.replay_concat_of_eq h.current).trans happly
  · rw [hlen]
    exact (hstore.symm ▸ h.stored : core₁.store.dbio.Holds _ _).atomicUpdate hid Bytes32.zero

omit [InstructionCodec Faucet.Instruction] [Signing] in
/-- **Step.**  A restart finds the state again. -/
theorem Sequenced.restart (h : Sequenced init blocks core) {config : SequencerConfig}
    (hrestart : restart core.store.dbio config = .ok core') : Sequenced init blocks core' := by
  obtain ⟨store, hopen, hdbio⟩ := h.stored.exists_openDb config.signingKey
  rw [SequencerCore.restart, hopen] at hrestart
  obtain ⟨_, ⟨⟩, hrestart⟩ := bind_eq_ok.1 hrestart
  obtain ⟨_, _, ⟨⟩⟩ := bind_eq_ok.1 hrestart
  refine ⟨h.ids, h.pos, h.stored.latest, ?_, ?_⟩
  · rw [h.stored.state]
    exact h.current
  · rw [h.stored.state]
    exact hdbio.symm ▸ h.stored

omit [InstructionCodec Faucet.Instruction] [Signing] in
/-- A sequencer can always be restarted from its database. -/
theorem Sequenced.exists_restart (h : Sequenced init blocks core) (config : SequencerConfig) :
    ∃ core', SequencerCore.restart core.store.dbio config = .ok core' := by
  have hgenesis : core.store.dbio.firstBlockInDb.toNat = 1 := congrArg UInt64.toNat h.stored.first
  obtain ⟨b, hb⟩ := h.stored.blocks 1 (Nat.le_refl 1) h.pos
  obtain ⟨store, hopen, hdbio⟩ := h.stored.exists_openDb config.signingKey
  refine ⟨⟨core.store.dbio.nssaState, store, .new, config, core.store.dbio.latestBlockMeta.id⟩, ?_⟩
  obtain ⟨_, hid, _⟩ := SequencerStore.openDb_eq_ok hopen
  rw [SequencerCore.restart, hopen]
  refine bind_eq_ok.2 ⟨store, rfl, bind_eq_ok.2 ⟨b, expect_eq_ok.2 ?_, rfl⟩⟩
  rw [hid, hgenesis]
  exact hb

/-- **Start.**  The genesis block applied to the initial state gives the genesis state. -/
theorem sequenced_start {config : SequencerConfig} {genesisBlock : Block}
    (h : start init config = .ok (core, genesisBlock)) :
    Sequenced init [genesisBlock] core := by
  obtain ⟨⟨genesisState, genesisTxs⟩, hgenesis, hcore⟩ := bind_eq_ok.1 h
  cases hcore
  obtain ⟨state, hstate, heq⟩ := bind_eq_ok.1 hgenesis
  cases heq
  refine ⟨?_, Nat.one_pos, rfl, ?_, SequencerDb.holds_create rfl Bytes32.zero⟩
  · exact consecutiveBlocks_concat.2 ⟨consecutiveBlocks_nil, rfl⟩
  · rw [List.foldlM_append, bind_eq_ok] at hstate
    obtain ⟨mid, hsupply, hclock⟩ := hstate
    rw [← toOption_eq_some, toOption_foldlM] at hsupply
    simp only [toOption_mapError] at hsupply
    obtain ⟨_, hclock, ⟨⟩⟩ := bind_eq_ok.1 hclock
    have hnil : Replay.replay Block.apply init [] = some init := rfl
    refine (Replay.replay_concat_of_eq hnil).trans ?_
    refine Block.apply_eq_some.2 ⟨?_, mid, ?_, toOption_eq_some.2 (mapError_eq_ok.1 hclock)⟩
    · change List.getLast? (List.map _ _) = _
      rw [List.map_append]
      exact List.getLast?_concat
    · change (List.map _ _).dropLast.foldlM _ _ = _
      rw [List.map_append, List.map_singleton, List.dropLast_concat, List.foldlM_map]
      exact hsupply

end SequencerCore

end

/-! ## Runs -/

/-- What happens to a sequencer: a transaction arrives, a block is produced, the process
restarts, or blocks become final. -/
inductive SequencerEvent where
  | push (tx : NSSATransaction)
  | produce (newBlockTimestamp : Timestamp) (block : Block)
  | restart (config : SequencerConfig)
  | finalize (lastFinalized : BlockId)

/-- The block of an event that produces one. -/
def SequencerEvent.block : SequencerEvent → Option Block
  | .produce _ block => some block
  | _ => none

/-- The blocks produced in a run. -/
def producedBlocks (events : List SequencerEvent) : List Block := events.filterMap (·.block)

theorem producedBlocks_concat (events : List SequencerEvent) (e : SequencerEvent) :
    producedBlocks (events ++ [e]) = producedBlocks events ++ e.block.toList := by
  rcases h : e.block with _ | b
  · simp [producedBlocks, h]
  · simp [producedBlocks, h]

namespace SequencerCore

variable [Sha256] [Zkvm] [Schnorr] [Signing] [BuiltinPrograms]
  [InstructionCodec Clock.Instruction]

/-- The steps of a sequencer, where `produce_new_block` succeeds. -/
def Step (core : SequencerCore) : SequencerEvent → SequencerCore → Prop
  | .push tx, core' => core' = { core with mempool := core.mempool.push tx }
  | .produce now block, core' => (core.buildBlockFromMempool now).2 = .ok block ∧
      ∃ height, core.produceNewBlock now = (core', .ok height)
  | .restart config, core' => restart core.store.dbio config = .ok core'
  | .finalize lastFinalized, core' => ∃ dbio,
      core.store.dbio.cleanPendingBlocksUpTo lastFinalized = .ok dbio ∧
      core' = { core with store := { core.store with dbio } }

variable {init : V03State} {blocks : List Block} {core core' : SequencerCore}

theorem step_push (core : SequencerCore) (tx : NSSATransaction) :
    Step core (.push tx) { core with mempool := core.mempool.push tx } := rfl

/-- A block that can be built is produced. -/
theorem step_produce {now : Timestamp} {b : Block}
    (h : (core.buildBlockFromMempool now).2 = .ok b) :
    Step core (.produce now b) (core.produceNewBlock now).1 := by
  rcases hcore : core.buildBlockFromMempool now with ⟨core₁, result⟩
  obtain rfl : result = .ok b := by rwa [hcore] at h
  refine ⟨h, core₁.chainHeight, ?_⟩
  rw [produceNewBlock, hcore]

/-- **Step.**  The blocks grow by the one that is produced. -/
theorem Sequenced.step (h : Sequenced init blocks core) {e : SequencerEvent}
    (hstep : Step core e core') : Sequenced init (blocks ++ e.block.toList) core' := by
  cases e with
  | produce now block =>
      obtain ⟨hbuild, height, hproduce⟩ := hstep
      have hnext := h.produceNewBlock hbuild
      rwa [hproduce] at hnext
  | push tx =>
      cases hstep
      refine (List.append_nil blocks).symm ▸ ?_
      exact ⟨h.ids, h.pos, h.height, h.current, h.stored⟩
  | restart config =>
      refine (List.append_nil blocks).symm ▸ ?_
      exact h.restart hstep
  | finalize lastFinalized =>
      obtain ⟨dbio, hclean, rfl⟩ := hstep
      refine (List.append_nil blocks).symm ▸ ?_
      exact ⟨h.ids, h.pos, h.height, h.current, h.stored.cleanPendingBlocksUpTo hclean⟩

/-- **Run.**  The state of the sequencer, in memory and in the database, is the state after the
genesis block and the produced blocks. -/
theorem sequenced_of_run [InstructionCodec Faucet.Instruction] {config : SequencerConfig}
    {genesisBlock : Block} {events : List SequencerEvent} {core₀ : SequencerCore}
    (hstart : start init config = .ok (core₀, genesisBlock)) (hrun : Run Step core₀ events core) :
    Sequenced init (genesisBlock :: producedBlocks events) core := by
  induction hrun with
  | nil => exact sequenced_start hstart
  | snoc _ hstep ih =>
      rw [producedBlocks_concat]
      exact ih.step hstep

end SequencerCore

end ExecutionZone
