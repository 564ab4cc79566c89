import ExecutionZone.Node.IndexerStore
import ExecutionZone.Node.Sequencer
import ExecutionZone.Transaction.Nonces

/-!
# Agreement of the nodes

The indexer is fed with the blocks the sequencer publishes.  Both execute a block as
`Block.apply` says, so if they start from the same state before the genesis transactions the
indexer follows every run of the sequencer, restarts included, and their states stay equal:
`replay_agreement`, a forward simulation.

The initial states are chosen independently, by a feature of the crate of the sequencer and by
the indexer.  `nodes_agree_iff` says that from a fresh start the nodes agree if and only if the
feature `testnet` is off.
-/

namespace ExecutionZone

section

variable [Sha256] [Zkvm] [Schnorr] [Signing] [BuiltinPrograms]
  [InstructionCodec Clock.Instruction]

/-- The indexer is fed with the block of an event, if it produces one, and accepts it. -/
def IndexerStore.Follows (l1Header : Block → Bytes32) (s : IndexerStore) (e : SequencerEvent)
    (s' : IndexerStore) : Prop :=
  match e.block with
  | none => s' = s
  | some b => s.putBlock b (l1Header b) = (s', .ok ())

/-- The nodes have executed equally many blocks on `init`, and their states are equal. -/
structure Agree (init : V03State) (core : SequencerCore) (s : IndexerStore) : Prop where
  nodes : ∃ blocks blocks', core.Sequenced init blocks ∧
    s.Synced init blocks' (blocks'.length / breakpointInterval) ∧ blocks'.length = blocks.length
  current : s.currentState = core.state

variable {init : V03State} {core core' : SequencerCore} {s : IndexerStore}

/-- **Step.**  The indexer can follow every step of the sequencer. -/
theorem Agree.step (h : Agree init core s) {e : SequencerEvent} (hstep : core.Step e core')
    (l1Header : Block → Bytes32) : ∃ s', s.Follows l1Header e s' ∧ Agree init core' s' := by
  obtain ⟨blocks, blocks', hcore, hs, hlen⟩ := h.nodes
  have hcore' := hcore.step hstep
  unfold IndexerStore.Follows
  rcases hb : e.block with _ | b
  · rw [hb, Option.toList_none, List.append_nil] at hcore'
    refine ⟨s, rfl, ⟨blocks, blocks', hcore', hs, hlen⟩, ?_⟩
    exact h.current.trans (Option.some.inj (hcore.current.symm.trans hcore'.current))
  · rw [hb, Option.toList_some] at hcore'
    have hid := (consecutiveBlocks_concat.1 hcore'.ids).2
    have happly : b.apply s.currentState = some core'.state := by
      rw [h.current, ← Replay.replay_concat_of_eq hcore.current]
      exact hcore'.current
    obtain ⟨s', blocks'', hput, hcurrent, hs', hlen'⟩ :=
      hs.putNext (hlen.symm ▸ hid) happly (l1Header b)
    refine ⟨s', hput, ⟨blocks ++ [b], blocks'', hcore', hs', ?_⟩, hcurrent⟩
    rw [hlen', hlen, List.length_append, List.length_singleton]

omit [Signing] in
/-- In agreeing nodes all four states are equal. -/
theorem Agree.states (h : Agree init core s) :
    s.currentState = core.state ∧
    s.dbio.calculateStateForId core.chainHeight.toNat = .ok core.state ∧
    core.store.dbio.nssaState = core.state := by
  obtain ⟨blocks, blocks', hcore, hs, hlen⟩ := h.nodes
  have hfinal := hs.finalState
  rw [IndexerDb.finalState, hs.indexes.last, hlen, ← hcore.height, h.current] at hfinal
  exact ⟨h.current, hfinal, hcore.stored.state⟩

variable [InstructionCodec Faucet.Instruction] {config : SequencerConfig} {genesisBlock : Block}

/-- **Start.**  A new indexer with the same initial state accepts the genesis block. -/
theorem agree_start (hstart : SequencerCore.start init config = .ok (core, genesisBlock))
    (l1Header : Bytes32) :
    ∃ s, IndexerStore.putBlock ⟨IndexerDb.fresh init, init⟩ genesisBlock l1Header = (s, .ok ()) ∧
      Agree init core s := by
  have hcore := SequencerCore.sequenced_start hstart
  have hnil : Replay.replay Block.apply init [] = some init := rfl
  have happly : genesisBlock.apply init = some core.state :=
    (Replay.replay_concat_of_eq hnil).symm.trans hcore.current
  have hid : genesisBlock.header.blockId.toNat = 0 + 1 := hcore.ids 0 genesisBlock rfl
  obtain ⟨s, blocks', hput, hcurrent, hs, hlen⟩ :=
    (IndexerStore.synced_fresh init).putNext hid happly l1Header
  exact ⟨s, hput, ⟨_, blocks', hcore, hs, hlen⟩, hcurrent⟩

/-- **Agreement.**  Let a sequencer and an indexer start from the same state before the genesis
transactions.  The indexer accepts the genesis block, and then it can follow every run of the
sequencer, with any transactions arriving, restarts between the blocks and blocks marked as final:
it accepts every block, and its current state, the one it recomputes for the last block, and the
states of the sequencer in memory and in the database are equal. -/
theorem replay_agreement
    (hstart : SequencerCore.start init config = .ok (core, genesisBlock))
    (l1Header : Block → Bytes32) :
    ∃ s₀, IndexerStore.putBlock ⟨IndexerDb.fresh init, init⟩ genesisBlock (l1Header genesisBlock) =
        (s₀, .ok ()) ∧
      ∀ events core', Run SequencerCore.Step core events core' →
        ∃ s, Run (IndexerStore.Follows l1Header) s₀ events s ∧
          s.currentState = core'.state ∧
          s.dbio.calculateStateForId core'.chainHeight.toNat = .ok core'.state ∧
          core'.store.dbio.nssaState = core'.state := by
  obtain ⟨s₀, hput, h₀⟩ := agree_start hstart (l1Header genesisBlock)
  refine ⟨s₀, hput, fun events core' hrun => ?_⟩
  obtain ⟨s, hfollows, hs⟩ := hrun.exists_of_simulation
    (fun _ _ _ _ h hstep => h.step hstep l1Header) h₀
  exact ⟨s, hfollows, hs.states⟩

/-! ## Different initial states -/

omit [Signing] [InstructionCodec Faucet.Instruction] [InstructionCodec Clock.Instruction] in
theorem BlockHeader.programs_of_applyTransactions {header : BlockHeader}
    {txs : List NSSATransaction} {st st' : V03State} (hid : header.blockId = genesisBlockId)
    (h : txs.foldlM header.applyTransaction st = some st') : st'.programs = st.programs := by
  induction txs generalizing st with
  | nil =>
      cases h
      rfl
  | cons tx txs ih =>
      rw [List.foldlM_cons] at h
      obtain ⟨st₁, htx, h⟩ := Option.bind_eq_some_iff.1 h
      rw [ih h]
      unfold BlockHeader.applyTransaction at htx
      rw [if_pos hid] at htx
      split at htx
      · exact programs_of_transitionFromPublicTransaction (toOption_eq_some.1 htx)
      · cases htx

omit [Signing] [InstructionCodec Faucet.Instruction] in
/-- A genesis block deploys nothing. -/
theorem Block.programs_of_apply {b : Block} {st st' : V03State}
    (hid : b.header.blockId = genesisBlockId) (h : b.apply st = some st') :
    st'.programs = st.programs := by
  obtain ⟨_, mid, hfold, hclock⟩ := Block.apply_eq_some.1 h
  rw [programs_of_transitionFromPublicTransaction (toOption_eq_some.1 hclock)]
  exact BlockHeader.programs_of_applyTransactions hid hfold

variable [KeyDerivation] [TestnetPrograms] {initial : V03State}

omit [Zkvm] [Schnorr] [Signing] [InstructionCodec Clock.Instruction]
  [InstructionCodec Faucet.Instruction] in
/-- The initial states with and without the testnet differ in the deployed programs. -/
theorem programs_ne_of_testnet (hinit : initialState = .ok init)
    (hinitial : initialStateFor true = .ok initial)
    (hpinata : ∀ program ∈ builtinPrograms, program.id ≠ TestnetPrograms.pinata.id) :
    init.programs ≠ initial.programs := by
  obtain ⟨st, hst, ⟨⟩⟩ := bind_eq_ok.1 hinitial
  obtain rfl : init = st := Except.ok.inj (hinit.symm.trans hst)
  intro heq
  have hlookup : init.programs.lookup TestnetPrograms.pinata.id = some TestnetPrograms.pinata := by
    rw [heq]
    exact AList.lookup_insert _
  rw [(genesis_eq_ok hinit).2, Ledger.lookup_insertAll_of_notMem] at hlookup
  · cases hlookup
  · rw [List.map_map]
    intro hmem
    obtain ⟨program, hprogram, hid⟩ := List.mem_map.1 hmem
    exact hpinata program hprogram hid

/-- **Fresh start.**  Let the sequencer start without a database, built with or without the feature
`testnet`, and the indexer on an empty directory.  For every list of genesis actions with which
the sequencer starts: the indexer accepts the genesis block and every produced block with an equal
state after each of them, in every run, if and only if the feature is off. -/
theorem nodes_agree_iff {testnet : Bool}
    (hpinata : ∀ program ∈ builtinPrograms, program.id ≠ TestnetPrograms.pinata.id)
    (hinit : initialState = .ok init) (hinitial : initialStateFor testnet = .ok initial)
    (hstart : SequencerCore.start initial config = .ok (core, genesisBlock))
    (l1Header : Block → Bytes32) :
    (∀ events core', Run SequencerCore.Step core events core' →
      ∃ s₀ s, IndexerStore.putBlock ⟨IndexerDb.fresh init, init⟩ genesisBlock
          (l1Header genesisBlock) = (s₀, .ok ()) ∧
        Run (IndexerStore.Follows l1Header) s₀ events s ∧ s.currentState = core'.state) ↔
      testnet = false := by
  constructor
  · intro hagree
    -- already the genesis block leads to different states
    obtain ⟨s₀, s, hput, hrun, hcurrent⟩ := hagree [] core .nil
    obtain rfl : s₀ = s := Run.eq_of_nil hrun
    have hcore := SequencerCore.sequenced_start hstart
    have hid : genesisBlock.header.blockId = genesisBlockId :=
      UInt64.toNat_inj.1 (hcore.ids 0 genesisBlock rfl)
    have hnil : Replay.replay Block.apply initial [] = some initial := rfl
    have happly : genesisBlock.apply initial = some core.state :=
      (Replay.replay_concat_of_eq hnil).symm.trans hcore.current
    have hprograms : init.programs = initial.programs :=
      calc init.programs = s₀.currentState.programs :=
            (Block.programs_of_apply hid (IndexerStore.apply_of_putBlock hput)).symm
        _ = core.state.programs := congrArg V03State.programs hcurrent
        _ = initial.programs := Block.programs_of_apply hid happly
    cases testnet with
    | false => rfl
    | true => exact absurd hprograms (programs_ne_of_testnet hinit hinitial hpinata)
  · rintro rfl
    obtain rfl : init = initial := Except.ok.inj (hinit.symm.trans hinitial)
    obtain ⟨s₀, hput, hfollows⟩ := replay_agreement hstart l1Header
    intro events core' hrun
    obtain ⟨s, hs, hcurrent, _⟩ := hfollows events core' hrun
    exact ⟨s₀, s, hput, hs, hcurrent⟩

end

/-! ## Concrete nodes -/

namespace FreshStart

/-- Blocks of at most ten transactions, and a genesis with one action. -/
def config : SequencerConfig :=
  ⟨10, 100000, ⟨Bytes32.zero⟩, [.supplyAccount (Sample.accountId 5) 7]⟩

/-- The initial state, with and without the feature `testnet`. -/
def initial (testnet : Bool) : V03State :=
  let _ := Sample.sha256; let _ := Sample.builtins; let _ := Sample.keyDerivation
  let _ := Sample.testnetPrograms
  valueD (Sample.state [] []) (initialStateFor testnet)

theorem initial_eq (testnet : Bool) :
    let _ := Sample.sha256; let _ := Sample.builtins; let _ := Sample.keyDerivation
    let _ := Sample.testnetPrograms
    initialStateFor testnet = .ok (initial testnet) := by
  intro _ _ _ _
  refine eq_ok_valueD _ ?_
  cases testnet with
  | false => decide +kernel
  | true => decide +kernel

/-- A sequencer that stands for one that does not start. -/
def notStarted : SequencerCore × Block :=
  let _ := Sample.sha256
  let block := HalfwayBlock.block []
  let state := Sample.state [] []
  (⟨state, .createDbWithGenesis block Bytes32.zero state ⟨Bytes32.zero⟩, .new, config, 1⟩, block)

/-- The sequencer on a given initial state, and its genesis block. -/
def sequencer (initial : V03State) : SequencerCore × Block :=
  let _ := Sample.sha256; let _ := Sample.zkvm Sample.clockScript; let _ := Sample.schnorr
  let _ := Sample.signing; let _ := Sample.builtins; let _ := Sample.clockCodec
  let _ := Sample.faucetCodec
  valueD notStarted (SequencerCore.start initial config)

/-- The sequencer after a transfer has arrived. -/
def core : SequencerCore :=
  { (sequencer HalfwayBlock.genesis).1 with
    mempool := (sequencer HalfwayBlock.genesis).1.mempool.push HalfwayBlock.transfer }

/-- The sequencer starts, and its next block contains the transfer. -/
theorem evaluated :
    let _ := Sample.sha256; let _ := Sample.zkvm Sample.clockScript; let _ := Sample.schnorr
    let _ := Sample.signing; let _ := Sample.builtins; let _ := Sample.clockCodec
    let _ := Sample.faucetCodec
    (SequencerCore.start HalfwayBlock.genesis config).isOk = true ∧
    ((core.buildBlockFromMempool 7).2.map fun b =>
      (b.transactions.length, b.header.timestamp, b.transactions.all fun tx =>
        tx.signerAccountIds.all (· ∉ clockProgramAccountIds))) = .ok (2, 7, true) ∧
    ((core.produceNewBlock 7).1.state.getAccountById (Sample.signer 1)).balance = 70 := by
  decide +kernel

theorem start_of_isOk {initial : V03State} :
    let _ := Sample.sha256; let _ := Sample.zkvm Sample.clockScript; let _ := Sample.schnorr
    let _ := Sample.signing; let _ := Sample.builtins; let _ := Sample.clockCodec
    let _ := Sample.faucetCodec
    (SequencerCore.start initial config).isOk = true →
      SequencerCore.start initial config = .ok (sequencer initial) := by
  intro _ _ _ _ _ _ _ hok
  exact eq_ok_valueD notStarted hok

theorem start_eq :
    let _ := Sample.sha256; let _ := Sample.zkvm Sample.clockScript; let _ := Sample.schnorr
    let _ := Sample.signing; let _ := Sample.builtins; let _ := Sample.clockCodec
    let _ := Sample.faucetCodec
    SequencerCore.start HalfwayBlock.genesis config =
      .ok ((sequencer HalfwayBlock.genesis).1, (sequencer HalfwayBlock.genesis).2) := by
  intro _ _ _ _ _ _ _
  rw [Prod.mk.eta]
  exact start_of_isOk evaluated.1

/-- The block with the transfer, that none of the clock accounts signs. -/
theorem exists_block :
    let _ := Sample.sha256; let _ := Sample.zkvm Sample.clockScript; let _ := Sample.schnorr
    let _ := Sample.signing; let _ := Sample.builtins; let _ := Sample.clockCodec
    ∃ b, (core.buildBlockFromMempool 7).2 = .ok b ∧ b.transactions.length = 2 ∧
      b.header.timestamp = 7 ∧
      ∀ tx ∈ b.transactions, ∀ id ∈ tx.signerAccountIds, id ∉ clockProgramAccountIds := by
  intro _ _ _ _ _ _
  obtain ⟨_, hblock, _⟩ := evaluated
  rcases hbuild : (core.buildBlockFromMempool 7).2 with e | b
  · rw [hbuild] at hblock
    cases hblock
  · rw [hbuild] at hblock
    simp only [Except.map, Except.ok.injEq, Prod.mk.injEq, List.all_eq_true,
      decide_eq_true_eq] at hblock
    exact ⟨b, rfl, hblock⟩

theorem step_push :
    let _ := Sample.sha256; let _ := Sample.zkvm Sample.clockScript; let _ := Sample.schnorr
    let _ := Sample.signing; let _ := Sample.builtins; let _ := Sample.clockCodec
    (sequencer HalfwayBlock.genesis).1.Step (.push HalfwayBlock.transfer) core := by
  intro _ _ _ _ _ _
  exact SequencerCore.step_push _ _

end FreshStart

/-- A sequencer receives a transfer and produces a block with it; the indexer follows. -/
theorem replay_agreement_transfer :
    let _ := Sample.sha256; let _ := Sample.zkvm Sample.clockScript; let _ := Sample.schnorr
    let _ := Sample.signing; let _ := Sample.builtins; let _ := Sample.clockCodec
    let _ := Sample.faucetCodec
    ∃ core genesisBlock core' b s₀ s,
      SequencerCore.start HalfwayBlock.genesis FreshStart.config = .ok (core, genesisBlock) ∧
      Run SequencerCore.Step core [.push HalfwayBlock.transfer, .produce 7 b] core' ∧
      b.transactions.length = 2 ∧
      IndexerStore.putBlock ⟨IndexerDb.fresh HalfwayBlock.genesis, HalfwayBlock.genesis⟩
        genesisBlock Bytes32.zero = (s₀, .ok ()) ∧
      Run (IndexerStore.Follows fun _ => Bytes32.zero) s₀
        [.push HalfwayBlock.transfer, .produce 7 b] s ∧
      s.currentState = core'.state ∧
      (s.currentState.getAccountById (Sample.signer 1)).balance = 70 := by
  intro _ _ _ _ _ _ _
  have hbalance : ((FreshStart.core.produceNewBlock 7).1.state.getAccountById
      (Sample.signer 1)).balance = 70 := by
    obtain ⟨_, _, hbalance⟩ := FreshStart.evaluated
    with_reducible exact hbalance
  obtain ⟨b, hb, hlen, _⟩ := FreshStart.exists_block
  have hrun := (Run.nil.snoc FreshStart.step_push).snoc (SequencerCore.step_produce hb)
  obtain ⟨s₀, hput, hfollows⟩ := replay_agreement FreshStart.start_eq fun _ => Bytes32.zero
  obtain ⟨s, hs, hcurrent, _⟩ := hfollows _ _ hrun
  exact ⟨_, _, _, b, s₀, s, FreshStart.start_eq, hrun, hlen, hput, hs, hcurrent,
    hcurrent ▸ hbalance⟩

/-- The starts with the feature `testnet` and without it. -/
theorem FreshStart.evaluated_testnet :
    let _ := Sample.sha256; let _ := Sample.zkvm Sample.clockScript; let _ := Sample.schnorr
    let _ := Sample.signing; let _ := Sample.builtins; let _ := Sample.clockCodec
    let _ := Sample.faucetCodec
    let started := sequencer (initial true)
    let put := IndexerStore.putBlock ⟨IndexerDb.fresh (initial false), initial false⟩ started.2
      Bytes32.zero
    ((SequencerCore.start (initial true) config).isOk = true ∧ put.2 = .ok () ∧
      (started.1.state.getAccountById pinataAccountId).balance = 1500000 ∧
      (put.1.accountCurrentState pinataAccountId).balance = 0) ∧
    (SequencerCore.start (initial false) config).isOk = true := by
  decide +kernel

/-- With the feature `testnet` the states differ after the genesis block: the faucet has its
balance only on the side of the sequencer. -/
theorem testnet_nodes_disagree :
    let _ := Sample.sha256; let _ := Sample.zkvm Sample.clockScript; let _ := Sample.schnorr
    let _ := Sample.signing; let _ := Sample.builtins; let _ := Sample.clockCodec
    let _ := Sample.faucetCodec; let _ := Sample.keyDerivation; let _ := Sample.testnetPrograms
    let init := FreshStart.initial false
    let started := FreshStart.sequencer (FreshStart.initial true)
    let put := IndexerStore.putBlock ⟨IndexerDb.fresh init, init⟩ started.2 Bytes32.zero
    initialState = .ok init ∧ initialStateFor true = .ok (FreshStart.initial true) ∧
      SequencerCore.start (FreshStart.initial true) FreshStart.config = .ok started ∧
      put.2 = .ok () ∧
      (started.1.state.getAccountById pinataAccountId).balance = 1500000 ∧
      (put.1.accountCurrentState pinataAccountId).balance = 0 := by
  intro _ _ _ _ _ _ _ _ _ init started put
  obtain ⟨⟨hok, hstarted⟩, _⟩ := FreshStart.evaluated_testnet
  refine ⟨FreshStart.initial_eq false, FreshStart.initial_eq true,
    FreshStart.start_of_isOk hok, ?_⟩
  with_reducible exact hstarted

/-- Without the feature the nodes agree. -/
theorem nodes_agree_iff_off :
    let _ := Sample.sha256; let _ := Sample.zkvm Sample.clockScript; let _ := Sample.schnorr
    let _ := Sample.signing; let _ := Sample.builtins; let _ := Sample.clockCodec
    let _ := Sample.faucetCodec; let _ := Sample.keyDerivation; let _ := Sample.testnetPrograms
    ∃ init core genesisBlock, initialStateFor false = .ok init ∧
      SequencerCore.start init FreshStart.config = .ok (core, genesisBlock) ∧
      ∀ events core', Run SequencerCore.Step core events core' →
        ∃ s₀ s, IndexerStore.putBlock ⟨IndexerDb.fresh init, init⟩ genesisBlock Bytes32.zero =
            (s₀, .ok ()) ∧
          Run (IndexerStore.Follows fun _ => Bytes32.zero) s₀ events s ∧
          s.currentState = core'.state := by
  intro _ _ _ _ _ _ _ _ _
  obtain ⟨⟨core, genesisBlock⟩, hstart⟩ := exists_of_isOk FreshStart.evaluated_testnet.2
  have hinitial := FreshStart.initial_eq false
  have hpinata : ∀ program ∈ builtinPrograms, program.id ≠ TestnetPrograms.pinata.id := by decide
  exact ⟨_, core, genesisBlock, hinitial, hstart,
    (nodes_agree_iff hpinata hinitial hinitial hstart fun _ => Bytes32.zero).2 rfl⟩

end ExecutionZone
