import ExecutionZone.Node.Admission
import ExecutionZone.Transaction.Membership
import ExecutionZone.Transaction.Restored

/-!
# Restarting from the stored state

The database of the sequencer holds the bytes of a state.  A sequencer that is restarted reads
them, so its state has the same contents as before but perhaps another order of iteration.

Two sequencers that differ in nothing else build the same blocks, and stay this way
(`Same.step`).  Hence a restarted sequencer and one that went on with an empty mempool can
follow each other forever.
-/

namespace ExecutionZone

/-! ## Databases and stores -/

/-- The same contents, in perhaps another order of iteration of the state. -/
structure SequencerDb.Same (db db' : SequencerDb) : Prop where
  blocks : db'.blocks = db.blocks
  firstBlockInDb : db'.firstBlockInDb = db.firstBlockInDb
  lastBlockInDb : db'.lastBlockInDb = db.lastBlockInDb
  latestBlockMeta : db'.latestBlockMeta = db.latestBlockMeta
  nssaState : db.nssaState.Same db'.nssaState

structure SequencerStore.Same (store store' : SequencerStore) : Prop where
  dbio : store.dbio.Same store'.dbio
  txHashToBlockMap : store'.txHashToBlockMap = store.txHashToBlockMap
  genesisId : store'.genesisId = store.genesisId
  signingKey : store'.signingKey = store.signingKey

namespace SequencerDb.Same

variable {db db' : SequencerDb} (h : db.Same db')

include h

theorem symm : db'.Same db :=
  ⟨h.blocks.symm, h.firstBlockInDb.symm, h.lastBlockInDb.symm, h.latestBlockMeta.symm,
    h.nssaState.symm⟩

theorem atomicUpdate (block : Block) (msgId : Bytes32) {st st' : V03State} (hst : st.Same st') :
    (db.atomicUpdate block msgId st).Same (db'.atomicUpdate block msgId st') := by
  have hblocks : db'.blocks.insert block.header.blockId.toNat block =
      db.blocks.insert block.header.blockId.toNat block := by
    rw [h.blocks]
  unfold SequencerDb.atomicUpdate
  rw [h.lastBlockInDb]
  split
  · exact ⟨hblocks, h.firstBlockInDb, rfl, rfl, hst⟩
  · exact ⟨hblocks, h.firstBlockInDb, h.lastBlockInDb, h.latestBlockMeta, hst⟩

theorem sameResult_markBlockAsFinalized (blockId : Nat) :
    SameResult SequencerDb.Same (db.markBlockAsFinalized blockId)
      (db'.markBlockAsFinalized blockId) := by
  unfold SequencerDb.markBlockAsFinalized
  rw [h.blocks]
  refine .bind_left _ fun block => .ok ?_
  exact ⟨rfl, h.firstBlockInDb, h.lastBlockInDb, h.latestBlockMeta, h.nssaState⟩

theorem sameResult_cleanPendingBlocksUpTo (lastFinalized : BlockId) :
    SameResult SequencerDb.Same (db.cleanPendingBlocksUpTo lastFinalized)
      (db'.cleanPendingBlocksUpTo lastFinalized) := by
  unfold SequencerDb.cleanPendingBlocksUpTo
  rw [h.blocks]
  exact .foldlM (fun _ _ blockId h' => h'.sameResult_markBlockAsFinalized blockId) h _

theorem sameResult_openDb [Sha256] (signingKey : PrivateKey) :
    SameResult SequencerStore.Same (SequencerStore.openDb db signingKey)
      (SequencerStore.openDb db' signingKey) := by
  unfold SequencerStore.openDb
  rw [h.blocks, h.firstBlockInDb, h.latestBlockMeta]
  exact .bind_left _ fun map => .ok ⟨h, rfl, rfl, rfl⟩

end SequencerDb.Same

/-! ## Building blocks -/

structure Selection.Same (s s' : Selection) : Prop where
  mempool : s'.mempool = s.mempool
  state : s.state.Same s'.state
  validTransactions : s'.validTransactions = s.validTransactions

/-- The same contents, in perhaps another order of iteration of the states.  The index of the
transactions does not matter for the next block. -/
structure SequencerCore.Same (core core' : SequencerCore) : Prop where
  state : core.state.Same core'.state
  dbio : core.store.dbio.Same core'.store.dbio
  signingKey : core'.store.signingKey = core.store.signingKey
  mempool : core'.mempool = core.mempool
  sequencerConfig : core'.sequencerConfig = core.sequencerConfig
  chainHeight : core'.chainHeight = core.chainHeight

theorem SequencerCore.Same.symm {core core' : SequencerCore} (h : core.Same core') :
    core'.Same core :=
  ⟨h.state.symm, h.dbio.symm, h.signingKey.symm, h.mempool.symm, h.sequencerConfig.symm,
    h.chainHeight.symm⟩

section

variable [Sha256] [Zkvm] [Schnorr] [BuiltinPrograms] [InstructionCodec Clock.Instruction]

/-- The loop takes the same transactions. -/
theorem Selection.Same.sameResult_fillBlock {s s' : Selection} (h : s.Same s')
    (config : SequencerConfig) (blockId : BlockId) (prevBlockHash : Bytes32)
    (timestamp : Timestamp) (turns : Nat) :
    SameResult Selection.Same (fillBlock config blockId prevBlockHash timestamp turns s)
      (fillBlock config blockId prevBlockHash timestamp turns s') := by
  induction turns generalizing s s' with
  | zero => exact .ok h
  | succ turns ih =>
      rw [fillBlock, fillBlock, h.mempool, h.validTransactions]
      rcases s.mempool.pop with _ | ⟨tx, mempool⟩
      · exact .ok h
      · dsimp only
        split
        · exact .ok ⟨rfl, h.state, rfl⟩
        · rw [h.state.validateOnState_eq]
          rcases tx.validateOnState s.state blockId timestamp with (e | msg) | diff
          · exact ih ⟨rfl, h.state, rfl⟩
          · exact .error msg
          · have happly := h.state.sameResult_applyStateDiff diff
            dsimp only
            generalize s.state.applyStateDiff diff = x at happly
            generalize s'.state.applyStateDiff diff = y at happly
            cases happly with
            | error msg => exact .error msg
            | ok hstate =>
                dsimp only
                split
                · exact .ok ⟨rfl, hstate, rfl⟩
                · exact ih ⟨rfl, hstate, rfl⟩

namespace SequencerCore

variable {core core' : SequencerCore}

namespace Same

variable [Signing] (h : core.Same core') (now : Timestamp)

include h

/-- **One block.**  The same block or the same error. -/
theorem buildBlockFromMempool :
    (core'.buildBlockFromMempool now).2 = (core.buildBlockFromMempool now).2 ∧
      (core.buildBlockFromMempool now).1.Same (core'.buildBlockFromMempool now).1 := by
  have hnext : core'.nextBlockId = core.nextBlockId := by
    rw [nextBlockId, h.chainHeight, nextBlockId]
  unfold SequencerCore.buildBlockFromMempool
  rw [hnext, h.mempool, h.sequencerConfig, h.dbio.latestBlockMeta, h.signingKey, h.chainHeight]
  rcases core.nextBlockId with _ | height
  · exact ⟨rfl, h⟩
  · have hselection : Selection.Same ⟨core.mempool, core.state, []⟩
        ⟨core.mempool, core'.state, []⟩ := ⟨rfl, h.state, rfl⟩
    have hfill := hselection.sameResult_fillBlock core.sequencerConfig height
      core.store.dbio.latestBlockMeta.hash now core.mempool.size
    dsimp only
    generalize fillBlock _ _ _ _ _ ⟨core.mempool, core.state, []⟩ = x at hfill
    generalize fillBlock _ _ _ _ _ ⟨core.mempool, core'.state, []⟩ = y at hfill
    cases hfill with
    | error msg => exact ⟨rfl, h⟩
    | @ok s s' hs =>
        have hclock : SameResult V03State.Same
            (s.state.transitionFromPublicTransaction (clockInvocation now) height now)
            (s'.state.transitionFromPublicTransaction (clockInvocation now) height now) :=
          hs.state.sameResult_transition ⟨.publicTx (clockInvocation now), height, now⟩
        dsimp only
        rw [hs.mempool, hs.validTransactions]
        generalize s.state.transitionFromPublicTransaction _ _ _ = x at hclock
        generalize s'.state.transitionFromPublicTransaction _ _ _ = y at hclock
        cases hclock with
        | error e => exact ⟨rfl, hs.state, h.dbio, h.signingKey, rfl, rfl, rfl⟩
        | ok hstate => exact ⟨rfl, hstate, h.dbio, h.signingKey, rfl, rfl, rfl⟩

theorem produceNewBlock :
    (core'.produceNewBlock now).2 = (core.produceNewBlock now).2 ∧
      (core.produceNewBlock now).1.Same (core'.produceNewBlock now).1 := by
  obtain ⟨hresult, hcore⟩ := h.buildBlockFromMempool now
  unfold SequencerCore.produceNewBlock
  rcases hbuild : core.buildBlockFromMempool now with ⟨core₁, result⟩
  rcases hbuild' : core'.buildBlockFromMempool now with ⟨core₁', result'⟩
  rw [hbuild, hbuild'] at hresult hcore
  obtain rfl : result' = result := hresult
  rcases result' with e | block
  · exact ⟨rfl, hcore⟩
  · refine ⟨congrArg Except.ok hcore.chainHeight, ?_⟩
    exact ⟨hcore.state, hcore.dbio.atomicUpdate block Bytes32.zero hcore.state, hcore.signingKey,
      hcore.mempool, hcore.sequencerConfig, hcore.chainHeight⟩

end Same

end SequencerCore

end

/-! ## Restarts -/

namespace SequencerCore

variable [Sha256]

/-- `start_from_config` with a database that holds the bytes of a state. -/
def restartFrom (dbio : SequencerDb) (bytes : Bytes) (config : SequencerConfig) :
    Except Panic SequencerCore := do
  let store ← (SequencerStore.openDb dbio config.signingKey).mapError fun
    | .err e => "Failed to open database with error: " ++ e.additionalInfo
    | .panic msg => msg
  let state ← (V03State.fromSlice bytes).mapError fun _ => "Failed to read state from store"
  let _ ← expect (dbio.blocks.lookup store.genesisId.toNat) "Genesis block not found in store"
  -- reading the state once more gives the same
  let store := { store with dbio := { store.dbio with nssaState := state } }
  return ⟨state, store, .new, config, dbio.latestBlockMeta.id⟩

theorem sameResult_restart {dbio dbio' : SequencerDb} (h : dbio.Same dbio') (config : SequencerConfig) :
    SameResult SequencerCore.Same (restart dbio config) (restart dbio' config) := by
  refine ((h.sameResult_openDb config.signingKey).mapError _).bind fun store store' hstore => ?_
  rw [h.blocks, hstore.genesisId, h.latestBlockMeta]
  refine .bind_left _ fun _ => .ok ?_
  exact ⟨h.nssaState, hstore.dbio, hstore.signingKey, rfl, rfl, rfl⟩

/-! ## Runs -/

variable [Zkvm] [Schnorr] [Signing] [BuiltinPrograms] [InstructionCodec Clock.Instruction]
  {core core₁ core' : SequencerCore}

/-- **Step.**  What one sequencer does, the other does as well, with the same block. -/
theorem Same.step (h : core.Same core') {e : SequencerEvent} (hstep : Step core e core₁) :
    ∃ core₁', Step core' e core₁' ∧ core₁.Same core₁' := by
  cases e with
  | push tx =>
      cases hstep
      refine ⟨_, rfl, h.state, h.dbio, h.signingKey, ?_, h.sequencerConfig, h.chainHeight⟩
      exact congrArg (MemPool.push · tx) h.mempool
  | produce now block =>
      obtain ⟨hbuild, height, hproduce⟩ := hstep
      obtain ⟨hresult, hcore⟩ := h.produceNewBlock now
      rw [hproduce] at hresult hcore
      exact ⟨_, ⟨(h.buildBlockFromMempool now).1.trans hbuild, height, Prod.ext rfl hresult⟩, hcore⟩
  | restart config => exact (sameResult_restart h.dbio config).exists_ok hstep
  | finalize lastFinalized =>
      obtain ⟨dbio, hclean, rfl⟩ := hstep
      obtain ⟨dbio', hclean', hdbio⟩ :=
        (h.dbio.sameResult_cleanPendingBlocksUpTo lastFinalized).exists_ok hclean
      exact ⟨_, ⟨dbio', hclean', rfl⟩,
        h.state, hdbio, h.signingKey, h.mempool, h.sequencerConfig, h.chainHeight⟩

/-- Every run of the first sequencer is one of the second, with the same blocks. -/
def FollowedBy (core core' : SequencerCore) : Prop :=
  ∀ events core₁, Run Step core events core₁ → ∃ core₁', Run Step core' events core₁' ∧
    core₁.Same core₁'

theorem Same.followedBy (h : core.Same core') : core.FollowedBy core' :=
  fun _ _ hrun => hrun.exists_of_simulation (fun _ _ _ _ h' hstep => h'.step hstep) h

omit [Signing] in
/-- The state of a sequencer is reached by accepted transactions. -/
theorem Sequenced.exists_run {init : V03State} {blocks : List Block}
    (h : Sequenced init blocks core) : ∃ events, Run Accepted init events core.state := by
  refine Replay.invariant_of_replay (I := fun st => ∃ events, Run Accepted init events st) ?_
    ⟨[], .nil⟩ h.current
  rintro st st' b _ ⟨events, hrun⟩ happly
  obtain ⟨later, hlater⟩ := Block.exists_run_of_apply happly
  exact ⟨_, hrun.append hlater⟩

/-- The store signs with the key of the configuration. -/
theorem signingKey_of_run [InstructionCodec Faucet.Instruction] {init : V03State}
    {config : SequencerConfig} {genesisBlock : Block} {core₀ : SequencerCore}
    {events : List SequencerEvent} (hstart : start init config = .ok (core₀, genesisBlock))
    (hrun : Run Step core₀ events core) :
    core.store.signingKey = core.sequencerConfig.signingKey := by
  refine hrun.invariant (I := fun c => c.store.signingKey = c.sequencerConfig.signingKey) ?_ ?_
  · obtain ⟨_, _, ⟨⟩⟩ := bind_eq_ok.1 hstart
    rfl
  · intro c e c' hc hstep
    cases e with
    | push tx =>
        cases hstep
        exact hc
    | produce now block =>
        obtain ⟨hbuild, height, hproduce⟩ := hstep
        rcases hbuilt : c.buildBlockFromMempool now with ⟨c₁, result⟩
        obtain rfl : result = .ok block := by rwa [hbuilt] at hbuild
        obtain ⟨s, _, _, _, _, _, hc₁⟩ := exists_selection_of_build hbuilt
        rw [SequencerCore.produceNewBlock, hbuilt] at hproduce
        cases hproduce
        rw [hc₁]
        exact hc
    | restart config =>
        obtain ⟨_, _, _, hkey⟩ := restart_eq_ok hstep
        exact hkey
    | finalize lastFinalized =>
        obtain ⟨dbio, _, rfl⟩ := hstep
        exact hc

omit [Signing] in
/-- A sequencer can be restarted from the bytes of its state, and is then the same except for
its mempool. -/
theorem Sequenced.exists_restartFrom {init : V03State} {blocks : List Block}
    (h : Sequenced init blocks core)
    (hkey : core.store.signingKey = core.sequencerConfig.signingKey) {bytes : Bytes}
    {state : V03State} (hread : V03State.fromSlice bytes = .ok state)
    (hsame : core.state.Same state) :
    ∃ core', restartFrom core.store.dbio bytes core.sequencerConfig = .ok core' ∧
      Same { core with mempool := .new } core' := by
  obtain ⟨store, hopen, _⟩ := h.stored.exists_openDb core.sequencerConfig.signingKey
  obtain ⟨hdbio, hid, hkey'⟩ := SequencerStore.openDb_eq_ok hopen
  have hgenesis : store.genesisId.toNat = 1 := by
    rw [hid, h.stored.first]
    rfl
  obtain ⟨b, hb⟩ := h.stored.blocks 1 (Nat.le_refl 1) h.pos
  have hheight : core.store.dbio.latestBlockMeta.id = core.chainHeight :=
    UInt64.toNat_inj.1 (h.stored.latest.trans h.height.symm)
  refine ⟨_, bind_eq_ok.2 ⟨store, mapError_eq_ok.2 hopen, bind_eq_ok.2 ⟨state,
    mapError_eq_ok.2 hread, bind_eq_ok.2 ⟨b, expect_eq_ok.2 (hgenesis ▸ hb), rfl⟩⟩⟩, ?_⟩
  refine ⟨hsame, ?_, hkey'.trans hkey.symm, rfl, rfl, hheight⟩
  rw [hdbio]
  exact ⟨rfl, rfl, rfl, rfl, h.stored.state.symm ▸ hsame⟩

variable [InstructionCodec Faucet.Instruction] {initialData : List (AccountId × U128)}
  {notes : List (Commitment × Nullifier)} {genesisTimestamp : Timestamp} {st₀ st : V03State}
  {events : List Event}

/-- **Persistence of the state.**  A state that is reached from genesis can be written, unless a
collection has `2 ^ 32` elements.  What was written is read back, with the same contents, and
the state that is read gives each transaction the same result.  A sequencer with this state that
is restarted from the bytes follows one that went on with an empty mempool, and is followed by
it. -/
theorem state_persistence
    (hgenesis : V03State.newWithGenesisAccounts initialData notes genesisTimestamp = .ok st₀)
    (hrun : Run Accepted st₀ events st) :
    (st.toVec.isSome = true ↔ st.Fits) ∧
    ∀ bytes, st.toVec = some bytes → ∃ st', V03State.fromSlice bytes = .ok st' ∧ st.Same st' ∧
      (∀ (tx : NSSATransaction) (blockId : BlockId) (timestamp : Timestamp),
        tx.validateOnState st' blockId timestamp = tx.validateOnState st blockId timestamp ∧
        SameResult V03State.Same (tx.executeCheckOnState st blockId timestamp)
          (tx.executeCheckOnState st' blockId timestamp)) ∧
      ∀ init config core₀ genesisBlock sequencerEvents core,
        start init config = .ok (core₀, genesisBlock) → Run Step core₀ sequencerEvents core →
        core.state = st →
        ∃ core', restartFrom core.store.dbio bytes core.sequencerConfig = .ok core' ∧
          FollowedBy { core with mempool := .new } core' ∧
          FollowedBy core' { core with mempool := .new } := by
  have hintact := Intact.of_run (CommitmentSet.of_genesis (S := Set.univ) hgenesis).2.1 hrun
  obtain ⟨values, hindexed⟩ := hintact.indexed
  refine ⟨V03State.isSome_toVec_iff hindexed, fun bytes hbytes => ?_⟩
  obtain ⟨st', hread, hsame⟩ := V03State.fromSlice_toVec hbytes
  refine ⟨st', hread, hsame, fun tx blockId timestamp => ⟨hsame.validateOnState_eq tx blockId
    timestamp, hsame.sameResult_executeCheckOnState tx blockId timestamp⟩, ?_⟩
  rintro init config core₀ genesisBlock sequencerEvents core hstart hsequencer rfl
  obtain ⟨core', hrestart, hcore⟩ := (sequenced_of_run hstart hsequencer).exists_restartFrom
    (signingKey_of_run hstart hsequencer) hread hsame
  exact ⟨core', hrestart, hcore.followedBy, hcore.symm.followedBy⟩

end SequencerCore

/-- A sequencer is restarted from the bytes of the state after the genesis block.  It then
includes a transfer in the block that it would have built anyway. -/
theorem state_persistence_restarted :
    let _ := Sample.sha256; let _ := Sample.zkvm Sample.clockScript; let _ := Sample.schnorr
    let _ := Sample.signing; let _ := Sample.builtins; let _ := Sample.clockCodec
    let _ := Sample.faucetCodec
    ∃ core genesisBlock bytes core' b core₁ core₁',
      SequencerCore.start HalfwayBlock.genesis FreshStart.config = .ok (core, genesisBlock) ∧
      core.state.toVec = some bytes ∧
      SequencerCore.restartFrom core.store.dbio bytes FreshStart.config = .ok core' ∧
      b.transactions.length = 2 ∧
      Run SequencerCore.Step core [.push HalfwayBlock.transfer, .produce 7 b] core₁ ∧
      Run SequencerCore.Step core' [.push HalfwayBlock.transfer, .produce 7 b] core₁' ∧
      core₁.Same core₁' := by
  intro _ _ _ _ _ _ _
  have hfits : (FreshStart.sequencer HalfwayBlock.genesis).1.state.Fits := by decide +kernel
  obtain ⟨b, hb, hlen, _⟩ := FreshStart.exists_block
  have hrun := (Run.nil.snoc FreshStart.step_push).snoc (SequencerCore.step_produce hb)
  -- over variables for the sequencers, which are not to be evaluated
  suffices h : ∀ core genesisBlock core₁,
      SequencerCore.start HalfwayBlock.genesis FreshStart.config = .ok (core, genesisBlock) →
      core.state.Fits →
      Run SequencerCore.Step core [.push HalfwayBlock.transfer, .produce 7 b] core₁ →
      ∃ bytes core' core₁', core.state.toVec = some bytes ∧
        SequencerCore.restartFrom core.store.dbio bytes FreshStart.config = .ok core' ∧
        Run SequencerCore.Step core' [.push HalfwayBlock.transfer, .produce 7 b] core₁' ∧
        core₁.Same core₁' by
    obtain ⟨bytes, core', core₁', hbytes, hcore', hrun', hsame⟩ :=
      h _ _ _ FreshStart.start_eq hfits hrun
    exact ⟨_, _, bytes, core', b, _, core₁', FreshStart.start_eq, hbytes, hcore',
      hlen, hrun, hrun', hsame⟩
  intro core genesisBlock core₁ hstart hfits hrun
  obtain ⟨hmempool, hconfig⟩ := SequencerCore.start_eq_ok hstart
  have hempty : { core with mempool := .new } = core := by
    rw [← hmempool]
  obtain ⟨events, hreached⟩ := (SequencerCore.sequenced_start hstart).exists_run
  obtain ⟨hwrite, hread⟩ := SequencerCore.state_persistence HalfwayBlock.genesis_eq hreached
  obtain ⟨bytes, hbytes⟩ := Option.isSome_iff_exists.1 (hwrite.2 hfits)
  obtain ⟨_, _, _, _, hrestart⟩ := hread bytes hbytes
  obtain ⟨core', hcore', hfollowed, _⟩ := hrestart _ _ _ _ [] _ hstart .nil rfl
  rw [hempty] at hfollowed
  rw [hconfig] at hcore'
  obtain ⟨core₁', hrun', hsame⟩ := hfollowed _ _ hrun
  exact ⟨bytes, core', core₁', hbytes, hcore', hrun', hsame⟩

end ExecutionZone
