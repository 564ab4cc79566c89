import ExecutionZone.Lib.HashChain
import ExecutionZone.Node.BlockBuilding
import ExecutionZone.Node.TransactionLookup
import ExecutionZone.Node.Wire

/-!
# The hash of the latest block

A block carries the hash of its data, and its data contain the hash of the block before it.
Whatever transactions arrive and however often the sequencer restarts, the blocks it produces form
one chain (`serves_of_run`), and the hash it keeps with its latest block determines the whole
chain: `chain_commitment` says that every chain with this hash at its end has the same ids, times
and transactions, that the sequencer serves the blocks of this chain, and that replaying it leads
to the state of the sequencer.
-/

namespace ExecutionZone

open HashChain

/-! ## Chains of blocks -/

section

variable [Sha256]

/-- What is hashed for a block. -/
def HashableBlockData.preimage (data : HashableBlockData) : Bytes :=
  asciiBytes "/LEE/v0.3/Message/Block/\x00\x00\x00\x00\x00\x00\x00\x00" ++ data.toBytes

/-- The blocks count up from the genesis block, each carries the hash of its data and the hash of
the block before it. -/
structure Chained (blocks : List Block) : Prop where
  ids : ConsecutiveBlocks blocks
  hashes : ∀ b ∈ blocks, b.header.hash = sha256 b.hashableData.preimage
  linked : Linked (·.header.prevBlockHash) (·.header.hash) Bytes32.zero blocks

/-- The last hash of a chain. -/
def tipHash (blocks : List Block) : Bytes32 := tip (·.header.hash) Bytes32.zero blocks

variable {blocks blocks' : List Block} {b : Block}

/-- **Step.**  A block with the next id and the hash before it extends a chain. -/
theorem Chained.concat (h : Chained blocks) (hid : b.header.blockId.toNat = blocks.length + 1)
    (hhash : b.header.hash = sha256 b.hashableData.preimage)
    (hprev : b.header.prevBlockHash = tipHash blocks) : Chained (blocks ++ [b]) where
  ids := consecutiveBlocks_concat.2 ⟨h.ids, hid⟩
  hashes := by
    intro b' hb'
    rcases List.mem_append.1 hb' with hb' | hb'
    · exact h.hashes b' hb'
    · rw [List.mem_singleton.1 hb']
      exact hhash
  linked := linked_concat.2 ⟨h.linked, hprev⟩

omit [Sha256] in
/-- The bytes that are hashed determine the data of a block. -/
theorem HashableBlockData.preimage_inj [VerifyingKeys] {data data' : HashableBlockData}
    (hfits : TransactionsFit data.transactions) (hfits' : TransactionsFit data'.transactions)
    (h : data.preimage = data'.preimage) : data = data' := by
  have hbytes := List.append_cancel_left h
  rw [← HashableBlockData.wire_write] at hbytes
  exact HashableBlockData.wire.write_injOn (HashableBlockData.wire_fits.2 hfits)
    (HashableBlockData.wire_fits.2 hfits') hbytes

/-- Two chains with the same last hash hold the same data. -/
theorem Chained.map_hashableData_eq [VerifyingKeys] {S : Set Bytes} (hS : CollisionFree S)
    (h : Chained blocks) (h' : Chained blocks') (hne : blocks ≠ []) (hne' : blocks' ≠ [])
    (htip : tipHash blocks = tipHash blocks')
    (hmem : ∀ b ∈ blocks ++ blocks',
      b.hashableData.preimage ∈ S ∧ TransactionsFit b.transactions) :
    blocks.map Block.hashableData = blocks'.map Block.hashableData := by
  have hids : Positioned (fun b : Block => b.header.blockId.toNat) blocks := h.ids
  refine map_content_eq ?_ ?_ ?_ h.linked h'.linked hids h'.ids hne hne' htip
  · intro b hb b' hb' heq
    obtain ⟨hS₁, hfits⟩ := hmem b (List.mem_append_left _ hb)
    obtain ⟨hS₂, hfits'⟩ := hmem b' (List.mem_append_right _ hb')
    rw [h.hashes b hb, h'.hashes b' hb'] at heq
    exact HashableBlockData.preimage_inj hfits hfits' (hS.injOn hS₁ hS₂ heq)
  · intro b b' heq
    exact congrArg HashableBlockData.prevBlockHash heq
  · intro b b' heq
    exact congrArg (fun data : HashableBlockData => data.blockId.toNat) heq

end

/-! ## What a block does depends on its data -/

section

variable [Sha256] [Zkvm] [Schnorr] [BuiltinPrograms] [InstructionCodec Clock.Instruction]

theorem Block.apply_congr {b b' : Block} (h : b.hashableData = b'.hashableData) (st : V03State) :
    b.apply st = b'.apply st := by
  obtain ⟨⟨blockId, prev, hash, timestamp, signature⟩, transactions, status, parent⟩ := b
  obtain ⟨⟨blockId', prev', hash', timestamp', signature'⟩, transactions', status', parent'⟩ := b'
  cases h
  rfl

theorem replay_congr {blocks blocks' : List Block}
    (h : blocks.map Block.hashableData = blocks'.map Block.hashableData) (st : V03State) :
    Replay.replay Block.apply st blocks = Replay.replay Block.apply st blocks' := by
  induction blocks generalizing st blocks' with
  | nil =>
      rw [List.map_eq_nil_iff.1 h.symm]
  | cons b blocks ih =>
      obtain ⟨b', blocks', rfl, hb, hblocks⟩ := List.map_eq_cons_iff.1 h.symm
      change List.foldlM Block.apply st (b :: blocks) = List.foldlM Block.apply st (b' :: blocks')
      rw [List.foldlM_cons, List.foldlM_cons, Block.apply_congr hb.symm]
      exact congrArg _ (funext fun st' => ih hblocks.symm st')

end

/-! ## The chain of a sequencer -/

namespace SequencerCore

variable [Sha256] [Zkvm] [Schnorr] [Signing] [BuiltinPrograms]
  [InstructionCodec Clock.Instruction]

/-- The sequencer has the chain in its database, up to the status of the blocks, and keeps its
last hash. -/
structure Serves (core : SequencerCore) (blocks : List Block) : Prop where
  chained : Chained blocks
  latest : core.store.dbio.latestBlockMeta.hash = tipHash blocks
  stored : ∃ chain, core.store.StoresChain 1 chain ∧
    chain.map Block.hashableData = blocks.map Block.hashableData

variable {core core' : SequencerCore} {blocks : List Block} {b : Block} {now : Timestamp}

/-- A built block carries its hash and the hash of the latest block. -/
theorem header_of_build (h : core.buildBlockFromMempool now = (core', .ok b)) :
    b.header.hash = sha256 b.hashableData.preimage ∧
      b.header.prevBlockHash = core.store.dbio.latestBlockMeta.hash := by
  unfold buildBlockFromMempool at h
  split at h
  · cases h
  · dsimp only at h
    split at h
    · cases h
    · split at h
      · cases h
      · cases h
        exact ⟨rfl, rfl⟩

omit [Sha256] [Zkvm] [Schnorr] [Signing] [BuiltinPrograms] [InstructionCodec Clock.Instruction] in
theorem hashableData_finalizedUpTo (lastFinalized : BlockId) (b : Block) :
    (b.finalizedUpTo lastFinalized).hashableData = b.hashableData := by
  unfold Block.finalizedUpTo
  split
  · rfl
  · rfl

/-- **Step.**  A produced block extends the chain. -/
theorem Serves.produceNewBlock {init : V03State} (hsequenced : core.Sequenced init blocks)
    (h : core.Serves blocks) (hbuild : (core.buildBlockFromMempool now).2 = .ok b) :
    (core.produceNewBlock now).1.Serves (blocks ++ [b]) := by
  rcases hcore : core.buildBlockFromMempool now with ⟨core₁, result⟩
  obtain rfl : result = .ok b := by rwa [hcore] at hbuild
  obtain ⟨_, hid, _, hstore⟩ :=
    buildBlockFromMempool_eq_ok (hsequenced.height ▸ hsequenced.pos) hcore
  obtain ⟨hhash, hprev⟩ := header_of_build hcore
  rw [hsequenced.height] at hid
  have hlt : core₁.store.dbio.lastBlockInDb < b.header.blockId := by
    rw [hstore, UInt64.lt_iff_toNat_lt, hsequenced.stored.last, hid]
    exact Nat.lt_succ_self _
  obtain ⟨chain, hchain, hdata⟩ := h.stored
  rw [SequencerCore.produceNewBlock, hcore]
  refine ⟨h.chained.concat hid hhash (hprev.trans h.latest), ?_, chain ++ [b], ?_, ?_⟩
  · change (core₁.store.dbio.atomicUpdate b Bytes32.zero core₁.state).latestBlockMeta.hash = _
    rw [SequencerDb.atomicUpdate, if_pos hlt, tipHash, tip_concat]
  · rw [← hstore] at hchain
    refine hchain.update ?_ Bytes32.zero core₁.state
    rw [hid, hstore, hsequenced.stored.latest]
  · rw [List.map_append, List.map_append, hdata]

/-- **Step.**  The chain grows by the block that is produced. -/
theorem Serves.step {init : V03State} (hsequenced : core.Sequenced init blocks)
    (h : core.Serves blocks) {e : SequencerEvent} (hstep : Step core e core') :
    core'.Serves (blocks ++ e.block.toList) := by
  cases e with
  | produce now b =>
      obtain ⟨hbuild, height, hproduce⟩ := hstep
      have hnext := h.produceNewBlock hsequenced hbuild
      rwa [hproduce] at hnext
  | push tx =>
      cases hstep
      refine (List.append_nil blocks).symm ▸ ?_
      exact ⟨h.chained, h.latest, h.stored⟩
  | restart config =>
      refine (List.append_nil blocks).symm ▸ ?_
      obtain ⟨chain, hchain, hdata⟩ := h.stored
      obtain ⟨store, hopen, hrest⟩ := bind_eq_ok.1 hstep
      obtain ⟨_, _, ⟨⟩⟩ := bind_eq_ok.1 hrest
      cases (hchain.openDb_eq config.signingKey).symm.trans (mapError_eq_ok.1 hopen)
      exact ⟨h.chained, h.latest, chain, hchain.reopen _, hdata⟩
  | finalize lastFinalized =>
      refine (List.append_nil blocks).symm ▸ ?_
      obtain ⟨dbio, hclean, rfl⟩ := hstep
      obtain ⟨chain, hchain, hdata⟩ := h.stored
      obtain ⟨dbio', hclean', hdb, _⟩ := hchain.keyedById.exists_clean lastFinalized
      cases hclean.symm.trans hclean'
      refine ⟨h.chained, ?_, _, hchain.clean hclean, ?_⟩
      · change dbio.latestBlockMeta.hash = _
        rw [hdb]
        exact h.latest
      · rw [List.map_map, ← hdata]
        exact List.map_congr_left fun b _ => hashableData_finalizedUpTo lastFinalized b

variable [InstructionCodec Faucet.Instruction] {init : V03State} {config : SequencerConfig}
  {genesisBlock : Block} {events : List SequencerEvent} {core₀ : SequencerCore}

/-- **Start.**  The genesis block is a chain. -/
theorem serves_start (h : start init config = .ok (core, genesisBlock)) :
    core.Serves [genesisBlock] := by
  obtain ⟨⟨genesisState, genesisTxs⟩, _, hcore⟩ := bind_eq_ok.1 h
  cases hcore
  refine ⟨⟨consecutiveBlocks_concat.2 ⟨consecutiveBlocks_nil, rfl⟩, ?_, rfl, trivial⟩, rfl,
    _, SequencerStore.StoresChain.create _ _ _ _, rfl⟩
  intro b hb
  rw [List.mem_singleton.1 hb]
  rfl

/-- **Run.**  The genesis block and the produced blocks form a chain, which the sequencer
serves. -/
theorem serves_of_run (hstart : start init config = .ok (core₀, genesisBlock))
    (hrun : Run Step core₀ events core) : core.Serves (genesisBlock :: producedBlocks events) := by
  induction hrun with
  | nil => exact serves_start hstart
  | snoc hrun hstep ih =>
      rw [producedBlocks_concat]
      exact ih.step (sequenced_of_run hstart hrun) hstep

/-- **Commitment.**  In every run of a sequencer, with any transactions arriving, restarts and
blocks marked as final, let a chain of blocks end with the hash that the sequencer keeps with its
latest block.  If SHA-256 has no collision among the data of the blocks, then this chain has the
ids, times and transactions of the blocks the sequencer produced; the database has these blocks
under their ids and no others; and replaying the chain leads to the state of the sequencer. -/
theorem chain_commitment [VerifyingKeys] {S : Set Bytes} (hS : CollisionFree S)
    (hstart : start init config = .ok (core₀, genesisBlock)) (hrun : Run Step core₀ events core)
    (chain : List Block) (hne : chain ≠ []) (hchain : Chained chain)
    (htip : tipHash chain = core.store.dbio.latestBlockMeta.hash)
    (hmem : ∀ b ∈ chain ++ genesisBlock :: producedBlocks events,
      b.hashableData.preimage ∈ S ∧ TransactionsFit b.transactions) :
    chain.map Block.hashableData =
        (genesisBlock :: producedBlocks events).map Block.hashableData ∧
      (∀ i, (core.store.dbio.blocks.lookup (i + 1)).map Block.hashableData =
        chain[i]?.map Block.hashableData) ∧
      Replay.replay Block.apply init chain = some core.state := by
  have hserves := serves_of_run hstart hrun
  have hdata : chain.map Block.hashableData =
      (genesisBlock :: producedBlocks events).map Block.hashableData :=
    hchain.map_hashableData_eq hS hserves.chained hne (List.cons_ne_nil _ _)
      (htip.trans hserves.latest) hmem
  obtain ⟨stored, hstored, hstoredData⟩ := hserves.stored
  refine ⟨hdata, fun i => ?_, ?_⟩
  · rw [Nat.add_comm, hstored.lookup_add, ← List.getElem?_map, ← List.getElem?_map, hstoredData,
      hdata]
  · rw [replay_congr hdata]
    exact (sequenced_of_run hstart hrun).current

end SequencerCore

/-! ## A concrete chain -/

/-- The transactions of the two blocks fit, and the digests of the blocks differ. -/
theorem FreshStart.evaluated_chain :
    let _ := Sample.sha256; let _ := Sample.zkvm Sample.clockScript; let _ := Sample.schnorr
    let _ := Sample.signing; let _ := Sample.builtins; let _ := Sample.clockCodec
    let _ := Sample.verifyingKeys
    let genesisBlock := (sequencer HalfwayBlock.genesis).2
    TransactionsFit genesisBlock.transactions ∧
      (core.buildBlockFromMempool 7).2.map (fun b =>
        let digests := ([genesisBlock, b].map (·.hashableData.preimage)).dedup.map sha256
        decide (TransactionsFit b.transactions ∧ digests.Nodup ∧ Bytes32.zero ∉ digests)) =
          .ok true := by
  decide +kernel

theorem FreshStart.fits_transfer :
    let _ := Sample.sha256; let _ := Sample.verifyingKeys
    HalfwayBlock.transfer.Fits := by
  decide +kernel

/-- A sequencer receives a transfer, produces a block with it and is restarted. -/
theorem FreshStart.exists_chain :
    let _ := Sample.sha256; let _ := Sample.zkvm Sample.clockScript; let _ := Sample.schnorr
    let _ := Sample.signing; let _ := Sample.builtins; let _ := Sample.clockCodec
    let _ := Sample.faucetCodec; let _ := Sample.verifyingKeys
    ∃ core₀ genesisBlock core b,
      SequencerCore.start HalfwayBlock.genesis config = .ok (core₀, genesisBlock) ∧
      Run SequencerCore.Step core₀ [.push HalfwayBlock.transfer, .produce 7 b, .restart config]
        core ∧
      CollisionFree { s | s ∈ [genesisBlock, b].map (·.hashableData.preimage) } ∧
      ∀ b' ∈ [genesisBlock, b], TransactionsFit b'.transactions := by
  intro _ _ _ _ _ _ _ _
  obtain ⟨hgenesis, hblock⟩ := evaluated_chain
  rcases hbuild : (core.buildBlockFromMempool 7).2 with e | b
  · rw [hbuild] at hblock
    cases hblock
  · rw [hbuild] at hblock
    obtain ⟨hfits, hdigests⟩ := of_decide_eq_true (Except.ok.inj hblock)
    have hrun := (Run.nil.snoc step_push).snoc (SequencerCore.step_produce hbuild)
    obtain ⟨core, hrestart⟩ :=
      (SequencerCore.sequenced_of_run start_eq hrun).exists_restart config
    exact ⟨_, _, core, b, start_eq,
      hrun.snoc (show SequencerCore.Step _ (.restart config) core from hrestart),
      collisionFree_of_digests hdigests,
      List.forall_mem_cons.2 ⟨hgenesis, List.forall_mem_singleton.2 hfits⟩⟩

/-- Another node that has the two blocks of the sequencer as final ones has the same state. -/
theorem SequencerCore.chain_commitment_restarted :
    let _ := Sample.sha256; let _ := Sample.zkvm Sample.clockScript; let _ := Sample.schnorr
    let _ := Sample.signing; let _ := Sample.builtins; let _ := Sample.clockCodec
    let _ := Sample.faucetCodec
    ∃ core₀ genesisBlock core b,
      start HalfwayBlock.genesis FreshStart.config = .ok (core₀, genesisBlock) ∧
      Run Step core₀ [.push HalfwayBlock.transfer, .produce 7 b, .restart FreshStart.config] core ∧
      Replay.replay Block.apply HalfwayBlock.genesis [genesisBlock.finalized, b.finalized] =
        some core.state := by
  intro _ _ _ _ _ _ _
  let _ := Sample.verifyingKeys
  obtain ⟨core₀, genesisBlock, core, b, hstart, hrun, hS, hfits⟩ := FreshStart.exists_chain
  have hserves := serves_of_run hstart hrun
  have hchain : Chained [genesisBlock.finalized, b.finalized] := by
    refine ⟨consecutiveBlocks_concat.2 ⟨consecutiveBlocks_concat.2 ⟨consecutiveBlocks_nil, ?_⟩, ?_⟩,
      ?_, hserves.chained.linked⟩
    · exact hserves.chained.ids 0 genesisBlock rfl
    · exact hserves.chained.ids 1 b rfl
    · refine List.forall_mem_cons.2 ⟨?_, List.forall_mem_singleton.2 ?_⟩
      · exact hserves.chained.hashes genesisBlock List.mem_cons_self
      · exact hserves.chained.hashes b (List.mem_cons_of_mem _ List.mem_cons_self)
  refine ⟨core₀, genesisBlock, core, b, hstart, hrun, (chain_commitment hS hstart hrun
    [genesisBlock.finalized, b.finalized] (List.cons_ne_nil _ _) hchain hserves.latest.symm ?_).2.2⟩
  -- a block and the final one have the same data
  have hblocks : ∀ b' ∈ [genesisBlock, b],
      b'.hashableData.preimage ∈ { s | s ∈ [genesisBlock, b].map (·.hashableData.preimage) } ∧
        TransactionsFit b'.transactions :=
    fun b' hb' => ⟨List.mem_map.2 ⟨b', hb', rfl⟩, hfits b' hb'⟩
  intro b' hb'
  rcases List.mem_append.1 hb' with hb' | hb'
  · obtain ⟨b'', hb'', rfl⟩ := List.mem_map.1
      (show b' ∈ [genesisBlock, b].map Block.finalized from hb')
    exact hblocks b'' hb''
  · exact hblocks b' hb'

end ExecutionZone
