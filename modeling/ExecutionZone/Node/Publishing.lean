import ExecutionZone.Node.Agreement

/-!
# Publishing blocks

`produce_new_block` hands a block to the publisher and then stores it.  Each of the two may
fail, and the process may stop in between; a failure of the publisher is only logged.  A process
that starts from a database goes on after the latest block in it, so a block that was published
and not stored is produced again, with other transactions and at another time.

`published_blocks_unique` says that no two different blocks with one id are published in a run
whose restarts find a database that has reached the published blocks.
`equivocates_of_lost_block` says that a restart with a database that has not is followed by a
second block with the same id.
-/

namespace ExecutionZone

/-- The errors of `produce_new_block`. -/
inductive ProductionError where
  | sequencer (e : SequencerError)
  | db (e : DbError)
deriving DecidableEq

/-- A process: its sequencer, whether a checkpoint of the publisher is in the database, and the
blocks for which `publish_block` returned `Ok` so far. -/
structure SequencerProcess where
  core : SequencerCore
  checkpoint : Bool
  published : List Block

/-- What happens to a process.  The arguments of `produce` are the time, whether publishing
succeeds and what `store.update` returns; a process that stops before one of them returns is one
where it fails and that is restarted. -/
inductive ProcessEvent where
  | push (tx : NSSATransaction)
  | produce (newBlockTimestamp : Timestamp) (publishes : Bool) (update : Except DbError Unit)
  | restart (config : SequencerConfig) (publishes : Bool)
  | storeCheckpoint
  | markFinalized (blockId : Nat)

/-! ## The process -/

section

variable [Sha256] [Zkvm] [Schnorr] [Signing] [BuiltinPrograms]
  [InstructionCodec Clock.Instruction]

/-- `produce_new_block`: the sequencer after the call, the published block, and the result. -/
def SequencerCore.produceAndPublish (core : SequencerCore) (newBlockTimestamp : Timestamp)
    (publishes : Bool) (update : Except DbError Unit) :
    SequencerCore × Option Block × Except (Fault ProductionError) BlockId :=
  match core.buildBlockFromMempool newBlockTimestamp with
  | (core, .error e) => (core, none, .error (e.map fun e =>
      .sequencer (.context "Failed to build block from mempool transactions" e)))
  | (core, .ok block) =>
      let published := if publishes then some block else none
      match update with
      | .error e => (core, published, .error (.err (.db e)))
      | .ok () =>
          ({ core with store := core.store.update block Bytes32.zero core.state }, published,
            .ok core.chainHeight)

namespace SequencerProcess

/-- `start_from_config` without a database: the genesis block is published. -/
def start [InstructionCodec Faucet.Instruction] (initial : V03State) (config : SequencerConfig)
    (publishes : Bool) : Except Panic SequencerProcess := do
  let (core, genesisBlock) ← SequencerCore.start initial config
  return ⟨core, false, if publishes then [genesisBlock] else []⟩

omit [Zkvm] [Schnorr] [Signing] [BuiltinPrograms] [InstructionCodec Clock.Instruction] in
/-- `start_from_config` with the database of the process.  Without a checkpoint in it the
genesis block, as it is in the database, is published again. -/
def restart (s : SequencerProcess) (config : SequencerConfig) (publishes : Bool) :
    Except Panic SequencerProcess := do
  let core ← SequencerCore.restart s.core.store.dbio config
  let genesisBlock ← expect (s.core.store.dbio.blocks.lookup core.store.genesisId.toNat)
    "Genesis block not found in store"
  return { s with
    core
    published := s.published ++
      if s.checkpoint = false ∧ publishes = true then [genesisBlock] else [] }

/-- The process after `produce_new_block`. -/
def produce (s : SequencerProcess) (newBlockTimestamp : Timestamp) (publishes : Bool)
    (update : Except DbError Unit) : SequencerProcess :=
  let result := s.core.produceAndPublish newBlockTimestamp publishes update
  { s with core := result.1, published := s.published ++ result.2.1.toList }

/-- The steps of a process. -/
def Step (s : SequencerProcess) : ProcessEvent → SequencerProcess → Prop
  | .push tx, s' => s' = { s with core := { s.core with mempool := s.core.mempool.push tx } }
  | .produce now publishes update, s' => s' = s.produce now publishes update
  | .restart config publishes, s' => s.restart config publishes = .ok s'
  | .storeCheckpoint, s' => s' = { s with checkpoint := true }
  | .markFinalized blockId, s' => ∃ dbio,
      s.core.store.dbio.markBlockAsFinalized blockId = .ok dbio ∧
      s' = { s with core := { s.core with store := { s.core.store with dbio } } }

theorem step_produce (s : SequencerProcess) (now : Timestamp) (publishes : Bool)
    (update : Except DbError Unit) :
    s.Step (.produce now publishes update) (s.produce now publishes update) := rfl

omit [Sha256] [Zkvm] [Schnorr] [Signing] [BuiltinPrograms] [InstructionCodec Clock.Instruction] in
/-- The database has reached all published blocks, and the genesis block in it would not be
published again with another status. -/
structure NothingLost (s : SequencerProcess) : Prop where
  reached : ∀ b ∈ s.published, b.header.blockId ≤ s.core.store.dbio.latestBlockMeta.id
  genesis : s.checkpoint = false →
    ∀ b ∈ s.core.store.dbio.blocks.lookup genesisBlockId.toNat, b.bedrockStatus = .pending

/-- A step that is not a restart, or a restart that finds all published blocks. -/
def SafeStep (s : SequencerProcess) (e : ProcessEvent) (s' : SequencerProcess) : Prop :=
  s.Step e s' ∧ ∀ config publishes, e = .restart config publishes → s.NothingLost

end SequencerProcess

/-! ## What a process publishes -/

namespace SequencerCore

variable {core core' : SequencerCore} {b : Block} {now : Timestamp}

/-- A block that can not be built changes neither the database nor the height. -/
theorem store_of_buildBlockFromMempool_error {e : Fault SequencerError}
    (h : core.buildBlockFromMempool now = (core', .error e)) :
    core'.store = core.store ∧ core'.chainHeight = core.chainHeight := by
  unfold buildBlockFromMempool at h
  split at h
  · cases h
    exact ⟨rfl, rfl⟩
  · dsimp only at h
    split at h
    · cases h
      exact ⟨rfl, rfl⟩
    · split at h
      · cases h
        exact ⟨rfl, rfl⟩
      · cases h

theorem timestamp_of_buildBlockFromMempool
    (h : (core.buildBlockFromMempool now).2 = .ok b) : b.header.timestamp = now := by
  unfold buildBlockFromMempool at h
  split at h
  · cases h
  · dsimp only at h
    split at h
    · cases h
    · split at h
      · cases h
      · cases h
        rfl

/-- A block that can be built is published, whether it is stored or not. -/
theorem published_of_buildBlockFromMempool (h : (core.buildBlockFromMempool now).2 = .ok b)
    (update : Except DbError Unit) : (core.produceAndPublish now true update).2.1 = some b := by
  rcases hcore : core.buildBlockFromMempool now with ⟨core₁, result⟩
  obtain rfl : result = .ok b := by rwa [hcore] at h
  rw [produceAndPublish, hcore]
  rcases update with e | ⟨⟩
  · rfl
  · rfl

omit [Zkvm] [Schnorr] [Signing] [BuiltinPrograms] [InstructionCodec Clock.Instruction] in
/-- A restarted sequencer stands at the latest block of the database, which it keeps, and signs
with the key of its configuration. -/
theorem restart_eq_ok {dbio : SequencerDb} {config : SequencerConfig}
    (h : restart dbio config = .ok core) :
    core.chainHeight = dbio.latestBlockMeta.id ∧ core.store.dbio = dbio ∧
      core.store.genesisId = dbio.firstBlockInDb ∧
      core.store.signingKey = core.sequencerConfig.signingKey := by
  obtain ⟨store, hopen, hrest⟩ := bind_eq_ok.1 h
  obtain ⟨_, _, ⟨⟩⟩ := bind_eq_ok.1 hrest
  exact ⟨rfl, SequencerStore.openDb_eq_ok (mapError_eq_ok.1 hopen)⟩

end SequencerCore

namespace SequencerProcess

/-- The published blocks are below the height of the sequencer, and there is one for an id;
the one with the first id is the genesis block, which stays in the database. -/
structure Unequivocal (genesisBlock : Block) (s : SequencerProcess) : Prop where
  first : s.core.store.dbio.firstBlockInDb = genesisBlockId
  genesis : ∃ b, s.core.store.dbio.blocks.lookup genesisBlockId.toNat = some b ∧
    (b.bedrockStatus = .pending → b = genesisBlock)
  latest : 0 < s.core.store.dbio.latestBlockMeta.id.toNat
  height : 0 < s.core.chainHeight.toNat
  below : ∀ b ∈ s.published, b.header.blockId.toNat ≤ s.core.chainHeight.toNat
  unique : ∀ b ∈ s.published, ∀ b' ∈ s.published, b.header.blockId = b'.header.blockId → b = b'
  genesis_published : ∀ b ∈ s.published, b.header.blockId = genesisBlockId → b = genesisBlock

variable {genesisBlock : Block} {s s' : SequencerProcess}

omit [Sha256] [Zkvm] [Schnorr] [Signing] [BuiltinPrograms] [InstructionCodec Clock.Instruction] in
theorem Unequivocal.finalize (h : Unequivocal genesisBlock s) {blockId : Nat} {dbio : SequencerDb}
    (hmark : s.core.store.dbio.markBlockAsFinalized blockId = .ok dbio) :
    Unequivocal genesisBlock
      { s with core := { s.core with store := { s.core.store with dbio } } } := by
  simp only [SequencerDb.markBlockAsFinalized, bind_eq_ok, expect_eq_ok, pure, Except.pure,
    Except.ok.injEq] at hmark
  obtain ⟨b, hb, rfl⟩ := hmark
  refine ⟨h.first, ?_, h.latest, h.height, h.below, h.unique, h.genesis_published⟩
  by_cases hid : genesisBlockId.toNat = blockId
  · subst hid
    exact ⟨b.finalized, AList.lookup_insert _, fun hpending => by cases hpending⟩
  · obtain ⟨g, hg, hpending⟩ := h.genesis
    exact ⟨g, (AList.lookup_insert_ne hid).trans hg, hpending⟩

omit [Sha256] [Zkvm] [Schnorr] [Signing] [BuiltinPrograms] [InstructionCodec Clock.Instruction] in
/-- A block above the height is the only one with its id. -/
theorem Unequivocal.publish (h : Unequivocal genesisBlock s) (core : SequencerCore) {b : Block}
    (hstore : core.store.dbio.firstBlockInDb = s.core.store.dbio.firstBlockInDb ∧
      core.store.dbio.blocks.lookup genesisBlockId.toNat =
        s.core.store.dbio.blocks.lookup genesisBlockId.toNat ∧
      0 < core.store.dbio.latestBlockMeta.id.toNat)
    (hheight : core.chainHeight = b.header.blockId)
    (hid : b.header.blockId.toNat = s.core.chainHeight.toNat + 1) {published : Option Block}
    (hpublished : ∀ b' ∈ published, b' = b) :
    Unequivocal genesisBlock
      { s with core, published := s.published ++ published.toList } := by
  have hmem : ∀ b' ∈ s.published ++ published.toList, b' ∈ s.published ∨ b' = b := by
    intro b' hb'
    rcases List.mem_append.1 hb' with hb' | hb'
    · exact .inl hb'
    · exact .inr (hpublished b' (Option.mem_toList.1 hb'))
  have hlt : ∀ b' ∈ s.published, b'.header.blockId ≠ b.header.blockId := by
    intro b' hb' heq
    have hle := h.below b' hb'
    rw [heq, hid] at hle
    exact absurd hle (Nat.not_succ_le_self _)
  refine ⟨hstore.1.trans h.first, hstore.2.1 ▸ h.genesis, hstore.2.2, ?_, ?_, ?_, ?_⟩
  · rw [hheight, hid]
    exact Nat.succ_pos _
  · intro b' hb'
    rw [hheight]
    rcases hmem b' hb' with hb' | rfl
    · rw [hid]
      exact (h.below b' hb').trans (Nat.le_succ _)
    · exact le_rfl
  · intro b₁ hb₁ b₂ hb₂ heq
    rcases hmem b₁ hb₁ with hb₁ | rfl
    · rcases hmem b₂ hb₂ with hb₂ | rfl
      · exact h.unique b₁ hb₁ b₂ hb₂ heq
      · exact absurd heq (hlt b₁ hb₁)
    · rcases hmem b₂ hb₂ with hb₂ | rfl
      · exact absurd heq.symm (hlt b₂ hb₂)
      · rfl
  · intro b' hb' heq
    rcases hmem b' hb' with hb' | rfl
    · exact h.genesis_published b' hb' heq
    · have hone : b'.header.blockId.toNat = 1 := congrArg UInt64.toNat heq
      have hheight := h.height
      omega

/-- **Step.**  Producing a block, whatever of it fails. -/
theorem Unequivocal.produce (h : Unequivocal genesisBlock s) (now : Timestamp) (publishes : Bool)
    (update : Except DbError Unit) :
    Unequivocal genesisBlock (s.produce now publishes update) := by
  unfold SequencerProcess.produce SequencerCore.produceAndPublish
  rcases hbuild : s.core.buildBlockFromMempool now with ⟨core, e | b⟩
  · obtain ⟨hstore, hheight⟩ := SequencerCore.store_of_buildBlockFromMempool_error hbuild
    simp only [Option.toList_none, List.append_nil]
    exact ⟨hstore ▸ h.first, hstore ▸ h.genesis, hstore ▸ h.latest, hheight ▸ h.height,
      hheight ▸ h.below, h.unique, h.genesis_published⟩
  · obtain ⟨_, hid, hheight, hstore⟩ := SequencerCore.buildBlockFromMempool_eq_ok h.height hbuild
    have hpublished : ∀ b' ∈ (if publishes then some b else none), b' = b := by
      intro b' hb'
      split at hb'
      · exact (Option.some.inj hb').symm
      · cases hb'
    rcases update with e | ⟨⟩
    · exact h.publish core ⟨by rw [hstore], by rw [hstore], hstore ▸ h.latest⟩ hheight hid
        hpublished
    · refine h.publish { core with store := core.store.update b Bytes32.zero core.state }
        ⟨?_, ?_, ?_⟩ hheight hid hpublished
      · change (core.store.dbio.atomicUpdate b Bytes32.zero core.state).firstBlockInDb = _
        rw [hstore, SequencerDb.atomicUpdate]
        split
        · rfl
        · rfl
      · have hne : genesisBlockId.toNat ≠ b.header.blockId.toNat := by
          have hone : genesisBlockId.toNat = 1 := rfl
          have hheight := h.height
          omega
        change (core.store.dbio.atomicUpdate b Bytes32.zero core.state).blocks.lookup _ = _
        rw [hstore, SequencerDb.atomicUpdate]
        split
        · exact AList.lookup_insert_ne hne
        · exact AList.lookup_insert_ne hne
      · change 0 < (core.store.dbio.atomicUpdate b Bytes32.zero core.state).latestBlockMeta.id.toNat
        rw [hstore, SequencerDb.atomicUpdate]
        split
        · rw [hid]
          exact Nat.succ_pos _
        · exact h.latest

omit [Zkvm] [Schnorr] [Signing] [BuiltinPrograms] [InstructionCodec Clock.Instruction] in
/-- **Step.**  A restart that finds all published blocks. -/
theorem Unequivocal.restart (h : Unequivocal genesisBlock s)
    (hgenesis : genesisBlock.header.blockId = genesisBlockId) (hlost : s.NothingLost)
    {config : SequencerConfig} {publishes : Bool} (hrestart : s.restart config publishes = .ok s') :
    Unequivocal genesisBlock s' := by
  obtain ⟨core, hcore, hrest⟩ := bind_eq_ok.1 hrestart
  obtain ⟨b, hb, ⟨⟩⟩ := bind_eq_ok.1 hrest
  obtain ⟨hheight, hdbio, hid, _⟩ := SequencerCore.restart_eq_ok hcore
  rw [expect_eq_ok, hid, h.first] at hb
  have hmem : ∀ b' ∈ s.published ++ (if s.checkpoint = false ∧ publishes = true then [b] else []),
      b' ∈ s.published ∨ b' = genesisBlock := by
    intro b' hb'
    rcases List.mem_append.1 hb' with hb' | hb'
    · exact .inl hb'
    · split at hb'
      · rename_i hpublish
        obtain rfl := List.mem_singleton.1 hb'
        obtain ⟨g, hg, hpending⟩ := h.genesis
        obtain rfl := Option.some.inj (hb.symm.trans hg)
        exact .inr (hpending (hlost.genesis hpublish.1 b' hb))
      · cases hb'
  refine ⟨hdbio ▸ h.first, hdbio ▸ h.genesis, hdbio ▸ h.latest, hheight ▸ h.latest, ?_, ?_, ?_⟩
  · intro b' hb'
    rw [hheight]
    rcases hmem b' hb' with hb' | rfl
    · exact hlost.reached b' hb'
    · rw [hgenesis]
      exact h.latest
  · intro b₁ hb₁ b₂ hb₂ heq
    rcases hmem b₁ hb₁ with hb₁ | rfl
    · rcases hmem b₂ hb₂ with hb₂ | rfl
      · exact h.unique b₁ hb₁ b₂ hb₂ heq
      · exact h.genesis_published b₁ hb₁ (heq.trans hgenesis)
    · rcases hmem b₂ hb₂ with hb₂ | rfl
      · exact (h.genesis_published b₂ hb₂ (heq.symm.trans hgenesis)).symm
      · rfl
  · intro b' hb' heq
    rcases hmem b' hb' with hb' | rfl
    · exact h.genesis_published b' hb' heq
    · rfl

/-- **Step.**  A safe step does not publish a second block with the id of another. -/
theorem Unequivocal.step (h : Unequivocal genesisBlock s)
    (hgenesis : genesisBlock.header.blockId = genesisBlockId) {e : ProcessEvent}
    (hstep : s.SafeStep e s') : Unequivocal genesisBlock s' := by
  obtain ⟨hstep, hsafe⟩ := hstep
  cases e with
  | push tx =>
      cases hstep
      exact ⟨h.first, h.genesis, h.latest, h.height, h.below, h.unique, h.genesis_published⟩
  | produce now publishes update =>
      cases hstep
      exact h.produce now publishes update
  | restart config publishes =>
      exact h.restart hgenesis (hsafe config publishes rfl) hstep
  | storeCheckpoint =>
      cases hstep
      exact ⟨h.first, h.genesis, h.latest, h.height, h.below, h.unique, h.genesis_published⟩
  | markFinalized blockId =>
      obtain ⟨dbio, hmark, rfl⟩ := hstep
      exact h.finalize hmark

/-- **Start.** -/
theorem unequivocal_start [InstructionCodec Faucet.Instruction] {init : V03State}
    {config : SequencerConfig} {publishes : Bool} (h : start init config publishes = .ok s) :
    ∃ genesisBlock, genesisBlock.header.blockId = genesisBlockId ∧ Unequivocal genesisBlock s := by
  obtain ⟨⟨core, genesisBlock⟩, hcore, ⟨⟩⟩ := bind_eq_ok.1 h
  obtain ⟨⟨state, txs⟩, _, ⟨⟩⟩ := bind_eq_ok.1 hcore
  refine ⟨_, rfl, rfl, ⟨_, AList.lookup_insert _, fun _ => rfl⟩, Nat.one_pos, Nat.one_pos, ?_, ?_,
    ?_⟩
  · intro b hb
    split at hb
    · rw [List.mem_singleton.1 hb]
      exact le_rfl
    · cases hb
  · intro b hb b' hb' _
    split at hb
    · rw [if_pos ‹_›] at hb'
      rw [List.mem_singleton.1 hb, List.mem_singleton.1 hb']
    · cases hb
  · intro b hb _
    split at hb
    · exact List.mem_singleton.1 hb
    · cases hb

/-- **No equivocation.**  In every run from a fresh start whose restarts find a database that has
reached the published blocks, published blocks with the same id are equal. -/
theorem published_blocks_unique [InstructionCodec Faucet.Instruction] {init : V03State}
    {config : SequencerConfig} {publishes : Bool} {s₀ : SequencerProcess}
    {events : List ProcessEvent} (hstart : start init config publishes = .ok s₀)
    (hrun : Run SafeStep s₀ events s) :
    ∀ b ∈ s.published, ∀ b' ∈ s.published, b.header.blockId = b'.header.blockId → b = b' := by
  obtain ⟨genesisBlock, hgenesis, h₀⟩ := unequivocal_start hstart
  have h : Unequivocal genesisBlock s :=
    hrun.invariant h₀ fun s e s' h hstep => h.step hgenesis hstep
  exact h.unique

/-- **Equivocation.**  Where a restart finds a database that ends before a published block, the
next block, published at another time, is a second one with its id. -/
theorem equivocates_of_lost_block {config : SequencerConfig} {publishes : Bool} {b b' : Block}
    {now : Timestamp} (hb : b ∈ s.published)
    (hlost : b.header.blockId.toNat = s.core.store.dbio.latestBlockMeta.id.toNat + 1)
    (hpos : 0 < s.core.store.dbio.latestBlockMeta.id.toNat)
    (hrestart : s.restart config publishes = .ok s')
    (hbuild : (s'.core.buildBlockFromMempool now).2 = .ok b') (hnow : now ≠ b.header.timestamp)
    (update : Except DbError Unit) :
    ∃ s'', s'.Step (.produce now true update) s'' ∧ b ∈ s''.published ∧ b' ∈ s''.published ∧
      b.header.blockId = b'.header.blockId ∧ b ≠ b' := by
  obtain ⟨core, hcore, hrest⟩ := bind_eq_ok.1 hrestart
  obtain ⟨_, _, ⟨⟩⟩ := bind_eq_ok.1 hrest
  obtain ⟨hheight, _⟩ := SequencerCore.restart_eq_ok hcore
  rcases hcore' : core.buildBlockFromMempool now with ⟨core₁, result⟩
  obtain rfl : result = .ok b' := by rwa [hcore'] at hbuild
  obtain ⟨_, hid, _⟩ := SequencerCore.buildBlockFromMempool_eq_ok (hheight ▸ hpos) hcore'
  refine ⟨_, rfl, ?_, ?_, ?_, ?_⟩
  · exact List.mem_append_left _ (List.mem_append_left _ hb)
  · refine List.mem_append_right _ ?_
    rw [SequencerCore.published_of_buildBlockFromMempool hbuild update]
    exact List.mem_singleton_self b'
  · rw [hheight] at hid
    exact UInt64.toNat_inj.1 (hlost.trans hid.symm)
  · rintro rfl
    exact hnow (SequencerCore.timestamp_of_buildBlockFromMempool hbuild).symm

end SequencerProcess

end

/-! ## Concrete processes -/

namespace LostBlock

/-- A process that has published its genesis block. -/
def started : SequencerProcess :=
  ⟨(FreshStart.sequencer HalfwayBlock.genesis).1, false,
    [(FreshStart.sequencer HalfwayBlock.genesis).2]⟩

theorem start_eq :
    let _ := Sample.sha256; let _ := Sample.zkvm Sample.clockScript; let _ := Sample.schnorr
    let _ := Sample.signing; let _ := Sample.builtins; let _ := Sample.clockCodec
    let _ := Sample.faucetCodec
    SequencerProcess.start HalfwayBlock.genesis FreshStart.config true = .ok started := by
  intro _ _ _ _ _ _ _
  exact bind_eq_ok.2 ⟨_, FreshStart.start_eq, rfl⟩

/-- The process after a block that was published. -/
def stopped (update : Except DbError Unit) : SequencerProcess :=
  let _ := Sample.sha256; let _ := Sample.zkvm Sample.clockScript; let _ := Sample.schnorr
  let _ := Sample.signing; let _ := Sample.builtins; let _ := Sample.clockCodec
  started.produce 7 true update

theorem step_produce (update : Except DbError Unit) :
    let _ := Sample.sha256; let _ := Sample.zkvm Sample.clockScript; let _ := Sample.schnorr
    let _ := Sample.signing; let _ := Sample.builtins; let _ := Sample.clockCodec
    started.Step (.produce 7 true update) (stopped update) := by
  intro _ _ _ _ _ _
  exact SequencerProcess.step_produce _ _ _ _

def failure : Except DbError Unit := .error ⟨"Failed to udpate db with block 2", none⟩

end LostBlock

/-- The database of a process is restarted after the block of time 7: both blocks are published,
and they are equal if their ids are. -/
theorem published_blocks_unique_restart :
    let _ := Sample.sha256; let _ := Sample.zkvm Sample.clockScript; let _ := Sample.schnorr
    let _ := Sample.signing; let _ := Sample.builtins; let _ := Sample.clockCodec
    let _ := Sample.faucetCodec
    ∃ s₀ s, SequencerProcess.start HalfwayBlock.genesis FreshStart.config true = .ok s₀ ∧
      Run SequencerProcess.SafeStep s₀
        [.produce 7 true (.ok ()), .restart FreshStart.config true] s ∧
      s.published.map (·.header.blockId) = [1, 2, 1] ∧
      ∀ b ∈ s.published, ∀ b' ∈ s.published, b.header.blockId = b'.header.blockId → b = b' := by
  intro _ _ _ _ _ _ _
  obtain ⟨hok, hids, hreached, hgenesis⟩ :
      ((LostBlock.stopped (.ok ())).restart FreshStart.config true).isOk = true ∧
      ((LostBlock.stopped (.ok ())).restart FreshStart.config true).map
        (fun s => s.published.map (·.header.blockId)) = .ok [1, 2, 1] ∧
      (∀ b ∈ (LostBlock.stopped (.ok ())).published,
        b.header.blockId ≤ (LostBlock.stopped (.ok ())).core.store.dbio.latestBlockMeta.id) ∧
      ∀ b ∈ (LostBlock.stopped (.ok ())).core.store.dbio.blocks.lookup genesisBlockId.toNat,
        b.bedrockStatus = .pending := by
    decide +kernel
  obtain ⟨s, hs⟩ := exists_of_isOk hok
  have hlost : (LostBlock.stopped (.ok ())).NothingLost := ⟨hreached, fun _ => hgenesis⟩
  have hproduce : LostBlock.started.SafeStep (.produce 7 true (.ok ()))
      (LostBlock.stopped (.ok ())) := ⟨LostBlock.step_produce _, fun _ _ h => by cases h⟩
  have hrun := (Run.nil.snoc hproduce).snoc
    (show SequencerProcess.SafeStep _ (.restart FreshStart.config true) s from
      ⟨hs, fun _ _ _ => hlost⟩)
  rw [hs] at hids
  exact ⟨_, s, LostBlock.start_eq, hrun, Except.ok.inj hids,
    SequencerProcess.published_blocks_unique LostBlock.start_eq hrun⟩

/-- The store fails after the block of time 7 was published.  The process is restarted and
publishes a block of time 8 with the same id. -/
theorem lost_block_is_replaced :
    let _ := Sample.sha256; let _ := Sample.zkvm Sample.clockScript; let _ := Sample.schnorr
    let _ := Sample.signing; let _ := Sample.builtins; let _ := Sample.clockCodec
    let _ := Sample.faucetCodec
    ∃ s₀ s b b', SequencerProcess.start HalfwayBlock.genesis FreshStart.config true = .ok s₀ ∧
      Run SequencerProcess.Step s₀ [.produce 7 true LostBlock.failure,
        .restart FreshStart.config true, .produce 8 true (.ok ())] s ∧
      b ∈ s.published ∧ b' ∈ s.published ∧ b.header.blockId = b'.header.blockId ∧ b ≠ b' := by
  intro _ _ _ _ _ _ _
  obtain ⟨hbuilt, hid, hlatest, hok⟩ :
      (LostBlock.started.core.buildBlockFromMempool 7).2.isOk = true ∧
      (LostBlock.started.core.buildBlockFromMempool 7).2.map (·.header.blockId.toNat) = .ok 2 ∧
      (LostBlock.stopped LostBlock.failure).core.store.dbio.latestBlockMeta.id.toNat = 1 ∧
      ((LostBlock.stopped LostBlock.failure).restart FreshStart.config true >>= fun s =>
        (s.core.buildBlockFromMempool 8).2.mapError fun _ => "").isOk = true := by
    decide +kernel
  obtain ⟨b, hb⟩ := exists_of_isOk hbuilt
  obtain ⟨b', hrun⟩ := exists_of_isOk hok
  obtain ⟨s, hrestart, hb'⟩ := bind_eq_ok.1 hrun
  rw [hb] at hid
  have hmem : b ∈ (LostBlock.stopped LostBlock.failure).published := by
    refine List.mem_append_right _ ?_
    rw [SequencerCore.published_of_buildBlockFromMempool hb]
    exact List.mem_singleton_self b
  have hnow : (8 : Timestamp) ≠ b.header.timestamp := by
    rw [SequencerCore.timestamp_of_buildBlockFromMempool hb]
    decide
  obtain ⟨s', hstep, hmem, hmem', heq, hne⟩ :=
    SequencerProcess.equivocates_of_lost_block hmem
      ((Except.ok.inj hid).trans (congrArg (· + 1) hlatest.symm)) (hlatest ▸ Nat.one_pos)
      hrestart (mapError_eq_ok.1 hb') hnow (.ok ())
  exact ⟨_, s', b, b', LostBlock.start_eq, ((Run.nil.snoc (LostBlock.step_produce _)).snoc
    (show SequencerProcess.Step _ (.restart FreshStart.config true) s from hrestart)).snoc hstep,
    hmem, hmem', heq, hne⟩

end ExecutionZone
