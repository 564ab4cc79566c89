import ExecutionZone.Lib.Channel
import ExecutionZone.Node.ChainCommitment

/-!
# The indexer reads the channel

The sequencer publishes its blocks on a channel, as bytes.  `subscribe_parse_block_stream` reads
the channel from a cursor on: it decodes each inscription, stores the block if there is one and
moves the cursor past it, whether or not the block could be decoded or stored.  Other messages on
the channel carry no cursor and are skipped.  The cursor is also kept in the database, where a
restarted indexer finds it.

`ingestion_agreement` is about the two nodes and the channel together, in any interleaving of their
steps: with other messages on the channel, with polls at any time and with restarts that find the
last cursor, the indexer goes on, its state is the one after the blocks it has received, and what it
would receive next are the other blocks of the sequencer.  So once nothing is left to be received
the states are equal.

This needs an environment that is `Admissible`.  A block that could not be published is lost, and
the genesis block is published again by a sequencer that is restarted before a checkpoint is stored;
an indexer would store such a block, or one that somebody else has inscribed, or one it has stored
before it lost its cursor, on top of the blocks it has.
-/

namespace ExecutionZone

open Channel

/-! ## Blocks of fitting transactions fit -/

theorem NSSATransaction.one_le_length_toBytes (tx : NSSATransaction) : 1 ≤ tx.toBytes.length := by
  cases tx with
  | publicTx tx => exact Nat.succ_pos _
  | privacyPreserving tx => exact Nat.succ_pos _
  | programDeployment tx => exact Nat.succ_pos _

/-- A block has at most as many transactions as bytes. -/
theorem HashableBlockData.length_transactions_le (data : HashableBlockData) :
    data.transactions.length ≤ data.toBytes.length := by
  rw [HashableBlockData.length_toBytes]
  have hsum : data.transactions.length ≤ (data.transactions.map (·.toBytes.length)).sum := by
    induction data.transactions with
    | nil => exact Nat.le_refl 0
    | cons tx txs ih =>
        rw [List.length_cons, List.map_cons, List.sum_cons, Nat.add_comm]
        exact Nat.add_le_add tx.one_le_length_toBytes ih
  omega

section

variable [VerifyingKeys] [Sha256] [Zkvm] [Schnorr] [BuiltinPrograms]
  [InstructionCodec Clock.Instruction]

omit [Sha256] [Zkvm] [Schnorr] in
/-- The clock invocation fits, where the words of a timestamp are counted by four bytes. -/
theorem fits_clockInvocation
    (hwords : ∀ timestamp : Clock.Instruction, (InstructionCodec.toVec timestamp).length < 2 ^ 32)
    (timestamp : Timestamp) : (clockInvocation timestamp).Fits where
  accountIds := by
    change clockProgramAccountIds.length < _
    decide
  nonces := Nat.two_pow_pos 32
  instructionData := hwords timestamp
  signatures := ⟨Nat.two_pow_pos 32, List.forall_mem_nil _⟩

variable {config : SequencerConfig} {blockId : BlockId} {prevBlockHash : Bytes32}
  {timestamp : Timestamp} {s s' : Selection} {outcomes : List Outcome}

/-- **Run.**  The transactions that are selected, and those that stay in the mempool, were in the
mempool before. -/
theorem fits_of_turns (h : Run (FillTurn config blockId prevBlockHash timestamp) s outcomes s')
    (hpool : ∀ tx ∈ s.mempool.items, tx.Fits) (hvalid : ∀ tx ∈ s.validTransactions, tx.Fits) :
    (∀ tx ∈ s'.mempool.items, tx.Fits) ∧ ∀ tx ∈ s'.validTransactions, tx.Fits := by
  induction h with
  | nil => exact ⟨hpool, hvalid⟩
  | snoc _ hturn ih =>
      obtain ⟨hpool, hvalid⟩ := ih
      cases hturn with
      | included hpop _ _ _ =>
          rw [MemPool.items_of_pop hpop, List.forall_mem_cons] at hpool
          refine ⟨hpool.2, fun tx htx => ?_⟩
          rcases List.mem_append.1 htx with htx | htx
          · exact hvalid tx htx
          · rw [List.mem_singleton.1 htx]
            exact hpool.1
      | rejected hpop _ =>
          rw [MemPool.items_of_pop hpop, List.forall_mem_cons] at hpool
          exact ⟨hpool.2, hvalid⟩

omit [VerifyingKeys] [Sha256] [Zkvm] [Schnorr] in
theorem FillEnd.forall_items (h : FillEnd config blockId prevBlockHash timestamp s s')
    {P : NSSATransaction → Prop} (hpool : ∀ tx ∈ s.mempool.items, P tx) :
    ∀ tx ∈ s'.mempool.items, P tx := by
  cases h with
  | stopped => exact hpool
  | deferred hpop _ =>
      rw [MemPool.items_of_pop hpop] at hpool
      exact hpool

variable [Signing] {core core' : SequencerCore} {b : Block} {now : Timestamp}

/-- A block that is built from transactions that fit can be read back from its bytes. -/
theorem SequencerCore.fits_of_build
    (hwords : ∀ timestamp : Clock.Instruction, (InstructionCodec.toVec timestamp).length < 2 ^ 32)
    (hsize : core.sequencerConfig.maxBlockSize < 2 ^ 32)
    (hpool : ∀ tx ∈ core.mempool.items, tx.Fits)
    (h : core.buildBlockFromMempool now = (core', .ok b)) :
    TransactionsFit b.transactions ∧ ∀ tx ∈ core'.mempool.items, tx.Fits := by
  obtain ⟨s, _, hs, _, _, htransactions, hcore'⟩ := exists_selection_of_build h
  obtain ⟨outcomes, s₁, hrun, hend, _⟩ := exists_run_of_fillBlock hs
  obtain ⟨hpool₁, hvalid⟩ := fits_of_turns hrun hpool (List.forall_mem_nil _)
  rw [← hend.kept.2] at hvalid
  have hmempool : core'.mempool = s.mempool := congrArg SequencerCore.mempool hcore'
  rw [htransactions, hmempool]
  refine ⟨⟨?_, fun tx htx => ?_⟩, hend.forall_items hpool₁⟩
  · by_cases hne : s.validTransactions = []
    · rw [hne]
      exact Nat.one_lt_two_pow (by decide)
    · have hbytes := fits_of_fillTurns hrun rfl (hend.kept.2 ▸ hne)
      rw [← hend.kept.2] at hbytes
      have hcount := HashableBlockData.length_transactions_le ⟨b.header.blockId,
        b.header.prevBlockHash, now, s.validTransactions ++ [.publicTx (clockInvocation now)]⟩
      exact Nat.lt_of_le_of_lt hcount (Nat.lt_of_le_of_lt hbytes hsize)
  · rcases List.mem_append.1 htx with htx | htx
    · exact hvalid tx htx
    · rw [List.mem_singleton.1 htx]
      exact fits_clockInvocation hwords now

end

/-! ## The channel -/

abbrev Slot := UInt64

/-- What identifies a position of the channel: the id of an inscription and its slot. -/
abbrev Cursor := Bytes32 × Slot

/-- `ZoneMessage`. -/
inductive ZoneMessage where
  | block (id : Bytes32) (data : Bytes)
  | deposit
  | withdraw
deriving DecidableEq

/-- Only inscriptions carry a cursor. -/
def cursorOf : ZoneMessage × Slot → Option Cursor
  | (.block id _, slot) => some (id, slot)
  | _ => none

/-- The block in a message. -/
def blockOf [VerifyingKeys] : ZoneMessage × Slot → Option Block
  | (.block _ data, _) => Block.fromSlice data
  | _ => none

theorem blockOf_eq_none [VerifyingKeys] {msg : ZoneMessage × Slot} (h : cursorOf msg = none) :
    blockOf msg = none := by
  obtain ⟨_ | _ | _, slot⟩ := msg
  · cases h
  · rfl
  · rfl

/-- Messages without a cursor hold no blocks. -/
theorem filterMap_blockOf_eq_nil [VerifyingKeys] {msgs : List (ZoneMessage × Slot)}
    (h : ∀ msg ∈ msgs, cursorOf msg = none) : msgs.filterMap blockOf = [] :=
  List.filterMap_eq_nil_iff.2 fun msg hmsg => blockOf_eq_none (h msg hmsg)

theorem map_hashableData_finalized (blocks : List Block) :
    (blocks.map Block.finalized).map Block.hashableData = blocks.map Block.hashableData := by
  rw [List.map_map]
  rfl

/-- `IndexerCore`, within `subscribe_parse_block_stream`: the store, the cursor, what is left of the
current stream of messages, and the cursor in the database. -/
structure IndexerCore where
  store : IndexerStore
  cursor : Option Cursor
  stream : List (ZoneMessage × Slot)
  zoneCursor : Option Cursor

namespace IndexerCore

/-- The cursor moves on.  A failure to persist it is only logged. -/
def setZoneCursor (c : IndexerCore) (cursor : Cursor) (persists : Bool) : IndexerCore :=
  { c with
    cursor := some cursor
    zoneCursor := if persists then some cursor else c.zoneCursor }

/-- The stream that `next_messages` returns: messages after the cursor, up to the last one that is
final. -/
def poll (c : IndexerCore) (channel : List (ZoneMessage × Slot)) (count : Nat) : IndexerCore :=
  { c with stream := (after cursorOf channel c.cursor).take count }

section

variable [VerifyingKeys] [Sha256] [Zkvm] [Schnorr] [BuiltinPrograms]
  [InstructionCodec Clock.Instruction]

/-- What the loop of `subscribe_parse_block_stream` does with a message.  An error of `put_block`
is only logged. -/
def receive (c : IndexerCore) (msg : ZoneMessage × Slot) (persists : Bool) :
    Except Panic IndexerCore :=
  match msg with
  | (.block id data, slot) =>
      match Block.fromSlice data with
      | none => .ok (c.setZoneCursor (id, slot) persists)
      | some block =>
          match c.store.putBlock block Bytes32.zero with
          | (_, .error (.panic text)) => .error text
          | (store, _) => .ok ({ c with store }.setZoneCursor (id, slot) persists)
  | _ => .ok c

/-- `new`, on the database of an indexer. -/
def restart (c : IndexerCore) (init : V03State) : DbResult IndexerCore := do
  let store ← IndexerStore.openDb c.store.dbio init
  return ⟨store, c.zoneCursor, [], c.zoneCursor⟩

end

end IndexerCore

/-! ## The nodes and the channel -/

/-- A sequencer, whether there is a checkpoint in its database, an indexer and the channel between
them. -/
structure ZoneSystem where
  core : SequencerCore
  checkpoint : Bool
  channel : List (ZoneMessage × Slot)
  indexer : IndexerCore

/-- What happens in the system.  An event of the sequencer comes with the position at which its
block is inscribed, if there is one, and whether publishing it succeeds. -/
inductive ZoneEvent where
  | sequencer (e : SequencerEvent) (position : Cursor) (publishes : Bool)
  | storeCheckpoint
  | inscribe (msg : ZoneMessage × Slot)
  | poll (count : Nat)
  | receive (persists : Bool)
  | restart

/-- The events of the sequencer. -/
def sequencerEvents (events : List ZoneEvent) : List SequencerEvent :=
  events.filterMap fun
    | .sequencer e _ _ => some e
    | _ => none

namespace ZoneSystem

section

variable [VerifyingKeys] [Sha256] [Zkvm] [Schnorr] [Signing] [BuiltinPrograms]
  [InstructionCodec Clock.Instruction]

omit [VerifyingKeys] [Sha256] [Zkvm] [Schnorr] [Signing] [BuiltinPrograms]
  [InstructionCodec Clock.Instruction] in
/-- A block is inscribed as its bytes. -/
def inscription (position : Cursor) (b : Block) : ZoneMessage × Slot :=
  (.block position.1 b.toBytes, position.2)

omit [Sha256] [Zkvm] [Schnorr] [Signing] [BuiltinPrograms] [InstructionCodec Clock.Instruction] in
theorem blockOf_inscription {b : Block} (h : TransactionsFit b.transactions) (position : Cursor) :
    blockOf (inscription position b) = some b := Block.fromSlice_toBytes h

omit [VerifyingKeys] [Sha256] [Zkvm] [Schnorr] [Signing] [BuiltinPrograms]
  [InstructionCodec Clock.Instruction] in
/-- What a sequencer publishes when it has become `core`: the block it has produced and, if it is
restarted without a checkpoint, the genesis block in its database. -/
def published (s : ZoneSystem) (core : SequencerCore) : SequencerEvent → List Block
  | .produce _ b => [b]
  | .restart _ =>
      if s.checkpoint then []
      else (core.store.dbio.blocks.lookup core.store.genesisId.toNat).toList
  | _ => []

omit [VerifyingKeys] [Sha256] [Zkvm] [Schnorr] [Signing] [BuiltinPrograms]
  [InstructionCodec Clock.Instruction] in
def inscribed (s : ZoneSystem) (core : SequencerCore) (e : SequencerEvent) (position : Cursor)
    (publishes : Bool) : List (ZoneMessage × Slot) :=
  if publishes then (s.published core e).map (inscription position) else []

/-- The steps of the system. -/
def Step (init : V03State) (s : ZoneSystem) : ZoneEvent → ZoneSystem → Prop
  | .sequencer e position publishes, s' => ∃ core, s.core.Step e core ∧
      s' = { s with core, channel := s.channel ++ s.inscribed core e position publishes }
  | .storeCheckpoint, s' => s' = { s with checkpoint := true }
  | .inscribe msg, s' => s' = { s with channel := s.channel ++ [msg] }
  | .poll count, s' =>
      s.indexer.stream = [] ∧ s' = { s with indexer := s.indexer.poll s.channel count }
  | .receive persists, s' => ∃ msg stream indexer, s.indexer.stream = msg :: stream ∧
      { s.indexer with stream }.receive msg persists = .ok indexer ∧ s' = { s with indexer }
  | .restart, s' => ∃ indexer, s.indexer.restart init = .ok indexer ∧ s' = { s with indexer }

/-- What the environment may do: transactions that arrive were decoded from bytes, the blocks that
are produced are published, a sequencer that is restarted finds a checkpoint or cannot publish,
other inscriptions are not blocks, and an indexer is restarted with the last cursor in its database
and before the first breakpoint. -/
def Admissible (s : ZoneSystem) : ZoneEvent → Prop
  | .sequencer (.push tx) _ _ => tx.Fits
  | .sequencer (.produce ..) _ publishes => publishes = true
  | .sequencer (.restart config) _ publishes =>
      config.maxBlockSize < 2 ^ 32 ∧ (publishes = true → s.checkpoint = true)
  | .inscribe msg => blockOf msg = none
  | .restart => s.indexer.zoneCursor = s.indexer.cursor ∧
      s.indexer.store.dbio.lastBlockId < breakpointInterval
  | _ => True

/-- After the start of the sequencer, with an indexer on an empty directory. -/
def start (core : SequencerCore) (genesisBlock : Block) (position : Cursor) (init : V03State) :
    ZoneSystem :=
  ⟨core, false, [inscription position genesisBlock],
    ⟨⟨IndexerDb.fresh init, init⟩, none, [], none⟩⟩

/-! ## The invariant -/

/-- What the sequencer keeps. -/
structure Publishes (init : V03State) (blocks : List Block) (s : ZoneSystem) : Prop where
  sequenced : s.core.Sequenced init blocks
  size : s.core.sequencerConfig.maxBlockSize < 2 ^ 32
  mempool : ∀ tx ∈ s.core.mempool.items, tx.Fits
  channel : s.channel.filterMap blockOf = blocks

/-- What the indexer keeps: the channel is what it has read, what is left of its stream, and more;
its cursor is the last one it has read, and its store holds the blocks it has read. -/
structure Reads (init : V03State) (channel : List (ZoneMessage × Slot)) (c : IndexerCore) :
    Prop where
  split : ∃ read rest, channel = read ++ c.stream ++ rest ∧ c.cursor = lastMark cursorOf read ∧
    c.store.Synced init ((read.filterMap blockOf).map Block.finalized)
      ((read.filterMap blockOf).length / breakpointInterval)

variable {init : V03State} {blocks : List Block} {s s' : ZoneSystem} {c c' : IndexerCore}
  {channel : List (ZoneMessage × Slot)}

omit [Sha256] [Zkvm] [Schnorr] [Signing] [BuiltinPrograms] [InstructionCodec Clock.Instruction] in
/-- The block that is produced is inscribed, and no other one. -/
theorem inscribed_of_admissible {e : SequencerEvent} {position : Cursor} {publishes : Bool}
    (h : s.Admissible (.sequencer e position publishes)) (core : SequencerCore) :
    s.inscribed core e position publishes = e.block.toList.map (inscription position) := by
  unfold inscribed
  cases e with
  | push tx => exact ite_self _
  | produce now b =>
      obtain rfl : publishes = true := h
      rfl
  | restart config =>
      split
      · rename_i hpublishes
        rw [published, if_pos (h.2 hpublishes)]
        rfl
      · rfl
  | finalize lastFinalized => exact ite_self _

omit [Signing] in
/-- Nothing changes for the sequencer while no block is produced or inscribed. -/
theorem Publishes.idle (h : Publishes init blocks s) (hcore : s'.core = s.core)
    (hchannel : s'.channel.filterMap blockOf = s.channel.filterMap blockOf) :
    Publishes init (blocks ++ []) s' := by
  rw [List.append_nil]
  exact ⟨hcore ▸ h.sequenced, hcore ▸ h.size, hcore ▸ h.mempool, hchannel.trans h.channel⟩

/-- **Step.**  A step of the sequencer publishes the block it produces. -/
theorem Publishes.sequencer
    (hwords : ∀ timestamp : Clock.Instruction, (InstructionCodec.toVec timestamp).length < 2 ^ 32)
    (h : Publishes init blocks s) {e : SequencerEvent} {position : Cursor} {publishes : Bool}
    {core : SequencerCore} (hstep : s.core.Step e core)
    (hadmissible : s.Admissible (.sequencer e position publishes)) :
    Publishes init (blocks ++ e.block.toList)
      { s with core, channel := s.channel ++ s.inscribed core e position publishes } := by
  have hsequenced := h.sequenced.step hstep
  rw [inscribed_of_admissible hadmissible]
  cases e with
  | push tx =>
      cases hstep
      refine ⟨hsequenced, h.size, fun tx' htx' => ?_, ?_⟩
      · rw [MemPool.items_push] at htx'
        rcases List.mem_append.1 htx' with htx' | htx'
        · exact h.mempool tx' htx'
        · rw [List.mem_singleton.1 htx']
          exact hadmissible
      · rw [List.filterMap_append, h.channel]
        rfl
  | produce now b =>
      obtain ⟨hbuild, height, hproduce⟩ := hstep
      rcases hcore : s.core.buildBlockFromMempool now with ⟨core₁, result⟩
      obtain rfl : result = .ok b := by rwa [hcore] at hbuild
      obtain ⟨hfits, hmempool⟩ := SequencerCore.fits_of_build hwords h.size h.mempool hcore
      obtain ⟨_, _, _, _, _, _, hcore₁⟩ := SequencerCore.exists_selection_of_build hcore
      rw [SequencerCore.produceNewBlock, hcore] at hproduce
      cases hproduce
      refine ⟨hsequenced, ?_, hmempool, ?_⟩
      · change core₁.sequencerConfig.maxBlockSize < _
        rw [hcore₁]
        exact h.size
      · rw [List.filterMap_append, h.channel]
        change blocks ++ [inscription position b].filterMap blockOf = blocks ++ [b]
        rw [List.filterMap_cons_some (blockOf_inscription hfits position), List.filterMap_nil]
  | restart config =>
      obtain ⟨store, _, hrest⟩ := bind_eq_ok.1 hstep
      obtain ⟨_, _, ⟨⟩⟩ := bind_eq_ok.1 hrest
      refine ⟨hsequenced, hadmissible.1, fun tx htx => absurd htx List.not_mem_nil, ?_⟩
      rw [List.filterMap_append, h.channel]
      rfl
  | finalize lastFinalized =>
      obtain ⟨dbio, _, rfl⟩ := hstep
      refine ⟨hsequenced, h.size, h.mempool, ?_⟩
      rw [List.filterMap_append, h.channel]
      rfl

omit [Signing] in
/-- The channel grows at its end. -/
theorem Reads.append (h : Reads init channel c) (msgs : List (ZoneMessage × Slot)) :
    Reads init (channel ++ msgs) c := by
  obtain ⟨read, rest, rfl, hcursor, hsynced⟩ := h.split
  exact ⟨read, rest ++ msgs, List.append_assoc _ _ _, hcursor, hsynced⟩

omit [Signing] in
/-- **Step.**  A new stream goes on after the last inscription. -/
theorem Reads.poll (h : Reads init channel c) (hempty : c.stream = [])
    (hnodup : (channel.filterMap cursorOf).Nodup) (count : Nat) :
    Reads init channel (c.poll channel count) := by
  obtain ⟨read, rest, rfl, hcursor, hsynced⟩ := h.split
  rw [hempty, List.append_nil] at hnodup ⊢
  obtain ⟨before, unmarked, rfl, hunmarked, hafter⟩ := after_lastMark hnodup
  have hblocks : (before ++ unmarked).filterMap blockOf = before.filterMap blockOf := by
    rw [List.filterMap_append, filterMap_blockOf_eq_nil hunmarked, List.append_nil]
  have hmark : lastMark cursorOf (before ++ unmarked) = lastMark cursorOf before := by
    rw [lastMark, List.filterMap_append, List.filterMap_eq_nil_iff.2 hunmarked, List.append_nil]
    rfl
  rw [hblocks] at hsynced
  refine ⟨before, (unmarked ++ rest).drop count, ?_, hcursor.trans hmark, hsynced⟩
  rw [IndexerCore.poll, hcursor, hafter, List.append_assoc, List.append_assoc,
    List.take_append_drop]

omit [VerifyingKeys] [Signing] in
/-- The next block on the channel is accepted by the store. -/
theorem Reads.putBlock (hsequenced : s.core.Sequenced init blocks) {received pending : List Block}
    {b : Block} (hblocks : blocks = received ++ b :: pending)
    (hsynced : c.store.Synced init (received.map Block.finalized)
      (received.length / breakpointInterval)) :
    ∃ store, c.store.putBlock b Bytes32.zero = (store, .ok ()) ∧
      store.Synced init ((received ++ [b]).map Block.finalized)
        ((received ++ [b]).length / breakpointInterval) := by
  have hreceived := hsynced.current
  rw [replay_congr (map_hashableData_finalized received)] at hreceived
  have hcurrent := hsequenced.current
  rw [hblocks, Replay.replay_append_of_eq hreceived] at hcurrent
  obtain ⟨st, hst, _⟩ := Option.bind_eq_some_iff.1 hcurrent
  have hid : b.header.blockId.toNat = (received.map Block.finalized).length + 1 := by
    rw [List.length_map]
    refine hsequenced.ids received.length b ?_
    rw [hblocks, List.getElem?_append_right (Nat.le_refl _), Nat.sub_self]
    rfl
  obtain ⟨store, hput, _, hnext⟩ := hsynced.putBlock hid hst Bytes32.zero
  rw [List.length_map, Nat.add_sub_cancel' (Nat.div_le_div_right (Nat.le_succ _))] at hnext
  refine ⟨store, hput, ?_⟩
  rw [List.map_append, List.length_append]
  exact hnext

omit [Signing] in
/-- **Step.**  The next message is received. -/
theorem Reads.exists_receive (hsequenced : s.core.Sequenced init blocks)
    (hchannel : channel.filterMap blockOf = blocks) (h : Reads init channel c)
    {msg : ZoneMessage × Slot} {stream : List (ZoneMessage × Slot)}
    (hstream : c.stream = msg :: stream) (persists : Bool) :
    ∃ c', { c with stream }.receive msg persists = .ok c' ∧ c'.stream = stream ∧
      Reads init channel c' := by
  obtain ⟨read, rest, rfl, hcursor, hsynced⟩ := h.split
  rw [hstream] at hchannel ⊢
  have hsplit : read ++ msg :: stream ++ rest = read ++ [msg] ++ stream ++ rest := by
    simp only [List.append_assoc, List.cons_append, List.nil_append]
  rw [hsplit] at hchannel ⊢
  obtain ⟨_ | _ | _, slot⟩ := msg
  case block id data =>
    have hposition : cursorOf (.block id data, slot) = some (id, slot) := rfl
    have hmark := (lastMark_concat_some hposition (l := read)).symm
    rw [IndexerCore.receive]
    rcases hb : Block.fromSlice data with _ | b
    · have hmsg : blockOf (.block id data, slot) = none := hb
      refine ⟨_, rfl, rfl, _, rest, rfl, hmark, ?_⟩
      rw [List.filterMap_append, List.filterMap_cons_none hmsg, List.filterMap_nil, List.append_nil]
      exact hsynced
    · have hmsg : blockOf (.block id data, slot) = some b := hb
      have hblocks :
          blocks = read.filterMap blockOf ++ b :: (stream ++ rest).filterMap blockOf := by
        rw [← hchannel, List.append_assoc, List.append_assoc, List.filterMap_append,
          List.singleton_append, List.filterMap_cons_some hmsg]
      obtain ⟨store, hput, hnext⟩ := Reads.putBlock hsequenced hblocks hsynced
      simp only [hput]
      refine ⟨_, rfl, rfl, _, rest, rfl, hmark, ?_⟩
      rw [List.filterMap_append, List.filterMap_cons_some hmsg, List.filterMap_nil]
      exact hnext
  all_goals
    refine ⟨_, rfl, rfl, _, rest, rfl, hcursor.trans (lastMark_concat_none rfl).symm, ?_⟩
    rw [List.filterMap_append, List.filterMap_cons_none rfl, List.filterMap_nil, List.append_nil]
    exact hsynced

omit [Signing] in
/-- **Step.**  A restart finds the blocks and the cursor. -/
theorem Reads.restart (h : Reads init channel c) (hcursor : c.zoneCursor = c.cursor)
    (hearly : c.store.dbio.lastBlockId < breakpointInterval) (hrestart : c.restart init = .ok c') :
    Reads init channel c' := by
  obtain ⟨read, rest, rfl, hread, hsynced⟩ := h.split
  obtain ⟨store, hopen, ⟨⟩⟩ := bind_eq_ok.1 hrestart
  rw [hsynced.indexes.last, List.length_map] at hearly
  refine ⟨read, c.stream ++ rest, ?_, hcursor.trans hread, ?_⟩
  · simp only [List.append_nil, List.append_assoc]
  · rw [Nat.div_eq_of_lt hearly]
    exact hsynced.openDb hopen

/-- **Step.**  A step keeps both sides. -/
theorem step
    (hwords : ∀ timestamp : Clock.Instruction, (InstructionCodec.toVec timestamp).length < 2 ^ 32)
    (hpublishes : Publishes init blocks s) (hreads : Reads init s.channel s.indexer)
    (hnodup : (s.channel.filterMap cursorOf).Nodup) {e : ZoneEvent} (hstep : s.Step init e s')
    (hadmissible : s.Admissible e) :
    Publishes init (blocks ++ producedBlocks (sequencerEvents [e])) s' ∧
      Reads init s'.channel s'.indexer := by
  cases e with
  | sequencer e position publishes =>
      obtain ⟨core, hcore, rfl⟩ := hstep
      have hblocks : producedBlocks (sequencerEvents [.sequencer e position publishes]) =
          e.block.toList := by
        change producedBlocks ([] ++ [e]) = _
        rw [producedBlocks_concat]
        rfl
      rw [hblocks]
      exact ⟨hpublishes.sequencer hwords hcore hadmissible, hreads.append _⟩
  | storeCheckpoint =>
      cases hstep
      exact ⟨hpublishes.idle rfl rfl, hreads⟩
  | inscribe msg =>
      cases hstep
      have hnone : blockOf msg = none := hadmissible
      refine ⟨hpublishes.idle rfl ?_, hreads.append _⟩
      rw [List.filterMap_append, List.filterMap_cons_none hnone, List.filterMap_nil,
        List.append_nil]
  | poll count =>
      obtain ⟨hempty, rfl⟩ := hstep
      exact ⟨hpublishes.idle rfl rfl, hreads.poll hempty hnodup count⟩
  | receive persists =>
      obtain ⟨msg, stream, indexer, hstream, hreceive, rfl⟩ := hstep
      obtain ⟨c, hc, _, hnext⟩ :=
        hreads.exists_receive hpublishes.sequenced hpublishes.channel hstream persists
      cases hreceive.symm.trans hc
      exact ⟨hpublishes.idle rfl rfl, hnext⟩
  | restart =>
      obtain ⟨indexer, hrestart, rfl⟩ := hstep
      exact ⟨hpublishes.idle rfl rfl, hreads.restart hadmissible.1 hadmissible.2 hrestart⟩

/-- Messages stay on the channel. -/
theorem exists_channel_eq {e : ZoneEvent} (hstep : s.Step init e s') :
    ∃ msgs, s'.channel = s.channel ++ msgs := by
  cases e with
  | sequencer e position publishes =>
      obtain ⟨core, _, rfl⟩ := hstep
      exact ⟨_, rfl⟩
  | storeCheckpoint =>
      cases hstep
      exact ⟨[], (List.append_nil _).symm⟩
  | inscribe msg =>
      cases hstep
      exact ⟨_, rfl⟩
  | poll count =>
      obtain ⟨_, rfl⟩ := hstep
      exact ⟨[], (List.append_nil _).symm⟩
  | receive persists =>
      obtain ⟨_, _, _, _, _, rfl⟩ := hstep
      exact ⟨[], (List.append_nil _).symm⟩
  | restart =>
      obtain ⟨_, _, rfl⟩ := hstep
      exact ⟨[], (List.append_nil _).symm⟩

variable [InstructionCodec Faucet.Instruction] {config : SequencerConfig} {core : SequencerCore}
  {genesisBlock : Block} {position : Cursor} {events : List ZoneEvent}

/-- **Start.** -/
theorem publishes_start (hstart : SequencerCore.start init config = .ok (core, genesisBlock))
    (hsize : config.maxBlockSize < 2 ^ 32) (hfits : TransactionsFit genesisBlock.transactions) :
    Publishes init [genesisBlock] (start core genesisBlock position init) := by
  refine ⟨SequencerCore.sequenced_start hstart, ?_, ?_, ?_⟩
  · obtain ⟨_, _, ⟨⟩⟩ := bind_eq_ok.1 hstart
    exact hsize
  · obtain ⟨_, _, ⟨⟩⟩ := bind_eq_ok.1 hstart
    exact fun tx htx => absurd htx List.not_mem_nil
  · exact List.filterMap_cons_some (blockOf_inscription hfits position)

/-- **Run.** -/
theorem publishes_and_reads
    (hwords : ∀ timestamp : Clock.Instruction, (InstructionCodec.toVec timestamp).length < 2 ^ 32)
    (hstart : SequencerCore.start init config = .ok (core, genesisBlock))
    (hsize : config.maxBlockSize < 2 ^ 32) (hfits : TransactionsFit genesisBlock.transactions)
    (hrun : Run (fun s e s' => s.Step init e s' ∧ s.Admissible e)
      (start core genesisBlock position init) events s)
    (hnodup : (s.channel.filterMap cursorOf).Nodup) :
    Publishes init (genesisBlock :: producedBlocks (sequencerEvents events)) s ∧
      Reads init s.channel s.indexer := by
  induction hrun with
  | nil =>
      refine ⟨publishes_start hstart hsize hfits, [], _, rfl, rfl, ?_⟩
      change IndexerStore.Synced init [] (0 / breakpointInterval) _
      rw [Nat.zero_div]
      exact IndexerStore.synced_fresh init
  | @snoc events s e s' _ hstep ih =>
      obtain ⟨msgs, hchannel⟩ := exists_channel_eq hstep.1
      have hbefore : (s.channel.filterMap cursorOf).Nodup := by
        rw [hchannel, List.filterMap_append] at hnodup
        exact (List.nodup_append.1 hnodup).1
      obtain ⟨hpublishes, hreads⟩ := ih hbefore
      have hblocks : producedBlocks (sequencerEvents (events ++ [e])) =
          producedBlocks (sequencerEvents events) ++ producedBlocks (sequencerEvents [e]) := by
        rw [sequencerEvents, List.filterMap_append, producedBlocks, List.filterMap_append]
        rfl
      rw [hblocks]
      exact step hwords hpublishes hreads hbefore hstep.1 hstep.2

/-- **Agreement over the channel.**  Start a sequencer, and an indexer on an empty directory with
the same initial state, and let the two nodes and the channel take admissible steps in any order.
Then in every state the blocks of the sequencer are those the indexer has received, followed by
those it finds on the channel after its cursor; its current state, which is also the one recomputed from
its database, is the state after the received blocks; if it has received all of them it is the
state of the sequencer; and it can receive the next message. -/
theorem ingestion_agreement
    (hwords : ∀ timestamp : Clock.Instruction, (InstructionCodec.toVec timestamp).length < 2 ^ 32)
    (hstart : SequencerCore.start init config = .ok (core, genesisBlock))
    (hsize : config.maxBlockSize < 2 ^ 32) (hfits : TransactionsFit genesisBlock.transactions)
    (hrun : Run (fun s e s' => s.Step init e s' ∧ s.Admissible e)
      (start core genesisBlock position init) events s)
    (hnodup : (s.channel.filterMap cursorOf).Nodup) :
    (∃ received,
      genesisBlock :: producedBlocks (sequencerEvents events) =
        received ++ (after cursorOf s.channel s.indexer.cursor).filterMap blockOf ∧
      Replay.replay Block.apply init received = some s.indexer.store.currentState ∧
      s.indexer.store.dbio.finalState = .ok s.indexer.store.currentState ∧
      ((after cursorOf s.channel s.indexer.cursor).filterMap blockOf = [] →
        s.indexer.store.currentState = s.core.state)) ∧
    ∀ msg stream persists, s.indexer.stream = msg :: stream →
      ∃ s', s.Step init (.receive persists) s' := by
  obtain ⟨hpublishes, hreads⟩ := publishes_and_reads hwords hstart hsize hfits hrun hnodup
  refine ⟨?_, fun msg stream persists hstream => ?_⟩
  · obtain ⟨read, rest, hchannel, hcursor, hsynced⟩ := hreads.split
    rw [List.append_assoc] at hchannel
    rw [hchannel] at hnodup
    obtain ⟨before, unmarked, rfl, hunmarked, hafter⟩ := after_lastMark hnodup
    have hreceived : (before ++ unmarked).filterMap blockOf = before.filterMap blockOf := by
      rw [List.filterMap_append, filterMap_blockOf_eq_nil hunmarked, List.append_nil]
    have hcurrent := hsynced.current
    rw [hreceived, replay_congr (map_hashableData_finalized _)] at hcurrent
    rw [← List.length_map (f := Block.finalized)] at hsynced
    have hblocks := hpublishes.channel
    rw [hchannel, List.append_assoc, List.filterMap_append] at hblocks
    rw [hchannel, hcursor, hafter]
    refine ⟨before.filterMap blockOf, hblocks.symm, hcurrent, hsynced.finalState, fun hnil => ?_⟩
    rw [hnil, List.append_nil] at hblocks
    have hsequenced := hpublishes.sequenced.current
    rw [← hblocks, hcurrent] at hsequenced
    exact Option.some.inj hsequenced
  · obtain ⟨c, hreceive, _⟩ :=
      hreads.exists_receive hpublishes.sequenced hpublishes.channel hstream persists
    exact ⟨_, msg, stream, c, hstream, hreceive, rfl⟩

end

theorem cursor_of_receive [VerifyingKeys] [Sha256] [Zkvm] [Schnorr] [BuiltinPrograms]
    [InstructionCodec Clock.Instruction] {c c' : IndexerCore} {id : Bytes32} {data : Bytes}
    {slot : Slot} {persists : Bool} (h : c.receive (.block id data, slot) persists = .ok c') :
    c'.cursor = some (id, slot) := by
  unfold IndexerCore.receive at h
  dsimp only at h
  split at h
  · cases h
    rfl
  · split at h
    · cases h
    · cases h
      rfl

/-- The sequencer of the sample produces a block, stores a checkpoint and is restarted, and a
deposit arrives; the indexer polls the channel and receives both blocks. -/
theorem ingestion_agreement_restarted :
    let _ := Sample.sha256; let _ := Sample.zkvm Sample.clockScript; let _ := Sample.schnorr
    let _ := Sample.signing; let _ := Sample.builtins; let _ := Sample.clockCodec
    let _ := Sample.faucetCodec; let _ := Sample.verifyingKeys
    let init := HalfwayBlock.genesis
    ∃ core genesisBlock b s,
      SequencerCore.start init FreshStart.config = .ok (core, genesisBlock) ∧
      Run (fun s e s' => s.Step init e s' ∧ s.Admissible e)
        (start core genesisBlock (Bytes32.zero, 0) init)
        [.sequencer (.push HalfwayBlock.transfer) (Bytes32.zero, 0) true,
          .sequencer (.produce 7 b) (Bytes32.zero, 1) true, .storeCheckpoint,
          .sequencer (.restart FreshStart.config) (Bytes32.zero, 2) true,
          .inscribe (.deposit, 2), .poll 3, .receive true, .receive true] s ∧
      s.indexer.store.currentState = s.core.state := by
  intro _ _ _ _ _ _ _ _ init
  obtain ⟨core₀, genesisBlock, core₃, b, hstart, hsequencer, _, hfits⟩ := FreshStart.exists_chain
  have hgenesis := hfits genesisBlock List.mem_cons_self
  have hsize : FreshStart.config.maxBlockSize < 2 ^ 32 := by decide
  have hwords : ∀ timestamp : Clock.Instruction,
      (InstructionCodec.toVec timestamp).length < 2 ^ 32 := by
    intro timestamp
    change (Sample.words (Encoding.leBytes 8 timestamp.toNat)).length < _
    rw [Sample.words, List.length_map, Encoding.leBytes_length]
    decide
  obtain ⟨core₁, hpush, hsequencer⟩ := hsequencer.exists_of_cons
  obtain ⟨core₂, hproduce, hsequencer⟩ := hsequencer.exists_of_cons
  obtain ⟨core, hrestart, hsequencer⟩ := hsequencer.exists_of_cons
  obtain rfl := hsequencer.eq_of_nil
  let channel := [inscription (Bytes32.zero, 0) genesisBlock, inscription (Bytes32.zero, 1) b,
    (.deposit, 2)]
  let c : IndexerCore := ⟨⟨IndexerDb.fresh init, init⟩, none, [], none⟩
  have hpolled : Run (fun s e s' => s.Step init e s' ∧ s.Admissible e)
      (start core₀ genesisBlock (Bytes32.zero, 0) init)
      [.sequencer (.push HalfwayBlock.transfer) (Bytes32.zero, 0) true,
        .sequencer (.produce 7 b) (Bytes32.zero, 1) true, .storeCheckpoint,
        .sequencer (.restart FreshStart.config) (Bytes32.zero, 2) true,
        .inscribe (.deposit, 2), .poll 3] ⟨core, true, channel, { c with stream := channel }⟩ := by
    refine .cons ⟨⟨core₁, hpush, rfl⟩, ?_⟩ (.cons ⟨⟨core₂, hproduce, rfl⟩, rfl⟩
      (.cons ⟨rfl, trivial⟩ (.cons ⟨⟨core, hrestart, rfl⟩, hsize, fun _ => rfl⟩
      (.cons ⟨rfl, rfl⟩ (.cons ⟨⟨rfl, rfl⟩, trivial⟩ .nil)))))
    exact FreshStart.fits_transfer
  have hnodup : (channel.filterMap cursorOf).Nodup := by
    change [((Bytes32.zero, 0) : Cursor), (Bytes32.zero, 1)].Nodup
    decide
  -- the two blocks are received one after the other
  obtain ⟨hpublishes, hreads⟩ :=
    publishes_and_reads hwords hstart hsize hgenesis hpolled hnodup
  obtain ⟨c₁, hreceive₁, hstream₁, hreads₁⟩ :=
    hreads.exists_receive hpublishes.sequenced hpublishes.channel rfl true
  obtain ⟨c₂, hreceive₂, _, _⟩ :=
    hreads₁.exists_receive hpublishes.sequenced hpublishes.channel hstream₁ true
  have hstep₁ : Step init ⟨core, true, channel, { c with stream := channel }⟩ (.receive true)
      ⟨core, true, channel, c₁⟩ := ⟨_, _, c₁, rfl, hreceive₁, rfl⟩
  have hstep₂ : Step init ⟨core, true, channel, c₁⟩ (.receive true) ⟨core, true, channel, c₂⟩ :=
    ⟨_, _, c₂, hstream₁, hreceive₂, rfl⟩
  have hrun := (hpolled.snoc ⟨hstep₁, trivial⟩).snoc ⟨hstep₂, trivial⟩
  obtain ⟨⟨_, _, _, _, hagree⟩, _⟩ :=
    ingestion_agreement hwords hstart hsize hgenesis hrun hnodup
  refine ⟨core₀, genesisBlock, b, _, hstart, hrun, hagree ?_⟩
  have hskip : after cursorOf channel (some (Bytes32.zero, 1)) = [(.deposit, 2)] := rfl
  change (after cursorOf channel c₂.cursor).filterMap blockOf = []
  rw [cursor_of_receive hreceive₂, hskip]
  rfl

end ZoneSystem

end ExecutionZone
