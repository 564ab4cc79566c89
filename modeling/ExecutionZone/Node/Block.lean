import ExecutionZone.Lib.Replay
import ExecutionZone.Transaction.Clock
import ExecutionZone.Transaction.Runs

/-!
# Blocks

`common::block` and the parts of `common::transaction` that blocks need: the borsh bytes and
hashes of transactions, the accounts a transaction names, and the block built from a list of
transactions.

`Block.apply` says what a block does to the state of the ledger: its transactions in order,
in the genesis block as they are and in later blocks under the checks for users, and last
the clock invocation for its timestamp.  It is the meaning three executors of the source are
compared with: the sequencer, the store of the indexer, and the replay from its database.
-/

namespace ExecutionZone

open Encoding

/-! ## The bytes of a transaction -/

def borshSignatures : List (Signature × PublicKey) → Bytes :=
  borshVec fun p => p.1.value.toList ++ p.2.value.toList

def PublicTransaction.toBytes (tx : PublicTransaction) : Bytes :=
  tx.message.programId.toBytes ++ borshVec (fun id => id.value.toList) tx.message.accountIds ++
    borshVec (fun n => n.val.toLeBytes) tx.message.nonces ++
    borshVec (fun w => leBytes 4 w.toNat) tx.message.instructionData ++
    borshSignatures tx.signaturesAndPublicKeys

def PrivacyPreservingTransaction.toBytes (tx : PrivacyPreservingTransaction) : Bytes :=
  borshVec (fun id => id.value.toList) tx.message.publicAccountIds ++
    borshVec (fun n => n.val.toLeBytes) tx.message.nonces ++
    borshVec borshAccount tx.message.publicPostStates ++
    borshVec (fun e => borshVec (fun b => [b]) e.ciphertext.bytes ++
      borshVec (fun b => [b]) e.epk ++ [e.viewTag]) tx.message.encryptedPrivatePostStates ++
    borshVec (fun c => c.value.toList) tx.message.newCommitments ++
    borshVec (fun n => n.1.value.toList ++ n.2.toList) tx.message.newNullifiers ++
    borshWindow tx.message.blockValidityWindow ++
    borshWindow tx.message.timestampValidityWindow ++
    borshSignatures tx.signaturesAndPublicKeys ++ borshVec (fun b => [b]) tx.proof

def ProgramDeploymentTransaction.toBytes (tx : ProgramDeploymentTransaction) : Bytes :=
  borshVec (fun b => [b]) tx.bytecode

namespace NSSATransaction

/-- The bytes of a transaction in a block: its kind, then the transaction. -/
def toBytes : NSSATransaction → Bytes
  | .publicTx tx => 0 :: tx.toBytes
  | .privacyPreserving tx => 1 :: tx.toBytes
  | .programDeployment tx => 2 :: tx.toBytes

variable [Sha256]

/-- `hash`: the kind of the transaction is not hashed. -/
def hash : NSSATransaction → Bytes32
  | .publicTx tx => sha256 tx.toBytes
  | .privacyPreserving tx => sha256 tx.toBytes
  | .programDeployment tx => sha256 tx.toBytes

/-- `affected_public_account_ids`. -/
def affectedPublicAccountIds : NSSATransaction → List AccountId
  | .publicTx tx => (tx.signerAccountIds ++ tx.message.accountIds).dedup
  | .privacyPreserving tx => (tx.signerAccountIds ++ tx.message.publicAccountIds).dedup
  | .programDeployment _ => []

end NSSATransaction

/-! ## Blocks -/

/-- `GENESIS_BLOCK_ID`. -/
def genesisBlockId : BlockId := 1

structure BlockHeader where
  blockId : BlockId
  prevBlockHash : Bytes32
  hash : Bytes32
  timestamp : Timestamp
  signature : Signature
deriving DecidableEq

inductive BedrockStatus where
  | pending
  | safe
  | finalized
deriving DecidableEq

structure Block where
  header : BlockHeader
  transactions : List NSSATransaction
  bedrockStatus : BedrockStatus
  bedrockParentId : Bytes32
deriving DecidableEq

/-- The block as it is stored once it is final. -/
def Block.finalized (b : Block) : Block := { b with bedrockStatus := .finalized }

structure HashableBlockData where
  blockId : BlockId
  prevBlockHash : Bytes32
  timestamp : Timestamp
  transactions : List NSSATransaction
deriving DecidableEq

/-- A private key. -/
structure PrivateKey where
  value : Bytes32
deriving DecidableEq

/-- Signing. -/
class Signing where
  /-- `Signature::new`. -/
  sign : PrivateKey → Bytes32 → Signature

/-- The sample signatures. -/
@[reducible] def Sample.signing : Signing := ⟨fun _ _ => ⟨Vector.replicate 64 0⟩⟩

namespace HashableBlockData

def toBytes (data : HashableBlockData) : Bytes :=
  leBytes 8 data.blockId.toNat ++ data.prevBlockHash.toList ++ leBytes 8 data.timestamp.toNat ++
    borshVec NSSATransaction.toBytes data.transactions

/-- `into_pending_block`. -/
def intoPendingBlock [Sha256] [Signing] (data : HashableBlockData) (signingKey : PrivateKey)
    (bedrockParentId : Bytes32) : Block :=
  let hash := sha256
    (asciiBytes "/LEE/v0.3/Message/Block/\x00\x00\x00\x00\x00\x00\x00\x00" ++ data.toBytes)
  ⟨⟨data.blockId, data.prevBlockHash, hash, data.timestamp, Signing.sign signingKey hash⟩,
    data.transactions, .pending, bedrockParentId⟩

end HashableBlockData

/-- The ids of the blocks count up from `1`. -/
def ConsecutiveBlocks (blocks : List Block) : Prop :=
  ∀ i b, blocks[i]? = some b → b.header.blockId.toNat = i + 1

theorem consecutiveBlocks_nil : ConsecutiveBlocks [] := by
  intro i b h
  cases h

theorem consecutiveBlocks_concat {blocks : List Block} {b : Block} :
    ConsecutiveBlocks (blocks ++ [b]) ↔
      ConsecutiveBlocks blocks ∧ b.header.blockId.toNat = blocks.length + 1 := by
  constructor
  · intro h
    refine ⟨fun i b' hi => h i b' ?_, h _ _ List.getElem?_concat_length⟩
    rw [Replay.getElem?_concat, if_neg (List.getElem?_eq_some_iff.1 hi).1.ne, hi]
  · rintro ⟨h, hid⟩ i b' hi
    rw [Replay.getElem?_concat] at hi
    split at hi
    case isTrue hlast => rw [← Option.some.inj hi, hid, hlast]
    case isFalse => exact h i b' hi

theorem ConsecutiveBlocks.take {blocks : List Block} (h : ConsecutiveBlocks blocks) (n : Nat) :
    ConsecutiveBlocks (blocks.take n) := by
  intro i b hi
  rw [List.getElem?_take] at hi
  split at hi
  · exact h i b hi
  · cases hi

/-- There are fewer consecutive blocks than ids. -/
theorem ConsecutiveBlocks.length_lt {blocks : List Block} (h : ConsecutiveBlocks blocks) :
    blocks.length < 2 ^ 64 := by
  rcases blocks.eq_nil_or_concat' with rfl | ⟨l, b, rfl⟩
  · exact Nat.two_pow_pos 64
  · rw [List.length_append, List.length_singleton, ← (consecutiveBlocks_concat.1 h).2]
    exact b.header.blockId.toNat_lt

/-! ## What a block does -/

section

variable [Sha256] [Zkvm] [Schnorr] [BuiltinPrograms]

/-- A user transaction of a block.  The genesis block executes public transactions as they
are; in a later block a transaction has to pass the checks for users. -/
def BlockHeader.applyTransaction (header : BlockHeader) (st : V03State) (tx : NSSATransaction) :
    Option V03State :=
  if header.blockId = genesisBlockId then
    match tx with
    | .publicTx tx =>
        (st.transitionFromPublicTransaction tx header.blockId header.timestamp).toOption
    | _ => none
  else
    tx.transactionStatelessCheck.toOption.bind fun tx =>
      (tx.executeCheckOnState st header.blockId header.timestamp).toOption

variable [InstructionCodec Clock.Instruction]

omit [Sha256] [Zkvm] [Schnorr] in
/-- The last transaction of a block. -/
def BlockHeader.clockTransaction (header : BlockHeader) : NSSATransaction :=
  .publicTx (clockInvocation header.timestamp)

def BlockHeader.applyClock (header : BlockHeader) (st : V03State) : Option V03State :=
  (st.transitionFromPublicTransaction (clockInvocation header.timestamp) header.blockId
    header.timestamp).toOption

omit [Sha256] [Zkvm] [Schnorr] in
/-- A block ends with the clock invocation for its timestamp. -/
def Block.WellFormed (b : Block) : Prop := b.transactions.getLast? = some b.header.clockTransaction

instance (b : Block) : Decidable b.WellFormed := inferInstanceAs (Decidable (_ = _))

/-- The state after a block. -/
def Block.apply (st : V03State) (b : Block) : Option V03State :=
  if b.WellFormed then
    (b.transactions.dropLast.foldlM b.header.applyTransaction st).bind b.header.applyClock
  else none

variable {b : Block} {st st' : V03State}

/-- A block applies if it ends with the clock invocation and all its transactions do. -/
theorem Block.apply_eq_some : b.apply st = some st' ↔
    b.WellFormed ∧ ∃ mid,
      b.transactions.dropLast.foldlM b.header.applyTransaction st = some mid ∧
      b.header.applyClock mid = some st' := by
  rw [Block.apply]
  split
  · rename_i h
    rw [Option.bind_eq_some_iff]
    exact ⟨fun h' => ⟨h, h'⟩, fun h' => h'.2⟩
  · rename_i h
    exact ⟨fun h' => (by cases h'), fun h' => absurd h'.1 h⟩

omit [InstructionCodec Clock.Instruction] in
theorem BlockHeader.accepted_of_applyTransaction {header : BlockHeader} {tx : NSSATransaction}
    (h : header.applyTransaction st tx = some st') :
    Accepted st ⟨tx, header.blockId, header.timestamp⟩ st' := by
  unfold BlockHeader.applyTransaction at h
  split at h
  · split at h
    · exact toOption_eq_some.1 h
    · cases h
  · obtain ⟨checked, hchecked, hexecute⟩ := Option.bind_eq_some_iff.1 h
    obtain rfl := eq_of_transactionStatelessCheck (toOption_eq_some.1 hchecked)
    exact accepted_of_executeCheckOnState (toOption_eq_some.1 hexecute)

/-- The transactions of a block are accepted one after the other. -/
theorem Block.exists_run_of_apply (h : b.apply st = some st') :
    ∃ events, Run Accepted st events st' := by
  obtain ⟨_, mid, hfold, hclock⟩ := Block.apply_eq_some.1 h
  obtain ⟨events, hrun⟩ : ∃ events, Run Accepted st events mid := by
    refine Replay.invariant_of_replay (I := fun s => ∃ events, Run Accepted st events s) ?_
      ⟨[], .nil⟩ hfold
    rintro s s' tx _ ⟨events, hrun⟩ happly
    exact ⟨_, hrun.snoc (BlockHeader.accepted_of_applyTransaction happly)⟩
  have hclock' : Accepted mid
      ⟨b.header.clockTransaction, b.header.blockId, b.header.timestamp⟩ st' :=
    toOption_eq_some.1 hclock
  exact ⟨_, hrun.snoc hclock'⟩

end

/-! ## Blocks without user transactions -/

section

variable [Sha256] [Signing] [BuiltinPrograms] [InstructionCodec Clock.Instruction]
  (signingKey : PrivateKey)

/-- A chain of blocks that hold nothing but the clock invocation, at time `0`. -/
def clockChain : Nat → List Block
  | 0 => []
  | n + 1 => clockChain n ++ [HashableBlockData.intoPendingBlock
      ⟨UInt64.ofNat (n + 1), ((clockChain n).getLast?.map (·.header.hash)).getD Bytes32.zero, 0,
        [.publicTx (clockInvocation 0)]⟩ signingKey Bytes32.zero]

theorem length_clockChain (n : Nat) : (clockChain signingKey n).length = n := by
  induction n with
  | zero => rfl
  | succ n ih => rw [clockChain, List.length_append, ih, List.length_singleton]

theorem consecutiveBlocks_clockChain {n : Nat} (h : n < 2 ^ 64) :
    ConsecutiveBlocks (clockChain signingKey n) := by
  induction n with
  | zero => exact consecutiveBlocks_nil
  | succ n ih =>
      refine consecutiveBlocks_concat.2 ⟨ih (Nat.lt_of_succ_lt h), ?_⟩
      rw [length_clockChain]
      exact UInt64.toNat_ofNat_of_lt' h

variable [Zkvm] [Schnorr] {init : V03State}

/-- Where the clock is at block `0`, the chain is valid. -/
theorem exists_replay_clockChain
    (hexecutes : ∀ input out, Clock.main input = .ok out →
      Zkvm.execute BuiltinPrograms.clock.elf input = .ok out)
    (howner : BuiltinPrograms.clock.id ≠ defaultProgramId)
    (hdeployed : init.programs.lookup BuiltinPrograms.clock.id = some BuiltinPrograms.clock)
    (hclock : ClockAt init ⟨0, 0⟩) {n : Nat} (h : n < 2 ^ 64) :
    ∃ st, Replay.replay Block.apply init (clockChain signingKey n) = some st ∧
      ClockAt st ⟨UInt64.ofNat n, 0⟩ ∧ st.programs = init.programs := by
  induction n with
  | zero => exact ⟨init, rfl, hclock, rfl⟩
  | succ n ih =>
      obtain ⟨st, hreplay, hat, hprograms⟩ := ih (Nat.lt_of_succ_lt h)
      obtain ⟨st', htransition, hat', hprograms'⟩ := clockInvocation_accepted hat
        (Clock.nextBlockId_ofNat h) hexecutes (hprograms ▸ hdeployed) howner (UInt64.ofNat (n + 1)) 0
      refine ⟨st', ?_, hat', hprograms'.trans hprograms⟩
      rw [clockChain, Replay.replay_concat_of_eq hreplay]
      exact Block.apply_eq_some.2 ⟨rfl, st, rfl, toOption_eq_some.2 htransition⟩

end

end ExecutionZone
