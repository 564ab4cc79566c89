import ExecutionZone.Programs.Clock
import ExecutionZone.State.Genesis
import ExecutionZone.Transaction.Types

/-!
# A concrete system

Instances of the parameters of the development, small enough to be evaluated: a hash
that reads its input as a number in base 257 modulo a 256-bit prime, a signature scheme
that accepts everything, serialisations, and a zkVM in which a binary is one byte, the
built-in programs are the guests of this development, and all other programs are given
by a script.  Concrete runs are stated over these.
-/

universe u

namespace ExecutionZone.Sample

open Encoding

/-- The vector with the given elements, if their number is right. -/
def vectorOfList {α : Type u} (n : Nat) (l : List α) : Option (Vector α n) :=
  if h : l.length = n then some ⟨l.toArray, by simpa using h⟩ else none

theorem vectorOfList_toList {α : Type u} {n : Nat} (v : Vector α n) :
    vectorOfList n v.toList = some v := by
  have h : v.toList.length = n := Vector.length_toList
  simp only [vectorOfList, h, dif_pos]
  rfl

/-- The sample hash. -/
@[reducible] def sha256 : Sha256 where
  digest bytes :=
    let h := bytes.foldl (fun h b => (h * 257 + b.toNat + 1) % (2 ^ 256 - 189)) 7
    ⟨(leBytes 32 h).toArray, by simp⟩

/-- The sample signature scheme: every signature verifies. -/
@[reducible] def schnorr : Schnorr := ⟨fun _ _ _ => true⟩

/-- The sample cipher leaves its input as it is. -/
@[reducible] def chaCha20 : ChaCha20 := ⟨fun _ bytes => bytes⟩

/-! ## Serialisations -/

/-- Bytes as words. -/
def words (bytes : Bytes) : InstructionData := bytes.map UInt8.toUInt32

def bytesOf (words : InstructionData) : Bytes := words.map UInt32.toUInt8

theorem bytesOf_words (bytes : Bytes) : bytesOf (words bytes) = bytes := by
  simp [bytesOf, words, Function.comp_def]

def amountOf (words : InstructionData) : U128 := BitVec.ofNat 128 (leNat (bytesOf words))

theorem amountOf_words (a : U128) : amountOf (words a.toLeBytes) = a := by
  rw [amountOf, bytesOf_words, U128.toLeBytes, leNat_leBytes]
  exact BitVec.eq_of_toNat_eq (by simpa using a.isLt)

def accountIdOf (words : InstructionData) : Option AccountId :=
  (vectorOfList 32 (bytesOf words)).map AccountId.mk

theorem accountIdOf_words (id : AccountId) : accountIdOf (words id.value.toList) = some id := by
  rw [accountIdOf, bytesOf_words, vectorOfList_toList]
  rfl

@[reducible] def transferCodec : InstructionCodec AuthenticatedTransfer.Instruction where
  toVec
    | .transfer amount => 0 :: words amount.toLeBytes
    | .initializeAccount => [1]
  deserialize
    | 0 :: rest => some (.transfer (amountOf rest))
    | 1 :: _ => some .initializeAccount
    | _ => none
  deserialize_toVec
    | .transfer amount => by simp [amountOf_words]
    | .initializeAccount => rfl

@[reducible] def vaultCodec : InstructionCodec Vault.Instruction where
  toVec
    | .transfer recipientId amount => 0 :: (words recipientId.value.toList ++ words amount.toLeBytes)
    | .claim amount => 1 :: words amount.toLeBytes
  deserialize
    | 0 :: rest => (accountIdOf (rest.take 32)).map fun id => .transfer id (amountOf (rest.drop 32))
    | 1 :: rest => some (.claim (amountOf rest))
    | _ => none
  deserialize_toVec
    | .transfer recipientId amount => by
        have hl : (words recipientId.value.toList).length = 32 := by simp [words]
        simp only [List.take_left' hl, List.drop_left' hl, accountIdOf_words, amountOf_words,
          Option.map_some]
    | .claim amount => by simp [amountOf_words]

@[reducible] def faucetCodec : InstructionCodec Faucet.Instruction where
  toVec i := i.vaultProgramId.toList ++ (words i.recipientId.value.toList ++
    words i.amount.toLeBytes)
  deserialize l := do
    let vaultProgramId ← vectorOfList 8 (l.take 8)
    let recipientId ← accountIdOf ((l.drop 8).take 32)
    return ⟨vaultProgramId, recipientId, amountOf ((l.drop 8).drop 32)⟩
  deserialize_toVec i := by
    have hv : i.vaultProgramId.toList.length = 8 := Vector.length_toList
    have hr : (words i.recipientId.value.toList).length = 32 := by simp [words]
    simp only [List.take_left' hv, List.drop_left' hv, List.take_left' hr, List.drop_left' hr,
      vectorOfList_toList, accountIdOf_words, amountOf_words]
    rfl

@[reducible] def clockCodec : InstructionCodec Clock.Instruction where
  toVec timestamp := words (leBytes 8 timestamp.toNat)
  deserialize l := some (UInt64.ofNat (leNat (bytesOf l)))
  deserialize_toVec timestamp := by
    rw [bytesOf_words, ClockAccountData.ofNat_leNat_leBytes]

/-! ## Programs -/

/-- The id of the program whose binary is the byte `n`. -/
def programId (n : UInt8) : ProgramId := Vector.replicate 8 n.toUInt32

def program (n : UInt8) : Program := ⟨programId n, [n]⟩

/-- The built-in programs are the binaries `1` to `7`. -/
@[reducible] def builtins : BuiltinPrograms where
  clock := program 1
  authenticatedTransfer := program 2
  token := program 3
  amm := program 4
  ata := program 5
  vault := program 6
  faucet := program 7

theorem distinctBuiltins : let _ := builtins; DistinctBuiltins := by
  intro _
  exact ⟨by decide, by decide⟩

/-- A script: what the program given by a byte does on an input. -/
abbrev Script := UInt8 → GuestInput → Except Panic ProgramOutput

/-- The script with the clock and no other programs. -/
def clockScript : Script := fun n input =>
  if n = 1 then @Clock.main clockCodec input else .error "unknown program"

/-- The program of a binary: one of those that move native balance, or a script. -/
def execute (script : Script) : Bytes → GuestInput → Except Panic ProgramOutput
  | [2], input => @AuthenticatedTransfer.main transferCodec input
  | [6], input => @Vault.main sha256 vaultCodec transferCodec input
  | [7], input => @Faucet.main sha256 faucetCodec vaultCodec input
  | [n], input => script n input
  | _, _ => .error "malformed binary"

/-- The input on which an output that echoes its input was produced. -/
def echoed (out : ProgramOutput) : GuestInput :=
  ⟨out.selfProgramId, out.callerProgramId, out.preStates, out.instructionData⟩

/-- The sample zkVM.  An output is proven if the program returns it on the accounts and the
instruction the output itself names.  A receipt is a list with one element, and it verifies
for the given journals. -/
@[reducible] def provingZkvm (script : Script) (journals : List PrivacyPreservingCircuitOutput) :
    Zkvm where
  imageId
    | [n] => .ok (programId n)
    | _ => .error "malformed binary"
  execute := execute script
  verifiesOutput programId out :=
    decide (execute script [(programId.get 0).toUInt8] (echoed out) = .ok out)
  decodeReceipt
    | [_] => some fun journal => decide (journal ∈ journals)
    | _ => none

theorem mem_of_verifies {script : Script} {journals : List PrivacyPreservingCircuitOutput}
    {proof : Bytes} {verifies : PrivacyPreservingCircuitOutput → Bool}
    {journal : PrivacyPreservingCircuitOutput}
    (hdecode : (provingZkvm script journals).decodeReceipt proof = some verifies)
    (hverifies : verifies journal = true) : journal ∈ journals := by
  rcases proof with _ | ⟨b, _ | ⟨b', rest⟩⟩
  · cases hdecode
  · rw [← Option.some.inj hdecode] at hverifies
    exact of_decide_eq_true hverifies
  · cases hdecode

/-- The sample zkVM without proofs of the circuit. -/
@[reducible] def zkvm (script : Script) : Zkvm := provingZkvm script []

/-- The sample binaries are those of the guests. -/
theorem transfer_implements (script : Script) (journals : List PrivacyPreservingCircuitOutput) :
    let _ := provingZkvm script journals; let _ := transferCodec
    (program 2).Implements AuthenticatedTransfer.main := by
  intro _ _
  exact ⟨fun _ _ h => h, fun out h => ⟨echoed out, of_decide_eq_true h⟩⟩

theorem vault_implements (script : Script) (journals : List PrivacyPreservingCircuitOutput) :
    let _ := provingZkvm script journals; let _ := sha256; let _ := vaultCodec
    let _ := transferCodec
    (program 6).Implements Vault.main := by
  intro _ _ _ _
  exact ⟨fun _ _ h => h, fun out h => ⟨echoed out, of_decide_eq_true h⟩⟩

theorem faucet_implements (script : Script) (journals : List PrivacyPreservingCircuitOutput) :
    let _ := provingZkvm script journals; let _ := sha256; let _ := faucetCodec
    let _ := vaultCodec
    (program 7).Implements Faucet.main := by
  intro _ _ _ _
  exact ⟨fun _ _ h => h, fun out h => ⟨echoed out, of_decide_eq_true h⟩⟩

theorem clock_implements (journals : List PrivacyPreservingCircuitOutput) :
    let _ := provingZkvm clockScript journals; let _ := clockCodec
    (program 1).Implements Clock.main := by
  intro _ _
  exact ⟨fun _ _ h => h, fun out h => ⟨echoed out, of_decide_eq_true h⟩⟩

/-- The first binary is that of the clock, in the script with the clock. -/
theorem clock_executes :
    let _ := zkvm clockScript; let _ := builtins; let _ := clockCodec
    ∀ input out, Clock.main input = .ok out →
      Zkvm.execute BuiltinPrograms.clock.elf input = .ok out := by
  intro _ _ _ input out h
  exact h

/-- What the program of a byte returns, or an output without accounts if it fails. -/
def output (script : Script) (n : UInt8) (callerProgramId : Option ProgramId)
    (preStates : List AccountWithMetadata) (instructionData : InstructionData) : ProgramOutput :=
  match execute script [n] ⟨programId n, callerProgramId, preStates, instructionData⟩ with
  | .ok out => out
  | .error _ => .new (programId n) callerProgramId instructionData [] []

/-- The account id whose bytes are all `n`. -/
def accountId (n : UInt8) : AccountId := ⟨Vector.replicate 32 n⟩

/-- A key whose account id is `signer n`. -/
def publicKey (n : UInt8) : PublicKey := ⟨Vector.replicate 32 n⟩

def signer (n : UInt8) : AccountId := @AccountId.ofPublicKey sha256 (publicKey n)

/-- A transaction signed with the keys of the given numbers, with their initial nonces. -/
def transaction (programId : ProgramId) (accountIds : List AccountId)
    (instructionData : InstructionData) (signers : List UInt8) : PublicTransaction :=
  ⟨⟨programId, accountIds, signers.map fun _ => ⟨0⟩, instructionData⟩,
    signers.map fun n => (⟨Vector.replicate 64 0⟩, publicKey n)⟩

/-- A state with the given accounts and programs and nothing private. -/
def state (accounts : List (AccountId × Account)) (programs : List Program) : V03State :=
  ⟨Ledger.insertAll ∅ accounts, ⟨⟨[], 1, 0⟩, ∅, ∅⟩, ∅,
    Ledger.insertAll ∅ (programs.map fun p => (p.id, p))⟩

/-- An account with a balance. -/
def account (owner : ProgramId) (balance : Nat) : Account :=
  { Account.default with programOwner := owner, balance := BitVec.ofNat 128 balance }

/-- A transaction with a given journal, without signatures. -/
def privateTransaction (journal : PrivacyPreservingCircuitOutput) : PrivacyPreservingTransaction :=
  ⟨⟨journal.publicPreStates.map (·.accountId), [], journal.publicPostStates,
    journal.ciphertexts.map fun ciphertext => ⟨ciphertext, [], 0⟩, journal.newCommitments,
    journal.newNullifiers, journal.blockValidityWindow, journal.timestampValidityWindow⟩, [], [0]⟩

end ExecutionZone.Sample
