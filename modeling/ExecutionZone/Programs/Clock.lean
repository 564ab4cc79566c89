import ExecutionZone.Programs.Native

/-!
# The clock

The guest `clock` and the data of its accounts.  It is handed the three clock accounts,
counts the block number in the first one up by one, and writes the new number and the
timestamp of its instruction to each account whose interval divides the number.
-/

namespace ExecutionZone

open Encoding

/-! ## The data of a clock account -/

structure ClockAccountData where
  blockId : BlockId
  timestamp : Timestamp
deriving DecidableEq

namespace ClockAccountData

def toBytes (d : ClockAccountData) : Bytes :=
  leBytes 8 d.blockId.toNat ++ leBytes 8 d.timestamp.toNat

/-- `from_bytes`: all bytes have to be read. -/
def fromBytes (bytes : Bytes) : Except Panic ClockAccountData := do
  ensure (bytes.length = 16) "ClockAccountData deserialization should not fail"
  return ⟨UInt64.ofNat (leNat (bytes.take 8)), UInt64.ofNat (leNat (bytes.drop 8))⟩

/-- The bytes as the data of an account. -/
def toData (d : ClockAccountData) : Data := ⟨d.toBytes, by simp [toBytes, dataMaxLength]⟩

theorem ofNat_leNat_leBytes (x : UInt64) : UInt64.ofNat (leNat (leBytes 8 x.toNat)) = x := by
  rw [leNat_leBytes, show (256 : Nat) ^ 8 = 2 ^ 64 from rfl, Nat.mod_eq_of_lt x.toNat_lt]
  exact UInt64.ofNat_toNat

theorem fromBytes_toBytes (d : ClockAccountData) : fromBytes d.toBytes = .ok d := by
  have hlen : (leBytes 8 d.blockId.toNat).length = 8 := leBytes_length _ _
  have hall : d.toBytes.length = 16 := by simp [toBytes]
  rw [fromBytes, ensure_of _ hall, toBytes, List.take_left' hlen, List.drop_left' hlen,
    ofNat_leNat_leBytes, ofNat_leNat_leBytes]
  rfl

end ClockAccountData

/-! ## The accounts -/

/-- The clock accounts, each with the number of blocks between its updates. -/
def clockAccounts : List (AccountId × Nat) :=
  [(clock01ProgramAccountId, 1), (clock10ProgramAccountId, 10), (clock50ProgramAccountId, 50)]

theorem clockAccounts_fst : clockAccounts.map Prod.fst = clockProgramAccountIds := rfl

theorem clockProgramAccountIds_nodup : clockProgramAccountIds.Nodup := by decide

/-! ## The guest -/

namespace Clock

/-- The instruction of the clock is the timestamp of the block. -/
abbrev Instruction := Timestamp

/-- `update_if_multiple`. -/
def updateIfMultiple (account : Account) (divisor : Nat) (currentBlockId : BlockId)
    (updatedData : Data) : Account :=
  if currentBlockId.toNat % divisor = 0 then { account with data := updatedData } else account

/-- `block_id.checked_add(1)`. -/
def nextBlockId (blockId : BlockId) : Option BlockId :=
  if blockId.toNat + 1 < 2 ^ 64 then some (blockId + 1) else none

theorem nextBlockId_ofNat {n : Nat} (h : n + 1 < 2 ^ 64) :
    nextBlockId (UInt64.ofNat n) = some (UInt64.ofNat (n + 1)) := by
  rw [nextBlockId, UInt64.toNat_ofNat_of_lt' (Nat.lt_of_succ_lt h), if_pos h,
    UInt64.ofNat_add]
  rfl

section

variable (account : Account) (divisor : Nat) (currentBlockId : BlockId) (updatedData : Data)

@[simp] theorem updateIfMultiple_programOwner :
    (updateIfMultiple account divisor currentBlockId updatedData).programOwner =
      account.programOwner := by
  unfold updateIfMultiple
  split
  · rfl
  · rfl

@[simp] theorem updateIfMultiple_balance :
    (updateIfMultiple account divisor currentBlockId updatedData).balance = account.balance := by
  unfold updateIfMultiple
  split
  · rfl
  · rfl

@[simp] theorem updateIfMultiple_nonce :
    (updateIfMultiple account divisor currentBlockId updatedData).nonce = account.nonce := by
  unfold updateIfMultiple
  split
  · rfl
  · rfl

/-- The first clock account is updated in every block. -/
theorem updateIfMultiple_one :
    updateIfMultiple account 1 currentBlockId updatedData = { account with data := updatedData } :=
  if_pos (Nat.mod_one _)

end

def main [InstructionCodec Instruction] (input : GuestInput) : Except Panic ProgramOutput := do
  let timestamp ← readInstruction Instruction input.instructionData
  match input.preStates with
  | [pre01, pre10, pre50] => do
      ensure ([pre01, pre10, pre50].map (·.accountId) = clockProgramAccountIds)
        "Invalid input accounts"
      ensure (∀ pre ∈ [pre01, pre10, pre50], pre.account.programOwner = input.selfProgramId)
        "Clock accounts must be owned by the clock program"
      let prevData ← ClockAccountData.fromBytes pre01.account.data.bytes
      let currentBlockId ← expect (nextBlockId prevData.blockId)
        "Next block id should be within u64 boundaries"
      let updatedData := ClockAccountData.toData ⟨currentBlockId, timestamp⟩
      return input.output
        [.new (updateIfMultiple pre01.account 1 currentBlockId updatedData),
          .new (updateIfMultiple pre10.account 10 currentBlockId updatedData),
          .new (updateIfMultiple pre50.account 50 currentBlockId updatedData)] []
  | _ => .error "Invalid number of input accounts"

theorem length_of_main [InstructionCodec Instruction] {input : GuestInput} {out : ProgramOutput}
    (h : main input = .ok out) : input.preStates.length = 3 := by
  obtain ⟨_, _, h⟩ := bind_eq_ok.1 h
  split at h
  · rename_i hpres
    rw [hpres]
    rfl
  · cases h

end Clock

end ExecutionZone
