import ExecutionZone.Lib.Encoding
import ExecutionZone.Lib.Fault

/-!
# Accounts

The account model of `nssa_core::account`, shared by the public ledger, the private
notes and the guest programs.  Fixed-size byte and word arrays are vectors of that
size and `u128` is `BitVec 128`, so that no value of the wrong width can be built;
`Data` carries the length bound its constructors enforce.
-/

namespace ExecutionZone

open Encoding

/-- Arrays are compared as lists, which evaluates faster than a comparison by index. -/
instance vectorDecidableEq {α : Type} [DecidableEq α] {n : Nat} : DecidableEq (Vector α n) :=
  fun v w => decidable_of_iff (v.toList = w.toList) Vector.toList_inj

/-- A byte string. -/
abbrev Bytes := List UInt8

/-- `[u8; 32]`. -/
abbrev Bytes32 := Vector UInt8 32

/-- `u128`, with wrapping arithmetic. -/
abbrev U128 := BitVec 128

namespace U128

/-- `u128::to_le_bytes`. -/
def toLeBytes (x : U128) : Bytes := leBytes 16 x.toNat

@[simp] theorem toLeBytes_length (x : U128) : x.toLeBytes.length = 16 := leBytes_length _ _

theorem toLeBytes_inj {x y : U128} (h : x.toLeBytes = y.toLeBytes) : x = y :=
  BitVec.eq_of_toNat_eq (leBytes_inj x.isLt y.isLt h)

/-- `u128::checked_add`. -/
def checkedAdd (x y : U128) : Option U128 :=
  if x.toNat + y.toNat < 2 ^ 128 then some (x + y) else none

/-- `u128::checked_sub`. -/
def checkedSub (x y : U128) : Option U128 := if y ≤ x then some (x - y) else none

theorem checkedAdd_eq_some {x y z : U128} (h : x.checkedAdd y = some z) :
    z.toNat = x.toNat + y.toNat := by
  unfold checkedAdd at h
  split at h
  · cases h
    rename_i hlt
    rw [BitVec.toNat_add, Nat.mod_eq_of_lt hlt]
  · cases h

theorem checkedSub_eq_some {x y z : U128} (h : x.checkedSub y = some z) :
    z.toNat + y.toNat = x.toNat := by
  unfold checkedSub at h
  split at h
  · cases h
    rename_i hle
    rw [BitVec.toNat_sub_of_le hle]
    exact Nat.sub_add_cancel hle
  · cases h

end U128

namespace Bytes32

/-- The all-zero array. -/
def zero : Bytes32 := Vector.replicate 32 0

@[simp] theorem toList_length (b : Bytes32) : b.toList.length = 32 := Vector.length_toList

theorem toList_inj {a b : Bytes32} (h : a.toList = b.toList) : a = b :=
  Vector.toList_inj.mp h

end Bytes32

/-! ## Programs as owners -/

/-- `ProgramId = [u32; 8]`. -/
abbrev ProgramId := Vector UInt32 8

/-- `DEFAULT_PROGRAM_ID`: the owner of an account nobody has claimed. -/
def defaultProgramId : ProgramId := Vector.replicate 8 0

namespace ProgramId

/-- The little-endian bytes of the words of a program id. -/
def toBytes (p : ProgramId) : Bytes := p.toList.flatMap fun word => leBytes 4 word.toNat

@[simp] theorem toBytes_length (p : ProgramId) : p.toBytes.length = 32 := by
  have hp : p.toList.length = 8 := Vector.length_toList
  simp [toBytes, List.length_flatMap, hp]

theorem toBytes_inj {p q : ProgramId} (h : p.toBytes = q.toBytes) : p = q := by
  apply Vector.toList_inj.mp
  refine flatMap_inj (f := fun word : UInt32 => leBytes 4 word.toNat) (by decide)
    (fun w => leBytes_length 4 w.toNat) (fun v w hvw => ?_) h
  exact UInt32.toNat.inj (leBytes_inj v.toNat_lt w.toNat_lt hvw)

end ProgramId

/-! ## Account values -/

/-- The nonce of an account. -/
structure Nonce where
  /-- The wrapped number. -/
  val : U128
deriving DecidableEq

/-- `Nonce::public_account_nonce_increment`. -/
def Nonce.publicAccountNonceIncrement (n : Nonce) : Except Panic Nonce :=
  match n.val.checkedAdd 1 with
  | some val => .ok ⟨val⟩
  | none => .error "Overflow when incrementing nonce"

/-- `DATA_MAX_LENGTH`, 100 KiB. -/
def dataMaxLength : Nat := 100 * 1024

/-- Account data: a byte string within the maximum length. -/
structure Data where
  /-- The bytes. -/
  bytes : Bytes
  /-- The bound every constructor checks. -/
  length_le : bytes.length ≤ dataMaxLength
deriving DecidableEq

namespace Data

/-- The empty data of a fresh account. -/
def empty : Data := ⟨[], Nat.zero_le _⟩

/-- `Data::try_from`, failing with `DataTooBigError`. -/
def tryFrom (bytes : Bytes) : Option Data :=
  if h : bytes.length ≤ dataMaxLength then some ⟨bytes, h⟩ else none

@[ext] theorem ext {a b : Data} (h : a.bytes = b.bytes) : a = b := by
  cases a; cases b; cases h; rfl

theorem tryFrom_eq_some {bytes : Bytes} {d : Data} : tryFrom bytes = some d ↔ d.bytes = bytes := by
  unfold tryFrom
  split
  · rename_i h
    constructor
    · intro hd; cases hd; rfl
    · intro hd; rw [Option.some_inj]; exact ext hd.symm
  · rename_i h
    constructor
    · intro hd; cases hd
    · intro hd; exact absurd (hd ▸ d.length_le) h

end Data

/-- An account, in public and private contexts alike. -/
structure Account where
  /-- The program that owns the account. -/
  programOwner : ProgramId
  /-- The native balance. -/
  balance : U128
  /-- The data. -/
  data : Data
  /-- The nonce. -/
  nonce : Nonce
deriving DecidableEq

/-- `Account::default()`. -/
def Account.default : Account := ⟨defaultProgramId, 0, Data.empty, ⟨0⟩⟩

instance : Inhabited Account := ⟨Account.default⟩

@[simp] theorem Account.default_programOwner : Account.default.programOwner = defaultProgramId :=
  rfl

@[simp] theorem Account.default_balance : Account.default.balance = 0 := rfl

@[simp] theorem Account.default_data : Account.default.data = Data.empty := rfl

@[simp] theorem Account.default_nonce : Account.default.nonce = ⟨0⟩ := rfl

/-- An account with another nonce. -/
def Account.withNonce (a : Account) (nonce : Nonce) : Account := { a with nonce }

@[simp] theorem Account.withNonce_programOwner (a : Account) (n : Nonce) :
    (a.withNonce n).programOwner = a.programOwner := rfl

@[simp] theorem Account.withNonce_balance (a : Account) (n : Nonce) :
    (a.withNonce n).balance = a.balance := rfl

@[simp] theorem Account.withNonce_data (a : Account) (n : Nonce) :
    (a.withNonce n).data = a.data := rfl

/-- The identifier of an account. -/
structure AccountId where
  /-- The 32 bytes. -/
  value : Bytes32
deriving DecidableEq

/-- An account value as a program sees it: with its id and whether it is authorised. -/
structure AccountWithMetadata where
  /-- The value. -/
  account : Account
  /-- Whether the account is marked as authorised. -/
  isAuthorized : Bool
  /-- The id. -/
  accountId : AccountId
deriving DecidableEq

end ExecutionZone
