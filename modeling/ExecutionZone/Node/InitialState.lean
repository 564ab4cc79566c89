import ExecutionZone.Node.Block

/-!
# The initial state

`testnet_initial_state`: two public and two private accounts, and on the testnet the faucet
of the `pinata` program.  The public accounts are those of two private keys; how a public key
is derived from a private one is a parameter.
-/

namespace ExecutionZone

/-- Derivation of public keys. -/
class KeyDerivation where
  /-- `PublicKey::new_from_private_key`. -/
  publicKey : PrivateKey → PublicKey

/-- The program of the testnet faucet. -/
class TestnetPrograms where
  pinata : Program

/-- The sample keys: a public key has the bytes of the private one. -/
@[reducible] def Sample.keyDerivation : KeyDerivation := ⟨fun key => ⟨key.value⟩⟩

/-- The sample faucet is the binary `8`. -/
@[reducible] def Sample.testnetPrograms : TestnetPrograms := ⟨Sample.program 8⟩

/-! ## The accounts -/

/-- `PRIVATE_KEY_PUB_ACC_A`. -/
def privateKeyPubAccA : PrivateKey :=
  ⟨⟨#[16, 162, 106, 154, 236, 125, 52, 184, 35, 100, 238, 174, 69, 197, 41, 77, 187, 10, 118, 75,
    0, 11, 148, 238, 185, 181, 133, 17, 220, 72, 124, 77], rfl⟩⟩

/-- `PRIVATE_KEY_PUB_ACC_B`. -/
def privateKeyPubAccB : PrivateKey :=
  ⟨⟨#[113, 121, 64, 177, 204, 85, 229, 214, 178, 6, 109, 191, 29, 154, 63, 38, 242, 18, 244, 219,
    8, 208, 35, 136, 23, 127, 207, 237, 216, 169, 190, 27], rfl⟩⟩

/-- `NPK_PRIV_ACC_A`. -/
def npkPrivAccA : NullifierPublicKey :=
  ⟨⟨#[167, 108, 50, 153, 74, 47, 151, 188, 140, 79, 195, 31, 181, 9, 40, 167, 201, 32, 175, 129,
    45, 245, 223, 193, 210, 170, 247, 128, 167, 140, 155, 129], rfl⟩⟩

/-- `NPK_PRIV_ACC_B`. -/
def npkPrivAccB : NullifierPublicKey :=
  ⟨⟨#[32, 67, 72, 164, 106, 53, 66, 239, 141, 15, 52, 230, 136, 177, 2, 236, 207, 243, 134, 135,
    210, 143, 87, 232, 215, 128, 194, 120, 113, 224, 4, 165], rfl⟩⟩

/-- `PINATA_BASE58`, decoded. -/
def pinataAccountId : AccountId :=
  ⟨⟨#[202, 254, 202, 254, 202, 254, 202, 254, 202, 254, 202, 254, 202, 254, 202, 254, 202, 254,
    202, 254, 202, 254, 202, 254, 202, 254, 202, 254, 202, 254, 202, 254], rfl⟩⟩

section

variable [Sha256] [KeyDerivation] [BuiltinPrograms]

omit [BuiltinPrograms] in
/-- `initial_accounts`. -/
def initialAccounts : List (AccountId × U128) :=
  [(AccountId.ofPublicKey (KeyDerivation.publicKey privateKeyPubAccA), 10000),
    (AccountId.ofPublicKey (KeyDerivation.publicKey privateKeyPubAccB), 20000)]

omit [Sha256] [KeyDerivation] [BuiltinPrograms] in
/-- `initial_commitments`. -/
def initialCommitments : List (NullifierPublicKey × Account) :=
  [(npkPrivAccA, { Account.default with balance := 10000 }),
    (npkPrivAccB, { Account.default with balance := 20000 })]

omit [KeyDerivation] in
/-- The private accounts of `initial_state`. -/
def initialPrivateAccounts : List (Commitment × Nullifier) :=
  initialCommitments.map fun (npk, account) =>
    let accountId := AccountId.forRegularPrivateAccount npk 0
    let acc := { account with programOwner := BuiltinPrograms.authenticatedTransfer.id }
    (Commitment.new accountId acc, Nullifier.forAccountInitialization accountId)

/-- `initial_state`. -/
def initialState : Except Panic V03State :=
  V03State.newWithGenesisAccounts initialAccounts initialPrivateAccounts 0

variable [TestnetPrograms]

omit [Sha256] [KeyDerivation] [BuiltinPrograms] in
/-- `add_pinata_program`. -/
def V03State.addPinataProgram (st : V03State) (accountId : AccountId) : V03State :=
  let st := st.insertProgram TestnetPrograms.pinata
  { st with
    publicState := st.publicState.insert accountId
      { programOwner := TestnetPrograms.pinata.id
        balance := 1500000
        -- difficulty 3
        data := ⟨List.replicate 33 3, by decide⟩
        nonce := ⟨0⟩ } }

/-- `initial_state_testnet`. -/
def initialStateTestnet : Except Panic V03State := do
  let state ← initialState
  return state.addPinataProgram pinataAccountId

/-- The state `build_genesis_state` starts from, with and without the feature `testnet`. -/
def initialStateFor (testnet : Bool) : Except Panic V03State :=
  if testnet then initialStateTestnet else initialState

end

end ExecutionZone
