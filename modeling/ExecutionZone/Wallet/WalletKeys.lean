import ExecutionZone.Wallet.SyncReturns

/-!
# Public and private keys of a wallet

`UserKeyChain` in full: next to the private keys there are a tree of public keys, imported ones,
and a key for sealing.

A wallet starts with two trees that are derived from seeds, and grows: keys are generated and
imported, identifiers, groups and shared accounts are added, and accounts are updated.  The id of
a private account is the hash of a pair of a key and a kind; `P` stands for the pairs that a
wallet gets to see.
-/

namespace ExecutionZone

/-! ## The key chain -/

/-- The keys of a wallet, those of public accounts included. -/
structure WalletKeys extends UserKeyChain where
  importedPublicAccounts : Ledger.Map AccountId PrivateKey
  publicKeyTree : KeyTreePublic
  sealingSecretKey : Option Scalar

inductive AccountIdWithPrivacy where
  | publicAccount (accountId : AccountId)
  | privateAccount (accountId : AccountId)
deriving DecidableEq

/-- `get_node`. -/
def KeyTree.getNode {N : Type} (t : KeyTree N) (accountId : AccountId) : Option N :=
  (t.accountIdMap.lookup accountId).bind fun chainId => t.keyMap.lookup chainId

namespace UserKeyChain

/-- `private_account_key_chain_by_index`. -/
def privateAccountKeyChainByIndex (u : UserKeyChain) (chainIndex : ChainIndex) :
    Option KeyChain := (u.privateKeyTree.keyMap.lookup chainIndex).map (·.keyChain)

/-- `shared_private_account`. -/
def sharedPrivateAccount (u : UserKeyChain) (accountId : AccountId) :
    Option SharedAccountEntry := u.sharedPrivateAccounts.lookup accountId

/-- `private_account_ids`. -/
def privateAccountIds [Sha256] (u : UserKeyChain) : List (AccountId × Option ChainIndex) :=
  ((Ledger.ascending u.importedPrivateAccounts).flatMap fun (key, accounts) =>
    (Ledger.sortedKeys accounts).map fun kind =>
      (AccountId.forPrivateAccount key.keyChain.nullifierPublicKey kind, key.chainIndex)) ++
  ((Ledger.ascending u.privateKeyTree.keyMap).flatMap fun (chainIndex, node) =>
    node.accountIds.map fun accountId => (accountId, some chainIndex)) ++
  (Ledger.sortedKeys u.sharedPrivateAccounts).map fun accountId => (accountId, none)

end UserKeyChain

namespace WalletKeys

/-- `new_with_accounts`. -/
def newWithAccounts (publicKeyTree : KeyTreePublic) (privateKeyTree : KeyTreePrivate) :
    WalletKeys :=
  { UserKeyChain.newWithAccounts privateKeyTree with
    importedPublicAccounts := ∅
    publicKeyTree
    sealingSecretKey := none }

/-- `pub_account_signing_key`. -/
def pubAccountSigningKey (k : WalletKeys) (accountId : AccountId) : Option PrivateKey :=
  (k.importedPublicAccounts.lookup accountId).or
    ((k.publicKeyTree.getNode accountId).map (·.csk))

/-- `set_sealing_secret_key`. -/
def setSealingSecretKey (k : WalletKeys) (key : Scalar) : WalletKeys :=
  { k with sealingSecretKey := some key }

/-- `public_account_ids`. -/
def publicAccountIds (k : WalletKeys) : List (AccountId × Option ChainIndex) :=
  ((Ledger.sortedKeys k.importedPublicAccounts).map fun accountId => (accountId, none)) ++
  (Ledger.ascending k.publicKeyTree.accountIdMap).map fun (accountId, chainIndex) =>
    (accountId, some chainIndex)

section

variable [Sha256]

/-- `account_ids`. -/
def accountIds (k : WalletKeys) : List (AccountIdWithPrivacy × Option ChainIndex) :=
  (k.publicAccountIds.map fun (accountId, chainIndex) => (.publicAccount accountId, chainIndex)) ++
  k.privateAccountIds.map fun (accountId, chainIndex) => (.privateAccount accountId, chainIndex)

/-- `insert_private_account`. -/
def insertPrivateAccount (k : WalletKeys) (accountId : AccountId) (kind : PrivateAccountKind)
    (account : Account) : Except (Fault InsertError) WalletKeys := do
  let toUserKeyChain ← k.toUserKeyChain.insertPrivateAccount accountId kind account
  return { k with toUserKeyChain }

/-- `add_imported_public_account`. -/
def addImportedPublicAccount [KeyDerivation] (k : WalletKeys) (privateKey : PrivateKey) :
    WalletKeys :=
  let accountId := AccountId.ofPublicKey (KeyDerivation.publicKey privateKey)
  { k with importedPublicAccounts := k.importedPublicAccounts.insert accountId privateKey }

end

end WalletKeys

section

variable [Sha256] [Secp256k1] [Hmac] [ScalarArithmetic] [KeyDerivation]

/-- The id of a new public node. -/
def KeyTree.withAccountId (generated : Option (ChainIndex × KeyTreePublic)) :
    Option (AccountId × ChainIndex × KeyTreePublic) :=
  generated.bind fun (cci, t) => (t.keyMap.lookup cci).map fun node => (node.accountId, cci, t)

/-- `generate_new_public_node`. -/
def KeyTree.generateNewPublicNode (t : KeyTreePublic) (parentCci : ChainIndex) :
    Except Panic (Option (AccountId × ChainIndex × KeyTreePublic)) := do
  let generated ← t.generateNewNode parentCci
  return withAccountId generated

/-- `generate_new_public_node_layered`. -/
def KeyTree.generateNewPublicNodeLayered (t : KeyTreePublic) :
    Except Panic (Option (AccountId × ChainIndex × KeyTreePublic)) := do
  let generated ← t.generateNewNodeLayered
  return withAccountId generated

namespace WalletKeys

/-- `generate_trees_for_depth`. -/
def generateTreesForDepth (k : WalletKeys) (depth : UInt32) : Except Panic WalletKeys := do
  let publicKeyTree ← k.publicKeyTree.generateTreeForDepth depth
  let toUserKeyChain ← k.toUserKeyChain.generateTreesForDepth depth
  return { k with toUserKeyChain, publicKeyTree }

/-- `generate_new_public_transaction_private_key`. -/
def generateNewPublicTransactionPrivateKey (k : WalletKeys) (parentCci : Option ChainIndex) :
    Except Panic ((AccountId × ChainIndex) × WalletKeys) := do
  let (accountId, chainIndex, publicKeyTree) ← match parentCci with
    | some parentCci => do
        let generated ← k.publicKeyTree.generateNewPublicNode parentCci
        expect generated "Parent must be present in a tree"
    | none => do
        let generated ← k.publicKeyTree.generateNewPublicNodeLayered
        expect generated "Search for new node slot failed"
  return ((accountId, chainIndex), { k with publicKeyTree })

end WalletKeys

end

/-! ## Runs -/

inductive KeyEvent where
  | generateTrees (depth : UInt32)
  | createPublicKey (parentCci : Option ChainIndex)
  | importPublicAccount (privateKey : PrivateKey)
  | setSealingKey (key : Scalar)
  | wallet (event : WalletEvent)
  | update (accountId : AccountId) (kind : PrivateAccountKind) (account : Account)

/-- The pairs of a key and a kind that ids are hashed from. -/
abbrev IdPairs := Set (NullifierPublicKey × PrivateAccountKind)

section

variable [Sha256] [Secp256k1] [Hmac] [ScalarArithmetic] [KeyDerivation] [ChaCha20]

def KeyStep (k : WalletKeys) : KeyEvent → WalletKeys → Prop
  | .generateTrees depth, k' => k.generateTreesForDepth depth = .ok k'
  | .createPublicKey parentCci, k' => ∃ created,
      k.generateNewPublicTransactionPrivateKey parentCci = .ok (created, k')
  | .importPublicAccount privateKey, k' => k.addImportedPublicAccount privateKey = k'
  | .setSealingKey key, k' => k.setSealingSecretKey key = k'
  | .wallet event, k' => ∃ toUserKeyChain,
      WalletStep k.toUserKeyChain event toUserKeyChain ∧ { k with toUserKeyChain } = k'
  | .update accountId kind account, k' => k.insertPrivateAccount accountId kind account = .ok k'

/-- The id of an account that is not shared comes from a pair in `P`. -/
def UserKeyChain.KnownAs (P : IdPairs) (u : UserKeyChain) (accountId : AccountId)
    (kind : PrivateAccountKind) : Prop :=
  (∃ entry, u.sharedPrivateAccounts.lookup accountId = some entry) ∨
    ∃ npk, (npk, kind) ∈ P ∧ AccountId.forPrivateAccount npk kind = accountId

/-- The ids in an event come from pairs in `P`. -/
def KeyEvent.Within (P : IdPairs) (u : UserKeyChain) : KeyEvent → Prop
  | .wallet (.registerIdentifier cci identifier) =>
      ∀ node, u.privateKeyTree.keyMap.lookup cci = some node →
        (node.keyChain.nullifierPublicKey, .regular identifier) ∈ P
  | .wallet (.sync (.privacyPreserving tx)) =>
      ∀ keys ∈ u.viewingKeys, ∀ i kind account, keys.Opens tx i kind account →
        (keys.npk, kind) ∈ P
  | .update accountId kind _ => u.KnownAs P accountId kind
  | _ => True

/-- A step whose ids come from pairs in `P`. -/
def KeyStepWithin (P : IdPairs) (k : WalletKeys) (event : KeyEvent) (k' : WalletKeys) : Prop :=
  KeyStep k event k' ∧ event.Within P k.toUserKeyChain

end

end ExecutionZone
