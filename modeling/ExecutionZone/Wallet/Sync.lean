import ExecutionZone.Circuit.Recipients
import ExecutionZone.Transaction.Notes
import ExecutionZone.Wallet.KeyChain

/-!
# Synchronising private accounts

`sync_private_accounts_with_tx`: the wallet tries every key on every output with the view tag of
the key, and stores what it decrypts.  For a key chain, the id it stores an account under comes
from its own nullifier key and the decrypted kind; for a shared account it is the id of the
entry, whatever the kind.  The commitment of the output is used as a part of the encryption key
only.

The proof of a transaction binds commitments and ciphertexts.  It does not bind the ephemeral key
and the view tag, nor does it say whom the secret of a ciphertext is shared with.  So what is
stored is backed by the chain exactly if every output that a key of the wallet opens was made
for that key (`sync_sound_iff`).
-/

namespace ExecutionZone

open Encoding

section

variable [Sha256] [ChaCha20] [Secp256k1]

/-! ## Outputs a key opens -/

/-- What a key decrypts of an output of a transaction: its index, kind and account. -/
abbrev Opening := Nat × PrivateAccountKind × Account

/-- Try to open one output. -/
def ViewingKeys.openOutput (keys : ViewingKeys) (tx : PrivacyPreservingTransaction)
    (encryptedData : EncryptedAccountData) (ciphId : Nat) : Except Panic (Option Opening) := do
  let commitment ← expect tx.message.newCommitments[ciphId]? "index out of bounds"
  let sharedSecret ← SharedSecretKey.new keys.vsk encryptedData.epk
  ensure (ciphId < 2 ^ 32) "Ciphertext ID is expected to fit in u32"
  return (decrypt encryptedData.ciphertext sharedSecret commitment ciphId).map
    fun (kind, account) => (ciphId, kind, account)

/-- Try the outputs with the view tag of the keys. -/
def ViewingKeys.openings (keys : ViewingKeys) (tx : PrivacyPreservingTransaction) :
    Except Panic (List Opening) := do
  let viewTag ← computeViewTag keys.npk keys.vpk
  let opened ← (tx.message.encryptedPrivatePostStates.zipIdx.filter fun e =>
    e.1.viewTag = viewTag).mapM fun e => keys.openOutput tx e.1 e.2
  return opened.filterMap id

/-- The keys open the output `i` to an account of a kind. -/
def ViewingKeys.Opens (keys : ViewingKeys) (tx : PrivacyPreservingTransaction) (i : Nat)
    (kind : PrivateAccountKind) (account : Account) : Prop :=
  ∃ data commitment sharedSecret,
    tx.message.encryptedPrivatePostStates[i]? = some data ∧
    computeViewTag keys.npk keys.vpk = .ok data.viewTag ∧
    tx.message.newCommitments[i]? = some commitment ∧
    SharedSecretKey.new keys.vsk data.epk = .ok sharedSecret ∧
    decrypt data.ciphertext sharedSecret commitment i = some (kind, account)

/-! ## Synchronisation -/

/-- An account to store under an id, with the output it comes from. -/
structure Received where
  index : Nat
  accountId : AccountId
  kind : PrivateAccountKind
  account : Account
deriving DecidableEq

namespace UserKeyChain

/-- The `affected_accounts` of a transaction. -/
def affectedAccounts (u : UserKeyChain) (tx : PrivacyPreservingTransaction) :
    Except Panic (List Received) := do
  let received ← u.privateAccountKeyChains.mapM fun (_, keyChain, chainIndex) => do
    let openings ← (keyChain.viewingKeys chainIndex).openings tx
    return openings.map fun (i, kind, account) =>
      ⟨i, AccountId.forPrivateAccount keyChain.nullifierPublicKey kind, kind, account⟩
  return received.flatten

/-- Store one account of a key chain. -/
def storeReceived (u : UserKeyChain) (r : Received) : Except Panic UserKeyChain :=
  (u.insertPrivateAccount r.accountId r.kind r.account).mapError fun
    | .err _ => "Account Id should exist"
    | .panic msg => msg

/-- What the outputs of a transaction say about shared accounts. -/
def sharedUpdates (u : UserKeyChain) (tx : PrivacyPreservingTransaction) :
    Except Panic (List Received) := do
  let sharedKeys ← u.sharedKeys.mapM fun (accountId, keys) => do
    let viewingKeys ← keys.viewingKeys
    return (accountId, viewingKeys)
  let received ← sharedKeys.mapM fun (accountId, keys) => do
    let openings ← keys.openings tx
    return openings.map fun (i, kind, account) => ⟨i, accountId, kind, account⟩
  return received.flatten

/-- `sync_shared_private_accounts_with_tx`. -/
def syncSharedPrivateAccountsWithTx (u : UserKeyChain) (tx : PrivacyPreservingTransaction) :
    Except Panic UserKeyChain := do
  let updates ← u.sharedUpdates tx
  return updates.foldl (fun u r => u.updateSharedPrivateAccountState r.accountId r.account) u

/-- `sync_private_accounts_with_tx`. -/
def syncPrivateAccountsWithTx (u : UserKeyChain) : NSSATransaction → Except Panic UserKeyChain
  | .privacyPreserving tx => do
      let affected ← u.affectedAccounts tx
      let u ← affected.foldlM storeReceived u
      u.syncSharedPrivateAccountsWithTx tx
  | _ => .ok u

/-- What `syncPrivateAccountsWithTx` stores, in order. -/
def stored (u : UserKeyChain) (tx : PrivacyPreservingTransaction) :
    Except Panic (List Received) := do
  let affected ← u.affectedAccounts tx
  let u ← affected.foldlM storeReceived u
  let updates ← u.sharedUpdates tx
  return affected ++ updates

end UserKeyChain

/-! ## What is stored -/

theorem ViewingKeys.mem_openings {keys : ViewingKeys} {tx : PrivacyPreservingTransaction}
    {l : List Opening} (h : keys.openings tx = .ok l) {i : Nat} {kind : PrivateAccountKind}
    {account : Account} : (i, kind, account) ∈ l ↔ keys.Opens tx i kind account := by
  simp only [openings, bind_eq_ok, pure, Except.pure, Except.ok.injEq] at h
  obtain ⟨viewTag, htag, opened, hopened, rfl⟩ := h
  have hopen : ∀ data j o, keys.openOutput tx data j = .ok o ↔
      ∃ commitment sharedSecret, tx.message.newCommitments[j]? = some commitment ∧
        SharedSecretKey.new keys.vsk data.epk = .ok sharedSecret ∧ j < 2 ^ 32 ∧
        (decrypt data.ciphertext sharedSecret commitment j).map
          (fun r => (j, r.1, r.2)) = o := by
    intro data j o
    simp only [openOutput, bind_eq_ok, expect_eq_ok, ensure_eq_ok, exists_const, pure,
      Except.pure, Except.ok.injEq]
    constructor
    · rintro ⟨commitment, hcommitment, sharedSecret, hsecret, hlt, heq⟩
      exact ⟨commitment, sharedSecret, hcommitment, hsecret, hlt, heq⟩
    · rintro ⟨commitment, sharedSecret, hcommitment, hsecret, hlt, heq⟩
      exact ⟨commitment, hcommitment, sharedSecret, hsecret, hlt, heq⟩
  simp only [List.mem_filterMap, id_eq, exists_eq_right]
  rw [mem_of_mapM hopened]
  constructor
  · rintro ⟨⟨data, j⟩, hmem, hdata⟩
    obtain ⟨hget, hview⟩ := List.mem_filter.1 hmem
    obtain ⟨commitment, sharedSecret, hcommitment, hsecret, _, heq⟩ := (hopen _ _ _).1 hdata
    obtain ⟨⟨kind', account'⟩, hdecrypt, heq⟩ := Option.map_eq_some_iff.1 heq
    cases heq
    refine ⟨data, commitment, sharedSecret, List.mk_mem_zipIdx_iff_getElem?.1 hget, ?_,
      hcommitment, hsecret, hdecrypt⟩
    rw [of_decide_eq_true hview, htag]
  · rintro ⟨data, commitment, sharedSecret, hget, hview, hcommitment, hsecret, hdecrypt⟩
    rw [htag, Except.ok.injEq] at hview
    have hmem : (data, i) ∈ tx.message.encryptedPrivatePostStates.zipIdx.filter fun e =>
        e.1.viewTag = viewTag :=
      List.mem_filter.2 ⟨List.mk_mem_zipIdx_iff_getElem?.2 hget, decide_eq_true hview.symm⟩
    refine ⟨(data, i), hmem, (hopen _ _ _).2 ⟨commitment, sharedSecret, hcommitment, hsecret, ?_, ?_⟩⟩
    · -- the output was tried, so its index fits
      obtain ⟨o, ho⟩ := exists_of_mapM hopened hmem
      obtain ⟨_, _, _, _, hlt, _⟩ := (hopen _ _ _).1 ho
      exact hlt
    · rw [hdecrypt]
      rfl

namespace UserKeyChain

/-- The keys of the key chains. -/
def viewingKeys (u : UserKeyChain) : List ViewingKeys :=
  u.privateAccountKeyChains.map fun (_, keyChain, chainIndex) => keyChain.viewingKeys chainIndex

/-- The keys of a shared account. -/
def SharesKeys (u : UserKeyChain) (accountId : AccountId) (keys : ViewingKeys) : Prop :=
  ∃ holder, (accountId, holder) ∈ u.sharedKeys ∧ holder.viewingKeys = .ok keys

variable {u : UserKeyChain} {tx : PrivacyPreservingTransaction} {l : List Received}

theorem mem_affectedAccounts (h : u.affectedAccounts tx = .ok l) {r : Received} :
    r ∈ l ↔ ∃ keys ∈ u.viewingKeys, keys.Opens tx r.index r.kind r.account ∧
      r.accountId = AccountId.forPrivateAccount keys.npk r.kind := by
  simp only [affectedAccounts, bind_eq_ok, pure, Except.pure, Except.ok.injEq] at h
  obtain ⟨received, hreceived, rfl⟩ := h
  rw [List.mem_flatten]
  constructor
  · rintro ⟨rs, hrs, hr⟩
    obtain ⟨⟨id, keyChain, chainIndex⟩, hchain, hopen⟩ := (mem_of_mapM hreceived).1 hrs
    simp only [bind_eq_ok, Except.ok.injEq] at hopen
    obtain ⟨openings, hopenings, rfl⟩ := hopen
    obtain ⟨⟨i, kind, account⟩, hmem, rfl⟩ := List.mem_map.1 hr
    exact ⟨_, List.mem_map.2 ⟨_, hchain, rfl⟩, (ViewingKeys.mem_openings hopenings).1 hmem, rfl⟩
  · rintro ⟨keys, hkeys, hopens, hid⟩
    obtain ⟨⟨id, keyChain, chainIndex⟩, hchain, rfl⟩ := List.mem_map.1 hkeys
    obtain ⟨rs, hrs⟩ := exists_of_mapM hreceived hchain
    refine ⟨rs, (mem_of_mapM hreceived).2 ⟨_, hchain, hrs⟩, ?_⟩
    simp only [bind_eq_ok, Except.ok.injEq] at hrs
    obtain ⟨openings, hopenings, rfl⟩ := hrs
    refine List.mem_map.2 ⟨_, (ViewingKeys.mem_openings hopenings).2 hopens, ?_⟩
    obtain ⟨index, accountId, kind, account⟩ := r
    have hid : accountId = AccountId.forPrivateAccount keyChain.nullifierPublicKey kind := hid
    rw [hid]

theorem mem_sharedUpdates (h : u.sharedUpdates tx = .ok l) {r : Received} :
    r ∈ l ↔ ∃ keys, u.SharesKeys r.accountId keys ∧
      keys.Opens tx r.index r.kind r.account := by
  simp only [sharedUpdates, bind_eq_ok, pure, Except.pure, Except.ok.injEq] at h
  obtain ⟨sharedKeys, hkeys, received, hreceived, rfl⟩ := h
  have hshares : ∀ accountId keys, (accountId, keys) ∈ sharedKeys ↔
      u.SharesKeys accountId keys := by
    intro accountId keys
    rw [mem_of_mapM hkeys]
    simp only [bind_eq_ok, Except.ok.injEq]
    constructor
    · rintro ⟨⟨id, holder⟩, hmem, keys', hholder, heq⟩
      cases heq
      exact ⟨holder, hmem, hholder⟩
    · rintro ⟨holder, hmem, hholder⟩
      exact ⟨(accountId, holder), hmem, keys, hholder, rfl⟩
  rw [List.mem_flatten]
  constructor
  · rintro ⟨rs, hrs, hr⟩
    obtain ⟨⟨id, keys⟩, hmem, hopen⟩ := (mem_of_mapM hreceived).1 hrs
    simp only [bind_eq_ok, Except.ok.injEq] at hopen
    obtain ⟨openings, hopenings, rfl⟩ := hopen
    obtain ⟨⟨i, kind, account⟩, hopened, rfl⟩ := List.mem_map.1 hr
    exact ⟨keys, (hshares id keys).1 hmem, (ViewingKeys.mem_openings hopenings).1 hopened⟩
  · rintro ⟨keys, hshared, hopens⟩
    have hmem := (hshares r.accountId keys).2 hshared
    obtain ⟨rs, hrs⟩ := exists_of_mapM hreceived hmem
    refine ⟨rs, (mem_of_mapM hreceived).2 ⟨_, hmem, hrs⟩, ?_⟩
    simp only [bind_eq_ok, Except.ok.injEq] at hrs
    obtain ⟨openings, hopenings, rfl⟩ := hrs
    exact List.mem_map.2 ⟨_, (ViewingKeys.mem_openings hopenings).2 hopens, rfl⟩

omit [ChaCha20] [Secp256k1] in
theorem sameShared_of_foldlM {u' : UserKeyChain} (h : l.foldlM storeReceived u = .ok u') :
    SameShared u u' := by
  induction l generalizing u with
  | nil =>
      cases h
      exact .refl _
  | cons r l ih =>
      rw [List.foldlM_cons] at h
      obtain ⟨u₁, hstore, hrest⟩ := bind_eq_ok.1 h
      exact (sameShared_insert (mapError_eq_ok.1 hstore)).trans (ih hrest)

omit [ChaCha20] in
/-- Storing accounts does not change which shared accounts a key belongs to. -/
theorem SameShared.sharesKeys {u' : UserKeyChain} (h : SameShared u u') {accountId : AccountId}
    {keys : ViewingKeys} : u'.SharesKeys accountId keys ↔ u.SharesKeys accountId keys := by
  constructor
  · rintro ⟨holder, hmem, hkeys⟩
    exact ⟨holder, h.symm.mem_sharedKeys hmem, hkeys⟩
  · rintro ⟨holder, hmem, hkeys⟩
    exact ⟨holder, h.mem_sharedKeys hmem, hkeys⟩

/-- What is stored, and under which ids. -/
theorem mem_stored (h : u.stored tx = .ok l) {r : Received} :
    r ∈ l ↔ (∃ keys ∈ u.viewingKeys, keys.Opens tx r.index r.kind r.account ∧
        r.accountId = AccountId.forPrivateAccount keys.npk r.kind) ∨
      ∃ keys, u.SharesKeys r.accountId keys ∧ keys.Opens tx r.index r.kind r.account := by
  simp only [stored, bind_eq_ok, pure, Except.pure, Except.ok.injEq] at h
  obtain ⟨affected, haffected, u', hstore, updates, hupdates, rfl⟩ := h
  rw [List.mem_append, mem_affectedAccounts haffected, mem_sharedUpdates hupdates]
  simp only [(sameShared_of_foldlM hstore).sharesKeys]

/-- Synchronisation stores just this, in two passes. -/
theorem exists_stored_of_sync {u' : UserKeyChain}
    (h : u.syncPrivateAccountsWithTx (.privacyPreserving tx) = .ok u') :
    ∃ affected u₁ updates, u.stored tx = .ok (affected ++ updates) ∧
      affected.foldlM storeReceived u = .ok u₁ ∧
      u' = updates.foldl (fun u r => u.updateSharedPrivateAccountState r.accountId r.account)
        u₁ := by
  simp only [syncPrivateAccountsWithTx, syncSharedPrivateAccountsWithTx, bind_eq_ok, pure,
    Except.pure, Except.ok.injEq] at h
  obtain ⟨affected, haffected, u₁, hstore, updates, hupdates, rfl⟩ := h
  refine ⟨affected, u₁, updates, ?_, hstore, rfl⟩
  simp only [stored, bind_eq_ok, pure, Except.pure, Except.ok.injEq]
  exact ⟨affected, haffected, u₁, hstore, updates, hupdates, rfl⟩

end UserKeyChain

end

/-! ## Outputs made for the keys of a wallet -/

section

variable [Sha256]

/-- The chain backs an account stored under an id: it is what the commitment of the output it
comes from commits to. -/
def Received.Backed (tx : PrivacyPreservingTransaction) (r : Received) : Prop :=
  tx.message.newCommitments[r.index]? = some (Commitment.new r.accountId r.account)

variable [ChaCha20] [Secp256k1] [Zkvm]

/-- What the keys of a wallet open of a transaction is what its sender encrypted: for a key chain
in an output made for its nullifier key, for a shared account in an output of that account. -/
structure MadeFor (u : UserKeyChain) (tx : PrivacyPreservingTransaction)
    (input : PrivacyPreservingCircuitInput) : Prop where
  keyChain : ∀ keys ∈ u.viewingKeys, ∀ i kind account, keys.Opens tx i kind account →
    ∀ p, (privateEntries (circuitEntries input))[i]? = some p →
      p.1.identity.nullifierPublicKey = some keys.npk ∧ p.2.kind = kind ∧
        p.2.newAccount p.1.post = account
  shared : ∀ accountId keys, u.SharesKeys accountId keys → ∀ i kind account,
    keys.Opens tx i kind account → ∀ p, (privateEntries (circuitEntries input))[i]? = some p →
      p.2.accountId = accountId ∧ p.2.newAccount p.1.post = account

/-- What is hashed for the data of the private accounts of an input. -/
def dataStrings (input : PrivacyPreservingCircuitInput) : List Bytes :=
  (privateEntries (circuitEntries input)).map fun p => (p.2.newAccount p.1.post).data.bytes

/-- What the proof is accepted for is the journal of an accepted input that hashes within `S`, the
data of its private accounts included. -/
def SoundProofWithData (S : Set Bytes) (proof : Bytes) : Prop :=
  ∀ verifies journal, Zkvm.decodeReceipt proof = some verifies → verifies journal = true →
    ∃ input, circuit input = .ok journal ∧ ∀ s ∈ circuitStrings input ++ dataStrings input, s ∈ S

/-- The strings hashed for the ids and the commitments of what is stored are in `S`. -/
structure StoredIn (S : Set Bytes) (u : UserKeyChain) (tx : PrivacyPreservingTransaction)
    (l : List Received) : Prop where
  commitment : ∀ r ∈ l, commitmentPreimage r.accountId r.account ∈ S
  data : ∀ r ∈ l, r.account.data.bytes ∈ S
  accountId : ∀ keys ∈ u.viewingKeys, ∀ i kind account, keys.Opens tx i kind account →
    privateAccountPreimage keys.npk kind ∈ S

variable {S : Set Bytes} {st st' : V03State} {tx : PrivacyPreservingTransaction}
  {input : PrivacyPreservingCircuitInput} {blockId : BlockId} {timestamp : Timestamp}

omit [Secp256k1] in
/-- The commitments of a transaction are those of the private accounts of its input. -/
theorem getElem?_newCommitments (hcircuit : circuit input = .ok (tx.journal st)) (i : Nat) :
    tx.message.newCommitments[i]? =
      (privateEntries (circuitEntries input))[i]?.map newCommitment := by
  obtain ⟨_, _, _, _, _, hemitted⟩ := emitted_of_circuit hcircuit
  have hcommitments : tx.message.newCommitments = _ := hemitted.newCommitments
  rw [hcommitments, List.getElem?_map]

theorem ViewingKeys.Opens.exists_entry {keys : ViewingKeys} {i : Nat} {kind : PrivateAccountKind}
    {account : Account} (h : keys.Opens tx i kind account)
    (hcircuit : circuit input = .ok (tx.journal st)) :
    ∃ p, (privateEntries (circuitEntries input))[i]? = some p := by
  obtain ⟨_, commitment, _, _, _, hcommitment, _⟩ := h
  rw [getElem?_newCommitments hcircuit] at hcommitment
  obtain ⟨p, hp, _⟩ := Option.map_eq_some_iff.1 hcommitment
  exact ⟨p, hp⟩

omit [Secp256k1] in
/-- An account is backed if it is the one of its output, and stored under its id. -/
theorem backed_iff (hS : CollisionFree S) (hcircuit : circuit input = .ok (tx.journal st))
    (hstrings : ∀ s ∈ circuitStrings input ++ dataStrings input, s ∈ S)
    {r : Received} (hcommitment : commitmentPreimage r.accountId r.account ∈ S)
    (hbytes : r.account.data.bytes ∈ S) {p : Entry × NoteUpdate}
    (hp : (privateEntries (circuitEntries input))[r.index]? = some p) :
    r.Backed tx ↔ p.2.accountId = r.accountId ∧ p.2.newAccount p.1.post = r.account := by
  have hmem := List.mem_of_getElem? hp
  have hnotes := validNotes_of_circuit hcircuit fun s hs =>
    hstrings s (List.mem_append_left _ hs)
  have hdata : (p.2.newAccount p.1.post).data.bytes ∈ S :=
    hstrings _ (List.mem_append_right _ (List.mem_map.2 ⟨p, hmem, rfl⟩))
  rw [Received.Backed, getElem?_newCommitments hcircuit, hp, Option.map_some, Option.some.injEq,
    newCommitment]
  constructor
  · exact hS.commitment_new_inj (hnotes.target p hmem) hcommitment hdata hbytes
  · rintro ⟨hid, haccount⟩
    rw [hid, haccount]

/-- **Soundness of synchronisation.**  What a wallet stores of an accepted transaction is backed
by the chain exactly if every output that one of its keys opens was made for the key. -/
theorem sync_sound_iff [Schnorr] (hS : CollisionFree S) (hsound : SoundProofWithData S tx.proof)
    (haccepted : st.transitionFromPrivacyPreservingTransaction tx blockId timestamp = .ok st')
    {u : UserKeyChain} {l : List Received} (hstored : u.stored tx = .ok l)
    (hstrings : StoredIn S u tx l) :
    ∃ input, circuit input = .ok (tx.journal st) ∧
      ((∀ r ∈ l, r.Backed tx) ↔ MadeFor u tx input) := by
  obtain ⟨hvalid, _⟩ := validPrivate_of_transition haccepted
  obtain ⟨verifies, hdecode, hverifies⟩ := hvalid.proof
  obtain ⟨input, hcircuit, hinput⟩ := hsound _ _ hdecode hverifies
  have hcircuitStrings : ∀ s ∈ circuitStrings input, s ∈ S :=
    fun s hs => hinput s (List.mem_append_left _ hs)
  have hbacked : ∀ r ∈ l, ∀ p, (privateEntries (circuitEntries input))[r.index]? = some p →
      (r.Backed tx ↔ p.2.accountId = r.accountId ∧ p.2.newAccount p.1.post = r.account) :=
    fun r hr p hp => backed_iff hS hcircuit hinput (hstrings.commitment r hr)
      (hstrings.data r hr) hp
  refine ⟨input, hcircuit, fun h => ⟨?_, ?_⟩, fun hmade r hr => ?_⟩
  · intro keys hkeys i kind account hopens p hp
    have hr : (⟨i, AccountId.forPrivateAccount keys.npk kind, kind, account⟩ : Received) ∈ l :=
      (UserKeyChain.mem_stored hstored).2 (.inl ⟨keys, hkeys, hopens, rfl⟩)
    obtain ⟨hid, haccount⟩ := (hbacked _ hr p hp).1 (h _ hr)
    obtain ⟨npk, hnpk, hrecipient, hstring⟩ :=
      recipient_of_circuit hcircuit hcircuitStrings (List.mem_of_getElem? hp)
    obtain ⟨heq, hkind⟩ := hS.forPrivateAccount_inj hstring
      (hstrings.accountId keys hkeys i kind account hopens) (hrecipient.symm.trans hid)
    exact ⟨heq ▸ hnpk, hkind, haccount⟩
  · intro accountId keys hshares i kind account hopens p hp
    have hr : (⟨i, accountId, kind, account⟩ : Received) ∈ l :=
      (UserKeyChain.mem_stored hstored).2 (.inr ⟨keys, hshares, hopens⟩)
    exact (hbacked _ hr p hp).1 (h _ hr)
  · rcases (UserKeyChain.mem_stored hstored).1 hr with
      ⟨keys, hkeys, hopens, hid⟩ | ⟨keys, hshares, hopens⟩
    · obtain ⟨p, hp⟩ := hopens.exists_entry hcircuit
      obtain ⟨hnpk, hkind, haccount⟩ := hmade.keyChain keys hkeys _ _ _ hopens p hp
      obtain ⟨npk, hnpk', hrecipient, _⟩ :=
        recipient_of_circuit hcircuit hcircuitStrings (List.mem_of_getElem? hp)
      rw [hnpk, Option.some.injEq] at hnpk'
      refine (hbacked r hr p hp).2 ⟨?_, haccount⟩
      rw [hrecipient, hid, hkind, hnpk']
    · obtain ⟨p, hp⟩ := hopens.exists_entry hcircuit
      exact (hbacked r hr p hp).2 (hmade.shared _ keys hshares _ _ _ hopens p hp)

/-! ## Honest senders -/

/-- Whoever holds the secret of an output opens it to what was encrypted. -/
theorem eq_of_opens (hlawful : LawfulKeystream) (hcircuit : circuit input = .ok (tx.journal st))
    {keys : ViewingKeys} {i : Nat} {kind : PrivateAccountKind} {account : Account}
    (hopens : keys.Opens tx i kind account) {data : EncryptedAccountData}
    (hget : tx.message.encryptedPrivatePostStates[i]? = some data) {p : Entry × NoteUpdate}
    (hp : (privateEntries (circuitEntries input))[i]? = some p)
    (hsecret : SharedSecretKey.new keys.vsk data.epk = .ok p.2.ssk) :
    p.2.kind = kind ∧ p.2.newAccount p.1.post = account := by
  obtain ⟨data', commitment, sharedSecret, hget', _, hcommitment, hsecret', hdecrypt⟩ := hopens
  rw [hget, Option.some.injEq] at hget'
  subst hget'
  rw [hsecret, Except.ok.injEq] at hsecret'
  subst hsecret'
  rw [getElem?_newCommitments hcircuit, hp, Option.map_some, Option.some.injEq] at hcommitment
  have hciphertext : tx.message.encryptedPrivatePostStates.map (·.ciphertext) = _ :=
    ciphertexts_of_circuit hcircuit
  have hsealed := congrArg (·[i]?) hciphertext
  simp only [List.getElem?_map, hget, Option.map_some, List.getElem?_mapIdx, hp,
    Option.some.injEq] at hsealed
  rw [hsealed, ← hcommitment, sealedOutput, decrypt_encrypt hlawful, Option.some.injEq,
    Prod.mk.injEq] at hdecrypt
  exact hdecrypt

/-- The keys that an output with their view tag is made for: the secret is the one its ephemeral
key shares with them. -/
def SentTo (tx : PrivacyPreservingTransaction) (input : PrivacyPreservingCircuitInput)
    (keys : ViewingKeys) (P : Entry × NoteUpdate → Prop) : Prop :=
  ∀ (i : Nat) (data : EncryptedAccountData) (p : Entry × NoteUpdate),
    tx.message.encryptedPrivatePostStates[i]? = some data →
    computeViewTag keys.npk keys.vpk = .ok data.viewTag →
    (privateEntries (circuitEntries input))[i]? = some p →
      SharedSecretKey.new keys.vsk data.epk = .ok p.2.ssk ∧ P p

/-- A sender who encrypts each output with the secret that it shares with its owner makes it for
the owner. -/
theorem madeFor_of_sentTo (hlawful : LawfulKeystream)
    (hcircuit : circuit input = .ok (tx.journal st)) {u : UserKeyChain}
    (hkeyChain : ∀ keys ∈ u.viewingKeys, SentTo tx input keys fun p =>
      p.1.identity.nullifierPublicKey = some keys.npk)
    (hshared : ∀ accountId keys, u.SharesKeys accountId keys → SentTo tx input keys fun p =>
      p.2.accountId = accountId) : MadeFor u tx input := by
  refine ⟨fun keys hkeys i kind account hopens p hp => ?_,
    fun accountId keys hshares i kind account hopens p hp => ?_⟩
  · have hopened := hopens
    obtain ⟨data, _, _, hget, hview, _⟩ := hopened
    obtain ⟨hsecret, hnpk⟩ := hkeyChain keys hkeys i data p hget hview hp
    exact ⟨hnpk, eq_of_opens hlawful hcircuit hopens hget hp hsecret⟩
  · have hopened := hopens
    obtain ⟨data, _, _, hget, hview, _⟩ := hopened
    obtain ⟨hsecret, hid⟩ := hshared accountId keys hshares i data p hget hview hp
    exact ⟨hid, (eq_of_opens hlawful hcircuit hopens hget hp hsecret).2⟩

end

/-! ## An output that is not made for its reader -/

namespace Sample

/-- A cipher that repeats its key. -/
@[reducible] def xorCipher : ChaCha20 :=
  ⟨fun key bytes => bytes.zipIdx.map fun e => e.1 ^^^ key.toList.getD (e.2 % 32) 0⟩

end Sample

namespace ForeignOutput

def spendingKey : SecretSpendingKey := ⟨Vector.replicate 32 5⟩

/-- The keys at the path `0`, with a nullifier key. -/
def keyChain (npk : NullifierPublicKey) : KeyChain :=
  let _ := Sample.sha256
  ⟨spendingKey, spendingKey.producePrivateKeyHolder (some 0), npk,
    2 :: (spendingKey.generateViewingSecretKey (some 0)).toList⟩

/-- A wallet with these keys and no money. -/
def wallet (npk : NullifierPublicKey) : UserKeyChain :=
  let _ := Sample.sha256
  ⟨∅, ⟨Ledger.insertAll ∅ [([0], ⟨keyChain npk,
      Ledger.insertAll ∅ [(.regular 0, Account.default)], Bytes32.zero, some 0⟩)],
    Ledger.insertAll ∅ [(AccountId.forPrivateAccount npk (.regular 0), [0])]⟩, ∅, ∅⟩

/-- The nullifier key of the reader. -/
def readerKey : NullifierPublicKey :=
  let _ := Sample.sha256
  .ofSecretKey (spendingKey.generateNullifierSecretKey (some 0))

/-- The nullifier key of the sender. -/
def senderKey : NullifierPublicKey :=
  let _ := Sample.sha256
  .ofSecretKey SpentNote.nsk

/-- The secret that the sender shares with the reader. -/
def esk : Scalar := Vector.replicate 32 9

def ssk : SharedSecretKey :=
  let _ := Sample.curve
  valueD ⟨Bytes32.zero⟩ (SharedSecretKey.new esk (keyChain readerKey).viewingPublicKey)

/-- The sender transfers 20 to the account `9` and keeps 30, encrypted for the reader. -/
def input : PrivacyPreservingCircuitInput :=
  let _ := Sample.sha256
  ⟨[Sample.output SpentNote.script 2 none [⟨SpentNote.note, true, SpentNote.owner⟩,
      ⟨Sample.account (Sample.programId 2) 5, false, Sample.accountId 9⟩]
      (Sample.transferCodec.toVec (.transfer 20))],
    [.privateAuthorizedUpdate ssk SpentNote.nsk (1, [hashValue dummyCommitment.value]) 0,
      .publicAccount], Sample.programId 2⟩

def journal : PrivacyPreservingCircuitOutput :=
  let _ := Sample.sha256; let _ := Sample.zkvm SpentNote.script; let _ := Sample.xorCipher
  valueD ⟨[], [], [], [], [], .newUnbounded, .newUnbounded⟩ (circuit input)

def tx (npk : NullifierPublicKey) : PrivacyPreservingTransaction :=
  let _ := Sample.sha256; let _ := Sample.curve
  let viewTag := valueD 0 (computeViewTag npk (keyChain npk).viewingPublicKey)
  let epk := valueD [] (pointFromScalar esk)
  { Sample.privateTransaction journal with
    message := { (Sample.privateTransaction journal).message with
      encryptedPrivatePostStates := journal.ciphertexts.map fun ciphertext =>
        ⟨ciphertext, epk, viewTag⟩ } }

/-- What the keys of a wallet open. -/
def received (npk : NullifierPublicKey) : Received :=
  let _ := Sample.sha256; let _ := Sample.xorCipher; let _ := Sample.curve
  (valueD [] ((wallet npk).stored (tx npk))).headD ⟨0, ⟨Bytes32.zero⟩, .regular 0, Account.default⟩

def strings (npk : NullifierPublicKey) : List Bytes :=
  let _ := Sample.sha256; let _ := Sample.zkvm SpentNote.script
  let r := received npk
  commitmentPreimage r.accountId r.account :: r.account.data.bytes ::
    privateAccountPreimage npk r.kind :: (circuitStrings input ++ dataStrings input)

theorem soundProof (proof : Bytes) :
    let _ := Sample.sha256; let _ := Sample.xorCipher
    let _ := Sample.provingZkvm SpentNote.script [journal]
    SoundProofWithData { s | s ∈ strings senderKey } proof := by
  intro _ _ _ verifies journal' hdecode hverifies
  have hjournal := List.mem_singleton.1 (Sample.mem_of_verifies hdecode hverifies)
  have hcircuit : circuit input = .ok journal ∧
      ∀ s ∈ circuitStrings input ++ dataStrings input, s ∈ strings senderKey := by
    decide +kernel
  exact ⟨input, hjournal ▸ hcircuit.1, hcircuit.2⟩

/-- The keys of the wallet open one output. -/
theorem openings :
    let _ := Sample.sha256; let _ := Sample.xorCipher; let _ := Sample.curve
    ((wallet senderKey).viewingKeys = [(keyChain senderKey).viewingKeys (some [0])] ∧
      ((keyChain senderKey).viewingKeys (some [0])).openings (tx senderKey) =
        .ok [(0, (received senderKey).kind, (received senderKey).account)]) ∧
    (wallet senderKey).stored (tx senderKey) = .ok [received senderKey] := by
  decide +kernel

theorem storedIn :
    let _ := Sample.sha256; let _ := Sample.xorCipher; let _ := Sample.curve
    StoredIn { s | s ∈ strings senderKey } (wallet senderKey) (tx senderKey)
      [received senderKey] := by
  intro _ _ _
  refine ⟨fun r hr => ?_, fun r hr => ?_, fun keys hkeys i kind account hopens => ?_⟩
  · rw [List.mem_singleton.1 hr]
    exact List.mem_cons_self
  · rw [List.mem_singleton.1 hr]
    exact List.mem_cons_of_mem _ List.mem_cons_self
  · rw [openings.1.1, List.mem_singleton] at hkeys
    subst hkeys
    have hmem := (ViewingKeys.mem_openings openings.1.2).2 hopens
    rw [List.mem_singleton, Prod.mk.injEq, Prod.mk.injEq] at hmem
    rw [hmem.2.1]
    exact List.mem_cons_of_mem _ (List.mem_cons_of_mem _ List.mem_cons_self)

end ForeignOutput

instance [Sha256] (tx : PrivacyPreservingTransaction) (r : Received) : Decidable (r.Backed tx) :=
  inferInstanceAs (Decidable (_ = _))

/-- A wallet stores an account with a balance of 30 under an id of its own that no commitment of
the accepted transaction is for. -/
theorem foreign_output_is_stored :
    let _ := Sample.sha256; let _ := Sample.xorCipher; let _ := Sample.curve
    let _ := Sample.provingZkvm SpentNote.script [ForeignOutput.journal]
    let _ := Sample.schnorr
    circuit ForeignOutput.input =
        .ok ((ForeignOutput.tx ForeignOutput.readerKey).journal SpentNote.genesis) ∧
      (SpentNote.genesis.transitionFromPrivacyPreservingTransaction
        (ForeignOutput.tx ForeignOutput.readerKey) 0 0).isOk = true ∧
      (ForeignOutput.wallet ForeignOutput.readerKey).stored
          (ForeignOutput.tx ForeignOutput.readerKey) =
        .ok [ForeignOutput.received ForeignOutput.readerKey] ∧
      ((ForeignOutput.wallet ForeignOutput.readerKey).syncPrivateAccountsWithTx
          (.privacyPreserving (ForeignOutput.tx ForeignOutput.readerKey))).map (fun u =>
            (u.privateAccount (ForeignOutput.received ForeignOutput.readerKey).accountId).map
              (·.account)) =
        .ok (some (ForeignOutput.received ForeignOutput.readerKey).account) ∧
      (ForeignOutput.received ForeignOutput.readerKey).account.balance = 30 ∧
      ¬ (ForeignOutput.received ForeignOutput.readerKey).Backed
        (ForeignOutput.tx ForeignOutput.readerKey) := by
  intro _ _ _ _ _
  decide +kernel

/-- The same output is backed in a wallet with the key of the sender, and was made for it. -/
theorem sync_sound_iff_sender :
    let _ := Sample.sha256; let _ := Sample.xorCipher; let _ := Sample.curve
    let _ := Sample.provingZkvm SpentNote.script [ForeignOutput.journal]
    (ForeignOutput.received ForeignOutput.senderKey).Backed
        (ForeignOutput.tx ForeignOutput.senderKey) ∧
      ∃ input, circuit input =
          .ok ((ForeignOutput.tx ForeignOutput.senderKey).journal SpentNote.genesis) ∧
        MadeFor (ForeignOutput.wallet ForeignOutput.senderKey)
          (ForeignOutput.tx ForeignOutput.senderKey) input := by
  intro _ _ _ _
  let _ := Sample.schnorr
  obtain ⟨hdigests, haccepted, hbacked⟩ :
      (((ForeignOutput.strings ForeignOutput.senderKey).dedup.map sha256).Nodup ∧
        Bytes32.zero ∉ (ForeignOutput.strings ForeignOutput.senderKey).dedup.map sha256) ∧
      (SpentNote.genesis.transitionFromPrivacyPreservingTransaction
        (ForeignOutput.tx ForeignOutput.senderKey) 0 0).isOk = true ∧
      (ForeignOutput.received ForeignOutput.senderKey).Backed
        (ForeignOutput.tx ForeignOutput.senderKey) := by
    decide +kernel
  obtain ⟨input, hcircuit, hiff⟩ := sync_sound_iff (collisionFree_of_digests hdigests)
    (ForeignOutput.soundProof _) (eq_ok_valueD SpentNote.genesis haccepted)
    ForeignOutput.openings.2 ForeignOutput.storedIn
  refine ⟨hbacked, input, hcircuit, hiff.1 fun r hr => ?_⟩
  rw [List.mem_singleton.1 hr]
  exact hbacked

end ExecutionZone
