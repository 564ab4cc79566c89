import ExecutionZone.Programs.TokenSupply

/-!
# Fungible definitions as a state machine

What changes of a fungible definition are its supply and its authority.  `FungibleStep` lists what
the instructions make of the two, and whose authorisation they ask for; the name and the metadata
of the definition stay (`fungibleStep_of_postStates`).
-/

namespace ExecutionZone.Token

/-- Definitions come first. -/
theorem Instruction.exists_roles (instruction : Instruction) :
    ∃ role rest, instruction.roles = some role :: rest ∧ some Role.definition ∉ rest := by
  cases instruction <;> exact ⟨_, _, rfl, by decide⟩

/-- What an instruction makes of the supply and the authority of the fungible definition it is
given first. -/
inductive FungibleStep (preStates : List AccountWithMetadata) (supply : U128)
    (authority : Authority) : Instruction → U128 → Authority → Prop
  | passed : FungibleStep preStates supply authority .initializeAccount supply authority
  | burned {x supply' : U128} (h : supply'.toNat + x.toNat = supply.toNat) :
      FungibleStep preStates supply authority (.burn x) supply' authority
  | minted {x supply' : U128} {definition : AccountWithMetadata}
      (hfirst : preStates.head? = some definition) (hauth : definition.isAuthorized = true)
      (h : supply'.toNat = supply.toNat + x.toNat) :
      FungibleStep preStates supply authority (.mint x) supply' authority
  | mintedWithAuthority {x supply' : U128} {definition holding signer : AccountWithMetadata}
      (hpre : preStates = [definition, holding, signer]) (hauth : signer.isAuthorized = true)
      (hadmin : authority.admin = some signer.accountId)
      (h : supply'.toNat = supply.toNat + x.toNat) :
      FungibleStep preStates supply authority (.mintWithAuthority x) supply' authority
  | rotated {newAdmin : AccountId} {definition signer : AccountWithMetadata}
      (hpre : preStates = [definition, signer]) (hauth : signer.isAuthorized = true)
      (hadmin : authority.admin = some signer.accountId) :
      FungibleStep preStates supply authority (.rotateAuthority newAdmin) supply (.new newAdmin)
  | revoked {definition signer : AccountWithMetadata} (hpre : preStates = [definition, signer])
      (hauth : signer.isAuthorized = true) (hadmin : authority.admin = some signer.accountId) :
      FungibleStep preStates supply authority .revokeAuthority supply .renounced

section

variable {name : Text} {supply : U128} {metadataId : Option AccountId} {authority : Authority}
  {definition : AccountWithMetadata} {x : U128} {posts : List AccountPostState}

/-- The first account of a call is a fungible definition before and after it. -/
def Redefines (name : Text) (metadataId : Option AccountId) (supply : U128) (authority : Authority)
    (instruction : Instruction) (preStates : List AccountWithMetadata)
    (posts : List AccountPostState) : Prop :=
  ∃ post rest supply' authority', posts = post :: rest ∧
    TokenDefinition.tryFrom post.account.data =
      some (.fungible name supply' metadataId authority') ∧
    FungibleStep preStates supply authority instruction supply' authority'

theorem burnFrom_fungible {holding holding' : TokenHolding} {d : TokenDefinition}
    (h : burnFrom x (.fungible name supply metadataId authority) holding = .ok (d, holding')) :
    ∃ supply', d = .fungible name supply' metadataId authority ∧
      supply'.toNat + x.toNat = supply.toNat := by
  cases holding with
  | fungible definitionId balance =>
      simp only [burnFrom, bind_eq_ok, expect_eq_ok, pure, Except.pure, Except.ok.injEq,
        Prod.mk.injEq] at h
      obtain ⟨_, _, supply', hsupply, rfl, _⟩ := h
      exact ⟨supply', rfl, U128.checkedSub_eq_some hsupply⟩
  | nftMaster definitionId printBalance => cases h
  | nftPrintedCopy definitionId owned => cases h

theorem mintTo_fungible {holding holding' : TokenHolding} {d : TokenDefinition}
    (h : mintTo x (.fungible name supply metadataId authority) holding = .ok (d, holding')) :
    ∃ supply', d = .fungible name supply' metadataId authority ∧
      supply'.toNat = supply.toNat + x.toNat := by
  cases holding with
  | fungible definitionId balance =>
      simp only [mintTo, bind_eq_ok, expect_eq_ok, pure, Except.pure, Except.ok.injEq,
        Prod.mk.injEq] at h
      obtain ⟨_, _, supply', hsupply, rfl, _⟩ := h
      exact ⟨supply', rfl, U128.checkedAdd_eq_some hsupply⟩
  | nftMaster definitionId printBalance => cases h
  | nftPrintedCopy definitionId owned => cases h

theorem redefines_of_burn {holding : AccountWithMetadata} {preStates : List AccountWithMetadata}
    (hread : TokenDefinition.tryFrom definition.account.data =
      some (.fungible name supply metadataId authority))
    (h : burn definition holding x = .ok posts) :
    Redefines name metadataId supply authority (.burn x) preStates posts := by
  simp only [burn, bind_eq_ok, ensure_eq_ok, expect_eq_ok, exists_const, pure, Except.pure,
    Except.ok.injEq] at h
  obtain ⟨_, d, hd, _, _, _, ⟨d', _⟩, hburn, _, hdata, _, _, rfl⟩ := h
  rw [hread, Option.some.injEq] at hd
  subst hd
  obtain ⟨supply', rfl, hsupply⟩ := burnFrom_fungible hburn
  exact ⟨_, _, supply', authority, rfl, decode_of_dataOf hdata, .burned hsupply⟩

/-- Both ways of minting add to the supply. -/
theorem supply_of_mintOn {holding : AccountWithMetadata}
    (h : mintOn (.fungible name supply metadataId authority) definition holding x = .ok posts) :
    ∃ post rest supply', posts = post :: rest ∧
      TokenDefinition.tryFrom post.account.data =
        some (.fungible name supply' metadataId authority) ∧
      supply'.toNat = supply.toNat + x.toNat := by
  simp only [mintOn, bind_eq_ok, ensure_eq_ok, exists_const, pure, Except.pure,
    Except.ok.injEq] at h
  obtain ⟨_, _, _, ⟨d', _⟩, hmint, _, hdata, _, _, rfl⟩ := h
  obtain ⟨supply', rfl, hsupply⟩ := mintTo_fungible hmint
  exact ⟨_, _, supply', rfl, decode_of_dataOf hdata, hsupply⟩

theorem redefines_of_mint {holding : AccountWithMetadata} {preStates : List AccountWithMetadata}
    (hfirst : preStates.head? = some definition)
    (hread : TokenDefinition.tryFrom definition.account.data =
      some (.fungible name supply metadataId authority))
    (h : mint definition holding x = .ok posts) :
    Redefines name metadataId supply authority (.mint x) preStates posts := by
  simp only [mint, bind_eq_ok, ensure_eq_ok, expect_eq_ok, exists_const] at h
  obtain ⟨hauth, d, hd, h⟩ := h
  rw [hread, Option.some.injEq] at hd
  subst hd
  obtain ⟨post, rest, supply', rfl, hpost, hsupply⟩ := supply_of_mintOn h
  exact ⟨post, rest, supply', authority, rfl, hpost, .minted hfirst hauth hsupply⟩

theorem redefines_of_mintWithAuthority {holding signer : AccountWithMetadata}
    (hread : TokenDefinition.tryFrom definition.account.data =
      some (.fungible name supply metadataId authority))
    (h : mintWithAuthority definition holding signer x = .ok posts) :
    Redefines name metadataId supply authority (.mintWithAuthority x)
      [definition, holding, signer] posts := by
  simp only [mintWithAuthority, bind_eq_ok, expect_eq_ok, pure, Except.pure, Except.ok.injEq] at h
  obtain ⟨d, hd, recorded, hrecorded, _, hgate, _, hmint, rfl⟩ := h
  rw [hread, Option.some.injEq] at hd
  subst hd
  rw [TokenDefinition.authority?, Option.some.injEq] at hrecorded
  subst hrecorded
  obtain ⟨hauth, hadmin⟩ := Authority.gate_eq_ok hgate
  obtain ⟨post, rest, supply', rfl, hpost, hsupply⟩ := supply_of_mintOn hmint
  exact ⟨post, _, supply', authority, rfl, hpost,
    .mintedWithAuthority rfl hauth hadmin hsupply⟩

/-- Rotating and revoking rewrite the authority only. -/
theorem authority_of_updateAuthority {update : Authority → Except Panic Authority}
    {unsupported : String} {signer : AccountWithMetadata}
    (hread : TokenDefinition.tryFrom definition.account.data =
      some (.fungible name supply metadataId authority))
    (h : updateAuthority update unsupported definition signer = .ok posts) :
    ∃ post rest authority', posts = post :: rest ∧ update authority = .ok authority' ∧
      TokenDefinition.tryFrom post.account.data =
        some (.fungible name supply metadataId authority') := by
  simp only [updateAuthority, bind_eq_ok, expect_eq_ok, hread, Option.some.injEq,
    exists_eq_left', pure, Except.pure, Except.ok.injEq] at h
  obtain ⟨authority', hupdate, _, hdata, rfl⟩ := h
  exact ⟨_, _, authority', rfl, hupdate, decode_of_dataOf hdata⟩

theorem redefines_of_rotateAuthority {signer : AccountWithMetadata} {newAdmin : AccountId}
    (hread : TokenDefinition.tryFrom definition.account.data =
      some (.fungible name supply metadataId authority))
    (h : rotateAuthority definition signer newAdmin = .ok posts) :
    Redefines name metadataId supply authority (.rotateAuthority newAdmin) [definition, signer]
      posts := by
  obtain ⟨post, rest, authority', rfl, hupdate, hpost⟩ := authority_of_updateAuthority hread h
  obtain ⟨_, hgate, hnew⟩ := bind_eq_ok.1 hupdate
  cases hnew
  obtain ⟨hauth, hadmin⟩ := Authority.gate_eq_ok hgate
  exact ⟨post, rest, supply, _, rfl, hpost, .rotated rfl hauth hadmin⟩

theorem redefines_of_revokeAuthority {signer : AccountWithMetadata}
    (hread : TokenDefinition.tryFrom definition.account.data =
      some (.fungible name supply metadataId authority))
    (h : revokeAuthority definition signer = .ok posts) :
    Redefines name metadataId supply authority .revokeAuthority [definition, signer] posts := by
  obtain ⟨post, rest, authority', rfl, hupdate, hpost⟩ := authority_of_updateAuthority hread h
  obtain ⟨_, hgate, hnew⟩ := bind_eq_ok.1 hupdate
  cases hnew
  obtain ⟨hauth, hadmin⟩ := Authority.gate_eq_ok hgate
  exact ⟨post, rest, supply, _, rfl, hpost, .revoked rfl hauth hadmin⟩

/-- **Definitions.**  What an instruction makes of a fungible definition it is given first and
takes for a definition. -/
theorem fungibleStep_of_postStates {instruction : Instruction} {rest : List AccountWithMetadata}
    (hread : TokenDefinition.tryFrom definition.account.data =
      some (.fungible name supply metadataId authority))
    (hrole : instruction.roles.head? = some (some .definition))
    (h : postStates (definition :: rest) instruction = .ok posts) :
    Redefines name metadataId supply authority instruction (definition :: rest) posts := by
  -- a new definition is made of a default account only
  have hdefault : definition.account ≠ Account.default := by
    intro hdefault
    rw [hdefault, tryFrom_default.2] at hread
    cases hread
  cases instruction with
  | transfer x => cases hrole
  | printNft => cases hrole
  | newFungibleDefinition newName totalSupply =>
      simp only [postStates] at h
      split at h
      · rename_i heq
        cases heq
        simp only [newFungibleDefinition, newFungible, bind_eq_ok, ensure_eq_ok] at h
        obtain ⟨_, hnew, _⟩ := h
        exact absurd hnew hdefault
      · cases h
  | newFungibleDefinitionWithAuthority newName totalSupply mintAuthority =>
      simp only [postStates] at h
      split at h
      · rename_i heq
        cases heq
        simp only [newFungibleDefinitionWithAuthority, newFungible, bind_eq_ok, ensure_eq_ok] at h
        obtain ⟨_, hnew, _⟩ := h
        exact absurd hnew hdefault
      · cases h
  | newDefinitionWithMetadata newDefinition metadata =>
      simp only [postStates] at h
      split at h
      · rename_i heq
        cases heq
        simp only [newDefinitionWithMetadata, bind_eq_ok, ensure_eq_ok] at h
        obtain ⟨_, hnew, _⟩ := h
        exact absurd hnew hdefault
      · cases h
  | initializeAccount =>
      simp only [postStates] at h
      split at h
      · rename_i heq
        cases heq
        simp only [initializeAccount, bind_eq_ok, ensure_eq_ok, expect_eq_ok, exists_const, pure,
          Except.pure, Except.ok.injEq] at h
        obtain ⟨_, _, _, _, _, rfl⟩ := h
        exact ⟨_, _, supply, authority, rfl, hread, .passed⟩
      · cases h
  | burn x =>
      simp only [postStates] at h
      split at h
      · rename_i heq
        cases heq
        exact redefines_of_burn hread h
      · cases h
  | mint x =>
      simp only [postStates] at h
      split at h
      · rename_i heq
        cases heq
        exact redefines_of_mint rfl hread h
      · cases h
  | mintWithAuthority x =>
      simp only [postStates] at h
      split at h
      · rename_i heq
        cases heq
        exact redefines_of_mintWithAuthority hread h
      · cases h
  | rotateAuthority newAdmin =>
      simp only [postStates] at h
      split at h
      · rename_i heq
        cases heq
        exact redefines_of_rotateAuthority hread h
      · cases h
  | revokeAuthority =>
      simp only [postStates] at h
      split at h
      · rename_i heq
        cases heq
        exact redefines_of_revokeAuthority hread h
      · cases h

end

end ExecutionZone.Token
