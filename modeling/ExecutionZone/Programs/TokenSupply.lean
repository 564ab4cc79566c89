import ExecutionZone.Programs.TokenEffects

/-!
# Supplies and holdings

Each instruction of the token program reads and creates its accounts in fixed roles.  What it
adds to the holdings of a token in the accounts it takes for holdings, it adds to the supply in
the account it takes for the definition of the token (`conserves_of_postStates`), for both
kinds of tokens and all eleven instructions.  Nothing here looks at the owners of accounts.
-/

namespace ExecutionZone.Token

/-! ## Roles and kinds -/

/-- What an account of the token program is. -/
inductive Role where
  | definition
  | holding
  | metadata
deriving DecidableEq

/-- The roles in which an instruction reads or creates its accounts.  An authority account is
only asked for its id and whether it is authorised. -/
def Instruction.roles : Instruction → List (Option Role)
  | .transfer _ | .printNft => [some .holding, some .holding]
  | .newFungibleDefinition .. | .newFungibleDefinitionWithAuthority .. | .initializeAccount
  | .burn _ | .mint _ => [some .definition, some .holding]
  | .newDefinitionWithMetadata .. => [some .definition, some .holding, some .metadata]
  | .mintWithAuthority _ => [some .definition, some .holding, none]
  | .rotateAuthority _ | .revokeAuthority => [some .definition, none]

inductive Kind where
  | fungible
  | nonFungible
deriving DecidableEq

def TokenDefinition.kind : TokenDefinition → Kind
  | .fungible .. => .fungible
  | .nonFungible .. => .nonFungible

/-- The total or printable supply. -/
def TokenDefinition.supply : TokenDefinition → Nat
  | .fungible _ totalSupply _ _ => totalSupply.toNat
  | .nonFungible _ printableSupply _ => printableSupply.toNat

def TokenHolding.kind : TokenHolding → Kind
  | .fungible .. => .fungible
  | .nftMaster .. | .nftPrintedCopy .. => .nonFungible

@[simp] theorem TokenHolding.kind_zeroizedCloneFrom (h : TokenHolding) :
    h.zeroizedCloneFrom.kind = h.kind := by
  cases h <;> rfl

@[simp] theorem TokenHolding.amount_zeroizedFromDefinition (id : AccountId) (d : TokenDefinition) :
    (zeroizedFromDefinition id d).amount = 0 := by
  cases d <;> rfl

section

variable (kind : Kind) (token : AccountId)

/-- How much of a token a holding holds. -/
def TokenHolding.amountOf (h : TokenHolding) : Nat :=
  if h.kind = kind ∧ h.definitionId = token then h.amount else 0

/-- The supply a definition in the account `id` gives to a token. -/
def TokenDefinition.supplyOf (id : AccountId) (d : TokenDefinition) : Nat :=
  if d.kind = kind ∧ id = token then d.supply else 0

/-- How much of a token account data holds. -/
def heldIn (data : Data) : Nat := (TokenHolding.tryFrom data).elim 0 (·.amountOf kind token)

/-- The supply that data of the account `id` gives to a token. -/
def suppliedIn (id : AccountId) (data : Data) : Nat :=
  (TokenDefinition.tryFrom data).elim 0 (·.supplyOf kind token id)

/-- What data holds in a role. -/
def heldAs (role : Option Role) (data : Data) : Nat :=
  if role = some .holding then heldIn kind token data else 0

/-- The supply that data gives in a role. -/
def suppliedAs (role : Option Role) (id : AccountId) (data : Data) : Nat :=
  if role = some .definition then suppliedIn kind token id data else 0

end

section

variable (kind : Kind) (token : AccountId)

theorem heldIn_of_tryFrom {data : Data} {h : TokenHolding}
    (hread : TokenHolding.tryFrom data = some h) :
    heldIn kind token data = h.amountOf kind token := by
  rw [heldIn, hread]
  rfl

theorem suppliedIn_of_tryFrom {id : AccountId} {data : Data} {d : TokenDefinition}
    (hread : TokenDefinition.tryFrom data = some d) :
    suppliedIn kind token id data = d.supplyOf kind token id := by
  rw [suppliedIn, hread]
  rfl

/-- The default account is neither a holding nor a definition. -/
theorem tryFrom_default : TokenHolding.tryFrom Account.default.data = none ∧
    TokenDefinition.tryFrom Account.default.data = none := ⟨rfl, rfl⟩

@[simp] theorem heldIn_default : heldIn kind token Account.default.data = 0 := rfl

@[simp] theorem suppliedIn_default (id : AccountId) :
    suppliedIn kind token id Account.default.data = 0 := rfl

/-- An account gives no supply to other tokens. -/
theorem suppliedIn_of_ne {id : AccountId} (hid : id ≠ token) (data : Data) :
    suppliedIn kind token id data = 0 := by
  unfold suppliedIn
  cases TokenDefinition.tryFrom data with
  | none => rfl
  | some d => exact if_neg fun h => hid h.2

/-- A fresh holding is empty, so the default account holds as much. -/
theorem heldIn_of_holdingOr {account : Account} {fresh h : TokenHolding} {invalid : String}
    (hread : holdingOr account fresh invalid = .ok h) (hfresh : fresh.amount = 0) :
    heldIn kind token account.data = h.amountOf kind token := by
  rcases holdingOr_eq_ok.1 hread with ⟨rfl, rfl⟩ | ⟨_, hread⟩
  · rw [heldIn_default, TokenHolding.amountOf, hfresh, ite_self]
  · exact heldIn_of_tryFrom kind token hread

/-! ## Arithmetic -/

/-- Moving within one token. -/
theorem TokenHolding.amountOf_add {hs hr hs' hr' : TokenHolding}
    (hkind : hr.kind = hs.kind ∧ hs'.kind = hs.kind ∧ hr'.kind = hs.kind)
    (hid : hr.definitionId = hs.definitionId ∧ hs'.definitionId = hs.definitionId ∧
      hr'.definitionId = hs.definitionId)
    (hamount : hs'.amount + hr'.amount = hs.amount + hr.amount) :
    hs'.amountOf kind token + hr'.amountOf kind token =
      hs.amountOf kind token + hr.amountOf kind token := by
  simp only [amountOf, hkind, hid]
  split
  · exact hamount
  · rfl

/-- Adding to a holding and to the supply of its token, or taking from both. -/
theorem amountOf_add_supplyOf {d d' : TokenDefinition} {h h' : TokenHolding} {id : AccountId}
    (hkind : h.kind = d.kind ∧ d'.kind = d.kind ∧ h'.kind = d.kind)
    (hid : h.definitionId = id ∧ h'.definitionId = id)
    (hamount : h'.amount + d.supply = h.amount + d'.supply) :
    h'.amountOf kind token + d.supplyOf kind token id =
      h.amountOf kind token + d'.supplyOf kind token id := by
  simp only [TokenHolding.amountOf, TokenDefinition.supplyOf, hkind, hid]
  split
  · exact hamount
  · rfl

/-- All of a new token is in its first holding. -/
theorem amountOf_eq_supplyOf {d : TokenDefinition} {h : TokenHolding} {id : AccountId}
    (hkind : h.kind = d.kind) (hid : h.definitionId = id) (hamount : h.amount = d.supply) :
    h.amountOf kind token = d.supplyOf kind token id := by
  rw [TokenHolding.amountOf, TokenDefinition.supplyOf, hkind, hid, hamount]

theorem amountOf_of_amount_eq_zero {h : TokenHolding} (hzero : h.amount = 0) :
    h.amountOf kind token = 0 := by
  rw [TokenHolding.amountOf, hzero, ite_self]

end

/-! ## What an instruction conserves -/

/-- The account is claimed if it is the default one, or its data stays. -/
def Settled (pre : AccountWithMetadata) (post : AccountPostState) : Prop :=
  pre.account = Account.default → post.claim ≠ none ∨ post.account.data = pre.account.data

/-- The accounts have roles or keep their data, default accounts are claimed or left alone, and
for every token what is added to holdings is added to the supply. -/
structure Conserves (roles : List (Option Role)) (pres : List AccountWithMetadata)
    (posts : List AccountPostState) : Prop where
  length : roles.length = pres.length
  settled : List.Forall₂ Settled pres posts
  kept : ∀ e ∈ roles.zip (pres.zip posts), e.1 = none → e.2.2.account.data = e.2.1.account.data
  balanced : ∀ kind token,
    ((roles.zip (pres.zip posts)).map fun e => heldAs kind token e.1 e.2.2.account.data).sum +
      ((roles.zip (pres.zip posts)).map fun e =>
        suppliedAs kind token e.1 e.2.1.accountId e.2.1.account.data).sum =
    ((roles.zip (pres.zip posts)).map fun e => heldAs kind token e.1 e.2.1.account.data).sum +
      ((roles.zip (pres.zip posts)).map fun e =>
        suppliedAs kind token e.1 e.2.1.accountId e.2.2.account.data).sum

theorem settled_of_holding {pre : AccountWithMetadata} {post : AccountPostState} {h : TokenHolding}
    (hread : TokenHolding.tryFrom pre.account.data = some h) : Settled pre post := by
  intro hdefault
  rw [hdefault, tryFrom_default.1] at hread
  cases hread

theorem settled_of_definition {pre : AccountWithMetadata} {post : AccountPostState}
    {d : TokenDefinition} (hread : TokenDefinition.tryFrom pre.account.data = some d) :
    Settled pre post := by
  intro hdefault
  rw [hdefault, tryFrom_default.2] at hread
  cases hread

theorem settled_newClaimed {pre : AccountWithMetadata} {account : Account} :
    Settled pre (.newClaimed account .authorized) := fun _ => .inl (by rintro ⟨⟩)

theorem settled_newClaimedIfDefault {pre : AccountWithMetadata} {data : Data} :
    Settled pre (.newClaimedIfDefault (withData pre.account data) .authorized) := by
  intro hdefault
  refine .inl ?_
  rw [hdefault]
  rintro ⟨⟩

section

variable {pre₁ pre₂ : AccountWithMetadata} {post₁ post₂ : AccountPostState}

/-- Two holdings. -/
theorem conserves_holdings (h₁ : Settled pre₁ post₁) (h₂ : Settled pre₂ post₂)
    (h : ∀ kind token,
      heldIn kind token post₁.account.data + heldIn kind token post₂.account.data =
        heldIn kind token pre₁.account.data + heldIn kind token pre₂.account.data) :
    Conserves [some .holding, some .holding] [pre₁, pre₂] [post₁, post₂] := by
  refine ⟨rfl, .cons h₁ (.cons h₂ .nil), by simp, fun kind token => ?_⟩
  have hsum := h kind token
  simp [heldAs, suppliedAs]
  omega

/-- A definition and a holding. -/
theorem conserves_supply (h₁ : Settled pre₁ post₁) (h₂ : Settled pre₂ post₂)
    (h : ∀ kind token,
      heldIn kind token post₂.account.data +
          suppliedIn kind token pre₁.accountId pre₁.account.data =
        heldIn kind token pre₂.account.data +
          suppliedIn kind token pre₁.accountId post₁.account.data) :
    Conserves [some .definition, some .holding] [pre₁, pre₂] [post₁, post₂] := by
  refine ⟨rfl, .cons h₁ (.cons h₂ .nil), by simp, fun kind token => ?_⟩
  have hsum := h kind token
  simp [heldAs, suppliedAs]
  omega

/-- A definition alone. -/
theorem conserves_definition (h₁ : Settled pre₁ post₁)
    (h : ∀ kind token, suppliedIn kind token pre₁.accountId pre₁.account.data =
      suppliedIn kind token pre₁.accountId post₁.account.data) :
    Conserves [some .definition] [pre₁] [post₁] := by
  refine ⟨rfl, .cons h₁ .nil, by simp, fun kind token => ?_⟩
  have hsum := h kind token
  simp [heldAs, suppliedAs]
  omega

/-- A further account that is neither a definition nor a holding. -/
theorem Conserves.concat {roles : List (Option Role)} {pres : List AccountWithMetadata}
    {posts : List AccountPostState} (h : Conserves roles pres posts) {role : Option Role}
    (hdefinition : role ≠ some .definition) (hholding : role ≠ some .holding)
    (hsettled : Settled pre₁ post₁)
    (hkept : role = none → post₁.account.data = pre₁.account.data) :
    Conserves (roles ++ [role]) (pres ++ [pre₁]) (posts ++ [post₁]) := by
  have hzip : (roles ++ [role]).zip ((pres ++ [pre₁]).zip (posts ++ [post₁])) =
      roles.zip (pres.zip posts) ++ [(role, pre₁, post₁)] := by
    have hlen := h.settled.length_eq
    rw [List.zip_append hlen, List.zip_append (by rw [List.length_zip, h.length, hlen,
      Nat.min_self])]
    rfl
  refine ⟨?_, List.rel_append h.settled (.cons hsettled .nil), ?_, fun kind token => ?_⟩
  · rw [List.length_append, List.length_append, h.length]
    rfl
  · rw [hzip]
    intro e he
    rcases List.mem_append.1 he with he | he
    · exact h.kept e he
    · rw [List.mem_singleton.1 he]
      exact hkept
  · have hbalanced := h.balanced kind token
    rw [hzip]
    simpa [heldAs, suppliedAs, hdefinition, hholding] using hbalanced

end

/-! ## What is moved, minted and burned -/

theorem moveBalance_kind {x : U128} {sender recipient sender' recipient' : TokenHolding}
    (h : moveBalance x sender recipient = .ok (sender', recipient')) :
    recipient.kind = sender.kind ∧ sender'.kind = sender.kind ∧ recipient'.kind = sender.kind := by
  unfold moveBalance at h
  split at h
  · simp only [bind_eq_ok, pure, Except.pure, Except.ok.injEq, Prod.mk.injEq] at h
    obtain ⟨_, _, _, _, rfl, rfl⟩ := h
    exact ⟨rfl, rfl, rfl⟩
  · simp only [bind_eq_ok, pure, Except.pure, Except.ok.injEq, Prod.mk.injEq] at h
    obtain ⟨_, _, _, _, rfl, rfl⟩ := h
    exact ⟨rfl, rfl, rfl⟩
  · simp only [bind_eq_ok, pure, Except.pure, Except.ok.injEq, Prod.mk.injEq] at h
    obtain ⟨_, _, _, _, _, _, rfl, rfl⟩ := h
    exact ⟨rfl, rfl, rfl⟩
  · cases h

/-- What `burn` and both ways of minting do to the definition and the holding of one token. -/
structure Resupplied (d : TokenDefinition) (h : TokenHolding) (d' : TokenDefinition)
    (h' : TokenHolding) : Prop where
  kind : h.kind = d.kind ∧ d'.kind = d.kind ∧ h'.kind = d.kind
  definitionId : h'.definitionId = h.definitionId
  amount : h'.amount + d.supply = h.amount + d'.supply

theorem resupplied_of_burnFrom {x : U128} {d d' : TokenDefinition} {h h' : TokenHolding}
    (hburn : burnFrom x d h = .ok (d', h')) : Resupplied d h d' h' := by
  unfold burnFrom at hburn
  split at hburn
  · simp only [bind_eq_ok, expect_eq_ok, pure, Except.pure, Except.ok.injEq,
      Prod.mk.injEq] at hburn
    obtain ⟨balance, hbalance, supply, hsupply, rfl, rfl⟩ := hburn
    refine ⟨⟨rfl, rfl, rfl⟩, rfl, ?_⟩
    have hbalance := U128.checkedSub_eq_some hbalance
    have hsupply := U128.checkedSub_eq_some hsupply
    simp only [TokenHolding.amount, TokenDefinition.supply]
    omega
  · simp only [bind_eq_ok, expect_eq_ok, pure, Except.pure, Except.ok.injEq,
      Prod.mk.injEq] at hburn
    obtain ⟨supply, hsupply, balance, hbalance, rfl, rfl⟩ := hburn
    refine ⟨⟨rfl, rfl, rfl⟩, rfl, ?_⟩
    have hbalance := U128.checkedSub_eq_some hbalance
    have hsupply := U128.checkedSub_eq_some hsupply
    simp only [TokenHolding.amount, TokenDefinition.supply]
    omega
  · simp only [bind_eq_ok, ensure_eq_ok, expect_eq_ok, exists_const, pure, Except.pure,
      Except.ok.injEq, Prod.mk.injEq] at hburn
    obtain ⟨_, rfl, supply, hsupply, rfl, rfl⟩ := hburn
    refine ⟨⟨rfl, rfl, rfl⟩, rfl, ?_⟩
    have hsupply := U128.checkedSub_eq_some hsupply
    rw [show (1 : U128).toNat = 1 from rfl] at hsupply
    simp only [TokenHolding.amount, TokenDefinition.supply, Bool.toNat_false, Bool.toNat_true]
    omega
  · cases hburn

theorem resupplied_of_mintTo {x : U128} {d d' : TokenDefinition} {h h' : TokenHolding}
    (hmint : mintTo x d h = .ok (d', h')) : Resupplied d h d' h' := by
  unfold mintTo at hmint
  split at hmint
  · simp only [bind_eq_ok, expect_eq_ok, pure, Except.pure, Except.ok.injEq,
      Prod.mk.injEq] at hmint
    obtain ⟨balance, hbalance, supply, hsupply, rfl, rfl⟩ := hmint
    refine ⟨⟨rfl, rfl, rfl⟩, rfl, ?_⟩
    have hbalance := U128.checkedAdd_eq_some hbalance
    have hsupply := U128.checkedAdd_eq_some hsupply
    simp only [TokenHolding.amount, TokenDefinition.supply]
    omega
  · cases hmint
  · cases hmint
  · cases hmint

/-! ## The instructions -/

section

variable {definition holding : AccountWithMetadata} {x : U128} {posts : List AccountPostState}

theorem conserves_of_transfer {sender recipient : AccountWithMetadata}
    (h : transfer sender recipient x = .ok posts) :
    Conserves [some .holding, some .holding] [sender, recipient] posts := by
  simp only [transfer, bind_eq_ok, ensure_eq_ok, expect_eq_ok, exists_const, pure, Except.pure,
    Except.ok.injEq] at h
  obtain ⟨_, hs, hsender, hr, hrecipient, hdefinition, ⟨hs', hr'⟩, hmove, ds, hds, dr, hdr,
    rfl⟩ := h
  obtain ⟨hdefs, hdefr, hdebit, hcredit⟩ := moveBalance_eq_ok hmove
  have hamount : hs'.amount + hr'.amount = hs.amount + hr.amount := by omega
  refine conserves_holdings (settled_of_holding hsender) settled_newClaimedIfDefault
    fun kind token => ?_
  calc heldIn kind token ds + heldIn kind token dr
      = hs'.amountOf kind token + hr'.amountOf kind token := by
        rw [heldIn_of_tryFrom kind token (decode_of_dataOf hds),
          heldIn_of_tryFrom kind token (decode_of_dataOf hdr)]
    _ = hs.amountOf kind token + hr.amountOf kind token :=
        TokenHolding.amountOf_add kind token (moveBalance_kind hmove)
          ⟨hdefinition.symm, hdefs, hdefr.trans hdefinition.symm⟩ hamount
    _ = heldIn kind token sender.account.data + heldIn kind token recipient.account.data := by
        rw [heldIn_of_tryFrom kind token hsender,
          heldIn_of_holdingOr kind token hrecipient (TokenHolding.amount_zeroizedCloneFrom hs)]

/-- A new definition with a first holding of its supply. -/
theorem conserves_of_new {d : TokenDefinition} {h : TokenHolding} {dd dh : Data}
    (hdefinition : definition.account = Account.default)
    (hholding : holding.account = Account.default) (hdd : d.toData = .ok dd)
    (hdh : h.toData = .ok dh) (hkind : h.kind = d.kind)
    (hid : h.definitionId = definition.accountId) (hamount : h.amount = d.supply) :
    Conserves [some .definition, some .holding] [definition, holding]
      [.newClaimed (withData definition.account dd) .authorized,
        .newClaimed (withData holding.account dh) .authorized] := by
  refine conserves_supply settled_newClaimed settled_newClaimed fun kind token => ?_
  rw [hdefinition, hholding, heldIn_default, suppliedIn_default, Nat.add_zero, Nat.zero_add]
  calc heldIn kind token dh = h.amountOf kind token :=
        heldIn_of_tryFrom kind token (decode_of_dataOf hdh)
    _ = d.supplyOf kind token definition.accountId :=
        amountOf_eq_supplyOf kind token hkind hid hamount
    _ = suppliedIn kind token definition.accountId dd :=
        (suppliedIn_of_tryFrom kind token (decode_of_dataOf hdd)).symm

theorem conserves_of_newFungible {name : Text} {totalSupply : U128} {authority : Authority}
    (h : newFungible definition holding name totalSupply authority = .ok posts) :
    Conserves [some .definition, some .holding] [definition, holding] posts := by
  simp only [newFungible, bind_eq_ok, ensure_eq_ok, exists_const, pure, Except.pure,
    Except.ok.injEq] at h
  obtain ⟨hdefinition, hholding, dd, hdd, dh, hdh, rfl⟩ := h
  exact conserves_of_new hdefinition hholding hdd hdh rfl rfl rfl

theorem conserves_of_newDefinitionWithMetadata {metadata : AccountWithMetadata}
    {newDefinition : NewTokenDefinition} {newMetadata : NewTokenMetadata}
    (h : newDefinitionWithMetadata definition holding metadata newDefinition newMetadata =
      .ok posts) :
    Conserves [some .definition, some .holding, some .metadata] [definition, holding, metadata]
      posts := by
  simp only [newDefinitionWithMetadata, bind_eq_ok, ensure_eq_ok, exists_const, pure, Except.pure,
    Except.ok.injEq] at h
  obtain ⟨hdefinition, hholding, _, dd, hdd, dh, hdh, dm, _, rfl⟩ := h
  refine (conserves_of_new hdefinition hholding hdd hdh ?_ ?_ ?_).concat (by decide) (by decide)
    settled_newClaimed (by rintro ⟨⟩)
  · cases newDefinition <;> rfl
  · cases newDefinition <;> rfl
  · cases newDefinition <;> rfl

theorem conserves_of_initializeAccount (h : initializeAccount definition holding = .ok posts) :
    Conserves [some .definition, some .holding] [definition, holding] posts := by
  simp only [initializeAccount, bind_eq_ok, ensure_eq_ok, expect_eq_ok, exists_const, pure,
    Except.pure, Except.ok.injEq] at h
  obtain ⟨hholding, d, hread, dh, hdh, rfl⟩ := h
  refine conserves_supply (settled_of_definition hread) settled_newClaimed fun kind token => ?_
  have hheld : heldIn kind token dh = 0 :=
    (heldIn_of_tryFrom kind token (decode_of_dataOf hdh)).trans
      (amountOf_of_amount_eq_zero kind token (TokenHolding.amount_zeroizedFromDefinition _ d))
  rw [hholding, heldIn_default]
  exact congrArg (· + _) hheld

/-- A definition and a holding of its token that are both rewritten. -/
theorem conserves_of_resupplied {d d' : TokenDefinition} {h h' : TokenHolding} {dd dh : Data}
    {post : AccountPostState} (hread : TokenDefinition.tryFrom definition.account.data = some d)
    (hheld : ∀ kind token, heldIn kind token holding.account.data = h.amountOf kind token)
    (hid : definition.accountId = h.definitionId) (hresupplied : Resupplied d h d' h')
    (hdd : d'.toData = .ok dd) (hdh : h'.toData = .ok dh)
    (hpost : post.account = withData holding.account dh) (hsettled : Settled holding post) :
    Conserves [some .definition, some .holding] [definition, holding]
      [.new (withData definition.account dd), post] := by
  refine conserves_supply (settled_of_definition hread) hsettled fun kind token => ?_
  rw [hpost]
  calc heldIn kind token dh + suppliedIn kind token definition.accountId definition.account.data
      = h'.amountOf kind token + d.supplyOf kind token definition.accountId := by
        rw [heldIn_of_tryFrom kind token (decode_of_dataOf hdh),
          suppliedIn_of_tryFrom kind token hread]
    _ = h.amountOf kind token + d'.supplyOf kind token definition.accountId :=
        amountOf_add_supplyOf kind token hresupplied.kind
          ⟨hid.symm, hresupplied.definitionId.trans hid.symm⟩ hresupplied.amount
    _ = heldIn kind token holding.account.data + suppliedIn kind token definition.accountId dd := by
        rw [hheld, suppliedIn_of_tryFrom kind token (decode_of_dataOf hdd)]

theorem conserves_of_burn (h : burn definition holding x = .ok posts) :
    Conserves [some .definition, some .holding] [definition, holding] posts := by
  simp only [burn, bind_eq_ok, ensure_eq_ok, expect_eq_ok, exists_const, pure, Except.pure,
    Except.ok.injEq] at h
  obtain ⟨_, d, hread, held, hheld, hid, ⟨d', held'⟩, hburn, dd, hdd, dh, hdh, rfl⟩ := h
  exact conserves_of_resupplied hread (fun kind token => heldIn_of_tryFrom kind token hheld) hid
    (resupplied_of_burnFrom hburn) hdd hdh rfl (settled_of_holding hheld)

theorem conserves_of_mintOn {d : TokenDefinition}
    (hread : TokenDefinition.tryFrom definition.account.data = some d)
    (h : mintOn d definition holding x = .ok posts) :
    Conserves [some .definition, some .holding] [definition, holding] posts := by
  simp only [mintOn, bind_eq_ok, ensure_eq_ok, exists_const, pure, Except.pure,
    Except.ok.injEq] at h
  obtain ⟨held, hheld, hid, ⟨d', held'⟩, hmint, dd, hdd, dh, hdh, rfl⟩ := h
  refine conserves_of_resupplied hread (fun kind token => ?_) hid (resupplied_of_mintTo hmint) hdd
    hdh rfl settled_newClaimedIfDefault
  exact heldIn_of_holdingOr kind token hheld (TokenHolding.amount_zeroizedFromDefinition _ d)

theorem conserves_of_mint (h : mint definition holding x = .ok posts) :
    Conserves [some .definition, some .holding] [definition, holding] posts := by
  simp only [mint, bind_eq_ok, ensure_eq_ok, expect_eq_ok, exists_const] at h
  obtain ⟨_, d, hread, h⟩ := h
  exact conserves_of_mintOn hread h

/-- An authority account is claimed or passed through. -/
theorem settled_authority {pre : AccountWithMetadata} :
    Settled pre (.newClaimedIfDefault pre.account .authorized) :=
  fun _ => .inr rfl

theorem conserves_of_mintWithAuthority {authority : AccountWithMetadata}
    (h : mintWithAuthority definition holding authority x = .ok posts) :
    Conserves [some .definition, some .holding, none] [definition, holding, authority] posts := by
  simp only [mintWithAuthority, bind_eq_ok, expect_eq_ok, pure, Except.pure,
    Except.ok.injEq] at h
  obtain ⟨d, hread, _, _, _, _, _, hmint, rfl⟩ := h
  exact (conserves_of_mintOn hread hmint).concat (by decide) (by decide) settled_authority
    fun _ => rfl

theorem conserves_of_printNft {master printed : AccountWithMetadata}
    (h : printNft master printed = .ok posts) :
    Conserves [some .holding, some .holding] [master, printed] posts := by
  simp only [printNft, bind_eq_ok, ensure_eq_ok, expect_eq_ok, exists_const] at h
  obtain ⟨_, hprinted, held, hread, h⟩ := h
  cases held with
  | nftMaster definitionId printBalance =>
      simp only [bind_eq_ok, ensure_eq_ok, expect_eq_ok, exists_const, pure, Except.pure,
        Except.ok.injEq] at h
      obtain ⟨_, printBalance', hsub, dm, hdm, dp, hdp, rfl⟩ := h
      have hsub := U128.checkedSub_eq_some hsub
      refine conserves_holdings (settled_of_holding hread) settled_newClaimed
        fun kind token => ?_
      -- before, the default account holds as little as a copy that is not owned
      have hfresh : heldIn kind token printed.account.data =
          (TokenHolding.nftPrintedCopy definitionId false).amountOf kind token := by
        rw [hprinted, heldIn_default]
        exact (amountOf_of_amount_eq_zero kind token rfl).symm
      calc heldIn kind token dm + heldIn kind token dp
          = (TokenHolding.nftMaster definitionId printBalance').amountOf kind token +
              (TokenHolding.nftPrintedCopy definitionId true).amountOf kind token := by
            rw [heldIn_of_tryFrom kind token (decode_of_dataOf hdm),
              heldIn_of_tryFrom kind token (decode_of_dataOf hdp)]
        _ = (TokenHolding.nftMaster definitionId printBalance).amountOf kind token +
              (TokenHolding.nftPrintedCopy definitionId false).amountOf kind token :=
            TokenHolding.amountOf_add kind token ⟨rfl, rfl, rfl⟩ ⟨rfl, rfl, rfl⟩ hsub
        _ = heldIn kind token master.account.data + heldIn kind token printed.account.data := by
            rw [heldIn_of_tryFrom kind token hread, hfresh]
  | fungible definitionId balance => cases h
  | nftPrintedCopy definitionId owned => cases h

theorem conserves_of_updateAuthority {update : Authority → Except Panic Authority}
    {unsupported : String} {authority : AccountWithMetadata}
    (h : updateAuthority update unsupported definition authority = .ok posts) :
    Conserves [some .definition, none] [definition, authority] posts := by
  simp only [updateAuthority, bind_eq_ok, expect_eq_ok] at h
  obtain ⟨recorded, hread, h⟩ := h
  cases recorded with
  | fungible name totalSupply metadataId recorded =>
      simp only [bind_eq_ok, pure, Except.pure, Except.ok.injEq] at h
      obtain ⟨_, _, dd, hdd, rfl⟩ := h
      refine (conserves_definition (settled_of_definition hread) fun kind token => ?_).concat
        (by decide) (by decide) settled_authority fun _ => rfl
      exact (suppliedIn_of_tryFrom kind token hread).trans
        (suppliedIn_of_tryFrom kind token (decode_of_dataOf hdd)).symm
  | nonFungible name printableSupply metadataId => cases h

end

/-- **Conservation.**  Every instruction. -/
theorem conserves_of_postStates {instruction : Instruction} {pres : List AccountWithMetadata}
    {posts : List AccountPostState} (h : postStates pres instruction = .ok posts) :
    Conserves instruction.roles pres posts := by
  cases instruction with
  | transfer x =>
      simp only [postStates] at h
      split at h
      · exact conserves_of_transfer h
      · cases h
  | newFungibleDefinition name totalSupply =>
      simp only [postStates] at h
      split at h
      · exact conserves_of_newFungible h
      · cases h
  | newFungibleDefinitionWithAuthority name totalSupply mintAuthority =>
      simp only [postStates] at h
      split at h
      · exact conserves_of_newFungible h
      · cases h
  | newDefinitionWithMetadata newDefinition metadata =>
      simp only [postStates] at h
      split at h
      · exact conserves_of_newDefinitionWithMetadata h
      · cases h
  | initializeAccount =>
      simp only [postStates] at h
      split at h
      · exact conserves_of_initializeAccount h
      · cases h
  | burn x =>
      simp only [postStates] at h
      split at h
      · exact conserves_of_burn h
      · cases h
  | mint x =>
      simp only [postStates] at h
      split at h
      · exact conserves_of_mint h
      · cases h
  | mintWithAuthority x =>
      simp only [postStates] at h
      split at h
      · exact conserves_of_mintWithAuthority h
      · cases h
  | printNft =>
      simp only [postStates] at h
      split at h
      · exact conserves_of_printNft h
      · cases h
  | rotateAuthority newAdmin =>
      simp only [postStates] at h
      split at h
      · exact conserves_of_updateAuthority h
      · cases h
  | revokeAuthority =>
      simp only [postStates] at h
      split at h
      · exact conserves_of_updateAuthority h
      · cases h

theorem conserves_of_main [InstructionCodec Instruction] {input : GuestInput}
    {out : ProgramOutput} (h : main input = .ok out) :
    ∃ instruction : Instruction,
      InstructionCodec.deserialize input.instructionData = some instruction ∧
      Conserves instruction.roles out.preStates out.postStates := by
  simp only [main, readInstruction, bind_eq_ok, expect_eq_ok, pure, Except.pure,
    Except.ok.injEq] at h
  obtain ⟨instruction, hread, posts, hposts, rfl⟩ := h
  exact ⟨instruction, hread, conserves_of_postStates hposts⟩

/-! ## Measures of holdings -/

namespace TokenHolding

variable (token : AccountId)

/-- The balance of a fungible holding of the token. -/
def balanceOf : TokenHolding → Nat
  | .fungible definitionId balance => if definitionId = token then balance.toNat else 0
  | _ => 0

/-- The print balance of a master holding of the token. -/
def printBalanceOf : TokenHolding → Nat
  | .nftMaster definitionId printBalance =>
      if definitionId = token then printBalance.toNat else 0
  | _ => 0

/-- One for a printed copy of the token that is owned. -/
def ownedCopyOf : TokenHolding → Nat
  | .nftPrintedCopy definitionId owned => if definitionId = token ∧ owned then 1 else 0
  | _ => 0

theorem amountOf_fungible (h : TokenHolding) : h.amountOf .fungible token = h.balanceOf token := by
  cases h <;> simp [amountOf, kind, definitionId, amount, balanceOf]

theorem amountOf_nonFungible (h : TokenHolding) :
    h.amountOf .nonFungible token = h.printBalanceOf token + h.ownedCopyOf token := by
  cases h with
  | fungible definitionId balance => rfl
  | nftMaster definitionId printBalance =>
      simp [amountOf, kind, TokenHolding.definitionId, amount, printBalanceOf, ownedCopyOf]
  | nftPrintedCopy definitionId owned =>
      cases owned <;>
        simp [amountOf, kind, TokenHolding.definitionId, amount, printBalanceOf, ownedCopyOf]

end TokenHolding

theorem heldIn_fungible (token : AccountId) (data : Data) :
    heldIn .fungible token data =
      (TokenHolding.tryFrom data).elim 0 (TokenHolding.balanceOf token) := by
  unfold heldIn
  cases TokenHolding.tryFrom data with
  | none => rfl
  | some h => exact h.amountOf_fungible token

theorem heldIn_nonFungible (token : AccountId) (data : Data) :
    heldIn .nonFungible token data =
      (TokenHolding.tryFrom data).elim 0 (TokenHolding.printBalanceOf token) +
        (TokenHolding.tryFrom data).elim 0 (TokenHolding.ownedCopyOf token) := by
  unfold heldIn
  cases TokenHolding.tryFrom data with
  | none => rfl
  | some h => exact h.amountOf_nonFungible token

end ExecutionZone.Token
