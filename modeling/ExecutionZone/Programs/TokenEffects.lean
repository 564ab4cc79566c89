import Mathlib.Data.List.Forall2
import ExecutionZone.Programs.Token

/-!
# What the token program does to an account

What a call may do to one account is stated once, by the role the account has in the call,
as `Effect`: later arguments about a single account go by these cases and not by the
instructions.
-/

namespace ExecutionZone.Token

/-! ## What a transfer moves -/

theorem holdingOr_eq_ok {account : Account} {fresh holding : TokenHolding} {invalid : String} :
    holdingOr account fresh invalid = .ok holding ↔
      (account = Account.default ∧ holding = fresh) ∨
        (account ≠ Account.default ∧ TokenHolding.tryFrom account.data = some holding) := by
  unfold holdingOr
  split
  · rename_i hdefault
    simp [hdefault, eq_comm]
  · rename_i hdefault
    simp [hdefault]

theorem moveBalance_eq_ok {x : U128} {sender recipient sender' recipient' : TokenHolding}
    (h : moveBalance x sender recipient = .ok (sender', recipient')) :
    sender'.definitionId = sender.definitionId ∧ recipient'.definitionId = recipient.definitionId ∧
      sender'.amount + x.toNat = sender.amount ∧ recipient'.amount = recipient.amount + x.toNat := by
  unfold moveBalance at h
  split at h
  · simp only [bind_eq_ok, expect_eq_ok, pure, Except.pure, Except.ok.injEq, Prod.mk.injEq] at h
    obtain ⟨_, hsub, _, hadd, rfl, rfl⟩ := h
    exact ⟨rfl, rfl, U128.checkedSub_eq_some hsub, U128.checkedAdd_eq_some hadd⟩
  · simp only [bind_eq_ok, ensure_eq_ok, exists_const, pure, Except.pure, Except.ok.injEq,
      Prod.mk.injEq] at h
    obtain ⟨rfl, rfl, rfl, rfl⟩ := h
    exact ⟨rfl, rfl, Nat.zero_add _, (Nat.zero_add _).symm⟩
  · simp only [bind_eq_ok, ensure_eq_ok, exists_const, pure, Except.pure, Except.ok.injEq,
      Prod.mk.injEq] at h
    obtain ⟨rfl, rfl, rfl, rfl, rfl⟩ := h
    exact ⟨rfl, rfl, rfl, rfl⟩
  · cases h

/-- A transfer: the holdings of both accounts before and after it.  A fresh recipient gets an
empty holding of the sender's token first. -/
structure Moved (sender recipient : AccountWithMetadata) (x : U128) (posts : List AccountPostState)
    (hs hr hs' hr' : TokenHolding) (ds dr : Data) : Prop where
  authorized : sender.isAuthorized = true
  senderPre : TokenHolding.tryFrom sender.account.data = some hs
  recipientPre : (recipient.account = Account.default ∧ hr = hs.zeroizedCloneFrom) ∨
    (recipient.account ≠ Account.default ∧
      TokenHolding.tryFrom recipient.account.data = some hr)
  senderPost : TokenHolding.tryFrom ds = some hs'
  recipientPost : TokenHolding.tryFrom dr = some hr'
  senderDefinition : hs'.definitionId = hs.definitionId
  recipientDefinition : hr.definitionId = hs.definitionId ∧ hr'.definitionId = hs.definitionId
  debit : hs'.amount + x.toNat = hs.amount
  credit : hr'.amount = hr.amount + x.toNat
  posts_eq : posts = [.new (withData sender.account ds),
    .newClaimedIfDefault (withData recipient.account dr) .authorized]

/-- The specification of `transfer`. -/
theorem moved_of_transfer {sender recipient : AccountWithMetadata} {x : U128}
    {posts : List AccountPostState} (h : transfer sender recipient x = .ok posts) :
    ∃ hs hr hs' hr' ds dr, Moved sender recipient x posts hs hr hs' hr' ds dr := by
  simp only [transfer, bind_eq_ok, ensure_eq_ok, expect_eq_ok, exists_const, holdingOr_eq_ok,
    pure, Except.pure, Except.ok.injEq] at h
  obtain ⟨hauth, hs, hsender, hr, hrecipient, hdefinition, ⟨hs', hr'⟩, hmove, ds, hds, dr, hdr,
    rfl⟩ := h
  obtain ⟨hdefs, hdefr, hdebit, hcredit⟩ := moveBalance_eq_ok hmove
  exact ⟨hs, hr, hs', hr', ds, dr, hauth, hsender, hrecipient, decode_of_dataOf hds,
    decode_of_dataOf hdr, hdefs, ⟨hdefinition.symm, hdefr.trans hdefinition.symm⟩, hdebit, hcredit,
    rfl⟩

/-! ## What a call may do to an account -/

/-- What an instruction may do to one of its accounts: nothing; claim it; as a definition, which
comes first, rewrite it if it is authorised, or if its admin is, or in a burn; as a holding,
debit it if it is authorised, or credit it. -/
inductive Effect (instruction : Instruction) (preStates : List AccountWithMetadata)
    (pre : AccountWithMetadata) : AccountPostState → Prop
  | kept : Effect instruction preStates pre (.new pre.account)
  | claimed {post : AccountPostState} (hclaim : post.claim = some .authorized) :
      Effect instruction preStates pre post
  | redefined {definition : TokenDefinition} {data : Data} (hfirst : preStates.head? = some pre)
      (hread : TokenDefinition.tryFrom pre.account.data = some definition)
      (hallowed : pre.isAuthorized = true ∨ (∃ x, instruction = .burn x) ∨
        ∃ authority admin, definition.authority? = some authority ∧
          authority.admin = some admin) :
      Effect instruction preStates pre (.new (withData pre.account data))
  | debited {data : Data} (hauth : pre.isAuthorized = true) :
      Effect instruction preStates pre (.new (withData pre.account data))
  | credited {holding holding' : TokenHolding} {data : Data}
      (hread : TokenHolding.tryFrom pre.account.data = some holding)
      (hwrite : TokenHolding.tryFrom data = some holding')
      (hdefinition : holding'.definitionId = holding.definitionId)
      (hle : holding.amount ≤ holding'.amount) :
      Effect instruction preStates pre (.new (withData pre.account data))

section

variable {instruction : Instruction} {preStates : List AccountWithMetadata}
  {pre : AccountWithMetadata}

/-- An account that is claimed if nobody owns it, and otherwise only passed through. -/
theorem Effect.passed : Effect instruction preStates pre
    (.newClaimedIfDefault pre.account .authorized) := by
  by_cases howner : pre.account.programOwner = defaultProgramId
  · exact .claimed (if_pos howner)
  · have hnew : AccountPostState.newClaimedIfDefault pre.account .authorized =
        .new pre.account := by
      rw [AccountPostState.newClaimedIfDefault, if_neg howner]
      rfl
    rw [hnew]
    exact .kept

/-- An account that is credited, and claimed if nobody owns it. -/
theorem Effect.received {fresh holding holding' : TokenHolding} {data : Data} {invalid : String}
    (hread : holdingOr pre.account fresh invalid = .ok holding)
    (hwrite : TokenHolding.tryFrom data = some holding')
    (hdefinition : holding'.definitionId = holding.definitionId)
    (hle : holding.amount ≤ holding'.amount) :
    Effect instruction preStates pre
      (.newClaimedIfDefault (withData pre.account data) .authorized) := by
  by_cases howner : pre.account.programOwner = defaultProgramId
  · exact .claimed (if_pos howner)
  · have hnew : AccountPostState.newClaimedIfDefault (withData pre.account data) .authorized =
        .new (withData pre.account data) := by
      rw [AccountPostState.newClaimedIfDefault]
      exact congrArg _ (if_neg howner)
    rw [hnew]
    rcases holdingOr_eq_ok.1 hread with ⟨hdefault, _⟩ | ⟨_, hread⟩
    · exact absurd (by rw [hdefault]; rfl) howner
    · exact .credited hread hwrite hdefinition hle

theorem effects_of_transfer {sender recipient : AccountWithMetadata} {x : U128}
    {posts : List AccountPostState} (h : transfer sender recipient x = .ok posts) :
    List.Forall₂ (Effect instruction preStates) [sender, recipient] posts := by
  obtain ⟨hs, hr, hs', hr', ds, dr, hmoved⟩ := moved_of_transfer h
  have hrecipient : holdingOr recipient.account hs.zeroizedCloneFrom "Invalid recipient data" =
      .ok hr := holdingOr_eq_ok.2 hmoved.recipientPre
  rw [hmoved.posts_eq]
  refine .cons (.debited hmoved.authorized) (.cons (.received hrecipient hmoved.recipientPost
    (hmoved.recipientDefinition.2.trans hmoved.recipientDefinition.1.symm) ?_) .nil)
  rw [hmoved.credit]
  exact Nat.le_add_right _ _

theorem effects_of_newFungible {definition holding : AccountWithMetadata} {name : Text}
    {totalSupply : U128} {authority : Authority} {posts : List AccountPostState}
    (h : newFungible definition holding name totalSupply authority = .ok posts) :
    List.Forall₂ (Effect instruction preStates) [definition, holding] posts := by
  simp only [newFungible, bind_eq_ok, ensure_eq_ok, exists_const, pure, Except.pure,
    Except.ok.injEq] at h
  obtain ⟨_, _, _, _, _, _, rfl⟩ := h
  exact .cons (.claimed rfl) (.cons (.claimed rfl) .nil)

theorem effects_of_newDefinitionWithMetadata {definition holding metadata : AccountWithMetadata}
    {newDefinition : NewTokenDefinition} {newMetadata : NewTokenMetadata}
    {posts : List AccountPostState}
    (h : newDefinitionWithMetadata definition holding metadata newDefinition newMetadata =
      .ok posts) :
    List.Forall₂ (Effect instruction preStates) [definition, holding, metadata] posts := by
  simp only [newDefinitionWithMetadata, bind_eq_ok, ensure_eq_ok, exists_const, pure, Except.pure,
    Except.ok.injEq] at h
  obtain ⟨_, _, _, _, _, _, _, _, _, rfl⟩ := h
  exact .cons (.claimed rfl) (.cons (.claimed rfl) (.cons (.claimed rfl) .nil))

theorem effects_of_initializeAccount {definition holding : AccountWithMetadata}
    {posts : List AccountPostState} (h : initializeAccount definition holding = .ok posts) :
    List.Forall₂ (Effect instruction preStates) [definition, holding] posts := by
  simp only [initializeAccount, bind_eq_ok, ensure_eq_ok, expect_eq_ok, exists_const, pure,
    Except.pure, Except.ok.injEq] at h
  obtain ⟨_, _, _, _, _, rfl⟩ := h
  exact .cons .kept (.cons (.claimed rfl) .nil)

theorem effects_of_burn {definition holding : AccountWithMetadata} {x : U128}
    {posts : List AccountPostState} (h : burn definition holding x = .ok posts) :
    List.Forall₂ (Effect (.burn x) [definition, holding]) [definition, holding] posts := by
  simp only [burn, bind_eq_ok, ensure_eq_ok, expect_eq_ok, exists_const, pure, Except.pure,
    Except.ok.injEq] at h
  obtain ⟨hauth, _, hread, _, _, _, _, _, _, _, _, _, rfl⟩ := h
  exact .cons (.redefined rfl hread (.inr (.inl ⟨x, rfl⟩))) (.cons (.debited hauth) .nil)

theorem mintTo_eq_ok {x : U128} {definition definition' : TokenDefinition}
    {holding holding' : TokenHolding}
    (h : mintTo x definition holding = .ok (definition', holding')) :
    holding'.definitionId = holding.definitionId ∧ holding'.amount = holding.amount + x.toNat := by
  unfold mintTo at h
  split at h
  · simp only [bind_eq_ok, expect_eq_ok, pure, Except.pure, Except.ok.injEq, Prod.mk.injEq] at h
    obtain ⟨_, hadd, _, _, _, rfl⟩ := h
    exact ⟨rfl, U128.checkedAdd_eq_some hadd⟩
  · cases h
  · cases h
  · cases h

/-- Both ways of minting rewrite a definition they are allowed to, and credit a holding. -/
theorem effects_of_mintOn {definition : TokenDefinition}
    {definitionAccount holdingAccount : AccountWithMetadata} {x : U128}
    {posts : List AccountPostState} (hfirst : preStates.head? = some definitionAccount)
    (hread : TokenDefinition.tryFrom definitionAccount.account.data = some definition)
    (hallowed : definitionAccount.isAuthorized = true ∨
      ∃ authority admin, definition.authority? = some authority ∧ authority.admin = some admin)
    (h : mintOn definition definitionAccount holdingAccount x = .ok posts) :
    List.Forall₂ (Effect instruction preStates) [definitionAccount, holdingAccount] posts := by
  simp only [mintOn, bind_eq_ok, ensure_eq_ok, exists_const, pure, Except.pure,
    Except.ok.injEq] at h
  obtain ⟨_, hholding, _, ⟨_, _⟩, hmint, _, _, _, hdata, rfl⟩ := h
  obtain ⟨hdefinition, hamount⟩ := mintTo_eq_ok hmint
  refine .cons (.redefined hfirst hread (hallowed.imp_right .inr)) (.cons (.received hholding
    (decode_of_dataOf hdata) hdefinition ?_) .nil)
  rw [hamount]
  exact Nat.le_add_right _ _

theorem effects_of_mint {definition holding : AccountWithMetadata} {x : U128}
    {posts : List AccountPostState} (hfirst : preStates.head? = some definition)
    (h : mint definition holding x = .ok posts) :
    List.Forall₂ (Effect instruction preStates) [definition, holding] posts := by
  simp only [mint, bind_eq_ok, ensure_eq_ok, expect_eq_ok, exists_const] at h
  obtain ⟨hauth, _, hread, h⟩ := h
  exact effects_of_mintOn hfirst hread (.inl hauth) h

theorem effects_of_mintWithAuthority {definition holding authority : AccountWithMetadata}
    {x : U128} {posts : List AccountPostState} (hfirst : preStates.head? = some definition)
    (h : mintWithAuthority definition holding authority x = .ok posts) :
    List.Forall₂ (Effect instruction preStates) [definition, holding, authority] posts := by
  simp only [mintWithAuthority, bind_eq_ok, expect_eq_ok, pure, Except.pure,
    Except.ok.injEq] at h
  obtain ⟨_, hread, _, hauthority, _, hgate, _, hmint, rfl⟩ := h
  have hadmin := (Authority.gate_eq_ok hgate).2
  exact List.rel_append (effects_of_mintOn hfirst hread (.inr ⟨_, _, hauthority, hadmin⟩) hmint)
    (.cons .passed .nil)

theorem effects_of_printNft {master printed : AccountWithMetadata} {posts : List AccountPostState}
    (h : printNft master printed = .ok posts) :
    List.Forall₂ (Effect instruction preStates) [master, printed] posts := by
  simp only [printNft, bind_eq_ok, ensure_eq_ok, expect_eq_ok, exists_const] at h
  obtain ⟨hauth, _, holding, _, h⟩ := h
  cases holding with
  | nftMaster definitionId printBalance =>
      simp only [bind_eq_ok, ensure_eq_ok, expect_eq_ok, exists_const, pure, Except.pure,
        Except.ok.injEq] at h
      obtain ⟨_, _, _, _, _, _, _, rfl⟩ := h
      exact .cons (.debited hauth) (.cons (.claimed rfl) .nil)
  | fungible definitionId balance => cases h
  | nftPrintedCopy definitionId owned => cases h

theorem effects_of_updateAuthority {update : Authority → Except Panic Authority}
    {unsupported : String} {definition authority : AccountWithMetadata}
    {posts : List AccountPostState} (hfirst : preStates.head? = some definition)
    (hgate : ∀ recorded updated, update recorded = .ok updated →
      ∃ admin, recorded.admin = some admin)
    (h : updateAuthority update unsupported definition authority = .ok posts) :
    List.Forall₂ (Effect instruction preStates) [definition, authority] posts := by
  simp only [updateAuthority, bind_eq_ok, expect_eq_ok] at h
  obtain ⟨recorded, hread, h⟩ := h
  cases recorded with
  | fungible name totalSupply metadataId recorded =>
      simp only [bind_eq_ok, pure, Except.pure, Except.ok.injEq] at h
      obtain ⟨_, hupdate, _, _, rfl⟩ := h
      obtain ⟨admin, hadmin⟩ := hgate _ _ hupdate
      exact .cons (.redefined hfirst hread (.inr (.inr ⟨_, admin, rfl, hadmin⟩)))
        (.cons .passed .nil)
  | nonFungible name printableSupply metadataId => cases h

end

/-- **Effects.**  What the instructions do to their accounts. -/
theorem effects_of_postStates {instruction : Instruction} {preStates : List AccountWithMetadata}
    {posts : List AccountPostState} (h : postStates preStates instruction = .ok posts) :
    List.Forall₂ (Effect instruction preStates) preStates posts := by
  cases instruction with
  | transfer x =>
      simp only [postStates] at h
      split at h
      · exact effects_of_transfer h
      · cases h
  | newFungibleDefinition name totalSupply =>
      simp only [postStates] at h
      split at h
      · exact effects_of_newFungible h
      · cases h
  | newFungibleDefinitionWithAuthority name totalSupply mintAuthority =>
      simp only [postStates] at h
      split at h
      · exact effects_of_newFungible h
      · cases h
  | newDefinitionWithMetadata newDefinition metadata =>
      simp only [postStates] at h
      split at h
      · exact effects_of_newDefinitionWithMetadata h
      · cases h
  | initializeAccount =>
      simp only [postStates] at h
      split at h
      · exact effects_of_initializeAccount h
      · cases h
  | burn x =>
      simp only [postStates] at h
      split at h
      · exact effects_of_burn h
      · cases h
  | mint x =>
      simp only [postStates] at h
      split at h
      · exact effects_of_mint rfl h
      · cases h
  | mintWithAuthority x =>
      simp only [postStates] at h
      split at h
      · exact effects_of_mintWithAuthority rfl h
      · cases h
  | printNft =>
      simp only [postStates] at h
      split at h
      · exact effects_of_printNft h
      · cases h
  | rotateAuthority newAdmin =>
      simp only [postStates] at h
      split at h
      · refine effects_of_updateAuthority rfl (fun recorded updated hupdate => ?_) h
        obtain ⟨_, hgate, _⟩ := bind_eq_ok.1 hupdate
        exact ⟨_, (Authority.gate_eq_ok hgate).2⟩
      · cases h
  | revokeAuthority =>
      simp only [postStates] at h
      split at h
      · refine effects_of_updateAuthority rfl (fun recorded updated hupdate => ?_) h
        obtain ⟨_, hgate, _⟩ := bind_eq_ok.1 hupdate
        exact ⟨_, (Authority.gate_eq_ok hgate).2⟩
      · cases h

/-! ## Calls -/

variable [InstructionCodec Instruction]

variable {input : GuestInput} {out : ProgramOutput}

theorem main_eq_ok (h : main input = .ok out) :
    ∃ instruction posts,
      InstructionCodec.deserialize input.instructionData = some instruction ∧
      postStates input.preStates instruction = .ok posts ∧ out = input.output posts [] := by
  simp only [main, readInstruction, bind_eq_ok, expect_eq_ok, pure, Except.pure,
    Except.ok.injEq] at h
  obtain ⟨instruction, hread, posts, hposts, rfl⟩ := h
  exact ⟨instruction, posts, hread, hposts, rfl⟩

theorem chainedCalls_of_main (h : main input = .ok out) : out.chainedCalls = [] := by
  obtain ⟨_, _, _, _, rfl⟩ := main_eq_ok h
  rfl

/-- **Effects.**  What a call does to each of its accounts. -/
theorem effect_of_main (h : main input = .ok out)
    {p : AccountWithMetadata × AccountPostState} (hp : p ∈ out.zipped) :
    ∃ instruction, InstructionCodec.deserialize input.instructionData = some instruction ∧
      Effect instruction input.preStates p.1 p.2 := by
  obtain ⟨instruction, posts, hread, hposts, rfl⟩ := main_eq_ok h
  exact ⟨instruction, hread, (List.forall₂_iff_zip.1 (effects_of_postStates hposts)).2 hp⟩

end ExecutionZone.Token
