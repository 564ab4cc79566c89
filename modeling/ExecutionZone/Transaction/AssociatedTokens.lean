import ExecutionZone.Programs.Ata
import ExecutionZone.Programs.TokenFormats
import ExecutionZone.Transaction.Kept

/-!
# Tokens in associated accounts

Nobody but its owner spends from an associated token account: over runs in which the owner
authorises no call of the program, what the account holds never decreases (`ata_protected`).

A mark on the account comes from a call of the program with the seed of the account.  If the owner
does not authorise this call, it is a creation, and goes to the owner of the definition.  That is
the token program, which chains nothing and initialises the account; and the account is not fresh
if it holds anything.

A holding whose bytes are also those of a definition could be changed as a definition.  Which
tokens have such holdings shows in their ids.
-/

namespace ExecutionZone

open CallTree

/-! ## Holdings -/

namespace Token

/-- A holding that is also a definition is one of a token whose id starts as a name of 26 bytes
does. -/
theorem take_definitionId_of_named {data : Data} {holding : TokenHolding}
    {definition : TokenDefinition} (hholding : TokenHolding.tryFrom data = some holding)
    (hdefinition : TokenDefinition.tryFrom data = some definition) :
    holding.definitionId.value.toList.take 4 = [26, 0, 0, 0] := by
  have hbytes := Codec.decode_eq_some.1 hholding
  obtain ⟨name, supply, hsize, hnamed⟩ :=
    namedHolding_iff.1 ⟨⟨definition, Codec.decode_eq_some.1 hdefinition⟩, holding, hbytes⟩
  have hname : (Codec.text.write name).take 4 = [26, 0, 0, 0] := by
    change (Encoding.leBytes 4 name.1.toByteArray.size ++ _).take 4 = _
    rw [hsize]
    rfl
  rw [hnamed] at hbytes
  cases holding with
  | fungible definitionId balance =>
      have htail := congrArg (List.take 4) (List.cons.inj hbytes).2
      rw [List.take_append_of_le_length (by simp), hname] at htail
      have hlen : 4 ≤ (AccountId.codec.write definitionId).length := by simp
      exact (htail.trans (List.take_append_of_le_length hlen)).symm
  | nftMaster definitionId printBalance => cases (List.cons.inj hbytes).1
  | nftPrintedCopy definitionId owned => cases (List.cons.inj hbytes).1

variable [InstructionCodec Instruction]

/-- An initialisation leaves an account alone that has been initialised. -/
theorem eq_of_main_initializeAccount {guest : GuestInput} {out : ProgramOutput}
    (h : main guest = .ok out)
    (hinstruction : out.instructionData = InstructionCodec.toVec Instruction.initializeAccount)
    {p : AccountWithMetadata × AccountPostState} (hp : p ∈ out.zipped)
    (hfresh : p.1.account ≠ Account.default) : p.2 = .new p.1.account := by
  obtain ⟨instruction, posts, hread, hposts, rfl⟩ := main_eq_ok h
  change guest.instructionData = _ at hinstruction
  change p ∈ guest.preStates.zip posts at hp
  rw [hinstruction, InstructionCodec.deserialize_toVec, Option.some.injEq] at hread
  subst hread
  simp only [postStates] at hposts
  split at hposts
  · rename_i definition account hpre
    simp only [initializeAccount, bind_eq_ok, ensure_eq_ok, expect_eq_ok, exists_const, pure,
      Except.pure, Except.ok.injEq] at hposts
    obtain ⟨hdefault, _, _, _, _, rfl⟩ := hposts
    rw [hpre] at hp
    simp only [List.zip_cons_cons, List.zip_nil_right, List.mem_cons, List.not_mem_nil,
      or_false] at hp
    rcases hp with rfl | rfl
    · rfl
    · exact absurd hdefault hfresh
  · cases hposts

variable [BuiltinPrograms]

/-- How much of the token `D` an account holds. -/
def held (D : AccountId) (a : Account) : Nat :=
  if a.programOwner = BuiltinPrograms.token.id then
    (TokenHolding.tryFrom a.data).elim 0 fun holding =>
      if holding.definitionId = D then holding.amount else 0
  else 0

/-- The account holds at least `n` of the token. -/
def Holds (D : AccountId) (n : Nat) (a : Account) : Prop :=
  a.programOwner = BuiltinPrograms.token.id ∧ ∃ holding,
    TokenHolding.tryFrom a.data = some holding ∧ holding.definitionId = D ∧ n ≤ holding.amount

variable {D : AccountId} {n : Nat} {a : Account}

omit [InstructionCodec Instruction] in
theorem holds_held (h : 0 < held D a) : Holds D (held D a) a := by
  unfold held at h
  split at h
  · rename_i howner
    cases hread : TokenHolding.tryFrom a.data with
    | none =>
        rw [hread] at h
        cases h
    | some holding =>
        rw [hread, Option.elim_some] at h
        split at h
        · rename_i hD
          refine ⟨howner, holding, hread, hD, ?_⟩
          rw [held, if_pos howner, hread, Option.elim_some, if_pos hD]
        · cases h
  · cases h

omit [InstructionCodec Instruction] in
theorem Holds.le_held (h : Holds D n a) : n ≤ held D a := by
  obtain ⟨howner, holding, hread, hD, hle⟩ := h
  rwa [held, if_pos howner, hread, Option.elim_some, if_pos hD]

variable [Sha256] {id : AccountId}

/-- **Calls.**  An account keeps what it holds in every call, unless it is marked as authorised
for more than an initialisation. -/
theorem holds_of_call (hids : DistinctBuiltins) (hD : D.value.toList.take 4 ≠ [26, 0, 0, 0])
    {c : ProgramCall} (hgenuine : c.Genuine BuiltinPrograms.token main)
    (hmark : id ∈ authorizedIds c.output.preStates →
      c.output.instructionData = InstructionCodec.toVec Instruction.initializeAccount) :
    c.output.Keeps (Holds D n) id c.programId := by
  rintro p hp hid ⟨howner, holding, hread, hdefinition, hle⟩ account hgranted
  have hne : p.1.account.programOwner ≠ defaultProgramId := by
    rw [howner]
    exact hids.ne_default _ (by simp [builtinPrograms])
  have hpair := hgenuine.valid.pair p hp
  have haccount := hgranted.owned hpair hne
  rw [haccount]
  refine ⟨hpair.owner.trans howner, ?_⟩
  by_cases hprogram : c.programId = BuiltinPrograms.token.id
  · obtain ⟨guest, hguest⟩ := hgenuine.output hprogram
    by_cases hinstruction : c.output.instructionData =
        InstructionCodec.toVec Instruction.initializeAccount
    · have hfresh : p.1.account ≠ Account.default := fun heq => hne (heq ▸ rfl)
      rw [eq_of_main_initializeAccount hguest hinstruction hp hfresh]
      exact ⟨holding, hread, hdefinition, hle⟩
    · obtain ⟨_, _, heffect⟩ := effect_of_main hguest hp
      generalize hpost : p.2 = post at heffect
      cases heffect with
      | kept => exact ⟨holding, hread, hdefinition, hle⟩
      | claimed hclaim =>
          rw [hpost] at hgranted hpair
          cases hgranted with
          | unclaimed hnone =>
              rw [hnone] at hclaim
              cases hclaim
          | claimed _ hdefault _ => exact absurd (hpair.owner.symm.trans hdefault) hne
      | redefined _ hread' _ =>
          exact absurd (hdefinition ▸ take_definitionId_of_named hread hread') hD
      | debited hauth =>
          exact absurd (hmark (mem_authorizedIds.2 ⟨p.1, (List.of_mem_zip hp).1, hauth, hid⟩))
            hinstruction
      | credited hread' hwrite hdefinition' hle' =>
          cases hread.symm.trans hread'
          exact ⟨_, hwrite, hdefinition'.trans hdefinition, hle.trans hle'⟩
  · have hdata : p.2.account.data = p.1.account.data :=
      hpair.data_of_foreign hne fun heq => hprogram (heq.symm.trans howner)
    rw [hdata]
    exact ⟨holding, hread, hdefinition, hle⟩

end Token

/-! ## Owners of listed accounts -/

section

variable [Sha256] {id : AccountId} {a a' : Account} {calls : List ProgramCall}

/-- What the calls of a history are shown of the account. -/
theorem shown_of_history {Q : Account → Prop} (h : Run (ProgramCall.Turns id) a calls a')
    (hkeeps : ∀ c ∈ calls, c.output.Keeps Q id c.programId) (hQ : Q a) {c : ProgramCall}
    (hc : c ∈ calls) (hnodup : (c.output.preStates.map (·.accountId)).Nodup)
    {pre : AccountWithMetadata} (hpre : pre ∈ c.output.preStates) (hid : pre.accountId = id) :
    Q pre.account := by
  obtain ⟨before, after, rfl⟩ := List.append_of_mem hc
  obtain ⟨b, hbefore, hrest⟩ := h.exists_of_append
  obtain ⟨_, hturn, _⟩ := hrest.exists_of_cons
  have hQ' : Q b := kept_of_history hbefore (fun c hc => hkeeps c (List.mem_append_left _ hc)) hQ
  cases hturn with
  | unlisted hnot => exact absurd (List.mem_map.2 ⟨pre, hpre, hid⟩) hnot
  | @listed p _ hp hid' hvalue _ =>
      have hsame : p.1 = pre :=
        List.inj_on_of_nodup_map hnodup (List.of_mem_zip hp).1 hpre (hid'.trans hid.symm)
      rwa [← hsame, hvalue]

/-- No output changes the owner of an account. -/
theorem ValidExecution.keeps_owner {out : ProgramOutput} {programId owner : ProgramId}
    (h : ValidExecution out.preStates out.postStates programId)
    (howner : owner ≠ defaultProgramId) :
    out.Keeps (fun a => a.programOwner = owner) id programId := by
  intro p hp _ hpre account hgranted
  have hpair := h.pair p hp
  rw [hgranted.owned hpair (hpre ▸ howner), hpair.owner, hpre]

end

/-! ## Marks -/

section

variable [Sha256] [BuiltinPrograms]

/-- The account of `X` for the token `D`. -/
def associatedAccount (X D : AccountId) : AccountId :=
  Ata.getAssociatedTokenAccountId BuiltinPrograms.ata.id (Ata.computeAtaSeed X D)

/-- In a call of the program `X` is not authorised, and its seeds are hashed within `S`. -/
def ProgramCall.WithoutOwner (S : Set Bytes) (X : AccountId) (c : ProgramCall) : Prop :=
  c.programId = BuiltinPrograms.ata.id →
    X ∉ authorizedIds c.output.preStates ∧ ∀ s ∈ Ata.strings c.output, s ∈ S

variable [Zkvm] [ChaCha20] [InstructionCodec Ata.Instruction] [InstructionCodec Token.Instruction]

/-- What is assumed of the two programs and of the strings hashed for the account. -/
structure AtaSetting (S : Set Bytes) (X D : AccountId) : Prop where
  collisionFree : CollisionFree S
  token : BuiltinPrograms.token.Implements Token.main
  ata : BuiltinPrograms.ata.Implements Ata.main
  ids : DistinctBuiltins
  pda : publicPdaPreimage BuiltinPrograms.ata.id (Ata.computeAtaSeed X D) ∈ S
  seed : Ata.ataSeedPreimage X D ∈ S
  unnamed : D.value.toList.take 4 ≠ [26, 0, 0, 0]

variable {S : Set Bytes} {X D : AccountId} {st st' : V03State}

omit [ChaCha20] in
/-- A call with the seed of the account that `X` does not authorise is a creation. -/
theorem AtaSetting.creation (h : AtaSetting S X D) {guest : GuestInput} {out : ProgramOutput}
    (hguest : Ata.main guest = .ok out) {call : ChainedCall} (hcall : call ∈ out.chainedCalls)
    (hseed : Ata.computeAtaSeed X D ∈ call.pdaSeeds) (hX : X ∉ authorizedIds out.preStates)
    (hstrings : ∀ s ∈ Ata.strings out, s ∈ S) :
    call.instructionData = InstructionCodec.toVec Token.Instruction.initializeAccount ∧
      ∃ definition ∈ out.preStates, definition.accountId = D ∧
        call.programId = definition.account.programOwner := by
  obtain ⟨owner, definitionId, hchained⟩ := Ata.chained_of_main hguest hcall
  rw [hchained.seeds, List.mem_singleton] at hseed
  obtain ⟨rfl, rfl⟩ := Ata.ataSeedPreimage_inj (h.collisionFree.injOn h.seed
    (hstrings _ hchained.hashed) (congrArg PdaSeed.value hseed))
  rcases hchained.allowed with hauth | hcreation
  · exact absurd (mem_authorizedIds.2 ⟨owner, hchained.listed, hauth, rfl⟩) hX
  · exact hcreation

omit [ChaCha20] in
/-- **Marks, public path.**  Only an initialisation gets the account marked. -/
theorem AtaSetting.marked_public (h : AtaSetting S X D) (hdeployed : BuiltinsDeployed st)
    (hD : (st.getAccountById D).programOwner = BuiltinPrograms.token.id) {tx : PublicTransaction}
    {blockId : BlockId} {timestamp : Timestamp} {diff : Accounts}
    (hruns : (publicMachine st blockId timestamp).Runs [(tx.initialCall st, [])] ∅
      (executedCalls tx st blockId timestamp) diff)
    (hstrings : ∀ s ∈ Event.strings st ⟨.publicTx tx, blockId, timestamp⟩, s ∈ S)
    (hforged : NoForgedMarkOn tx st (associatedAccount X D))
    (hcalls : ∀ c ∈ executedCalls tx st blockId timestamp,
      (PendingCall.programCall c).WithoutOwner S X)
    {e : Executed PendingCall ProgramOutput} (he : e ∈ executedCalls tx st blockId timestamp)
    (hmark : associatedAccount X D ∈ authorizedIds e.result.preStates) :
    e.result.instructionData = InstructionCodec.toVec Token.Instruction.initializeAccount := by
  obtain ⟨p, hp, c, hc, hprogram, hissued, hseed, hlast⟩ :=
    grantor_of_marked h.collisionFree h.pda hruns hstrings hforged he hmark
  obtain ⟨call, hcall, hcaller⟩ := List.mem_map.1 hissued
  obtain ⟨hX, hhashed⟩ := hcalls p hp hprogram
  rw [← hcaller] at hseed
  have hguest := main_of_executed h.ata (hdeployed _ (by simp [builtinPrograms])) hprogram
    (output_of_runs hruns p hp).1
  obtain ⟨hinstruction, definition, hdefinition, hid, htarget⟩ :=
    h.creation hguest hcall hseed hX hhashed
  -- the owner of the definition is the token program, as it was before the transaction
  have hne := h.ids.ne_default BuiltinPrograms.token (by simp [builtinPrograms])
  have hhistory := history_of_runs hruns D
  rw [Ledger.overlay_empty] at hhistory
  have howner : definition.account.programOwner = BuiltinPrograms.token.id :=
    shown_of_history (Q := fun a => a.programOwner = BuiltinPrograms.token.id) hhistory
      (List.forall_mem_map.2 fun c hc => (valid_of_runs hruns hc).keeps_owner hne) hD
      (List.mem_map_of_mem hp) (valid_of_runs hruns hp).nodup hdefinition hid
  have htoken : c.call.call.programId = BuiltinPrograms.token.id := by
    rw [← hcaller]
    exact htarget.trans howner
  have hmain := main_of_executed h.token (hdeployed _ (by simp [builtinPrograms])) htoken
    (output_of_runs hruns c hc).1
  rcases hlast with rfl | hlast
  · obtain ⟨_, _, _, _, hout⟩ := Token.main_eq_ok hmain
    rw [hout, ← hcaller]
    exact hinstruction
  · exact absurd (Token.chainedCalls_of_main hmain) hlast

/-- **Marks, private path.** -/
theorem AtaSetting.marked_private (h : AtaSetting S X D) {tx : PrivacyPreservingTransaction}
    {input : PrivacyPreservingCircuitInput} {a : Entry}
    (ha : PublicEntry S st tx input (associatedAccount X D) a)
    (hkeys : ∀ s ∈ keyStrings tx.signaturesAndPublicKeys, s ∈ S)
    (hcalls : ∀ c ∈ consumedCalls input, (CircuitCall.programCall c).WithoutOwner S X)
    {c : Executed CircuitCall ProgramOutput} (hc : c ∈ consumedCalls input)
    (hmark : associatedAccount X D ∈ authorizedIds c.result.preStates) :
    c.result.instructionData = InstructionCodec.toVec Token.Instruction.initializeAccount := by
  obtain ⟨es, hes, _⟩ := emitted_of_circuit ha.circuit
  obtain ⟨pre, hpre, hauth, hid⟩ := mem_authorizedIds.1 hmark
  have hentry : a.pre.accountId = associatedAccount X D := by rw [ha.pre]
  have hfirst : a.pre.isAuthorized = false := by
    rw [ha.pre]
    exact decide_eq_false (pda_not_signer h.collisionFree h.pda hkeys)
  obtain ⟨caller, seed, hcaller, hseed, heq⟩ :=
    derived_of_marked ha.circuit ha.mem hfirst hc hpre (hid.trans hentry.symm) hauth
  have hstring : publicPdaPreimage caller seed ∈ S := by
    refine ha.strings _ (callStrings_subset_circuitStrings hes hc ?_)
    rw [hcaller]
    exact seed_mem_callStrings hseed _
  obtain ⟨rfl, rfl⟩ :=
    h.collisionFree.forPublicPda_inj hstring h.pda (heq.symm.trans hentry)
  obtain ⟨p, hp, hprogram, hcall, _⟩ := issuer_of_mem_consumedCalls hes hc hcaller
  obtain ⟨hX, hhashed⟩ := hcalls p hp hprogram
  obtain ⟨guest, hguest⟩ := main_of_consumed h.ata hes hp hprogram
  obtain ⟨_, _, _, _, _, hruns, _⟩ := runs_of_deriveFromOutputs hes
  obtain ⟨_, _, hstep⟩ := hruns.step_of_mem c hc
  rw [← (consumed_of_step hstep).2.instructionData]
  exact (h.creation hguest hcall hseed hX hhashed).1

/-! ## Runs -/

variable [Schnorr]

/-- An accepted transaction in which `X` authorises no call of the program, and no mark on the
account is forged. -/
structure AtaStep (S : Set Bytes) (X D : AccountId) (st : V03State) (e : Event) (st' : V03State) :
    Prop where
  accepted : Accepted st e st'
  sound : e.tx.Sound S
  strings : ∀ s ∈ e.strings st, s ∈ S
  unforged : ∀ tx, e.tx = .publicTx tx → NoForgedMarkOn tx st (associatedAccount X D)
  withoutOwner : ∀ calls, e.Acts S st (associatedAccount X D) calls →
    ∀ c ∈ calls, c.WithoutOwner S X

theorem AtaSetting.marked (h : AtaSetting S X D) (hdeployed : BuiltinsDeployed st)
    (hD : (st.getAccountById D).programOwner = BuiltinPrograms.token.id) {e : Event}
    (hstep : AtaStep S X D st e st') {calls : List ProgramCall}
    (hacts : e.Acts S st (associatedAccount X D) calls) :
    ∀ c ∈ calls, associatedAccount X D ∈ authorizedIds c.output.preStates →
      c.output.instructionData = InstructionCodec.toVec Token.Instruction.initializeAccount := by
  have hcalls := hstep.withoutOwner calls hacts
  cases hacts with
  | publicTx tx blockId timestamp =>
      obtain ⟨_, hruns, _⟩ := runs_of_transition (show _ = _ from hstep.accepted)
      exact List.forall_mem_map.2 fun c hc hmark => h.marked_public hdeployed hD hruns
        hstep.strings (hstep.unforged tx rfl) (List.forall_mem_map.1 hcalls) hc hmark
  | privacyPreserving blockId timestamp hentry =>
      exact List.forall_mem_map.2 fun c hc hmark => h.marked_private hentry hstep.strings
        (List.forall_mem_map.1 hcalls) hc hmark
  | unlisted blockId timestamp hid => exact fun _ hc => absurd hc List.not_mem_nil
  | programDeployment tx blockId timestamp => exact fun _ hc => absurd hc List.not_mem_nil

/-- **Step.** -/
theorem AtaSetting.step (h : AtaSetting S X D) (hdeployed : BuiltinsDeployed st)
    (hD : (st.getAccountById D).programOwner = BuiltinPrograms.token.id) {e : Event}
    (hstep : AtaStep S X D st e st') :
    Token.held D (st.getAccountById (associatedAccount X D)) ≤
      Token.held D (st'.getAccountById (associatedAccount X D)) := by
  rcases Nat.eq_zero_or_pos (Token.held D (st.getAccountById (associatedAccount X D))) with
    hzero | hpos
  · rw [hzero]
    exact Nat.zero_le _
  obtain ⟨calls, hacts⟩ := exists_acts hstep.sound hstep.accepted (associatedAccount X D)
  obtain ⟨a, hhistory, hget⟩ := history_of_accepted hacts hstep.accepted
  have hgenuine := hacts.genuine h.token (hdeployed _ (by simp [builtinPrograms])) hstep.accepted
  have hholds : Token.Holds D _ a := kept_of_history hhistory
    (fun c hc => Token.holds_of_call h.ids h.unnamed (hgenuine c hc)
      (h.marked hdeployed hD hstep hacts c hc)) (Token.holds_held hpos)
  rw [hget]
  exact Token.Holds.le_held hholds

/-- **Associated accounts.**  Once the token program owns the definition of a token, the account
of `X` for the token never holds less than before, over every run in which `X` authorises no call
of the program: whatever other programs do, in public and in private transactions. -/
theorem ata_protected (h : AtaSetting S X D) {st₀ : V03State} {events : List Event}
    (hdeployed : BuiltinsDeployed st₀)
    (hD : (st₀.getAccountById D).programOwner = BuiltinPrograms.token.id)
    (hrun : Run (AtaStep S X D) st₀ events st) :
    Token.held D (st₀.getAccountById (associatedAccount X D)) ≤
      Token.held D (st.getAccountById (associatedAccount X D)) := by
  refine (hrun.invariant (I := fun st => BuiltinsDeployed st ∧
    (st.getAccountById D).programOwner = BuiltinPrograms.token.id ∧
      Token.held D (st₀.getAccountById (associatedAccount X D)) ≤
        Token.held D (st.getAccountById (associatedAccount X D)))
    ⟨hdeployed, hD, Nat.le_refl _⟩ ?_).2.2
  rintro s e s' ⟨hdeployed, hD, hle⟩ hstep
  have hne := h.ids.ne_default BuiltinPrograms.token (by simp [builtinPrograms])
  exact ⟨hdeployed.step hstep.accepted, owner_of_accepted hstep.sound hstep.accepted hne hD,
    hle.trans (h.step hdeployed hD hstep)⟩

end

/-! ## A deposit -/

namespace AtaDeposit

def codec : Codec Ata.Instruction :=
  let spend := ProgramId.codec.pair U128.codec
  (Sample.sumCodec ProgramId.codec (Sample.sumCodec spend spend)).map
    { toFun := fun
        | .inl id => .create id
        | .inr (.inl p) => .transfer p.1 p.2
        | .inr (.inr p) => .burn p.1 p.2
      invFun := fun
        | .create id => .inl id
        | .transfer id amount => .inr (.inl (id, amount))
        | .burn id amount => .inr (.inr (id, amount))
      left_inv := by rintro (_ | (_ | _)) <;> rfl
      right_inv := by rintro (_ | _ | _) <;> rfl }

@[reducible] def ataCodec : InstructionCodec Ata.Instruction := Sample.instructionCodec codec

/-- The binaries `3` and `5` are the two programs. -/
def script : Sample.Script := Sample.tokenScript fun n input =>
  if n = 5 then @Ata.main Sample.sha256 Sample.tokenCodec ataCodec input
  else .error "no such program"

def owner : AccountId := Sample.signer 3

def token : AccountId := Sample.accountId 7

def account : AccountId :=
  let _ := Sample.sha256; let _ := Sample.builtins
  associatedAccount owner token

/-- The account of the owner holds 5, and the signer `2` holds 100. -/
def st : V03State :=
  let _ := Sample.builtins
  Sample.state [(owner, Sample.account (Sample.programId 2) 1),
    (token, Sample.account (Sample.programId 3) 0),
    (account, Sample.dataAccount (Sample.programId 3) (Sample.holdingData (.fungible token 5))),
    (Sample.signer 2,
      Sample.dataAccount (Sample.programId 3) (Sample.holdingData (.fungible token 100)))]
    builtinPrograms

/-- Someone has the account created once more. -/
def creation : PublicTransaction :=
  Sample.transaction (Sample.programId 5) [owner, token, account]
    (ataCodec.toVec (.create (Sample.programId 5))) []

/-- A deposit of 10. -/
def deposit : PublicTransaction :=
  Sample.transaction (Sample.programId 3) [Sample.signer 2, account]
    (Sample.tokenCodec.toVec (.transfer 10)) [2]

def after (st : V03State) (tx : PublicTransaction) : V03State :=
  let _ := Sample.sha256; let _ := Sample.zkvm script; let _ := Sample.schnorr
  valueD st (st.transition ⟨.publicTx tx, 0, 0⟩)

def strings : List Bytes :=
  let _ := Sample.sha256; let _ := Sample.zkvm script
  publicPdaPreimage (Sample.programId 5) (Ata.computeAtaSeed owner token) ::
    Ata.ataSeedPreimage owner token :: (Event.strings st ⟨.publicTx creation, 0, 0⟩ ++
      (Event.strings (after st creation) ⟨.publicTx deposit, 0, 0⟩ ++
        (executedCalls creation st 0 0).flatMap fun c => Ata.strings c.result))

/-- What a transaction evaluates to. -/
abbrev Evaluated (st : V03State) (tx : PublicTransaction) : Prop :=
  let _ := Sample.sha256; let _ := Sample.zkvm script; let _ := Sample.schnorr
  let _ := Sample.builtins
  (st.transition ⟨.publicTx tx, 0, 0⟩).isOk = true ∧ MarksEntitled tx st 0 0 ∧
    (∀ s ∈ Event.strings st ⟨.publicTx tx, 0, 0⟩, s ∈ strings) ∧
    ∀ c ∈ executedCalls tx st 0 0, c.call.call.programId = BuiltinPrograms.ata.id →
      owner ∉ authorizedIds c.result.preStates ∧ ∀ s ∈ Ata.strings c.result, s ∈ strings

theorem evaluated :
    let _ := Sample.sha256; let _ := Sample.builtins
    (Evaluated st creation ∧ Evaluated (after st creation) deposit) ∧
    ((strings.dedup.map sha256).Nodup ∧ Bytes32.zero ∉ strings.dedup.map sha256) ∧
    (∀ program ∈ builtinPrograms, st.programs.lookup program.id = some program) ∧
    (st.getAccountById token).programOwner = BuiltinPrograms.token.id ∧
    Token.held token (st.getAccountById account) = 5 ∧
    Token.held token ((after (after st creation) deposit).getAccountById account) = 15 := by
  decide +kernel

theorem setting :
    let _ := Sample.sha256; let _ := Sample.zkvm script; let _ := Sample.builtins
    let _ := Sample.chaCha20; let _ := ataCodec; let _ := Sample.tokenCodec
    AtaSetting { s | s ∈ strings } owner token := by
  intro _ _ _ _ _ _
  exact ⟨collisionFree_of_digests evaluated.2.1,
    ⟨fun _ _ h => h, fun out h => ⟨Sample.echoed out, of_decide_eq_true h⟩⟩,
    ⟨fun _ _ h => h, fun out h => ⟨Sample.echoed out, of_decide_eq_true h⟩⟩,
    Sample.distinctBuiltins, List.mem_cons_self, List.mem_cons_of_mem _ List.mem_cons_self,
    by decide⟩

theorem step_of_evaluated {st : V03State} {tx : PublicTransaction} (h : Evaluated st tx) :
    let _ := Sample.sha256; let _ := Sample.zkvm script; let _ := Sample.schnorr
    let _ := Sample.builtins; let _ := Sample.chaCha20
    AtaStep { s | s ∈ strings } owner token st ⟨.publicTx tx, 0, 0⟩ (after st tx) := by
  intro _ _ _ _ _
  obtain ⟨hok, hmarks, hstrings, hcalls⟩ := h
  have haccepted : Accepted st ⟨.publicTx tx, 0, 0⟩ (after st tx) := eq_ok_valueD st hok
  obtain ⟨_, hruns, _⟩ := runs_of_transition (show _ = _ from haccepted)
  refine ⟨haccepted, trivial, hstrings, ?_, ?_⟩
  · intro tx' htx
    cases htx
    exact noForgedMarkOn_of_runs hruns fun e he hid => hmarks e he _ hid
  · intro calls hacts
    cases hacts
    exact List.forall_mem_map.2 hcalls

end AtaDeposit

/-- The account of the owner keeps its 5 units, and gets 10 more. -/
theorem ata_protected_deposit :
    let _ := Sample.sha256; let _ := Sample.zkvm AtaDeposit.script; let _ := Sample.schnorr
    let _ := Sample.builtins; let _ := Sample.chaCha20
    Token.held AtaDeposit.token (AtaDeposit.st.getAccountById AtaDeposit.account) = 5 ∧
      Run (AtaStep { s | s ∈ AtaDeposit.strings } AtaDeposit.owner AtaDeposit.token) AtaDeposit.st
        [⟨.publicTx AtaDeposit.creation, 0, 0⟩, ⟨.publicTx AtaDeposit.deposit, 0, 0⟩]
        (AtaDeposit.after (AtaDeposit.after AtaDeposit.st AtaDeposit.creation)
          AtaDeposit.deposit) ∧
      5 ≤ Token.held AtaDeposit.token ((AtaDeposit.after (AtaDeposit.after AtaDeposit.st
        AtaDeposit.creation) AtaDeposit.deposit).getAccountById AtaDeposit.account) := by
  intro _ _ _ _ _
  let _ := AtaDeposit.ataCodec
  let _ := Sample.tokenCodec
  obtain ⟨⟨hcreation, hdeposit⟩, _, hdeployed, hD, hheld, _⟩ := AtaDeposit.evaluated
  have hrun := (Run.nil.snoc (AtaDeposit.step_of_evaluated hcreation)).snoc
    (AtaDeposit.step_of_evaluated hdeposit)
  exact ⟨hheld, hrun, hheld ▸ ata_protected AtaDeposit.setting hdeployed hD hrun⟩

end ExecutionZone
