import ExecutionZone.Programs.TokenDefinitions
import ExecutionZone.Transaction.Supply

/-!
# Fungible definitions over transactions

The life of an account of the token program, public or private, that the program takes for
nothing but a definition.  Each call of the token program that is given it as its definition makes
the step of its instruction, and every other call leaves it as it is (`FungibleTurn`).  So the name
and the metadata stay, the authority changes by the hand of its admin only, and without an admin it
stays as it is.

The supply of a renounced definition is another matter: `mint` asks for the authorisation of the
definition itself, and never reads the recorded authority.
-/

namespace ExecutionZone

open Token

section

variable [BuiltinPrograms] [InstructionCodec Token.Instruction]

/-- A call of the token program that is given the account as its definition. -/
structure ProgramCall.OnDefinition (D : AccountId) (instruction : Token.Instruction)
    (c : ProgramCall) : Prop where
  program : c.programId = BuiltinPrograms.token.id
  read : InstructionCodec.deserialize c.output.instructionData = some instruction
  role : instruction.roles.head? = some (some .definition)
  first : c.output.preStates.head?.map (·.accountId) = some D

/-- The token program takes the account for a definition if it reads the account at all. -/
def ProgramCall.UsesAsDefinition (D : AccountId) (c : ProgramCall) : Prop :=
  c.programId = BuiltinPrograms.token.id →
    ∀ instruction ∈ InstructionCodec.deserialize (I := Token.Instruction) c.output.instructionData,
      ∀ e ∈ instruction.roles.zip c.output.zipped, e.2.1.accountId = D →
        ∀ role ∈ e.1, role = .definition

instance (D : AccountId) (c : ProgramCall) : Decidable (c.UsesAsDefinition D) :=
  inferInstanceAs (Decidable (_ → ∀ instruction ∈
    InstructionCodec.deserialize (I := Token.Instruction) c.output.instructionData,
      ∀ e ∈ instruction.roles.zip c.output.zipped, _ → ∀ role ∈ e.1, role = .definition))

/-- What a call shows of a definition: `d` before it, and `d'` after it. -/
structure ProgramCall.Records (D : AccountId) (d d' : TokenDefinition) (c : ProgramCall) : Prop where
  unlisted : D ∉ c.output.preStates.map (·.accountId) → d' = d
  listed : ∀ p ∈ c.output.zipped, p.1.accountId = D →
    TokenDefinition.tryFrom p.1.account.data = some d ∧
      TokenDefinition.tryFrom p.2.account.data = some d'

/-- What a call makes of the supply and the authority of a definition. -/
inductive FungibleTurn (D : AccountId) (s : U128 × Authority) (c : ProgramCall) :
    U128 × Authority → Prop
  | other (h : ∀ instruction, ¬c.OnDefinition D instruction) : FungibleTurn D s c s
  | executed {instruction : Token.Instruction} {s' : U128 × Authority}
      (h : c.OnDefinition D instruction)
      (hstep : FungibleStep c.output.preStates s.1 s.2 instruction s'.1 s'.2) :
      FungibleTurn D s c s'

/-- A fungible definition of the token program, with its supply and its authority. -/
structure IsFungible (name : Text) (metadataId : Option AccountId) (a : Account)
    (s : U128 × Authority) : Prop where
  owner : a.programOwner = BuiltinPrograms.token.id
  read : TokenDefinition.tryFrom a.data = some (.fungible name s.1 metadataId s.2)

/-- A valid call that shows what it makes of a fungible definition. -/
structure RecordedTurn (D : AccountId) (name : Text) (metadataId : Option AccountId)
    (s : U128 × Authority) (c : ProgramCall) (s' : U128 × Authority) : Prop where
  valid : ValidExecution c.output.preStates c.output.postStates c.programId
  recorded : c.Records D (.fungible name s.1 metadataId s.2) (.fungible name s'.1 metadataId s'.2)
  turn : FungibleTurn D s c s'

/-! ## One call -/

variable {D : AccountId} {name : Text} {metadataId : Option AccountId} {s : U128 × Authority}
  {c : ProgramCall}

omit [InstructionCodec Token.Instruction] [BuiltinPrograms] in
theorem records_of_listed {d d' : TokenDefinition} {programId : ProgramId}
    (hvalid : ValidExecution c.output.preStates c.output.postStates programId)
    {p : AccountWithMetadata × AccountPostState} (hp : p ∈ c.output.zipped)
    (hid : p.1.accountId = D) (hpre : TokenDefinition.tryFrom p.1.account.data = some d)
    (hpost : TokenDefinition.tryFrom p.2.account.data = some d') : c.Records D d d' := by
  refine ⟨fun h => absurd (List.mem_map.2 ⟨p.1, (List.of_mem_zip hp).1, hid⟩) h, ?_⟩
  intro q hq hqid
  have hnodup : (c.output.zipped.map (·.1.accountId)).Nodup := by
    rw [ProgramOutput.zipped,
      Ledger.map_zip_fst (Nat.le_of_eq hvalid.length_eq) AccountWithMetadata.accountId]
    exact hvalid.nodup
  rw [List.inj_on_of_nodup_map hnodup hq hp (hqid.trans hid.symm)]
  exact ⟨hpre, hpost⟩

theorem not_onDefinition_of_ne {first : AccountWithMetadata}
    (hfirst : c.output.preStates.head? = some first) (hne : first.accountId ≠ D)
    (instruction : Token.Instruction) : ¬c.OnDefinition D instruction := by
  intro h
  have hD := h.first
  rw [hfirst, Option.map_some, Option.some.injEq] at hD
  exact hne hD

/-- What a call of the token program makes of a definition it lists. -/
theorem fungibleTurn_of_main {guest : GuestInput} (hmain : Token.main guest = .ok c.output)
    (hprogram : c.programId = BuiltinPrograms.token.id)
    (hvalid : ValidExecution c.output.preStates c.output.postStates c.programId)
    (hused : c.UsesAsDefinition D) {p : AccountWithMetadata × AccountPostState}
    (hp : p ∈ c.output.zipped) (hid : p.1.accountId = D)
    (hread : TokenDefinition.tryFrom p.1.account.data = some (.fungible name s.1 metadataId s.2)) :
    ∃ s', TokenDefinition.tryFrom p.2.account.data = some (.fungible name s'.1 metadataId s'.2) ∧
      FungibleTurn D s c s' := by
  obtain ⟨instruction, posts, hinstruction, hposts, hout⟩ := main_eq_ok hmain
  have hconserves := conserves_of_postStates hposts
  obtain ⟨role, roles, hroles, hnot⟩ := instruction.exists_roles
  rw [hroles] at hconserves
  have hused := hused hprogram instruction (by rw [hout]; exact hinstruction)
  have hzip : c.output.zipped = guest.preStates.zip posts := by rw [hout]; rfl
  have hpres : c.output.preStates = guest.preStates := by rw [hout]; rfl
  rw [hroles, hzip] at hused
  rw [hzip] at hp
  rw [hpres] at hvalid
  generalize hg : guest.preStates = pres at hconserves hused hp hvalid hposts hpres
  obtain _ | ⟨first, rest⟩ := pres
  · cases hconserves.length
  obtain ⟨post, posts, -, -, rfl⟩ := List.forall₂_cons_left_iff.1 hconserves.settled
  rw [List.zip_cons_cons] at hp hused
  rw [List.zip_cons_cons] at hused
  have hnodup := hvalid.nodup
  rw [List.map_cons, List.nodup_cons] at hnodup
  rcases List.mem_cons.1 hp with rfl | hp
  · -- the first account is taken for a definition
    have hrole : role = .definition :=
      hused (some role, first, post) List.mem_cons_self hid role rfl
    have hhead : instruction.roles.head? = some (some .definition) := by
      rw [hroles, hrole, List.head?_cons]
    obtain ⟨_, _, supply', authority', heq, hread', hstep⟩ :=
      fungibleStep_of_postStates hread hhead hposts
    cases heq
    refine ⟨(supply', authority'), hread', .executed ⟨hprogram, ?_, hhead, ?_⟩ ?_⟩
    · rw [hout]
      exact hinstruction
    · rw [hpres, List.head?_cons, Option.map_some, hid]
    · rw [hpres]
      exact hstep
  · -- any other is an authority, and passed on
    have hmem := (List.of_mem_zip hp).1
    have hne : first.accountId ≠ D := fun h =>
      hnodup.1 (List.mem_map.2 ⟨p.1, hmem, hid.trans h.symm⟩)
    obtain ⟨r, hr⟩ : ∃ r, (r, p) ∈ roles.zip (rest.zip posts) := by
      have hlen : roles.length = (rest.zip posts).length := by
        have hroles := hconserves.length
        have hposts := hconserves.settled.length_eq
        simp only [List.length_cons, List.length_zip] at hroles hposts ⊢
        omega
      rw [← List.map_snd_zip (Nat.le_of_eq hlen.symm)] at hp
      obtain ⟨⟨r, _⟩, hr, rfl⟩ := List.mem_map.1 hp
      exact ⟨r, hr⟩
    have hnone : r = none := by
      refine Option.eq_none_iff_forall_not_mem.2 fun role hmem => hnot ?_
      rw [← hused (r, p) (List.mem_cons_of_mem _ hr) hid role hmem, ← Option.mem_def.1 hmem]
      exact (List.of_mem_zip hr).1
    refine ⟨s, ?_, .other (not_onDefinition_of_ne ?_ hne)⟩
    · rw [hconserves.kept (r, p) (List.mem_cons_of_mem _ hr) hnone]
      exact hread
    · rw [hpres, List.head?_cons]

variable [Sha256]

/-- **Step.**  What a call makes of a fungible definition. -/
theorem IsFungible.turn (hne : BuiltinPrograms.token.id ≠ defaultProgramId)
    (hgenuine : c.Genuine BuiltinPrograms.token Token.main) (hused : c.UsesAsDefinition D)
    {a a' : Account} (ha : IsFungible name metadataId a s) (hturn : ProgramCall.Turns D a c a') :
    ∃ s', RecordedTurn D name metadataId s c s' ∧ IsFungible name metadataId a' s' := by
  cases hturn with
  | unlisted h =>
      refine ⟨s, ⟨hgenuine.valid, ⟨fun _ => rfl, fun p hp hid => ?_⟩,
        .other fun instruction hon => ?_⟩, ha⟩
      · exact absurd (List.mem_map.2 ⟨p.1, (List.of_mem_zip hp).1, hid⟩) h
      · obtain ⟨first, hfirst, hid⟩ := Option.map_eq_some_iff.1 hon.first
        exact h (List.mem_map.2 ⟨first, List.mem_of_head? hfirst, hid⟩)
  | @listed p _ hp hid hpre hgranted =>
      subst hpre
      have hpair := hgenuine.valid.pair p hp
      have howner := ha.owner
      rw [hgranted.owned hpair (howner ▸ hne)]
      by_cases hprogram : c.programId = BuiltinPrograms.token.id
      · obtain ⟨guest, hmain⟩ := hgenuine.output hprogram
        obtain ⟨s', hread, hturn⟩ :=
          fungibleTurn_of_main hmain hprogram hgenuine.valid hused hp hid ha.read
        have hrecords := records_of_listed hgenuine.valid hp hid ha.read hread
        exact ⟨s', ⟨hgenuine.valid, hrecords, hturn⟩, hpair.owner.trans howner, hread⟩
      · have hdata := hpair.data_of_foreign (howner ▸ hne) fun h => hprogram (h.symm.trans howner)
        have hread : TokenDefinition.tryFrom p.2.account.data = _ := hdata ▸ ha.read
        have hrecords := records_of_listed hgenuine.valid hp hid ha.read hread
        exact ⟨s, ⟨hgenuine.valid, hrecords, .other fun _ hon => hprogram hon.program⟩,
          hpair.owner.trans howner, hread⟩

/-! ## Histories and lives -/

theorem IsFungible.history (hne : BuiltinPrograms.token.id ≠ defaultProgramId)
    {a a' : Account} {calls : List ProgramCall} (ha : IsFungible name metadataId a s)
    (hgenuine : ∀ c ∈ calls, c.Genuine BuiltinPrograms.token Token.main)
    (hused : ∀ c ∈ calls, c.UsesAsDefinition D)
    (hhistory : Run (ProgramCall.Turns D) a calls a') :
    ∃ s', Run (RecordedTurn D name metadataId) s calls s' ∧ IsFungible name metadataId a' s' := by
  have hhistory' : Run (fun a c a' => (c.Genuine BuiltinPrograms.token Token.main ∧
      c.UsesAsDefinition D) ∧ ProgramCall.Turns D a c a') a calls a' :=
    hhistory.mono_of_mem fun c hc _ _ hturn => ⟨⟨hgenuine c hc, hused c hc⟩, hturn⟩
  exact hhistory'.exists_of_simulation (R := IsFungible name metadataId)
    (fun _ _ _ _ ha h => IsFungible.turn hne h.1.1 h.1.2 ha h.2) ha

variable [Zkvm] [ChaCha20] [Schnorr]

/-- **Run.**  What the calls of a life make of a fungible definition. -/
theorem IsFungible.life (himpl : BuiltinPrograms.token.Implements Token.main)
    (hids : DistinctBuiltins) {S : Set Bytes} {a a' : Account} {segments : List (List ProgramCall)}
    (ha : IsFungible name metadataId a s) (hlife : Run (AccountStep S D) a segments a')
    (hused : ∀ c ∈ segments.flatten, c.UsesAsDefinition D) :
    ∃ s', Run (RecordedTurn D name metadataId) s segments.flatten s' ∧
      IsFungible name metadataId a' s' := by
  have htoken : BuiltinPrograms.token ∈ builtinPrograms := by simp [builtinPrograms]
  have hne := hids.ne_default _ htoken
  induction hlife with
  | nil => exact ⟨s, .nil, ha⟩
  | @snoc segments b calls a' _ hstep ih =>
      rw [List.flatten_concat] at hused ⊢
      obtain ⟨s₁, hrun, hb⟩ := ih fun c hc => hused c (List.mem_append_left _ hc)
      obtain ⟨hgenuine, b', hhistory, heq⟩ := hstep.history himpl htoken (hb.owner ▸ hne)
      obtain ⟨s', hrun', hb'⟩ :=
        hb.history hne hgenuine (fun c hc => hused c (List.mem_append_right _ hc)) hhistory
      refine ⟨s', hrun.append hrun', ?_⟩
      rw [heq]
      exact ⟨hb'.owner, hb'.read⟩

/-! ## The authority -/

/-- How a call may change the authority of a definition. -/
structure AuthorityStep (D : AccountId) (authority : Authority) (c : ProgramCall)
    (authority' : Authority) : Prop where
  changed : authority' ≠ authority →
    ∃ definition signer, c.output.preStates = [definition, signer] ∧
      signer.isAuthorized = true ∧ authority.admin = some signer.accountId ∧
      ((∃ newAdmin, c.OnDefinition D (.rotateAuthority newAdmin)) ∨
        c.OnDefinition D .revokeAuthority)
  rotated : ∀ newAdmin, c.OnDefinition D (.rotateAuthority newAdmin) →
    authority'.admin = some newAdmin
  revoked : c.OnDefinition D .revokeAuthority → authority'.admin = none
  renounced : authority.admin = none → authority'.admin = none

/-- A call that keeps the name and the metadata of a definition and steps its authority. -/
structure GovernedTurn (D : AccountId) (name : Text) (metadataId : Option AccountId)
    (s : U128 × Authority) (c : ProgramCall) (s' : U128 × Authority) : Prop where
  recorded : c.Records D (.fungible name s.1 metadataId s.2) (.fungible name s'.1 metadataId s'.2)
  authority : AuthorityStep D s.2 c s'.2

omit [Sha256] [Zkvm] [ChaCha20] [Schnorr] in
theorem ProgramCall.OnDefinition.eq {i i' : Token.Instruction} (h : c.OnDefinition D i)
    (h' : c.OnDefinition D i') : i = i' :=
  Option.some.inj (h.read.symm.trans h'.read)

omit [Sha256] [Zkvm] [ChaCha20] [Schnorr] in
theorem FungibleTurn.authorityStep {s' : U128 × Authority} (h : FungibleTurn D s c s') :
    AuthorityStep D s.2 c s'.2 := by
  cases h with
  | other h =>
      exact ⟨fun hne => absurd rfl hne, fun _ hon => absurd hon (h _),
        fun hon => absurd hon (h _), id⟩
  | @executed instruction s' hon hstep =>
      obtain ⟨supply', authority'⟩ := s'
      cases hstep with
      | rotated hpre hauth hadmin =>
          refine ⟨fun _ => ⟨_, _, hpre, hauth, hadmin, .inl ⟨_, hon⟩⟩, ?_, ?_, ?_⟩
          · intro newAdmin hon'
            cases hon.eq hon'
            rfl
          · intro hon'
            cases hon.eq hon'
          · intro hnone
            rw [hnone] at hadmin
            cases hadmin
      | revoked hpre hauth hadmin =>
          refine ⟨fun _ => ⟨_, _, hpre, hauth, hadmin, .inr hon⟩, ?_, fun _ => rfl, fun _ => rfl⟩
          intro newAdmin hon'
          cases hon.eq hon'
      | _ =>
          refine ⟨fun hne => absurd rfl hne, ?_, ?_, id⟩
          · intro newAdmin hon'
            cases hon.eq hon'
          · intro hon'
            cases hon.eq hon'

/-- **Authority.**  Over every life of a fungible definition that the token program takes for
nothing else, the name and the metadata stay, the authority is changed by a rotation or a
revocation that the recorded admin authorised, to what the instruction says, and once there is no
admin there never is one again. -/
theorem authority_state_machine (himpl : BuiltinPrograms.token.Implements Token.main)
    (hids : DistinctBuiltins) {S : Set Bytes} {a a' : Account} {segments : List (List ProgramCall)}
    {supply : U128} {authority : Authority} (ha : IsFungible name metadataId a (supply, authority))
    (hlife : Run (AccountStep S D) a segments a')
    (hused : ∀ c ∈ segments.flatten, c.UsesAsDefinition D) :
    ∃ supply' authority', IsFungible name metadataId a' (supply', authority') ∧
      Run (GovernedTurn D name metadataId) (supply, authority) segments.flatten
        (supply', authority') ∧
      (authority.admin = none → authority'.admin = none) := by
  obtain ⟨⟨supply', authority'⟩, hrun, ha'⟩ := ha.life himpl hids hlife hused
  have hgoverned := hrun.mono fun _ _ _ h => GovernedTurn.mk h.recorded h.turn.authorityStep
  refine ⟨supply', authority', ha', hgoverned, fun hnone => ?_⟩
  exact hgoverned.invariant (I := fun s => s.2.admin = none) hnone
    fun _ _ _ hs h => h.authority.renounced hs

end

namespace GovernedToken

/-- The signer `1` becomes the definition of a token, the signer `2` holds all of it. -/
def define (mintAuthority : Option AccountId) : Event :=
  ⟨.publicTx (Sample.transaction (Sample.programId 3) [Sample.signer 1, Sample.signer 2]
    (Sample.tokenCodec.toVec
      (.newFungibleDefinitionWithAuthority NewToken.name 100 mintAuthority)) [1, 2]), 0, 0⟩

/-- The signer `3` passes the authority on to the signer `4`. -/
def rotate : PublicTransaction :=
  Sample.transaction (Sample.programId 3) [Sample.signer 1, Sample.signer 3]
    (Sample.tokenCodec.toVec (.rotateAuthority (Sample.signer 4))) [3]

/-- And the signer `4` gives it up. -/
def revoke : PublicTransaction :=
  Sample.transaction (Sample.programId 3) [Sample.signer 1, Sample.signer 4]
    (Sample.tokenCodec.toVec .revokeAuthority) [4]

def after (st : V03State) (e : Event) : V03State :=
  let _ := Sample.sha256; let _ := Sample.zkvm NewToken.script; let _ := Sample.schnorr
  valueD st (st.transition e)

def defined (mintAuthority : Option AccountId) : V03State :=
  after NewToken.genesis (define mintAuthority)

def rotated : V03State := after (defined (some (Sample.signer 3))) ⟨.publicTx rotate, 1, 0⟩

def revoked : V03State := after rotated ⟨.publicTx revoke, 2, 0⟩

/-- The calls of a transaction. -/
def calls (st : V03State) (tx : PublicTransaction) (blockId : BlockId) : List ProgramCall :=
  let _ := Sample.sha256; let _ := Sample.zkvm NewToken.script
  (executedCalls tx st blockId 0).map PendingCall.programCall

theorem deployed :
    let _ := Sample.sha256; let _ := Sample.builtins
    BuiltinsDeployed NewToken.genesis := by
  intro _ _
  exact builtinsDeployed_genesis Sample.distinctBuiltins NewToken.genesis_eq

theorem accepted {st : V03State} {e : Event}
    (h : let _ := Sample.sha256; let _ := Sample.zkvm NewToken.script; let _ := Sample.schnorr
      (st.transition e).isOk = true) :
    let _ := Sample.sha256; let _ := Sample.zkvm NewToken.script; let _ := Sample.schnorr
    Accepted st e (after st e) :=
  eq_ok_valueD st h

/-- Both changes of the authority are accepted. -/
theorem runs :
    let _ := Sample.sha256; let _ := Sample.zkvm NewToken.script; let _ := Sample.schnorr
    let _ := Sample.builtins
    let st := defined (some (Sample.signer 3))
    ((NewToken.genesis.transition (define (some (Sample.signer 3)))).isOk = true ∧
      (st.transition ⟨.publicTx rotate, 1, 0⟩).isOk = true ∧
      (rotated.transition ⟨.publicTx revoke, 2, 0⟩).isOk = true) ∧
    (st.getAccountById (Sample.signer 1)).programOwner = BuiltinPrograms.token.id ∧
      TokenDefinition.tryFrom (st.getAccountById (Sample.signer 1)).data =
        some (.fungible NewToken.name 100 none (.new (Sample.signer 3))) ∧
      ∀ c ∈ [calls st rotate 1, calls rotated revoke 2].flatten,
        @ProgramCall.UsesAsDefinition Sample.builtins Sample.tokenCodec (Sample.signer 1) c := by
  decide +kernel

/-- The life of a definition whose authority is rotated and then revoked. -/
theorem life :
    let _ := Sample.sha256; let _ := Sample.zkvm NewToken.script; let _ := Sample.schnorr
    let _ := Sample.builtins; let _ := Sample.chaCha20
    Run (AccountStep ∅ (Sample.signer 1))
      ((defined (some (Sample.signer 3))).getAccountById (Sample.signer 1))
      [calls (defined (some (Sample.signer 3))) rotate 1, calls rotated revoke 2]
      (revoked.getAccountById (Sample.signer 1)) := by
  intro _ _ _ _ _
  obtain ⟨⟨hdefine, hrotate, hrevoke⟩, -⟩ := runs
  have hdefined := deployed.step (accepted hdefine)
  have hstep : AccountStep ∅ (Sample.signer 1) _ _ _ :=
    .publicly hdefined (.publicTx rotate 1 0) (accepted hrotate)
  exact .snoc (.snoc .nil hstep) (.publicly (hdefined.step (accepted hrotate))
    (.publicTx revoke 2 0) (accepted hrevoke))

end GovernedToken

/-- An authority that is passed on and given up. -/
theorem authority_state_machine_revoked :
    let _ := Sample.sha256; let _ := Sample.zkvm NewToken.script; let _ := Sample.schnorr
    let _ := Sample.builtins; let _ := Sample.tokenCodec; let _ := Sample.chaCha20
    ∃ supply' authority', IsFungible NewToken.name none
        (GovernedToken.revoked.getAccountById (Sample.signer 1)) (supply', authority') ∧
      Run (GovernedTurn (Sample.signer 1) NewToken.name none) (100, .new (Sample.signer 3))
        [GovernedToken.calls (GovernedToken.defined (some (Sample.signer 3)))
          GovernedToken.rotate 1,
          GovernedToken.calls GovernedToken.rotated GovernedToken.revoke 2].flatten
        (supply', authority') ∧
      ((Authority.new (Sample.signer 3)).admin = none → authority'.admin = none) := by
  intro _ _ _ _ _ _
  obtain ⟨-, howner, hread, hused⟩ := GovernedToken.runs
  exact authority_state_machine NewToken.implements Sample.distinctBuiltins ⟨howner, hread⟩
    GovernedToken.life hused

/-! ## The supply of a renounced definition -/

section

variable [BuiltinPrograms] [InstructionCodec Token.Instruction] {D : AccountId} {name : Text}
  {metadataId : Option AccountId} {s : U128 × Authority} {c : ProgramCall}

/-- The call returns a definition with a larger supply than it was given. -/
def ProgramCall.RaisesSupply (D : AccountId) (c : ProgramCall) : Prop :=
  ∃ p ∈ c.output.zipped, p.1.accountId = D ∧ ∃ d ∈ TokenDefinition.tryFrom p.1.account.data,
    ∃ d' ∈ TokenDefinition.tryFrom p.2.account.data, d.supply < d'.supply

/-- Nothing is minted on the authorisation of the definition. -/
def ProgramCall.MintsNothing (D : AccountId) (c : ProgramCall) : Prop :=
  ∀ x, c.OnDefinition D (.mint x) → x = 0

/-- Only `mint` raises the supply of a renounced definition. -/
theorem FungibleTurn.supply_le_iff {s' : U128 × Authority} (h : FungibleTurn D s c s')
    (hs : s.2.admin = none) : s'.1.toNat ≤ s.1.toNat ↔ c.MintsNothing D := by
  cases h with
  | other h => exact ⟨fun _ _ hon => absurd hon (h _), fun _ => le_rfl⟩
  | @executed instruction s' hon hstep =>
      obtain ⟨supply', authority'⟩ := s'
      cases hstep with
      | @minted x _ _ hfirst hauth hsupply =>
          constructor
          · intro hle y hon'
            cases hon.eq hon'
            refine BitVec.eq_of_toNat_eq ?_
            have hzero : (0 : U128).toNat = 0 := rfl
            simp only at hsupply hle
            omega
          · intro hnothing
            rw [hnothing x hon] at hsupply
            exact Nat.le_of_eq hsupply
      | mintedWithAuthority hpre hauth hadmin hsupply =>
          rw [hs] at hadmin
          cases hadmin
      | burned hsupply =>
          refine ⟨fun _ x hon' => ?_, fun _ => Nat.le.intro hsupply⟩
          cases hon.eq hon'
      | _ =>
          refine ⟨fun _ x hon' => ?_, fun _ => le_rfl⟩
          cases hon.eq hon'

theorem RecordedTurn.raisesSupply_iff {s' : U128 × Authority}
    (h : RecordedTurn D name metadataId s c s') :
    c.RaisesSupply D ↔ s.1.toNat < s'.1.toNat := by
  constructor
  · rintro ⟨p, hp, hid, d, hd, d', hd', hlt⟩
    obtain ⟨hpre, hpost⟩ := h.recorded.listed p hp hid
    cases hpre.symm.trans hd
    cases hpost.symm.trans hd'
    exact hlt
  · intro hlt
    by_cases hlisted : D ∈ c.output.preStates.map (·.accountId)
    · rw [← Ledger.map_zip_fst (Nat.le_of_eq h.valid.length_eq)] at hlisted
      obtain ⟨p, hp, hid⟩ := List.mem_map.1 hlisted
      obtain ⟨hpre, hpost⟩ := h.recorded.listed p hp hid
      exact ⟨p, hp, hid, _, hpre, _, hpost, hlt⟩
    · have heq := h.recorded.unlisted hlisted
      injection heq with _ hsupply
      rw [hsupply] at hlt
      exact absurd hlt (lt_irrefl _)

variable [Sha256] [Zkvm] [ChaCha20] [Schnorr]

/-- **Renounced definitions.**  Over a life of a renounced fungible definition that the token
program takes for nothing else, it stays renounced, and no call raises its supply just if none of
them mints a non-zero amount on the authorisation of the definition. -/
theorem renounced_supply_iff (himpl : BuiltinPrograms.token.Implements Token.main)
    (hids : DistinctBuiltins) {S : Set Bytes} {a a' : Account} {segments : List (List ProgramCall)}
    {supply : U128} (ha : IsFungible name metadataId a (supply, .renounced))
    (hlife : Run (AccountStep S D) a segments a')
    (hused : ∀ c ∈ segments.flatten, c.UsesAsDefinition D) :
    ∃ supply', IsFungible name metadataId a' (supply', .renounced) ∧
      ((∀ c ∈ segments.flatten, ¬c.RaisesSupply D) ↔
        ∀ c ∈ segments.flatten, c.MintsNothing D) ∧
      ((∀ c ∈ segments.flatten, c.MintsNothing D) → supply'.toNat ≤ supply.toNat) := by
  obtain ⟨⟨supply', authority'⟩, hrun, ha'⟩ := ha.life himpl hids hlife hused
  have hstep : ∀ s c s', s.2 = Authority.renounced → RecordedTurn D name metadataId s c s' →
      s'.2 = Authority.renounced := fun s c s' hs h =>
    congrArg Authority.mk (h.turn.authorityStep.renounced (congrArg Authority.admin hs))
  have hrenounced : authority' = .renounced :=
    hrun.invariant (I := fun s => s.2 = Authority.renounced) rfl hstep
  rw [hrenounced] at ha'
  refine ⟨supply', ha', forall₂_congr fun c hc => ?_, fun hnothing => ?_⟩
  · have hrestricted := hrun.restrict (I := fun s => s.2 = Authority.renounced) rfl hstep
    obtain ⟨s, s', hs, hturn⟩ := hrestricted.step_of_mem hc
    rw [hturn.raisesSupply_iff, not_lt]
    exact hturn.turn.supply_le_iff (congrArg Authority.admin hs)
  · refine (hrun.invariant_of_mem (I := fun s => s.2 = Authority.renounced ∧
      s.1.toNat ≤ supply.toNat) ⟨rfl, le_rfl⟩ fun c hc s s' hs h => ?_).2
    have hle := (h.turn.supply_le_iff (congrArg Authority.admin hs.1)).2 (hnothing c hc)
    exact ⟨hstep s c s' hs.1 h, hle.trans hs.2⟩

end

namespace GovernedToken

/-- The definition signs for 50 more. -/
def mint : Event :=
  let tx := Sample.transaction (Sample.programId 3) [Sample.signer 1, Sample.signer 2]
    (Sample.tokenCodec.toVec (.mint 50)) [1]
  ⟨.publicTx { tx with message := { tx.message with nonces := [⟨1⟩] } }, 1, 0⟩

/-- The holder burns 30. -/
def burn : PublicTransaction :=
  let tx := Sample.transaction (Sample.programId 3) [Sample.signer 1, Sample.signer 2]
    (Sample.tokenCodec.toVec (.burn 30)) [2]
  { tx with message := { tx.message with nonces := [⟨1⟩] } }

/-- A definition without an authority, burned from and minted from. -/
theorem supplies :
    let _ := Sample.sha256; let _ := Sample.zkvm NewToken.script; let _ := Sample.schnorr
    let _ := Sample.builtins
    (NewToken.genesis.transition (define none)).isOk = true ∧
      ((defined none).transition ⟨.publicTx burn, 1, 0⟩).isOk = true ∧
      ((defined none).getAccountById (Sample.signer 1)).programOwner =
        BuiltinPrograms.token.id ∧
      TokenDefinition.tryFrom ((defined none).getAccountById (Sample.signer 1)).data =
        some (.fungible NewToken.name 100 none .renounced) ∧
      (∀ c ∈ [calls (defined none) burn 1].flatten,
        @ProgramCall.UsesAsDefinition Sample.builtins Sample.tokenCodec (Sample.signer 1) c) ∧
      ((defined none).transition mint).isOk = true ∧
      TokenDefinition.tryFrom ((after (defined none) mint).getAccountById (Sample.signer 1)).data =
        some (.fungible NewToken.name 150 none .renounced) := by
  decide +kernel

end GovernedToken

/-- A definition that was created without an authority, and is minted from afterwards. -/
theorem minted_after_renouncing :
    let _ := Sample.sha256; let _ := Sample.zkvm NewToken.script; let _ := Sample.schnorr
    Accepted NewToken.genesis (GovernedToken.define none) (GovernedToken.defined none) ∧
      TokenDefinition.tryFrom ((GovernedToken.defined none).getAccountById (Sample.signer 1)).data =
        some (.fungible NewToken.name 100 none .renounced) ∧
      ∃ st, Accepted (GovernedToken.defined none) GovernedToken.mint st ∧
        TokenDefinition.tryFrom (st.getAccountById (Sample.signer 1)).data =
          some (.fungible NewToken.name 150 none .renounced) := by
  intro _ _ _
  obtain ⟨hdefine, -, -, hread, -, hmint, hminted⟩ := GovernedToken.supplies
  exact ⟨GovernedToken.accepted hdefine, hread, _, GovernedToken.accepted hmint, hminted⟩

/-- Burning is all that happens to the supply of a renounced definition here. -/
theorem renounced_supply_iff_burned :
    let _ := Sample.sha256; let _ := Sample.zkvm NewToken.script; let _ := Sample.schnorr
    let _ := Sample.builtins; let _ := Sample.tokenCodec; let _ := Sample.chaCha20
    let st := GovernedToken.defined none
    let segments := [GovernedToken.calls st GovernedToken.burn 1]
    ∃ supply', IsFungible NewToken.name none
        ((GovernedToken.after st ⟨.publicTx GovernedToken.burn, 1, 0⟩).getAccountById
          (Sample.signer 1)) (supply', .renounced) ∧
      ((∀ c ∈ segments.flatten, ¬c.RaisesSupply (Sample.signer 1)) ↔
        ∀ c ∈ segments.flatten, c.MintsNothing (Sample.signer 1)) ∧
      ((∀ c ∈ segments.flatten, c.MintsNothing (Sample.signer 1)) →
        supply'.toNat ≤ (100 : U128).toNat) := by
  intro _ _ _ _ _ _ st segments
  obtain ⟨hdefine, hburn, howner, hread, hused, -⟩ := GovernedToken.supplies
  have hstep : AccountStep ∅ (Sample.signer 1) _ _ _ :=
    .publicly (GovernedToken.deployed.step (GovernedToken.accepted hdefine))
      (.publicTx GovernedToken.burn 1 0) (GovernedToken.accepted hburn)
  exact renounced_supply_iff NewToken.implements Sample.distinctBuiltins ⟨howner, hread⟩
    (.snoc .nil hstep) hused

end ExecutionZone
