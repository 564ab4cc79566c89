import ExecutionZone.State.Basic

/-!
# Genesis

What a genesis state holds: the clock accounts, the faucet account and the accounts it was
given, each with its owner, and the built-in programs under their ids.
-/

namespace ExecutionZone

section

variable [BuiltinPrograms]

/-- The account a genesis state has for each clock. -/
def genesisClockAccount (genesisTimestamp : Timestamp) : Account :=
  { Account.default with
    programOwner := BuiltinPrograms.clock.id, data := clockGenesisData genesisTimestamp }

/-- The ids of the built-in programs are different, and none is the default one. -/
structure DistinctBuiltins : Prop where
  nodup : (builtinPrograms.map (·.id)).Nodup
  ne_default : ∀ program ∈ builtinPrograms, program.id ≠ defaultProgramId

/-- The built-in programs are deployed under their ids. -/
def BuiltinsDeployed (st : V03State) : Prop :=
  ∀ program ∈ builtinPrograms, st.programs.lookup program.id = some program

variable [Sha256] {initialData : List (AccountId × U128)} {notes : List (Commitment × Nullifier)}
  {genesisTimestamp : Timestamp} {st : V03State} {id : AccountId}

/-! ## Accounts -/

theorem genesis_eq_ok
    (h : V03State.newWithGenesisAccounts initialData notes genesisTimestamp = .ok st) :
    st.publicState = genesisPublicState initialData genesisTimestamp ∧
      st.programs = Ledger.insertAll ∅ (builtinPrograms.map fun program => (program.id, program)) := by
  simp only [V03State.newWithGenesisAccounts, bind_eq_ok, pure, Except.pure, Except.ok.injEq] at h
  obtain ⟨_, _, _, _, _, _, rfl⟩ := h
  exact ⟨rfl, rfl⟩

theorem clock_genesis
    (h : V03State.newWithGenesisAccounts initialData notes genesisTimestamp = .ok st)
    (hid : id ∈ clockProgramAccountIds) :
    st.getAccountById id = genesisClockAccount genesisTimestamp := by
  rw [V03State.getAccountById, (genesis_eq_ok h).1]
  refine Ledger.get_insertAll_of_mem ?_ (List.mem_map.2 ⟨id, hid, rfl⟩)
  rw [List.map_map]
  exact List.Nodup.map (fun _ _ h => h) (by decide)

/-- The accounts of a genesis state before the clocks are added. -/
theorem get_genesis_of_not_clock
    (h : V03State.newWithGenesisAccounts initialData notes genesisTimestamp = .ok st)
    (hid : id ∉ clockProgramAccountIds) :
    st.getAccountById id = Ledger.get Account.default
      ((Ledger.insertAll ∅ (initialData.map fun p => (p.1, genesisAccount p.2))).insert
        systemFaucetAccountId systemFaucetAccount) id := by
  rw [V03State.getAccountById, (genesis_eq_ok h).1]
  refine Ledger.get_insertAll_of_notMem ?_
  rwa [List.map_map, Function.comp_def, List.map_id']

/-- At genesis the transfer program owns the faucet account. -/
theorem faucet_genesis (hclock : systemFaucetAccountId ∉ clockProgramAccountIds)
    (h : V03State.newWithGenesisAccounts initialData notes genesisTimestamp = .ok st) :
    st.getAccountById systemFaucetAccountId = systemFaucetAccount := by
  rw [get_genesis_of_not_clock h hclock, Ledger.get_insert_self]

/-- What holds of the default account and of all accounts a genesis state is given, the
clocks apart. -/
theorem genesis_forall_of_not_clock {P : Account → Prop} (hdefault : P Account.default)
    (hfaucet : P systemFaucetAccount) (hinitial : ∀ balance, P (genesisAccount balance))
    (h : V03State.newWithGenesisAccounts initialData notes genesisTimestamp = .ok st)
    (hid : id ∉ clockProgramAccountIds) : P (st.getAccountById id) := by
  rw [get_genesis_of_not_clock h hid]
  by_cases hid : id = systemFaucetAccountId
  · rw [hid, Ledger.get_insert_self]
    exact hfaucet
  · rw [Ledger.get_insert_of_ne _ hid]
    refine Ledger.get_insertAll_of_forall (fun p hp => ?_) ?_
    · obtain ⟨_, _, rfl⟩ := List.mem_map.1 hp
      exact hinitial _
    · rw [Ledger.get_empty]
      exact hdefault

/-- What holds of the default account and of all accounts a genesis state is given. -/
theorem genesis_forall {P : Account → Prop} (hdefault : P Account.default)
    (hfaucet : P systemFaucetAccount) (hinitial : ∀ balance, P (genesisAccount balance))
    (hclock : P (genesisClockAccount genesisTimestamp))
    (h : V03State.newWithGenesisAccounts initialData notes genesisTimestamp = .ok st)
    (id : AccountId) : P (st.getAccountById id) := by
  by_cases hid : id ∈ clockProgramAccountIds
  · rw [clock_genesis h hid]
    exact hclock
  · exact genesis_forall_of_not_clock hdefault hfaucet hinitial h hid

/-! ## Programs -/

theorem builtinsDeployed_genesis (hids : DistinctBuiltins)
    (h : V03State.newWithGenesisAccounts initialData notes genesisTimestamp = .ok st) :
    BuiltinsDeployed st := by
  intro program hprogram
  rw [(genesis_eq_ok h).2]
  refine Ledger.lookup_insertAll_of_mem ?_ (List.mem_map.2 ⟨program, hprogram, rfl⟩)
  rw [List.map_map]
  exact hids.nodup

end

end ExecutionZone
