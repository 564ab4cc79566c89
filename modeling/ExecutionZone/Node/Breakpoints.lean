import ExecutionZone.Lib.Run
import ExecutionZone.Node.IndexerDb

/-!
# Recomputing historical states

Runs of the database of the indexer: consecutive blocks are written, valid or not, and in
between the process is restarted, which opens the database again with the same initial state.

Breakpoints are never wrong (`historical_state_correct`), but they can be missing.  The
counter from which the next breakpoint is chosen is set back to zero whenever the database is
opened, while the blocks are there already: at the next multiple of a hundred an early
breakpoint is computed again instead of the one that is due.  `historical_state_available` is
for databases that are not reopened once they hold a hundred blocks, and
`breakpoint_skipped_after_restart` is a run that is.
-/

namespace ExecutionZone

inductive IndexerDbEvent where
  | put (block : Block) (l1LibHeader : Bytes32)
  | restart
deriving DecidableEq

/-- The blocks written in a run. -/
def storedBlocks (events : List IndexerDbEvent) : List Block :=
  events.filterMap fun
    | .put block _ => some block
    | .restart => none

@[simp] theorem storedBlocks_concat_put (events : List IndexerDbEvent) (b : Block)
    (l1LibHeader : Bytes32) :
    storedBlocks (events ++ [.put b l1LibHeader]) = storedBlocks events ++ [b] := by
  simp [storedBlocks]

@[simp] theorem storedBlocks_concat_restart (events : List IndexerDbEvent) :
    storedBlocks (events ++ [.restart]) = storedBlocks events := by
  simp [storedBlocks]

namespace IndexerDb

section

variable [Sha256] [Zkvm] [Schnorr] [BuiltinPrograms] [InstructionCodec Clock.Instruction]

/-- Consecutive blocks are written, whether this succeeds or not; the process restarts with
the same initial state. -/
def Step (init : V03State) (db : IndexerDb) : IndexerDbEvent → IndexerDb → Prop
  | .put b l1LibHeader, db' =>
      b.header.blockId.toNat = db.lastBlockId + 1 ∧ (db.putBlock b l1LibHeader).1 = db'
  | .restart, db' => db.openOrCreate init = db'

omit [Sha256] [Zkvm] [Schnorr] [BuiltinPrograms] [InstructionCodec Clock.Instruction] in
/-- The database after the first start. -/
def fresh (init : V03State) : IndexerDb := empty.openOrCreate init

variable {init st : V03State} {events : List IndexerDbEvent} {db : IndexerDb} {blocks : List Block}

theorem indexes_fresh (init : V03State) : Indexes init [] (fresh init) := by
  have hempty : Indexes init [] empty := by
    refine ⟨consecutiveBlocks_nil, rfl, fun _ => rfl, ?_⟩
    constructor
    · rintro k s ⟨⟩
    · rintro k s ⟨⟩
  exact hempty.openOrCreate

/-- **Run.**  The database holds the blocks that were written. -/
theorem indexes_of_run (h : Run (Step init) (fresh init) events db) :
    Indexes init (storedBlocks events) db := by
  induction h with
  | nil => exact indexes_fresh init
  | @snoc events db e db' _ hstep ih =>
      cases e with
      | put b l1LibHeader =>
          obtain ⟨hid, rfl⟩ := hstep
          rw [storedBlocks_concat_put]
          exact ih.putBlock l1LibHeader (ih.last ▸ hid)
      | restart =>
          cases hstep
          rw [storedBlocks_concat_restart]
          exact ih.openOrCreate

/-- **Historical states.**  Whatever consecutive blocks are written, and however often the
process is restarted in between: a state that is recomputed for a stored block is the state
after the blocks up to it, and every breakpoint is the state after the blocks it stands for. -/
theorem historical_state_correct (hrun : Run (Step init) (fresh init) events db) :
    (∀ n s, n ≤ db.lastBlockId → db.calculateStateForId n = .ok s →
      Replay.replay Block.apply init ((storedBlocks events).take n) = some s) ∧
    ∀ k s, db.breakpoints.lookup k = some s →
      breakpointInterval * k ≤ (storedBlocks events).length ∧
      Replay.replay Block.apply init ((storedBlocks events).take (breakpointInterval * k)) =
        some s := by
  have hdb := indexes_of_run hrun
  refine ⟨fun n s _ hs => (hdb.calculateStateForId_eq_ok.1 hs).2.2, fun k s hs => ?_⟩
  exact ⟨hdb.breakpoints.le_length k s hs, hdb.breakpoints.replay_take k s hs⟩

/-! ## Which breakpoints there are -/

/-- The breakpoint counter is at `j`, and the database has the breakpoints up to `m`. -/
structure Counted (db : IndexerDb) (j m : Nat) : Prop where
  counter : db.lastBreakpointId.getD 0 = j
  present : ∀ k, (∃ s, db.breakpoints.lookup k = some s) ↔ k ≤ m

variable {j m : Nat}

omit [Sha256] [Zkvm] [Schnorr] [BuiltinPrograms] [InstructionCodec Clock.Instruction] in
theorem Counted.putBreakpoint (h : Counted db j m) {k : Nat} (hk : k ≤ m + 1) (s : V03State) :
    Counted (db.putBreakpoint k s) k (max m k) := by
  refine ⟨rfl, fun k' => ?_⟩
  by_cases hkk : k' = k
  · subst hkk
    exact ⟨fun _ => Nat.le_max_right _ _, fun _ => ⟨s, AList.lookup_insert _⟩⟩
  · have hlookup : (db.putBreakpoint k s).breakpoints.lookup k' = db.breakpoints.lookup k' :=
      AList.lookup_insert_ne hkk
    rw [hlookup, h.present]
    omega

omit [Sha256] [Zkvm] [Schnorr] [BuiltinPrograms] [InstructionCodec Clock.Instruction] in
/-- Opening the database keeps the breakpoints and forgets how many there are. -/
theorem Counted.openOrCreate (h : Counted db j m) (init : V03State) :
    Counted (db.openOrCreate init) 0 m := by
  have hput := h.putBreakpoint (Nat.zero_le _) init
  rwa [Nat.max_eq_left (Nat.zero_le m)] at hput

omit [Sha256] [Zkvm] [Schnorr] [BuiltinPrograms] [InstructionCodec Clock.Instruction] in
theorem counted_fresh (init : V03State) : Counted (fresh init) 0 0 := by
  refine ⟨rfl, fun k => ?_⟩
  by_cases hk : k = 0
  · subst hk
    exact ⟨fun _ => Nat.le_refl _, fun _ => ⟨init, AList.lookup_insert _⟩⟩
  · have hlookup : (fresh init).breakpoints.lookup k = none := AList.lookup_insert_ne hk
    rw [hlookup]
    constructor
    · rintro ⟨_, ⟨⟩⟩
    · intro h
      exact absurd (Nat.le_zero.1 h) hk

/-- The breakpoint after the counter can be computed once its blocks are there, if they
apply and the breakpoint before it was kept. -/
theorem Indexes.exists_nextBreakpoint (h : Indexes init blocks db) (hc : Counted db j m)
    (hjm : j ≤ m) (hle : breakpointInterval * (j + 1) ≤ blocks.length)
    (hvalid : Replay.replay Block.apply init blocks = some st) :
    ∃ s, db.nextBreakpoint = .ok (j + 1, s) := by
  have hlen := h.ids.length_lt
  obtain ⟨s, hs⟩ := Replay.exists_replay_take (breakpointInterval * (j + 1)) hvalid
  have hclosest : closestBreakpointId (breakpointInterval * (j + 1)) = j :=
    Replay.closest_mul_succ (Nat.succ_pos _) j
  have hstate : db.calculateStateForId (breakpointInterval * (j + 1)) = .ok s := by
    refine h.calculateStateForId_eq_ok.2 ⟨hle, ?_, hs⟩
    rw [hclosest]
    exact (hc.present j).2 hjm
  have hj : j + 1 < 2 ^ 64 := by
    simp only [breakpointInterval] at hle
    omega
  refine ⟨s, ?_⟩
  simp only [nextBreakpoint, bind_eq_ok, expect_eq_ok, ensure_eq_ok, exists_const, pure,
    Except.pure, Except.ok.injEq, hc.counter]
  exact ⟨_, checkedU64_of_lt hj, _, checkedU64_of_lt (Nat.lt_of_le_of_lt hle hlen),
    h.last ▸ hle, s, hstate, rfl⟩

/-- **Writing a valid block.**  It succeeds.  The counter moves with the multiples of the
interval, and the breakpoint it moves to is there afterwards. -/
theorem Counted.putBlock (hc : Counted db j m) (h : Indexes init blocks db) (hjm : j ≤ m)
    (hj : j ≤ blocks.length / breakpointInterval) {b : Block}
    (hid : b.header.blockId.toNat = blocks.length + 1)
    (hvalid : Replay.replay Block.apply init (blocks ++ [b]) = some st) (l1LibHeader : Bytes32)
    {j' : Nat} (hj' : j' = j + ((blocks.length + 1) / breakpointInterval -
      blocks.length / breakpointInterval)) :
    (db.putBlock b l1LibHeader).2 = .ok () ∧
      Counted (db.putBlock b l1LibHeader).1 j' (max m j') := by
  have hwrite := h.writeBlock l1LibHeader hid
  have hcounted : Counted (db.writeBlock b l1LibHeader) j m := ⟨hc.counter, hc.present⟩
  simp only [breakpointInterval] at hj hj'
  by_cases hmod : b.header.blockId.toNat % breakpointInterval = 0
  · rw [hid, breakpointInterval] at hmod
    have hle : breakpointInterval * (j + 1) ≤ (blocks ++ [b]).length := by
      rw [List.length_append, List.length_singleton, breakpointInterval]
      omega
    obtain ⟨s, hs⟩ := hwrite.exists_nextBreakpoint hcounted hjm hle hvalid
    obtain rfl : j' = j + 1 := by omega
    rw [IndexerDb.putBlock, if_pos (hid ▸ hmod), putNextBreakpoint, hs]
    exact ⟨rfl, hcounted.putBreakpoint (Nat.succ_le_succ hjm) s⟩
  · rw [IndexerDb.putBlock, if_neg hmod]
    rw [hid, breakpointInterval] at hmod
    obtain rfl : j' = j := by omega
    rw [Nat.max_eq_left hjm]
    exact ⟨rfl, hcounted⟩

/-! ## Databases that are not reopened late -/

/-- **Run.**  As long as the database is reopened only while it holds fewer blocks than an
interval has, the counter does not fall behind. -/
theorem counted_of_run
    (hrun : Run (fun db e db' => Step init db e db' ∧
      (e = .restart → db.lastBlockId < breakpointInterval)) (fresh init) events db)
    (hvalid : Replay.replay Block.apply init (storedBlocks events) = some st) :
    Counted db ((storedBlocks events).length / breakpointInterval)
      ((storedBlocks events).length / breakpointInterval) := by
  induction hrun generalizing st with
  | nil => exact counted_fresh init
  | @snoc events db e db' hrun hstep ih =>
      have hdb := indexes_of_run (hrun.mono fun _ _ _ h => h.1)
      obtain ⟨hstep, hearly⟩ := hstep
      cases e with
      | put b l1LibHeader =>
          obtain ⟨hid, rfl⟩ := hstep
          rw [storedBlocks_concat_put] at hvalid ⊢
          have hprefix := hvalid
          rw [Replay.replay_append] at hprefix
          obtain ⟨s, hs, _⟩ := Option.bind_eq_some_iff.1 hprefix
          obtain ⟨_, hput⟩ := (ih hs).putBlock hdb (Nat.le_refl _) (Nat.le_refl _) (hdb.last ▸ hid)
            hvalid l1LibHeader rfl
          have hmono : (storedBlocks events).length / breakpointInterval ≤
              ((storedBlocks events).length + 1) / breakpointInterval :=
            Nat.div_le_div_right (Nat.le_succ _)
          rw [Nat.add_sub_cancel' hmono, Nat.max_eq_right hmono] at hput
          rwa [List.length_append, List.length_singleton]
      | restart =>
          cases hstep
          rw [storedBlocks_concat_restart] at hvalid ⊢
          have hzero : (storedBlocks events).length / breakpointInterval = 0 :=
            Nat.div_eq_of_lt (hdb.last ▸ hearly rfl)
          have hopen := (ih hvalid).openOrCreate init
          rwa [hzero] at hopen ⊢

/-- **Availability.**  If the blocks that are written are valid, and the process is restarted
only while the database holds fewer than a hundred blocks, the state of every stored block can
be recomputed, and so can the state the indexer starts from when it is restarted. -/
theorem historical_state_available
    (hrun : Run (fun db e db' => Step init db e db' ∧
      (e = .restart → db.lastBlockId < breakpointInterval)) (fresh init) events db)
    (hvalid : Replay.replay Block.apply init (storedBlocks events) = some st) :
    (∀ n, n ≤ db.lastBlockId → ∃ s, db.calculateStateForId n = .ok s) ∧
      (db.openOrCreate init).finalState = .ok st := by
  have hdb := indexes_of_run (hrun.mono fun _ _ _ h => h.1)
  have hcounted := counted_of_run hrun hvalid
  have hpresent : ∀ n, n ≤ (storedBlocks events).length →
      closestBreakpointId n ≤ (storedBlocks events).length / breakpointInterval := fun n hn =>
    Nat.div_le_div_right (Nat.le_trans (Nat.sub_le n 1) hn)
  constructor
  · intro n hn
    rw [hdb.last] at hn
    obtain ⟨s, hs⟩ := Replay.exists_replay_take n hvalid
    exact ⟨s, hdb.calculateStateForId_eq_ok.2 ⟨hn, (hcounted.present _).2 (hpresent n hn), hs⟩⟩
  · have hlast : (db.openOrCreate init).lastBlockId = (storedBlocks events).length := hdb.last
    rw [finalState, hlast]
    refine hdb.openOrCreate.calculateStateForId_eq_ok.2 ⟨Nat.le_refl _, ?_, ?_⟩
    · exact ((hcounted.openOrCreate init).present _).2 (hpresent _ (Nat.le_refl _))
    · rwa [List.take_length]

/-! ## Runs without user transactions -/

/-- Writing blocks one after the other. -/
def puts (blocks : List Block) : List IndexerDbEvent := blocks.map fun b => .put b Bytes32.zero

omit [Sha256] [Zkvm] [Schnorr] [BuiltinPrograms] [InstructionCodec Clock.Instruction] in
theorem storedBlocks_puts (blocks : List Block) : storedBlocks (puts blocks) = blocks := by
  simp [storedBlocks, puts]

/-- **Run.**  Valid blocks can be written one after the other, and the counter moves by the
multiples of the interval among them. -/
theorem Counted.exists_run_puts (hc : Counted db j m) (h : Indexes init blocks db) (hjm : j ≤ m)
    (hj : j ≤ blocks.length / breakpointInterval) {more : List Block}
    (hids : ConsecutiveBlocks (blocks ++ more))
    (hvalid : Replay.replay Block.apply init (blocks ++ more) = some st)
    {j' : Nat} (hj' : j' = j + ((blocks ++ more).length / breakpointInterval -
      blocks.length / breakpointInterval)) :
    ∃ db', Run (Step init) db (puts more) db' ∧ Indexes init (blocks ++ more) db' ∧
      Counted db' j' (max m j') := by
  induction more using List.reverseRecOn generalizing st j' with
  | nil =>
      rw [List.append_nil, Nat.sub_self, Nat.add_zero] at hj'
      subst hj'
      rw [List.append_nil, Nat.max_eq_left hjm]
      exact ⟨db, .nil, h, hc⟩
  | append_singleton more b ih =>
      rw [← List.append_assoc] at hids hvalid hj' ⊢
      obtain ⟨hids, hid⟩ := consecutiveBlocks_concat.1 hids
      have hprefix := hvalid
      rw [Replay.replay_append] at hprefix
      obtain ⟨s, hs, _⟩ := Option.bind_eq_some_iff.1 hprefix
      obtain ⟨j₁, hj₁⟩ : ∃ j₁, j₁ = j + ((blocks ++ more).length / breakpointInterval -
        blocks.length / breakpointInterval) := ⟨_, rfl⟩
      obtain ⟨db₁, hrun, hdb₁, hcounted⟩ := ih hids hs hj₁
      have hlen : blocks.length ≤ (blocks ++ more).length := by
        rw [List.length_append]
        exact Nat.le_add_right _ _
      rw [List.length_append, List.length_singleton] at hj'
      have hstep : j₁ ≤ (blocks ++ more).length / breakpointInterval ∧ j₁ ≤ j' ∧
          j' = j₁ + (((blocks ++ more).length + 1) / breakpointInterval -
            (blocks ++ more).length / breakpointInterval) := by
        simp only [breakpointInterval] at hj hj₁ hj' ⊢
        omega
      obtain ⟨_, hput⟩ := hcounted.putBlock hdb₁ (Nat.le_max_right _ _) hstep.1 hid hvalid
        Bytes32.zero hstep.2.2
      refine ⟨(db₁.putBlock b Bytes32.zero).1, ?_, hdb₁.putBlock _ hid, ?_⟩
      · rw [puts, List.map_append]
        exact hrun.snoc ⟨hdb₁.last ▸ hid, rfl⟩
      · rwa [Nat.max_assoc, Nat.max_eq_right hstep.2.1] at hput

theorem calculateStateForId_of_missing {n : Nat} (hn : n ≤ db.lastBlockId)
    (hmissing : db.breakpoints.lookup (closestBreakpointId n) = none) :
    db.calculateStateForId n = .error (dbInteractionError "\"breakpoint\" not found") := by
  simp only [calculateStateForId, ensure_of _ hn, getBreakpoint, hmissing]
  rfl

/-- A run with one restart. -/
def restartedAt (h : Nat) (chain : List Block) : List IndexerDbEvent :=
  puts (chain.take h) ++ [.restart] ++ puts (chain.drop h)

omit [Sha256] [Zkvm] [Schnorr] [BuiltinPrograms] [InstructionCodec Clock.Instruction] in
theorem storedBlocks_restartedAt (h : Nat) (chain : List Block) :
    storedBlocks (restartedAt h chain) = chain := by
  have hputs := storedBlocks_puts
  simp only [storedBlocks] at hputs
  simp [storedBlocks, restartedAt, hputs]

/-- A valid chain can be written with a restart at any height.  The restart costs the counter
the breakpoints before it. -/
theorem exists_run_restartedAt {chain : List Block} {h : Nat} (hh : h ≤ chain.length)
    (hids : ConsecutiveBlocks chain) (hvalid : Replay.replay Block.apply init chain = some st) :
    ∃ db₁ db, Run (Step init) (fresh init) (puts (chain.take h)) db₁ ∧ db₁.lastBlockId = h ∧
      Run (Step init) (db₁.openOrCreate init) (puts (chain.drop h)) db ∧ Indexes init chain db ∧
      Counted db (chain.length / breakpointInterval - h / breakpointInterval)
        (max (h / breakpointInterval)
          (chain.length / breakpointInterval - h / breakpointInterval)) := by
  have htake : (chain.take h).length = h := List.length_take_of_le hh
  have hsplit : chain.take h ++ chain.drop h = chain := List.take_append_drop h chain
  obtain ⟨s, hs⟩ := Replay.exists_replay_take h hvalid
  obtain ⟨db₁, hrun₁, hdb₁, hcounted₁⟩ := (counted_fresh init).exists_run_puts (indexes_fresh init)
    (Nat.le_refl 0) (Nat.zero_le _) (hids.take h) hs rfl
  rw [List.nil_append] at hdb₁ hcounted₁
  obtain ⟨db, hrun, hdb, hcounted⟩ := (hcounted₁.openOrCreate init).exists_run_puts
    hdb₁.openOrCreate (Nat.zero_le _) (Nat.zero_le _) (hsplit ▸ hids) (hsplit ▸ hvalid) rfl
  rw [hsplit] at hdb
  rw [hsplit, htake, List.length_nil, Nat.zero_div, Nat.zero_add, Nat.zero_add, Nat.sub_zero,
    Nat.max_eq_right (Nat.zero_le (h / breakpointInterval))] at hcounted
  exact ⟨db₁, db, hrun₁, hdb₁.last.trans htake, hrun, hdb, hcounted⟩

omit [Sha256] [Zkvm] [Schnorr] [BuiltinPrograms] [InstructionCodec Clock.Instruction] in
theorem ne_restart_of_mem_puts {e : IndexerDbEvent} (he : e ∈ puts blocks) : e ≠ .restart := by
  obtain ⟨b, _, rfl⟩ := List.mem_map.1 he
  rintro ⟨⟩

/-- An early restart, as one of the runs in which nothing gets lost. -/
theorem exists_run_of_early_restart {chain : List Block} {h : Nat} (hh : h ≤ chain.length)
    (hearly : h < breakpointInterval) (hids : ConsecutiveBlocks chain)
    (hvalid : Replay.replay Block.apply init chain = some st) :
    ∃ db, Run (fun db e db' => Step init db e db' ∧
        (e = .restart → db.lastBlockId < breakpointInterval)) (fresh init) (restartedAt h chain) db ∧
      Indexes init chain db := by
  obtain ⟨db₁, db, hrun₁, hlast, hrun, hdb, _⟩ := exists_run_restartedAt hh hids hvalid
  refine ⟨db, .append (.snoc (s := db₁) (hrun₁.mono_of_mem ?_) ⟨rfl, fun _ => hlast ▸ hearly⟩)
    (hrun.mono_of_mem ?_), hdb⟩
  · exact fun e he _ _ hstep => ⟨hstep, fun h => absurd h (ne_restart_of_mem_puts he)⟩
  · exact fun e he _ _ hstep => ⟨hstep, fun h => absurd h (ne_restart_of_mem_puts he)⟩

/-- **A late restart.**  After a restart with a hundred or more blocks, the breakpoint that is
due at any later multiple of the interval is missing when the next block is written: the state
of that block can not be recomputed, and the indexer can not be started again. -/
theorem exists_missing_of_late_restart {chain : List Block} {h k : Nat}
    (hlen : chain.length = breakpointInterval * k + 1) (hids : ConsecutiveBlocks chain)
    (hvalid : Replay.replay Block.apply init chain = some st) (hh : breakpointInterval ≤ h)
    (hk : h < breakpointInterval * k) :
    ∃ db, Run (Step init) (fresh init) (restartedAt h chain) db ∧
      db.lastBlockId = breakpointInterval * k + 1 ∧
      db.calculateStateForId (breakpointInterval * k + 1) =
        .error (dbInteractionError "\"breakpoint\" not found") ∧
      (db.openOrCreate init).finalState =
        .error (dbInteractionError "\"breakpoint\" not found") := by
  have hclosest : closestBreakpointId (breakpointInterval * k + 1) = k :=
    Nat.mul_div_cancel_left k (Nat.succ_pos _)
  obtain ⟨db₁, db, hrun₁, _, hrun, hdb, hcounted⟩ :=
    exists_run_restartedAt (h := h) (hlen ▸ Nat.le_succ_of_le hk.le) hids hvalid
  have hmissing : db.breakpoints.lookup k = none := by
    refine Option.eq_none_iff_forall_ne_some.2 fun s hs => ?_
    have hle := (hcounted.present k).1 ⟨s, hs⟩
    rw [hlen] at hle
    simp only [breakpointInterval] at hh hk hle
    omega
  have hlast : db.lastBlockId = breakpointInterval * k + 1 := hdb.last.trans hlen
  have hrestart : Step init db₁ .restart (db₁.openOrCreate init) := rfl
  refine ⟨db, (hrun₁.snoc hrestart).append hrun, hlast, ?_, ?_⟩
  · refine calculateStateForId_of_missing hlast.ge ?_
    rwa [hclosest]
  · have hopen : (db.openOrCreate init).breakpoints.lookup k = none := by
      have hk0 : k ≠ 0 := by
        rintro rfl
        exact Nat.not_lt_zero h hk
      rw [← hmissing]
      exact AList.lookup_insert_ne hk0
    refine calculateStateForId_of_missing (Nat.le_refl _) ?_
    rwa [show (db.openOrCreate init).lastBlockId = _ from hlast, hclosest]

end

end IndexerDb

namespace ClockOnly

def genesis : V03State :=
  let _ := Sample.sha256; let _ := Sample.builtins
  valueD (Sample.state [] []) (V03State.newWithGenesisAccounts [] [] 0)

theorem genesis_eq :
    let _ := Sample.sha256; let _ := Sample.builtins
    V03State.newWithGenesisAccounts [] [] 0 = .ok genesis := by
  intro _ _
  exact eq_ok_valueD (Sample.state [] []) (by decide +kernel)

def chain (n : Nat) : List Block :=
  let _ := Sample.sha256; let _ := Sample.signing; let _ := Sample.builtins
  let _ := Sample.clockCodec
  clockChain ⟨Bytes32.zero⟩ n

theorem chain_length (n : Nat) : (chain n).length = n :=
  @length_clockChain Sample.sha256 Sample.signing Sample.builtins Sample.clockCodec _ n

theorem chain_consecutive {n : Nat} (h : n < 2 ^ 64) : ConsecutiveBlocks (chain n) :=
  @consecutiveBlocks_clockChain Sample.sha256 Sample.signing Sample.builtins Sample.clockCodec _ n h

theorem chain_valid {n : Nat} (h : n < 2 ^ 64) :
    let _ := Sample.sha256; let _ := Sample.zkvm Sample.clockScript; let _ := Sample.schnorr
    let _ := Sample.builtins; let _ := Sample.clockCodec
    ∃ st, Replay.replay Block.apply genesis (chain n) = some st := by
  intro _ _ _ _ _
  let _ := Sample.signing
  obtain ⟨st, hst, _⟩ := exists_replay_clockChain ⟨Bytes32.zero⟩ Sample.clock_executes
    (Sample.distinctBuiltins.ne_default _ List.mem_cons_self)
    (builtinsDeployed_genesis Sample.distinctBuiltins genesis_eq _ List.mem_cons_self)
    (clockAt_genesis genesis_eq) h
  exact ⟨st, hst⟩

end ClockOnly

/-- A hundred blocks without user transactions, a restart, and another hundred and one: the
state of the last block can not be recomputed any more. -/
theorem breakpoint_skipped_after_restart :
    let _ := Sample.sha256; let _ := Sample.zkvm Sample.clockScript; let _ := Sample.schnorr
    let _ := Sample.builtins; let _ := Sample.clockCodec
    (∃ st, Replay.replay Block.apply ClockOnly.genesis (ClockOnly.chain 201) = some st) ∧
    ∃ db, Run (IndexerDb.Step ClockOnly.genesis) (IndexerDb.fresh ClockOnly.genesis)
        (IndexerDb.restartedAt 100 (ClockOnly.chain 201)) db ∧
      db.lastBlockId = 201 ∧
      db.calculateStateForId 201 = .error (dbInteractionError "\"breakpoint\" not found") ∧
      (db.openOrCreate ClockOnly.genesis).finalState =
        .error (dbInteractionError "\"breakpoint\" not found") := by
  intro _ _ _ _ _
  have hn : 201 < 2 ^ 64 := by decide
  obtain ⟨st, hvalid⟩ := ClockOnly.chain_valid hn
  exact ⟨⟨st, hvalid⟩, IndexerDb.exists_missing_of_late_restart (k := 2)
    (ClockOnly.chain_length 201) (ClockOnly.chain_consecutive hn) hvalid (Nat.le_refl 100)
    (by decide)⟩

/-- A hundred and fifty blocks with a restart after fifty: the breakpoint is there, and it is
the state after the first hundred. -/
theorem historical_state_correct_clock :
    let _ := Sample.sha256; let _ := Sample.zkvm Sample.clockScript; let _ := Sample.schnorr
    let _ := Sample.builtins; let _ := Sample.clockCodec
    ∃ db s, Run (IndexerDb.Step ClockOnly.genesis) (IndexerDb.fresh ClockOnly.genesis)
        (IndexerDb.restartedAt 50 (ClockOnly.chain 150)) db ∧
      db.breakpoints.lookup 1 = some s ∧
      Replay.replay Block.apply ClockOnly.genesis ((ClockOnly.chain 150).take 100) = some s := by
  intro _ _ _ _ _
  have hn : 150 < 2 ^ 64 := by decide
  have hlen := ClockOnly.chain_length 150
  have hh : 50 ≤ (ClockOnly.chain 150).length := by
    rw [hlen]
    decide
  obtain ⟨st, hvalid⟩ := ClockOnly.chain_valid hn
  obtain ⟨db₁, db, hrun₁, _, hrun, _, hcounted⟩ := IndexerDb.exists_run_restartedAt hh
    (ClockOnly.chain_consecutive hn) hvalid
  have hrestart : IndexerDb.Step ClockOnly.genesis db₁ .restart
    (db₁.openOrCreate ClockOnly.genesis) := rfl
  have hrun : Run _ _ (IndexerDb.restartedAt 50 _) db := (hrun₁.snoc hrestart).append hrun
  rw [hlen] at hcounted
  obtain ⟨s, hs⟩ := (hcounted.present 1).2 (by decide)
  have htake := ((IndexerDb.historical_state_correct hrun).2 1 s hs).2
  rw [IndexerDb.storedBlocks_restartedAt] at htake
  exact ⟨db, s, hrun, hs, htake⟩

/-- In the same run the state of all hundred and fifty blocks can be recomputed. -/
theorem historical_state_available_clock :
    let _ := Sample.sha256; let _ := Sample.zkvm Sample.clockScript; let _ := Sample.schnorr
    let _ := Sample.builtins; let _ := Sample.clockCodec
    ∃ (db : IndexerDb) (st : V03State),
      Replay.replay Block.apply ClockOnly.genesis (ClockOnly.chain 150) = some st ∧
      db.lastBlockId = 150 ∧ (∀ n, n ≤ 150 → ∃ s, db.calculateStateForId n = .ok s) ∧
      (db.openOrCreate ClockOnly.genesis).finalState = .ok st := by
  intro _ _ _ _ _
  have hn : 150 < 2 ^ 64 := by decide
  have hlen := ClockOnly.chain_length 150
  have hh : 50 ≤ (ClockOnly.chain 150).length := by
    rw [hlen]
    decide
  obtain ⟨st, hvalid⟩ := ClockOnly.chain_valid hn
  obtain ⟨db, hrun, hdb⟩ := IndexerDb.exists_run_of_early_restart hh (by decide)
    (ClockOnly.chain_consecutive hn) hvalid
  have hlast : db.lastBlockId = 150 := hdb.last.trans hlen
  have hstored : Replay.replay Block.apply ClockOnly.genesis
      (storedBlocks (IndexerDb.restartedAt 50 (ClockOnly.chain 150))) = some st := by
    rw [IndexerDb.storedBlocks_restartedAt]
    exact hvalid
  obtain ⟨hall, hfinal⟩ := IndexerDb.historical_state_available hrun hstored
  exact ⟨db, st, hvalid, hlast, fun n hle => hall n (hlast ▸ hle), hfinal⟩

end ExecutionZone
