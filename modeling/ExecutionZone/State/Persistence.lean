import ExecutionZone.Core.Formats
import ExecutionZone.Lib.Collections
import ExecutionZone.State.Commitments

/-!
# The stored state

`borsh::to_vec` and `borsh::from_slice` of `V03State`, as the sequencer stores it in its database.
The format is derived field by field, except for two decoders that are written by hand: `Data`
refuses more than its maximal length, and `NullifierSet` refuses a list with a repetition.

The state that is read has the same accounts, commitments, roots, nullifiers and programs as
the one that was written (`fromSlice_toVec`).  Only a collection of `2 ^ 32` elements cannot be
written.
-/

namespace ExecutionZone

open Encoding

/-! ## Formats -/

/-- `u8`. -/
def UInt8.codec : Codec UInt8 :=
  (Codec.word 1).map ⟨UInt8.ofBitVec, UInt8.toBitVec, fun _ => rfl, fun _ => rfl⟩

def Commitment.codec : Codec Commitment :=
  (Codec.array 32).map ⟨Commitment.mk, Commitment.value, fun _ => rfl, fun _ => rfl⟩

def Nullifier.codec : Codec Nullifier :=
  (Codec.array 32).map ⟨Nullifier.mk, Nullifier.value, fun _ => rfl, fun _ => rfl⟩

/-- `Account`, field by field. -/
def Account.borshCodec : Codec Account :=
  (ProgramId.codec.pair (U128.codec.pair (Data.codec.pair U128.codec))).map
    { toFun := fun p => ⟨p.1, p.2.1, p.2.2.1, ⟨p.2.2.2⟩⟩
      invFun := fun a => (a.programOwner, a.balance, a.data, a.nonce.val)
      left_inv := fun _ => rfl
      right_inv := fun _ => rfl }

def Program.codec : PartialCodec Program :=
  (ProgramId.codec.toPartial.pair UInt8.codec.toPartial.vec).map
    { toFun := fun p => ⟨p.1, p.2⟩
      invFun := fun program => (program.id, program.elf)
      left_inv := fun _ => rfl
      right_inv := fun _ => rfl }

def MerkleTree.codec : PartialCodec MerkleTree :=
  ((Codec.array 32).toPartial.vec.pair (PartialCodec.usize.pair PartialCodec.usize)).map
    { toFun := fun p => ⟨p.1, p.2.1, p.2.2⟩
      invFun := fun t => (t.nodes, t.capacity, t.length)
      left_inv := fun _ => rfl
      right_inv := fun _ => rfl }

/-! ## Orders -/

/-- Arrays of bytes are compared lexicographically, that is, as numbers with the most significant
byte first. -/
def bytes32Key (b : Bytes32) : Nat := leNat b.toList.reverse

theorem bytes32Key_injective : Function.Injective bytes32Key := by
  intro a b h
  have hbytes := congrArg (leBytes 32) h
  have hlen : ∀ v : Bytes32, leBytes 32 (bytes32Key v) = v.toList.reverse := by
    intro v
    have hv := leBytes_leNat v.toList.reverse
    rw [List.length_reverse, Vector.length_toList] at hv
    exact hv
  rw [hlen, hlen, List.reverse_inj] at hbytes
  exact Vector.toList_inj.1 hbytes

def AccountId.key (id : AccountId) : Nat := bytes32Key id.value

def Commitment.key (c : Commitment) : Nat := bytes32Key c.value

def Nullifier.key (n : Nullifier) : Nat := bytes32Key n.value

theorem Nullifier.key_injective : Function.Injective Nullifier.key := by
  rintro ⟨a⟩ ⟨b⟩ h
  exact congrArg Nullifier.mk (bytes32Key_injective h)

/-- Program ids are compared word by word. -/
def ProgramId.key (id : ProgramId) : Nat := id.toList.foldl (fun n w => n * 2 ^ 32 + w.toNat) 0

/-! ## The state as lists -/

/-- What is written for a state: its collections as lists. -/
structure StateImage where
  publicState : List (AccountId × Account)
  merkleTree : MerkleTree
  commitments : List (Commitment × Nat)
  rootHistory : List CommitmentSetDigest
  nullifierSet : List Nullifier
  programs : List (ProgramId × Program)

/-- `public_state`, then `private_state`, a pair of a commitment set and the nullifiers, then
`programs`. -/
def StateImage.codec : PartialCodec StateImage :=
  let publicState := (AccountId.codec.pair Account.borshCodec).toPartial.vec
  let commitmentSet := MerkleTree.codec.pair
    ((Commitment.codec.toPartial.pair PartialCodec.usize).vec.pair (Codec.array 32).toPartial.vec)
  let nullifierSet := Nullifier.codec.toPartial.vec
  let programs := (ProgramId.codec.toPartial.pair Program.codec).vec
  (publicState.pair ((commitmentSet.pair nullifierSet).pair programs)).map
    { toFun := fun p => ⟨p.1, p.2.1.1.1, p.2.1.1.2.1, p.2.1.1.2.2, p.2.1.2, p.2.2⟩
      invFun := fun s => (s.publicState,
        ((s.merkleTree, s.commitments, s.rootHistory), s.nullifierSet), s.programs)
      left_inv := fun _ => rfl
      right_inv := fun _ => rfl }

/-- The errors of reading. -/
inductive BorshError where
  | malformed
  | invalidData (text : String)
deriving DecidableEq

/-- The loop of `NullifierSet::deserialize_reader`. -/
def nullifierSetOfVec (vec : List Nullifier) : Except BorshError (Finset Nullifier) :=
  vec.foldlM (fun set n =>
    if n ∈ set then .error (.invalidData "duplicate nullifier in NullifierSet")
    else .ok (insert n set)) ∅

/-- The state with given collections. -/
def StateImage.state (s : StateImage) : Except BorshError V03State := do
  let nullifierSet ← nullifierSetOfVec s.nullifierSet
  return ⟨Ledger.insertAll ∅ s.publicState,
    ⟨s.merkleTree, Ledger.insertAll ∅ s.commitments, s.rootHistory.toFinset⟩,
    nullifierSet, Ledger.insertAll ∅ s.programs⟩

namespace V03State

/-- The collections of a state, each in its order. -/
def image (st : V03State) : StateImage where
  publicState := sortedPairs AccountId.key st.publicState
  merkleTree := st.commitmentSet.merkleTree
  commitments := sortedPairs Commitment.key st.commitmentSet.commitments
  rootHistory := sortedElements bytes32Key bytes32Key_injective st.commitmentSet.rootHistory
  nullifierSet := sortedElements Nullifier.key Nullifier.key_injective st.nullifierSet
  programs := sortedPairs ProgramId.key st.programs

/-- `borsh::to_vec`. -/
def toVec (st : V03State) : Option Bytes := StateImage.codec.write st.image

/-- `borsh::from_slice`. -/
def fromSlice (bytes : Bytes) : Except BorshError V03State := do
  let image ← expect (StateImage.codec.decode bytes) .malformed
  image.state

end V03State

/-! ## The round trip -/

/-- The same contents, in perhaps another order of iteration. -/
structure CommitmentSet.Same (cs cs' : CommitmentSet) : Prop where
  merkleTree : cs'.merkleTree = cs.merkleTree
  commitments : Ledger.SameEntries cs.commitments cs'.commitments
  rootHistory : cs'.rootHistory = cs.rootHistory

/-- The same contents, in perhaps another order of iteration. -/
structure V03State.Same (st st' : V03State) : Prop where
  publicState : Ledger.SameEntries st.publicState st'.publicState
  commitmentSet : st.commitmentSet.Same st'.commitmentSet
  nullifierSet : st'.nullifierSet = st.nullifierSet
  programs : Ledger.SameEntries st.programs st'.programs

theorem V03State.Same.symm {st st' : V03State} (h : st.Same st') : st'.Same st :=
  ⟨h.publicState.symm,
    ⟨h.commitmentSet.merkleTree.symm, h.commitmentSet.commitments.symm,
      h.commitmentSet.rootHistory.symm⟩,
    h.nullifierSet.symm, h.programs.symm⟩

theorem foldlM_insert_of_nodup {l : List Nullifier} {set : Finset Nullifier} (hl : l.Nodup)
    (hset : ∀ n ∈ l, n ∉ set) :
    l.foldlM (fun set n =>
      if n ∈ set then .error (.invalidData "duplicate nullifier in NullifierSet")
      else .ok (insert n set)) set = (.ok (set ∪ l.toFinset) : Except BorshError _) := by
  induction l generalizing set with
  | nil => simp [pure, Except.pure]
  | cons n l ih =>
      obtain ⟨hn, hl⟩ := List.nodup_cons.1 hl
      have hrest : ∀ n' ∈ l, n' ∉ insert n set := by
        intro n' hn' hmem
        rcases Finset.mem_insert.1 hmem with rfl | hmem
        · exact hn hn'
        · exact hset n' (List.mem_cons_of_mem _ hn') hmem
      rw [List.foldlM_cons, if_neg (hset n List.mem_cons_self)]
      refine bind_eq_ok.2 ⟨_, rfl, (ih hl hrest).trans ?_⟩
      rw [List.toFinset_cons, Finset.insert_union, Finset.union_insert]

/-- A list without repetitions is read as the set of its elements. -/
theorem nullifierSetOfVec_of_nodup {l : List Nullifier} (hl : l.Nodup) :
    nullifierSetOfVec l = .ok l.toFinset := by
  have hfold := foldlM_insert_of_nodup hl fun n _ => Finset.notMem_empty n
  rwa [Finset.empty_union] at hfold

namespace V03State

variable {st : V03State} {bytes : Bytes}

/-- **Round trip.**  What was written is read back, up to the order of iteration. -/
theorem fromSlice_toVec (h : st.toVec = some bytes) :
    ∃ st', fromSlice bytes = .ok st' ∧ st.Same st' := by
  have hdecode := PartialCodec.decode_write h
  have hnullifiers : nullifierSetOfVec st.image.nullifierSet = .ok st.nullifierSet :=
    (nullifierSetOfVec_of_nodup (nodup_sortedElements _ _ _)).trans
      (congrArg Except.ok (toFinset_sortedElements _ _ _))
  refine ⟨⟨Ledger.insertAll ∅ st.image.publicState,
    ⟨st.image.merkleTree, Ledger.insertAll ∅ st.image.commitments, st.image.rootHistory.toFinset⟩,
    st.nullifierSet, Ledger.insertAll ∅ st.image.programs⟩, ?_, ?_⟩
  · exact bind_eq_ok.2 ⟨_, expect_eq_ok.2 hdecode, bind_eq_ok.2 ⟨_, hnullifiers, rfl⟩⟩
  · exact ⟨sameEntries_sortedPairs AccountId.key _,
      ⟨rfl, sameEntries_sortedPairs Commitment.key _, toFinset_sortedElements _ _ _⟩, rfl,
      sameEntries_sortedPairs ProgramId.key _⟩

/-! ## States that can be written -/

/-- No collection has `2 ^ 32` elements. -/
structure Fits (st : V03State) : Prop where
  publicState : (Ledger.pairs st.publicState).length < 2 ^ 32
  nodes : st.commitmentSet.merkleTree.nodes.length < 2 ^ 32
  commitments : (Ledger.pairs st.commitmentSet.commitments).length < 2 ^ 32
  rootHistory : st.commitmentSet.rootHistory.card < 2 ^ 32
  nullifierSet : st.nullifierSet.card < 2 ^ 32
  programs : (Ledger.pairs st.programs).length < 2 ^ 32
  elf : ∀ id program, st.programs.lookup id = some program → program.elf.length < 2 ^ 32

instance (st : V03State) : Decidable st.Fits :=
  decidable_of_iff
    (((Ledger.pairs st.publicState).length < 2 ^ 32 ∧
        st.commitmentSet.merkleTree.nodes.length < 2 ^ 32 ∧
        (Ledger.pairs st.commitmentSet.commitments).length < 2 ^ 32 ∧
        st.commitmentSet.rootHistory.card < 2 ^ 32 ∧ st.nullifierSet.card < 2 ^ 32 ∧
        (Ledger.pairs st.programs).length < 2 ^ 32) ∧
      ∀ p ∈ Ledger.pairs st.programs, p.2.elf.length < 2 ^ 32)
    ⟨fun ⟨⟨h₁, h₂, h₃, h₄, h₅, h₆⟩, h₇⟩ =>
        ⟨h₁, h₂, h₃, h₄, h₅, h₆, fun id program h => h₇ (id, program) (Ledger.mem_pairs.2 h)⟩,
      fun h => ⟨⟨h.publicState, h.nodes, h.commitments, h.rootHistory, h.nullifierSet, h.programs⟩,
        fun p hp => h.elf p.1 p.2 (Ledger.mem_pairs.1 hp)⟩⟩

end V03State

theorem isSome_write_merkleTree {t : MerkleTree} :
    (MerkleTree.codec.write t).isSome = true ↔
      t.nodes.length < 2 ^ 32 ∧ t.capacity < 2 ^ 64 ∧ t.length < 2 ^ 64 := by
  rw [MerkleTree.codec, PartialCodec.isSome_write_map, PartialCodec.isSome_write_pair,
    PartialCodec.isSome_write_pair, PartialCodec.isSome_write_vec,
    PartialCodec.isSome_write_usize, PartialCodec.isSome_write_usize]
  simp

theorem isSome_write_program {program : Program} :
    (Program.codec.write program).isSome = true ↔ program.elf.length < 2 ^ 32 := by
  rw [Program.codec, PartialCodec.isSome_write_map, PartialCodec.isSome_write_pair,
    PartialCodec.isSome_write_vec]
  simp

/-- The commitment tree counts its leaves, so its numbers fit if its nodes do. -/
theorem CommitmentSet.Indexed.bounds [Sha256] {cs : CommitmentSet} {values : List Bytes32}
    (h : cs.Indexed values) (hnodes : cs.merkleTree.nodes.length < 2 ^ 32) :
    cs.merkleTree.capacity < 2 ^ 64 ∧ cs.merkleTree.length < 2 ^ 64 ∧
      ∀ c i, cs.commitments.lookup c = some i → i < 2 ^ 64 := by
  have hcapacity : cs.merkleTree.capacity < 2 ^ 32 := by
    have hlen := h.represents.holds.length_eq
    have hpos := Nat.two_pow_pos cs.merkleTree.capacityDepth
    rw [h.represents.capacity_eq]
    rw [Nat.pow_succ] at hlen
    omega
  have hlength := h.represents.length_le
  refine ⟨by omega, by omega, fun c i hi => ?_⟩
  obtain ⟨hlt, _⟩ := List.getElem?_eq_some_iff.1 (h.index c i hi)
  have hvalues := h.represents.length_eq
  omega

theorem isSome_write_image {s : StateImage} :
    (StateImage.codec.write s).isSome = true ↔ s.publicState.length < 2 ^ 32 ∧
      (MerkleTree.codec.write s.merkleTree).isSome = true ∧
      (s.commitments.length < 2 ^ 32 ∧ ∀ p ∈ s.commitments, p.2 < 2 ^ 64) ∧
      s.rootHistory.length < 2 ^ 32 ∧ s.nullifierSet.length < 2 ^ 32 ∧
      s.programs.length < 2 ^ 32 ∧ ∀ p ∈ s.programs, (Program.codec.write p.2).isSome = true := by
  simp only [StateImage.codec, PartialCodec.isSome_write_map, PartialCodec.isSome_write_pair,
    PartialCodec.isSome_write_vec, PartialCodec.isSome_write_toPartial,
    PartialCodec.isSome_write_usize, Equiv.coe_fn_symm_mk, implies_true, and_true, true_and,
    and_assoc]

/-- **Writing.**  Only the sizes of the collections matter. -/
theorem V03State.isSome_toVec_iff [Sha256] {st : V03State} {values : List Bytes32}
    (h : st.commitmentSet.Indexed values) : st.toVec.isSome = true ↔ st.Fits := by
  have hpublic := length_sortedPairs AccountId.key st.publicState
  have hcommitments := length_sortedPairs Commitment.key st.commitmentSet.commitments
  have hprograms := length_sortedPairs ProgramId.key st.programs
  have hroots := length_sortedElements bytes32Key bytes32Key_injective st.commitmentSet.rootHistory
  have hnullifiers := length_sortedElements Nullifier.key Nullifier.key_injective st.nullifierSet
  have hentries : ∀ p, p ∈ sortedPairs ProgramId.key st.programs ↔
      st.programs.lookup p.1 = some p.2 := fun p =>
    (perm_sortedPairs ProgramId.key st.programs).mem_iff.trans Ledger.mem_pairs
  have hindices : ∀ p, p ∈ sortedPairs Commitment.key st.commitmentSet.commitments ↔
      st.commitmentSet.commitments.lookup p.1 = some p.2 := fun p =>
    (perm_sortedPairs Commitment.key st.commitmentSet.commitments).mem_iff.trans Ledger.mem_pairs
  rw [toVec, isSome_write_image, isSome_write_merkleTree]
  simp only [image, isSome_write_program, hpublic, hcommitments, hprograms, hroots, hnullifiers,
    hentries, hindices]
  constructor
  · rintro ⟨hpublic, ⟨hnodes, _⟩, ⟨hcommitments, _⟩, hroots, hnullifiers, hprograms, helf⟩
    exact ⟨hpublic, hnodes, hcommitments, hroots, hnullifiers, hprograms,
      fun id program hprogram => helf (id, program) hprogram⟩
  · intro hfits
    obtain ⟨hcapacity, hlength, hindex⟩ := h.bounds hfits.nodes
    exact ⟨hfits.publicState, ⟨hfits.nodes, hcapacity, hlength⟩,
      ⟨hfits.commitments, fun p hp => hindex p.1 p.2 hp⟩, hfits.rootHistory, hfits.nullifierSet,
      hfits.programs, fun p hp => hfits.elf p.1 p.2 hp⟩

end ExecutionZone
