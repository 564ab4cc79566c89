import ExecutionZone.State.Basic

/-!
# The commitment set over time

The commitment set only grows, and each root in its history is that of a tree over some of
its commitments.  So a path to a root in the history proves that its commitment was
inserted (`Tracked.mem_of_path`), as long as no strings collide among those hashed in the
trees and along the path.
-/

namespace ExecutionZone

open PerfectTree MerkleTree

namespace CommitmentSet

variable [Sha256]

/-- The strings hashed in the tree of the set are in `S`. -/
structure HashedIn (S : Set Bytes) (cs : CommitmentSet) : Prop where
  pairs : cs.merkleTree.hashedPairs ⊆ S
  leaves : ∀ c ∈ cs.commitments, leafPreimage c.value ∈ S

/-- The tree holds commitments of the set, and so did the tree of each root in the history,
hashing within `S`. -/
structure Tracked (S : Set Bytes) (cs : CommitmentSet) : Prop where
  tree : ∃ values, Represents cs.merkleTree values ∧ ∀ v ∈ values, ⟨v⟩ ∈ cs.commitments
  roots : ∀ r ∈ cs.rootHistory, ∃ t values, Represents t values ∧ t.root = r ∧
    t.hashedPairs ⊆ S ∧ ∀ v ∈ values, leafPreimage v ∈ S ∧ ⟨v⟩ ∈ cs.commitments

variable {S : Set Bytes} {cs cs' : CommitmentSet} {new : List Commitment}

theorem insertCommitments_eq_ok (h : cs.insertCommitments new = .ok cs') :
    (∀ c, c ∈ cs'.commitments ↔ c ∈ cs.commitments ∨ c ∈ new) ∧
      cs'.rootHistory = cs.rootHistory ∧
      ∀ values, Represents cs.merkleTree values →
        Represents cs'.merkleTree (values ++ new.map (·.value)) := by
  induction new generalizing cs with
  | nil =>
      cases h
      exact ⟨by simp, rfl, by simp⟩
  | cons c new ih =>
      simp only [insertCommitments, bind_eq_ok] at h
      obtain ⟨⟨i, t⟩, hinsert, h⟩ := h
      obtain ⟨hmem, hroots, hrep⟩ := ih h
      refine ⟨fun c' => ?_, hroots, fun values hvalues => ?_⟩
      · rw [hmem, AList.mem_insert, List.mem_cons]
        tauto
      · have hstep := hrep _ (represents_insert hvalues hinsert).1
        rwa [List.append_assoc, List.singleton_append] at hstep

/-- What `extend` does. -/
theorem extend_eq_ok (h : cs.extend new = .ok cs') :
    (∀ c, c ∈ cs'.commitments ↔ c ∈ cs.commitments ∨ c ∈ new) ∧
      cs'.rootHistory = insert cs'.merkleTree.root cs.rootHistory ∧
      ∀ values, Represents cs.merkleTree values →
        Represents cs'.merkleTree (values ++ new.map (·.value)) := by
  obtain ⟨cs₁, hinsert, h⟩ := bind_eq_ok.1 h
  cases h
  obtain ⟨hmem, hroots, hrep⟩ := insertCommitments_eq_ok hinsert
  exact ⟨hmem, by rw [← hroots]; rfl, hrep⟩

/-- **Step.**  Extending the set keeps it tracked. -/
theorem Tracked.extend (h : Tracked S cs) (hext : cs.extend new = .ok cs')
    (hS : cs'.HashedIn S) : Tracked S cs' := by
  obtain ⟨hmem, hroots, hrep⟩ := extend_eq_ok hext
  obtain ⟨values, hvalues, hin⟩ := h.tree
  have hin' : ∀ v ∈ values ++ new.map (·.value), ⟨v⟩ ∈ cs'.commitments := by
    intro v hv
    rw [hmem]
    rcases List.mem_append.1 hv with hv | hv
    · exact .inl (hin v hv)
    · obtain ⟨c, hc, rfl⟩ := List.mem_map.1 hv
      exact .inr hc
  refine ⟨⟨_, hrep values hvalues, hin'⟩, fun r hr => ?_⟩
  rw [hroots, Finset.mem_insert] at hr
  rcases hr with rfl | hr
  · exact ⟨cs'.merkleTree, _, hrep values hvalues, rfl, hS.pairs, fun v hv =>
      ⟨hS.leaves _ (hin' v hv), hin' v hv⟩⟩
  · obtain ⟨t, values', hvalues', hroot, hpairs, hleaves⟩ := h.roots r hr
    exact ⟨t, values', hvalues', hroot, hpairs, fun v hv =>
      ⟨(hleaves v hv).1, (hmem _).2 (.inl (hleaves v hv).2)⟩⟩

theorem tracked_withCapacity {n : Nat} (h : withCapacity n = .ok cs) : Tracked S cs := by
  obtain ⟨t, ht, h⟩ := bind_eq_ok.1 h
  cases h
  exact ⟨⟨[], represents_withCapacity ht, by simp⟩, by simp⟩

/-- The first commitment is its own root: a tree of one leaf hashes no pairs. -/
theorem hashedPairs_singleton {n : Nat} {c : Commitment} (hnew : withCapacity n = .ok cs)
    (h : cs.extend [c] = .ok cs') : cs'.merkleTree.hashedPairs = ∅ := by
  obtain ⟨t, ht, hnew⟩ := bind_eq_ok.1 hnew
  cases hnew
  have hrep := (extend_eq_ok h).2.2 [] (represents_withCapacity ht)
  have hdepth : cs'.merkleTree.depth = 0 := by
    unfold MerkleTree.depth
    rw [hrep.length_eq]
    rfl
  ext s
  simp [hashedPairs, hdepth]

/-! ## Proofs of membership -/

/-- The tree is that of `values`, and each commitment is recorded with an index of its value. -/
structure Indexed (cs : CommitmentSet) (values : List Bytes32) : Prop where
  represents : Represents cs.merkleTree values
  index : ∀ c i, cs.commitments.lookup c = some i → values[i]? = some c.value

theorem Indexed.insertCommitments {values : List Bytes32} (h : Indexed cs values)
    (hinsert : cs.insertCommitments new = .ok cs') :
    Indexed cs' (values ++ new.map (·.value)) := by
  induction new generalizing cs values with
  | nil =>
      cases hinsert
      simpa using h
  | cons c new ih =>
      simp only [CommitmentSet.insertCommitments, bind_eq_ok] at hinsert
      obtain ⟨⟨i, t⟩, ht, hinsert⟩ := hinsert
      obtain ⟨hrep, rfl⟩ := represents_insert h.represents ht
      have hstep : Indexed ⟨t, cs.commitments.insert c values.length, cs.rootHistory⟩
          (values ++ [c.value]) := by
        refine ⟨hrep, fun c' j hj => ?_⟩
        by_cases hc : c' = c
        · subst hc
          rw [AList.lookup_insert, Option.some.injEq] at hj
          rw [← hj, List.getElem?_concat_length]
        · rw [AList.lookup_insert_ne hc] at hj
          have hold := h.index c' j hj
          rwa [List.getElem?_append_left (List.getElem?_eq_some_iff.1 hold).1]
      have hrest := ih hstep hinsert
      rwa [List.append_assoc, List.singleton_append] at hrest

/-- What holds of a commitment set between transactions. -/
structure Intact (cs : CommitmentSet) : Prop where
  indexed : ∃ values, Indexed cs values
  digest : cs.digest ∈ cs.rootHistory

/-- **Step.**  Extending records the digest. -/
theorem Intact.of_extend (h : ∃ values, Indexed cs values) (hext : cs.extend new = .ok cs') :
    Intact cs' := by
  obtain ⟨values, hvalues⟩ := h
  obtain ⟨cs₁, hinsert, hext⟩ := bind_eq_ok.1 hext
  cases hext
  have hindexed := hvalues.insertCommitments hinsert
  exact ⟨⟨_, hindexed.represents, hindexed.index⟩, Finset.mem_insert_self _ _⟩

theorem indexed_withCapacity {n : Nat} (h : withCapacity n = .ok cs) : Indexed cs [] := by
  obtain ⟨t, ht, h⟩ := bind_eq_ok.1 h
  cases h
  refine ⟨represents_withCapacity ht, fun c i hi => ?_⟩
  cases hi

/-- **Proofs.**  Every commitment of the set has a proof, and it leads to the digest. -/
theorem Intact.getProofFor (h : Intact cs) {c : Commitment} (hc : c ∈ cs.commitments) :
    ∃ membershipProof, cs.getProofFor c = .ok (some membershipProof) ∧
      computeDigestForPath c membershipProof = cs.digest := by
  obtain ⟨values, hvalues⟩ := h.indexed
  obtain ⟨i, hi⟩ := Option.isSome_iff_exists.1 (AList.lookup_isSome.2 hc)
  obtain ⟨path, hpath, _, hdigest⟩ :=
    hvalues.represents.getAuthenticationPathFor (hvalues.index c i hi)
  refine ⟨(i, path), ?_, hdigest⟩
  unfold CommitmentSet.getProofFor
  simp only [hi, hpath]
  rfl

omit [Sha256] in
theorem mem_of_getProofFor {c : Commitment} {membershipProof : MembershipProof}
    (h : cs.getProofFor c = .ok (some membershipProof)) : c ∈ cs.commitments := by
  unfold CommitmentSet.getProofFor at h
  split at h
  · cases h
  · rename_i index hindex
    exact AList.lookup_isSome.1 (by rw [hindex]; rfl)

/-- **Membership.**  A path from a commitment to a root in the history. -/
theorem Tracked.mem_of_path (h : Tracked S cs) (hS : CollisionFree S) {c : Commitment}
    {membershipProof : MembershipProof}
    (hroot : computeDigestForPath c membershipProof ∈ cs.rootHistory)
    (hc : leafPreimage c.value ∈ S)
    (hpath : ∀ a ∈ climbPairs hashTwo membershipProof.1 (hashValue c.value) membershipProof.2,
      nodePreimage a.1 a.2 ∈ S) : c ∈ cs.commitments := by
  obtain ⟨t, values, hvalues, ht, hpairs, hleaves⟩ := h.roots _ hroot
  have hmem := hvalues.mem_of_computeDigestForPath hS hpairs (fun v hv => (hleaves v hv).1) hc
    hpath ht.symm
  exact (hleaves _ hmem).2

/-- The commitment set of a genesis state. -/
theorem of_genesis [BuiltinPrograms] {initialData : List (AccountId × U128)}
    {notes : List (Commitment × Nullifier)} {genesisTimestamp : Timestamp} {st : V03State}
    (h : V03State.newWithGenesisAccounts initialData notes genesisTimestamp = .ok st) :
    (∀ c, c ∈ st.commitmentSet.commitments ↔ c = dummyCommitment ∨ c ∈ notes.map Prod.fst) ∧
      st.commitmentSet.Intact ∧
      (st.commitmentSet.HashedIn S → st.commitmentSet.Tracked S) := by
  simp only [V03State.newWithGenesisAccounts, bind_eq_ok, pure, Except.pure, Except.ok.injEq] at h
  obtain ⟨cs₀, hcs₀, cs₁, hcs₁, cs₂, hcs₂, rfl⟩ := h
  refine ⟨fun c => ?_, ?_, fun hhashed => ?_⟩
  · have hempty : c ∉ cs₀.commitments := by
      obtain ⟨t, _, hcs₀⟩ := bind_eq_ok.1 hcs₀
      cases hcs₀
      simp
    rw [(extend_eq_ok hcs₂).1, (extend_eq_ok hcs₁).1]
    simp only [hempty, false_or, List.mem_singleton]
  · exact .of_extend (Intact.of_extend ⟨_, indexed_withCapacity hcs₀⟩ hcs₁).indexed hcs₂
  · have htracked₁ : cs₁.Tracked S := by
      refine (tracked_withCapacity hcs₀).extend hcs₁ ⟨?_, fun c hc => ?_⟩
      · rw [hashedPairs_singleton hcs₀ hcs₁]
        exact Set.empty_subset S
      · exact hhashed.leaves c (((extend_eq_ok hcs₂).1 c).2 (.inl hc))
    exact htracked₁.extend hcs₂ hhashed

end CommitmentSet

end ExecutionZone
