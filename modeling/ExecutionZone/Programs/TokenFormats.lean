import ExecutionZone.Programs.SampleAmm

/-!
# The formats of the token program

Definitions, holdings and metadata are kept in accounts of one program, and an instruction tells
them apart only by what their data decodes as.  None of the three formats starts with a byte of
its own, so that some strings are in two of them; `formats_disjoint_iff` lists these strings.
-/

namespace ExecutionZone.Token

/-- Fungible holdings that are also definitions: with a name of 26 bytes, without metadata and
without an admin. -/
def NamedHolding (bytes : Bytes) : Prop :=
  ∃ (name : Text) (supply : U128), name.1.toByteArray.size = 26 ∧
    bytes = 0 :: (Codec.text.write name ++ (U128.codec.write supply ++ [0, 0]))

/-- Metadata that is also a holding: with two empty texts, of a definition whose id starts with
a zero or a one. -/
def BareMetadata (bytes : Bytes) : Prop :=
  ∃ (tag standard : UInt8) (id date : Bytes), (tag = 0 ∨ tag = 1) ∧
    (standard = 0 ∨ standard = 1) ∧ id.length = 31 ∧ date.length = 8 ∧
    bytes = tag :: (id ++ (standard :: (List.replicate 8 0 ++ date)))

/-- Definitions that are also metadata: from byte 32 on, they are a standard, two texts and a
date. -/
def OverlaidDefinition (bytes : Bytes) : Prop :=
  ∃ (d : TokenDefinition) (standard : UInt8) (uri creators : Text) (date : Bytes),
    bytes = TokenDefinition.codec.write d ∧ (standard = 0 ∨ standard = 1) ∧ date.length = 8 ∧
      bytes.drop 32 = standard :: (Codec.text.write uri ++ (Codec.text.write creators ++ date))

/-! ## The encodings -/

@[simp] theorem TokenDefinition.codec_write_fungible (name : Text) (totalSupply : U128)
    (metadataId : Option AccountId) (authority : Authority) :
    codec.write (fungible name totalSupply metadataId authority) =
      0 :: (Codec.text.write name ++ (U128.codec.write totalSupply ++
        (AccountId.codec.option.write metadataId ++
          AccountId.codec.option.write authority.admin))) := rfl

@[simp] theorem TokenDefinition.codec_write_nonFungible (name : Text) (printableSupply : U128)
    (metadataId : AccountId) :
    codec.write (nonFungible name printableSupply metadataId) =
      1 :: (Codec.text.write name ++ (U128.codec.write printableSupply ++
        AccountId.codec.write metadataId)) := rfl

/-- The holdings of 49 bytes are told by their first byte. -/
theorem exists_holding_of_length {tag : UInt8} {rest : Bytes} (htag : tag = 0 ∨ tag = 1)
    (hlen : rest.length = 48) : ∃ h, tag :: rest = TokenHolding.codec.write h := by
  obtain ⟨⟨id, amount⟩, hrest⟩ := (AccountId.codec_fixed.pair U128.codec_fixed rest).2 hlen
  rcases htag with rfl | rfl
  · exact ⟨.fungible id amount, congrArg _ hrest⟩
  · exact ⟨.nftMaster id amount, congrArg _ hrest⟩

/-- What metadata is as bytes. -/
theorem exists_metadata_iff {bytes : Bytes} :
    (∃ m, bytes = TokenMetadata.codec.write m) ↔
      ∃ (id : Bytes) (standard : UInt8) (uri creators : Text) (date : Bytes), id.length = 32 ∧
        (standard = 0 ∨ standard = 1) ∧ date.length = 8 ∧
        bytes = id ++ (standard :: (Codec.text.write uri ++ (Codec.text.write creators ++ date))) := by
  constructor
  · rintro ⟨m, rfl⟩
    refine ⟨AccountId.codec.write m.definitionId, if m.standard = .simple then 0 else 1, m.uri,
      m.creators, (Codec.word 8).write m.primarySaleDate.toBitVec, by simp, ?_, by simp, ?_⟩
    · split
      · exact .inl rfl
      · exact .inr rfl
    · obtain ⟨id, standard, uri, creators, date⟩ := m
      cases standard <;> rfl
  · rintro ⟨id, standard, uri, creators, date, hid, hstandard, hdate, rfl⟩
    obtain ⟨id, rfl⟩ := (AccountId.codec_fixed id).2 hid
    obtain ⟨date, rfl⟩ := (Codec.word_fixed 8 date).2 hdate
    rcases hstandard with rfl | rfl
    · exact ⟨⟨id, .simple, uri, creators, .ofBitVec date⟩, rfl⟩
    · exact ⟨⟨id, .expanded, uri, creators, .ofBitVec date⟩, rfl⟩

/-! ## The strings in two formats -/

theorem namedHolding_iff {bytes : Bytes} :
    ((∃ d, bytes = TokenDefinition.codec.write d) ∧ ∃ h, bytes = TokenHolding.codec.write h) ↔
      NamedHolding bytes := by
  constructor
  · rintro ⟨⟨d, hd⟩, h, hh⟩
    rw [hd] at hh
    have htag := congrArg List.head? hh
    have hlen := congrArg List.length hh
    cases d with
    | fungible name supply metadataId authority =>
        cases h with
        | fungible id balance =>
            simp only [TokenDefinition.codec_write_fungible, TokenHolding.codec_write_fungible,
              List.length_cons, List.length_append, Codec.text_write_length, U128.codec_write_length,
              AccountId.codec_write_length] at hlen
            obtain ⟨hmetadata, hadmin⟩ : metadataId = none ∧ authority.admin = none := by
              constructor
              · cases metadataId with
                | none => rfl
                | some id =>
                    rw [Codec.option_write_some, List.length_cons,
                      AccountId.codec_write_length] at hlen
                    omega
              · cases hadmin : authority.admin with
                | none => rfl
                | some admin =>
                    rw [hadmin, Codec.option_write_some, List.length_cons,
                      AccountId.codec_write_length] at hlen
                    omega
            rw [TokenDefinition.codec_write_fungible, hmetadata, hadmin] at hd
            rw [hmetadata, hadmin, Codec.option_write_none, List.length_singleton] at hlen
            exact ⟨name, supply, by omega, hd⟩
        | nftMaster id balance => cases htag
        | nftPrintedCopy id owned => cases htag
    | nonFungible name supply metadataId =>
        cases h with
        | fungible id balance => cases htag
        | nftMaster id balance =>
            simp only [TokenDefinition.codec_write_nonFungible, TokenHolding.codec_write_nftMaster,
              List.length_cons, List.length_append, Codec.text_write_length, U128.codec_write_length,
              AccountId.codec_write_length] at hlen
            omega
        | nftPrintedCopy id owned => cases htag
  · rintro ⟨name, supply, hsize, rfl⟩
    refine ⟨⟨.fungible name supply none .renounced, rfl⟩, exists_holding_of_length (.inl rfl) ?_⟩
    simp [hsize]

theorem bareMetadata_iff {bytes : Bytes} :
    ((∃ h, bytes = TokenHolding.codec.write h) ∧ ∃ m, bytes = TokenMetadata.codec.write m) ↔
      BareMetadata bytes := by
  constructor
  · rintro ⟨⟨h, hh⟩, hm⟩
    obtain ⟨id, standard, uri, creators, date, hid, hstandard, hdate, hm⟩ :=
      exists_metadata_iff.1 hm
    have hlen := congrArg List.length (hm.symm.trans hh)
    have hle := h.length_le
    simp only [List.length_append, List.length_cons, Codec.text_write_length, hid, hdate] at hlen
    have huri : uri.1.toByteArray.size = 0 := by omega
    have hcreators : creators.1.toByteArray.size = 0 := by omega
    rw [Codec.text_write_of_size_eq_zero huri, Codec.text_write_of_size_eq_zero hcreators] at hm
    obtain ⟨tag, id, rfl⟩ := List.exists_cons_of_length_eq_add_one hid
    refine ⟨tag, standard, id, date, ?_, hstandard, by simpa using hid, hdate, hm⟩
    have htag := congrArg List.head? (hm.symm.trans hh)
    cases h with
    | fungible id balance => exact .inl (Option.some.inj htag)
    | nftMaster id balance => exact .inr (Option.some.inj htag)
    | nftPrintedCopy id owned => simp at hlen; omega
  · rintro ⟨tag, standard, id, date, htag, hstandard, hid, hdate, rfl⟩
    refine ⟨exists_holding_of_length htag (by simp [hid, hdate]), exists_metadata_iff.2
      ⟨tag :: id, standard, ⟨"", by decide⟩, ⟨"", by decide⟩, date, by simp [hid], hstandard, hdate,
        rfl⟩⟩

theorem overlaidDefinition_iff {bytes : Bytes} :
    ((∃ d, bytes = TokenDefinition.codec.write d) ∧ ∃ m, bytes = TokenMetadata.codec.write m) ↔
      OverlaidDefinition bytes := by
  constructor
  · rintro ⟨⟨d, hd⟩, hm⟩
    obtain ⟨id, standard, uri, creators, date, hid, hstandard, hdate, rfl⟩ :=
      exists_metadata_iff.1 hm
    exact ⟨d, standard, uri, creators, date, hd, hstandard, hdate, List.drop_left' hid⟩
  · rintro ⟨d, standard, uri, creators, date, hd, hstandard, hdate, hdrop⟩
    refine ⟨⟨d, hd⟩, exists_metadata_iff.2
      ⟨bytes.take 32, standard, uri, creators, date, ?_, hstandard, hdate, ?_⟩⟩
    · have hlen := congrArg List.length hdrop
      rw [List.length_drop, List.length_cons] at hlen
      rw [List.length_take]
      omega
    · rw [← hdrop, List.take_append_drop]

/-- **Formats.**  The data of an account is in at most one of the three formats exactly if it is
none of the listed strings. -/
theorem formats_disjoint_iff (data : Data) :
    (¬((TokenDefinition.tryFrom data).isSome = true ∧ (TokenHolding.tryFrom data).isSome = true) ∧
      ¬((TokenHolding.tryFrom data).isSome = true ∧ (TokenMetadata.tryFrom data).isSome = true) ∧
      ¬((TokenDefinition.tryFrom data).isSome = true ∧
        (TokenMetadata.tryFrom data).isSome = true)) ↔
    ¬(NamedHolding data.bytes ∨ BareMetadata data.bytes ∨ OverlaidDefinition data.bytes) := by
  rw [TokenDefinition.tryFrom, TokenHolding.tryFrom, TokenMetadata.tryFrom, Codec.isSome_decode,
    Codec.isSome_decode, Codec.isSome_decode, namedHolding_iff, bareMetadata_iff,
    overlaidDefinition_iff, not_or, not_or]

namespace SampleFormats

/-- A token whose id reads as a name of 26 letters. -/
def token : AccountId :=
  ⟨⟨([26, 0, 0, 0] ++ List.replicate 26 97 ++ [0, 0] : Bytes).toArray, by decide⟩⟩

/-- A holding of this token. -/
def holder : AccountWithMetadata :=
  ⟨Sample.dataAccount (Sample.programId 3) (Sample.holdingData (.fungible token 5)), true,
    Sample.accountId 9⟩

end SampleFormats

/-- A holding that is also a definition.  Its holder mints on it, and the minted supply is also a
balance: of 5 units they make 1005. -/
theorem holding_minted_on :
    (TokenDefinition.tryFrom SampleFormats.holder.account.data).isSome = true ∧
    TokenHolding.tryFrom SampleFormats.holder.account.data =
      some (.fungible SampleFormats.token 5) ∧
    (postStates [SampleFormats.holder, ⟨.default, true, Sample.accountId 10⟩]
        (.mint (1000 * 2 ^ 16))).map (fun posts => posts.map fun post =>
          TokenHolding.tryFrom post.account.data) =
      .ok [some (.fungible SampleFormats.token 1005),
        some (.fungible (Sample.accountId 9) (1000 * 2 ^ 16))] := by
  decide +kernel

end ExecutionZone.Token
