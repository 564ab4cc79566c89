import Mathlib.Data.BitVec
import ExecutionZone.Programs.Amm
import ExecutionZone.Programs.Sample

/-!
# A concrete system with tokens and pools

Serialisations of the token and AMM instructions over the Borsh formats of their fields, and
the script in which binaries `3` and `4` are the two guests.
-/

namespace ExecutionZone.Sample

/-- Either of two values, behind a byte that tells which. -/
def sumCodec {α β : Type} (c : Codec α) (d : Codec β) : Codec (α ⊕ β) :=
  (c.variant 0).either (d.variant 1) fun _ _ => Codec.variant_read_of_ne (by decide) _ _

/-- Instructions as the words of their bytes. -/
@[reducible] def instructionCodec {I : Type} (c : Codec I) : InstructionCodec I where
  toVec i := words (c.write i)
  deserialize l := c.decode (bytesOf l)
  deserialize_toVec i := by rw [bytesOf_words, c.decode_write]

open Token in
def newTokenCodec : Codec (NewTokenDefinition × NewTokenMetadata) :=
  ((sumCodec (Codec.text.pair U128.codec) (Codec.text.pair U128.codec)).pair
    (MetadataStandard.codec.pair (Codec.text.pair Codec.text))).map
    { toFun := fun p => (Sum.elim (fun q => .fungible q.1 q.2) (fun q => .nonFungible q.1 q.2) p.1,
        ⟨p.2.1, p.2.2.1, p.2.2.2⟩)
      invFun := fun p => ((match p.1 with
        | .fungible name totalSupply => .inl (name, totalSupply)
        | .nonFungible name printableSupply => .inr (name, printableSupply)),
        p.2.standard, p.2.uri, p.2.creators)
      left_inv := by rintro ⟨_ | _, _⟩ <;> rfl
      right_inv := by rintro ⟨_ | _, _⟩ <;> rfl }

open Token in
/-- The instructions, as a tree of choices. -/
def tokenInstructionCodec : Codec Token.Instruction :=
  (sumCodec (sumCodec (sumCodec U128.codec (Codec.text.pair U128.codec))
      (sumCodec (Codec.text.pair (U128.codec.pair AccountId.codec.option)) newTokenCodec))
    (sumCodec (sumCodec (sumCodec Codec.empty U128.codec) (sumCodec U128.codec U128.codec))
      (sumCodec Codec.empty (sumCodec AccountId.codec Codec.empty)))).map
    { toFun := fun
        | .inl (.inl (.inl x)) => .transfer x
        | .inl (.inl (.inr p)) => .newFungibleDefinition p.1 p.2
        | .inl (.inr (.inl p)) => .newFungibleDefinitionWithAuthority p.1 p.2.1 p.2.2
        | .inl (.inr (.inr p)) => .newDefinitionWithMetadata p.1 p.2
        | .inr (.inl (.inl (.inl _))) => .initializeAccount
        | .inr (.inl (.inl (.inr x))) => .burn x
        | .inr (.inl (.inr (.inl x))) => .mint x
        | .inr (.inl (.inr (.inr x))) => .mintWithAuthority x
        | .inr (.inr (.inl _)) => .printNft
        | .inr (.inr (.inr (.inl id))) => .rotateAuthority id
        | .inr (.inr (.inr (.inr _))) => .revokeAuthority
      invFun := fun
        | .transfer x => .inl (.inl (.inl x))
        | .newFungibleDefinition name totalSupply => .inl (.inl (.inr (name, totalSupply)))
        | .newFungibleDefinitionWithAuthority name totalSupply mintAuthority =>
            .inl (.inr (.inl (name, totalSupply, mintAuthority)))
        | .newDefinitionWithMetadata newDefinition metadata =>
            .inl (.inr (.inr (newDefinition, metadata)))
        | .initializeAccount => .inr (.inl (.inl (.inl ())))
        | .burn x => .inr (.inl (.inl (.inr x)))
        | .mint x => .inr (.inl (.inr (.inl x)))
        | .mintWithAuthority x => .inr (.inl (.inr (.inr x)))
        | .printNft => .inr (.inr (.inl ()))
        | .rotateAuthority id => .inr (.inr (.inr (.inl id)))
        | .revokeAuthority => .inr (.inr (.inr (.inr ())))
      left_inv := by rintro (((_ | _) | (_ | _)) | (((_ | _) | (_ | _)) | (_ | (_ | _)))) <;> rfl
      right_inv := by rintro (_ | _ | _ | _ | _ | _ | _ | _ | _ | _ | _) <;> rfl }

@[reducible] def tokenCodec : InstructionCodec Token.Instruction :=
  instructionCodec tokenInstructionCodec

def ammInstructionCodec : Codec Amm.Instruction :=
  let amounts := U128.codec.pair (U128.codec.pair U128.codec)
  let swap := U128.codec.pair (U128.codec.pair AccountId.codec)
  (sumCodec (sumCodec (U128.codec.pair (U128.codec.pair ProgramId.codec)) (sumCodec amounts amounts))
    (sumCodec swap swap)).map
    { toFun := fun
        | .inl (.inl p) => .newDefinition p.1 p.2.1 p.2.2
        | .inl (.inr (.inl p)) => .addLiquidity p.1 p.2.1 p.2.2
        | .inl (.inr (.inr p)) => .removeLiquidity p.1 p.2.1 p.2.2
        | .inr (.inl p) => .swapExactInput p.1 p.2.1 p.2.2
        | .inr (.inr p) => .swapExactOutput p.1 p.2.1 p.2.2
      invFun := fun
        | .newDefinition a b id => .inl (.inl (a, b, id))
        | .addLiquidity x y z => .inl (.inr (.inl (x, y, z)))
        | .removeLiquidity x y z => .inl (.inr (.inr (x, y, z)))
        | .swapExactInput x y id => .inr (.inl (x, y, id))
        | .swapExactOutput x y id => .inr (.inr (x, y, id))
      left_inv := by rintro ((_ | (_ | _)) | (_ | _)) <;> rfl
      right_inv := by rintro (_ | _ | _ | _ | _) <;> rfl }

@[reducible] def ammCodec : InstructionCodec Amm.Instruction := instructionCodec ammInstructionCodec

/-- The script with the token and AMM programs, and other programs. -/
def tokenScript (other : Script) : Script := fun n input =>
  if n = 3 then @Token.main tokenCodec input
  else if n = 4 then @Amm.main tokenCodec sha256 ammCodec input
  else other n input

/-- The data of a holding. -/
def holdingData (holding : Token.TokenHolding) : Data :=
  ⟨Token.TokenHolding.codec.write holding, holding.length_le.trans (by decide)⟩

/-- An account that a program owns, with data. -/
def dataAccount (owner : ProgramId) (data : Data) : Account :=
  { Account.default with programOwner := owner, data }

end ExecutionZone.Sample
