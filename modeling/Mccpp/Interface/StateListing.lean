import Mccpp.Interface.BlockTable
import Mccpp.Interface.BlockVariants
import Mccpp.Model.StateListing

/-!
# Which states are listed

A variant describes states by pairs. What is listed under it are those that it describes, but for boolean
properties, where the value that the pair does not give is taken.
-/

set_option autoImplicit false

namespace Mccpp.Interface

open Mccpp.Model

/-- The first pair for a property gives its value in the state, or for a boolean does not. -/
def ListedUnder (variant : List (List Char × List Char)) (block : BlockStates.Block) (state : BlockStates.State) :
    Prop :=
  ∀ (m : ℕ) p, block.properties[m]? = some p →
    ∀ pair, variant.find? (fun pair => pair.1 = p.key) = some pair →
      (p.kind = .bool ↔ state.properties[m]? ≠ some pair.2)

/-- What is to be listed under the variant, in the order of the block. -/
noncomputable def statesUnder (block : BlockStates.Block) (variant : List (List Char × List Char)) :
    List BlockStates.State :=
  open Classical in block.states.filter fun state => decide (ListedUnder variant block state)

/-- The number of a state, as the tables have it. -/
def numberOfState (state : BlockStates.State) : BitVec 16 := BitVec.ofNat 16 state.id

/-- A variant that is written as it is read, with values that the properties of the block have. -/
structure ProperVariant (block : BlockStates.Block) (variant : List (List Char × List Char)) : Prop where
  plain : ∀ pair ∈ variant, PlainPair pair
  takes : Takes block variant

/-- Each state of the block is described by just one of the variants. -/
def DescribesEachOnce (block : BlockStates.Block) (variants : List (List (List Char × List Char))) : Prop :=
  variants.Pairwise (fun variant variant' => ∀ state ∈ block.states,
      ¬(Describes variant block state ∧ Describes variant' block state)) ∧
    ∀ state ∈ block.states, ∃ variant ∈ variants, Describes variant block state

end Mccpp.Interface
