import Mccpp.Model.BlockVariants

/-!
# The listing of states

`main` of `main.cc`, from the parsed file of the block on: each variant is taken apart, and the states that it
matches are logged.
-/

set_option autoImplicit false

namespace Mccpp.Model

/-- What ends the listing before its end. -/
inductive ListingFailure where
  | failed (failure : DataFailure)
  /-- `impl::state::block` is read at an index that it does not have. -/
  | outOfRange
deriving DecidableEq

variable (t : BlockTables) (fuel : ℕ) (block : BitVec 16)

/-- `match_block_states(block, parse_variant_kv_pairs(variant.match))`, with the states that it logs; `none` is a
loop that goes on for longer. -/
def listVariant (variant : BlockStateVariant) : Option (Except ListingFailure (List (BitVec 16))) :=
  (parseVariantKvPairs fuel variant.match').bind fun
    | .error failure => some (.error (.failed failure))
    | .ok pairs =>
      let examination := matchBlockStates t fuel block pairs
      match examination.ending with
      | .finished => some (.ok examination.logged)
      | .outOfRange => some (.error .outOfRange)
      | .failed failure => some (.error (.failed failure))
      | .running => none

/-- `for (resource::block_state_variant &variant : rbs)`. -/
def listVariants : List BlockStateVariant → Option (Except ListingFailure (List (List (BitVec 16))))
  | [] => some (.ok [])
  | variant :: rest =>
    (listVariant t fuel block variant).bind fun
      | .error failure => some (.error failure)
      | .ok logged => (listVariants rest).map fun listed => listed.map (logged :: ·)

/-- `main(argc, argv)`, where the file of the block is parsed, up to its `return`. -/
def listStates (json : JsonNumbers)
    (file : JsonObject (Option (JsonObject (List (List Char × VariantItem))))) :
    Option (Except ListingFailure (List (List (BitVec 16)))) :=
  match blockState json file with
  | .error failure => some (.error (.failed failure))
  | .ok rbs => listVariants t fuel block rbs

end Mccpp.Model
