/-
  StateVault.BlockMap.Claims
  ──────────────────────────
  **A BLOCK MAP FROM WHAT ITS OWNERS CLAIM.**

  The map is not on the medium: it follows from the extents that the
  superblock, the directory and its streams claim.  Two owners of one block
  would make its content undefined, so a claim that leaves the vault or
  reaches into an earlier one is refused.
-/
import StateVault.BlockMap

namespace StateVault.BlockMap

/-- An owner and the extent that it claims. -/
structure Claim where
  owner : String
  extent : Extent
deriving DecidableEq, Repr

/-- Whether an extent ends within `total` blocks, its end taken exactly. -/
def fits (total : UInt64) (e : Extent) : Bool :=
  e.stop ≤ total && (Word.add? e.start e.count).isSome

/-- Take one more claim into the map, beside the claims `earlier`. -/
def accept (m : BlockMap) (earlier : List Claim) (c : Claim) : Except Error BlockMap :=
  if !fits m.total c.extent then
    .error (.corrupt (.outsideVault c.owner c.extent.start c.extent.stop m.total))
  else
    match earlier.find? (fun other => other.extent.overlaps c.extent) with
    | some other => .error (.corrupt (.overlapping other.owner c.owner))
    | none => m.claim c.extent

/-- Take all claims in order; empty ones claim nothing.  `earlier` holds the
accepted claims in their order. -/
def acceptAll (m : BlockMap) (earlier : List Claim) : List Claim → Except Error BlockMap
  | [] => .ok m
  | c :: rest =>
      if c.extent.isEmpty then acceptAll m earlier rest
      else do
        let m ← m.accept earlier c
        acceptAll m (earlier ++ [c]) rest

/-- The map of `total` blocks in which exactly the claimed ones are in use. -/
def ofClaims (total : UInt64) (blockSize : UInt32) (claims : List Claim) :
    Except Error BlockMap :=
  acceptAll (blank total blockSize) [] claims

end StateVault.BlockMap
