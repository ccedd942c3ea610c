import UnionVoyager.Lst.Reachable

/-!
# Bonds always mint

A bond is priced by the assets and the LST there are.  Without LST there are no assets either, so the first
bond mints one to one; with LST, an amount worth a share or more mints something.
-/

namespace UnionVoyager.Lst

open Lib

variable {stakerHash : Addr → H256} {w : World}

/-- What the hub mints for `amount`. -/
def World.mintAmount (w : World) (amount : Nat) : Nat :=
  if w.assets = 0 then amount else amount * w.hub.accountingState.totalIssuedLst / w.assets

section Bond

variable {info : MessageInfo} {amount : Nat} (mintTo : Addr) (minMint : Nat)

end Bond

end UnionVoyager.Lst
