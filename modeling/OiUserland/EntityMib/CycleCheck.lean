import OiUserland.EntityMib.Containment
import OiUserland.EntityMib.Integrity

namespace OiUserland.EntityMib.CycleCheck

open Relation
open Lib.Cycles Lib.Runs EntityTable Entities MibState PhysicalContainsTable ListInvariant Containment CycleSearch Integrity Module

variable {s : State} {mem : ListMemory} {a b c x : Int} {path : CallPath} {fuel : Nat} {V : List Int}

/-- The search for b from a ends and says whether there is a way of live links, and b takes a as a child if and
only if there is none. -/
structure Right (s : State) (mem : ListMemory) (a b : Int) : Prop where
  search : ∃ r, (∀ fuel, depthBound s ≤ fuel → isRecursiveChild s mem b fuel [] a = some r) ∧
    (r = true ↔ ReflTransGen (Contains s) a b)
  add : ∃ s' rc, addPhysicalContainsTableEntry b a { lists := mem } s = some (s', rc) ∧ (rc = -1 ↔ ReflTransGen (Contains s) a b)

end OiUserland.EntityMib.CycleCheck
