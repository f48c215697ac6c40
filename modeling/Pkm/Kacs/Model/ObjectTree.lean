import Pkm.Kacs.Model.Sid
/-!
# Object-type trees

The tree of object types a check is made for, given as a list of nodes with
levels in preorder. `ObjectTypeList` holds the nodes and the parents the
constructor computes for them, together with the fact that it accepted the list:
one root, no level skipped and no GUID twice.
-/

namespace Pkm.Kacs

/-- One node of the tree. -/
structure ObjectTypeNode where
  level : BitVec 16
  guid : Guid

namespace ObjectTypeList

variable (nodes : List ObjectTypeNode)

/-- The level of a node. -/
def levelAt (index : ℕ) : BitVec 16 := (nodes[index]?.map (·.level)).getD 0#16

/-- Places one node: `parents` are those of the nodes before it, `stack` is the path from the root
to the node before it. -/
def placeNode (state : List (Option ℕ) × List ℕ) (index : ℕ) :
    KacsResult (List (Option ℕ) × List ℕ) :=
  let (parents, stack) := state
  match nodes[index]? with
  | none => .ok state
  | some node =>
    if (nodes.take index).any fun existing => decide (existing.guid = node.guid) then
      .error (.duplicateObjectTypeGuid node.guid.bytes)
    else if index = 0 then .ok (parents ++ [none], stack ++ [index])
    else if node.level = 0#16 then .error .multipleObjectTypeRoots
    else
      let previousLevel := levelAt nodes (index - 1)
      -- the addition is on sixteen bits
      if node.level > previousLevel + 1#16 then
        .error (.objectTypeLevelGap previousLevel node.level)
      else
        let stack := stack.take node.level.toNat
        match stack.getLast? with
        | none => .error (.objectTypeLevelGap previousLevel node.level)
        | some parent => .ok (parents ++ [some parent], stack ++ [index])

/-- The parents of the nodes of an acceptable list. -/
def computeParents : KacsResult (List (Option ℕ)) :=
  if nodes.isEmpty then .error .emptyObjectTypeList
  else if levelAt nodes 0 ≠ 0#16 then .error (.invalidObjectTypeRootLevel (levelAt nodes 0))
  else do
    let (parents, _) ← (List.range nodes.length).foldlM (placeNode nodes) ([], [])
    .ok parents

end ObjectTypeList

/-- An accepted object-type tree. -/
structure ObjectTypeList where
  nodes : List ObjectTypeNode
  parents : List (Option ℕ)
  wf : ObjectTypeList.computeParents nodes = .ok parents

namespace ObjectTypeList

def new (nodes : List ObjectTypeNode) : KacsResult ObjectTypeList :=
  match h : computeParents nodes with
  | .error e => .error e
  | .ok parents => .ok ⟨nodes, parents, h⟩

variable (self : ObjectTypeList)

def len : ℕ := self.nodes.length

def isEmpty : Bool := self.nodes.isEmpty

def find (guid : Guid) : Option ℕ := self.nodes.findIdx? fun node => decide (node.guid = guid)

def parentOf (index : ℕ) : Option ℕ := self.parents.getD index none

def directChildren (index : ℕ) : List ℕ :=
  (List.range self.parents.length).filter fun child =>
    decide (self.parents.getD child none = some index)

/-- The end of the run of deeper nodes that starts behind a node. -/
def subtreeEnd (index : ℕ) : ℕ :=
  index + 1 + ((self.nodes.drop (index + 1)).takeWhile fun node =>
    decide (node.level > levelAt self.nodes index)).length

/-- Whether a node lies in the range of a subtree. -/
def inSubtree (index node : ℕ) : Bool := decide (index ≤ node ∧ node < self.subtreeEnd index)

end ObjectTypeList

end Pkm.Kacs
