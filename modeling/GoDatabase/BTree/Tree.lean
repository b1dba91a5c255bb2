import GoDatabase.BTree.Node

namespace GoDatabase

/-- The address of a `Node` object in the Go heap. -/
abbrev Ptr := Nat

/-- The heap as the B+Tree sees it: the `Node` objects by address, the package-level
`nodeRelationships` map from node ids to nodes, and the `nextNodeID` counter. Both globals are
shared by every `BTree` of the process. -/
structure Heap where
  node : Ptr → Node
  allocated : Nat
  nodeRelationships : List (Nat × Ptr)
  nextNodeID : Nat

namespace Heap

/-- The heap at program start: no node, an empty map, and `nextNodeID = 1`. -/
def init : Heap := ⟨fun _ => Node.new 0, 0, [], 1⟩

/-- A new object. -/
def alloc (h : Heap) (n : Node) : Heap × Ptr :=
  ({ h with node := Function.update h.node h.allocated n, allocated := h.allocated + 1 }, h.allocated)

/-- A node changed in place. -/
def setNode (h : Heap) (p : Ptr) (n : Node) : Heap := { h with node := Function.update h.node p n }

/-- `nodeRelationships[id]`. -/
def lookup (h : Heap) (id : Nat) : Option Ptr :=
  (h.nodeRelationships.find? fun entry => entry.1 == id).map Prod.snd

/-- `nodeRelationships[id] = p`. -/
def register (h : Heap) (id : Nat) (p : Ptr) : Heap :=
  { h with nodeRelationships := (id, p) :: h.nodeRelationships.filter fun entry => entry.1 != id }

/-- The id under which `setChild`'s scan of the map finds a node. Go ranges over a map in no
fixed order; the map never holds a node under two ids, so the first match is the only one. -/
def idOf (h : Heap) (p : Ptr) : Option Nat :=
  (h.nodeRelationships.find? fun entry => entry.2 == p).map Prod.fst

/-- `getChild`: nil past the pointers; otherwise the node registered under the pointer's id, or
a fresh leaf, registered when the id is not zero. -/
def getChild (h : Heap) (p : Ptr) (i : Nat) : Heap × Option Ptr :=
  match (h.node p).pointers[i]? with
  | none => (h, none)
  | some nodeID =>
    match h.lookup nodeID with
    | some child => (h, some child)
    | none =>
      let (h, child) := h.alloc (Node.new bnodeLeaf)
      ((if 0 < nodeID then h.register nodeID child else h), some child)

/-- The id `setChild` stores for a child: the id the map holds it under, or otherwise a new one
taken from `nextNodeID` and registered; nil is stored as 0. -/
def childID (h : Heap) (child : Option Ptr) : Heap × Nat :=
  let found := (child.bind h.idOf).getD 0
  match child with
  | some c => if found = 0 then ({ h with nextNodeID := h.nextNodeID + 1 }.register h.nextNodeID c, h.nextNodeID)
    else (h, found)
  | none => (h, found)

/-- `setChild`'s growth of the pointers: zeros up to slot `i`. -/
def padPointers (pointers : List Nat) (i : Nat) : List Nat :=
  if pointers.length ≤ i then pointers ++ List.replicate (i - pointers.length + 1) 0 else pointers

/-- `setChild`: slot `i` of the padded pointers is overwritten with the child's id. -/
def setChild (h : Heap) (p : Ptr) (i : Nat) (child : Option Ptr) : Heap :=
  let n := h.node p
  let (h, nodeID) := h.childID child
  h.setNode p { n with pointers := (padPointers n.pointers i).set i nodeID }

/-- `children`: `getChild` of every pointer, in order. -/
def children (h : Heap) (p : Ptr) : Heap × List (Option Ptr) :=
  (List.range (h.node p).pointers.length).foldl
    (fun (acc : Heap × List (Option Ptr)) i =>
      let (h, child) := acc.1.getChild p i
      (h, acc.2 ++ [child]))
    (h, [])

/-- `Split` of the node at `p`: the node keeps its left half and the right half is a new
object. -/
def split (h : Heap) (p : Ptr) : Except String (Heap × Option Ptr × Bytes) := do
  match ← (h.node p).split with
  | none => return (h, none, [])
  | some (left, right, promotedKey) =>
    let (h, r) := h.alloc right
    return (h.setNode p left, some r, promotedKey)

variable {h : Heap} {n : Node} {p q : Ptr}

@[simp] theorem alloc_snd : (h.alloc n).2 = h.allocated := rfl

@[simp] theorem alloc_node_self : (h.alloc n).1.node h.allocated = n := by simp [alloc]

@[simp] theorem alloc_node_of_ne (other : q ≠ h.allocated) : (h.alloc n).1.node q = h.node q := by
  simp [alloc, other]

@[simp] theorem alloc_allocated : (h.alloc n).1.allocated = h.allocated + 1 := rfl

@[simp] theorem alloc_nodeRelationships : (h.alloc n).1.nodeRelationships = h.nodeRelationships := rfl

@[simp] theorem alloc_nextNodeID : (h.alloc n).1.nextNodeID = h.nextNodeID := rfl

@[simp] theorem setNode_node_self : (h.setNode p n).node p = n := by simp [setNode]

@[simp] theorem setNode_node_of_ne (other : q ≠ p) : (h.setNode p n).node q = h.node q := by
  simp [setNode, other]

@[simp] theorem setNode_allocated : (h.setNode p n).allocated = h.allocated := rfl

@[simp] theorem setNode_nodeRelationships : (h.setNode p n).nodeRelationships = h.nodeRelationships := rfl

@[simp] theorem setNode_nextNodeID : (h.setNode p n).nextNodeID = h.nextNodeID := rfl

/-- `getChild` past the last pointer is nil. -/
theorem getChild_beyond {i : Nat} (beyond : (h.node p).pointers.length ≤ i) : h.getChild p i = (h, none) := by
  simp only [getChild, List.getElem?_eq_none beyond]

/-- `getChild` of a registered id is the registered node. -/
theorem getChild_registered {i id : Nat} {c : Ptr} (slot : (h.node p).pointers[i]? = some id)
    (registered : h.lookup id = some c) : h.getChild p i = (h, some c) := by
  simp only [getChild, slot, registered]

@[simp] theorem childID_node (child : Option Ptr) : (h.childID child).1.node = h.node := by
  cases child with
  | none => rfl
  | some c => simp only [childID]; split <;> rfl

@[simp] theorem childID_allocated (child : Option Ptr) : (h.childID child).1.allocated = h.allocated := by
  cases child with
  | none => rfl
  | some c => simp only [childID]; split <;> rfl

/-- The id `setChild` stores depends on the id map only, not on the nodes. -/
theorem childID_setNode_snd (child : Option Ptr) : ((h.setNode p n).childID child).2 = (h.childID child).2 := by
  cases child with
  | none => rfl
  | some c => simp only [childID, idOf, setNode_nodeRelationships, setNode_nextNodeID]; split <;> rfl

/-- A node the map does not hold gets the next id. -/
theorem childID_fresh {c : Ptr} (fresh : h.idOf c = none) :
    h.childID (some c) = ({ h with nextNodeID := h.nextNodeID + 1 }.register h.nextNodeID c, h.nextNodeID) := by
  simp [childID, fresh]

@[simp] theorem setChild_node_self {i : Nat} {child : Option Ptr} :
    (h.setChild p i child).node p =
      { h.node p with pointers := (padPointers (h.node p).pointers i).set i (h.childID child).2 } := by
  simp [setChild]

@[simp] theorem setChild_node_of_ne {i : Nat} {child : Option Ptr} (other : q ≠ p) :
    (h.setChild p i child).node q = h.node q := by
  simp [setChild, setNode_node_of_ne other]

@[simp] theorem setChild_allocated {i : Nat} {child : Option Ptr} :
    (h.setChild p i child).allocated = h.allocated := by
  simp [setChild]

@[simp] theorem setChild_nodeRelationships {i : Nat} {child : Option Ptr} :
    (h.setChild p i child).nodeRelationships = (h.childID child).1.nodeRelationships := by
  simp [setChild]

@[simp] theorem setChild_nextNodeID {i : Nat} {child : Option Ptr} :
    (h.setChild p i child).nextNodeID = (h.childID child).1.nextNodeID := by
  simp [setChild]

/-- `setChild` on a slot that exists overwrites it: the node keeps its number of pointers. -/
theorem length_pointers_setChild {i : Nat} {child : Option Ptr} (inside : i < (h.node p).pointers.length) :
    ((h.setChild p i child).node p).pointers.length = (h.node p).pointers.length := by
  simp only [setChild_node_self, padPointers, Nat.not_le.mpr inside, ↓reduceIte, List.length_set]

end Heap

/-- A `*Node` that is dereferenced: nil panics. -/
def deref (node : Option Ptr) : Except String Ptr :=
  match node with
  | some p => .ok p
  | none => .error nilDereference

@[simp] theorem deref_some (p : Ptr) : deref (some p) = .ok p := rfl

/-- The child slot an internal node sends `key` to: the first separator above the key, or the
last child. `findLeaf` and `insertInParent` scan the keys the same way. -/
def childIndex (key : Bytes) (keys : List Bytes) : Nat :=
  (keys.findIdx? fun k => bytesCompare key k == .lt).getD keys.length

/-- `insertInLeaf`'s scan: `none` on a key equal to the new one, otherwise the slot before the
first greater key. -/
def leafPosition (key : Bytes) : List Bytes → Option Nat
  | [] => some 0
  | k :: keys =>
    match bytesCompare key k with
    | .eq => none
    | .lt => some 0
    | .gt => (leafPosition key keys).map (· + 1)

/-- `BTree`: the root node and the number of keys. -/
structure BTree where
  root : Ptr
  size : Int

namespace BTree

/-- `NewBTree`: an empty leaf as the root. -/
def new (h : Heap) : Heap × BTree :=
  let (h, root) := h.alloc (Node.new bnodeLeaf)
  (h, ⟨root, 0⟩)

/-- The depth a descent may take: a longer one visits some node twice and then never ends,
since every step from a node goes the same way. -/
def fuel (h : Heap) : Nat := h.allocated + 1

/-- `findLeaf`. -/
def findLeaf (h : Heap) (node : Option Ptr) (key : Bytes) : Nat → Except String (Heap × Ptr)
  | 0 => .error stackOverflow
  | fuel + 1 => do
    let p ← deref node
    if (h.node p).typ = bnodeLeaf then return (h, p)
    let keys ← (h.node p).keys
    let (h, child) := h.getChild p (childIndex key keys)
    findLeaf h child key fuel

/-- `insertInLeaf`: the returned error is `key already exists`. -/
def insertInLeaf (h : Heap) (leaf : Ptr) (key value : Bytes) : Except String (Heap × Except String Unit) := do
  let keys ← (h.node leaf).keys
  match leafPosition key keys with
  | none => return (h, .error "key already exists")
  | some pos =>
    let n ← (h.node leaf).insertKV pos key value
    return (h.setNode leaf n, .ok ())

/-- One turn of `findParent`'s loop over the children of `root`, with `visit` for the search
below a child. -/
def findParentStep (visit : Heap → Ptr → Except String (Heap × Option Ptr)) (root target : Ptr)
    (acc : Heap × Option Ptr) (i : Nat) : Except String (Heap × Option Ptr) :=
  match acc with
  | (h, some found) => .ok (h, some found)
  | (h, none) =>
    let (h, child) := h.getChild root i
    if child = some target then .ok (h, some root)
    else do
      let c ← deref child
      visit h c

/-- `findParent`: a depth-first search of the internal nodes below `root` for one that has
`target` among its children. -/
def findParent (h : Heap) (root target : Ptr) : Nat → Except String (Heap × Option Ptr)
  | 0 => .error stackOverflow
  | fuel + 1 =>
    if root = target ∨ (h.node root).typ = bnodeLeaf then .ok (h, none)
    else
      (List.range (h.node root).pointers.length).foldlM
        (findParentStep (fun h c => findParent h c target fuel) root target) (h, none)

/-- `insertInParent`: a split at the root makes a new root with the two halves as children;
otherwise the promoted key goes into the parent and the new node into the slot after it, and a
parent that is then full splits in turn. -/
def insertInParent (t : BTree) (h : Heap) (oldNode : Ptr) (key : Bytes) (newNode : Option Ptr) :
    Nat → Except String (Heap × BTree)
  | 0 => .error stackOverflow
  | fuel + 1 =>
    if oldNode = t.root then do
      let (h, newRoot) := h.alloc (Node.new bnodeNode)
      let n ← (h.node newRoot).insertKV 0 key []
      let h := (h.setNode newRoot n).setChild newRoot 0 (some oldNode)
      return (h.setChild newRoot 1 newNode, { t with root := newRoot })
    else do
      let (h, parent) ← findParent h t.root oldNode (BTree.fuel h)
      let some parent := parent | throw "parent not found"
      let keys ← (h.node parent).keys
      let pos := childIndex key keys
      let n ← (h.node parent).insertKV pos key []
      let h := (h.setNode parent n).setChild parent (pos + 1) newNode
      if (h.node parent).isFull then
        let (h, newParent, promotedKey) ← h.split parent
        insertInParent t h parent promotedKey newParent fuel
      else return (h, t)

/-- `Insert`: the key and value limits, the insertion into the leaf, and the split of a full
leaf. -/
def insert (t : BTree) (h : Heap) (key value : Bytes) : Except String (Heap × BTree × Except String Unit) := do
  if btreeMaxKeySize < key.length then return (h, t, .error "key too large")
  if btreeMaxValSize < value.length then return (h, t, .error "value too large")
  let (h, leaf) ← findLeaf h (some t.root) key (BTree.fuel h)
  let (h, result) ← insertInLeaf h leaf key value
  if let .error e := result then return (h, t, .error e)
  let (h, t) ← if (h.node leaf).isFull then do
      let (h, newLeaf, promotedKey) ← h.split leaf
      t.insertInParent h leaf promotedKey newLeaf (BTree.fuel h)
    else pure (h, t)
  return (h, { t with size := t.size + 1 }, .ok ())

/-- `Get`. -/
def get (t : BTree) (h : Heap) (key : Bytes) : Except String (Heap × Except String Bytes) := do
  let (h, leaf) ← findLeaf h (some t.root) key (BTree.fuel h)
  let keys ← (h.node leaf).keys
  let some i := keys.findIdx? (fun k => bytesCompare key k == .eq) | return (h, .error "key not found")
  let value ← (h.node leaf).getValue i
  return (h, .ok value)

/-- `rebalance`. `redistribute` and `merge` have empty bodies, so what remains are the lookups,
which allocate a fresh leaf for every zero pointer they follow. -/
def rebalance (t : BTree) (h : Heap) (n : Ptr) : Except String Heap := do
  let (h, parent) ← findParent h t.root n (BTree.fuel h)
  let some parent := parent | return h
  let (h, siblings) := h.children parent
  let some pos := siblings.findIdx? (· == some n) | throw "node not found in parent"
  let mut h := h
  if 0 < pos then
    let (h', left) := h.getChild parent (pos - 1)
    h := h'
    let left ← deref left
    if !(h.node left).isFull then return h
  let (h', siblings) := h.children parent
  h := h'
  if pos + 1 < siblings.length then
    let (h', right) := h.getChild parent (pos + 1)
    h := h'
    let right ← deref right
    if !(h.node right).isFull then return h
  if 0 < pos then
    h := (h.getChild parent (pos - 1)).1
  else
    h := (h.getChild parent (pos + 1)).1
  return h

/-- `Delete`: the removal from the leaf, and `rebalance` of a leaf left empty. -/
def delete (t : BTree) (h : Heap) (key : Bytes) : Except String (Heap × BTree × Except String Unit) := do
  let (h, leaf) ← findLeaf h (some t.root) key (BTree.fuel h)
  let keys ← (h.node leaf).keys
  let some pos := keys.findIdx? (fun k => bytesCompare key k == .eq) | return (h, t, .error "key not found")
  let n ← (h.node leaf).removeKV pos
  let h := h.setNode leaf n
  let h ← if n.isEmpty ∧ leaf ≠ t.root then t.rebalance h leaf else pure h
  return (h, { t with size := t.size - 1 }, .ok ())

/-- `Height`: the number of steps along first children down to a leaf; a descent that does not
reach a leaf within the fuel never returns. -/
def height (t : BTree) (h : Heap) : Except String (Heap × Nat) :=
  go h (some t.root) 0 (BTree.fuel h)
where
  go (h : Heap) (node : Option Ptr) (height : Nat) : Nat → Except String (Heap × Nat)
    | 0 => .error "does not return"
    | fuel + 1 => do
      let p ← deref node
      if (h.node p).typ = bnodeLeaf then return (h, height)
      let (h, child) := h.getChild p 0
      go h child (height + 1) fuel

section

variable {h h₁ h₂ h₃ h₄ : Heap} {t t' : BTree} {key value : Bytes} {p leaf : Ptr} {fuel : Nat}

theorem findLeaf_nil : findLeaf h none key (fuel + 1) = .error nilDereference := rfl

theorem findLeaf_leaf (isLeaf : (h.node p).typ = bnodeLeaf) : findLeaf h (some p) key (fuel + 1) = .ok (h, p) := by
  simp only [findLeaf, deref, except_pure, except_ok_bind, isLeaf, ↓reduceIte]

/-- `findLeaf` at an internal node goes down the child `childIndex` picks. -/
theorem findLeaf_internal {keys : List Bytes} (internal : (h.node p).typ ≠ bnodeLeaf)
    (read : (h.node p).keys = .ok keys) :
    findLeaf h (some p) key (fuel + 1) =
      findLeaf (h.getChild p (childIndex key keys)).1 (h.getChild p (childIndex key keys)).2 key fuel := by
  simp only [findLeaf, deref, except_pure, except_ok_bind, internal, ↓reduceIte, read]

theorem insertInLeaf_eq {keys : List Bytes} {pos : Nat} {n : Node} (read : (h.node leaf).keys = .ok keys)
    (position : leafPosition key keys = some pos) (inserted : (h.node leaf).insertKV pos key value = .ok n) :
    insertInLeaf h leaf key value = .ok (h.setNode leaf n, .ok ()) := by
  simp only [insertInLeaf, read, except_pure, except_ok_bind, position, inserted]

/-- `Insert` of a key over `BTREE_MAX_KEY_SIZE` bytes returns "key too large" and changes nothing. -/
theorem insert_of_key_too_large (big : btreeMaxKeySize < key.length) :
    t.insert h key value = .ok (h, t, .error "key too large") := by
  simp only [insert, big, ↓reduceIte, except_pure]

/-- `Insert` of a value over `BTREE_MAX_VAL_SIZE` bytes returns "value too large" and changes
nothing. -/
theorem insert_of_value_too_large (keyOk : key.length ≤ btreeMaxKeySize) (big : btreeMaxValSize < value.length) :
    t.insert h key value = .ok (h, t, .error "value too large") := by
  simp [insert, Nat.not_lt.mpr keyOk, big]

/-- `Insert` of a key that fits into a leaf that does not fill up. -/
theorem insert_of_not_full (keyOk : key.length ≤ btreeMaxKeySize) (valueOk : value.length ≤ btreeMaxValSize)
    (found : findLeaf h (some t.root) key (BTree.fuel h) = .ok (h₁, leaf))
    (inserted : insertInLeaf h₁ leaf key value = .ok (h₂, .ok ())) (notFull : (h₂.node leaf).isFull = false) :
    t.insert h key value = .ok (h₂, { t with size := t.size + 1 }, .ok ()) := by
  simp only [insert, Nat.not_lt.mpr keyOk, Nat.not_lt.mpr valueOk, ↓reduceIte, except_pure, found, except_ok_bind,
    inserted, notFull, Bool.false_eq_true]

/-- `Insert` that its leaf refuses returns the refusal and keeps the tree as it was. -/
theorem insert_of_refused {e : String} (keyOk : key.length ≤ btreeMaxKeySize)
    (valueOk : value.length ≤ btreeMaxValSize) (found : findLeaf h (some t.root) key (BTree.fuel h) = .ok (h₁, leaf))
    (refused : insertInLeaf h₁ leaf key value = .ok (h₂, .error e)) :
    t.insert h key value = .ok (h₂, t, .error e) := by
  simp only [insert, Nat.not_lt.mpr keyOk, Nat.not_lt.mpr valueOk, ↓reduceIte, except_pure, found, except_ok_bind,
    refused]

/-- `Insert` of a key that fills its leaf: the leaf splits and the split goes up. -/
theorem insert_of_full {newLeaf : Option Ptr} {promotedKey : Bytes}
    (keyOk : key.length ≤ btreeMaxKeySize) (valueOk : value.length ≤ btreeMaxValSize)
    (found : findLeaf h (some t.root) key (BTree.fuel h) = .ok (h₁, leaf))
    (inserted : insertInLeaf h₁ leaf key value = .ok (h₂, .ok ())) (full : (h₂.node leaf).isFull = true)
    (split : h₂.split leaf = .ok (h₃, newLeaf, promotedKey))
    (parent : t.insertInParent h₃ leaf promotedKey newLeaf (BTree.fuel h₃) = .ok (h₄, t')) :
    t.insert h key value = .ok (h₄, { t' with size := t'.size + 1 }, .ok ()) := by
  simp only [insert, Nat.not_lt.mpr keyOk, Nat.not_lt.mpr valueOk, ↓reduceIte, except_pure, found, except_ok_bind,
    inserted, full, split, parent]

/-- A split at the root makes a new root, at the next address, over the two halves. -/
theorem insertInParent_root {oldNode : Ptr} {newNode : Option Ptr} {n : Node} (atRoot : oldNode = t.root)
    (inserted : (Node.new bnodeNode).insertKV 0 key [] = .ok n) :
    t.insertInParent h oldNode key newNode (fuel + 1) =
      .ok (((((h.alloc (Node.new bnodeNode)).1.setNode h.allocated n).setChild h.allocated 0 (some oldNode)).setChild
        h.allocated 1 newNode), { t with root := h.allocated }) := by
  simp only [insertInParent, atRoot, ↓reduceIte, Heap.alloc_snd, Heap.alloc_node_self, inserted, except_pure,
    except_ok_bind]

/-- A split below the root puts the promoted key into the parent `findParent` finds, and the
new node into the slot after the one the key goes to. -/
theorem insertInParent_parent {oldNode parent : Ptr} {newNode : Option Ptr} {n : Node} {keys : List Bytes}
    (below : oldNode ≠ t.root) (found : findParent h t.root oldNode (BTree.fuel h) = .ok (h₁, some parent))
    (read : (h₁.node parent).keys = .ok keys) (inserted : (h₁.node parent).insertKV (childIndex key keys) key [] = .ok n)
    (notFull : (((h₁.setNode parent n).setChild parent (childIndex key keys + 1) newNode).node parent).isFull = false) :
    t.insertInParent h oldNode key newNode (fuel + 1) =
      .ok ((h₁.setNode parent n).setChild parent (childIndex key keys + 1) newNode, t) := by
  simp only [insertInParent, below, ↓reduceIte, found, except_pure, except_throw, except_ok_bind, read, inserted,
    notFull, Bool.false_eq_true]

/-- Once `findParent`'s loop has found the parent, the later turns keep it. -/
theorem foldlM_findParentStep_found {visit : Heap → Ptr → Except String (Heap × Option Ptr)} {root target found : Ptr}
    (rest : List Nat) : rest.foldlM (findParentStep visit root target) (h, some found) = .ok (h, some found) := by
  induction rest with
  | nil => rfl
  | cons i rest ih => simpa only [List.foldlM_cons, findParentStep, except_ok_bind] using ih

/-- `findParent` of a node that is the first child of the root it starts from. -/
theorem findParent_first_child {root target : Ptr} (internal : (h.node root).typ ≠ bnodeLeaf)
    (other : root ≠ target) (nonempty : 0 < (h.node root).pointers.length)
    (first : h.getChild root 0 = (h₁, some target)) :
    findParent h root target (fuel + 1) = .ok (h₁, some root) := by
  obtain ⟨m, count⟩ : ∃ m, (h.node root).pointers.length = m + 1 := ⟨_, (Nat.succ_pred_eq_of_pos nonempty).symm⟩
  simp only [findParent, other, internal, or_self, if_false, count, List.range_succ_eq_map, List.foldlM_cons,
    findParentStep, first, if_true, except_ok_bind]
  exact foldlM_findParentStep_found _

/-- `Get` through a descent that ends on a nil child panics. -/
theorem get_of_findLeaf_error {e : String} (found : findLeaf h (some t.root) key (BTree.fuel h) = .error e) :
    t.get h key = .error e := by
  simp only [get, found, except_pure, except_error_bind]

/-- `Get` of a key its leaf does not hold. -/
theorem get_of_missing {keys : List Bytes} (found : findLeaf h (some t.root) key (BTree.fuel h) = .ok (h₁, leaf))
    (read : (h₁.node leaf).keys = .ok keys)
    (missing : keys.findIdx? (fun k => bytesCompare key k == .eq) = none) :
    t.get h key = .ok (h₁, .error "key not found") := by
  simp only [get, found, except_pure, except_ok_bind, read, missing]

/-- `Get` of a key its leaf holds at slot `i`. -/
theorem get_of_hit {keys : List Bytes} {i : Nat} (found : findLeaf h (some t.root) key (BTree.fuel h) = .ok (h₁, leaf))
    (read : (h₁.node leaf).keys = .ok keys) (hit : keys.findIdx? (fun k => bytesCompare key k == .eq) = some i)
    (stored : (h₁.node leaf).getValue i = .ok value) :
    t.get h key = .ok (h₁, .ok value) := by
  simp only [get, found, except_pure, except_ok_bind, read, hit, stored]

/-- `Delete` of a key its leaf does not hold. -/
theorem delete_of_missing {keys : List Bytes} (found : findLeaf h (some t.root) key (BTree.fuel h) = .ok (h₁, leaf))
    (read : (h₁.node leaf).keys = .ok keys)
    (missing : keys.findIdx? (fun k => bytesCompare key k == .eq) = none) :
    t.delete h key = .ok (h₁, t, .error "key not found") := by
  simp only [delete, found, ne_eq, except_pure, except_ok_bind, read, missing]

/-- `Delete` from a leaf that is the root: the entry goes, and no rebalancing follows. -/
theorem delete_of_hit_at_root {keys : List Bytes} {i : Nat} {n : Node}
    (found : findLeaf h (some t.root) key (BTree.fuel h) = .ok (h₁, t.root)) (read : (h₁.node t.root).keys = .ok keys)
    (hit : keys.findIdx? (fun k => bytesCompare key k == .eq) = some i)
    (removed : (h₁.node t.root).removeKV i = .ok n) :
    t.delete h key = .ok (h₁.setNode t.root n, { t with size := t.size - 1 }, .ok ()) := by
  simp only [delete, found, ne_eq, except_pure, except_ok_bind, read, not_true_eq_false, and_false, ↓reduceIte,
    hit, removed]

end

end BTree

end GoDatabase
