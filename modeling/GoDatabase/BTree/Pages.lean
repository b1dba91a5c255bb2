import GoDatabase.BTree.Layout
import GoDatabase.BTree.Tree

/-!
# `Insert` on laid-out pages

What `insertInLeaf`, `Split` and `insertInParent` do to nodes whose pages are laid out from
entry lists, and the two ways in which accepted `Insert`s leave a tree that breaks the B+tree's
shape: `insertInParent` writes the new child over its neighbour's pointer, and `Split` cuts a
leaf by count, not by size.
-/

namespace GoDatabase

/-- Keys in strictly increasing `bytes.Compare` order, as `insertInLeaf` keeps a leaf's keys. -/
def Increasing (keys : List Bytes) : Prop := keys.Pairwise fun a b => bytesCompare a b = .lt

instance : DecidablePred Increasing := fun keys => inferInstanceAs (Decidable (keys.Pairwise _))

/-- `insertKV` changes the entries only: the type and the pointers stay, and `nkeys` grows by
one. -/
theorem Node.insertKV_fields {n n' : Node} {pos : Nat} {key value : Bytes}
    (inserted : n.insertKV pos key value = .ok n') :
    n'.typ = n.typ ∧ n'.pointers = n.pointers ∧ n'.nkeys = wrap16 (n.nkeys + 1) := by
  unfold Node.insertKV at inserted
  obtain ⟨_, _, rest⟩ := except_bind_eq_ok.mp inserted
  split at rest <;> split at rest <;> simp [except_bind_eq_ok, throw, throwThe, MonadExceptOf.throw] at rest
  · subst rest; exact ⟨rfl, rfl, rfl⟩
  · obtain ⟨_, _, _, _, _, _, rfl⟩ := rest; exact ⟨rfl, rfl, rfl⟩

namespace BTree

section

variable {h h' : Heap} {key value : Bytes} {p c leaf : Ptr} {fuel : Nat}
  {es : List (Bytes × Bytes)} {keys : List Bytes}

/-- The position `Insert` finds for a new key is at most the number of keys. -/
theorem leafPosition_le : ∀ {keys : List Bytes} {pos : Nat}, leafPosition key keys = some pos → pos ≤ keys.length
  | [], pos, found => by simp [leafPosition] at found; omega
  | k :: keys, pos, found => by
    unfold leafPosition at found
    split at found
    · cases found
    · cases found; simp
    · obtain ⟨p, rest, rfl⟩ := Option.map_eq_some'.mp found
      have := leafPosition_le rest
      simp; omega

/-- On increasing keys the scan finds no slot exactly when the key is already there. -/
theorem leafPosition_eq_none_iff (increasing : Increasing keys) : leafPosition key keys = none ↔ key ∈ keys := by
  induction keys with
  | nil => simp [leafPosition]
  | cons k keys ih =>
    obtain ⟨above, rest⟩ := List.pairwise_cons.mp increasing
    unfold leafPosition
    cases compared : bytesCompare key k with
    | eq => simp [bytesCompare_eq_iff.mp compared]
    | lt =>
      simp only [reduceCtorEq, false_iff, List.mem_cons, not_or]
      refine ⟨fun same => ?_, fun member => ?_⟩
      · simp [same, bytesCompare_self] at compared
      · simpa [bytesCompare_self] using bytesCompare_lt_trans compared (above key member)
    | gt =>
      rw [Option.map_eq_none', ih rest, List.mem_cons, or_iff_right]
      rintro rfl
      simp [bytesCompare_self] at compared

/-- On increasing keys, the key put at the slot the scan finds keeps them increasing. -/
theorem leafPosition_increasing {pos : Nat} (increasing : Increasing keys) (found : leafPosition key keys = some pos) :
    Increasing (keys.take pos ++ key :: keys.drop pos) := by
  induction keys generalizing pos with
  | nil =>
    simp only [leafPosition, Option.some.injEq] at found
    subst found
    simp [Increasing]
  | cons k keys ih =>
    obtain ⟨above, rest⟩ := List.pairwise_cons.mp increasing
    unfold leafPosition at found
    cases compared : bytesCompare key k with
    | eq => simp [compared] at found
    | lt =>
      simp only [compared, Option.some.injEq] at found
      subst found
      simp only [Increasing, List.take_zero, List.nil_append, List.drop_zero]
      refine List.Pairwise.cons (fun b member => ?_) increasing
      rcases List.mem_cons.mp member with rfl | later
      · exact compared
      · exact bytesCompare_lt_trans compared (above b later)
    | gt =>
      simp only [compared] at found
      obtain ⟨p, inner, rfl⟩ := Option.map_eq_some'.mp found
      simp only [Increasing, List.take_succ_cons, List.drop_succ_cons, List.cons_append]
      refine List.Pairwise.cons (fun b member => ?_) (ih rest inner)
      simp only [List.mem_append, List.mem_cons] at member
      rcases member with early | rfl | late
      · exact above b (List.mem_of_mem_take early)
      · rw [bytesCompare_swap, compared]; rfl
      · exact above b (List.mem_of_mem_drop late)

/-- `insertInLeaf` of a key its scan meets refuses it and changes nothing. -/
theorem insertInLeaf_present (read : (h.node leaf).keys = .ok keys) (present : leafPosition key keys = none) :
    insertInLeaf h leaf key value = .ok (h, .error "key already exists") := by
  simp [insertInLeaf, read, present]

/-- `insertInLeaf` on a laid-out leaf lays out the leaf with the key at the position it finds. -/
theorem insertInLeaf_ofEntries {pos : Nat} (es' : List (Bytes × Bytes))
    (node : h.node leaf = Node.ofEntries bnodeLeaf [] es) (position : leafPosition key (es.map Prod.fst) = some pos)
    (result : es.take pos ++ (key, value) :: es.drop pos = es') (fits : (pageData es').length < 65536) :
    insertInLeaf h leaf key value = .ok (h.setNode leaf (Node.ofEntries bnodeLeaf [] es'), .ok ()) := by
  subst result
  have le := leafPosition_le position
  rw [List.length_map] at le
  have old := length_pageData_insert es pos (key, value)
  exact insertInLeaf_eq (by rw [node]; exact Node.keys_ofEntries (by omega)) position
    (by rw [node]; exact Node.insertKV_ofEntries le fits)

/-- `Split` of a laid-out leaf: the left half stays, the right half is a new object, and the first
key of the right half is promoted. -/
theorem split_leaf (left right : List (Bytes × Bytes)) (promoted : Bytes)
    (node : h.node p = Node.ofEntries bnodeLeaf [] es) (two : 2 ≤ es.length) (fits : (pageData es).length < 65536)
    (kept : es.take (es.length / 2) = left) (moved : es.drop (es.length / 2) = right)
    (first : (es.get ⟨es.length / 2, Nat.div_lt_self (Nat.lt_of_lt_of_le Nat.zero_lt_two two) Nat.one_lt_two⟩).1 =
      promoted) :
    h.split p = .ok ((h.alloc (Node.ofEntries bnodeLeaf [] right)).1.setNode p (Node.ofEntries bnodeLeaf [] left),
      some h.allocated, promoted) := by
  subst kept moved first
  have leafNotNode : ¬bnodeLeaf = bnodeNode := by decide
  have splitNode : (Node.ofEntries bnodeLeaf [] es).split = _ :=
    Node.split_ofEntries two fits (fun same => absurd same leafNotNode)
  simp only [leafNotNode, if_false] at splitNode
  simp [Heap.split, node, splitNode]

theorem typ_ne_leaf {n : Node} (internal : n.typ = bnodeNode) : n.typ ≠ bnodeLeaf := by
  rw [internal]; decide

/-- A descent one level down, to a leaf. -/
theorem findLeaf_child (internal : (h.node p).typ ≠ bnodeLeaf) (read : (h.node p).keys = .ok keys)
    (child : h.getChild p (childIndex key keys) = (h', some c)) (isLeaf : (h'.node c).typ = bnodeLeaf) :
    findLeaf h (some p) key (fuel + 2) = .ok (h', c) := by
  rw [findLeaf_internal internal read, child, findLeaf_leaf isLeaf]

end

section

variable {h h₁ : Heap} {t : BTree} {key : Bytes} {pos : Nat} {es es' : List (Bytes × Bytes)}

/-- The defect of `insertInParent`: when the node that split is not its laid-out parent's last
child, the promoted key goes into the parent at `pos`, but the new node is written over pointer
`pos + 1`, the next child's, instead of in front of it. The parent gains a key and no pointer, so
it is left with as many pointers as keys, and the rest of the heap is as `findParent` left it. -/
theorem insertInParent_overwrites_child {oldNode parent : Ptr} {newNode : Option Ptr} {pointers : List Nat}
    (below : oldNode ≠ t.root) (found : findParent h t.root oldNode (BTree.fuel h) = .ok (h₁, some parent))
    (node : h₁.node parent = Node.ofEntries bnodeNode pointers es) (balanced : pointers.length = es.length + 1)
    (index : childIndex key (es.map Prod.fst) = pos) (notLast : pos < es.length)
    (result : es.take pos ++ (key, []) :: es.drop pos = es') (fits : (pageData es').length < 65536)
    (notFull : (Node.ofEntries bnodeNode pointers es').isFull = false) :
    ∃ h₂, (∀ fuel, t.insertInParent h oldNode key newNode (fuel + 1) = .ok (h₂, t)) ∧
      h₂.node parent = Node.ofEntries bnodeNode (pointers.set (pos + 1) (h₁.childID newNode).2) es' ∧
      (h₂.node parent).pointers.length = (h₂.node parent).nkeys ∧
      (∀ q, q ≠ parent → h₂.node q = h₁.node q) ∧ h₂.allocated = h₁.allocated := by
  subst result
  have grown := length_pageData_insert es pos (key, [])
  have slot : ¬pointers.length ≤ pos + 1 := by omega
  have after : ((h₁.setNode parent (Node.ofEntries bnodeNode pointers (es.take pos ++ (key, []) :: es.drop pos))).setChild
      parent (pos + 1) newNode).node parent =
        Node.ofEntries bnodeNode (pointers.set (pos + 1) (h₁.childID newNode).2) (es.take pos ++ (key, []) :: es.drop pos) := by
    simp only [Heap.setChild_node_self, Heap.setNode_node_self, Node.ofEntries_pointers, Heap.padPointers, slot,
      if_false, Heap.childID_setNode_snd, Node.ofEntries_with_pointers]
  refine ⟨_, fun _ => insertInParent_parent below found (by rw [node]; exact Node.keys_ofEntries (by omega))
    (by rw [node, index]; exact Node.insertKV_ofEntries notLast.le fits)
    (by rw [index, after]; simpa [Node.isFull, Node.size] using notFull), ?_, ?_, fun q other => ?_, by simp⟩
  · rw [index, after]
  · rw [index, after]; simp [length_insert_at notLast.le, balanced]
  · simp [Heap.setChild_node_of_ne other, Heap.setNode_node_of_ne other]

end

/-- `NewBTree` on a fresh heap, then `Insert` of "b", "d" and "a", each with a value of 2039 to
3000 bytes, so that two entries fill a leaf. "d" splits the first leaf under a new root, node 2,
which gets ids 1 and 2 for its children; "a" splits the leftmost leaf at "b", and `setChild`
writes the id of its right half, 3, over id 2, the leaf that holds "d". -/
theorem insert_b_d_a {v : Bytes} (long : 2039 ≤ v.length) (short : v.length ≤ btreeMaxValSize) :
    ∃ h₁ t₁ h₂ t₂ h₃ t₃,
      (BTree.new Heap.init).2.insert (BTree.new Heap.init).1 (ascii "b") v = .ok (h₁, t₁, .ok ()) ∧
      t₁.insert h₁ (ascii "d") v = .ok (h₂, t₂, .ok ()) ∧
      t₂.insert h₂ (ascii "a") v = .ok (h₃, t₃, .ok ()) ∧
      t₃.root = 2 ∧ h₃.allocated = 4 ∧
      h₃.node 2 = Node.ofEntries bnodeNode [1, 3] [(ascii "b", []), (ascii "d", [])] := by
  rw [show ascii "b" = [98] from rfl, show ascii "d" = [100] from rfl, show ascii "a" = [97] from rfl]
  have valueOk : v.length ≤ 3000 := short
  have keyOk : ∀ k : Bytes, k.length = 1 → k.length ≤ btreeMaxKeySize := by intro k h; rw [h]; decide
  have full : ∀ k k' : Bytes, k.length = 1 → k'.length = 1 →
      (Node.ofEntries bnodeLeaf [] [(k, v), (k', v)]).isFull = true := by
    intro k k' one one'
    simp [Node.isFull, Node.size_ofEntries, encodeEntry, btreePageSize, one, one']; omega
  have empty : (BTree.new Heap.init).1.node 0 = Node.ofEntries bnodeLeaf [] [] := rfl
  -- "b" goes into the empty root leaf
  obtain ⟨h₁, t₁, first, root₁, leaf₁, allocated₁, rels₁, next₁⟩ : ∃ h₁ t₁,
      (BTree.new Heap.init).2.insert (BTree.new Heap.init).1 [98] v = .ok (h₁, t₁, .ok ()) ∧ t₁.root = 0 ∧
      h₁.node 0 = Node.ofEntries bnodeLeaf [] [([98], v)] ∧ h₁.allocated = 1 ∧ h₁.nodeRelationships = [] ∧
      h₁.nextNodeID = 1 :=
    ⟨_, _, insert_of_not_full (keyOk _ rfl) short (findLeaf_leaf rfl)
      (insertInLeaf_ofEntries [([98], v)] empty rfl rfl (by simp [encodeEntry]; omega))
      (by simp [Node.isFull, Node.size_ofEntries, encodeEntry, btreePageSize]; omega), rfl, rfl, rfl, rfl, rfl⟩
  -- "d" fills the leaf, which splits under a new root, node 2
  obtain ⟨h₂, t₂, second, root₂, leaf₂, node₂, allocated₂, rels₂, next₂⟩ : ∃ h₂ t₂,
      t₁.insert h₁ [100] v = .ok (h₂, t₂, .ok ()) ∧ t₂.root = 2 ∧
      h₂.node 0 = Node.ofEntries bnodeLeaf [] [([98], v)] ∧
      h₂.node 2 = Node.ofEntries bnodeNode [1, 2] [([100], [])] ∧ h₂.allocated = 3 ∧
      h₂.nodeRelationships = [(2, 1), (1, 0)] ∧ h₂.nextNodeID = 3 := by
    have found : findLeaf h₁ (some t₁.root) [100] (BTree.fuel h₁) = .ok (h₁, 0) := by
      rw [root₁]; exact findLeaf_leaf (by rw [leaf₁]; rfl)
    have newRoot : (Node.ofEntries bnodeNode [] []).insertKV 0 [100] [] = .ok (Node.ofEntries bnodeNode [] [([100], [])]) :=
      Node.insertKV_ofEntries (le_refl _) (by simp [encodeEntry])
    refine ⟨_, _, insert_of_full (keyOk _ rfl) short found
      (insertInLeaf_ofEntries [([98], v), ([100], v)] leaf₁ rfl rfl (by simp [encodeEntry]; omega))
      (by simpa using full [98] [100] rfl rfl)
      (split_leaf [([98], v)] [([100], v)] [100] rfl (by simp) (by simp [encodeEntry]; omega) (by simp)
        (by simp) (by simp))
      (insertInParent_root root₁.symm newRoot), ?_, ?_, ?_, ?_, ?_, ?_⟩ <;>
    simp [Heap.childID, Heap.idOf, Heap.register, Heap.padPointers, Node.ofEntries, allocated₁, rels₁, next₁]
  -- "a" fills the leftmost leaf, which splits at "b"; the id of its new half overwrites id 2
  obtain ⟨h₃, t₃, third, root₃, allocated₃, node₃⟩ : ∃ h₃ t₃,
      t₂.insert h₂ [97] v = .ok (h₃, t₃, .ok ()) ∧ t₃.root = 2 ∧ h₃.allocated = 4 ∧
      h₃.node 2 = Node.ofEntries bnodeNode [1, 3] [([98], []), ([100], [])] := by
    have keys : (h₂.node 2).keys = .ok [[100]] := by rw [node₂]; exact Node.keys_ofEntries (by simp [encodeEntry])
    have firstChild : h₂.getChild 2 0 = (h₂, some 0) :=
      Heap.getChild_registered (by rw [node₂]; rfl) (by simp [Heap.lookup, rels₂])
    have found : findLeaf h₂ (some t₂.root) [97] (BTree.fuel h₂) = .ok (h₂, 0) := by
      rw [root₂, BTree.fuel, allocated₂]
      exact findLeaf_child (typ_ne_leaf (by rw [node₂]; rfl)) keys firstChild (by rw [leaf₂]; rfl)
    have split := split_leaf (h := h₂.setNode 0 (Node.ofEntries bnodeLeaf [] [([97], v), ([98], v)])) (p := 0)
      [([97], v)] [([98], v)] [98] Heap.setNode_node_self (by simp) (by simp [encodeEntry]; omega) (by simp) (by simp)
      (by simp)
    obtain ⟨h₃, parent, node₃, -, -, allocated₃⟩ := insertInParent_overwrites_child (t := t₂)
      (h := ((h₂.setNode 0 (Node.ofEntries bnodeLeaf [] [([97], v), ([98], v)])).alloc
        (Node.ofEntries bnodeLeaf [] [([98], v)])).1.setNode 0 (Node.ofEntries bnodeLeaf [] [([97], v)]))
      (show (0 : Ptr) ≠ t₂.root by rw [root₂]; decide)
      (findParent_first_child (typ_ne_leaf (by simp [root₂, node₂, allocated₂])) (by rw [root₂]; decide)
        (by simp [root₂, node₂, allocated₂])
        (Heap.getChild_registered (show _ = some 1 by simp [root₂, node₂, allocated₂]) (by simp [Heap.lookup, rels₂])))
      (show _ = Node.ofEntries bnodeNode [1, 2] [([100], [])] by simp [root₂, node₂, allocated₂]) rfl
      (show childIndex [98] [[100]] = 0 by decide) (by decide) rfl
      (by simp [encodeEntry]) (by simp [Node.isFull, Node.size_ofEntries, encodeEntry, btreePageSize])
    refine ⟨h₃, _, insert_of_full (keyOk _ rfl) short found
      (insertInLeaf_ofEntries [([97], v), ([98], v)] leaf₂ (show leafPosition [97] [[98]] = some 0 by decide) rfl
        (by simp [encodeEntry]; omega))
      (by simpa using full [97] [98] rfl rfl) split (parent _), root₂, ?_, ?_⟩
    · simp [allocated₃, allocated₂]
    · rw [← root₂, node₃]
      simp [Heap.childID, Heap.idOf, allocated₂, rels₂, next₂]
  exact ⟨h₁, t₁, h₂, t₂, h₃, t₃, first, second, third, root₃, allocated₃, node₃⟩

/-- After the three `Insert`s of `insert_b_d_a` have returned nil, `Get("d")` picks the root's
third child, past its two pointers, and dereferences nil. -/
theorem get_panics_after_left_split (v : Bytes) (long : 2039 ≤ v.length) (short : v.length ≤ btreeMaxValSize) :
    ∃ h₁ t₁ h₂ t₂ h₃ t₃,
      (BTree.new Heap.init).2.insert (BTree.new Heap.init).1 (ascii "b") v = .ok (h₁, t₁, .ok ()) ∧
      t₁.insert h₁ (ascii "d") v = .ok (h₂, t₂, .ok ()) ∧
      t₂.insert h₂ (ascii "a") v = .ok (h₃, t₃, .ok ()) ∧
      t₃.get h₃ (ascii "d") = .error nilDereference := by
  obtain ⟨h₁, t₁, h₂, t₂, h₃, t₃, first, second, third, root, allocated, node⟩ := insert_b_d_a long short
  have internal : (h₃.node 2).typ ≠ bnodeLeaf := by rw [node]; decide
  have keys : (h₃.node 2).keys = .ok [ascii "b", ascii "d"] := by rw [node]; exact Node.keys_ofEntries (by decide)
  have beyond : (h₃.node 2).pointers.length ≤ childIndex (ascii "d") [ascii "b", ascii "d"] := by rw [node]; decide
  refine ⟨h₁, t₁, h₂, t₂, h₃, t₃, first, second, third, get_of_findLeaf_error ?_⟩
  rw [BTree.fuel, allocated, root, findLeaf_internal internal keys, Heap.getChild_beyond beyond]
  rfl

theorem get_panics_after_left_split_at_3000 :
    ∃ h₁ t₁ h₂ t₂ h₃ t₃,
      (BTree.new Heap.init).2.insert (BTree.new Heap.init).1 (ascii "b") (List.replicate 3000 0) = .ok (h₁, t₁, .ok ()) ∧
      t₁.insert h₁ (ascii "d") (List.replicate 3000 0) = .ok (h₂, t₂, .ok ()) ∧
      t₂.insert h₂ (ascii "a") (List.replicate 3000 0) = .ok (h₃, t₃, .ok ()) ∧
      t₃.get h₃ (ascii "d") = .error nilDereference :=
  get_panics_after_left_split _ (by rw [List.length_replicate]; decide) (by rw [List.length_replicate]; decide)

/-- After the same `Insert`s the root is an internal node with two keys and only two child
pointers. -/
theorem root_lacks_pointer_after_left_split (v : Bytes) (long : 2039 ≤ v.length)
    (short : v.length ≤ btreeMaxValSize) :
    ∃ h₁ t₁ h₂ t₂ h₃ t₃,
      (BTree.new Heap.init).2.insert (BTree.new Heap.init).1 (ascii "b") v = .ok (h₁, t₁, .ok ()) ∧
      t₁.insert h₁ (ascii "d") v = .ok (h₂, t₂, .ok ()) ∧
      t₂.insert h₂ (ascii "a") v = .ok (h₃, t₃, .ok ()) ∧
      (h₃.node t₃.root).typ = bnodeNode ∧ (h₃.node t₃.root).nkeys = 2 ∧ (h₃.node t₃.root).pointers.length = 2 := by
  obtain ⟨h₁, t₁, h₂, t₂, h₃, t₃, first, second, third, root, -, node⟩ := insert_b_d_a long short
  refine ⟨h₁, t₁, h₂, t₂, h₃, t₃, first, second, third, ?_⟩
  rw [root, node]
  exact ⟨rfl, rfl, rfl⟩

theorem root_lacks_pointer_after_left_split_at_3000 :
    ∃ h₁ t₁ h₂ t₂ h₃ t₃,
      (BTree.new Heap.init).2.insert (BTree.new Heap.init).1 (ascii "b") (List.replicate 3000 0) = .ok (h₁, t₁, .ok ()) ∧
      t₁.insert h₁ (ascii "d") (List.replicate 3000 0) = .ok (h₂, t₂, .ok ()) ∧
      t₂.insert h₂ (ascii "a") (List.replicate 3000 0) = .ok (h₃, t₃, .ok ()) ∧
      (h₃.node t₃.root).typ = bnodeNode ∧ (h₃.node t₃.root).nkeys = 2 ∧ (h₃.node t₃.root).pointers.length = 2 :=
  root_lacks_pointer_after_left_split _ (by rw [List.length_replicate]; decide) (by rw [List.length_replicate]; decide)

/-- `NewBTree` on a fresh heap, then `Insert` of "a" with an empty value and of "b" and "c" with
values of at most 3000 bytes that together take 4079 bytes or more. "c" fills the leaf, which
splits after its first entry, by count, under a new root, node 2, whose second child, node 1,
holds both large entries. -/
theorem insert_a_b_c {vb vc : Bytes} (bShort : vb.length ≤ btreeMaxValSize) (cShort : vc.length ≤ btreeMaxValSize)
    (large : 4079 ≤ vb.length + vc.length) :
    ∃ h₁ t₁ h₂ t₂ h₃ t₃,
      (BTree.new Heap.init).2.insert (BTree.new Heap.init).1 (ascii "a") [] = .ok (h₁, t₁, .ok ()) ∧
      t₁.insert h₁ (ascii "b") vb = .ok (h₂, t₂, .ok ()) ∧
      t₂.insert h₂ (ascii "c") vc = .ok (h₃, t₃, .ok ()) ∧
      t₃.root = 2 ∧ h₃.getChild 2 1 = (h₃, some 1) ∧
      h₃.node 1 = Node.ofEntries bnodeLeaf [] [(ascii "b", vb), (ascii "c", vc)] := by
  rw [show ascii "a" = [97] from rfl, show ascii "b" = [98] from rfl, show ascii "c" = [99] from rfl]
  have bOk : vb.length ≤ 3000 := bShort
  have cOk : vc.length ≤ 3000 := cShort
  have keyOk : ∀ k : Bytes, k.length = 1 → k.length ≤ btreeMaxKeySize := by intro k one; rw [one]; decide
  have empty : (BTree.new Heap.init).1.node 0 = Node.ofEntries bnodeLeaf [] [] := rfl
  -- "a" goes into the empty root leaf
  obtain ⟨h₁, t₁, first, root₁, leaf₁, allocated₁, rels₁, next₁⟩ : ∃ h₁ t₁,
      (BTree.new Heap.init).2.insert (BTree.new Heap.init).1 [97] [] = .ok (h₁, t₁, .ok ()) ∧ t₁.root = 0 ∧
      h₁.node 0 = Node.ofEntries bnodeLeaf [] [([97], [])] ∧ h₁.allocated = 1 ∧ h₁.nodeRelationships = [] ∧
      h₁.nextNodeID = 1 :=
    ⟨_, _, insert_of_not_full (keyOk _ rfl) (by decide) (findLeaf_leaf rfl)
      (insertInLeaf_ofEntries [([97], [])] empty rfl rfl (by decide)) (by decide), rfl, rfl, rfl, rfl, rfl⟩
  -- "b" goes after it, and the leaf is not full
  obtain ⟨h₂, t₂, second, root₂, leaf₂, allocated₂, rels₂, next₂⟩ : ∃ h₂ t₂,
      t₁.insert h₁ [98] vb = .ok (h₂, t₂, .ok ()) ∧ t₂.root = 0 ∧
      h₂.node 0 = Node.ofEntries bnodeLeaf [] [([97], []), ([98], vb)] ∧ h₂.allocated = 1 ∧
      h₂.nodeRelationships = [] ∧ h₂.nextNodeID = 1 := by
    have found : findLeaf h₁ (some t₁.root) [98] (BTree.fuel h₁) = .ok (h₁, 0) := by
      rw [root₁]; exact findLeaf_leaf (by rw [leaf₁]; rfl)
    refine ⟨_, _, insert_of_not_full (keyOk _ rfl) bShort found
      (insertInLeaf_ofEntries [([97], []), ([98], vb)] leaf₁ rfl rfl (by simp [encodeEntry]; omega))
      (by simp [Node.isFull, Node.size_ofEntries, encodeEntry, btreePageSize]; omega), root₁, ?_, ?_, ?_, ?_⟩ <;>
    simp [allocated₁, rels₁, next₁]
  -- "c" fills the leaf, which splits at index 1 under a new root, node 2
  have found : findLeaf h₂ (some t₂.root) [99] (BTree.fuel h₂) = .ok (h₂, 0) := by
    rw [root₂]; exact findLeaf_leaf (by rw [leaf₂]; rfl)
  have newRoot : (Node.ofEntries bnodeNode [] []).insertKV 0 [98] [] = .ok (Node.ofEntries bnodeNode [] [([98], [])]) :=
    Node.insertKV_ofEntries (le_refl _) (by simp [encodeEntry])
  have third := insert_of_full (keyOk [99] rfl) cShort found
    (insertInLeaf_ofEntries [([97], []), ([98], vb), ([99], vc)] leaf₂ rfl rfl (by simp [encodeEntry]; omega))
    (by simp [Node.isFull, Node.size_ofEntries, encodeEntry, btreePageSize]; omega)
    (split_leaf [([97], [])] [([98], vb), ([99], vc)] [98] Heap.setNode_node_self (by simp)
      (by simp [encodeEntry]; omega) (by simp) (by simp) (by simp))
    (insertInParent_root root₂.symm newRoot)
  refine ⟨h₁, t₁, h₂, t₂, _, _, first, second, third, by simp [allocated₂], ?_, by simp [Heap.alloc, allocated₂]⟩
  refine Heap.getChild_registered (?_ : _ = some 2) ?_ <;>
  simp [allocated₂, rels₂, next₂, Heap.childID, Heap.idOf, Heap.register, Heap.padPointers, Heap.lookup,
    Node.ofEntries]

/-- Page-size bound fails: after the three `Insert`s of `insert_a_b_c`, all of which return nil,
the root's second child is a leaf over `BTREE_PAGE_SIZE`. -/
theorem right_leaf_over_page_after_split (vb vc : Bytes) (bShort : vb.length ≤ btreeMaxValSize)
    (cShort : vc.length ≤ btreeMaxValSize) (large : 4079 ≤ vb.length + vc.length) :
    ∃ h₁ t₁ h₂ t₂ h₃ t₃,
      (BTree.new Heap.init).2.insert (BTree.new Heap.init).1 (ascii "a") [] = .ok (h₁, t₁, .ok ()) ∧
      t₁.insert h₁ (ascii "b") vb = .ok (h₂, t₂, .ok ()) ∧
      t₂.insert h₂ (ascii "c") vc = .ok (h₃, t₃, .ok ()) ∧
      ∃ child, h₃.getChild t₃.root 1 = (h₃, some child) ∧ btreePageSize < (h₃.node child).size := by
  obtain ⟨h₁, t₁, h₂, t₂, h₃, t₃, first, second, third, root, child, right⟩ := insert_a_b_c bShort cShort large
  refine ⟨h₁, t₁, h₂, t₂, h₃, t₃, first, second, third, 1, root ▸ child, ?_⟩
  have oneByte : (ascii "b").length = 1 ∧ (ascii "c").length = 1 := ⟨rfl, rfl⟩
  rw [right, Node.size_ofEntries]
  simp [encodeEntry, btreePageSize, oneByte]
  omega

theorem right_leaf_over_page_at_3005_and_1105 :
    ∃ h₁ t₁ h₂ t₂ h₃ t₃,
      (BTree.new Heap.init).2.insert (BTree.new Heap.init).1 (ascii "a") [] = .ok (h₁, t₁, .ok ()) ∧
      t₁.insert h₁ (ascii "b") (List.replicate 3000 0) = .ok (h₂, t₂, .ok ()) ∧
      t₂.insert h₂ (ascii "c") (List.replicate 1100 0) = .ok (h₃, t₃, .ok ()) ∧
      ∃ child, h₃.getChild t₃.root 1 = (h₃, some child) ∧ btreePageSize < (h₃.node child).size :=
  right_leaf_over_page_after_split _ _ (by rw [List.length_replicate]; decide) (by rw [List.length_replicate]; decide)
    (by rw [List.length_replicate, List.length_replicate]; decide)

end BTree

end GoDatabase
