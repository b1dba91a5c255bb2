import GoDatabase.BTree.Pages

namespace GoDatabase

/-- The map from byte strings to byte strings that a `BTree` stands for. -/
abbrev KeyMap := Bytes → Option Bytes

/-- A call of the `BTree` API, as a client makes it. -/
inductive Call where
  | insert (key value : Bytes)
  | get (key : Bytes)
  | delete (key : Bytes)
  deriving DecidableEq, Repr

/-- What a call gives back: `Get`'s value, nil (`none`) from `Insert` and `Delete`, or an error. -/
abbrev Reply := Except String (Option Bytes)

namespace Call

/-- The bytes an `Insert` may add to a leaf: the entry and its offset, when the key and value are
within `BTREE_MAX_KEY_SIZE` and `BTREE_MAX_VAL_SIZE`; nothing when `Insert` rejects them. -/
def footprint : Call → Nat
  | .insert key value =>
    if key.length ≤ btreeMaxKeySize ∧ value.length ≤ btreeMaxValSize then 2 + entrySize (key, value) else 0
  | _ => 0

end Call

namespace KeyMap

/-- A call as the specification answers it on the map `M`. -/
def call (M : KeyMap) : Call → KeyMap × Reply
  | .insert key value =>
    if btreeMaxKeySize < key.length then (M, .error "key too large")
    else if btreeMaxValSize < value.length then (M, .error "value too large")
    else if M key = none then (Function.update M key (some value), .ok none) else (M, .error "key already exists")
  | .get key =>
    (M, match M key with
      | some value => .ok (some value)
      | none => .error "key not found")
  | .delete key => if M key = none then (M, .error "key not found") else (Function.update M key none, .ok none)

/-- Calls one after another on the map, with the replies in order. -/
def calls (M : KeyMap) : List Call → KeyMap × List Reply
  | [] => (M, [])
  | c :: cs =>
    let after := (M.call c).1.calls cs
    (after.1, (M.call c).2 :: after.2)

example : (KeyMap.calls (fun _ => none) [.insert (ascii "k") (ascii "v"), .get (ascii "k"),
    .insert (ascii "k") (ascii "w"), .delete (ascii "k"), .get (ascii "k")]).2 =
      [.ok none, .ok (some (ascii "v")), .error "key already exists", .ok none, .error "key not found"] := rfl

end KeyMap

/-- A leaf's entries stand for the map `M`. -/
def Represents (es : List (Bytes × Bytes)) (M : KeyMap) : Prop := ∀ key, es.lookup key = M key

section Entries

variable {es : List (Bytes × Bytes)} {key x : Bytes}

theorem lookup_eq_none_of_not_mem (absent : key ∉ es.map Prod.fst) : es.lookup key = none :=
  List.lookup_eq_none_iff.mpr fun p member =>
    bne_iff_ne.mpr fun same => absent (List.mem_map.mpr ⟨p, member, same.symm⟩)

theorem not_mem_of_lookup_eq_none (absent : es.lookup key = none) : key ∉ es.map Prod.fst := by
  intro member
  obtain ⟨p, inList, rfl⟩ := List.mem_map.mp member
  have := List.lookup_eq_none_iff.mp absent p inList
  simp at this

/-- An entry put in front of entry `pos` answers for its key alone. -/
theorem lookup_insert {value : Bytes} (pos : Nat) (absent : key ∉ es.map Prod.fst) :
    (es.take pos ++ (key, value) :: es.drop pos).lookup x = if x = key then some value else es.lookup x := by
  conv_rhs => rw [← List.take_append_drop pos es]
  rw [List.lookup_append, List.lookup_append, List.lookup_cons]
  by_cases same : x = key
  · subst same
    have before : (es.take pos).lookup x = none :=
      lookup_eq_none_of_not_mem fun member => absent (List.mem_of_mem_take (List.map_take Prod.fst es pos ▸ member))
    simp [before]
  · have differ : (x == key) = false := beq_false_of_ne same
    simp only [differ, same, if_false]

theorem lookup_cons_pair (p : Bytes × Bytes) (l : List (Bytes × Bytes)) :
    (p :: l).lookup x = if x = p.1 then some p.2 else l.lookup x := by
  obtain ⟨k, v⟩ := p
  by_cases same : x = k
  · simp [List.lookup_cons, same]
  · simp [List.lookup_cons, beq_false_of_ne same, same]

/-- With increasing keys, the keys before entry `i` are below its key and those after it above. -/
theorem Increasing.around {i : Nat} (increasing : Increasing (es.map Prod.fst)) (inside : i < es.length) :
    (∀ p ∈ es.take i, bytesCompare p.1 es[i].1 = .lt) ∧ (∀ p ∈ es.drop (i + 1), bytesCompare es[i].1 p.1 = .lt) := by
  have split : es.map Prod.fst = (es.take i).map Prod.fst ++ es[i].1 :: (es.drop (i + 1)).map Prod.fst := by
    conv_lhs => rw [← List.take_append_drop i es, List.drop_eq_getElem_cons inside]
    simp only [List.map_append, List.map_cons]
  rw [Increasing, split, List.pairwise_append, List.pairwise_cons] at increasing
  obtain ⟨-, ⟨after, -⟩, across⟩ := increasing
  exact ⟨fun p member => across p.1 (List.mem_map_of_mem _ member) es[i].1 (List.mem_cons_self _ _),
    fun p member => after p.1 (List.mem_map_of_mem _ member)⟩

/-- With increasing keys, removing entry `i` takes its key out of the map and nothing else. -/
theorem lookup_eraseIdx {i : Nat} (increasing : Increasing (es.map Prod.fst)) (inside : i < es.length) :
    (es.eraseIdx i).lookup x = if x = es[i].1 then none else es.lookup x := by
  obtain ⟨before, after⟩ := increasing.around inside
  have whole : es.lookup x = ((es.take i).lookup x).or ((es[i] :: es.drop (i + 1)).lookup x) := by
    conv_lhs => rw [← List.take_append_drop i es]
    rw [List.lookup_append, List.drop_eq_getElem_cons inside]
  rw [List.eraseIdx_eq_take_drop_succ, List.lookup_append, whole, lookup_cons_pair]
  by_cases same : x = es[i].1
  · have front : (es.take i).lookup x = none := lookup_eq_none_of_not_mem fun member => by
      obtain ⟨p, inTake, rfl⟩ := List.mem_map.mp member
      simpa [same, bytesCompare_self] using before p inTake
    have back : (es.drop (i + 1)).lookup x = none := lookup_eq_none_of_not_mem fun member => by
      obtain ⟨p, inDrop, rfl⟩ := List.mem_map.mp member
      simpa [same, bytesCompare_self] using after p inDrop
    rw [front, back, if_pos same]
    rfl
  · simp [same]

/-- Where the scan of `Get` and `Delete` finds no equal key, `lookup` finds nothing. -/
theorem lookup_of_findIdx?_none (missing : (es.map Prod.fst).findIdx? (fun k => bytesCompare key k == .eq) = none) :
    es.lookup key = none :=
  lookup_eq_none_of_not_mem fun member => by
    have differ := List.findIdx?_eq_none_iff.mp missing key member
    rw [bytesCompare_self] at differ
    exact absurd differ (by decide)

/-- The entry the scan of `Get` and `Delete` finds is the one `lookup` finds. -/
theorem lookup_of_findIdx?_some : ∀ {es : List (Bytes × Bytes)} {i : Nat},
    (es.map Prod.fst).findIdx? (fun k => bytesCompare key k == .eq) = some i →
      ∃ inside : i < es.length, es[i].1 = key ∧ es.lookup key = some es[i].2
  | [], _, found => by simp at found
  | e :: es, i, found => by
    rw [List.map_cons, List.findIdx?_cons] at found
    split at found
    · rename_i hit
      cases found
      have same : key = e.1 := bytesCompare_eq_iff.mp (ordering_beq_iff.mp hit)
      exact ⟨by simp, same.symm, by simp [lookup_cons_pair, same]⟩
    · rename_i miss
      rw [List.findIdx?_succ] at found
      obtain ⟨j, inner, rfl⟩ := Option.map_eq_some'.mp found
      obtain ⟨inside, same, looked⟩ := lookup_of_findIdx?_some inner
      have differ : key ≠ e.1 := fun eq => miss (ordering_beq_iff.mpr (by rw [eq, bytesCompare_self]))
      exact ⟨by simpa using inside, same, by simp [lookup_cons_pair, differ, looked]⟩

end Entries

namespace BTree

/-- A call made on the tree. The outer error is a panic, which ends the program; otherwise the
heap and the tree after the call, and what the call returned. -/
def call (t : BTree) (h : Heap) : Call → Except String (Heap × BTree × Reply)
  | .insert key value => (t.insert h key value).map fun (h, t, reply) => (h, t, reply.map fun _ => none)
  | .get key => (t.get h key).map fun (h, reply) => (h, t, reply.map some)
  | .delete key => (t.delete h key).map fun (h, t, reply) => (h, t, reply.map fun _ => none)

/-- Calls one after another on the tree, until one panics. -/
def calls (t : BTree) (h : Heap) : List Call → Except String (Heap × BTree × List Reply)
  | [] => .ok (h, t, [])
  | c :: cs => do
    let (h, t, reply) ← t.call h c
    let (h, t, replies) ← t.calls h cs
    return (h, t, reply :: replies)

/-- The tree is one laid-out leaf at its root, whose keys increase and which is not full; `size`
counts its entries. -/
structure LeafRoot (h : Heap) (t : BTree) (es : List (Bytes × Bytes)) : Prop where
  root : h.node t.root = Node.ofEntries bnodeLeaf [] es
  increasing : Increasing (es.map Prod.fst)
  roomy : (Node.ofEntries bnodeLeaf [] es).size < btreePageSize
  size : t.size = es.length

/-- An `Insert` whose key or value is over its limit gets the map's error, on any tree, and changes
nothing. -/
theorem call_insert_rejected {h : Heap} {t : BTree} {M : KeyMap} {key value : Bytes}
    (big : ¬(key.length ≤ btreeMaxKeySize ∧ value.length ≤ btreeMaxValSize)) :
    t.call h (.insert key value) = .ok (h, t, (M.call (.insert key value)).2) ∧ (M.call (.insert key value)).1 = M := by
  by_cases keyOk : key.length ≤ btreeMaxKeySize
  · have valueBig : btreeMaxValSize < value.length := Nat.lt_of_not_le fun valueOk => big ⟨keyOk, valueOk⟩
    simp [BTree.call, KeyMap.call, insert_of_value_too_large keyOk valueBig, Nat.not_lt.mpr keyOk, valueBig]
  · have keyBig : btreeMaxKeySize < key.length := Nat.lt_of_not_le keyOk
    simp [BTree.call, KeyMap.call, insert_of_key_too_large keyBig, keyBig]

namespace LeafRoot

variable {h : Heap} {t : BTree} {es : List (Bytes × Bytes)} {M : KeyMap} {key value : Bytes}

theorem init : LeafRoot (BTree.new Heap.init).1 (BTree.new Heap.init).2 [] := ⟨rfl, .nil, by decide, rfl⟩

theorem fits (leafRoot : LeafRoot h t es) : (pageData es).length < 65536 := by
  have roomy := leafRoot.roomy
  rw [Node.size_ofEntries, btreePageSize] at roomy
  omega

theorem found (leafRoot : LeafRoot h t es) : findLeaf h (some t.root) key (BTree.fuel h) = .ok (h, t.root) :=
  findLeaf_leaf (by rw [leafRoot.root]; rfl)

theorem keys (leafRoot : LeafRoot h t es) : (h.node t.root).keys = .ok (es.map Prod.fst) := by
  rw [leafRoot.root]; exact Node.keys_ofEntries leafRoot.fits

/-- `Get` answers as the map does and changes nothing. -/
theorem call_get (leafRoot : LeafRoot h t es) (represents : Represents es M) :
    t.call h (.get key) = .ok (h, t, (M.call (.get key)).2) := by
  cases scan : (es.map Prod.fst).findIdx? (fun k => bytesCompare key k == .eq) with
  | none =>
    have missing := lookup_of_findIdx?_none scan
    rw [represents key] at missing
    simp [BTree.call, KeyMap.call, get_of_missing leafRoot.found leafRoot.keys scan, missing]
  | some i =>
    obtain ⟨inside, same, looked⟩ := lookup_of_findIdx?_some scan
    rw [represents key] at looked
    have stored : (h.node t.root).getValue i = .ok es[i].2 := by
      rw [leafRoot.root]; exact Node.getValue_ofEntries inside leafRoot.fits
    simp [BTree.call, KeyMap.call, get_of_hit leafRoot.found leafRoot.keys scan stored, looked]

/-- `Insert` answers as the map does; a new key goes into the leaf at its place. -/
theorem call_insert (leafRoot : LeafRoot h t es) (represents : Represents es M)
    (keyOk : key.length ≤ btreeMaxKeySize) (valueOk : value.length ≤ btreeMaxValSize)
    (room : (Node.ofEntries bnodeLeaf [] es).size + (Call.insert key value).footprint < btreePageSize) :
    ∃ h' t' es', t.call h (.insert key value) = .ok (h', t', (M.call (.insert key value)).2) ∧
      LeafRoot h' t' es' ∧ Represents es' (M.call (.insert key value)).1 ∧
      (Node.ofEntries bnodeLeaf [] es').size ≤ (Node.ofEntries bnodeLeaf [] es).size + (Call.insert key value).footprint := by
  have checked : ¬btreeMaxKeySize < key.length ∧ ¬btreeMaxValSize < value.length :=
    ⟨Nat.not_lt.mpr keyOk, Nat.not_lt.mpr valueOk⟩
  cases position : leafPosition key (es.map Prod.fst) with
  | none =>
    have present := (leafPosition_eq_none_iff leafRoot.increasing).mp position
    have held : M key ≠ none := by
      rw [← represents key]; exact fun absent => not_mem_of_lookup_eq_none absent present
    refine ⟨h, t, es, ?_, leafRoot, by simpa [KeyMap.call, checked, held] using represents, by omega⟩
    simp [BTree.call, KeyMap.call, checked, held,
      insert_of_refused keyOk valueOk leafRoot.found (insertInLeaf_present leafRoot.keys position)]
  | some pos =>
    have absent : key ∉ es.map Prod.fst := fun member => by
      rw [← leafPosition_eq_none_iff leafRoot.increasing, position] at member
      cases member
    have held : M key = none := by rw [← represents key]; exact lookup_eq_none_of_not_mem absent
    have le : pos ≤ es.length := List.length_map es Prod.fst ▸ leafPosition_le position
    have grown : (Node.ofEntries bnodeLeaf [] (es.take pos ++ (key, value) :: es.drop pos)).size =
        (Node.ofEntries bnodeLeaf [] es).size + (Call.insert key value).footprint := by
      simp only [Node.size_ofEntries, length_insert_at le, length_pageData_insert, Call.footprint,
        if_pos (And.intro keyOk valueOk)]
      omega
    have fits : (pageData (es.take pos ++ (key, value) :: es.drop pos)).length < 65536 := by
      rw [Node.size_ofEntries] at grown
      simp only [btreePageSize] at room
      omega
    have inserted := insertInLeaf_ofEntries _ leafRoot.root position rfl fits
    have notFull : ((h.setNode t.root (Node.ofEntries bnodeLeaf [] (es.take pos ++ (key, value) :: es.drop pos))).node
        t.root).isFull = false := by
      simp only [Heap.setNode_node_self, Node.isFull, decide_eq_false_iff_not, not_le]
      omega
    refine ⟨h.setNode t.root (Node.ofEntries bnodeLeaf [] (es.take pos ++ (key, value) :: es.drop pos)),
      { t with size := t.size + 1 }, es.take pos ++ (key, value) :: es.drop pos, ?_,
      ⟨Heap.setNode_node_self, ?_, by omega, by simp only [length_insert_at le, leafRoot.size, Nat.cast_succ]⟩, fun x => ?_, grown.le⟩
    · simp [BTree.call, KeyMap.call, checked, held, insert_of_not_full keyOk valueOk leafRoot.found inserted notFull]
    · simpa [List.map_take, List.map_drop] using leafPosition_increasing leafRoot.increasing position
    · simp [KeyMap.call, checked, held, lookup_insert pos absent, Function.update_apply, represents x]

/-- `Delete` answers as the map does; a key the leaf holds leaves it. -/
theorem call_delete (leafRoot : LeafRoot h t es) (represents : Represents es M) :
    ∃ h' t' es', t.call h (.delete key) = .ok (h', t', (M.call (.delete key)).2) ∧
      LeafRoot h' t' es' ∧ Represents es' (M.call (.delete key)).1 ∧
      (Node.ofEntries bnodeLeaf [] es').size ≤ (Node.ofEntries bnodeLeaf [] es).size + (Call.delete key).footprint := by
  cases scan : (es.map Prod.fst).findIdx? (fun k => bytesCompare key k == .eq) with
  | none =>
    have missing := lookup_of_findIdx?_none scan
    rw [represents key] at missing
    refine ⟨h, t, es, ?_, leafRoot, by simpa [KeyMap.call, missing] using represents, by simp [Call.footprint]⟩
    simp [BTree.call, KeyMap.call, missing, delete_of_missing leafRoot.found leafRoot.keys scan]
  | some i =>
    obtain ⟨inside, same, looked⟩ := lookup_of_findIdx?_some scan
    have held : M key = some es[i].2 := by rw [← represents key, looked]
    have removed : (h.node t.root).removeKV i = .ok (Node.ofEntries bnodeLeaf [] (es.eraseIdx i)) := by
      rw [leafRoot.root]; exact Node.removeKV_ofEntries inside leafRoot.fits
    have shrunk : (Node.ofEntries bnodeLeaf [] (es.eraseIdx i)).size ≤ (Node.ofEntries bnodeLeaf [] es).size := by
      have around := congrArg List.length (pageData_around inside)
      simp only [List.length_append] at around
      simp only [Node.size_ofEntries, List.eraseIdx_eq_take_drop_succ, pageData_append, List.length_append,
        List.length_take, List.length_drop]
      omega
    refine ⟨h.setNode t.root (Node.ofEntries bnodeLeaf [] (es.eraseIdx i)), { t with size := t.size - 1 },
      es.eraseIdx i, ?_, ⟨Heap.setNode_node_self, ?_, by have := leafRoot.roomy; omega, ?_⟩, fun x => ?_,
      by simp only [Call.footprint]; omega⟩
    · simp [BTree.call, KeyMap.call, held, delete_of_hit_at_root leafRoot.found leafRoot.keys scan removed]
    · exact leafRoot.increasing.sublist ((List.eraseIdx_sublist es i).map Prod.fst)
    · simp only [List.length_eraseIdx, if_pos inside, leafRoot.size]
      omega
    · rw [lookup_eraseIdx leafRoot.increasing inside, same]
      simp [KeyMap.call, held, Function.update_apply, represents x]

/-- A call that fits in the room left in the page answers as the map does and keeps the tree one
leaf. -/
theorem call (leafRoot : LeafRoot h t es) (represents : Represents es M) {c : Call}
    (room : (Node.ofEntries bnodeLeaf [] es).size + c.footprint < btreePageSize) :
    ∃ h' t' es', t.call h c = .ok (h', t', (M.call c).2) ∧ LeafRoot h' t' es' ∧ Represents es' (M.call c).1 ∧
      (Node.ofEntries bnodeLeaf [] es').size ≤ (Node.ofEntries bnodeLeaf [] es).size + c.footprint := by
  cases c with
  | insert key value =>
    by_cases sizes : key.length ≤ btreeMaxKeySize ∧ value.length ≤ btreeMaxValSize
    · exact leafRoot.call_insert represents sizes.1 sizes.2 room
    · obtain ⟨rejected, unchanged⟩ := call_insert_rejected (M := M) (h := h) (t := t) sizes
      exact ⟨h, t, es, rejected, leafRoot, by rw [unchanged]; exact represents, by omega⟩
  | get key => exact ⟨h, t, es, leafRoot.call_get represents, leafRoot, represents, by simp [Call.footprint]⟩
  | delete key => exact leafRoot.call_delete represents

/-- Calls whose `Insert`s fit together in the room left in the page answer as the map does, one by
one. -/
theorem calls (leafRoot : LeafRoot h t es) (represents : Represents es M) {cs : List Call}
    (room : (Node.ofEntries bnodeLeaf [] es).size + (cs.map Call.footprint).sum < btreePageSize) :
    ∃ h' t' es', t.calls h cs = .ok (h', t', (M.calls cs).2) ∧ LeafRoot h' t' es' ∧ Represents es' (M.calls cs).1 := by
  induction cs generalizing h t es M with
  | nil => exact ⟨h, t, es, rfl, leafRoot, represents⟩
  | cons c cs ih =>
    simp only [List.map_cons, List.sum_cons] at room
    obtain ⟨h₁, t₁, es₁, first, leafRoot₁, represents₁, grew⟩ := leafRoot.call represents (c := c) (by omega)
    obtain ⟨h₂, t₂, es₂, rest, leafRoot₂, represents₂⟩ := ih leafRoot₁ represents₁ (by omega)
    exact ⟨h₂, t₂, es₂, by simp [BTree.calls, KeyMap.calls, first, rest], leafRoot₂, represents₂⟩

end LeafRoot

/-- Until its root leaf first fills, a tree from `NewBTree` is the map of the specification: for
every sequence of calls whose accepted `Insert`s together add less than a page, each call returns
what the map returns, and the tree ends as one leaf whose keys increase, whose `size` counts them,
and which holds the map's contents. -/
theorem calls_agree_with_map_within_one_page (cs : List Call) (room : 4 + (cs.map Call.footprint).sum < btreePageSize) :
    ∃ h t es, (BTree.new Heap.init).2.calls (BTree.new Heap.init).1 cs =
        .ok (h, t, (KeyMap.calls (fun _ => none) cs).2) ∧
      LeafRoot h t es ∧ Represents es (KeyMap.calls (fun _ => none) cs).1 :=
  LeafRoot.init.calls (fun _ => rfl) room

theorem calls_agree_with_map_on_put_get_delete :
    ∃ h t es, (BTree.new Heap.init).2.calls (BTree.new Heap.init).1
        [.insert (ascii "k") (ascii "v"), .get (ascii "k"), .insert (ascii "k") (ascii "w"), .delete (ascii "k"),
          .get (ascii "k")] =
        .ok (h, t, (KeyMap.calls (fun _ => none) [.insert (ascii "k") (ascii "v"), .get (ascii "k"),
          .insert (ascii "k") (ascii "w"), .delete (ascii "k"), .get (ascii "k")]).2) ∧
      LeafRoot h t es ∧ Represents es (KeyMap.calls (fun _ => none) [.insert (ascii "k") (ascii "v"),
        .get (ascii "k"), .insert (ascii "k") (ascii "w"), .delete (ascii "k"), .get (ascii "k")]).1 :=
  calls_agree_with_map_within_one_page _ (by decide)

end BTree

end GoDatabase
