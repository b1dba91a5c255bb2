import GoDatabase.BTree.LeafMap
import GoDatabase.Raft.Log

namespace GoDatabase

/-- `storage.StorageEngine` on the B+Tree: the tree and the heap it lives in. The database file
is left out; `flush` reads the tree and writes only the file. -/
structure StorageEngine where
  heap : Heap
  btree : BTree

namespace StorageEngine

/-- `flush`: of the tree it reads `Size` and `Height`, and `Height`, walking first children, may
fetch nodes. -/
def flush (e : StorageEngine) : Except String StorageEngine := do
  let (h, _) ← e.btree.height e.heap
  return { e with heap := h }

/-- `Put`: the tree's `Insert`, whose error is returned as it is, then `flush`. -/
def put (e : StorageEngine) (key value : Bytes) : Except String (StorageEngine × Except String Unit) := do
  let (h, t, result) ← e.btree.insert e.heap key value
  match result with
  | .error error => return (⟨h, t⟩, .error error)
  | .ok () => return (← flush ⟨h, t⟩, .ok ())

/-- `Delete`, shaped as `Put`. -/
def delete (e : StorageEngine) (key : Bytes) : Except String (StorageEngine × Except String Unit) := do
  let (h, t, result) ← e.btree.delete e.heap key
  match result with
  | .error error => return (⟨h, t⟩, .error error)
  | .ok () => return (← flush ⟨h, t⟩, .ok ())

/-- One committed entry through the loop of `applyCommittedEntries`: the call it decodes is made
on the storage and the error the call returns is dropped. -/
def apply (e : StorageEngine) (entry : LogEntry) : Except String StorageEngine := do
  match ← applyCommittedEntry entry with
  | none => return e
  | some (.put key value) => return (← e.put key value).1
  | some (.delete key) => return (← e.delete key).1

/-- `Put` of a key a one-leaf tree already holds returns an error (`key already exists`, or a
size limit) and changes nothing. -/
theorem put_of_present {e : StorageEngine} {es : List (Bytes × Bytes)} {key value : Bytes}
    (leafRoot : BTree.LeafRoot e.heap e.btree es) (present : key ∈ es.map Prod.fst) :
    ∃ error, e.put key value = .ok (e, .error error) := by
  have position := (BTree.leafPosition_eq_none_iff leafRoot.increasing).mpr present
  by_cases keyShort : key.length ≤ btreeMaxKeySize
  · by_cases valueShort : value.length ≤ btreeMaxValSize
    · exact ⟨"key already exists", by simp [put, BTree.insert_of_refused keyShort valueShort leafRoot.found
        (BTree.insertInLeaf_present leafRoot.keys position)]⟩
    · exact ⟨"value too large", by simp [put, BTree.insert_of_value_too_large keyShort (Nat.lt_of_not_le valueShort)]⟩
  · exact ⟨"key too large", by simp [put, BTree.insert_of_key_too_large (Nat.lt_of_not_le keyShort)]⟩

end StorageEngine

/-- Apply does not overwrite on `PUT`: on an engine whose tree is one leaf holding the map `M`,
applying the command `handleClientRequest` builds for `("put", k, v)`, with `k` held in `M`,
leaves the engine as it was, and `Get(k)` still returns the old value. -/
theorem put_keeps_old_value (term index : Nat) {e : StorageEngine} {es : List (Bytes × Bytes)} {M : KeyMap}
    {key value old : Bytes} (leafRoot : BTree.LeafRoot e.heap e.btree es) (represents : Represents es M)
    (present : M key = some old) (plain : space ∉ key) :
    ∃ command, buildCommand "put" key value = some command ∧ e.apply ⟨term, index, command⟩ = .ok e ∧
      e.btree.get e.heap key = .ok (e.heap, .ok old) := by
  have held : key ∈ es.map Prod.fst := by
    by_contra absent
    simpa [represents key, present] using lookup_eq_none_of_not_mem absent
  refine ⟨_, buildCommand_put key value, ?_, ?_⟩
  · obtain ⟨error, refused⟩ : ∃ error, e.put key value = .ok (e, .error error) :=
      StorageEngine.put_of_present leafRoot held
    rw [StorageEngine.apply, decode_put term index value plain]
    split_ifs
    · rfl
    · simp [refused]
  · have got : e.btree.call e.heap (.get key) = _ := leafRoot.call_get represents
    simp only [BTree.call, KeyMap.call, present, except_map_eq_ok, Prod.mk.injEq] at got
    obtain ⟨⟨h, reply⟩, found, rfl, -, replied⟩ := got
    cases reply <;> simp_all [Except.map]

/-- An engine whose one leaf holds "k" ↦ "v" keeps "v" through an applied `PUT k w`. -/
theorem put_keeps_old_value_on_k :
    ∃ command, buildCommand "put" (ascii "k") (ascii "w") = some command ∧
      StorageEngine.apply ⟨(BTree.new Heap.init).1.setNode 0 (Node.ofEntries bnodeLeaf [] [(ascii "k", ascii "v")]), ⟨0, 1⟩⟩
        ⟨1, 1, command⟩ =
        .ok ⟨(BTree.new Heap.init).1.setNode 0 (Node.ofEntries bnodeLeaf [] [(ascii "k", ascii "v")]), ⟨0, 1⟩⟩ ∧
      BTree.get ⟨0, 1⟩ ((BTree.new Heap.init).1.setNode 0 (Node.ofEntries bnodeLeaf [] [(ascii "k", ascii "v")]))
        (ascii "k") =
        .ok ((BTree.new Heap.init).1.setNode 0 (Node.ofEntries bnodeLeaf [] [(ascii "k", ascii "v")]), .ok (ascii "v")) :=
  put_keeps_old_value 1 1 (M := fun key => [(ascii "k", ascii "v")].lookup key)
    ⟨Heap.setNode_node_self, by decide, by decide, rfl⟩ (fun _ => rfl) rfl (by decide)

end GoDatabase
