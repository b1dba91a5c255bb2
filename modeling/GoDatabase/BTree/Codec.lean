import GoDatabase.BTree.LeafMap

namespace GoDatabase

namespace Node

/-- `Serialize`: the header (`typ`, `nkeys`), each pointer in 8 bytes and each offset in 2, all
big-endian, then the data. -/
def serialize (n : Node) : Bytes :=
  beBytes 2 n.typ ++ beBytes 2 n.nkeys ++ (n.pointers.map (beBytes 8)).flatten ++
    (n.offsets.map (beBytes 2)).flatten ++ n.data

/-- A big-endian word of `w` bytes from `start` on, read a byte at a time as `Deserialize` reads
its fields (`uint16(data[offset])<<8 | uint16(data[offset+1])`, and the pointers alike). -/
def readWord (data : Bytes) (start w : Nat) : Except String Nat :=
  beValue <$> (List.range' start w).mapM (index data)

/-- `Deserialize` on the receiver `n`: the error it returns, with `n` as it was, or the node it
leaves in `n`. It reads `nkeys` pointers whatever the node's type and checks nothing that it
reads; a byte past the end panics. -/
def deserialize (n : Node) (data : Bytes) : Except String (Node × Except String Unit) :=
  if data.length < 4 then .ok (n, .error "data too short")
  else do
    let typ ← readWord data 0 2
    let nkeys ← readWord data 2 2
    let pointers ← (List.range nkeys).mapM fun i => readWord data (4 + 8 * i) 8
    let offsets ← (List.range nkeys).mapM fun i => readWord data (4 + 8 * nkeys + 2 * i) 2
    let rest ← slice data (4 + 10 * nkeys) data.length
    return (⟨typ, nkeys, pointers, offsets, rest⟩, .ok ())

/-- The key count a page's header states. -/
def headerKeys (data : Bytes) : Nat := beValue ((data.drop 2).take 2)

/-- The `k` words of `w` bytes each from `start` on, as `Deserialize` decodes them. -/
def words (data : Bytes) (start w k : Nat) : List Nat :=
  (List.range k).map fun i => beValue ((data.drop (start + w * i)).take w)

@[simp] theorem length_words (data : Bytes) (start w k : Nat) : (words data start w k).length = k := by
  simp [words]

@[simp] theorem length_flatten_beBytes (w : Nat) (l : List Nat) : ((l.map (beBytes w)).flatten).length = w * l.length := by
  induction l with
  | nil => rfl
  | cons a l ih => simp [ih, Nat.mul_succ, Nat.add_comm]

@[simp] theorem length_serialize (n : Node) :
    n.serialize.length = 4 + 8 * n.pointers.length + 2 * n.offsets.length + n.data.length := by
  simp only [serialize, List.length_append, length_beBytes, length_flatten_beBytes]

section Reading

variable (data : Bytes)

/-- Reading `w` bytes one index at a time panics exactly when they run past the end. -/
theorem mapM_index_range' : ∀ start w, (List.range' start w).mapM (index data) =
    if w = 0 ∨ start + w ≤ data.length then .ok ((data.drop start).take w) else .error indexOutOfRange
  | start, 0 => by simp [List.mapM_nil]; rfl
  | start, w + 1 => by
    rw [List.range'_succ, List.mapM_cons, mapM_index_range' (start + 1) w]
    by_cases inside : start < data.length
    · simp only [index, List.getElem?_eq_getElem inside, except_ok_bind]
      by_cases fits : w = 0 ∨ start + 1 + w ≤ data.length
      · rw [if_pos fits, if_pos (by omega), List.drop_eq_getElem_cons inside]; rfl
      · rw [if_neg fits, if_neg (by omega)]; rfl
    · simp only [index, List.getElem?_eq_none (Nat.le_of_not_lt inside)]
      rw [if_neg (show ¬(w + 1 = 0 ∨ start + (w + 1) ≤ data.length) by omega)]; rfl

theorem readWord_eq {w : Nat} (wide : 0 < w) (start : Nat) : readWord data start w =
    if start + w ≤ data.length then .ok (beValue ((data.drop start).take w)) else .error indexOutOfRange := by
  rw [readWord, mapM_index_range']
  by_cases fits : start + w ≤ data.length
  · rw [if_pos (.inr fits), if_pos fits]; rfl
  · rw [if_neg (by omega), if_neg fits]; rfl

/-- The loop that reads `k` words of `w` bytes panics exactly when the last one runs past the end. -/
theorem mapM_readWord {start w : Nat} (wide : 0 < w) : ∀ s k, start + w * s ≤ data.length →
    (List.range' s k).mapM (fun i => readWord data (start + w * i) w) =
      if start + w * (s + k) ≤ data.length then
        .ok ((List.range' s k).map fun i => beValue ((data.drop (start + w * i)).take w))
      else .error indexOutOfRange
  | s, 0, base => by simp [base, List.mapM_nil]; rfl
  | s, k + 1, _ => by
    rw [List.range'_succ, List.mapM_cons, readWord_eq data wide]
    have grow : w * (s + (k + 1)) = w * s + w + w * k := by rw [Nat.mul_add, Nat.mul_succ]; omega
    by_cases first : start + w * s + w ≤ data.length
    · rw [if_pos first, except_ok_bind, mapM_readWord wide (s + 1) k (by rw [Nat.mul_succ]; omega)]
      rw [show s + 1 + k = s + (k + 1) by omega]
      split <;> rfl
    · rw [if_neg first, if_neg (by omega)]; rfl

end Reading

/-- What `Deserialize` does on every input: the error on a page shorter than its header, a panic
on one shorter than the pointers and offsets its header asks for, and otherwise the fields as it
reads them, none of them checked. -/
theorem deserialize_eq (n : Node) (data : Bytes) : n.deserialize data =
    if data.length < 4 then .ok (n, .error "data too short")
    else if data.length < 4 + 10 * headerKeys data then .error indexOutOfRange
    else .ok (⟨beValue (data.take 2), headerKeys data, words data 4 8 (headerKeys data),
      words data (4 + 8 * headerKeys data) 2 (headerKeys data), data.drop (4 + 10 * headerKeys data)⟩, .ok ()) := by
  have two : 0 < 2 := by decide
  unfold deserialize
  by_cases short : data.length < 4
  · simp only [if_pos short]
  · rw [if_neg short, if_neg short, readWord_eq data two, if_pos (by omega), except_ok_bind, readWord_eq data two,
      if_pos (by omega), except_ok_bind, List.range_eq_range', mapM_readWord data (by omega) 0 _ (by omega)]
    simp only [Nat.mul_zero, Nat.add_zero, Nat.zero_add, List.drop_zero, words, List.range_eq_range',
      show beValue ((data.drop 2).take 2) = headerKeys data from rfl]
    by_cases pointers : 4 + 8 * headerKeys data ≤ data.length
    · rw [if_pos pointers, except_ok_bind, mapM_readWord data two 0 _ (by omega)]
      by_cases fits : data.length < 4 + 10 * headerKeys data
      · rw [if_neg (by omega), if_pos fits]; rfl
      · rw [if_pos (by omega), if_neg fits, except_ok_bind, slice_drop (by omega)]
        rfl
    · rw [if_neg pointers, if_pos (by omega)]; rfl

/-- A node that `Deserialize` decodes has as many pointers and offsets as keys. -/
theorem deserialize_counts {m r : Node} {data : Bytes} (decoded : m.deserialize data = .ok (r, .ok ())) :
    r.pointers.length = r.nkeys ∧ r.offsets.length = r.nkeys := by
  rw [deserialize_eq] at decoded
  split_ifs at decoded <;> cases decoded
  exact ⟨length_words .., length_words ..⟩

/-- `Deserialize` does not fail cleanly on a malformed page. Every page at least as long as its
header but shorter than the pointers and offsets the header asks for makes it panic instead of
return an error; every longer page decodes, with nil, with each offset as the page has it,
checked against nothing. -/
theorem deserialize_panics_or_trusts_offsets (m : Node) (b : Bytes) (header : 4 ≤ b.length) :
    (b.length < 4 + 10 * headerKeys b → m.deserialize b = .error indexOutOfRange) ∧
      (4 + 10 * headerKeys b ≤ b.length → ∃ r, m.deserialize b = .ok (r, .ok ()) ∧
        r.offsets = words b (4 + 8 * headerKeys b) 2 (headerKeys b) ∧ r.data = b.drop (4 + 10 * headerKeys b)) := by
  rw [deserialize_eq, if_neg (Nat.not_lt.mpr header)]
  exact ⟨fun short => if_pos short, fun long => ⟨_, if_neg (Nat.not_lt.mpr long), rfl, rfl⟩⟩

theorem deserialize_panics_on_truncated_page :
    4 ≤ ([0, 2, 0, 1] : Bytes).length ∧ (Node.new 0).deserialize [0, 2, 0, 1] = .error indexOutOfRange :=
  ⟨by decide, (deserialize_panics_or_trusts_offsets (Node.new 0) [0, 2, 0, 1] (by decide)).1 (by decide)⟩

/- A leaf page with one key whose offset, 100, lies past its empty data decodes with nil. -/
example : (Node.new 0).deserialize [0, 2, 0, 1, 0, 0, 0, 0, 0, 0, 0, 0, 0, 100] =
    .ok (⟨2, 1, [0], [100], []⟩, .ok ()) := rfl

/-- Each word of a list laid out word after word is read back from its place, modulo its range. -/
theorem take_drop_flatten (w : Nat) (rest : Bytes) : ∀ (pre : Bytes) (l : List Nat) (i : Nat) (_ : i < l.length),
    ((pre ++ (l.map (beBytes w)).flatten ++ rest).drop (pre.length + w * i)).take w = beBytes w l[i]
  | pre, a :: l, 0, _ => by simp [List.append_assoc, List.take_left']
  | pre, a :: l, i + 1, inside => by
    have later := take_drop_flatten w rest (pre ++ beBytes w a) l i (by simpa using inside)
    simpa [List.append_assoc, Nat.mul_succ, Nat.add_assoc, Nat.add_comm w] using later

theorem words_flatten (w : Nat) (pre rest : Bytes) (l : List Nat) :
    words (pre ++ (l.map (beBytes w)).flatten ++ rest) pre.length w l.length = l.map (· % 256 ^ w) := by
  apply List.ext_getElem (by simp)
  intro i inside _
  simp only [words, List.getElem_map, List.getElem_range]
  rw [take_drop_flatten w rest pre l i (by simpa using inside), beValue_beBytes]

theorem map_mod_of_lt {l : List Nat} {b : Nat} (below : ∀ x ∈ l, x < b) : l.map (· % b) = l :=
  (List.map_congr_left fun x mem => Nat.mod_eq_of_lt (below x mem)).trans (List.map_id' l)

/-- `Deserialize` gives back from `Serialize` exactly the nodes with one pointer and one offset per
key, every field within its width. -/
theorem serialize_round_trip_iff (m : Node) {n : Node} (typ : n.typ < 65536) (nkeys : n.nkeys < 65536)
    (pointerBound : ∀ p ∈ n.pointers, p < 2 ^ 64) (offsetBound : ∀ o ∈ n.offsets, o < 65536) :
    m.deserialize n.serialize = .ok (n, .ok ()) ↔ n.pointers.length = n.nkeys ∧ n.offsets.length = n.nkeys := by
  refine ⟨fun back => deserialize_counts back, fun ⟨pointers, offsets⟩ => ?_⟩
  have header : headerKeys n.serialize = n.nkeys := by
    simp only [headerKeys, serialize, List.append_assoc]
    rw [List.drop_left' (length_beBytes 2 _), List.take_left' (length_beBytes 2 _), beValue_beBytes_of_lt nkeys]
  have first : n.serialize.take 2 = beBytes 2 n.typ := by
    simp only [serialize, List.append_assoc]; exact List.take_left' (length_beBytes 2 _)
  have readPointers : words n.serialize 4 8 n.nkeys = n.pointers := by
    have read := words_flatten 8 (beBytes 2 n.typ ++ beBytes 2 n.nkeys) ((n.offsets.map (beBytes 2)).flatten ++ n.data)
      n.pointers
    rw [List.length_append, length_beBytes, length_beBytes, pointers, ← List.append_assoc] at read
    rw [serialize, read, map_mod_of_lt (by simpa using pointerBound)]
  have readOffsets : words n.serialize (4 + 8 * n.nkeys) 2 n.nkeys = n.offsets := by
    have read := words_flatten 2 (beBytes 2 n.typ ++ beBytes 2 n.nkeys ++ (n.pointers.map (beBytes 8)).flatten) n.data
      n.offsets
    rw [List.length_append, List.length_append, length_beBytes, length_beBytes, length_flatten_beBytes,
      pointers, offsets] at read
    rw [serialize, read, map_mod_of_lt (by simpa using offsetBound)]
  have rest : n.serialize.drop (4 + 10 * n.nkeys) = n.data := by
    apply List.drop_left'
    simp only [List.length_append, length_beBytes, length_flatten_beBytes, pointers, offsets]; omega
  rw [deserialize_eq, if_neg (show ¬n.serialize.length < 4 by rw [length_serialize]; omega), header,
    if_neg (show ¬n.serialize.length < 4 + 10 * n.nkeys by rw [length_serialize]; omega), first,
    beValue_beBytes_of_lt typ, readPointers, readOffsets, rest]

theorem new_leaf_survives_serialize_round_trip :
    (Node.new bnodeLeaf).typ < 65536 ∧ (Node.new bnodeLeaf).nkeys < 65536 ∧
      (∀ p ∈ (Node.new bnodeLeaf).pointers, p < 2 ^ 64) ∧ (∀ o ∈ (Node.new bnodeLeaf).offsets, o < 65536) ∧
      (Node.new 0).deserialize (Node.new bnodeLeaf).serialize = .ok (Node.new bnodeLeaf, .ok ()) :=
  ⟨by decide, by decide, by simp [Node.new], by simp [Node.new],
    (serialize_round_trip_iff (Node.new 0) (by decide) (by decide) (by simp [Node.new]) (by simp [Node.new])).mpr
      ⟨rfl, rfl⟩⟩

end Node

namespace BTree

/-- Every tree whose root is still one leaf holding an entry, as `NewBTree` and accepted `Insert`s
build it until the root first splits, has a root page that does not survive `Serialize` and
`Deserialize`: the leaf writes no pointers and the decoder reads one per key. -/
theorem root_leaf_fails_serialize_round_trip {h : Heap} {t : BTree} {es : List (Bytes × Bytes)}
    (leafRoot : LeafRoot h t es) (nonempty : es ≠ []) (m : Node) :
    m.deserialize (h.node t.root).serialize ≠ .ok (h.node t.root, .ok ()) := fun back => by
  have counts := (Node.deserialize_counts back).1
  rw [leafRoot.root] at counts
  exact nonempty (List.length_eq_zero.mp (by simpa [Node.ofEntries] using counts.symm))

theorem insert_k_v_fails_serialize_round_trip :
    ∃ h t, (BTree.new Heap.init).2.insert (BTree.new Heap.init).1 (ascii "k") (ascii "v") = .ok (h, t, .ok ()) ∧
      (Node.new 0).deserialize (h.node t.root).serialize ≠ .ok (h.node t.root, .ok ()) := by
  obtain ⟨h, t, es, call, leafRoot, represents, -⟩ := LeafRoot.init.call_insert (M := fun _ => none)
    (fun _ => rfl) (show (ascii "k").length ≤ btreeMaxKeySize by decide)
    (show (ascii "v").length ≤ btreeMaxValSize by decide) (by decide)
  rw [BTree.call] at call
  obtain ⟨⟨h', t', reply⟩, inserted, same⟩ := except_map_eq_ok.mp call
  have nonempty : es ≠ [] := fun empty => absurd (represents (ascii "k")) (by rw [empty]; decide)
  have accepted : (KeyMap.call (fun _ => none) (.insert (ascii "k") (ascii "v"))).2 = .ok none := rfl
  simp only [accepted, Prod.mk.injEq] at same
  obtain ⟨rfl, rfl, replied⟩ := same
  obtain ⟨⟨⟩, rfl, -⟩ := except_map_eq_ok.mp replied
  exact ⟨_, _, inserted, root_leaf_fails_serialize_round_trip leafRoot nonempty _⟩

end BTree

end GoDatabase
