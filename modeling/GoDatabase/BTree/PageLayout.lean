import GoDatabase.BTree.Layout

namespace GoDatabase

namespace Node

/-- The page of `n` is the layout of the entry list `es`: one offset per key, the first at 0, each
entry `| keyLen | valLen | key | value |` running from its offset to the next one and the last to
the end of the data, its two lengths those its 16-bit header states. This is the well-formedness
that `keys`, `getValue` and the entry operations rely on. -/
structure Lays (n : Node) (es : List (Bytes × Bytes)) : Prop where
  nkeys : n.nkeys = es.length
  offsets : n.offsets = pageOffsets es 0
  data : n.data = pageData es
  short : ∀ e ∈ es, e.1.length < 65536 ∧ e.2.length < 65536

/-- A well-formed node: its page is the layout of some entry list. -/
def WellFormed (n : Node) : Prop := ∃ es, n.Lays es

/-- What `keys` and `getValue` read off a page: its keys in order and, in a leaf, each value. -/
structure Reads (n : Node) (es : List (Bytes × Bytes)) : Prop where
  keys : n.keys = .ok (es.map Prod.fst)
  values : n.typ = bnodeLeaf → ∀ i (h : i < es.length), n.getValue i = .ok (es.get ⟨i, h⟩).2

section Scan

variable {n : Node} {es : List (Bytes × Bytes)} {pre post k v : Bytes}

/-- A turn of `Iterate` reads the entry laid out at its offset: its key, and its value on a leaf. -/
theorem iterateEntry_entry {i : Nat} (offset : n.offsets[i]? = some pre.length)
    (data : n.data = pre ++ encodeEntry (k, v) ++ post) (fits : n.data.length < 65536) :
    n.iterateEntry i = .ok (some (k, if n.typ = bnodeLeaf then v else [])) := by
  have size := congrArg List.length data
  simp only [encodeEntry, List.length_append, length_beBytes] at size
  have key : slice n.data (pre.length + 4) (pre.length + 4 + k.length) = .ok k := by
    rw [show n.data = (pre ++ (beBytes 2 k.length ++ beBytes 2 v.length)) ++ k ++ (v ++ post) by
      rw [data]; simp [encodeEntry]]
    simpa using slice_middle (pre ++ (beBytes 2 k.length ++ beBytes 2 v.length)) k (v ++ post)
  have value : slice n.data (pre.length + 4 + k.length) (pre.length + 4 + k.length + v.length) = .ok v := by
    rw [show n.data = (pre ++ (beBytes 2 k.length ++ beBytes 2 v.length) ++ k) ++ v ++ post by
      rw [data]; simp [encodeEntry]]
    convert slice_middle (pre ++ (beBytes 2 k.length ++ beBytes 2 v.length) ++ k) v post using 2 <;>
      simp only [List.length_append, length_beBytes]
  unfold iterateEntry
  simp only [offset, be16_key data fits, be16_value data fits]
  simp (disch := omega) only [wrap16, Nat.mod_eq_of_lt, if_neg (show ¬n.data.length < pre.length + 4 by omega),
    if_neg (show ¬n.data.length < pre.length + 4 + k.length by omega),
    if_neg (show ¬n.data.length < pre.length + 4 + k.length + v.length by omega)]
  by_cases leaf : n.typ = bnodeLeaf <;> simp only [leaf, key, value, except_ok_bind, if_true, if_false, except_pure]

/-- The loop of `Iterate` over turns that each read their entry: `f` on the entries in order, until
the first error. -/
theorem foldlM_iterateStep {ε : Type} (f : Bytes → Bytes → Except ε Unit) :
    ∀ (es : List (Bytes × Bytes)) (s : Nat) (acc : Except ε Unit),
      (∀ j (h : j < es.length), n.iterateEntry (s + j) = .ok (some es[j])) →
      (List.range' s es.length).foldlM (n.iterateStep f) acc = .ok (acc >>= fun _ => es.forM fun e => f e.1 e.2)
  | [], _, acc, _ => by cases acc <;> rfl
  | e :: es, s, acc, entries => by
    have first : n.iterateEntry s = .ok (some e) := entries 0 (Nat.succ_pos _)
    have rest := foldlM_iterateStep f es (s + 1)
    rw [List.length_cons, List.range'_succ, List.foldlM_cons]
    rcases acc with error | ⟨⟩
    · simp only [iterateStep, except_pure, except_ok_bind]
      exact rest _ fun j h => by simpa [Nat.add_assoc, Nat.add_comm 1] using entries (j + 1) (by simpa using h)
    · simp only [iterateStep, first, except_map_ok, except_ok_bind]
      rw [rest _ fun j h => by simpa [Nat.add_assoc, Nat.add_comm 1] using entries (j + 1) (by simpa using h)]
      rfl

/-- On a page under 64 KiB, `Iterate` calls `f` on exactly the entries the page lays out, in order,
each with its value on a leaf and with the empty value on any other node, and returns the first
error of `f`. -/
theorem Lays.iterate_reads {ε : Type} (lays : n.Lays es) (fits : n.data.length < 65536)
    (f : Bytes → Bytes → Except ε Unit) :
    n.iterate f = .ok (es.forM fun e => f e.1 (if n.typ = bnodeLeaf then e.2 else [])) := by
  have entries : ∀ j (h : j < (es.map fun e => (e.1, if n.typ = bnodeLeaf then e.2 else [])).length),
      n.iterateEntry (0 + j) = .ok (some (es.map fun e => (e.1, if n.typ = bnodeLeaf then e.2 else []))[j]) :=
    fun j h => by
      rw [Nat.zero_add, List.getElem_map]
      rw [List.length_map] at h
      exact iterateEntry_entry (lays.offsets ▸ getElem?_pageOffsets h) (lays.data.trans (pageData_around h)) fits
  unfold Node.iterate
  rw [lays.nkeys, List.range_eq_range', ← List.length_map es, foldlM_iterateStep f _ 0 _ entries]
  refine congrArg Except.ok ?_
  rw [except_ok_bind]
  clear entries lays
  induction es with
  | nil => rfl
  | cons e es ih => rw [List.map_cons, List.forM.eq_2, List.forM.eq_2, ih]

/-- On a leaf page under 64 KiB, `Iterate` calls `f` on exactly the entries the page lays out, in
order, and returns the first error of `f`. -/
theorem Lays.iterate {ε : Type} (lays : n.Lays es) (leaf : n.typ = bnodeLeaf) (fits : n.data.length < 65536)
    (f : Bytes → Bytes → Except ε Unit) : n.iterate f = .ok (es.forM fun e => f e.1 e.2) := by
  simpa only [leaf, if_true] using lays.iterate_reads fits f

/-- On a laid-out page with no pointers, `Validate` accepts only the empty page: its first check
compares `nkeys` with the number of pointers. -/
theorem Lays.validate (lays : n.Lays es) (bare : n.pointers = []) :
    n.validate = if es = [] then .ok () else .error "inconsistent number of keys, pointers, or offsets" := by
  unfold Node.validate
  rcases es with _ | ⟨e, es⟩
  · simp [lays.nkeys, lays.offsets, bare, pageOffsets, wrap16]
  · rw [if_pos (.inl (by rw [lays.nkeys, bare]; simp [wrap16])), if_neg (List.cons_ne_nil e es)]

end Scan

section Layout

variable {n : Node} {es : List (Bytes × Bytes)}

theorem Lays.eq_ofEntries (lays : n.Lays es) : n = ofEntries n.typ n.pointers es := by
  obtain ⟨typ, nkeys, pointers, offsets, data⟩ := n
  obtain ⟨rfl, rfl, rfl, -⟩ := lays
  rfl

theorem lays_ofEntries {typ : Nat} {pointers : List Nat} (short : ∀ e ∈ es, e.1.length < 65536 ∧ e.2.length < 65536) :
    (ofEntries typ pointers es).Lays es :=
  ⟨rfl, rfl, rfl, short⟩

/-- On a page under 64 KiB every entry's lengths fit their 16-bit header. -/
theorem short_of_fits (fits : (pageData es).length < 65536) : ∀ e ∈ es, e.1.length < 65536 ∧ e.2.length < 65536 :=
  fun e member => by
    have within := List.le_sum_of_mem (List.mem_map_of_mem entrySize member)
    rw [← length_pageData] at within
    simp only [entrySize] at within
    omega

/-- A page under 64 KiB reads back, through `keys` and `getValue`, as the entries it lays out. -/
theorem Lays.reads (lays : n.Lays es) (fits : n.data.length < 65536) : n.Reads es := by
  rw [lays.data] at fits
  rw [lays.eq_ofEntries]
  refine ⟨keys_ofEntries fits, fun leaf i h => ?_⟩
  rw [ofEntries_typ] at leaf
  rw [leaf]
  exact getValue_ofEntries h fits

theorem length_pageData_eraseIdx_le (i : Nat) : (pageData (es.eraseIdx i)).length ≤ (pageData es).length := by
  rw [length_pageData, length_pageData]
  exact ((List.eraseIdx_sublist es i).map entrySize).sum_le_sum fun _ _ => Nat.zero_le _

theorem eraseIdx_insert_at {pos : Nat} (le : pos ≤ es.length) (e : Bytes × Bytes) :
    (es.take pos ++ e :: es.drop pos).eraseIdx pos = es := by
  rw [List.eraseIdx_append_of_length_le (by simp [le]), List.length_take_of_le le, Nat.sub_self,
    List.eraseIdx_cons_zero, List.take_append_drop]

/-- `insertKV` and `removeKV` keep a page laid out. Inserting at any position up to `nkeys`, while
the data stays under 64 KiB, lays out the entry list with the new entry at that position, and
removing that entry again gives back the node; removing any entry of a page under 64 KiB lays out
the list without it. Each result reads back so through `keys` and `getValue`, and through
`Iterate`, which passes every value on a leaf and the empty value on any other node. -/
theorem insertKV_removeKV_keep_layout (lays : n.Lays es) :
    (∀ pos key value, pos ≤ n.nkeys → n.data.length + 4 + key.length + value.length < 65536 →
      ∃ n', n.insertKV pos key value = .ok n' ∧ n'.Lays (es.take pos ++ (key, value) :: es.drop pos) ∧
        n'.Reads (es.take pos ++ (key, value) :: es.drop pos) ∧
        (∀ {ε : Type} (f : Bytes → Bytes → Except ε Unit), n'.iterate f =
          .ok ((es.take pos ++ (key, value) :: es.drop pos).forM fun e =>
            f e.1 (if n.typ = bnodeLeaf then e.2 else []))) ∧
        n'.removeKV pos = .ok n) ∧
    (n.data.length < 65536 → ∀ pos, pos < n.nkeys →
      ∃ n', n.removeKV pos = .ok n' ∧ n'.Lays (es.eraseIdx pos) ∧ n'.Reads (es.eraseIdx pos) ∧
        ∀ {ε : Type} (f : Bytes → Bytes → Except ε Unit), n'.iterate f =
          .ok ((es.eraseIdx pos).forM fun e => f e.1 (if n.typ = bnodeLeaf then e.2 else []))) := by
  have shape := lays.eq_ofEntries
  rw [lays.nkeys, lays.data]
  refine ⟨fun pos key value le room => ?_, fun fits pos inside => ?_⟩
  · have grown : (pageData (es.take pos ++ (key, value) :: es.drop pos)).length < 65536 := by
      rw [length_pageData_insert]; simp only [entrySize]; omega
    have laid : (ofEntries n.typ n.pointers (es.take pos ++ (key, value) :: es.drop pos)).Lays _ :=
      lays_ofEntries (short_of_fits grown)
    refine ⟨_, by rw [shape]; exact insertKV_ofEntries le grown, laid, laid.reads grown,
      fun f => laid.iterate_reads grown f, ?_⟩
    rw [removeKV_ofEntries (by rw [length_insert_at le]; omega) grown, eraseIdx_insert_at le, ← shape]
  · have shrunk := Nat.lt_of_le_of_lt (length_pageData_eraseIdx_le pos) fits
    have laid : (ofEntries n.typ n.pointers (es.eraseIdx pos)).Lays _ :=
      lays_ofEntries fun e member => lays.short e (List.mem_of_mem_eraseIdx member)
    exact ⟨_, by rw [shape]; exact removeKV_ofEntries inside fits, laid, laid.reads shrunk,
      fun f => laid.iterate_reads shrunk f⟩

theorem insertKV_removeKV_keep_layout_at_b_a :
    (ofEntries bnodeLeaf [] [(ascii "a", [])]).Lays [(ascii "a", [])] ∧
      ∃ n', (ofEntries bnodeLeaf [] [(ascii "a", [])]).insertKV 0 (ascii "b") [] = .ok n' ∧
        n'.Lays [(ascii "b", []), (ascii "a", [])] ∧ n'.Reads [(ascii "b", []), (ascii "a", [])] ∧
        (∀ {ε : Type} (f : Bytes → Bytes → Except ε Unit), n'.iterate f =
          .ok ([(ascii "b", []), (ascii "a", [])].forM fun e =>
            f e.1 (if (ofEntries bnodeLeaf [] [(ascii "a", [])]).typ = bnodeLeaf then e.2 else []))) ∧
        n'.removeKV 0 = .ok (ofEntries bnodeLeaf [] [(ascii "a", [])]) :=
  ⟨lays_ofEntries (by decide), (insertKV_removeKV_keep_layout (lays_ofEntries (by decide))).1 0 _ _ (by decide) (by decide)⟩

theorem pageData_wide_key {K : Bytes} (long : K.length = 65535) :
    pageData [([], []), (K, [])] = 0 :: 0 :: 0 :: 0 :: 255 :: 255 :: 0 :: 0 :: K := by
  simp only [pageData, encodeEntry, List.map, List.flatten, long, List.length_nil, List.append_nil]
  rfl

/-- Entry 1 of the page `[("", ""), (K, "")]`, with a key of 65535 bytes, is 65539 bytes long;
`removeKV` sizes it in 16 bits as 3, cuts 3 bytes of it and leaves one key over the rest. -/
theorem removeKV_wraps {K : Bytes} (long : K.length = 65535) :
    (ofEntries bnodeLeaf [] [([], []), (K, [])]).removeKV 1 = .ok ⟨bnodeLeaf, 1, [], [0], 0 :: 0 :: 0 :: 0 :: 0 :: K⟩ := by
  have front : slice (0 :: 0 :: 0 :: 0 :: 255 :: 255 :: 0 :: 0 :: K) 0 4 = .ok [0, 0, 0, 0] := by simp [slice, long]
  have back : slice (0 :: 0 :: 0 :: 0 :: 255 :: 255 :: 0 :: 0 :: K) 7 65543 = .ok (0 :: K) := by
    rw [show 65543 = (0 :: 0 :: 0 :: 0 :: 255 :: 255 :: 0 :: 0 :: K : Bytes).length by simp [long], slice_drop (by simp)]
    rfl
  unfold removeKV
  simp only [ofEntries, pageData_wide_key long, show pageOffsets [([], []), (K, [])] 0 = [0, 4] from rfl,
    show index [0, 4] 1 = .ok 4 from rfl]
  rw [except_ok_bind]
  simp only [be16, List.getD_cons_succ, List.getD_cons_zero, wrap16, List.length_cons, long, List.length_nil,
    show UInt8.toNat 255 = 255 from rfl, show UInt8.toNat 0 = 0 from rfl]
  simp only [front, back, show slice [0, 4] 0 1 = .ok [0] from rfl, show slice [0, 4] 2 2 = .ok [] from rfl]
  rw [if_neg (by decide), if_neg (by decide)]
  rfl

/-- A node of one key whose data is four zero bytes and more is not well-formed: the header of
its one entry says the entry ends after those four bytes. -/
theorem not_wellFormed_of_zero_header {r : Node} {rest : Bytes} (one : r.nkeys = 1)
    (data : r.data = 0 :: 0 :: 0 :: 0 :: rest) (more : rest ≠ []) : ¬r.WellFormed := by
  rintro ⟨es, lays⟩
  obtain ⟨⟨k, v⟩, rfl⟩ := List.length_eq_one.mp (one ▸ lays.nkeys).symm
  obtain ⟨kShort, vShort⟩ : k.length < 65536 ∧ v.length < 65536 := lays.short (k, v) (List.mem_singleton_self _)
  have page := data.symm.trans lays.data
  simp only [pageData, encodeEntry, List.map, List.flatten, List.append_nil, beBytes_two, List.cons_append,
    List.nil_append, List.cons.injEq] at page
  obtain ⟨kHigh, kLow, vHigh, vLow, rfl⟩ := page
  have kHigh := congrArg UInt8.toNat kHigh
  have kLow := congrArg UInt8.toNat kLow
  have vHigh := congrArg UInt8.toNat vHigh
  have vLow := congrArg UInt8.toNat vLow
  simp only [toNat_toUInt8, show UInt8.toNat 0 = 0 from rfl] at kHigh kLow vHigh vLow
  have noKey : k.length = 0 := by omega
  have noValue : v.length = 0 := by omega
  simp [List.length_eq_zero.mp noKey, List.length_eq_zero.mp noValue] at more

/-- On a page of 64 KiB or more `removeKV` can break the layout: the well-formed page
`[("", ""), (K, "")]` with a key of 65535 zero bytes loses entry 1 to a node that is not
well-formed. -/
theorem removeKV_breaks_layout_over_64KiB :
    (ofEntries bnodeLeaf [] [([], []), (List.replicate 65535 0, [])]).Lays [([], []), (List.replicate 65535 0, [])] ∧
      ∃ r, (ofEntries bnodeLeaf [] [([], []), (List.replicate 65535 0, [])]).removeKV 1 = .ok r ∧ ¬r.WellFormed :=
  ⟨lays_ofEntries fun e member => by
      rcases List.mem_cons.mp member with rfl | member
      · exact ⟨by decide, by decide⟩
      · rw [List.mem_singleton.mp member, List.length_replicate]
        exact ⟨by decide, by decide⟩,
    _, removeKV_wraps (List.length_replicate _ _),
    not_wellFormed_of_zero_header rfl rfl (List.cons_ne_nil _ _)⟩

theorem length_pageData_drop_le (i : Nat) : (pageData (es.drop i)).length ≤ (pageData es).length := by
  rw [pageData_take_drop es i, List.length_append]
  exact Nat.le_add_left _ _

/-- `keyAt` reads only the entry's offset and the data. -/
theorem keyAt_congr {i j : Nat} (same : n.offsets[i]? = n.offsets[j]?) : n.keyAt i = n.keyAt j := by
  unfold keyAt
  rw [same]

/-- `Split` partitions a page's entries. On every well-formed node of two or more entries under
64 KiB, an internal one holding pointers for at least its first half, the node keeps the first
`nkeys/2` entries and the new right node the rest, both laid out, the right one's offsets from 0;
the two lists make up the original and the promoted key is the right node's first key. -/
theorem split_partitions_entries (lays : n.Lays es) (two : 2 ≤ n.nkeys) (fits : n.data.length < 65536)
    (enough : n.typ = bnodeNode → n.nkeys / 2 ≤ n.pointers.length) :
    ∃ left right p, n.split = .ok (some (left, right, p)) ∧ left.Lays (es.take (n.nkeys / 2)) ∧
      right.Lays (es.drop (n.nkeys / 2)) ∧ es.take (n.nkeys / 2) ++ es.drop (n.nkeys / 2) = es ∧
      right.keyAt 0 = .ok p := by
  have shape := lays.eq_ofEntries
  rw [lays.nkeys] at two enough ⊢
  rw [lays.data] at fits
  rw [shape, split_ofEntries two fits enough]
  refine ⟨_, _, _, rfl, lays_ofEntries fun e member => lays.short e (List.mem_of_mem_take member),
    lays_ofEntries fun e member => lays.short e (List.mem_of_mem_drop member), List.take_append_drop _ _, ?_⟩
  rw [keyAt_ofEntries (by simp; omega) (Nat.lt_of_le_of_lt (length_pageData_drop_le _) fits)]
  simp

theorem split_partitions_entries_of_a_b :
    (ofEntries bnodeLeaf [] [(ascii "a", []), (ascii "b", [])]).Lays [(ascii "a", []), (ascii "b", [])] ∧
      ∃ left right p, (ofEntries bnodeLeaf [] [(ascii "a", []), (ascii "b", [])]).split = .ok (some (left, right, p)) ∧
        left.Lays [(ascii "a", [])] ∧ right.Lays [(ascii "b", [])] ∧
        ([(ascii "a", []), (ascii "b", [])] : List (Bytes × Bytes)).take 1 ++ [(ascii "a", []), (ascii "b", [])].drop 1 =
          [(ascii "a", []), (ascii "b", [])] ∧ right.keyAt 0 = .ok p :=
  ⟨lays_ofEntries (by decide), split_partitions_entries (lays_ofEntries (by decide)) (by decide) (by decide) (by decide)⟩

/-- An internal node whose page is well-formed but which holds fewer pointers than half its keys
makes `Split` panic, slicing its pointers past their end. -/
theorem split_panics_on_internal_node_without_pointers :
    (ofEntries bnodeNode [] [(ascii "a", []), (ascii "b", [])]).Lays [(ascii "a", []), (ascii "b", [])] ∧
      (ofEntries bnodeNode [] [(ascii "a", []), (ascii "b", [])]).split = .error sliceOutOfRange :=
  ⟨lays_ofEntries (by decide), rfl⟩

/-- `Merge` does not undo `Split`. On every well-formed node of two or more entries under 64 KiB,
an internal one holding pointers for at least its first half, merging the right half back into
the left gives the node's key count, pointers and data again, but not its offsets: the right
half's offsets stay rebased to 0, so entry `nkeys/2` reads as the first entry. -/
theorem merge_after_split_misplaces_offsets (lays : n.Lays es) (two : 2 ≤ n.nkeys) (fits : n.data.length < 65536)
    (enough : n.typ = bnodeNode → n.nkeys / 2 ≤ n.pointers.length) :
    ∃ left right p merged, n.split = .ok (some (left, right, p)) ∧ left.merge right = .ok merged ∧
      merged.nkeys = n.nkeys ∧ merged.pointers = n.pointers ∧ merged.data = n.data ∧
      merged.offsets ≠ n.offsets ∧ merged.keyAt (n.nkeys / 2) = merged.keyAt 0 := by
  have shape := lays.eq_ofEntries
  rw [lays.nkeys] at two enough ⊢
  rw [lays.data] at fits
  have count := four_mul_length_le es
  have before := four_mul_length_le (es.take (es.length / 2))
  rw [List.length_take_of_le (by omega)] at before
  have firstHalf : (pageOffsets (es.take (es.length / 2)) 0).length = es.length / 2 := by simp; omega
  -- The merged offsets: the left half's, then the right half's starting from 0 again.
  have mergedCut : (pageOffsets (es.take (es.length / 2)) 0 ++ pageOffsets (es.drop (es.length / 2)) 0)[es.length / 2]? =
      some 0 := by
    rw [List.getElem?_append_right firstHalf.le, firstHalf, Nat.sub_self, getElem?_pageOffsets (by simp; omega)]; rfl
  have mergedStart : (pageOffsets (es.take (es.length / 2)) 0 ++ pageOffsets (es.drop (es.length / 2)) 0)[0]? =
      some 0 := by
    rw [List.getElem?_append_left (by omega), getElem?_pageOffsets (by simp; omega)]; rfl
  have cut : (pageOffsets es 0)[es.length / 2]? = some (pageData (es.take (es.length / 2))).length :=
    getElem?_pageOffsets (by omega)
  rw [shape, split_ofEntries two fits enough]
  refine ⟨_, _, _, _, rfl, if_neg (not_not.mpr rfl), by simp [ofEntries, wrap16]; omega, ?_,
    (pageData_take_drop es _).symm, fun same => ?_, keyAt_congr (mergedCut.trans mergedStart.symm)⟩
  · by_cases internal : n.typ = bnodeNode <;> simp [internal]
  · have empty : (pageData (es.take (es.length / 2))).length = 0 :=
      Option.some.inj (cut.symm.trans ((congrArg (·[es.length / 2]?) same).symm.trans mergedCut))
    omega

theorem merge_after_split_misplaces_offsets_of_a_b :
    ∃ left right p merged, (ofEntries bnodeLeaf [] [(ascii "a", []), (ascii "b", [])]).split = .ok (some (left, right, p)) ∧
      left.merge right = .ok merged ∧ merged.nkeys = 2 ∧ merged.pointers = [] ∧
      merged.data = pageData [(ascii "a", []), (ascii "b", [])] ∧
      merged.offsets ≠ pageOffsets [(ascii "a", []), (ascii "b", [])] 0 ∧ merged.keyAt 1 = merged.keyAt 0 :=
  merge_after_split_misplaces_offsets (lays_ofEntries (by decide)) (by decide) (by decide) (by decide)

end Layout

end Node

end GoDatabase
