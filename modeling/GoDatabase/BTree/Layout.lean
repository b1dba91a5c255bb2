import GoDatabase.BTree.Node

namespace GoDatabase

/-- The page bytes of one entry: key and value lengths big-endian, the key, the value. -/
def encodeEntry (e : Bytes × Bytes) : Bytes := beBytes 2 e.1.length ++ beBytes 2 e.2.length ++ e.1 ++ e.2

def entrySize (e : Bytes × Bytes) : Nat := 4 + e.1.length + e.2.length

/-- The data section of a page holding `entries` in order. -/
def pageData (entries : List (Bytes × Bytes)) : Bytes := (entries.map encodeEntry).flatten

/-- Where each of `entries` starts when the first starts at `start`. -/
def pageOffsets : List (Bytes × Bytes) → Nat → List Nat
  | [], _ => []
  | e :: es, start => start :: pageOffsets es (start + entrySize e)

/-- The node whose page holds `entries` in order, each at its offset. -/
def Node.ofEntries (typ : Nat) (pointers : List Nat) (entries : List (Bytes × Bytes)) : Node :=
  ⟨typ, entries.length, pointers, pageOffsets entries 0, pageData entries⟩

@[simp] theorem length_encodeEntry (e : Bytes × Bytes) : (encodeEntry e).length = entrySize e := by
  simp only [encodeEntry, entrySize, List.length_append, length_beBytes]

@[simp] theorem pageData_nil : pageData [] = [] := rfl

@[simp] theorem pageData_cons (e : Bytes × Bytes) (es : List (Bytes × Bytes)) :
    pageData (e :: es) = encodeEntry e ++ pageData es := rfl

@[simp] theorem pageData_append (xs ys : List (Bytes × Bytes)) :
    pageData (xs ++ ys) = pageData xs ++ pageData ys := by
  simp [pageData]

/-- A page cut before entry `i`: the data of the two parts, one after the other. -/
theorem pageData_take_drop (es : List (Bytes × Bytes)) (i : Nat) :
    pageData es = pageData (es.take i) ++ pageData (es.drop i) := by
  rw [← pageData_append, List.take_append_drop]

theorem length_pageData (es : List (Bytes × Bytes)) : (pageData es).length = (es.map entrySize).sum := by
  induction es with
  | nil => rfl
  | cons e es ih => simp [ih]

/-- Every entry takes at least its four header bytes. -/
theorem four_mul_length_le (es : List (Bytes × Bytes)) : 4 * es.length ≤ (pageData es).length := by
  induction es with
  | nil => simp
  | cons e es ih =>
    simp only [pageData_cons, List.length_append, length_encodeEntry, List.length_cons, entrySize]
    omega

/-- An entry put anywhere adds its own size to the data. -/
theorem length_pageData_insert (es : List (Bytes × Bytes)) (pos : Nat) (e : Bytes × Bytes) :
    (pageData (es.take pos ++ e :: es.drop pos)).length = (pageData es).length + entrySize e := by
  rw [pageData_take_drop es pos]
  simp only [pageData_append, pageData_cons, List.length_append, length_encodeEntry]
  omega

theorem length_insert_at {es : List (Bytes × Bytes)} {pos : Nat} (le : pos ≤ es.length) (e : Bytes × Bytes) :
    (es.take pos ++ e :: es.drop pos).length = es.length + 1 := by
  simp only [List.length_append, List.length_take, List.length_cons, List.length_drop, Nat.min_eq_left le]
  omega

@[simp] theorem length_pageOffsets (es : List (Bytes × Bytes)) (start : Nat) :
    (pageOffsets es start).length = es.length := by
  induction es generalizing start with
  | nil => rfl
  | cons e es ih => simp [pageOffsets, ih]

theorem pageOffsets_add (es : List (Bytes × Bytes)) (start shift : Nat) :
    pageOffsets es (start + shift) = (pageOffsets es start).map (· + shift) := by
  induction es generalizing start with
  | nil => rfl
  | cons e es ih =>
    simp only [pageOffsets, List.map_cons, ← ih]
    congr 2
    omega

theorem pageOffsets_append (xs ys : List (Bytes × Bytes)) (start : Nat) :
    pageOffsets (xs ++ ys) start = pageOffsets xs start ++ pageOffsets ys (start + (pageData xs).length) := by
  induction xs generalizing start with
  | nil => rfl
  | cons e xs ih =>
    simp only [List.cons_append, pageOffsets, List.append_eq, ih, pageData_cons, List.length_append,
      length_encodeEntry, Nat.add_assoc]

/-- A page cut before entry `i`: the offsets of the two parts, the second part's starting where
the first part's data ends. -/
theorem pageOffsets_take_drop (es : List (Bytes × Bytes)) (i : Nat) :
    pageOffsets es 0 = pageOffsets (es.take i) 0 ++ pageOffsets (es.drop i) (pageData (es.take i)).length := by
  rw [← Nat.zero_add (pageData (es.take i)).length, ← pageOffsets_append, List.take_append_drop]

/-- The offsets of a page with an entry inserted in front of entry `pos`: the first `pos` stay,
the new entry starts where entry `pos` started, and the later ones move by its size. -/
theorem pageOffsets_insert {es : List (Bytes × Bytes)} {pos : Nat} (le : pos ≤ es.length) (e : Bytes × Bytes) :
    pageOffsets (es.take pos ++ e :: es.drop pos) 0 =
      (pageOffsets es 0).take pos ++ (pageData (es.take pos)).length ::
        ((pageOffsets es 0).drop pos).map (· + entrySize e) := by
  have frontLen : (pageOffsets (es.take pos) 0).length = pos := by simp; omega
  rw [pageOffsets_take_drop es pos, List.take_left' frontLen, List.drop_left' frontLen, ← pageOffsets_add,
    pageOffsets_append, Nat.zero_add]
  rfl

/-- Each entry starts before the end of the page. -/
theorem lt_of_mem_pageOffsets {es : List (Bytes × Bytes)} {start o : Nat} (member : o ∈ pageOffsets es start) :
    o < start + (pageData es).length := by
  induction es generalizing start with
  | nil => simp [pageOffsets] at member
  | cons e es ih =>
    simp only [pageOffsets, List.mem_cons] at member
    have size := length_encodeEntry e
    simp only [pageData_cons, List.length_append]
    rcases member with rfl | later
    · simp only [entrySize] at size
      omega
    · have := ih later
      omega

/-- Entry `i` of a page starts where the data of the entries before it ends. -/
theorem getElem?_pageOffsets {es : List (Bytes × Bytes)} {i : Nat} (h : i < es.length) :
    (pageOffsets es 0)[i]? = some (pageData (es.take i)).length := by
  rw [pageOffsets_take_drop es i, List.getElem?_append_right (by simp)]
  obtain ⟨e, rest, split⟩ : ∃ e rest, es.drop i = e :: rest :=
    List.exists_cons_of_ne_nil (by simp; omega)
  simp [split, pageOffsets, Nat.min_eq_left h.le]

/-- The page data around entry `i`. -/
theorem pageData_around {es : List (Bytes × Bytes)} {i : Nat} (h : i < es.length) :
    pageData es = pageData (es.take i) ++ encodeEntry es[i] ++ pageData (es.drop (i + 1)) := by
  conv => lhs; rw [← List.take_append_drop i es, List.drop_eq_getElem_cons h]
  rw [pageData_append, pageData_cons, List.append_assoc]

theorem slice_middle {α : Type} (front middle back : List α) :
    slice (front ++ middle ++ back) front.length (front.length + middle.length) = .ok middle := by
  unfold slice
  rw [if_pos (by simp), List.take_left' (by simp), List.drop_left' rfl]

theorem beBytes_two (a : Nat) : beBytes 2 a = [(a / 256).toUInt8, a.toUInt8] := rfl

namespace Node

variable {n : Node} {pre post k v : Bytes}

/-- A 16-bit length written by `insertKV` reads back. -/
theorem be16_beBytes {rest : Bytes} {a : Nat} (data : n.data = pre ++ beBytes 2 a ++ rest) (small : a < 65536)
    (room : pre.length + 1 < 65536) : n.be16 pre.length = a := by
  have high : n.data.getD pre.length 0 = (a / 256).toUInt8 := by
    rw [data, List.append_assoc, beBytes_two, List.getD_eq_getElem?_getD,
      List.getElem?_append_right (Nat.le_refl _), Nat.sub_self]
    simp
  have low : n.data.getD (pre.length + 1) 0 = a.toUInt8 := by
    rw [data, List.append_assoc, beBytes_two, List.getD_eq_getElem?_getD,
      List.getElem?_append_right (Nat.le_succ _), Nat.succ_sub (Nat.le_refl _), Nat.sub_self]
    simp
  rw [be16, wrap16, Nat.mod_eq_of_lt room, high, low, toNat_toUInt8, toNat_toUInt8]
  omega

theorem be16_key (data : n.data = pre ++ encodeEntry (k, v) ++ post) (fits : n.data.length < 65536) :
    n.be16 pre.length = k.length := by
  have size := congrArg List.length data
  simp only [encodeEntry, List.length_append, length_beBytes] at size
  have split : n.data = pre ++ beBytes 2 k.length ++ (beBytes 2 v.length ++ k ++ v ++ post) := by
    rw [data]; simp [encodeEntry]
  exact be16_beBytes split (by omega) (by omega)

theorem be16_value (data : n.data = pre ++ encodeEntry (k, v) ++ post) (fits : n.data.length < 65536) :
    n.be16 (wrap16 (pre.length + 2)) = v.length := by
  have size := congrArg List.length data
  simp only [encodeEntry, List.length_append, length_beBytes] at size
  have shifted : n.data = (pre ++ beBytes 2 k.length) ++ beBytes 2 v.length ++ (k ++ v ++ post) := by
    rw [data]; simp [encodeEntry]
  rw [wrap16, Nat.mod_eq_of_lt (by omega)]
  simpa using be16_beBytes shifted (by omega) (by simp; omega)

/-- The key of an entry laid out at its offset. -/
theorem keyAt_entry {i : Nat} (offset : n.offsets[i]? = some pre.length)
    (data : n.data = pre ++ encodeEntry (k, v) ++ post) (fits : n.data.length < 65536) : n.keyAt i = .ok k := by
  have size := congrArg List.length data
  simp only [encodeEntry, List.length_append, length_beBytes] at size
  have around : n.data = (pre ++ (beBytes 2 k.length ++ beBytes 2 v.length)) ++ k ++ (v ++ post) := by
    rw [data]; simp [encodeEntry]
  unfold keyAt
  simp only [offset, be16_key data fits]
  simp (disch := omega) only [wrap16, Nat.mod_eq_of_lt, if_neg (show ¬n.data.length < pre.length + 4 by omega),
    if_neg (show ¬n.data.length < pre.length + 4 + k.length by omega)]
  rw [around]
  simpa using slice_middle (pre ++ (beBytes 2 k.length ++ beBytes 2 v.length)) k (v ++ post)

/-- The value of a leaf entry laid out at its offset. -/
theorem getValue_entry {i : Nat} (leaf : n.typ = bnodeLeaf) (inRange : i < n.nkeys)
    (offset : n.offsets[i]? = some pre.length) (data : n.data = pre ++ encodeEntry (k, v) ++ post)
    (fits : n.data.length < 65536) : n.getValue i = .ok v := by
  have size := congrArg List.length data
  simp only [encodeEntry, List.length_append, length_beBytes] at size
  have around : n.data = (pre ++ (beBytes 2 k.length ++ beBytes 2 v.length) ++ k) ++ v ++ post := by
    rw [data]; simp [encodeEntry]
  unfold getValue
  rw [if_neg (by simp [leaf]; omega)]
  simp only [index, offset, except_ok_bind, be16_key data fits, be16_value data fits]
  simp (disch := omega) only [wrap16, Nat.mod_eq_of_lt, if_neg (show ¬n.data.length < pre.length + 4 by omega),
    if_neg (show ¬n.data.length < pre.length + 4 + k.length + v.length by omega)]
  rw [around]
  simp only [pure_bind]
  convert slice_middle (pre ++ (beBytes 2 k.length ++ beBytes 2 v.length) ++ k) v post using 2 <;>
    simp only [List.length_append, length_beBytes]

end Node

theorem slice_front {α : Type} (front back : List α) : slice (front ++ back) 0 front.length = .ok front := by
  simpa using slice_middle [] front back

theorem slice_back {α : Type} (front back : List α) :
    slice (front ++ back) front.length (front ++ back).length = .ok back := by
  simpa using slice_middle front back []

theorem slice_take {α : Type} {s : List α} {hi : Nat} (h : hi ≤ s.length) : slice s 0 hi = .ok (s.take hi) := by
  simp [slice, h]

theorem slice_drop {α : Type} {s : List α} {lo : Nat} (h : lo ≤ s.length) : slice s lo s.length = .ok (s.drop lo) := by
  simp [slice, h]

theorem mapM_range'_eq_ok {α : Type} {f : Nat → Except String α} {l : List α} {s : Nat}
    (each : ∀ i (h : i < l.length), f (s + i) = .ok l[i]) : (List.range' s l.length).mapM f = .ok l := by
  induction l generalizing s with
  | nil => rfl
  | cons a l ih =>
    have first : f s = .ok a := by simpa using each 0 (by simp)
    have rest : (List.range' (s + 1) l.length).mapM f = .ok l :=
      ih fun i h => by simpa [Nat.add_assoc, Nat.add_comm 1] using each (i + 1) (by simp; omega)
    simp only [List.length_cons, List.range'_succ, List.mapM_cons, first, rest, except_ok_bind]
    rfl

/-- `copy` into zeroed bytes behind `front`. -/
theorem copyAt_blank (front src : Bytes) (rest : Nat) :
    copyAt (front ++ List.replicate (src.length + rest) 0) front.length src = .ok (front ++ src ++ List.replicate rest 0) := by
  unfold copyAt
  rw [if_pos (by simp), List.take_left' rfl, List.length_append, List.length_replicate, Nat.add_sub_cancel_left,
    List.take_of_length_le (by omega), List.replicate_add, ← List.append_assoc,
    List.drop_left' (by simp)]

/-- The entry `insertKV` builds is the encoding of the pair when its lengths fit in 16 bits. -/
theorem entry_eq (key value : Bytes) (small : 4 + key.length + value.length < 65536) :
    Node.entry key value = .ok (encodeEntry (key, value)) := by
  have header : [(key.length / 256).toUInt8, key.length.toUInt8, (value.length / 256).toUInt8,
      value.length.toUInt8] = beBytes 2 key.length ++ beBytes 2 value.length := rfl
  have withKey := copyAt_blank (beBytes 2 key.length ++ beBytes 2 value.length) key value.length
  have withValue := copyAt_blank (beBytes 2 key.length ++ beBytes 2 value.length ++ key) value 0
  simp only [List.length_append, length_beBytes, List.replicate_zero, List.append_nil, Nat.add_zero] at withKey withValue
  simp only [Node.entry, wrap16, header, Nat.mod_eq_of_lt (show key.length < 65536 by omega),
    Nat.mod_eq_of_lt (show value.length < 65536 by omega), Nat.mod_eq_of_lt (show 4 + key.length < 65536 by omega)]
  simp only [show 2 + 2 = 4 from rfl] at withKey withValue
  rw [withKey, except_ok_bind]
  simpa [encodeEntry, Nat.add_assoc] using withValue

namespace Node

variable {typ : Nat} {pointers : List Nat} {es : List (Bytes × Bytes)}

@[simp] theorem ofEntries_typ : (ofEntries typ pointers es).typ = typ := rfl

@[simp] theorem ofEntries_nkeys : (ofEntries typ pointers es).nkeys = es.length := rfl

@[simp] theorem ofEntries_pointers : (ofEntries typ pointers es).pointers = pointers := rfl

/-- Pointers written into a laid-out node leave its page as it was. -/
@[simp] theorem ofEntries_with_pointers (ps : List Nat) :
    { ofEntries typ pointers es with pointers := ps } = ofEntries typ ps es := rfl

theorem keyAt_ofEntries {i : Nat} (h : i < es.length) (fits : (pageData es).length < 65536) :
    (ofEntries typ pointers es).keyAt i = .ok es[i].1 :=
  keyAt_entry (getElem?_pageOffsets h) (pageData_around h) fits

/-- A page laid out from its entries lists their keys. -/
theorem keys_ofEntries (fits : (pageData es).length < 65536) :
    (ofEntries typ pointers es).keys = .ok (es.map Prod.fst) := by
  unfold keys
  rw [List.range_eq_range']
  have each : ∀ i (h : i < (es.map Prod.fst).length),
      (ofEntries typ pointers es).keyAt (0 + i) = .ok (es.map Prod.fst)[i] := fun i h => by
    rw [Nat.zero_add, List.getElem_map]
    exact keyAt_ofEntries (by simpa using h) fits
  simpa using mapM_range'_eq_ok each

theorem getValue_ofEntries {i : Nat} (h : i < es.length) (fits : (pageData es).length < 65536) :
    (ofEntries bnodeLeaf pointers es).getValue i = .ok es[i].2 :=
  getValue_entry rfl h (getElem?_pageOffsets h) (pageData_around h) fits

/-- Inserting into a laid-out page lays out the entries with the new one at `pos`, as long as
the page still fits the 16-bit offsets. -/
theorem insertKV_ofEntries {pos : Nat} {key value : Bytes} (le : pos ≤ es.length)
    (fits : (pageData (es.take pos ++ (key, value) :: es.drop pos)).length < 65536) :
    (ofEntries typ pointers es).insertKV pos key value =
      .ok (ofEntries typ pointers (es.take pos ++ (key, value) :: es.drop pos)) := by
  have frontLen : (es.take pos).length = pos := List.length_take_of_le le
  have whole := pageData_take_drop es pos
  have size := congrArg List.length whole
  have count := four_mul_length_le (es.take pos ++ (key, value) :: es.drop pos)
  simp only [pageData_append, pageData_cons, List.length_append, length_encodeEntry, entrySize,
    List.length_cons, frontLen, List.length_drop] at fits size count
  have shift : ∀ o ∈ (pageOffsets es 0).drop pos,
      wrap16 (o + wrap16 (4 + wrap16 key.length + wrap16 value.length)) = o + entrySize (key, value) := by
    intro o member
    have := lt_of_mem_pageOffsets (List.mem_of_mem_drop member)
    simp only [wrap16, entrySize]
    rw [Nat.mod_eq_of_lt (show key.length < 65536 by omega), Nat.mod_eq_of_lt (show value.length < 65536 by omega),
      Nat.mod_eq_of_lt (by omega), Nat.mod_eq_of_lt (by omega)]
  have noThrow : ¬(pageOffsets es 0).length < pos := by simp; omega
  have newOffsets : List.take pos (pageOffsets es 0) ++ (pageData (es.take pos)).length ::
      ((pageOffsets es 0).drop pos).map (fun o => wrap16 (o + wrap16 (4 + wrap16 key.length + wrap16 value.length))) =
        pageOffsets (es.take pos ++ (key, value) :: es.drop pos) 0 := by
    rw [pageOffsets_insert le, List.map_congr_left shift]
  have newCount : wrap16 (es.length + 1) = (es.take pos ++ (key, value) :: es.drop pos).length := by
    simp only [wrap16, List.length_append, List.length_cons, frontLen, List.length_drop]
    rw [Nat.mod_eq_of_lt (by omega)]
    omega
  have newData : pageData (es.take pos) ++ (encodeEntry (key, value) ++ pageData (es.drop pos)) =
      pageData (es.take pos ++ (key, value) :: es.drop pos) := by
    simp
  unfold insertKV
  rw [entry_eq key value (by omega), except_ok_bind]
  simp only [ofEntries]
  split
  · rename_i atEnd
    have front : es.take pos = es := List.take_of_length_le (by omega)
    have offsetEq : wrap16 (pageData es).length = (pageData (es.take pos)).length := by
      rw [front, wrap16, Nat.mod_eq_of_lt (by omega)]
    have dataEq : pageData es ++ encodeEntry (key, value) =
        pageData (es.take pos) ++ (encodeEntry (key, value) ++ pageData (es.drop pos)) := by
      rw [front, List.drop_of_length_le (by omega)]
      simp
    simp only [pure_bind, noThrow, if_false]
    rw [offsetEq, dataEq, newOffsets, newCount, newData]
    rfl
  · rename_i inside
    have lt : pos < es.length := by omega
    simp only [index, getElem?_pageOffsets lt, whole, except_ok_bind, slice_front, slice_back, pure_bind, noThrow,
      if_false]
    rw [newOffsets, newCount, newData]
    rfl

/-- Removing entry `i` of a laid-out page lays out the page without it: what stood before the
entry stays, and the offsets after it move back by its size. -/
theorem removeKV_ofEntries {i : Nat} (inside : i < es.length) (fits : (pageData es).length < 65536) :
    (ofEntries typ pointers es).removeKV i = .ok (ofEntries typ pointers (es.eraseIdx i)) := by
  have around := pageData_around inside
  have size := congrArg List.length around
  simp only [List.length_append, length_encodeEntry, entrySize] at size
  have key : (ofEntries typ pointers es).be16 (pageData (es.take i)).length = es[i].1.length :=
    be16_key around fits
  have value : (ofEntries typ pointers es).be16 (wrap16 ((pageData (es.take i)).length + 2)) = es[i].2.length :=
    be16_value around fits
  have offsets : pageOffsets es 0 = pageOffsets (es.take i) 0 ++ (pageData (es.take i)).length ::
      (pageOffsets (es.drop (i + 1)) (pageData (es.take i)).length).map (· + entrySize es[i]) := by
    rw [pageOffsets_take_drop es i, List.drop_eq_getElem_cons inside, pageOffsets, ← pageOffsets_add]
  have frontLen : (pageOffsets (es.take i) 0).length = i := by simp; omega
  have front : slice (pageData es) 0 (pageData (es.take i)).length = .ok (pageData (es.take i)) := by
    rw [around, List.append_assoc]; exact slice_front _ _
  have back : slice (pageData es) ((pageData (es.take i)).length + entrySize es[i]) (pageData es).length =
      .ok (pageData (es.drop (i + 1))) := by
    rw [around]; simpa using slice_back (pageData (es.take i) ++ encodeEntry es[i]) (pageData (es.drop (i + 1)))
  have kept : slice (pageOffsets es 0) 0 i = .ok (pageOffsets (es.take i) 0) := by
    rw [slice_take (by simp; omega), offsets, List.take_left' frontLen]
  have later : slice (pageOffsets es 0) (i + 1) (pageOffsets es 0).length =
      .ok ((pageOffsets (es.drop (i + 1)) (pageData (es.take i)).length).map (· + entrySize es[i])) := by
    rw [slice_drop (by simp; omega), offsets, ← List.singleton_append, ← List.append_assoc,
      List.drop_left' (by simp [frontLen])]
  have shift : ∀ o ∈ pageOffsets (es.drop (i + 1)) (pageData (es.take i)).length,
      (o + (4 + es[i].1.length + es[i].2.length) + 65536 - (4 + es[i].1.length + es[i].2.length)) % 65536 = o := by
    intro o member
    have := lt_of_mem_pageOffsets member
    omega
  have count := four_mul_length_le es
  unfold removeKV
  rw [if_neg (by simp [ofEntries]; omega)]
  simp only [index, ofEntries, getElem?_pageOffsets inside, except_ok_bind] at key value ⊢
  rw [if_neg (by omega), key, value]
  simp only [pure_bind, wrap16, Nat.mod_eq_of_lt (show 4 + es[i].1.length + es[i].2.length < 65536 by omega),
    Nat.mod_eq_of_lt (show (pageData (es.take i)).length + (4 + es[i].1.length + es[i].2.length) < 65536 by omega)]
  simp only [entrySize] at back later
  rw [front, back, kept, later]
  simp only [except_ok_bind, pure_bind, List.map_map, Function.comp_def]
  rw [List.map_congr_left shift, List.map_id', List.eraseIdx_eq_take_drop_succ]
  have length : (es.length + 65535) % 65536 = (List.take i es ++ List.drop (i + 1) es).length := by
    simp only [List.length_append, List.length_take, List.length_drop]
    omega
  simp only [except_pure, ofEntries, length, pageOffsets_append, pageData_append, Nat.zero_add]

/-- Splitting a laid-out page of two entries or more keeps its first half, moves the rest to a
new page of the same type, and promotes the first moved key; an internal node's pointers are
cut at the same index. -/
theorem split_ofEntries (two : 2 ≤ es.length) (fits : (pageData es).length < 65536)
    (enough : typ = bnodeNode → es.length / 2 ≤ pointers.length) :
    (ofEntries typ pointers es).split =
      .ok (some (ofEntries typ (if typ = bnodeNode then pointers.take (es.length / 2) else pointers)
          (es.take (es.length / 2)),
        ofEntries typ (if typ = bnodeNode then pointers.drop (es.length / 2) else []) (es.drop (es.length / 2)),
        (es.get ⟨es.length / 2, Nat.div_lt_self (Nat.lt_of_lt_of_le Nat.zero_lt_two two) Nat.one_lt_two⟩).1)) := by
  have half : es.length / 2 < es.length := by omega
  have whole := pageData_take_drop es (es.length / 2)
  have size := congrArg List.length whole
  simp only [List.length_append] at size
  have start := getElem?_pageOffsets half
  have frontOffsets : (pageOffsets (es.take (es.length / 2)) 0).length = es.length / 2 := by simp; omega
  have rightOffsets : ((List.range (es.length - es.length / 2)).mapM fun i => do
      let o ← index (pageOffsets es 0) (es.length / 2 + i)
      pure (wrap16 (o + 65536 - (pageData (es.take (es.length / 2))).length))) =
        .ok (pageOffsets (es.drop (es.length / 2)) 0) := by
    rw [List.range_eq_range', show es.length - es.length / 2 = (pageOffsets (es.drop (es.length / 2)) 0).length by simp]
    refine mapM_range'_eq_ok fun i h => ?_
    have inRight : i < (es.drop (es.length / 2)).length := by simpa using h
    have atRight := getElem?_pageOffsets inRight
    have atWhole := getElem?_pageOffsets (show es.length / 2 + i < es.length by simp at inRight; omega)
    rw [List.take_add, pageData_append, List.length_append] at atWhole
    have bound := congrArg List.length (pageData_take_drop (es.drop (es.length / 2)) i)
    simp only [List.length_append] at bound
    simp only [Nat.zero_add, index, atWhole, except_ok_bind, wrap16, List.getElem_eq_iff.mpr atRight]
    show Except.ok _ = Except.ok _
    congr 1
    omega
  have startIdx : index (pageOffsets es 0) (es.length / 2) = .ok (pageData (es.take (es.length / 2))).length := by
    simp [index, start]
  have leftOffsets : slice (pageOffsets es 0) 0 (es.length / 2) = .ok (pageOffsets (es.take (es.length / 2)) 0) := by
    rw [slice_take (by simp; omega), pageOffsets_take_drop es (es.length / 2), List.take_left' frontOffsets]
  have promoted (count : Nat) (right : List Nat) :
      (⟨typ, count, right, pageOffsets (es.drop (es.length / 2)) 0, pageData (es.drop (es.length / 2))⟩ : Node).keyAt 0 =
        .ok es[es.length / 2].1 := by
    have offset : (pageOffsets (es.drop (es.length / 2)) 0)[0]? = some ([] : Bytes).length := by
      rw [List.drop_eq_getElem_cons half, pageOffsets]
      simp
    have data : pageData (es.drop (es.length / 2)) =
        [] ++ encodeEntry es[es.length / 2] ++ pageData (es.drop (es.length / 2 + 1)) := by
      rw [List.drop_eq_getElem_cons half]; rfl
    exact keyAt_entry offset data (show (pageData _).length < 65536 by omega)
  unfold split
  simp only [ofEntries, if_neg (show ¬es.length < 2 by omega), pure_bind, startIdx, except_ok_bind, whole, slice_back]
  split
  · rename_i internal
    simp only [slice_drop (enough internal), slice_take (enough internal), except_ok_bind, pure_bind,
      rightOffsets, leftOffsets, slice_front, promoted]
    simp [internal, Nat.min_eq_left half.le]
  · rename_i leaf
    simp only [pure_bind, rightOffsets, leftOffsets, except_ok_bind, slice_front, promoted]
    simp [leaf, Nat.min_eq_left half.le]

theorem size_ofEntries : (ofEntries typ pointers es).size =
    4 + pointers.length * 8 + es.length * 2 + (pageData es).length := by
  simp [size, ofEntries]

end Node

end GoDatabase
