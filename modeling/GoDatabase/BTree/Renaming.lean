import GoDatabase.BTree.Tree

namespace GoDatabase

/-- `s[lo:hi]` of a mapped slice is the mapped `s[lo:hi]`. -/
theorem slice_map {α β : Type} (f : α → β) (s : List α) (lo hi : Nat) :
    slice (s.map f) lo hi = (slice s lo hi).map (List.map f) := by
  unfold slice
  split_ifs <;> simp_all [List.map_take, List.map_drop]

theorem mem_of_slice {α : Type} {s r : List α} {lo hi : Nat} (sliced : slice s lo hi = .ok r) {x : α} (mem : x ∈ r) :
    x ∈ s := by
  unfold slice at sliced
  split_ifs at sliced
  cases sliced
  exact List.mem_of_mem_take (List.mem_of_mem_drop mem)

namespace Node

/-- The node with its child ids renamed by `g`. -/
def rename (g : Nat → Nat) (n : Node) : Node := { n with pointers := n.pointers.map g }

variable {g : Nat → Nat} {n : Node}

@[simp] theorem rename_typ : (n.rename g).typ = n.typ := rfl
@[simp] theorem rename_pointers : (n.rename g).pointers = n.pointers.map g := rfl
@[simp] theorem rename_nkeys : (n.rename g).nkeys = n.nkeys := rfl
@[simp] theorem rename_offsets : (n.rename g).offsets = n.offsets := rfl
@[simp] theorem rename_data : (n.rename g).data = n.data := rfl
@[simp] theorem be16_rename (i : Nat) : (n.rename g).be16 i = n.be16 i := rfl
@[simp] theorem keys_rename : (n.rename g).keys = n.keys := rfl
@[simp] theorem getValue_rename (i : Nat) : (n.rename g).getValue i = n.getValue i := rfl
@[simp] theorem size_rename : (n.rename g).size = n.size := by simp [size]
@[simp] theorem isFull_rename : (n.rename g).isFull = n.isFull := by simp [isFull]
@[simp] theorem isEmpty_rename : (n.rename g).isEmpty = n.isEmpty := rfl

@[simp] theorem rename_new (typ : Nat) : (Node.new typ).rename g = Node.new typ := rfl

theorem rename_of_pointers_nil (empty : n.pointers = []) : n.rename g = n := by
  cases n
  simp_all [rename]

theorem rename_congr {g' : Nat → Nat} (agree : ∀ i ∈ n.pointers, g' i = g i) : n.rename g' = n.rename g := by
  simp only [rename, List.map_congr_left agree]

/-- The node operations read no child id: each commutes with renaming them. -/
theorem insertKV_rename (pos : Nat) (key value : Bytes) :
    (n.rename g).insertKV pos key value = (n.insertKV pos key value).map (rename g) := by
  simp only [insertKV, rename, except_map_bind, apply_ite (Except.map _), except_throw, except_map_error,
    except_pure, except_map_ok]

theorem removeKV_rename (pos : Nat) : (n.rename g).removeKV pos = (n.removeKV pos).map (rename g) := by
  simp only [removeKV, rename_nkeys, rename_offsets, rename_data, be16_rename, except_map_bind,
    apply_ite (Except.map _), except_pure, except_map_ok]
  rfl

theorem split_rename : (n.rename g).split =
    n.split.map (Option.map fun (l, r, k) => (l.rename g, r.rename g, k)) := by
  simp only [split, rename_nkeys, rename_offsets, rename_data, rename_typ, rename_pointers, List.length_map, slice_map]
  split_ifs
  all_goals simp only [except_map_bind, except_bind_map, except_pure, except_ok_bind, except_map_ok, Option.map_some',
    Option.map_none']
  all_goals rfl

/-- `insertKV` and `removeKV` keep the child ids, and `Split` shares them out. -/
theorem insertKV_pointers {n' : Node} {pos : Nat} {key value : Bytes} (inserted : n.insertKV pos key value = .ok n') :
    n'.pointers = n.pointers := by
  have kept : (n.insertKV pos key value).map pointers = (n.insertKV pos key value).map fun _ => n.pointers := by
    simp only [insertKV, except_map_bind, apply_ite (Except.map _), except_throw, except_map_error, except_pure,
      except_map_ok]
  simpa [inserted] using kept

theorem removeKV_pointers {n' : Node} {pos : Nat} (removed : n.removeKV pos = .ok n') : n'.pointers = n.pointers := by
  have kept : (n.removeKV pos).map pointers = (n.removeKV pos).map fun _ => n.pointers := by
    simp only [removeKV, except_map_bind, apply_ite (Except.map _), except_pure, except_map_ok]
  simpa [removed] using kept

theorem split_pointers {l r : Node} {k : Bytes} (split : n.split = .ok (some (l, r, k))) :
    (∀ i ∈ l.pointers, i ∈ n.pointers) ∧ ∀ i ∈ r.pointers, i ∈ n.pointers := by
  unfold Node.split at split
  dsimp only at split
  split_ifs at split
  · cases split
  all_goals simp only [except_bind_eq_ok, except_pure, Except.ok.injEq, Option.some.injEq, Prod.mk.injEq] at split
  · obtain ⟨-, -, right, rightSliced, left, leftSliced, _, rfl, -, -, -, -, -, -, -, -, -, -, -, -, rfl, rfl, -⟩ := split
    exact ⟨fun _ => mem_of_slice leftSliced, fun _ => mem_of_slice rightSliced⟩
  · obtain ⟨-, -, _, rfl, -, -, -, -, -, -, -, -, -, -, -, -, rfl, rfl, -⟩ := split
    exact ⟨fun _ => id, by simp⟩

end Node

namespace Heap

/-- The package-level map as the code keeps it: every id in it is above zero and below
`nextNodeID`, every node in it is allocated, and no id is in it twice. -/
structure Sound (h : Heap) : Prop where
  positive : 0 < h.nextNodeID
  entries : ∀ e ∈ h.nodeRelationships, 0 < e.1 ∧ e.1 < h.nextNodeID ∧ e.2 < h.allocated
  nodup : (h.nodeRelationships.map Prod.fst).Nodup

variable {h : Heap} {n : Node} {p q c : Ptr} {i j : Nat}

@[simp] theorem lookup_alloc : (h.alloc n).1.lookup i = h.lookup i := rfl
@[simp] theorem lookup_setNode : (h.setNode p n).lookup i = h.lookup i := rfl
@[simp] theorem idOf_alloc : (h.alloc n).1.idOf q = h.idOf q := rfl
@[simp] theorem idOf_setNode : (h.setNode p n).idOf q = h.idOf q := rfl

theorem mem_of_lookup (found : h.lookup i = some c) : (i, c) ∈ h.nodeRelationships := by
  obtain ⟨e, hit, rfl⟩ := Option.map_eq_some'.mp found
  have same := List.find?_some hit
  simp only [beq_iff_eq] at same
  rw [← same]
  exact List.mem_of_find?_eq_some hit

theorem mem_of_idOf (found : h.idOf q = some i) : (i, q) ∈ h.nodeRelationships := by
  obtain ⟨e, hit, rfl⟩ := Option.map_eq_some'.mp found
  have same := List.find?_some hit
  simp only [beq_iff_eq] at same
  rw [← same]
  exact List.mem_of_find?_eq_some hit

theorem lookup_eq_none (absent : ∀ e ∈ h.nodeRelationships, e.1 ≠ i) : h.lookup i = none := by
  simp only [lookup, Option.map_eq_none', List.find?_eq_none, beq_iff_eq]
  exact absent

theorem idOf_eq_none (absent : ∀ e ∈ h.nodeRelationships, e.2 ≠ q) : h.idOf q = none := by
  simp only [idOf, Option.map_eq_none', List.find?_eq_none, beq_iff_eq]
  exact absent

theorem find?_filter_of_imp {α : Type} {P Q : α → Bool} (imp : ∀ x, P x = true → Q x = true) :
    ∀ l : List α, (l.filter Q).find? P = l.find? P
  | [] => rfl
  | x :: l => by
    by_cases hit : P x = true
    · simp [List.filter_cons, imp x hit, hit]
    · by_cases kept : Q x = true <;> simp [List.filter_cons, kept, hit, find?_filter_of_imp imp l]

theorem lookup_register : (h.register i p).lookup j = if j = i then some p else h.lookup j := by
  by_cases same : j = i
  · simp [register, lookup, same]
  · have skip : (i == j) = false := by simpa using Ne.symm same
    simp only [register, lookup, List.find?_cons, skip, same, if_false]
    rw [find?_filter_of_imp]
    intro e hit
    simp only [beq_iff_eq] at hit
    simp [hit, same]

theorem lookup_bump : ({ h with nextNodeID := h.nextNodeID + 1 }.register h.nextNodeID p).lookup j =
    if j = h.nextNodeID then some p else h.lookup j :=
  lookup_register

theorem idOf_register (fresh : ∀ e ∈ h.nodeRelationships, e.1 ≠ i) :
    (h.register i p).idOf q = if q = p then some i else h.idOf q := by
  have kept : h.nodeRelationships.filter (fun entry => entry.1 != i) = h.nodeRelationships :=
    List.filter_eq_self.mpr fun e member => by simpa using fresh e member
  by_cases same : q = p
  · simp [register, idOf, kept, same]
  · have skip : (p == q) = false := by simpa using Ne.symm same
    simp [register, idOf, kept, same, skip]

theorem padPointers_map {g : Nat → Nat} (zero : g 0 = 0) (ps : List Nat) (i : Nat) :
    padPointers (ps.map g) i = (padPointers ps i).map g := by
  unfold padPointers
  split_ifs <;> simp_all [List.map_replicate]

theorem mem_padPointers_set {ps : List Nat} {i x y : Nat} (member : y ∈ (padPointers ps i).set i x) :
    y ∈ ps ∨ y = 0 ∨ y = x := by
  rcases List.mem_or_eq_of_mem_set member with padded | new
  · unfold padPointers at padded
    split_ifs at padded
    · rcases List.mem_append.mp padded with old | zero
      · exact .inl old
      · exact .inr (.inl (List.eq_of_mem_replicate zero))
    · exact .inl padded
  · exact .inr (.inr new)

namespace Sound

theorem register (sound : h.Sound) (positive : 0 < i) (below : i < h.nextNodeID) (allocated : p < h.allocated) :
    (h.register i p).Sound := by
  refine ⟨sound.positive, ?_, ?_⟩
  · intro e member
    simp only [Heap.register, List.mem_cons, List.mem_filter] at member
    rcases member with rfl | ⟨old, -⟩
    · exact ⟨positive, below, allocated⟩
    · exact sound.entries e old
  · simp only [Heap.register, List.map_cons, List.nodup_cons, List.mem_map, List.mem_filter]
    refine ⟨fun ⟨e, ⟨_, other⟩, same⟩ => by simp [same] at other, ?_⟩
    exact (sound.nodup.sublist (List.Sublist.map _ (List.filter_sublist _)))

theorem lookup_bound (sound : h.Sound) (found : h.lookup i = some c) : 0 < i ∧ i < h.nextNodeID ∧ c < h.allocated :=
  sound.entries _ (mem_of_lookup found)

theorem lookup_zero (sound : h.Sound) : h.lookup 0 = none :=
  lookup_eq_none fun e member => Nat.ne_of_gt (sound.entries e member).1

theorem lookup_of_mem (sound : h.Sound) (member : (i, c) ∈ h.nodeRelationships) : h.lookup i = some c := by
  obtain ⟨e, hit⟩ := Option.isSome_iff_exists.mp
    (List.find?_isSome.mpr ⟨_, member, beq_self_eq_true i⟩ : (h.nodeRelationships.find? fun e => e.1 == i).isSome)
  have same : e.1 = i := by simpa using List.find?_some hit
  have first := List.inj_on_of_nodup_map sound.nodup (List.mem_of_find?_eq_some hit) member same
  simp [lookup, hit, first]

theorem lookup_of_idOf (sound : h.Sound) (found : h.idOf q = some i) : h.lookup i = some q :=
  sound.lookup_of_mem (mem_of_idOf found)

theorem idOf_fresh (sound : h.Sound) (fresh : h.allocated ≤ q) : h.idOf q = none :=
  idOf_eq_none fun e member => Nat.ne_of_lt (Nat.lt_of_lt_of_le (sound.entries e member).2.2 fresh)

theorem alloc (sound : h.Sound) : (h.alloc n).1.Sound :=
  ⟨sound.positive, fun e member => by
    obtain ⟨positive, below, allocated⟩ := sound.entries e member
    exact ⟨positive, below, Nat.lt_succ_of_lt allocated⟩, sound.nodup⟩

theorem setNode (sound : h.Sound) : (h.setNode p n).Sound := ⟨sound.positive, sound.entries, sound.nodup⟩

theorem lookup_next (sound : h.Sound) : h.lookup h.nextNodeID = none :=
  lookup_eq_none fun e member => Nat.ne_of_lt (sound.entries e member).2.1

theorem idOf_bound (sound : h.Sound) (found : h.idOf q = some i) : 0 < i ∧ i < h.nextNodeID :=
  ⟨(sound.entries _ (mem_of_idOf found)).1, (sound.entries _ (mem_of_idOf found)).2.1⟩

/-- The map after `setChild` registers a new node under `nextNodeID`. -/
theorem bump (sound : h.Sound) (allocated : p < h.allocated) :
    ({ h with nextNodeID := h.nextNodeID + 1 }.register h.nextNodeID p).Sound :=
  Sound.register ⟨Nat.succ_pos _, fun e member => by
      obtain ⟨positive, below, inside⟩ := sound.entries e member
      exact ⟨positive, Nat.lt_succ_of_lt below, inside⟩, sound.nodup⟩
    sound.positive (Nat.lt_succ_self _) allocated

theorem fresh_next (sound : h.Sound) : ∀ e ∈ h.nodeRelationships, e.1 ≠ h.nextNodeID :=
  fun e member => Nat.ne_of_lt (sound.entries e member).2.1

theorem idOf_bump (sound : h.Sound) :
    ({ h with nextNodeID := h.nextNodeID + 1 }.register h.nextNodeID p).idOf q =
      if q = p then some h.nextNodeID else h.idOf q :=
  idOf_register sound.fresh_next

end Sound

theorem childID_of_idOf {x : Nat} (found : h.idOf c = some x) (positive : 0 < x) : h.childID (some c) = (h, x) := by
  simp [childID, found, Nat.ne_of_gt positive]

end Heap

/-- One tree's part of a heap `src` found again in a heap `dst`: the nodes it owns, the address
of each in `dst`, the id `dst` uses for each of its ids, and a rank below `bound` that falls from
a node to each of its children. -/
structure Renaming where
  owns : Ptr → Prop
  ptr : Ptr → Ptr
  id : Nat → Nat
  rank : Ptr → Nat
  bound : Nat

namespace Renaming

/-- What a renaming keeps: both maps are sound, the owned nodes are allocated on both sides with
their ranks below the bound, and `dst` holds each owned node with its child ids renamed; every
child id of an owned node is 0 or the id of an owned node of lower rank, which `dst` holds under
the renamed id; and `setChild`'s scan finds an owned node under the renamed id. -/
structure Holds (E : Renaming) (src dst : Heap) : Prop where
  src_sound : src.Sound
  dst_sound : dst.Sound
  allocated : src.allocated ≤ dst.allocated
  bound : E.bound ≤ src.allocated
  owned : ∀ {p}, E.owns p → p < src.allocated ∧ E.ptr p < dst.allocated ∧ E.rank p < E.bound
  injective : ∀ {p q}, E.owns p → E.owns q → E.ptr p = E.ptr q → p = q
  node : ∀ {p}, E.owns p → dst.node (E.ptr p) = (src.node p).rename E.id
  ranked : ∀ {p}, E.owns p → ∀ i ∈ (src.node p).pointers,
    i = 0 ∨ ∃ c, src.lookup i = some c ∧ E.owns c ∧ E.rank c < E.rank p
  lookup : ∀ {i c}, src.lookup i = some c → E.owns c → dst.lookup (E.id i) = some (E.ptr c)
  idOf : ∀ {p}, E.owns p → dst.idOf (E.ptr p) = (src.idOf p).map E.id
  zero : E.id 0 = 0

/-- `E'` extends `E` across a run that took `src` to `src'` and `dst` to `dst'`: what `E` owns
`E'` owns, at the same address and rank; old ids keep their renaming; what `E'` adds sits at new
addresses of `dst`; and `dst` changed only at `E`'s nodes and at new ids. -/
structure Le (E E' : Renaming) (src src' dst dst' : Heap) : Prop where
  owns : ∀ {p}, E.owns p → E'.owns p
  ptr : ∀ {p}, E.owns p → E'.ptr p = E.ptr p
  rank : ∀ {p}, E.owns p → E'.rank p = E.rank p
  id : ∀ {i}, i < src.nextNodeID → E'.id i = E.id i
  bound : E.bound ≤ E'.bound
  src_next : src.nextNodeID ≤ src'.nextNodeID
  dst_allocated : dst.allocated ≤ dst'.allocated
  dst_next : dst.nextNodeID ≤ dst'.nextNodeID
  fresh : ∀ {p}, E'.owns p → ¬ E.owns p → dst.allocated ≤ E'.ptr p
  frame_node : ∀ {q}, q < dst.allocated → (∀ p, E.owns p → E.ptr p ≠ q) → dst'.node q = dst.node q
  frame_lookup : ∀ {i}, i < dst.nextNodeID → dst'.lookup i = dst.lookup i
  frame_idOf : ∀ {q}, q < dst.allocated → (∀ p, E'.owns p → E'.ptr p ≠ q) → dst'.idOf q = dst.idOf q

variable {E E' E'' : Renaming} {src src' src'' dst dst' dst'' : Heap}

theorem Le.refl (E : Renaming) (src dst : Heap) : E.Le E src src dst dst :=
  ⟨fun owned => owned, fun _ => rfl, fun _ => rfl, fun _ => rfl, le_rfl, le_rfl, le_rfl, le_rfl, fun owned fresh => absurd owned fresh,
    fun _ _ => rfl, fun _ => rfl, fun _ _ => rfl⟩

theorem Le.trans (first : E.Le E' src src' dst dst') (second : E'.Le E'' src' src'' dst' dst'') :
    E.Le E'' src src'' dst dst'' where
  owns owned := second.owns (first.owns owned)
  ptr owned := (second.ptr (first.owns owned)).trans (first.ptr owned)
  rank owned := (second.rank (first.owns owned)).trans (first.rank owned)
  id below := (second.id (Nat.lt_of_lt_of_le below first.src_next)).trans (first.id below)
  bound := first.bound.trans second.bound
  src_next := first.src_next.trans second.src_next
  dst_allocated := first.dst_allocated.trans second.dst_allocated
  dst_next := first.dst_next.trans second.dst_next
  fresh {p} owned notOwned := by
    by_cases middle : E'.owns p
    · rw [second.ptr middle]; exact first.fresh middle notOwned
    · exact first.dst_allocated.trans (second.fresh owned middle)
  frame_node {q} below outside := by
    rw [second.frame_node (Nat.lt_of_lt_of_le below first.dst_allocated), first.frame_node below outside]
    intro p owned same
    by_cases old : E.owns p
    · exact outside p old ((first.ptr old).symm.trans same)
    · have := first.fresh owned old
      rw [same] at this
      omega
  frame_lookup below := by
    rw [second.frame_lookup (Nat.lt_of_lt_of_le below first.dst_next), first.frame_lookup below]
  frame_idOf {q} below outside := by
    rw [second.frame_idOf (Nat.lt_of_lt_of_le below first.dst_allocated) outside, first.frame_idOf below]
    intro p owned same
    exact outside p (second.owns owned) ((second.ptr owned).trans same)

/-- The same function of the tree run on `src` and on `dst`: both panic with one message, or
both return, `dst`'s result carried from `src`'s by `R` under an extension of `E`. -/
def Sim {α β : Type} (E : Renaming) (src dst : Heap) (R : Renaming → Heap → α → β → Prop) :
    Except String (Heap × α) → Except String (Heap × β) → Prop
  | .error e, .error e' => e = e'
  | .ok (src', a), .ok (dst', b) => ∃ E', E.Le E' src src' dst dst' ∧ E'.Holds src' dst' ∧ R E' src' a b
  | _, _ => False

section Sim

variable {α β γ δ : Type} {R : Renaming → Heap → α → β → Prop} {S : Renaming → Heap → γ → δ → Prop}
  {x : Except String (Heap × α)} {y : Except String (Heap × β)}

theorem Sim.weaken (le : E.Le E' src src' dst dst') (sim : E'.Sim src' dst' R x y) : E.Sim src dst R x y := by
  match x, y, sim with
  | .error _, .error _, same => exact same
  | .ok _, .ok _, ⟨E'', le', holds, related⟩ => exact ⟨E'', le.trans le', holds, related⟩

theorem Sim.mono {R' : Renaming → Heap → α → β → Prop} (sim : E.Sim src dst R x y)
    (imp : ∀ E' src' a b, R E' src' a b → R' E' src' a b) : E.Sim src dst R' x y := by
  match x, y, sim with
  | .error _, .error _, same => exact same
  | .ok _, .ok _, ⟨E', le, holds, related⟩ => exact ⟨E', le, holds, imp _ _ _ _ related⟩

theorem Sim.bind {f : Heap × α → Except String (Heap × γ)} {g : Heap × β → Except String (Heap × δ)}
    (first : E.Sim src dst R x y)
    (next : ∀ E' src' dst' a b, E.Le E' src src' dst dst' → E'.Holds src' dst' → R E' src' a b →
      E'.Sim src' dst' S (f (src', a)) (g (dst', b))) :
    E.Sim src dst S (x >>= f) (y >>= g) := by
  match x, y, first with
  | .error _, .error _, same => exact same
  | .ok (src', a), .ok (dst', b), ⟨E', le, holds, related⟩ => exact (next E' src' dst' a b le holds related).weaken le

theorem Sim.pure {a : α} {b : β} (holds : E.Holds src dst) (related : R E src a b) :
    E.Sim src dst R (.ok (src, a)) (.ok (dst, b)) :=
  ⟨E, Le.refl E src dst, holds, related⟩

/-- A loop over a list keeps `R` when every turn, started from states that `R` relates, does. -/
theorem Sim.foldlM {ι : Type} {f : Heap × α → ι → Except String (Heap × α)}
    {g : Heap × β → ι → Except String (Heap × β)}
    (turn : ∀ E' src' dst' a b i, E.Le E' src src' dst dst' → E'.Holds src' dst' → R E' src' a b →
      E'.Sim src' dst' R (f (src', a) i) (g (dst', b) i)) :
    ∀ (is : List ι) {E' : Renaming} {src' dst' : Heap} {a : α} {b : β}, E.Le E' src src' dst dst' →
      E'.Holds src' dst' → R E' src' a b → E'.Sim src' dst' R (is.foldlM f (src', a)) (is.foldlM g (dst', b))
  | [], _, _, _, _, _, _, holds, related => Sim.pure holds related
  | i :: is, _, _, _, _, _, le, holds, related => by
    simp only [List.foldlM_cons]
    exact (turn _ _ _ _ _ i le holds related).bind fun _ _ _ _ _ le' holds' related' =>
      Sim.foldlM turn is (le.trans le') holds' related'

end Sim

/-- `E` with one more node, at `p` in `src` and at `q` in `dst`, of rank `r`, under the bound `B`. -/
def adjoin (E : Renaming) (p q r B : Nat) : Renaming where
  owns x := E.owns x ∨ x = p
  ptr := Function.update E.ptr p q
  id := E.id
  rank := Function.update E.rank p r
  bound := B

section Adjoin

variable {p q r B x : Nat}

@[simp] theorem adjoin_owns : (E.adjoin p q r B).owns x ↔ E.owns x ∨ x = p := Iff.rfl
@[simp] theorem adjoin_ptr_self : (E.adjoin p q r B).ptr p = q := by simp [adjoin]
@[simp] theorem adjoin_rank_self : (E.adjoin p q r B).rank p = r := by simp [adjoin]
@[simp] theorem adjoin_id : (E.adjoin p q r B).id = E.id := rfl
@[simp] theorem adjoin_bound : (E.adjoin p q r B).bound = B := rfl
theorem adjoin_ptr_of_ne (other : x ≠ p) : (E.adjoin p q r B).ptr x = E.ptr x := by simp [adjoin, other]
theorem adjoin_rank_of_ne (other : x ≠ p) : (E.adjoin p q r B).rank x = E.rank x := by simp [adjoin, other]

end Adjoin

namespace Holds

variable {p q : Ptr}

theorem sound_lookup (holds : E.Holds src dst) {i c : Nat} (found : src.lookup i = some c) : c < src.allocated :=
  (holds.src_sound.lookup_bound found).2.2

/-- A new node in both heaps, its child ids renamed, whose children rank below `r`. -/
theorem alloc (holds : E.Holds src dst) {n : Node} {r B : Nat} (raised : E.bound ≤ B) (fits : B ≤ src.allocated + 1)
    (ranked : r < B) (children : ∀ i ∈ n.pointers, i = 0 ∨ ∃ c, src.lookup i = some c ∧ E.owns c ∧ E.rank c < r) :
    E.Le (E.adjoin src.allocated dst.allocated r B) src (src.alloc n).1 dst (dst.alloc (n.rename E.id)).1 ∧
      (E.adjoin src.allocated dst.allocated r B).Holds (src.alloc n).1 (dst.alloc (n.rename E.id)).1 := by
  have old : ∀ {x}, E.owns x → x ≠ src.allocated := fun owned => Nat.ne_of_lt (holds.owned owned).1
  have oldDst : ∀ {x}, E.owns x → E.ptr x ≠ dst.allocated := fun owned => Nat.ne_of_lt (holds.owned owned).2.1
  refine ⟨⟨Or.inl, fun owned => by simp [adjoin, old owned], fun owned => by simp [adjoin, old owned], fun _ => rfl,
    raised, le_rfl, by simp, le_rfl, ?_, fun below _ => by simp [Nat.ne_of_lt below], fun _ => rfl, fun _ _ => rfl⟩, ?_⟩
  · rintro x (owned | rfl) notOwned
    · exact absurd owned notOwned
    · simp [adjoin]
  refine ⟨holds.src_sound.alloc, holds.dst_sound.alloc, by simp [holds.allocated], fits, ?_, ?_, ?_, ?_, ?_, ?_,
    holds.zero⟩
  · rintro x (owned | rfl)
    · obtain ⟨inside, insideDst, rank⟩ := holds.owned owned
      simp [adjoin, old owned]
      exact ⟨Nat.lt_succ_of_lt inside, Nat.lt_succ_of_lt insideDst, Nat.lt_of_lt_of_le rank raised⟩
    · simp [adjoin, ranked]
  · rintro x y (owned | rfl) (owned' | rfl) same
    · rw [adjoin_ptr_of_ne (old owned), adjoin_ptr_of_ne (old owned')] at same
      exact holds.injective owned owned' same
    · rw [adjoin_ptr_of_ne (old owned), adjoin_ptr_self] at same
      exact absurd same (oldDst owned)
    · rw [adjoin_ptr_self, adjoin_ptr_of_ne (old owned')] at same
      exact absurd same.symm (oldDst owned')
    · rfl
  · rintro x (owned | rfl)
    · simp [adjoin, old owned, oldDst owned, holds.node owned]
    · simp [adjoin]
  · rintro x (owned | rfl) i member
    · simp only [Heap.alloc_node_of_ne (old owned)] at member
      rcases holds.ranked owned i member with zero | ⟨c, found, child, below⟩
      · exact .inl zero
      · refine .inr ⟨c, found, .inl child, ?_⟩
        simpa [adjoin, old child, old owned] using below
    · simp only [Heap.alloc_node_self] at member
      rcases children i member with zero | ⟨c, found, child, below⟩
      · exact .inl zero
      · exact .inr ⟨c, found, .inl child, by simpa [adjoin, old child] using below⟩
  · rintro i c found (owned | rfl)
    · simpa [adjoin, old owned] using holds.lookup found owned
    · exact absurd (holds.sound_lookup found) (lt_irrefl _)
  · rintro x (owned | rfl)
    · simpa [adjoin, old owned] using holds.idOf owned
    · simp [adjoin, holds.src_sound.idOf_fresh le_rfl, holds.dst_sound.idOf_fresh le_rfl]

theorem ptr_ne (holds : E.Holds src dst) (owned : E.owns p) (owned' : E.owns q) (other : p ≠ q) : E.ptr p ≠ E.ptr q :=
  fun same => other (holds.injective owned owned' same)

theorem ptr_inj (holds : E.Holds src dst) (owned : E.owns p) (owned' : E.owns q) : E.ptr p = E.ptr q ↔ p = q :=
  ⟨holds.injective owned owned', congrArg E.ptr⟩

/-- A node of `E` overwritten on both sides with children that rank below it. -/
theorem setNode (holds : E.Holds src dst) (owned : E.owns p) {n : Node}
    (children : ∀ i ∈ n.pointers, i = 0 ∨ ∃ c, src.lookup i = some c ∧ E.owns c ∧ E.rank c < E.rank p) :
    E.Le E src (src.setNode p n) dst (dst.setNode (E.ptr p) (n.rename E.id)) ∧
      E.Holds (src.setNode p n) (dst.setNode (E.ptr p) (n.rename E.id)) := by
  refine ⟨⟨fun owned => owned, fun _ => rfl, fun _ => rfl, fun _ => rfl, le_rfl, le_rfl, le_rfl, le_rfl,
    fun owned notOwned => absurd owned notOwned, fun _ outside => ?_, fun _ => rfl, fun _ _ => rfl⟩,
    ⟨holds.src_sound.setNode, holds.dst_sound.setNode, holds.allocated, holds.bound, holds.owned, holds.injective,
      fun {x} owned' => ?_, fun {x} owned' => ?_, holds.lookup, holds.idOf, holds.zero⟩⟩
  · exact Heap.setNode_node_of_ne (outside p owned).symm
  · by_cases same : x = p
    · subst same; simp
    · simp [same, holds.ptr_ne owned' owned same, holds.node owned']
  · by_cases same : x = p
    · subst same; simpa using children
    · simpa [same] using holds.ranked owned'

/-- Registering the next id of each side for an owned node `c`, with `src`'s next id renamed to
`dst`'s, keeps the heaps related. -/
theorem bump (holds : E.Holds src dst) (owner : E.owns c) :
    E.Le { E with id := Function.update E.id src.nextNodeID dst.nextNodeID } src
        ({ src with nextNodeID := src.nextNodeID + 1 }.register src.nextNodeID c) dst
        ({ dst with nextNodeID := dst.nextNodeID + 1 }.register dst.nextNodeID (E.ptr c)) ∧
      { E with id := Function.update E.id src.nextNodeID dst.nextNodeID }.Holds
        ({ src with nextNodeID := src.nextNodeID + 1 }.register src.nextNodeID c)
        ({ dst with nextNodeID := dst.nextNodeID + 1 }.register dst.nextNodeID (E.ptr c)) := by
  have oldId : ∀ {i c'}, src.lookup i = some c' → i ≠ src.nextNodeID :=
    fun found' => Nat.ne_of_lt (holds.src_sound.lookup_bound found').2.1
  have oldDstId : ∀ {i c'}, dst.lookup i = some c' → i ≠ dst.nextNodeID :=
    fun found' => Nat.ne_of_lt (holds.dst_sound.lookup_bound found').2.1
  have agree : ∀ {x}, E.owns x → (src.node x).rename (Function.update E.id src.nextNodeID dst.nextNodeID) =
      (src.node x).rename E.id := by
    intro x owned'
    refine Node.rename_congr fun i member => ?_
    rcases holds.ranked owned' i member with zero | ⟨c', found', -, -⟩
    · rw [zero, Function.update_noteq (Nat.ne_of_lt holds.src_sound.positive)]
    · exact Function.update_noteq (oldId found') _ _
  refine ⟨⟨fun owned => owned, fun _ => rfl, fun _ => rfl, fun below => Function.update_noteq (Nat.ne_of_lt below) _ _,
      le_rfl, Nat.le_succ _, le_rfl, Nat.le_succ _, fun owned notOwned => absurd owned notOwned, fun _ _ => rfl,
      fun {i} below => ?_, fun {q} _ outside => ?_⟩,
    ⟨holds.src_sound.bump (holds.owned owner).1, holds.dst_sound.bump (holds.owned owner).2.1, holds.allocated,
      holds.bound, holds.owned, holds.injective, fun owned' => (holds.node owned').trans (agree owned').symm,
      fun {x} owned' i member => ?_, fun {i c'} found' owned' => ?_, fun {x} owned' => ?_, ?_⟩⟩
  · simp [Heap.lookup_bump, Nat.ne_of_lt below]
  · rw [holds.dst_sound.idOf_bump, if_neg fun same => outside c owner same.symm]
  · rcases holds.ranked owned' i member with zero | ⟨c', found', child, below⟩
    · exact .inl zero
    · exact .inr ⟨c', by simp [Heap.lookup_bump, oldId found', found'], child, below⟩
  · rw [Heap.lookup_bump] at found'
    split_ifs at found' with fresh
    · cases found'
      subst fresh
      simp [Heap.lookup_bump]
    · have dstFound := holds.lookup found' owned'
      simp [Function.update_noteq fresh, Heap.lookup_bump, oldDstId dstFound, dstFound]
  · rw [holds.src_sound.idOf_bump, holds.dst_sound.idOf_bump]
    by_cases same : x = c
    · subst same; simp
    · rw [if_neg same, if_neg (holds.ptr_ne owned' owner same), holds.idOf owned']
      cases old : src.idOf x with
      | none => rfl
      | some i =>
        simp [Function.update_noteq (Nat.ne_of_lt (holds.src_sound.idOf_bound old).2)]
  · simp [Function.update_noteq (Nat.ne_of_lt holds.src_sound.positive), holds.zero]

/-- `childID` on both sides: the id `dst` stores is the renaming of the one `src` stores, under
a renaming that differs from `E` at most at the id it registers. -/
theorem childID (holds : E.Holds src dst) {child : Option Ptr} (owned : ∀ c, child = some c → E.owns c) :
    ∃ g : Nat → Nat, E.Le { E with id := g } src (src.childID child).1 dst (dst.childID (child.map E.ptr)).1 ∧
      { E with id := g }.Holds (src.childID child).1 (dst.childID (child.map E.ptr)).1 ∧
      (dst.childID (child.map E.ptr)).2 = g (src.childID child).2 ∧
      (∀ {i c}, src.lookup i = some c → (src.childID child).1.lookup i = some c) ∧
      (child = none → (src.childID child).2 = 0) ∧
      (∀ c, child = some c → (src.childID child).1.lookup (src.childID child).2 = some c) := by
  rcases child with _ | c
  · exact ⟨E.id, Le.refl E src dst, holds, holds.zero.symm, fun found => found, fun _ => rfl, nofun⟩
  have owner := owned c rfl
  cases found : src.idOf c with
  | some x =>
    have positive := (holds.src_sound.idOf_bound found).1
    have registered := holds.src_sound.lookup_of_idOf found
    have dstFound : dst.idOf (E.ptr c) = some (E.id x) := by simpa [found] using holds.idOf owner
    have dstPositive := (holds.dst_sound.idOf_bound dstFound).1
    simp only [Option.map_some', Heap.childID_of_idOf found positive, Heap.childID_of_idOf dstFound dstPositive]
    exact ⟨E.id, Le.refl E src dst, holds, rfl, fun found => found, nofun,
      fun _ same => Option.some.inj same ▸ registered⟩
  | none =>
    have dstFresh : dst.idOf (E.ptr c) = none := by simpa [found] using holds.idOf owner
    simp only [Option.map_some', Heap.childID_fresh found, Heap.childID_fresh dstFresh]
    obtain ⟨le, held⟩ := holds.bump owner
    refine ⟨_, le, held, by simp, fun {i c'} found' => ?_, nofun, fun _ same => ?_⟩
    · simp [Heap.lookup_bump, Nat.ne_of_lt (holds.src_sound.lookup_bound found').2.1, found']
    · cases same
      simp [Heap.lookup_bump]

/-- `setChild` on both sides, of nil or of a child that ranks below the node. -/
theorem setChild (holds : E.Holds src dst) (owned : E.owns p) (i : Nat) {child : Option Ptr}
    (below : ∀ c, child = some c → E.owns c ∧ E.rank c < E.rank p) :
    ∃ g : Nat → Nat, E.Le { E with id := g } src (src.setChild p i child) dst (dst.setChild (E.ptr p) i (child.map E.ptr)) ∧
      { E with id := g }.Holds (src.setChild p i child) (dst.setChild (E.ptr p) i (child.map E.ptr)) := by
  obtain ⟨g, le, held, renamed, kept, nilChild, someChild⟩ := holds.childID fun c same => (below c same).1
  have oldIds : ∀ y ∈ (src.node p).pointers, g y = E.id y := by
    intro y member
    refine le.id ?_
    rcases holds.ranked owned y member with zero | ⟨c, found, -, -⟩
    · rw [zero]; exact holds.src_sound.positive
    · exact (holds.src_sound.lookup_bound found).2.1
  have node : { dst.node (E.ptr p) with pointers :=
      (Heap.padPointers (dst.node (E.ptr p)).pointers i).set i (dst.childID (child.map E.ptr)).2 } =
      Node.rename g { src.node p with pointers := (Heap.padPointers (src.node p).pointers i).set i (src.childID child).2 } := by
    rw [holds.node owned, renamed, ← Node.rename_congr oldIds]
    simp [Node.rename, Heap.padPointers_map held.zero, List.map_set]
  obtain ⟨newNode, newNodeEq⟩ : ∃ n : Node, n =
      { src.node p with pointers := (Heap.padPointers (src.node p).pointers i).set i (src.childID child).2 } := ⟨_, rfl⟩
  rw [← newNodeEq] at node
  obtain ⟨le', held'⟩ := held.setNode owned (n := newNode) (by
    intro y member
    rw [newNodeEq] at member
    rcases Heap.mem_padPointers_set member with old | zero | new
    · rcases holds.ranked owned y old with zero | ⟨c, found, child', lower⟩
      · exact .inl zero
      · exact .inr ⟨c, kept found, child', lower⟩
    · exact .inl zero
    · rw [new]
      cases child with
      | none => exact .inl (nilChild rfl)
      | some c => exact .inr ⟨c, someChild c rfl, (below c rfl).1, (below c rfl).2⟩)
  refine ⟨g, ?_, ?_⟩
  · simpa only [Heap.setChild, node, newNodeEq, Heap.childID_node] using le.trans le'
  · simpa only [Heap.setChild, node, newNodeEq, Heap.childID_node] using held'

/-- `getChild` on both sides: nil past the pointers, the owned child an id names, or a fresh
leaf for the id 0. The child ranks below the node unless it is that fresh leaf. -/
theorem getChild (holds : E.Holds src dst) (owned : E.owns p) (i : Nat) :
    ∃ E', E.Le E' src (src.getChild p i).1 dst (dst.getChild (E.ptr p) i).1 ∧
      E'.Holds (src.getChild p i).1 (dst.getChild (E.ptr p) i).1 ∧
      (dst.getChild (E.ptr p) i).2 = (src.getChild p i).2.map E'.ptr ∧ E'.bound = E.bound ∧
      ∀ c, (src.getChild p i).2 = some c → E'.owns c ∧
        (E.owns c ∧ E.rank c < E.rank p ∨ ¬ E.owns c ∧ ((src.getChild p i).1.node c).typ = bnodeLeaf) := by
  have slot : (dst.node (E.ptr p)).pointers[i]? = (src.node p).pointers[i]?.map E.id := by
    simp [holds.node owned]
  unfold Heap.getChild
  rw [slot]
  cases atSlot : (src.node p).pointers[i]? with
  | none => exact ⟨E, Le.refl E src dst, holds, rfl, rfl, nofun⟩
  | some id =>
    rcases holds.ranked owned id (List.getElem?_mem atSlot) with zero | ⟨c, found, child, lower⟩
    · subst zero
      have ranked := (holds.owned owned).2.2
      obtain ⟨le, held⟩ := holds.alloc (n := Node.new bnodeLeaf) le_rfl (Nat.le_succ_of_le holds.bound)
        (Nat.lt_of_le_of_lt (Nat.zero_le _) ranked) (by simp [Node.new])
      simp only [Option.map_some', holds.zero, holds.src_sound.lookup_zero, holds.dst_sound.lookup_zero,
        Nat.lt_irrefl, if_false]
      refine ⟨_, le, held, by simp [adjoin], rfl, ?_⟩
      rintro c same
      cases Option.some.inj same
      exact ⟨.inr rfl, .inr ⟨fun owned' => Nat.lt_irrefl _ (holds.owned owned').1, by simp [Node.new]⟩⟩
    · simp only [Option.map_some', found, holds.lookup found child]
      exact ⟨E, Le.refl E src dst, holds, rfl, rfl, fun c' same => by cases same; exact ⟨child, .inl ⟨child, lower⟩⟩⟩

/-- `Split` of an owned node on both sides: the right half is a new node of the same rank. -/
theorem split (holds : E.Holds src dst) (owned : E.owns p) :
    E.Sim src dst (fun E' _ a b => b = (a.1.map E'.ptr, a.2) ∧ E'.bound = E.bound ∧
      ∀ r, a.1 = some r → E'.owns r ∧ E'.rank r = E.rank p) (src.split p) (dst.split (E.ptr p)) := by
  unfold Heap.split
  rw [holds.node owned, Node.split_rename, except_bind_map]
  cases halves : (src.node p).split with
  | error e => rfl
  | ok result =>
    rcases result with _ | ⟨l, r, k⟩
    · exact Sim.pure holds ⟨rfl, rfl, nofun⟩
    obtain ⟨fromLeft, fromRight⟩ := Node.split_pointers halves
    have old : p ≠ src.allocated := Nat.ne_of_lt (holds.owned owned).1
    obtain ⟨le, held⟩ := holds.alloc (n := r) le_rfl (Nat.le_succ_of_le holds.bound) (holds.owned owned).2.2
      fun i member => holds.ranked owned i (fromRight i member)
    obtain ⟨le', held'⟩ := held.setNode (p := p) (.inl owned) (n := l) fun i member => by
      rcases holds.ranked owned i (fromLeft i member) with zero | ⟨c, found, child, lower⟩
      · exact .inl zero
      · refine .inr ⟨c, found, .inl child, ?_⟩
        simpa [adjoin, Nat.ne_of_lt (holds.owned child).1, old] using lower
    have samePtr : (E.adjoin src.allocated dst.allocated (E.rank p) E.bound).ptr p = E.ptr p := by simp [adjoin, old]
    rw [samePtr] at le' held'
    refine ⟨_, le.trans le', held', by simp [adjoin], rfl, ?_⟩
    rintro c same
    cases Option.some.inj same
    exact ⟨.inr rfl, by simp [adjoin]⟩

/-- `children` on both sides: the lists of children agree under the renaming, and every child is
owned. -/
theorem children (holds : E.Holds src dst) (owned : E.owns p) :
    ∃ E', E.Le E' src (src.children p).1 dst (dst.children (E.ptr p)).1 ∧
      E'.Holds (src.children p).1 (dst.children (E.ptr p)).1 ∧
      (dst.children (E.ptr p)).2 = (src.children p).2.map (Option.map E'.ptr) ∧ E'.bound = E.bound ∧
      ∀ c, some c ∈ (src.children p).2 → E'.owns c := by
  unfold Heap.children
  rw [holds.node owned, Node.rename_pointers, List.length_map]
  suffices turns : ∀ (is : List Nat) (E₀ : Renaming) (src₀ dst₀ : Heap) (acc : List (Option Ptr)),
      E.Le E₀ src src₀ dst dst₀ → E₀.Holds src₀ dst₀ → E₀.bound = E.bound → (∀ c, some c ∈ acc → E₀.owns c) →
      let s := is.foldl (fun (acc : Heap × List (Option Ptr)) i =>
        ((acc.1.getChild p i).1, acc.2 ++ [(acc.1.getChild p i).2])) (src₀, acc)
      let d := is.foldl (fun (acc : Heap × List (Option Ptr)) i =>
        ((acc.1.getChild (E.ptr p) i).1, acc.2 ++ [(acc.1.getChild (E.ptr p) i).2])) (dst₀, acc.map (Option.map E₀.ptr))
      ∃ E', E.Le E' src s.1 dst d.1 ∧ E'.Holds s.1 d.1 ∧ d.2 = s.2.map (Option.map E'.ptr) ∧ E'.bound = E.bound ∧
        ∀ c, some c ∈ s.2 → E'.owns c from
    turns _ E src dst [] (Le.refl E src dst) holds rfl nofun
  intro is
  induction is with
  | nil => exact fun E₀ src₀ dst₀ acc le held bound ownsAcc => ⟨E₀, le, held, rfl, bound, ownsAcc⟩
  | cons i rest ih =>
    intro E₀ src₀ dst₀ acc le held bound ownsAcc
    obtain ⟨E₁, le₁, held₁, child, bound₁, childOwned⟩ := held.getChild (le.owns owned) i
    rw [le.ptr owned] at le₁ held₁ child
    simp only [List.foldl_cons]
    have same : (acc.map (Option.map E₀.ptr)) ++ [(dst₀.getChild (E.ptr p) i).2] =
        (acc ++ [(src₀.getChild p i).2]).map (Option.map E₁.ptr) := by
      rw [child, List.map_append, List.map_singleton]
      congr 1
      refine List.map_congr_left fun c member => ?_
      rcases c with _ | c
      · rfl
      · simp [le₁.ptr (ownsAcc c member)]
    rw [same]
    refine ih E₁ _ _ _ (le.trans le₁) held₁ (bound₁.trans bound) fun c member => ?_
    rcases List.mem_append.mp member with old | new
    · exact le₁.owns (ownsAcc c old)
    · exact (childOwned c (List.mem_singleton.mp new).symm).1

end Holds

end Renaming

end GoDatabase
