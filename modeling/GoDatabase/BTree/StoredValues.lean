import GoDatabase.BTree.PageLayout
import GoDatabase.BTree.LeafMap
import GoDatabase.BTree.Renaming

namespace GoDatabase

/-- What a leaf's entries weigh in its page image: two bytes of offset, four of header, the key
and the value, for each. -/
def weight (es : List (Bytes × Bytes)) : Nat := (es.map fun e => 6 + e.1.length + e.2.length).sum

/-- The most a leaf of `k` entries weighs along any run. A leaf that is not full weighs at most
4091. A split can leave a half over the page, but a half has at most half the entries, and one
entry within the limits weighs at most 4006, so the cap drops by one entry's weight each time the
count doubles. -/
def leafCap (k : Nat) : Nat := 4091 + 4006 * (9 - Nat.log 2 (k - 2))

section Weight

variable {es xs ys : List (Bytes × Bytes)}

@[simp] theorem weight_nil : weight [] = 0 := rfl

@[simp] theorem weight_cons (e : Bytes × Bytes) : weight (e :: es) = 6 + e.1.length + e.2.length + weight es := by
  simp [weight]

@[simp] theorem weight_append : weight (xs ++ ys) = weight xs + weight ys := by simp [weight]

theorem six_mul_length_le_weight (es : List (Bytes × Bytes)) : 6 * es.length ≤ weight es := by
  induction es with
  | nil => rfl
  | cons e es ih => simp only [weight_cons, List.length_cons]; omega

theorem weight_le_of_limits (limits : ∀ e ∈ es, e.1.length ≤ btreeMaxKeySize ∧ e.2.length ≤ btreeMaxValSize) :
    weight es ≤ 4006 * es.length := by
  induction es with
  | nil => rfl
  | cons e es ih =>
    have first := limits e (List.mem_cons_self e es)
    simp only [btreeMaxKeySize, btreeMaxValSize] at first
    simp only [weight_cons, List.length_cons]
    have := ih fun e' member => limits e' (List.mem_cons_of_mem e member)
    omega

theorem offsets_add_pageData_eq_weight (es : List (Bytes × Bytes)) : 2 * es.length + (pageData es).length = weight es := by
  induction es with
  | nil => rfl
  | cons e es ih => simp only [pageData_cons, List.length_append, length_encodeEntry, entrySize, weight_cons,
      List.length_cons]; omega

theorem weight_sublist (sub : xs.Sublist ys) : weight xs ≤ weight ys := by
  induction sub with
  | slnil => rfl
  | cons _ _ ih => simp only [weight_cons]; omega
  | cons₂ _ _ ih => simp only [weight_cons]; omega

theorem weight_insert (pos : Nat) (e : Bytes × Bytes) :
    weight (es.take pos ++ e :: es.drop pos) = 6 + e.1.length + e.2.length + weight es := by
  conv_rhs => rw [← List.take_append_drop pos es]
  simp only [weight_append, weight_cons]; omega

end Weight

section Cap

variable {k k' b : Nat}

theorem leafCap_anti (le : k ≤ k') : leafCap k' ≤ leafCap k := by
  have := Nat.log_mono_right (b := 2) (show k - 2 ≤ k' - 2 by omega)
  unfold leafCap
  omega

theorem leafCap_le : leafCap k ≤ 40145 := by unfold leafCap; omega

theorem leafCap_ge : 4091 ≤ leafCap k := by unfold leafCap; omega

theorem leafCap_small (small : k ≤ 3) : leafCap k = 40145 := by
  rw [leafCap, Nat.log_of_lt (show k - 2 < 2 by omega)]

theorem leafCap_large (large : 514 ≤ k) : leafCap k = 4091 := by
  have : 9 ≤ Nat.log 2 (k - 2) := (Nat.pow_le_iff_le_log (by decide) (by omega)).mp (by
    show 512 ≤ k - 2; omega)
  unfold leafCap
  omega

/-- Doubling the count from `b` drops the cap by one entry's weight. -/
theorem leafCap_double (four : 4 ≤ b) (below : b ≤ 341) (twice : 2 * b - 2 ≤ k) : leafCap k + 4006 ≤ leafCap b := by
  have doubled : Nat.log 2 ((b - 2) * 2) = Nat.log 2 (b - 2) + 1 := Nat.log_mul_base (by decide) (by omega)
  have mono := Nat.log_mono_right (b := 2) (show (b - 2) * 2 ≤ k - 2 by omega)
  have small : Nat.log 2 (b - 2) < 9 := Nat.log_lt_of_lt_pow (by omega) (show b - 2 < 2 ^ 9 by omega)
  unfold leafCap
  omega

/-- A leaf at most one entry over any cap fits the 16-bit offsets of its page. -/
theorem pageData_lt_of_heavy {es : List (Bytes × Bytes)} (heavy : weight es ≤ leafCap k + 4006) :
    (pageData es).length < 65536 := by
  have := offsets_add_pageData_eq_weight es; have := leafCap_le (k := k)
  omega

/-- A leaf under its cap has at most 681 entries. -/
theorem length_le_of_light {es : List (Bytes × Bytes)} (light : weight es ≤ leafCap es.length) : es.length ≤ 681 := by
  have six := six_mul_length_le_weight es
  by_cases large : 514 ≤ es.length
  · rw [leafCap_large large] at light; omega
  · omega

/-- The halves of a full leaf, split after an insertion, are under their caps: each half weighs at
most the whole and at most 4006 per entry. -/
theorem half_light {es half : List (Bytes × Bytes)} (light : weight es ≤ leafCap (es.length - 1) + 4006)
    (fewer : es.length - 1 ≤ 681) (count : 2 * half.length ≤ es.length + 1)
    (part : weight half ≤ weight es) (perEntry : weight half ≤ 4006 * half.length) :
    weight half ≤ leafCap half.length := by
  by_cases small : half.length ≤ 3
  · rw [leafCap_small small]; omega
  · have := leafCap_double (b := half.length) (k := es.length - 1) (by omega) (by omega) (by omega)
    omega

end Cap

/-- A leaf's page along a run: it lays out entries in strictly increasing key order, each
inserted within the key and value limits, it weighs no more than the cap for their count, and it
has no child pointers. -/
structure LeafHolds (hist : List (Bytes × Bytes)) (n : Node) (es : List (Bytes × Bytes)) : Prop where
  lays : n.Lays es
  light : weight es ≤ leafCap es.length
  inserted : ∀ e ∈ es, e ∈ hist ∧ e.1.length ≤ btreeMaxKeySize ∧ e.2.length ≤ btreeMaxValSize
  increasing : Increasing (es.map Prod.fst)
  bare : n.pointers = []

/-- A leaf under its cap fits its page, so its reads succeed. -/
theorem LeafHolds.fits {hist : List (Bytes × Bytes)} {n : Node} {es : List (Bytes × Bytes)} (holds : LeafHolds hist n es) :
    (pageData es).length < 65536 :=
  pageData_lt_of_heavy (holds.light.trans (Nat.le_add_right _ _))

/-- A node holds only inserted values: a leaf's page is as `LeafHolds` says; other nodes are free. -/
def Node.Stores (hist : List (Bytes × Bytes)) (n : Node) : Prop := n.typ = bnodeLeaf → ∃ es, LeafHolds hist n es

namespace Heap

/-- The invariant of a heap along every run of the tree: the map holds only allocated nodes, and
every node holds only inserted values. -/
structure Stores (hist : List (Bytes × Bytes)) (h : Heap) : Prop where
  registered : ∀ e ∈ h.nodeRelationships, e.2 < h.allocated
  nodes : ∀ p, (h.node p).Stores hist

/-- `h'` comes after `h`: no fewer allocated nodes, and the allocated ones unchanged. The lookups
of the tree only allocate, so they move the heap this way. -/
structure Grows (h h' : Heap) : Prop where
  allocated : h.allocated ≤ h'.allocated
  node : ∀ {q}, q < h.allocated → h'.node q = h.node q

theorem Grows.refl (h : Heap) : h.Grows h := ⟨le_rfl, fun _ => rfl⟩

theorem Grows.trans {h h' h'' : Heap} (first : h.Grows h') (second : h'.Grows h'') : h.Grows h'' :=
  ⟨first.allocated.trans second.allocated, fun below => (second.node (Nat.lt_of_lt_of_le below first.allocated)).trans
    (first.node below)⟩

end Heap

/-- A heap computation keeps `P`: when it returns, its heap and result satisfy `P`. A panic ends
the program, and there is nothing after it to keep. -/
def Keeps {α : Type} (P : Heap → α → Prop) : Except String (Heap × α) → Prop
  | .ok (h, a) => P h a
  | .error _ => True

namespace Keeps

variable {α β ι : Type} {P : Heap → α → Prop} {Q : Heap → β → Prop} {x : Except String (Heap × α)}

theorem mono {P' : Heap → α → Prop} (keeps : Keeps P x) (imp : ∀ h a, P h a → P' h a) : Keeps P' x := by
  rcases x with e | ⟨h, a⟩
  · trivial
  · exact imp h a keeps

theorem bind {f : Heap × α → Except String (Heap × β)} (first : Keeps P x) (next : ∀ h a, P h a → Keeps Q (f (h, a))) :
    Keeps Q (x >>= f) := by
  rcases x with e | ⟨h, a⟩
  · trivial
  · exact next h a first

theorem foldlM {f : Heap × α → ι → Except String (Heap × α)} (turn : ∀ h a i, P h a → Keeps P (f (h, a) i)) :
    ∀ (is : List ι) {h : Heap} {a : α}, P h a → Keeps P (is.foldlM f (h, a))
  | [], _, _, holds => holds
  | i :: is, _, _, holds => by
    simp only [List.foldlM_cons]
    exact (turn _ _ i holds).bind fun _ _ held => foldlM turn is held

theorem map {f : Heap × α → Heap × β} (keeps : Keeps P x) (step : ∀ h a, P h a → Q (f (h, a)).1 (f (h, a)).2) :
    Keeps Q (x.map f) := by
  rcases x with e | ⟨h, a⟩
  · trivial
  · exact step h a keeps

/-- A step that returns only a heap, such as `rebalance`, followed by the rest of the call. -/
theorem bindHeap {R : Heap → Prop} {y : Except String Heap} {f : Heap → Except String (Heap × β)}
    (first : Keeps (fun h (_ : Unit) => R h) (y.map (·, ()))) (next : ∀ h, R h → Keeps Q (f h)) :
    Keeps Q (y >>= f) := by
  rcases y with e | h
  · trivial
  · exact next h first

end Keeps

namespace Heap

variable {hist : List (Bytes × Bytes)} {h : Heap} {n : Node} {p : Ptr}

theorem Stores.mono {hist' : List (Bytes × Bytes)} (stores : h.Stores hist) (more : ∀ e ∈ hist, e ∈ hist') :
    h.Stores hist' := by
  refine ⟨stores.registered, fun q leaf => ?_⟩
  obtain ⟨es, holds⟩ := stores.nodes q leaf
  exact ⟨es, { holds with inserted := fun e member => (holds.inserted e member).imp_left (more e) }⟩

theorem new_stores (typ : Nat) : (Node.new typ).Stores hist := fun _ =>
  ⟨[], ⟨rfl, rfl, rfl, nofun⟩, Nat.zero_le _, nofun, List.Pairwise.nil, rfl⟩

theorem Stores.alloc (stores : h.Stores hist) (stored : n.Stores hist) : (h.alloc n).1.Stores hist := by
  refine ⟨fun e member => Nat.lt_succ_of_lt (stores.registered e member), fun q => ?_⟩
  by_cases here : q = h.allocated
  · subst here; rw [alloc_node_self]; exact stored
  · rw [alloc_node_of_ne here]; exact stores.nodes q

theorem Stores.setNode (stores : h.Stores hist) (stored : n.Stores hist) : (h.setNode p n).Stores hist := by
  refine ⟨stores.registered, fun q => ?_⟩
  by_cases here : q = p
  · subst here; rw [setNode_node_self]; exact stored
  · rw [setNode_node_of_ne here]; exact stores.nodes q

theorem Stores.register (stores : h.Stores hist) {i : Nat} (allocated : p < h.allocated) : (h.register i p).Stores hist :=
  ⟨fun e member => by
    rcases List.mem_cons.mp member with rfl | member
    · exact allocated
    · exact stores.registered e (List.mem_of_mem_filter member), stores.nodes⟩

@[simp] theorem register_node {i : Nat} : (h.register i p).node = h.node := rfl

@[simp] theorem register_allocated {i : Nat} : (h.register i p).allocated = h.allocated := rfl

theorem getChild_fresh {i id : Nat} (slot : (h.node p).pointers[i]? = some id) (missing : h.lookup id = none) :
    h.getChild p i =
      (if 0 < id then (h.alloc (Node.new bnodeLeaf)).1.register id h.allocated else (h.alloc (Node.new bnodeLeaf)).1,
        some h.allocated) := by
  simp only [getChild, slot, missing]
  rfl

/-- A lookup of a child: a registered node, or a fresh empty leaf. The invariant stays, the heap
only grows, and the child it returns is allocated. -/
theorem Stores.getChild (stores : h.Stores hist) (i : Nat) :
    (h.getChild p i).1.Stores hist ∧ h.Grows (h.getChild p i).1 ∧
      ∀ c, (h.getChild p i).2 = some c → c < (h.getChild p i).1.allocated := by
  rcases slot : (h.node p).pointers[i]? with _ | id
  · rw [getChild_beyond (List.getElem?_eq_none_iff.mp slot)]
    exact ⟨stores, .refl h, nofun⟩
  rcases found : h.lookup id with _ | c
  · have fresh := stores.alloc (new_stores bnodeLeaf : (Node.new bnodeLeaf).Stores hist)
    rw [getChild_fresh slot found]
    refine ⟨?_, ?_, fun c same => ?_⟩
    · split
      · exact fresh.register (by simp)
      · exact fresh
    · split <;> exact ⟨Nat.le_succ _, fun below => alloc_node_of_ne (Nat.ne_of_lt below)⟩
    · cases Option.some.inj same
      split <;> simp
  · rw [getChild_registered slot found]
    exact ⟨stores, .refl h, fun c' same => Option.some.inj same ▸ stores.registered _ (mem_of_lookup found)⟩

/-- `setChild` of a node that is not a leaf stores an id in a slot: no page changes, and a child
it registers is allocated. -/
theorem Stores.setChild (stores : h.Stores hist) (internal : (h.node p).typ ≠ bnodeLeaf) (i : Nat)
    {child : Option Ptr} (allocated : ∀ c, child = some c → c < h.allocated) : (h.setChild p i child).Stores hist := by
  have registered : (h.childID child).1.Stores hist := by
    rcases child with _ | c
    · exact stores
    · have bumped : ({ h with nextNodeID := h.nextNodeID + 1 }.register h.nextNodeID c).Stores hist :=
        Stores.register (h := { h with nextNodeID := h.nextNodeID + 1 }) ⟨stores.registered, stores.nodes⟩
          (allocated c rfl)
      simp only [childID, Option.some_bind]
      split
      · exact bumped
      · exact stores
  refine ⟨fun e member => ?_, fun q => ?_⟩
  · rw [setChild_nodeRelationships] at member
    rw [setChild_allocated]
    simpa using registered.registered e member
  · by_cases here : q = p
    · subst here
      rw [setChild_node_self]
      exact fun leaf => absurd leaf internal
    · rw [setChild_node_of_ne here]
      exact stores.nodes q

/-- `children`: the lookups of every slot keep the invariant and only grow the heap. -/
theorem Stores.children (stores : h.Stores hist) : (h.children p).1.Stores hist ∧ h.Grows (h.children p).1 := by
  unfold Heap.children
  suffices loop : ∀ (is : List Nat) (acc : Heap × List (Option Ptr)), acc.1.Stores hist → h.Grows acc.1 →
      (is.foldl (fun (acc : Heap × List (Option Ptr)) i =>
        let (h, child) := acc.1.getChild p i
        (h, acc.2 ++ [child])) acc).1.Stores hist ∧
      h.Grows (is.foldl (fun (acc : Heap × List (Option Ptr)) i =>
        let (h, child) := acc.1.getChild p i
        (h, acc.2 ++ [child])) acc).1 from loop _ _ stores (.refl h)
  intro is
  induction is with
  | nil => exact fun _ stored grown => ⟨stored, grown⟩
  | cons i is ih =>
    intro acc stored grown
    obtain ⟨stored', grown', -⟩ := stored.getChild (p := p) i
    exact ih _ stored' (grown.trans grown')

end Heap

namespace Node

variable {hist : List (Bytes × Bytes)} {n n' l r : Node}

theorem insertKV_typ {pos : Nat} {key value : Bytes} (inserted : n.insertKV pos key value = .ok n') : n'.typ = n.typ := by
  have kept : (n.insertKV pos key value).map typ = (n.insertKV pos key value).map fun _ => n.typ := by
    simp only [insertKV, except_map_bind, apply_ite (Except.map _), except_throw, except_map_error, except_pure,
      except_map_ok]
  simpa [inserted] using kept

theorem split_typ {k : Bytes} (split : n.split = .ok (some (l, r, k))) : l.typ = n.typ ∧ r.typ = n.typ := by
  unfold Node.split at split
  dsimp only at split
  split_ifs at split
  · cases split
  all_goals simp only [except_bind_eq_ok, except_pure, Except.ok.injEq, Option.some.injEq, Prod.mk.injEq] at split
  · obtain ⟨-, -, -, -, -, -, _, rfl, -, -, -, -, -, -, -, -, -, -, -, -, rfl, rfl, -⟩ := split
    exact ⟨rfl, rfl⟩
  · obtain ⟨-, -, _, rfl, -, -, -, -, -, -, -, -, -, -, -, -, rfl, rfl, -⟩ := split
    exact ⟨rfl, rfl⟩

theorem stores_of_ne_leaf (internal : n.typ ≠ bnodeLeaf) : n.Stores hist := fun leaf => absurd leaf internal

end Node

/-- A leaf just after `insertInLeaf` added an entry: laid out, its entries inserted within the
limits, and at most one entry's weight over the cap of the leaf it was. -/
structure LeafGrown (hist : List (Bytes × Bytes)) (n : Node) (es : List (Bytes × Bytes)) : Prop where
  lays : n.Lays es
  heavy : weight es ≤ leafCap (es.length - 1) + 4006
  few : es.length ≤ 682
  inserted : ∀ e ∈ es, e ∈ hist ∧ e.1.length ≤ btreeMaxKeySize ∧ e.2.length ≤ btreeMaxValSize
  increasing : Increasing (es.map Prod.fst)
  bare : n.pointers = []

/-- A grown leaf back under the cap for its count holds again. -/
theorem LeafGrown.holds {hist es : List (Bytes × Bytes)} {n : Node} (grown : LeafGrown hist n es)
    (light : weight es ≤ leafCap es.length) : LeafHolds hist n es :=
  ⟨grown.lays, light, grown.inserted, grown.increasing, grown.bare⟩

namespace Heap

variable {hist : List (Bytes × Bytes)} {h : Heap} {p : Ptr}

/-- The invariant but at one leaf, which an insertion has just grown. -/
structure StoresAround (hist : List (Bytes × Bytes)) (h : Heap) (p : Ptr) : Prop where
  registered : ∀ e ∈ h.nodeRelationships, e.2 < h.allocated
  others : ∀ q, q ≠ p → (h.node q).Stores hist
  leaf : (h.node p).typ = bnodeLeaf
  grown : ∃ es, LeafGrown hist (h.node p) es

/-- A grown leaf that is not full is under its cap again. -/
theorem StoresAround.stores (around : h.StoresAround hist p) (notFull : (h.node p).isFull = false) : h.Stores hist := by
  refine ⟨around.registered, fun q => ?_⟩
  by_cases here : q = p
  · subst here
    obtain ⟨es, grown⟩ := around.grown
    have size : (h.node q).size < 4096 := by simpa [Node.isFull, btreePageSize] using notFull
    have total := offsets_add_pageData_eq_weight es
    simp only [Node.size, grown.lays.offsets, grown.lays.data, length_pageOffsets] at size
    exact fun _ => ⟨es, grown.holds (le_trans (by omega) leafCap_ge)⟩
  · exact around.others q here

/-- `Split` of a node that is not a leaf keeps the invariant: both halves are of its type. -/
theorem Stores.split_internal (stores : h.Stores hist) (internal : (h.node p).typ ≠ bnodeLeaf) :
    Keeps (fun h' r => h'.Stores hist ∧ h.allocated ≤ h'.allocated ∧ ∀ c, r.1 = some c → c < h'.allocated)
      (h.split p) := by
  unfold Heap.split
  cases split : (h.node p).split with
  | error e => trivial
  | ok result =>
    rcases result with _ | ⟨l, r, k⟩
    · exact ⟨stores, le_rfl, nofun⟩
    · obtain ⟨left, right⟩ := Node.split_typ split
      refine ⟨(stores.alloc (Node.stores_of_ne_leaf (right ▸ internal))).setNode
        (Node.stores_of_ne_leaf (left ▸ internal)), Nat.le_succ _, fun c same => ?_⟩
      cases Option.some.inj same
      simp

/-- `Split` of a grown leaf: each half has at most half the entries and is under its cap. -/
theorem StoresAround.split (around : h.StoresAround hist p) :
    Keeps (fun h' r => h'.Stores hist ∧ h.allocated ≤ h'.allocated ∧ ∀ c, r.1 = some c → c < h'.allocated)
      (h.split p) := by
  obtain ⟨es, grown⟩ := around.grown
  have fits : (pageData es).length < 65536 := pageData_lt_of_heavy grown.heavy
  have limits := fun e member => (grown.inserted e member).2
  have holds : ∀ {half : List (Bytes × Bytes)}, 2 * half.length ≤ es.length + 1 → half.Sublist es →
      LeafHolds hist (Node.ofEntries bnodeLeaf [] half) half :=
    fun count sub => ⟨Node.lays_ofEntries fun e member => (grown.lays.short e (sub.subset member)),
      half_light grown.heavy (by have := grown.few; omega) count (weight_sublist sub)
        (weight_le_of_limits fun e member => limits e (sub.subset member)),
      fun e member => grown.inserted e (sub.subset member), grown.increasing.sublist (sub.map Prod.fst), rfl⟩
  by_cases two : 2 ≤ es.length
  · have node := grown.lays.eq_ofEntries
    rw [around.leaf, grown.bare] at node
    have splitNode : (Node.ofEntries bnodeLeaf [] es).split = _ :=
      Node.split_ofEntries two fits fun same => absurd same (by decide)
    simp only [show ¬bnodeLeaf = bnodeNode by decide, if_false] at splitNode
    unfold Heap.split
    rw [node, splitNode]
    refine ⟨⟨fun e member => Nat.lt_succ_of_lt (around.registered e member), fun q => ?_⟩, Nat.le_succ _,
      fun c same => ?_⟩
    · by_cases here : q = p
      · subst here
        rw [setNode_node_self]
        exact fun _ => ⟨_, holds (by simp; omega) (List.take_sublist _ _)⟩
      · rw [setNode_node_of_ne here]
        by_cases fresh : q = h.allocated
        · subst fresh
          simp only [Function.update_same]
          exact fun _ => ⟨_, holds (by simp; omega) (List.drop_sublist _ _)⟩
        · simp only [Function.update_noteq fresh]
          exact around.others q here
    · cases Option.some.inj same
      simp
  · have none : (h.node p).split = .ok none := by
      rw [Node.split, grown.lays.nkeys, if_pos (by omega)]; rfl
    rw [Heap.split, none]
    refine ⟨⟨around.registered, fun q => ?_⟩, le_rfl, nofun⟩
    by_cases here : q = p
    · subst here
      have light := weight_le_of_limits limits
      exact fun _ => ⟨es, grown.holds (le_trans (by omega) leafCap_ge)⟩
    · exact around.others q here

end Heap

/-- The pair a call hands to `Insert`, if any. -/
def Call.pairs : Call → List (Bytes × Bytes)
  | .insert key value => [(key, value)]
  | _ => []

theorem Call.insert_of_mem_pairs {cs : List Call} {e : Bytes × Bytes} (member : e ∈ cs.flatMap Call.pairs ++ []) :
    Call.insert e.1 e.2 ∈ cs := by
  obtain ⟨c, called, pair⟩ := List.mem_flatMap.mp (by simpa using member)
  cases c <;> simp only [Call.pairs, List.mem_singleton, List.not_mem_nil] at pair
  exact pair ▸ called

namespace BTree

variable {hist : List (Bytes × Bytes)} {key : Bytes}

/-- `findLeaf` keeps the invariant, only grows the heap, and ends at an allocated leaf. -/
theorem Stores.findLeaf (key : Bytes) : ∀ (fuel : Nat) {h : Heap} {node : Option Ptr}, h.Stores hist →
    (∀ p, node = some p → p < h.allocated) →
    Keeps (fun h' leaf => h'.Stores hist ∧ h.Grows h' ∧ (h'.node leaf).typ = bnodeLeaf ∧ leaf < h'.allocated)
      (findLeaf h node key fuel)
  | 0, _, _, _, _ => trivial
  | fuel + 1, h, node, stores, allocated => by
    rcases node with _ | p
    · trivial
    by_cases leaf : (h.node p).typ = bnodeLeaf
    · rw [findLeaf_leaf leaf]
      exact ⟨stores, .refl h, leaf, allocated p rfl⟩
    cases read : (h.node p).keys with
    | error e => simp only [BTree.findLeaf, deref, leaf, read, if_false, except_ok_bind, except_error_bind]; trivial
    | ok keys =>
      rw [findLeaf_internal leaf read]
      obtain ⟨stored, grown, child⟩ := stores.getChild (p := p) (childIndex key keys)
      exact Keeps.mono (Stores.findLeaf key fuel stored child) fun h' leaf ⟨s, g, l, a⟩ => ⟨s, grown.trans g, l, a⟩

/-- What `findParent` returns keeps the invariant, only grows the heap, and a parent it finds is
an allocated node that is not a leaf: the search checks that before it looks at the children. -/
theorem Stores.findParent (target : Ptr) : ∀ (fuel : Nat) {h : Heap} {root : Ptr}, h.Stores hist → root < h.allocated →
    Keeps (fun h' parent => h'.Stores hist ∧ h.Grows h' ∧
        ∀ q, parent = some q → q < h'.allocated ∧ (h'.node q).typ ≠ bnodeLeaf)
      (findParent h root target fuel)
  | 0, _, _, _, _ => trivial
  | fuel + 1, h, root, stores, allocated => by
    unfold BTree.findParent
    split_ifs with stop
    · exact ⟨stores, .refl h, nofun⟩
    have internal : (h.node root).typ ≠ bnodeLeaf := fun leaf => stop (.inr leaf)
    refine Keeps.foldlM (P := fun h' parent => h'.Stores hist ∧ h.Grows h' ∧
        ∀ q, parent = some q → q < h'.allocated ∧ (h'.node q).typ ≠ bnodeLeaf) (fun h₀ acc i held => ?_) _
      ⟨stores, .refl h, nofun⟩
    obtain ⟨stored₀, grown₀, found₀⟩ := held
    rcases acc with _ | found
    · obtain ⟨stored₁, grown₁, child⟩ := stored₀.getChild (p := root) i
      have grown := grown₀.trans grown₁
      simp only [findParentStep]
      split_ifs with isTarget
      · refine ⟨stored₁, grown, fun q same => ?_⟩
        cases Option.some.inj same
        exact ⟨Nat.lt_of_lt_of_le allocated grown.allocated, by rw [grown.node allocated]; exact internal⟩
      · cases found : (h₀.getChild root i).2 with
        | none => trivial
        | some c =>
          simp only [deref, except_ok_bind]
          exact Keeps.mono (Stores.findParent target fuel stored₁ (child c found))
            fun h' parent ⟨s, g, above⟩ => ⟨s, grown.trans g, above⟩
    · exact ⟨stored₀, grown₀, found₀⟩

/-- `insertInLeaf` within the limits: a key already there changes nothing; otherwise the leaf
grows by the new entry, at most one entry's weight over its cap. -/
theorem Stores.insertInLeaf {h : Heap} {p : Ptr} (stores : h.Stores hist) (leaf : (h.node p).typ = bnodeLeaf)
    (keyLimit : key.length ≤ btreeMaxKeySize) (valueLimit : value.length ≤ btreeMaxValSize) :
    Keeps (fun h' r => h'.allocated = h.allocated ∧ match r with
      | .ok () => h'.StoresAround ((key, value) :: hist) p
      | .error _ => h' = h) (insertInLeaf h p key value) := by
  obtain ⟨es, holds⟩ := stores.nodes p leaf
  have reads := holds.lays.reads (by rw [holds.lays.data]; exact holds.fits)
  rcases position : leafPosition key (es.map Prod.fst) with _ | pos
  · rw [insertInLeaf_present reads.keys position]
    exact ⟨rfl, rfl⟩
  have le : pos ≤ es.length := by simpa using leafPosition_le position
  have few := length_le_of_light holds.light
  have heavy : weight (es.take pos ++ (key, value) :: es.drop pos) ≤ leafCap es.length + 4006 := by
    rw [weight_insert]
    dsimp only
    have := holds.light
    simp only [btreeMaxKeySize, btreeMaxValSize] at keyLimit valueLimit
    omega
  have fits : (pageData (es.take pos ++ (key, value) :: es.drop pos)).length < 65536 := pageData_lt_of_heavy heavy
  have inserted : (h.node p).insertKV pos key value =
      .ok (Node.ofEntries (h.node p).typ (h.node p).pointers (es.take pos ++ (key, value) :: es.drop pos)) := by
    rw [holds.lays.eq_ofEntries]
    exact Node.insertKV_ofEntries le fits
  have count : (es.take pos ++ (key, value) :: es.drop pos).length = es.length + 1 := by
    simp only [List.length_append, List.length_take, List.length_cons, List.length_drop]
    omega
  rw [insertInLeaf_eq reads.keys position inserted]
  refine ⟨rfl, stores.registered, fun q other => ?_, by simpa using leaf, es.take pos ++ (key, value) :: es.drop pos, ?_⟩
  · rw [Heap.setNode_node_of_ne other]
    exact (stores.mono fun e member => List.mem_cons_of_mem _ member).nodes q
  · rw [Heap.setNode_node_self]
    refine ⟨Node.lays_ofEntries (Node.short_of_fits fits), by rw [count]; exact heavy, by omega, fun e member => ?_,
      by simpa [List.map_take, List.map_drop] using leafPosition_increasing holds.increasing position, holds.bare⟩
    rcases List.mem_append.mp member with front | back
    · exact (holds.inserted e (List.mem_of_mem_take front)).imp_left (List.mem_cons_of_mem _)
    rcases List.mem_cons.mp back with rfl | back
    · exact ⟨List.mem_cons_self _ _, keyLimit, valueLimit⟩
    · exact (holds.inserted e (List.mem_of_mem_drop back)).imp_left (List.mem_cons_of_mem _)

/-- `insertInParent` touches only nodes that are not leaves: the new root, the parent, and the
halves of a full parent. -/
theorem Stores.insertInParent (t : BTree) : ∀ (fuel : Nat) {h : Heap} {oldNode : Ptr} {key : Bytes}
    {newNode : Option Ptr}, h.Stores hist → t.root < h.allocated → oldNode < h.allocated →
    (∀ c, newNode = some c → c < h.allocated) →
    Keeps (fun h' t' => h'.Stores hist ∧ t'.root < h'.allocated) (t.insertInParent h oldNode key newNode fuel)
  | 0, _, _, _, _, _, _, _, _ => trivial
  | fuel + 1, h, oldNode, key, newNode, stores, root, old, new => by
    unfold BTree.insertInParent
    split_ifs with atRoot
    · have stored := stores.alloc (Heap.new_stores bnodeNode : (Node.new bnodeNode).Stores hist)
      cases inserted : ((h.alloc (Node.new bnodeNode)).1.node h.allocated).insertKV 0 key [] with
      | error e => simp only [Heap.alloc_snd, inserted, except_error_bind]; trivial
      | ok n =>
        have internal : n.typ ≠ bnodeLeaf := by
          rw [Node.insertKV_typ inserted, Heap.alloc_node_self]; decide
        simp only [Heap.alloc_snd, inserted, except_ok_bind, except_pure]
        refine ⟨((stored.setNode (Node.stores_of_ne_leaf internal)).setChild (by simpa using internal) 0
          fun c same => ?_).setChild (by simpa using internal) 1 fun c same => ?_, by simp⟩
        · cases Option.some.inj same
          simp only [Heap.setNode_allocated, Heap.alloc_allocated]
          exact Nat.lt_succ_of_lt old
        · simp only [Heap.setChild_allocated, Heap.setNode_allocated, Heap.alloc_allocated]
          exact Nat.lt_succ_of_lt (new c same)
    · refine (Stores.findParent oldNode _ stores root).bind fun h₁ parent ⟨stored₁, grown₁, found₁⟩ => ?_
      rcases parent with _ | q
      · trivial
      obtain ⟨allocated, internal⟩ := found₁ q rfl
      cases read : (h₁.node q).keys with
      | error e => simp only [read, except_error_bind]; trivial
      | ok keys =>
        cases inserted : (h₁.node q).insertKV (childIndex key keys) key [] with
        | error e => simp only [read, inserted, except_ok_bind, except_error_bind]; trivial
        | ok n =>
          simp only [read, inserted, except_ok_bind]
          have internal' : n.typ ≠ bnodeLeaf := by rw [Node.insertKV_typ inserted]; exact internal
          have stored₂ := (stored₁.setNode (p := q) (Node.stores_of_ne_leaf internal')).setChild (p := q)
            (by simpa using internal') (childIndex key keys + 1) fun c same => by
              simpa using Nat.lt_of_lt_of_le (new c same) grown₁.allocated
          split_ifs
          · refine (Heap.Stores.split_internal stored₂ (by simpa using internal')).bind
              fun h₃ split ⟨stored₃, grown₃, new₃⟩ => ?_
            have grown : h₁.allocated ≤ h₃.allocated := by simpa using grown₃
            exact Stores.insertInParent t fuel stored₃ (Nat.lt_of_lt_of_le root (grown₁.allocated.trans grown))
              (Nat.lt_of_lt_of_le allocated grown) new₃
          · exact ⟨stored₂, by simpa using Nat.lt_of_lt_of_le root grown₁.allocated⟩

/-- `Insert` keeps the invariant, with the pair it was given added to the history. -/
theorem Stores.insert {h : Heap} {t : BTree} (stores : h.Stores hist) (root : t.root < h.allocated) :
    Keeps (fun h' r => h'.Stores ((key, value) :: hist) ∧ r.1.root < h'.allocated) (t.insert h key value) := by
  have more : ∀ {h : Heap}, h.Stores hist → h.Stores ((key, value) :: hist) :=
    fun stores => stores.mono fun e member => List.mem_cons_of_mem _ member
  by_cases keyOk : key.length ≤ btreeMaxKeySize
  swap
  · rw [insert_of_key_too_large (Nat.lt_of_not_le keyOk)]
    exact ⟨more stores, root⟩
  by_cases valueOk : value.length ≤ btreeMaxValSize
  swap
  · rw [insert_of_value_too_large keyOk (Nat.lt_of_not_le valueOk)]
    exact ⟨more stores, root⟩
  simp only [BTree.insert, Nat.not_lt.mpr keyOk, Nat.not_lt.mpr valueOk, ↓reduceIte]
  refine (Stores.findLeaf key _ stores fun p same => Option.some.inj same ▸ root).bind
    fun h₁ leaf ⟨stored₁, grown₁, isLeaf, leafAllocated⟩ => ?_
  have root₁ := Nat.lt_of_lt_of_le root grown₁.allocated
  refine (Stores.insertInLeaf stored₁ isLeaf keyOk valueOk).bind fun h₂ result ⟨allocated₂, kept₂⟩ => ?_
  rcases result with e | ⟨⟩
  · cases kept₂
    exact ⟨more stored₁, root₁⟩
  dsimp only
  simp only [except_pure, except_ok_bind]
  split
  · refine kept₂.split.bind fun h₃ r ⟨stored₃, grown₃, new₃⟩ => ?_
    exact (Stores.insertInParent t _ stored₃ (Nat.lt_of_lt_of_le root₁ (allocated₂ ▸ grown₃))
      (Nat.lt_of_lt_of_le leafAllocated (allocated₂ ▸ grown₃)) new₃).bind fun _ _ held => held
  · next notFull => exact ⟨kept₂.stores (by simpa using notFull), allocated₂ ▸ root₁⟩

/-- `Get` keeps the invariant, and the value it returns is one that an insertion stored under
the key. -/
theorem Stores.get {h : Heap} {t : BTree} (stores : h.Stores hist) (root : t.root < h.allocated) :
    Keeps (fun h' r => h'.Stores hist ∧ t.root < h'.allocated ∧ ∀ v, r = .ok v → (key, v) ∈ hist) (t.get h key) := by
  unfold BTree.get
  refine (Stores.findLeaf key _ stores fun p same => Option.some.inj same ▸ root).bind
    fun h₁ leaf ⟨stored₁, grown₁, isLeaf, _⟩ => ?_
  have root₁ := Nat.lt_of_lt_of_le root grown₁.allocated
  obtain ⟨es, holds⟩ := stored₁.nodes leaf isLeaf
  have reads := holds.lays.reads (by rw [holds.lays.data]; exact holds.fits)
  simp only [reads.keys, except_ok_bind]
  cases scan : (es.map Prod.fst).findIdx? (fun k => bytesCompare key k == .eq) with
  | none => exact ⟨stored₁, root₁, nofun⟩
  | some i =>
    obtain ⟨inside, same, -⟩ := lookup_of_findIdx?_some scan
    simp only [reads.values isLeaf i inside, except_ok_bind, except_pure]
    refine ⟨stored₁, root₁, fun v found => ?_⟩
    cases found
    have entry := (holds.inserted _ (List.getElem_mem inside)).1
    rwa [← same]

section Rebalance

variable {h₀ h : Heap}

theorem reached_getChild (reached : h.Stores hist ∧ h₀.Grows h) (p : Ptr) (i : Nat) :
    (h.getChild p i).1.Stores hist ∧ h₀.Grows (h.getChild p i).1 :=
  have ⟨stored, grown, _⟩ := reached.1.getChild (p := p) i
  ⟨stored, reached.2.trans grown⟩

/-- The probe of the right sibling at slot `pos + 1` in `rebalance`, and the `getChild` of slot
`j` it falls back to. -/
theorem Stores.rebalance_right (reached : h.Stores hist ∧ h₀.Grows h) (parent : Ptr) (pos j : Nat) :
    Keeps (fun h' (_ : Unit) => h'.Stores hist ∧ h₀.Grows h')
      (Except.map (·, ()) (if pos + 1 < (h.children parent).2.length then do
          let right ← deref ((h.children parent).1.getChild parent (pos + 1)).2
          if !(((h.children parent).1.getChild parent (pos + 1)).1.node right).isFull then
            pure ((h.children parent).1.getChild parent (pos + 1)).1
          else pure (((h.children parent).1.getChild parent (pos + 1)).1.getChild parent j).1
        else pure (((h.children parent).1.getChild parent j).1))) := by
  have ⟨stored, grown⟩ := reached.1.children (p := parent)
  have siblings : (h.children parent).1.Stores hist ∧ h₀.Grows (h.children parent).1 := ⟨stored, reached.2.trans grown⟩
  split_ifs
  · cases ((h.children parent).1.getChild parent (pos + 1)).2 with
    | none => trivial
    | some r =>
      rw [deref_some, except_ok_bind]
      split_ifs
      · exact reached_getChild siblings parent (pos + 1)
      · exact reached_getChild (reached_getChild siblings parent (pos + 1)) parent j
  · exact reached_getChild siblings parent j

/-- `rebalance` only looks nodes up: the invariant stays, and the heap only grows. -/
theorem Stores.rebalance {t : BTree} {n : Ptr} (stores : h.Stores hist) (root : t.root < h.allocated) :
    Keeps (fun h' (_ : Unit) => h'.Stores hist ∧ h.Grows h') ((t.rebalance h n).map (·, ())) := by
  unfold BTree.rebalance
  dsimp only
  rw [except_map_bind]
  refine (Stores.findParent n _ stores root).bind fun h₁ parent ⟨stored₁, grown₁, _⟩ => ?_
  rcases parent with _ | parent
  · exact ⟨stored₁, grown₁⟩
  dsimp only
  have ⟨stored₂, grown₂⟩ := stored₁.children (p := parent)
  have reached : (h₁.children parent).1.Stores hist ∧ h.Grows (h₁.children parent).1 := ⟨stored₂, grown₁.trans grown₂⟩
  cases (h₁.children parent).2.findIdx? (· == some n) with
  | none => trivial
  | some pos =>
    simp only
    by_cases first : 0 < pos
    · simp only [if_pos first, pure_bind]
      cases ((h₁.children parent).1.getChild parent (pos - 1)).2 with
      | none => trivial
      | some l =>
        rw [deref_some, except_ok_bind]
        cases (((h₁.children parent).1.getChild parent (pos - 1)).1.node l).isFull
        · exact reached_getChild reached parent (pos - 1)
        · rw [Bool.not_true, if_neg Bool.false_ne_true]
          exact Stores.rebalance_right (reached_getChild reached parent (pos - 1)) parent pos (pos - 1)
    · simp only [if_neg first, pure_bind]
      exact Stores.rebalance_right reached parent pos (pos + 1)

end Rebalance

/-- `Delete` keeps the invariant: the entry leaves its leaf, and `rebalance` only looks up. -/
theorem Stores.delete {h : Heap} {t : BTree} (stores : h.Stores hist) (root : t.root < h.allocated) :
    Keeps (fun h' r => h'.Stores hist ∧ r.1.root < h'.allocated) (t.delete h key) := by
  unfold BTree.delete
  refine (Stores.findLeaf key _ stores fun p same => Option.some.inj same ▸ root).bind
    fun h₁ leaf ⟨stored₁, grown₁, isLeaf, _⟩ => ?_
  have root₁ := Nat.lt_of_lt_of_le root grown₁.allocated
  obtain ⟨es, holds⟩ := stored₁.nodes leaf isLeaf
  have reads := holds.lays.reads (by rw [holds.lays.data]; exact holds.fits)
  simp only [reads.keys, except_ok_bind]
  cases scan : (es.map Prod.fst).findIdx? (fun k => bytesCompare key k == .eq) with
  | none => exact ⟨stored₁, root₁⟩
  | some i =>
    obtain ⟨inside, -, -⟩ := lookup_of_findIdx?_some scan
    have sub := List.eraseIdx_sublist es i
    have removed : (h₁.node leaf).removeKV i =
        .ok (Node.ofEntries (h₁.node leaf).typ (h₁.node leaf).pointers (es.eraseIdx i)) := by
      rw [holds.lays.eq_ofEntries]
      exact Node.removeKV_ofEntries inside holds.fits
    have stored₂ := stored₁.setNode (p := leaf)
      (n := Node.ofEntries (h₁.node leaf).typ (h₁.node leaf).pointers (es.eraseIdx i)) fun _ => ⟨es.eraseIdx i,
      Node.lays_ofEntries fun e member => holds.lays.short e (sub.subset member),
      (weight_sublist sub).trans (holds.light.trans (leafCap_anti sub.length_le)),
      fun e member => holds.inserted e (sub.subset member), holds.increasing.sublist (sub.map Prod.fst), holds.bare⟩
    simp only [removed, except_ok_bind]
    split_ifs
    · exact Keeps.bindHeap (Stores.rebalance stored₂ (by simpa using root₁)) fun h₃ ⟨stored₃, grown₃⟩ =>
        ⟨stored₃, Nat.lt_of_lt_of_le root₁ grown₃.allocated⟩
    · exact ⟨stored₂, root₁⟩

/-- One call: the invariant stays, with the pair an `Insert` was given added, and a value `Get`
returns was inserted before. -/
theorem Stores.call {h : Heap} {t : BTree} (stores : h.Stores hist) (root : t.root < h.allocated) (c : Call) :
    Keeps (fun h' r => h'.Stores (c.pairs ++ hist) ∧ r.1.root < h'.allocated ∧
      ∀ key v, c = .get key → r.2 = .ok (some v) → (key, v) ∈ hist) (t.call h c) := by
  cases c with
  | insert key value =>
    exact (Stores.insert stores root).map fun h' r ⟨stored, root'⟩ => ⟨stored, root', nofun⟩
  | get key =>
    refine (Stores.get stores root).map fun h' r ⟨stored, root', found⟩ => ⟨stored, root', ?_⟩
    rintro _ v ⟨⟩ same
    cases r with
    | error e => cases same
    | ok w => exact Option.some.inj (Except.ok.inj same) ▸ found w rfl
  | delete key =>
    exact (Stores.delete stores root).map fun h' r ⟨stored, root'⟩ => ⟨stored, root', nofun⟩

/-- A whole run: the invariant stays, with the pairs given to `Insert` added, and every value a
`Get` returns was there at the start or was given to an earlier `Insert` under the same key. -/
theorem Stores.calls : ∀ (cs : List Call) {hist : List (Bytes × Bytes)} {h : Heap} {t : BTree}, h.Stores hist →
    t.root < h.allocated →
    Keeps (fun h' (r : BTree × List Reply) => h'.Stores (cs.flatMap Call.pairs ++ hist) ∧
      ∀ (i : Nat) (key v : Bytes), cs[i]? = some (Call.get key) → r.2[i]? = some (Except.ok (some v)) →
        (key, v) ∈ hist ∨ ∃ j < i, cs[j]? = some (Call.insert key v))
      (t.calls h cs)
  | [], _, _, _, stores, _ => ⟨stores, fun i key v get => by simp at get⟩
  | c :: cs, hist, h, t, stores, root => by
    rw [BTree.calls]
    refine (Stores.call stores root c).bind fun h₁ r ⟨stored₁, root₁, first⟩ => ?_
    refine (Stores.calls cs stored₁ root₁).bind fun h₂ r' ⟨stored₂, rest⟩ => ⟨stored₂.mono fun e member => ?_,
      fun i key v get found => ?_⟩
    · simp only [List.flatMap_cons, List.mem_append] at member ⊢
      tauto
    cases i with
    | zero => exact .inl (first key v (by simpa using get) (by simpa using found))
    | succ i =>
      rcases rest i key v (by simpa using get) (by simpa using found) with earlier | ⟨j, before, inserted⟩
      · rcases List.mem_append.mp earlier with now | earlier
        · cases c <;> simp only [Call.pairs, List.mem_singleton, List.not_mem_nil, Prod.mk.injEq] at now
          obtain ⟨rfl, rfl⟩ := now
          exact .inr ⟨0, Nat.succ_pos i, List.getElem?_cons_zero⟩
        · exact .inl earlier
      · exact .inr ⟨j + 1, Nat.succ_lt_succ before, by simpa using inserted⟩

theorem new_tree_stores : (BTree.new Heap.init).1.Stores [] :=
  ⟨nofun, fun p => by
    by_cases root : p = Heap.init.allocated
    · subst root; simpa [BTree.new] using Heap.new_stores bnodeLeaf
    · simpa [BTree.new, root] using Heap.new_stores 0⟩

/-- Along any run of calls on a new tree, including splits, lookups of missing children and
rebalancing, every value `Get` returns is one an earlier `Insert` was given for that key; and in the
heap the run reaches, every leaf lays out only pairs given to an `Insert` of the run, within the
key and value limits, on a page under 64 KiB. -/
theorem get_returns_inserted_value {cs : List Call} {h : Heap} {t : BTree} {replies : List Reply}
    (run : (BTree.new Heap.init).2.calls (BTree.new Heap.init).1 cs = .ok (h, t, replies)) :
    (∀ (i : Nat) (key value : Bytes), cs[i]? = some (.get key) → replies[i]? = some (.ok (some value)) →
      ∃ j < i, cs[j]? = some (.insert key value)) ∧
    ∀ p, (h.node p).typ = bnodeLeaf → ∃ es : List (Bytes × Bytes), (h.node p).Lays es ∧
      (∀ e ∈ es, Call.insert e.1 e.2 ∈ cs ∧ e.1.length ≤ btreeMaxKeySize ∧ e.2.length ≤ btreeMaxValSize) ∧
      (h.node p).data.length < 65536 := by
  have keeps := Stores.calls cs new_tree_stores (t := (BTree.new Heap.init).2) (by simp [BTree.new])
  rw [run] at keeps
  refine ⟨fun i key value get found => by simpa using keeps.2 i key value get found, fun p leaf => ?_⟩
  obtain ⟨es, holds⟩ := keeps.1.nodes p leaf
  refine ⟨es, holds.lays, fun e member => ?_, by rw [holds.lays.data]; exact holds.fits⟩
  obtain ⟨inserted, key, value⟩ := holds.inserted e member
  exact ⟨Call.insert_of_mem_pairs inserted, key, value⟩

theorem get_returns_inserted_value_put_then_get :
    ∃ h t replies, (BTree.new Heap.init).2.calls (BTree.new Heap.init).1
        [Call.insert (ascii "k") (ascii "v"), Call.get (ascii "k")] = .ok (h, t, replies) ∧
      (∀ (i : Nat) (key value : Bytes), [Call.insert (ascii "k") (ascii "v"), Call.get (ascii "k")][i]? = some (.get key) →
        replies[i]? = some (.ok (some value)) →
        ∃ j < i, [Call.insert (ascii "k") (ascii "v"), Call.get (ascii "k")][j]? = some (.insert key value)) ∧
      ∀ p, (h.node p).typ = bnodeLeaf → ∃ es : List (Bytes × Bytes), (h.node p).Lays es ∧
        (∀ e ∈ es, Call.insert e.1 e.2 ∈ [Call.insert (ascii "k") (ascii "v"), Call.get (ascii "k")] ∧
          e.1.length ≤ btreeMaxKeySize ∧ e.2.length ≤ btreeMaxValSize) ∧
        (h.node p).data.length < 65536 :=
  ⟨_, _, _, rfl, get_returns_inserted_value (by rfl)⟩

/-- Along any run of calls on a new tree, every leaf page lays out entries with strictly increasing
keys, each of them given to an `Insert` of the run: `Iterate` calls `f` on exactly these entries in
key order, and `Validate` rejects the leaf unless it is empty, since a leaf never gets a child
pointer. -/
theorem leaf_pages_iterate_in_key_order {cs : List Call} {h : Heap} {t : BTree} {replies : List Reply}
    (run : (BTree.new Heap.init).2.calls (BTree.new Heap.init).1 cs = .ok (h, t, replies))
    {p : Ptr} (leaf : (h.node p).typ = bnodeLeaf) :
    ∃ es : List (Bytes × Bytes), Increasing (es.map Prod.fst) ∧ (∀ e ∈ es, Call.insert e.1 e.2 ∈ cs) ∧
      (∀ {ε : Type} (f : Bytes → Bytes → Except ε Unit), (h.node p).iterate f = .ok (es.forM fun e => f e.1 e.2)) ∧
      (h.node p).validate = if es = [] then .ok () else .error "inconsistent number of keys, pointers, or offsets" := by
  have keeps := Stores.calls cs new_tree_stores (t := (BTree.new Heap.init).2) (by simp [BTree.new])
  rw [run] at keeps
  obtain ⟨es, holds⟩ := keeps.1.nodes p leaf
  have fits : (h.node p).data.length < 65536 := by rw [holds.lays.data]; exact holds.fits
  exact ⟨es, holds.increasing, fun e member => Call.insert_of_mem_pairs (holds.inserted e member).1,
    fun f => holds.lays.iterate leaf fits f, holds.lays.validate holds.bare⟩

theorem leaf_pages_iterate_in_key_order_after_two_inserts :
    ∃ h t replies, (BTree.new Heap.init).2.calls (BTree.new Heap.init).1
        [Call.insert (ascii "b") (ascii "2"), Call.insert (ascii "a") (ascii "1")] = .ok (h, t, replies) ∧
      (h.node 0).typ = bnodeLeaf ∧
      ∃ es : List (Bytes × Bytes), Increasing (es.map Prod.fst) ∧
        (∀ e ∈ es, Call.insert e.1 e.2 ∈ [Call.insert (ascii "b") (ascii "2"), Call.insert (ascii "a") (ascii "1")]) ∧
        (∀ {ε : Type} (f : Bytes → Bytes → Except ε Unit), (h.node 0).iterate f = .ok (es.forM fun e => f e.1 e.2)) ∧
        (h.node 0).validate = if es = [] then .ok () else .error "inconsistent number of keys, pointers, or offsets" :=
  ⟨_, _, _, rfl, rfl, leaf_pages_iterate_in_key_order (by rfl) (by rfl)⟩

end BTree

end GoDatabase
