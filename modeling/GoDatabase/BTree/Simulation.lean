import GoDatabase.BTree.Renaming

namespace GoDatabase

namespace Renaming

variable {E : Renaming} {src dst : Heap}

theorem Sim.error {α β : Type} {R : Renaming → Heap → α → β → Prop} (e : String) :
    E.Sim src dst R (.error e) (.error e) := rfl

/-- A step that returns only a heap, such as `rebalance`, followed by the rest of the call. -/
theorem Sim.bindHeap {γ δ : Type} {S : Renaming → Heap → γ → δ → Prop} {x y : Except String Heap}
    {f : Heap → Except String (Heap × γ)} {g : Heap → Except String (Heap × δ)}
    (first : E.Sim src dst (fun _ _ _ _ => True) (x.map (·, ())) (y.map (·, ())))
    (next : ∀ E' src' dst', E.Le E' src src' dst dst' → E'.Holds src' dst' → E'.Sim src' dst' S (f src') (g dst')) :
    E.Sim src dst S (x >>= f) (y >>= g) := by
  have sim := first.bind (f := fun p => f p.1) (g := fun p => g p.1)
    fun E' src' dst' _ _ le held _ => next E' src' dst' le held
  rwa [except_bind_map, except_bind_map] at sim

/-- The trees a renaming carries from one heap to the other: the root, owned, at its new address,
and the same count of keys. -/
def Trees (E : Renaming) (tX tY : BTree) : Prop := E.owns tX.root ∧ tY.root = E.ptr tX.root ∧ tY.size = tX.size

/-- What `findParent` returns, carried over: nothing, or a parent of `target`, owned and above it
in rank, at its new address; and the bound is still `B`. -/
def ParentFound (B : Nat) (target : Ptr) (E' : Renaming) (_ : Heap) (a b : Option Ptr) : Prop :=
  b = a.map E'.ptr ∧ E'.bound = B ∧ ∀ q, a = some q → E'.owns q ∧ E'.rank target < E'.rank q

theorem Trees.mono {E' : Renaming} {src' dst' : Heap} {tX tY : BTree} (trees : E.Trees tX tY)
    (le : E.Le E' src src' dst dst') : E'.Trees tX tY :=
  ⟨le.owns trees.1, trees.2.1.trans (le.ptr trees.1).symm, trees.2.2⟩

theorem findIdx?_congr {α : Type} {p q : α → Bool} : ∀ {l : List α} {i : Nat}, (∀ x ∈ l, p x = q x) →
    l.findIdx? p i = l.findIdx? q i
  | [], _, _ => rfl
  | x :: l, i, same => by
    simp only [List.findIdx?_cons, same x (List.mem_cons_self _ _),
      findIdx?_congr fun y member => same y (List.mem_cons_of_mem _ member)]

namespace Holds

/-- `rebalance`'s scan for a node among its parent's children finds it at the same slot on both
sides. -/
theorem findIdx?_sibling (holds : E.Holds src dst) {l : List (Option Ptr)} (ownedL : ∀ c, some c ∈ l → E.owns c)
    {n : Ptr} (owned : E.owns n) :
    (l.map (Option.map E.ptr)).findIdx? (· == some (E.ptr n)) = l.findIdx? (· == some n) := by
  rw [List.findIdx?_map]
  refine findIdx?_congr fun x member => ?_
  rcases x with _ | c
  · rfl
  · simp [holds.ptr_inj (ownedL c member) owned]

/-- `findLeaf` on both sides, with fuel for the rank of the node it starts from. -/
theorem findLeaf (key : Bytes) : ∀ (fuelX : Nat) {fuelY : Nat} {E : Renaming} {src dst : Heap} {p : Ptr},
    E.Holds src dst → E.owns p → E.rank p + 2 ≤ fuelX → fuelX ≤ fuelY →
    E.Sim src dst (fun E' _ a b => E'.owns a ∧ b = E'.ptr a) (BTree.findLeaf src (some p) key fuelX)
      (BTree.findLeaf dst (some (E.ptr p)) key fuelY)
  | 0, _, _, _, _, _, _, _, enough, _ => absurd enough (by omega)
  | fuelX + 1, fuelY, E, src, dst, p, holds, owned, enough, more => by
    obtain ⟨fuelY, rfl⟩ : ∃ g, fuelY = g + 1 := ⟨fuelY - 1, by omega⟩
    have dstNode := holds.node owned
    by_cases leaf : (src.node p).typ = bnodeLeaf
    · rw [BTree.findLeaf_leaf leaf, BTree.findLeaf_leaf (by simp [dstNode, leaf])]
      exact Sim.pure holds ⟨owned, rfl⟩
    have dstInternal : (dst.node (E.ptr p)).typ ≠ bnodeLeaf := by simpa [dstNode] using leaf
    cases read : (src.node p).keys with
    | error e =>
      simp only [BTree.findLeaf, deref, leaf, dstNode, Node.rename_typ, Node.keys_rename, read, if_false,
        except_ok_bind, except_error_bind]
      rfl
    | ok keys =>
      have dstRead : (dst.node (E.ptr p)).keys = .ok keys := by simp [dstNode, read]
      rw [BTree.findLeaf_internal leaf read, BTree.findLeaf_internal dstInternal dstRead]
      obtain ⟨E₁, le, held, child, -, childOwned⟩ := holds.getChild owned (childIndex key keys)
      rw [child]
      refine Sim.weaken le ?_
      cases found : (src.getChild p (childIndex key keys)).2 with
      | none =>
        obtain ⟨fuelX, rfl⟩ : ∃ f, fuelX = f + 1 := ⟨fuelX - 1, by omega⟩
        obtain ⟨fuelY, rfl⟩ : ∃ g, fuelY = g + 1 := ⟨fuelY - 1, by omega⟩
        exact Sim.error _
      | some c =>
        rcases (childOwned c found).2 with ⟨old, lower⟩ | ⟨-, leafChild⟩
        · have ranks := le.rank old
          exact findLeaf key fuelX held (childOwned c found).1 (by omega) (by omega)
        · obtain ⟨fuelX, rfl⟩ : ∃ f, fuelX = f + 1 := ⟨fuelX - 1, by omega⟩
          obtain ⟨fuelY, rfl⟩ : ∃ g, fuelY = g + 1 := ⟨fuelY - 1, by omega⟩
          rw [Option.map_some', BTree.findLeaf_leaf leafChild,
            BTree.findLeaf_leaf (by simp [held.node (childOwned c found).1, leafChild])]
          exact Sim.pure held ⟨(childOwned c found).1, rfl⟩

/-- `insertInLeaf` on both sides. -/
theorem insertInLeaf (holds : E.Holds src dst) {leaf : Ptr} (owned : E.owns leaf) (key value : Bytes) :
    E.Sim src dst (fun E' _ a b => a = b ∧ E' = E) (BTree.insertInLeaf src leaf key value)
      (BTree.insertInLeaf dst (E.ptr leaf) key value) := by
  unfold BTree.insertInLeaf
  rw [holds.node owned, Node.keys_rename]
  cases read : (src.node leaf).keys with
  | error e => rfl
  | ok keys =>
    simp only [except_ok_bind]
    cases leafPosition key keys with
    | none => exact Sim.pure holds ⟨rfl, rfl⟩
    | some pos =>
      simp only [Node.insertKV_rename, except_bind_map]
      cases inserted : (src.node leaf).insertKV pos key value with
      | error e => rfl
      | ok n =>
        obtain ⟨le, held⟩ := holds.setNode owned (n := n) (by
          rw [Node.insertKV_pointers inserted]; exact holds.ranked owned)
        exact ⟨E, le, held, rfl, rfl⟩

/-- `findParent` on both sides, with fuel for the rank of the node it starts from. -/
theorem findParent {target : Ptr} : ∀ (fuelX : Nat) {fuelY : Nat} {E : Renaming} {src dst : Heap} {root : Ptr},
    E.Holds src dst → E.owns root → E.owns target → E.rank root + 2 ≤ fuelX → fuelX ≤ fuelY →
    E.Sim src dst (ParentFound E.bound target) (BTree.findParent src root target fuelX)
      (BTree.findParent dst (E.ptr root) (E.ptr target) fuelY)
  | 0, _, _, _, _, _, _, _, _, enough, _ => absurd enough (by omega)
  | fuelX + 1, fuelY, E, src, dst, root, holds, owned, ownedTarget, enough, more => by
    obtain ⟨fuelY, rfl⟩ : ∃ g, fuelY = g + 1 := ⟨fuelY - 1, by omega⟩
    have dstNode := holds.node owned
    unfold BTree.findParent
    rw [dstNode, Node.rename_typ, Node.rename_pointers, List.length_map]
    simp only [holds.ptr_inj owned ownedTarget]
    split_ifs with stop
    · exact Sim.pure holds ⟨rfl, rfl, nofun⟩
    -- one turn of the loop over the children of `root`
    have step : ∀ (E₀ : Renaming) (src₀ dst₀ : Heap) (acc acc' : Option Ptr) (i : Nat), E.Le E₀ src src₀ dst dst₀ →
        E₀.Holds src₀ dst₀ → ParentFound E.bound target E₀ src₀ acc acc' →
        E₀.Sim src₀ dst₀ (ParentFound E.bound target)
          (BTree.findParentStep (fun h c => BTree.findParent h c target fuelX) root target (src₀, acc) i)
          (BTree.findParentStep (fun h c => BTree.findParent h c (E.ptr target) fuelY) (E.ptr root) (E.ptr target)
            (dst₀, acc') i) := by
      intro E₀ src₀ dst₀ acc acc' i le held accFound
      obtain rfl : acc' = acc.map E₀.ptr := accFound.1
      rcases acc with _ | found
      · obtain ⟨E₁, le₁, held₁, child, bound₁, childOwned⟩ := held.getChild (le.owns owned) i
        simp only [Option.map_none', BTree.findParentStep]
        rw [← le.ptr owned, child, ← (le.trans le₁).ptr ownedTarget]
        have targetOwned := (le.trans le₁).owns ownedTarget
        refine Sim.weaken le₁ ?_
        cases found : (src₀.getChild root i).2 with
        | none => exact Sim.error _
        | some c =>
          have cOwned := (childOwned c found).1
          simp only [Option.map_some', Option.some.injEq, held₁.ptr_inj cOwned targetOwned]
          split_ifs with isTarget
          · subst c
            have lower := (childOwned target found).2.resolve_right fun ⟨notOwned, _⟩ => notOwned (le.owns ownedTarget)
            refine Sim.pure held₁ ⟨by simp [le₁.ptr (le.owns owned)], bound₁.trans accFound.2.1, ?_⟩
            rintro q same
            cases Option.some.inj same
            refine ⟨(le.trans le₁).owns owned, ?_⟩
            rw [le₁.rank lower.1, le₁.rank (le.owns owned)]
            exact lower.2
          · simp only [deref, except_ok_bind]
            rcases (childOwned c found).2 with ⟨old, lower⟩ | ⟨fresh, leafChild⟩
            · refine (findParent fuelX held₁ cOwned targetOwned ?_ (by omega)).mono fun E' _ a b found' => ?_
              · have rootRank := le.rank owned
                rw [le₁.rank old]
                omega
              · exact ⟨found'.1, found'.2.1.trans (bound₁.trans accFound.2.1), found'.2.2⟩
            · obtain ⟨fuelX, rfl⟩ : ∃ f, fuelX = f + 1 := ⟨fuelX - 1, by omega⟩
              obtain ⟨fuelY, rfl⟩ : ∃ g, fuelY = g + 1 := ⟨fuelY - 1, by omega⟩
              have notTarget : c ≠ target := fun same => fresh (same ▸ le.owns ownedTarget)
              have dstLeaf : ((dst₀.getChild (E₀.ptr root) i).1.node (E₁.ptr c)).typ = bnodeLeaf := by
                simp [held₁.node cOwned, leafChild]
              simp only [BTree.findParent, leafChild, dstLeaf, or_true, if_true]
              exact Sim.pure held₁ ⟨rfl, bound₁.trans accFound.2.1, nofun⟩
      · exact Sim.pure held accFound
    exact Sim.foldlM step _ (Le.refl E src dst) holds ⟨rfl, rfl, nofun⟩

theorem fuel_enough (holds : E.Holds src dst) {p : Ptr} (owned : E.owns p) : E.rank p + 2 ≤ BTree.fuel src := by
  have := (holds.owned owned).2.2
  have := holds.bound
  unfold BTree.fuel
  omega

theorem fuel_le (holds : E.Holds src dst) : BTree.fuel src ≤ BTree.fuel dst :=
  Nat.succ_le_succ holds.allocated

/-- `insertInParent` on both sides, with fuel for the ranks from `oldNode` up to the bound. -/
theorem insertInParent {tX tY : BTree} : ∀ (fuelX : Nat) {fuelY : Nat} {E : Renaming} {src dst : Heap}
    {oldNode : Ptr} {key : Bytes} {newNode : Option Ptr}, E.Holds src dst → E.Trees tX tY → E.owns oldNode →
    (∀ c, newNode = some c → E.owns c ∧ E.rank c ≤ E.rank oldNode) → E.bound ≤ fuelX + E.rank oldNode → fuelX ≤ fuelY →
    E.Sim src dst (fun E' _ a b => E'.Trees a b) (tX.insertInParent src oldNode key newNode fuelX)
      (tY.insertInParent dst (E.ptr oldNode) key (newNode.map E.ptr) fuelY)
  | 0, _, E, _, _, _, _, _, holds, _, owned, _, enough, _ => absurd enough (by have := (holds.owned owned).2.2; omega)
  | fuelX + 1, fuelY, E, src, dst, oldNode, key, newNode, holds, trees, owned, newOwned, enough, more => by
    obtain ⟨fuelY, rfl⟩ : ∃ g, fuelY = g + 1 := ⟨fuelY - 1, by omega⟩
    unfold BTree.insertInParent
    simp only [trees.2.1, holds.ptr_inj owned trees.1]
    split_ifs with root
    · rw [Heap.alloc_snd, Heap.alloc_snd, Heap.alloc_node_self, Heap.alloc_node_self]
      cases inserted : (Node.new bnodeNode).insertKV 0 key [] with
      | error e => exact Sim.error _
      | ok n =>
        have oldRank := (holds.owned owned).2.2
        have old : oldNode ≠ src.allocated := Nat.ne_of_lt (holds.owned owned).1
        obtain ⟨le₁, held₁⟩ := holds.alloc (n := Node.new bnodeNode) (Nat.le_succ E.bound)
          (Nat.succ_le_succ holds.bound) (Nat.succ_lt_succ oldRank) (by simp [Node.new])
        simp only [Node.rename_new] at le₁ held₁
        obtain ⟨le₂, held₂⟩ := held₁.setNode (.inr rfl) (n := n) (by simp [Node.insertKV_pointers inserted, Node.new])
        rw [adjoin_ptr_self, adjoin_id, Node.rename_of_pointers_nil (Node.insertKV_pointers inserted)] at le₂ held₂
        obtain ⟨g₃, le₃, held₃⟩ := held₂.setChild (.inr rfl) 0 fun c (same : some oldNode = some c) => by
          cases Option.some.inj same
          exact ⟨.inl owned, by simp [adjoin_rank_of_ne old]⟩
        simp only [adjoin_ptr_self, Option.map_some', adjoin_ptr_of_ne old] at le₃ held₃
        obtain ⟨g₄, le₄, held₄⟩ := held₃.setChild (.inr rfl) 1 fun c (same : newNode = some c) => by
          obtain ⟨ownedC, lower⟩ := newOwned c same
          exact ⟨.inl ownedC, by simp [adjoin_rank_of_ne (Nat.ne_of_lt (holds.owned ownedC).1)]; omega⟩
        have sameNew : newNode.map ({ E.adjoin src.allocated dst.allocated (E.rank oldNode + 1) (E.bound + 1) with
            id := g₃ }).ptr = newNode.map E.ptr := by
          rcases newNode with _ | c
          · rfl
          · simp [adjoin_ptr_of_ne (Nat.ne_of_lt (holds.owned (newOwned c rfl).1).1)]
        simp only [adjoin_ptr_self, sameNew] at le₄ held₄
        exact ⟨_, le₁.trans (le₂.trans (le₃.trans le₄)), held₄, .inr rfl, by simp, trees.2.2⟩
    · refine (findParent (BTree.fuel src) holds trees.1 owned (holds.fuel_enough trees.1) holds.fuel_le).bind
        fun E₁ src₁ dst₁ a b le₁ held₁ found₁ => ?_
      obtain ⟨rfl, bound₁, above⟩ := found₁
      rcases a with _ | parent
      · exact Sim.error _
      obtain ⟨parentOwned, parentAbove⟩ := above parent rfl
      simp only [Option.map_some']
      rw [held₁.node parentOwned, Node.keys_rename]
      cases read : (src₁.node parent).keys with
      | error e => exact Sim.error _
      | ok keys =>
        simp only [except_ok_bind, Node.insertKV_rename, except_bind_map]
        cases inserted : (src₁.node parent).insertKV (childIndex key keys) key [] with
        | error e => exact Sim.error _
        | ok n =>
          simp only [except_ok_bind]
          obtain ⟨le₂, held₂⟩ := held₁.setNode parentOwned (n := n) (by
            rw [Node.insertKV_pointers inserted]; exact held₁.ranked parentOwned)
          have sameNew : newNode.map E.ptr = newNode.map E₁.ptr := by
            rcases newNode with _ | c
            · rfl
            · simp [le₁.ptr (newOwned c rfl).1]
          rw [sameNew]
          obtain ⟨g₃, le₃, held₃⟩ := held₂.setChild parentOwned (childIndex key keys + 1)
            fun c (same : newNode = some c) => by
              obtain ⟨ownedC, lower⟩ := newOwned c same
              refine ⟨le₁.owns ownedC, ?_⟩
              rw [le₁.rank ownedC]
              rw [le₁.rank owned] at parentAbove
              omega
          simp only [held₃.node parentOwned, Node.isFull_rename]
          refine Sim.weaken (le₂.trans le₃) ?_
          split_ifs with full
          · refine (held₃.split parentOwned).bind fun E₄ src₄ dst₄ a b le₄ held₄ split₄ => ?_
            obtain ⟨rfl, bound₄, newParent⟩ := split₄
            have rank₄ : E₄.rank parent = E₁.rank parent := le₄.rank parentOwned
            have boundEq : E₄.bound = E.bound := bound₄.trans bound₁
            have oldEq : E₁.rank oldNode = E.rank oldNode := le₁.rank owned
            have enough₄ : E₄.bound ≤ fuelX + E₄.rank parent := by
              rw [boundEq, rank₄]; omega
            rw [← show E₄.ptr parent = E₁.ptr parent from le₄.ptr parentOwned]
            exact insertInParent fuelX held₄ (((trees.mono le₁).mono le₂).mono le₃ |>.mono le₄)
              (le₄.owns parentOwned) (fun c same => ⟨(newParent c same).1, by rw [(newParent c same).2, rank₄]⟩)
              enough₄ (Nat.le_of_succ_le_succ more)
          · exact Sim.pure held₃ (((trees.mono le₁).mono le₂).mono le₃)

/-- `Insert` on both sides: the same reply, and the trees carried over. -/
theorem insert {tX tY : BTree} (holds : E.Holds src dst) (trees : E.Trees tX tY) (key value : Bytes) :
    E.Sim src dst (fun E' _ a b => E'.Trees a.1 b.1 ∧ a.2 = b.2) (tX.insert src key value) (tY.insert dst key value) := by
  unfold BTree.insert
  dsimp only
  split_ifs
  · exact Sim.pure holds ⟨trees, rfl⟩
  · exact Sim.pure holds ⟨trees, rfl⟩
  simp only [except_pure, except_ok_bind]
  rw [trees.2.1]
  refine (findLeaf key _ holds trees.1 (holds.fuel_enough trees.1) holds.fuel_le).bind
    fun E₁ src₁ dst₁ leaf leafY le₁ held₁ found₁ => ?_
  obtain ⟨leafOwned, rfl⟩ := found₁
  refine (held₁.insertInLeaf leafOwned key value).bind fun E₂ src₂ dst₂ a b le₂ held₂ inserted => ?_
  obtain ⟨rfl, rfl⟩ := inserted
  have trees₂ := trees.mono (le₁.trans le₂)
  rcases a with e | ⟨⟩
  · exact Sim.pure held₂ ⟨trees₂, rfl⟩
  simp only [held₂.node leafOwned, Node.isFull_rename]
  split_ifs with full
  · refine (held₂.split leafOwned).bind fun E₃ src₃ dst₃ a b le₃ held₃ split₃ => ?_
    obtain ⟨rfl, -, newLeaf⟩ := split₃
    have enough : E₃.bound ≤ BTree.fuel src₃ + E₃.rank leaf := by
      have := held₃.bound
      unfold BTree.fuel
      omega
    rw [← show E₃.ptr leaf = E₂.ptr leaf from le₃.ptr leafOwned]
    refine (insertInParent _ held₃ (trees₂.mono le₃) (le₃.owns leafOwned)
      (fun c same => ⟨(newLeaf c same).1, by rw [(newLeaf c same).2, le₃.rank leafOwned]⟩) enough held₃.fuel_le).bind
      fun E₄ src₄ dst₄ t t' le₄ held₄ trees₄ => Sim.pure held₄ ⟨⟨trees₄.1, trees₄.2.1, by simp [trees₄.2.2]⟩, rfl⟩
  · exact Sim.pure held₂ ⟨⟨trees₂.1, by simp [(le₁.trans le₂).ptr trees.1], by simp [trees.2.2]⟩, rfl⟩

/-- `Get` on both sides: the same reply. -/
theorem get {tX tY : BTree} (holds : E.Holds src dst) (trees : E.Trees tX tY) (key : Bytes) :
    E.Sim src dst (fun _ _ a b => a = b) (tX.get src key) (tY.get dst key) := by
  unfold BTree.get
  rw [trees.2.1]
  refine (findLeaf key _ holds trees.1 (holds.fuel_enough trees.1) holds.fuel_le).bind
    fun E₁ src₁ dst₁ leaf leafY le₁ held₁ found₁ => ?_
  obtain ⟨leafOwned, rfl⟩ := found₁
  simp only [held₁.node leafOwned, Node.keys_rename, Node.getValue_rename]
  cases (src₁.node leaf).keys with
  | error e => exact Sim.error _
  | ok keys =>
    simp only [except_ok_bind]
    cases keys.findIdx? fun k => bytesCompare key k == .eq with
    | none => exact Sim.pure held₁ rfl
    | some i =>
      simp only
      cases (src₁.node leaf).getValue i with
      | error e => exact Sim.error _
      | ok value => exact Sim.pure held₁ rfl

/-- A `getChild` under an owned parent, from heaps the renaming reached, ends in heaps it still
relates. -/
theorem getChild_reached {E₀ : Renaming} {s d : Heap} {parent : Ptr} (le : E.Le E₀ src s dst d)
    (held : E₀.Holds s d) (parentOwned : E.owns parent) (j : Nat) :
    E.Sim src dst (fun _ _ _ _ => True) (.ok ((s.getChild parent j).1, ()))
      (.ok ((d.getChild (E.ptr parent) j).1, ())) := by
  obtain ⟨E', le', held', -⟩ := held.getChild (le.owns parentOwned) j
  rw [le.ptr parentOwned] at le' held'
  exact ⟨E', le.trans le', held', trivial⟩

/-- The probe of the right sibling at slot `pos + 1` in `rebalance`, and the `getChild` of slot
`j` it falls back to. -/
theorem rebalance_right {E₀ : Renaming} {s d : Heap} {parent : Ptr} (le : E.Le E₀ src s dst d)
    (held : E₀.Holds s d) (parentOwned : E.owns parent) (pos j : Nat) :
    E.Sim src dst (fun _ _ _ _ => True)
      (Except.map (·, ()) (if pos + 1 < (s.children parent).2.length then do
          let right ← deref ((s.children parent).1.getChild parent (pos + 1)).2
          if !(((s.children parent).1.getChild parent (pos + 1)).1.node right).isFull then
            pure ((s.children parent).1.getChild parent (pos + 1)).1
          else pure (((s.children parent).1.getChild parent (pos + 1)).1.getChild parent j).1
        else pure (((s.children parent).1.getChild parent j).1)))
      (Except.map (·, ()) (if pos + 1 < (d.children (E.ptr parent)).2.length then do
          let right ← deref ((d.children (E.ptr parent)).1.getChild (E.ptr parent) (pos + 1)).2
          if !(((d.children (E.ptr parent)).1.getChild (E.ptr parent) (pos + 1)).1.node right).isFull then
            pure ((d.children (E.ptr parent)).1.getChild (E.ptr parent) (pos + 1)).1
          else pure (((d.children (E.ptr parent)).1.getChild (E.ptr parent) (pos + 1)).1.getChild (E.ptr parent) j).1
        else pure (((d.children (E.ptr parent)).1.getChild (E.ptr parent) j).1))) := by
  obtain ⟨E₁, le₁, held₁, siblings, -, -⟩ := held.children (le.owns parentOwned)
  rw [le.ptr parentOwned] at le₁ held₁ siblings
  have le' := le.trans le₁
  rw [siblings, List.length_map]
  split_ifs with inside
  · obtain ⟨E₂, le₂, held₂, right, -, rightOwned⟩ := held₁.getChild (le'.owns parentOwned) (pos + 1)
    rw [le'.ptr parentOwned] at le₂ held₂ right
    rw [right]
    cases found : ((s.children parent).1.getChild parent (pos + 1)).2 with
    | none => exact Sim.error _
    | some r =>
      simp only [Option.map_some', deref, except_ok_bind, held₂.node (rightOwned r found).1, Node.isFull_rename]
      split_ifs
      · exact ⟨E₂, le'.trans le₂, held₂, trivial⟩
      · exact getChild_reached (le'.trans le₂) held₂ parentOwned j
  · exact getChild_reached le' held₁ parentOwned j


/-- `rebalance` on both sides: the same panic, or heaps that the renaming still relates. -/
theorem rebalance {tX tY : BTree} (holds : E.Holds src dst) (trees : E.Trees tX tY) {n : Ptr} (owned : E.owns n) :
    E.Sim src dst (fun _ _ _ _ => True) ((tX.rebalance src n).map (·, ())) ((tY.rebalance dst (E.ptr n)).map (·, ())) := by
  unfold BTree.rebalance
  dsimp only
  rw [except_map_bind, except_map_bind, trees.2.1]
  refine (findParent _ holds trees.1 owned (holds.fuel_enough trees.1) holds.fuel_le).bind
    fun E₁ src₁ dst₁ a b le₁ held₁ found₁ => ?_
  obtain ⟨rfl, -, above⟩ := found₁
  rcases a with _ | parent
  · exact Sim.pure held₁ trivial
  obtain ⟨parentOwned, -⟩ := above parent rfl
  rw [Option.map_some']
  dsimp only
  obtain ⟨E₂, le₂, held₂, siblings, -, siblingsOwned⟩ := held₁.children parentOwned
  have nOwned := (le₁.trans le₂).owns owned
  rw [siblings, ← (le₁.trans le₂).ptr owned, held₂.findIdx?_sibling siblingsOwned nOwned]
  cases (src₁.children parent).2.findIdx? (· == some n) with
  | none => exact Sim.error _
  | some pos =>
    simp only
    by_cases first : 0 < pos
    · simp only [if_pos first, pure_bind]
      obtain ⟨E₃, le₃, held₃, left, -, leftOwned⟩ := held₂.getChild (le₂.owns parentOwned) (pos - 1)
      rw [(le₂).ptr parentOwned] at le₃ held₃ left
      rw [left]
      cases found : ((src₁.children parent).1.getChild parent (pos - 1)).2 with
      | none => exact Sim.error _
      | some l =>
        rw [Option.map_some', deref_some, deref_some, except_ok_bind, except_ok_bind, held₃.node (leftOwned l found).1,
          Node.isFull_rename]
        cases ((((src₁.children parent).1.getChild parent (pos - 1)).1.node l).isFull)
        · exact Sim.weaken (le₂.trans le₃) (Sim.pure held₃ trivial)
        · rw [Bool.not_true, if_neg Bool.false_ne_true, if_neg Bool.false_ne_true]
          exact rebalance_right (le₂.trans le₃) held₃ parentOwned pos (pos - 1)
    · simp only [if_neg first, pure_bind]
      exact rebalance_right le₂ held₂ parentOwned pos (pos + 1)

/-- `Delete` on both sides: the same reply, and the trees carried over. -/
theorem delete {tX tY : BTree} (holds : E.Holds src dst) (trees : E.Trees tX tY) (key : Bytes) :
    E.Sim src dst (fun E' _ a b => E'.Trees a.1 b.1 ∧ a.2 = b.2) (tX.delete src key) (tY.delete dst key) := by
  unfold BTree.delete
  rw [trees.2.1]
  refine (findLeaf key _ holds trees.1 (holds.fuel_enough trees.1) holds.fuel_le).bind
    fun E₁ src₁ dst₁ leaf leafY le₁ held₁ found₁ => ?_
  obtain ⟨leafOwned, rfl⟩ := found₁
  have trees₁ := trees.mono le₁
  simp only [held₁.node leafOwned, Node.keys_rename, Node.removeKV_rename]
  cases (src₁.node leaf).keys with
  | error e => exact Sim.error _
  | ok keys =>
    simp only [except_ok_bind]
    cases keys.findIdx? fun k => bytesCompare key k == .eq with
    | none => exact Sim.pure held₁ ⟨trees₁, rfl⟩
    | some pos =>
      simp only
      rw [except_bind_map]
      cases removed : (src₁.node leaf).removeKV pos with
      | error e => exact Sim.error _
      | ok n =>
        simp only [except_ok_bind, Node.isEmpty_rename]
        have pointers := Node.removeKV_pointers removed
        obtain ⟨le₂, held₂⟩ := held₁.setNode leafOwned (n := n) fun i member =>
          held₁.ranked leafOwned i (pointers ▸ member)
        have trees₂ : ∀ {E' : Renaming} {src' dst' : Heap}, E₁.Le E' src₁ src' dst₁ dst' →
            E'.Trees ⟨tX.root, tX.size - 1⟩ ⟨E.ptr tX.root, tY.size - 1⟩ := fun le =>
          ⟨le.owns trees₁.1, trees.2.1 ▸ (trees₁.mono le).2.1, by simp [trees.2.2]⟩
        have notRoot : E₁.ptr leaf ≠ E.ptr tX.root ↔ leaf ≠ tX.root := by
          rw [← le₁.ptr trees.1]
          exact not_congr (held₁.ptr_inj leafOwned trees₁.1)
        simp only [notRoot]
        split_ifs with rebalanced
        · refine Sim.weaken le₂ (Sim.bindHeap (held₂.rebalance (trees₁.mono le₂) leafOwned) fun E' _ _ le held => ?_)
          exact Sim.pure held ⟨trees₂ (le₂.trans le), rfl⟩
        · exact Sim.weaken le₂ (Sim.pure held₂ ⟨trees₂ le₂, rfl⟩)

end Holds

end Renaming

end GoDatabase
