import GoDatabase.BTree.Simulation
import GoDatabase.BTree.LeafMap

namespace GoDatabase

namespace Renaming

variable {E F F' G : Renaming} {src dst s s' dst' : Heap}

/-- The renaming of a tree that has no node yet. -/
def empty : Renaming := ⟨fun _ => False, fun p => p, fun i => i, fun _ => 0, 0⟩

theorem init_sound : Heap.init.Sound := ⟨Nat.one_pos, fun _ member => absurd member (List.not_mem_nil _), List.nodup_nil⟩

theorem Holds.empty (sound : dst.Sound) : empty.Holds Heap.init dst where
  src_sound := init_sound
  dst_sound := sound
  allocated := Nat.zero_le _
  bound := le_rfl
  owned := nofun
  injective := nofun
  node := nofun
  ranked := nofun
  lookup _ := nofun
  idOf := nofun
  zero := rfl

section Sim

variable {α β γ δ : Type} {R : Renaming → Heap → α → β → Prop} {S : Renaming → Heap → γ → δ → Prop}
  {x : Except String (Heap × α)} {y : Except String (Heap × β)}

theorem Sim.map {f : Heap × α → Heap × γ} {g : Heap × β → Heap × δ} (sim : E.Sim src dst R x y)
    (next : ∀ E' src' dst' a b, E.Le E' src src' dst dst' → E'.Holds src' dst' → R E' src' a b →
      E'.Sim src' dst' S (.ok (f (src', a))) (.ok (g (dst', b)))) :
    E.Sim src dst S (x.map f) (y.map g) := by
  match x, y, sim with
  | .error _, .error _, same => exact same
  | .ok (_, _), .ok (_, _), ⟨E', le, holds, related⟩ => exact Sim.weaken le (next _ _ _ _ _ le holds related)

end Sim

/-- A node `F'` adds lies at a new address of `dst`, so away from every node another renaming
`G` already places there. -/
theorem Le.apart (le : F.Le F' s s' dst dst') (holds : G.Holds src dst)
    (apart : ∀ {p q}, F.owns p → G.owns q → F.ptr p ≠ G.ptr q) {p q : Ptr} (owned : F'.owns p) (ownedG : G.owns q) :
    F'.ptr p ≠ G.ptr q := by
  by_cases old : F.owns p
  · rw [le.ptr old]
    exact apart old ownedG
  · intro same
    have below := (holds.owned ownedG).2.1
    rw [← same] at below
    exact Nat.lt_irrefl _ (Nat.lt_of_lt_of_le below (le.fresh owned old))

namespace Holds

/-- A tree's renaming survives a run of another tree whose renaming is apart from it: that run
changed the shared heap only at its own nodes, at new addresses and under new ids. -/
theorem frame (holds : E.Holds src dst) (le : F.Le F' s s' dst dst') (sound : dst'.Sound)
    (apart : ∀ {p q}, E.owns p → F.owns q → E.ptr p ≠ F.ptr q) : E.Holds src dst' where
  src_sound := holds.src_sound
  dst_sound := sound
  allocated := holds.allocated.trans le.dst_allocated
  bound := holds.bound
  owned owned := ⟨(holds.owned owned).1, Nat.lt_of_lt_of_le (holds.owned owned).2.1 le.dst_allocated,
    (holds.owned owned).2.2⟩
  injective := holds.injective
  node owned := (le.frame_node (holds.owned owned).2.1 fun _ ownedF same => apart owned ownedF same.symm).trans
    (holds.node owned)
  ranked := holds.ranked
  lookup found owned := by
    have old := holds.lookup found owned
    rw [le.frame_lookup (holds.dst_sound.lookup_bound old).2.1, old]
  idOf owned := by
    rw [le.frame_idOf (holds.owned owned).2.1 fun _ ownedF same => le.apart holds (fun p q => (apart q p).symm)
      ownedF owned same, holds.idOf owned]
  zero := holds.zero

/-- One call of the tree's API on both sides: the same reply, and the trees carried over. -/
theorem call {tX tY : BTree} (holds : E.Holds src dst) (trees : E.Trees tX tY) (c : Call) :
    E.Sim src dst (fun E' _ a b => E'.Trees a.1 b.1 ∧ a.2 = b.2) (tX.call src c) (tY.call dst c) := by
  cases c with
  | insert key value =>
    exact (holds.insert trees key value).map fun _ _ _ _ _ _ held related =>
      Sim.pure held ⟨related.1, by rw [related.2]⟩
  | get key =>
    exact (holds.get trees key).map fun _ _ _ _ _ le held same => Sim.pure held ⟨trees.mono le, by rw [same]⟩
  | delete key =>
    exact (holds.delete trees key).map fun _ _ _ _ _ _ held related =>
      Sim.pure held ⟨related.1, by rw [related.2]⟩

end Holds

end Renaming

/-- What a program does with one `*BTree` variable: `NewBTree()` into it, or one of the calls
of the tree it holds. -/
inductive TreeOp where
  | new
  | call (c : Call)
  deriving DecidableEq, Repr

namespace TreeOp

/-- One operation on a variable that is nil until `NewBTree` fills it; a call through nil
panics. `NewBTree` replies nil. -/
def run : TreeOp → Heap → Option BTree → Except String (Heap × Option BTree × Reply)
  | .new, h, _ => .ok ((BTree.new h).1, some (BTree.new h).2, .ok none)
  | .call _, _, none => .error nilDereference
  | .call c, h, some t => (t.call h c).map fun (h, t, reply) => (h, some t, reply)

/-- Operations one after another on the variable, until one panics. -/
def runs (h : Heap) (t : Option BTree) : List TreeOp → Except String (Heap × Option BTree × List Reply)
  | [] => .ok (h, t, [])
  | op :: ops => do
    let (h, t, reply) ← op.run h t
    let (h, t, replies) ← runs h t ops
    return (h, t, reply :: replies)

end TreeOp

/-- One operation on both sides of a renaming: the same reply, and the variables carried over. -/
theorem Renaming.Holds.treeOp {E : Renaming} {src dst : Heap} (holds : E.Holds src dst) {tX tY : Option BTree}
    (trees : Option.Rel E.Trees tX tY) (op : TreeOp) :
    E.Sim src dst (fun E' _ a b => Option.Rel E'.Trees a.1 b.1 ∧ a.2 = b.2) (op.run src tX) (op.run dst tY) := by
  cases op with
  | new =>
    obtain ⟨le, held⟩ := holds.alloc (n := Node.new bnodeLeaf) (r := 0) (Nat.le_succ _) (Nat.succ_le_succ holds.bound)
      (Nat.succ_pos _) (by simp [Node.new])
    exact ⟨_, le, held, .some ⟨.inr rfl, by simp [BTree.new, Heap.alloc], rfl⟩, rfl⟩
  | call c =>
    cases trees with
    | none => exact Renaming.Sim.error _
    | some trees =>
      exact (holds.call trees c).map fun _ _ _ _ _ _ held related => Renaming.Sim.pure held ⟨.some related.1, related.2⟩

/-- The two `*BTree` variables of a program. -/
inductive Side where
  | a
  | b
  deriving DecidableEq, Repr

/-- Two `*BTree` variables in one process. The heap, and with it `nodeRelationships` and
`nextNodeID`, is one for both. -/
structure Shared where
  heap : Heap
  trees : Side → Option BTree

namespace Shared

/-- Program start: both variables nil. -/
def init : Shared := ⟨Heap.init, fun _ => none⟩

/-- One operation on one variable. -/
def step (w : Shared) (side : Side) (op : TreeOp) : Except String (Shared × Reply) :=
  (op.run w.heap (w.trees side)).map fun (h, t, reply) => (⟨h, Function.update w.trees side t⟩, reply)

/-- An interleaving of operations on the two variables, until one panics, with each reply
tagged by its variable. -/
def run (w : Shared) : List (Side × TreeOp) → Except String (Shared × List (Side × Reply))
  | [] => .ok (w, [])
  | (side, op) :: ops => do
    let (w, reply) ← w.step side op
    let (w, log) ← w.run ops
    return (w, (side, reply) :: log)

end Shared

/-- The entries of one variable, in order. -/
def onSide {α : Type} (side : Side) (l : List (Side × α)) : List α :=
  l.filterMap fun (s, x) => if s = side then some x else none

@[simp] theorem onSide_nil {α : Type} (side : Side) : onSide side ([] : List (Side × α)) = [] := rfl

theorem onSide_cons {α : Type} (side s : Side) (x : α) (l : List (Side × α)) :
    onSide side ((s, x) :: l) = if s = side then x :: onSide side l else onSide side l := by
  by_cases same : s = side <;> simp [onSide, same]

namespace Shared

/-- The variables of `w` kept apart: each is what its own operations build in a heap of their
own, `solo`, carried into the shared heap by a renaming, and the two renamings place their nodes
at different addresses. -/
def Apart (w : Shared) (solo : Side → Heap × Option BTree) : Prop :=
  ∃ E : Side → Renaming,
    (∀ side, (E side).Holds (solo side).1 w.heap ∧ Option.Rel (E side).Trees (solo side).2 (w.trees side)) ∧
      ∀ {side side' p q}, side ≠ side' → (E side).owns p → (E side').owns q → (E side).ptr p ≠ (E side').ptr q

theorem apart_init : init.Apart fun _ => (Heap.init, none) :=
  ⟨fun _ => Renaming.empty, fun _ => ⟨Renaming.Holds.empty Renaming.init_sound, .none⟩, fun _ => nofun⟩

variable {w : Shared} {solo : Side → Heap × Option BTree}

/-- One operation on one variable: its reply, or its panic, is the one the operation gives on
that variable's own heap, and the variables stay apart. -/
theorem Apart.step (apart : w.Apart solo) (side : Side) (op : TreeOp) :
    (w.step side op).map Prod.snd = (op.run (solo side).1 (solo side).2).map (·.2.2) ∧
      ∀ {w' reply}, w.step side op = .ok (w', reply) →
        ∃ h t, op.run (solo side).1 (solo side).2 = .ok (h, t, reply) ∧ w'.Apart (Function.update solo side (h, t)) := by
  obtain ⟨E, held, apart⟩ := apart
  have sim := (held side).1.treeOp (held side).2 op
  unfold Shared.step
  generalize op.run (solo side).1 (solo side).2 = x at sim ⊢
  generalize op.run w.heap (w.trees side) = y at sim ⊢
  match x, y, sim with
  | .error _, .error _, rfl => exact ⟨rfl, nofun⟩
  | .ok (h, t, reply), .ok (h', t', _), ⟨E', le, holds, trees, rfl⟩ =>
    refine ⟨rfl, ?_⟩
    rintro _ _ ⟨⟩
    refine ⟨h, t, rfl, Function.update E side E', fun side' => ?_, fun {s s' _ _} differ => ?_⟩
    · by_cases here : side' = side
      · subst here
        simpa using ⟨holds, trees⟩
      · simpa [here] using ⟨(held side').1.frame le holds.dst_sound (apart here), (held side').2⟩
    · by_cases here : s = side
      · subst here
        rw [Function.update_same, Function.update_noteq (Ne.symm differ)]
        exact le.apart (held s').1 (apart differ)
      · by_cases there : s' = side
        · subst there
          rw [Function.update_same, Function.update_noteq here]
          exact fun owned ownedQ => (le.apart (held s).1 (apart (Ne.symm differ)) ownedQ owned).symm
        · rw [Function.update_noteq here, Function.update_noteq there]
          exact apart differ

/-- A whole interleaving: each variable's replies are those of its own operations run alone from
program start, and the variables stay apart. -/
theorem Apart.run : ∀ {ops : List (Side × TreeOp)} {w w' : Shared} {solo : Side → Heap × Option BTree}
    {log : List (Side × Reply)}, w.Apart solo → w.run ops = .ok (w', log) →
    ∃ solo', w'.Apart solo' ∧
      ∀ side, TreeOp.runs (solo side).1 (solo side).2 (onSide side ops) = .ok ((solo' side).1, (solo' side).2, onSide side log)
  | [], _, _, solo, _, apart, ran => by
    cases ran
    exact ⟨solo, apart, fun _ => rfl⟩
  | (side, op) :: ops, w, _, solo, _, apart, ran => by
    obtain ⟨⟨w₁, reply⟩, stepped, rest⟩ := except_bind_eq_ok.mp ran
    obtain ⟨⟨w₂, log⟩, ranRest, done⟩ := except_bind_eq_ok.mp rest
    cases done
    obtain ⟨h, t, ranOp, apart₁⟩ := (apart.step side op).2 stepped
    obtain ⟨solo', apart', runs⟩ := Apart.run apart₁ ranRest
    refine ⟨solo', apart', fun side' => ?_⟩
    rw [onSide_cons, onSide_cons]
    by_cases here : side = side'
    · subst here
      have mine := runs side
      rw [Function.update_same] at mine
      simp [TreeOp.runs, ranOp, mine]
    · simpa [here, Ne.symm here] using runs side'

end Shared

/-- Independent trees do not interfere: in any program with two `*BTree` variables `a` and `b`
that share the heap, with `NewBTree`, `Insert`, `Get` and `Delete` on either interleaved in any
order, the calls on `b` that the interleaving makes reply as `b`'s own operations reply when run
alone from program start, and the next operation on `b` gives that run's reply or panic. -/
theorem independent_trees_do_not_interfere {ops : List (Side × TreeOp)} {w : Shared} {log : List (Side × Reply)}
    (ran : Shared.init.run ops = .ok (w, log)) (op : TreeOp) :
    ∃ h t, TreeOp.runs Heap.init none (onSide .b ops) = .ok (h, t, onSide .b log) ∧
      (w.step .b op).map Prod.snd = (op.run h t).map (·.2.2) := by
  obtain ⟨solo, apart, runs⟩ := Shared.apart_init.run ran
  exact ⟨(solo .b).1, (solo .b).2, runs .b, (apart.step .b op).1⟩

theorem independent_trees_after_an_insert_on_a :
    ∃ w log, Shared.init.run [(.a, .new), (.b, .new), (.a, .call (.insert (ascii "k") (ascii "v")))] = .ok (w, log) ∧
      ∃ h t, TreeOp.runs Heap.init none (onSide .b [(.a, .new), (.b, .new), (.a, .call (.insert (ascii "k") (ascii "v")))]) =
          .ok (h, t, onSide .b log) ∧
        (w.step .b (.call (.get (ascii "k")))).map Prod.snd = (TreeOp.run (.call (.get (ascii "k"))) h t).map (·.2.2) :=
  ⟨_, _, rfl, @independent_trees_do_not_interfere [(.a, .new), (.b, .new), (.a, .call (.insert (ascii "k") (ascii "v")))] _ _
    rfl _⟩

end GoDatabase
