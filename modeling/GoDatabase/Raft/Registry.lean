import GoDatabase.Raft.LeaderDeadlock

namespace GoDatabase

/-- `IsLeader` takes the node's read lock, so on a wedged node it never returns. -/
def RaftNode.isLeader (n : RaftNode) : Option Bool :=
  if n.wedged then none else some (n.state = .leader)

/-- `GetState` takes the read lock too. -/
def RaftNode.getState (n : RaftNode) : Option (NodeState × Nat) :=
  if n.wedged then none else some (n.state, n.currentTerm)

namespace GlobalCluster

/-- `GetLeader`: the first registered node, in the order the map is walked, whose `IsLeader`
answers true; `none` when one of the calls blocks. -/
def getLeader (c : Cluster) : List Nat → Option (Except String Nat)
  | [] => some (.error "no leader found")
  | i :: order => (c.node i).isLeader.bind fun leader => if leader then some (.ok i) else getLeader c order

/-- The Leaders one tick of `StartHeartbeatMonitor` collects over the registry in map order;
`none` when an `IsLeader` call blocks. -/
def monitorLeaders (c : Cluster) : List Nat → Option (List Nat)
  | [] => some []
  | i :: order => (c.node i).isLeader.bind fun leader =>
      (monitorLeaders c order).map fun leaders => if leader then i :: leaders else leaders

/-- The Leader with the highest term by `GetState`, the first of equal ones, starting from the
term -1. -/
def highestTermLeader (c : Cluster) (leaders : List Nat) : Option (Option Nat) :=
  (leaders.foldlM (fun (best : Option Nat × Int) i => (c.node i).getState.map fun (_, term) =>
    if best.2 < term then (some i, (term : Int)) else best) (none, -1)).map Prod.fst

/-- `StepDown` of every Leader but `best`; `StepDown` takes the node's lock. -/
def stepDownOthers (best : Option Nat) : Cluster → List Nat → Option Cluster
  | c, [] => some c
  | c, i :: leaders =>
    if some i = best then stepDownOthers best c leaders
    else if (c.node i).wedged then none
    else stepDownOthers best (c.setNode i (c.node i).stepDown) leaders

/-- One tick of `StartHeartbeatMonitor`: with more than one Leader, all but the one with the
highest term step down. `none` when the goroutine blocks for good. -/
def heartbeatMonitorTick (c : Cluster) (order : List Nat) : Option Cluster := do
  let leaders ← monitorLeaders c order
  if 1 < leaders.length then
    let best ← highestTermLeader c leaders
    stepDownOthers best c leaders
  else pure c

end GlobalCluster

namespace Cluster.Idle

variable {c : Cluster}

/-- A Leader is wedged, so `IsLeader` answers false or blocks. -/
theorem isLeader_eq (idle : c.Idle) (i : Nat) :
    (c.node i).isLeader = if (c.node i).wedged then none else some false := by
  unfold RaftNode.isLeader
  split_ifs with wedged
  · rfl
  · simpa using (idle.nodes i).not_leader (Bool.not_eq_true _ ▸ wedged)

theorem isLeader_ne_true (idle : c.Idle) (i : Nat) : (c.node i).isLeader ≠ some true := by
  rw [idle.isLeader_eq i]
  split_ifs <;> nofun

/-- `GetLeader` finds no Leader: it blocks on a wedged node or walks the whole registry. -/
theorem getLeader_finds_none (idle : c.Idle) : ∀ order : List Nat,
    GlobalCluster.getLeader c order = none ∨ GlobalCluster.getLeader c order = some (.error "no leader found")
  | [] => .inr rfl
  | i :: order => by
    unfold GlobalCluster.getLeader
    rw [idle.isLeader_eq i]
    split_ifs
    · exact .inl rfl
    · exact getLeader_finds_none idle order

/-- The monitor collects no Leader: it blocks on the first wedged node of the walk. -/
theorem monitorLeaders_eq (idle : c.Idle) : ∀ order : List Nat,
    GlobalCluster.monitorLeaders c order = if order.any fun i => (c.node i).wedged then none else some []
  | [] => rfl
  | i :: order => by
    unfold GlobalCluster.monitorLeaders
    rw [idle.isLeader_eq i, monitorLeaders_eq idle order, List.any_cons]
    by_cases wedged : (c.node i).wedged <;> simp [wedged]

end Cluster.Idle

/-- The monitor meant to keep one Leader never steps one down: in every reachable cluster and for
every walk order, a tick blocks for good when the registry holds a wedged node, every Leader
among them, and otherwise leaves the cluster as it was. -/
theorem heartbeat_monitor_never_steps_down {members : List Nat} {peers : Nat → List Nat} {c : Cluster}
    (reach : Reachable members peers c) (order : List Nat) :
    GlobalCluster.heartbeatMonitorTick c order = if order.any fun i => (c.node i).wedged then none else some c := by
  unfold GlobalCluster.heartbeatMonitorTick
  rw [reach.idle.monitorLeaders_eq order]
  split <;> rfl

theorem heartbeat_monitor_never_steps_down_initially :
    Reachable [0, 1, 2] (fun i => [0, 1, 2].erase i) (Cluster.init toString fun i => [0, 1, 2].erase i) ∧
      GlobalCluster.heartbeatMonitorTick (Cluster.init toString fun i => [0, 1, 2].erase i) [0, 1, 2] =
        if [0, 1, 2].any fun i => ((Cluster.init toString fun i => [0, 1, 2].erase i).node i).wedged then none
        else some (Cluster.init toString fun i => [0, 1, 2].erase i) :=
  have start : Reachable [0, 1, 2] (fun i => [0, 1, 2].erase i) _ := .init toString
  ⟨start, heartbeat_monitor_never_steps_down start [0, 1, 2]⟩

end GoDatabase
