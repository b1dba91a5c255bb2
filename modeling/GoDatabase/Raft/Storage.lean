import GoDatabase.Raft.Registry

namespace GoDatabase

/-- `RaftNode.Get`: it submits operation `get` and returns the value of a successful answer. The
event loop answers a `get` at once unless the node is wedged, and then the wait times out. -/
def RaftNode.get (n : RaftNode) (key : Bytes) : Except String Bytes :=
  if n.wedged then .error "timeout waiting for response"
  else match (n.handleClientRequest ⟨"get", key, []⟩).2 with
    | some resp => if resp.success then .ok resp.value else .error resp.error
    | none => .error "timeout waiting for response"

/-- `RaftStorage.Get` through the registry: the replica must be registered under `nodeID`. -/
def RaftStorage.get (members : List Nat) (c : Cluster) (nodeID : Nat) (key : Bytes) :
    Except String Bytes :=
  if nodeID ∈ members then (c.node nodeID).get key else .error "failed to get node"

/-- The event loop answers every `get` at once with a failure and leaves the node as it was:
`not the leader` on a Follower or Candidate, and on a Leader `unknown operation: get`, since the
operation switch knows only `put` and `delete`. -/
theorem handleClientRequest_get (n : RaftNode) (key value : Bytes) :
    ∃ error, n.handleClientRequest ⟨"get", key, value⟩ = (n, some ⟨false, [], error⟩) := by
  unfold RaftNode.handleClientRequest
  split
  · exact ⟨_, rfl⟩
  · simp [buildCommand]

/-- Where a write through `RaftStorage` ends: blocked for good on a node's lock, an error, or
handed to the replica's `SubmitRequest`, which the cluster's client-request step carries on. -/
inductive RaftStorage.Outcome
  | blocked
  | error (e : String)
  | submitted (req : ClientRequest)
  deriving DecidableEq, Repr

/-- The body `RaftStorage.Put` and `RaftStorage.Delete` share. The first search for a Leader walks
the registry of `c` in the map order `order`; after the 100 ms sleep the retry walks the cluster
`c'` the other goroutines have moved to, in the order `order'`. -/
def RaftStorage.write (members : List Nat) (address : Nat → String) (c c' : Cluster) (order order' : List Nat)
    (nodeID : Nat) (req : ClientRequest) : RaftStorage.Outcome :=
  if nodeID ∉ members then .error ("failed to get node: node " ++ toString nodeID ++ " not found")
  else match (c.node nodeID).isLeader with
    | none => .blocked
    | some true => .submitted req
    | some false =>
      match GlobalCluster.getLeader c order with
      | none => .blocked
      | some (.ok leader) => .error ("not the leader, leader is at " ++ address leader)
      | some (.error _) =>
        match GlobalCluster.getLeader c' order' with
        | none => .blocked
        | some (.ok leader) => .error ("not the leader, leader is at " ++ address leader)
        | some (.error e) => .error ("no leader available: " ++ e)

def RaftStorage.put (members : List Nat) (address : Nat → String) (c c' : Cluster) (order order' : List Nat)
    (nodeID : Nat) (key value : Bytes) : RaftStorage.Outcome :=
  RaftStorage.write members address c c' order order' nodeID ⟨"put", key, value⟩

def RaftStorage.delete (members : List Nat) (address : Nat → String) (c c' : Cluster) (order order' : List Nat)
    (nodeID : Nat) (key : Bytes) : RaftStorage.Outcome :=
  RaftStorage.write members address c c' order order' nodeID ⟨"delete", key, []⟩

/-- A write that never reaches a Leader: it blocks, or fails because the node is not registered or
because no Leader answers. -/
def RaftStorage.Outcome.Refused (nodeID : Nat) : RaftStorage.Outcome → Prop
  | .blocked => True
  | .error e => e = "failed to get node: node " ++ toString nodeID ++ " not found" ∨
      e = "no leader available: no leader found"
  | .submitted _ => False

/-- `RaftStorage.Put` or `Delete` returns nil: the write was handed to the replica's
`SubmitRequest`, and by the cluster state `later` the replica has answered a client with success. -/
def RaftStorage.Outcome.ReturnsNil (nodeID : Nat) (later : Cluster) : RaftStorage.Outcome → Prop
  | .submitted _ => ∃ r ∈ (later.node nodeID).replies, r.success = true
  | _ => False

theorem RaftStorage.Outcome.Refused.not_returnsNil {o : RaftStorage.Outcome} {nodeID : Nat} {later : Cluster}
    (refused : o.Refused nodeID) : ¬ o.ReturnsNil nodeID later := by
  cases o with
  | submitted => exact refused.elim
  | _ => exact id

namespace Cluster.Idle

variable {c : Cluster}

theorem write_refused {c' : Cluster} (idle : c.Idle) (idle' : c'.Idle) (members : List Nat) (address : Nat → String)
    (order order' : List Nat) (nodeID : Nat) (req : ClientRequest) :
    (RaftStorage.write members address c c' order order' nodeID req).Refused nodeID := by
  unfold RaftStorage.write
  by_cases registered : nodeID ∈ members
  · rw [if_neg (not_not_intro registered)]
    cases answer : (c.node nodeID).isLeader with
    | none => trivial
    | some leader =>
      cases leader
      · rcases idle.getLeader_finds_none order with first | first <;> rw [first]
        · trivial
        rcases idle'.getLeader_finds_none order' with second | second <;> rw [second]
        · trivial
        · exact .inr rfl
      · exact absurd answer (idle.isLeader_ne_true nodeID)
  · rw [if_pos registered]
    exact .inl rfl

end Cluster.Idle

/-- The Raft façade never hands a write to a Leader, from any reachable cluster and whatever the
registry's walk order: `Put` and `Delete` block, or fail because the node is not registered or
no Leader answers. The redirect to the Leader's address is never returned. -/
theorem raft_storage_writes_never_reach_leader {members : List Nat} {peers : Nat → List Nat} {c c' : Cluster}
    (reach : Reachable members peers c) (later : Reachable members peers c') (address : Nat → String)
    (order order' : List Nat) (nodeID : Nat) (key value : Bytes) :
    (RaftStorage.put members address c c' order order' nodeID key value).Refused nodeID ∧
      (RaftStorage.delete members address c c' order order' nodeID key).Refused nodeID :=
  ⟨reach.idle.write_refused later.idle _ _ _ _ _ _, reach.idle.write_refused later.idle _ _ _ _ _ _⟩

theorem raft_storage_writes_never_reach_leader_initially :
    Reachable [0, 1, 2] (fun i => [0, 1, 2].erase i) (Cluster.init toString fun i => [0, 1, 2].erase i) ∧
      (RaftStorage.put [0, 1, 2] toString (Cluster.init toString fun i => [0, 1, 2].erase i)
        (Cluster.init toString fun i => [0, 1, 2].erase i) [0, 1, 2] [2, 1, 0] 0 (ascii "k") (ascii "v")).Refused 0 ∧
      (RaftStorage.delete [0, 1, 2] toString (Cluster.init toString fun i => [0, 1, 2].erase i)
        (Cluster.init toString fun i => [0, 1, 2].erase i) [0, 1, 2] [2, 1, 0] 0 (ascii "k")).Refused 0 :=
  have start : Reachable [0, 1, 2] (fun i => [0, 1, 2].erase i) _ := .init toString
  ⟨start, raft_storage_writes_never_reach_leader start start toString [0, 1, 2] [2, 1, 0] 0 (ascii "k") (ascii "v")⟩

end GoDatabase
