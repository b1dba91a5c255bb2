import GoDatabase.Raft.Node

namespace GoDatabase

/-- The goroutine of its owner a packet belongs to: the vote goroutine of the election begun
at a term, a heartbeat goroutine sending at a term, or a goroutine of a `replicateLogEntry`
call with what that call captured. -/
inductive Caller
  | vote (election : Nat)
  | heartbeat (term : Nat)
  | replicate (call term logIndex : Nat) (entry : LogEntry)
  deriving DecidableEq, Repr

/-- One outbound RPC of a goroutine: spawned and not yet sent, its request in flight to the
peer, or the peer's reply on its way back. Each is delivered at most once, in any order. -/
inductive Packet
  | spawned (owner peer : Nat) (caller : Caller)
  | voteRequest (owner peer election : Nat) (req : RequestVoteRequest)
  | voteReply (owner peer election : Nat) (resp : RequestVoteResponse)
  | appendRequest (owner peer : Nat) (caller : Caller) (req : AppendEntriesRequest)
  | appendReply (owner peer : Nat) (caller : Caller) (resp : AppendEntriesResponse)
  deriving DecidableEq, Repr

/-- The `AppendEntries` request a heartbeat or replication goroutine builds. `commitIndex` and
the previous term are read without the lock, when the goroutine runs. -/
def Caller.appendRequest (n : RaftNode) : Caller → Option AppendEntriesRequest
  | .vote _ => none
  | .heartbeat term => some ⟨term, n.id, 0, 0, [], n.commitIndex⟩
  | .replicate _ term logIndex entry =>
    some ⟨term, n.id, logIndex - 1, n.getPrevLogTerm (logIndex - 1), [entry], n.commitIndex⟩

/-- The replicas, indexed by their place in the cluster, and every packet of every goroutine. -/
structure Cluster where
  node : Nat → RaftNode
  packets : List Packet

namespace Cluster

/-- The cluster as `NewRaftNode` builds its replicas: each under its own id, with its peers. -/
def init (ids : Nat → String) (peers : Nat → List Nat) : Cluster := ⟨fun i => RaftNode.init (ids i) (peers i), []⟩

def setNode (c : Cluster) (i : Nat) (n : RaftNode) : Cluster :=
  { c with node := Function.update c.node i n }

/-- `electionTimer` fires and runs `startElection`, which spawns one vote goroutine per peer. -/
def electionTimeout (c : Cluster) (i : Nat) : Cluster :=
  { node := Function.update c.node i (c.node i).startElection,
    packets := c.packets ++ (c.node i).peers.map fun p => .spawned i p (.vote ((c.node i).currentTerm + 1)) }

def sendRequestVote (c : Cluster) (owner peer election : Nat) : Cluster :=
  { c with packets := c.packets.erase (.spawned owner peer (.vote election)) ++
      [.voteRequest owner peer election (c.node owner).voteRequest] }

/-- `RaftRPC.RequestVote` at the peer, its reply sent back to the goroutine. -/
def requestVote (c : Cluster) (owner peer election : Nat) (req : RequestVoteRequest) : Cluster :=
  { node := Function.update c.node peer (RaftRPC.requestVote (c.node peer) req).1,
    packets := c.packets.erase (.voteRequest owner peer election req) ++
      [.voteReply owner peer election (RaftRPC.requestVote (c.node peer) req).2] }

def voteReply (c : Cluster) (owner peer election : Nat) (resp : RequestVoteResponse) : Cluster :=
  { node := Function.update c.node owner ((c.node owner).countVote election resp),
    packets := c.packets.erase (.voteReply owner peer election resp) }

/-- `heartbeatTimer` ticks on a Leader and runs `sendHeartbeats`. -/
def heartbeat (c : Cluster) (i : Nat) : Cluster :=
  { c with packets := c.packets ++ (c.node i).peers.map fun p => .spawned i p (.heartbeat (c.node i).currentTerm) }

def sendAppendEntries (c : Cluster) (owner peer : Nat) (caller : Caller) (req : AppendEntriesRequest) :
    Cluster :=
  { c with packets := c.packets.erase (.spawned owner peer caller) ++ [.appendRequest owner peer caller req] }

/-- `RaftRPC.AppendEntries` at the peer, once it has returned `n` and `resp`. -/
def appendEntries (c : Cluster) (owner peer : Nat) (caller : Caller) (req : AppendEntriesRequest)
    (n : RaftNode) (resp : AppendEntriesResponse) : Cluster :=
  { node := Function.update c.node peer n,
    packets := c.packets.erase (.appendRequest owner peer caller req) ++ [.appendReply owner peer caller resp] }

/-- A heartbeat or replication goroutine back under the lock, leaving its owner as `n`. -/
def appendReply (c : Cluster) (owner peer : Nat) (caller : Caller) (resp : AppendEntriesResponse)
    (n : RaftNode) : Cluster :=
  { node := Function.update c.node owner n,
    packets := c.packets.erase (.appendReply owner peer caller resp) }

/-- The event loop takes a client request; a write accepted by a Leader starts
`replicateLogEntry`, one goroutine per peer. -/
def clientRequest (c : Cluster) (i : Nat) (req : ClientRequest) : Cluster :=
  let n := c.node i
  let after := (n.handleClientRequest req).1
  { node := Function.update c.node i (after.answer (n.handleClientRequest req).2),
    packets := c.packets ++ match after.pending with
      | some write => n.peers.map fun p => .spawned i p (.replicate write.call n.currentTerm write.logIndex write.entry)
      | none => [] }

end Cluster

open Cluster in
/-- The steps of a cluster whose replicas are `members`. A step that takes a node's mutex needs
the node not to be wedged; a vote goroutine sends without the lock, so even a wedged node's
spawned vote goroutines run. A packet to a node that is not a replica can only be lost. -/
inductive Step (members : List Nat) : Cluster → Cluster → Prop
  | electionTimeout {c : Cluster} {i : Nat} : i ∈ members → (c.node i).wedged = false →
      (c.node i).state ≠ .leader → Step members c (c.electionTimeout i)
  | sendRequestVote {c : Cluster} {owner peer election : Nat} :
      .spawned owner peer (.vote election) ∈ c.packets → Step members c (c.sendRequestVote owner peer election)
  | requestVote {c : Cluster} {owner peer election : Nat} {req : RequestVoteRequest} :
      .voteRequest owner peer election req ∈ c.packets → peer ∈ members → (c.node peer).wedged = false →
      Step members c (c.requestVote owner peer election req)
  | voteReply {c : Cluster} {owner peer election : Nat} {resp : RequestVoteResponse} :
      .voteReply owner peer election resp ∈ c.packets → (c.node owner).wedged = false →
      Step members c (c.voteReply owner peer election resp)
  | heartbeat {c : Cluster} {i : Nat} : i ∈ members → (c.node i).wedged = false →
      (c.node i).state = .leader → Step members c (c.heartbeat i)
  | sendAppendEntries {c : Cluster} {owner peer : Nat} {caller : Caller} {req : AppendEntriesRequest} :
      .spawned owner peer caller ∈ c.packets → caller.appendRequest (c.node owner) = some req →
      Step members c (c.sendAppendEntries owner peer caller req)
  | appendEntries {c : Cluster} {owner peer : Nat} {caller : Caller} {req : AppendEntriesRequest}
      {n : RaftNode} {resp : AppendEntriesResponse} :
      .appendRequest owner peer caller req ∈ c.packets → peer ∈ members → (c.node peer).wedged = false →
      RaftRPC.appendEntries (c.node peer) req = .ok (n, resp) →
      Step members c (c.appendEntries owner peer caller req n resp)
  | heartbeatReply {c : Cluster} {owner peer term : Nat} {resp : AppendEntriesResponse} :
      .appendReply owner peer (.heartbeat term) resp ∈ c.packets → (c.node owner).wedged = false →
      Step members c (c.appendReply owner peer (.heartbeat term) resp ((c.node owner).heartbeatReply resp))
  | replicateReply {c : Cluster} {owner peer call term logIndex : Nat} {entry : LogEntry}
      {resp : AppendEntriesResponse} {n : RaftNode} :
      .appendReply owner peer (.replicate call term logIndex entry) resp ∈ c.packets →
      (c.node owner).wedged = false → (c.node owner).replicateReply call logIndex resp = .ok n →
      Step members c (c.appendReply owner peer (.replicate call term logIndex entry) resp n)
  | clientRequest {c : Cluster} {i : Nat} (req : ClientRequest) : i ∈ members →
      (c.node i).wedged = false → (c.node i).pending = none → Step members c (c.clientRequest i req)
  | finishClientRequest {c : Cluster} {i : Nat} {write : PendingWrite} : (c.node i).wedged = false →
      (c.node i).pending = some write →
      Step members c (c.setNode i (((c.node i).finishClientRequest write).1.answer
        (some ((c.node i).finishClientRequest write).2)))
  | stepDown {c : Cluster} {i : Nat} : i ∈ members → (c.node i).wedged = false →
      Step members c (c.setNode i (c.node i).stepDown)
  | drop {c : Cluster} {p : Packet} : p ∈ c.packets → Step members c { c with packets := c.packets.erase p }

/-- The cluster states every interleaving of steps reaches from the fresh replicas, whatever ids
they were started under. -/
inductive Reachable (members : List Nat) (peers : Nat → List Nat) : Cluster → Prop
  | init (ids : Nat → String) : Reachable members peers (Cluster.init ids peers)
  | step {c c' : Cluster} : Reachable members peers c → Step members c c' → Reachable members peers c'

end GoDatabase
