import GoDatabase.Raft.Log

namespace GoDatabase

inductive NodeState
  | follower
  | candidate
  | leader
  deriving DecidableEq, Repr

structure RequestVoteRequest where
  term : Nat
  candidateID : String
  lastLogIndex : Nat
  lastLogTerm : Nat
  deriving DecidableEq, Repr

structure RequestVoteResponse where
  term : Nat
  voteGranted : Bool
  deriving DecidableEq, Repr

structure AppendEntriesRequest where
  term : Nat
  leaderID : String
  prevLogIndex : Nat
  prevLogTerm : Nat
  entries : List LogEntry
  leaderCommit : Nat
  deriving DecidableEq, Repr

structure AppendEntriesResponse where
  term : Nat
  success : Bool
  deriving DecidableEq, Repr

/-- `raft.ClientRequest` without its reply channel. -/
structure ClientRequest where
  operation : String
  key : Bytes
  value : Bytes
  deriving DecidableEq, Repr

/-- `raft.ClientResponse`, the Go `error` kept as its text. -/
structure ClientResponse where
  success : Bool
  value : Bytes
  error : String
  deriving DecidableEq, Repr

/-- A client write the event loop is inside of: `handleClientRequest` has appended `entry` at
`logIndex` and waits on the `call`-th `replicateLogEntry`. -/
structure PendingWrite where
  request : ClientRequest
  entry : LogEntry
  logIndex : Nat
  call : Nat
  deriving DecidableEq, Repr

/-- The fields of `RaftNode` the protocol reads and writes. Ids are Go's strings, and `votedFor`
holds the empty string while the node has voted for nobody, as in Go, where the empty string is
also an id `main` accepts. The goroutine-local counters live beside them: `votes e` is
the `votes` variable of the election `startElection` began at term `e`, and `successes` the
`successCount` of each `replicateLogEntry` call. `applied` records the (log index, command)
pairs handed to storage, in order. `wedged` says the node's mutex is held for good by a
goroutine that can never release it. -/
structure RaftNode where
  id : String
  peers : List Nat
  currentTerm : Nat
  votedFor : String
  log : List LogEntry
  commitIndex : Nat
  lastApplied : Nat
  state : NodeState
  votes : Nat → Nat
  successes : List Nat
  pending : Option PendingWrite
  replies : List ClientResponse
  applied : List (Nat × Bytes)
  wedged : Bool

/-- `NewRaftNode`: a Follower at term 0 with an empty log. -/
def RaftNode.init (id : String) (peers : List Nat) : RaftNode where
  id := id
  peers := peers
  currentTerm := 0
  votedFor := ""
  log := []
  commitIndex := 0
  lastApplied := 0
  state := .follower
  votes := fun _ => 0
  successes := []
  pending := none
  replies := []
  applied := []
  wedged := false

namespace RaftNode

def getLastLogTerm (n : RaftNode) : Nat := (n.log.getLast?.map LogEntry.term).getD 0

def getPrevLogTerm (n : RaftNode) (index : Nat) : Nat :=
  if index = 0 then 0 else ((n.log[index - 1]?).map LogEntry.term).getD 0

/-- The reaction to any RPC carrying a higher term: adopt it, become Follower, forget the vote. -/
def adoptTerm (n : RaftNode) (term : Nat) : RaftNode :=
  { n with currentTerm := term, state := .follower, votedFor := "" }

/-- The locked part of `startElection`; the per-peer goroutines are spawned by the cluster. -/
def startElection (n : RaftNode) : RaftNode :=
  { n with state := .candidate, currentTerm := n.currentTerm + 1, votedFor := n.id,
           votes := Function.update n.votes (n.currentTerm + 1) 1 }

/-- `becomeLeader` sets the state and then calls `sendHeartbeats`, whose `RLock` waits for the
write lock its own caller (the vote goroutine of `startElection`) holds: the goroutine blocks
for good and the node's mutex is never released. -/
def becomeLeader (n : RaftNode) : RaftNode :=
  { n with state := .leader, wedged := true }

def stepDown (n : RaftNode) : RaftNode :=
  if n.state = .leader then { n with state := .follower, votedFor := "" } else n

/-- The request a vote goroutine sends; it reads the node's fields without the lock, so it
sees them as they are when it runs. -/
def voteRequest (n : RaftNode) : RequestVoteRequest :=
  ⟨n.currentTerm, n.id, n.log.length, n.getLastLogTerm⟩

/-- The locked reply handling in the vote goroutine of the election begun at `election`. It
checks neither the node's state nor its current term before counting the vote. -/
def countVote (n : RaftNode) (election : Nat) (resp : RequestVoteResponse) : RaftNode :=
  if resp.term > n.currentTerm then n.adoptTerm resp.term
  else if resp.voteGranted then
    let counted := { n with votes := Function.update n.votes election (n.votes election + 1) }
    if counted.votes election > (n.peers.length + 1) / 2 then counted.becomeLeader else counted
  else n

/-- The locked reply handling in a heartbeat goroutine of `sendHeartbeats`. -/
def heartbeatReply (n : RaftNode) (resp : AppendEntriesResponse) : RaftNode :=
  if resp.term > n.currentTerm then n.adoptTerm resp.term else n

/-- The loop of `applyCommittedEntries`, one committed entry per unit of fuel; indexing the
log past its end panics, as does `applyCommittedEntry`. -/
def applyLoop : Nat → RaftNode → Except String RaftNode
  | 0, n => .ok n
  | fuel + 1, n =>
    if n.lastApplied < n.commitIndex then
      match n.log[n.lastApplied]? with
      | none => .error "index out of range"
      | some entry => do
        let _ ← applyCommittedEntry entry
        applyLoop fuel { n with lastApplied := n.lastApplied + 1,
                                applied := n.applied ++ [(n.lastApplied + 1, entry.command)] }
    else .ok n

def applyCommittedEntries (n : RaftNode) : Except String RaftNode :=
  applyLoop (n.commitIndex - n.lastApplied) n

end RaftNode

namespace RaftRPC

def isLogUpToDate (n : RaftNode) (candidateLastIndex candidateLastTerm : Nat) : Bool :=
  candidateLastTerm > n.getLastLogTerm ||
    (candidateLastTerm == n.getLastLogTerm && candidateLastIndex >= n.log.length)

def logContainsEntry (n : RaftNode) (index term : Nat) : Bool :=
  if index = 0 then true
  else if index > n.log.length then false
  else (n.log[index - 1]?.map LogEntry.term) == some term

def requestVote (n : RaftNode) (req : RequestVoteRequest) : RaftNode × RequestVoteResponse :=
  if req.term < n.currentTerm then (n, ⟨n.currentTerm, false⟩)
  else
    let n := if req.term > n.currentTerm then n.adoptTerm req.term else n
    if (n.votedFor = "" ∨ n.votedFor = req.candidateID) ∧
        isLogUpToDate n req.lastLogIndex req.lastLogTerm = true then
      ({ n with votedFor := req.candidateID }, ⟨n.currentTerm, true⟩)
    else (n, ⟨n.currentTerm, false⟩)

/-- The conflict scan of `AppendEntries`: the first new entry whose slot, read 0-based at
`PrevLogIndex + 1 + i`, holds another term. That slot is one past the entry's own. -/
def firstConflict (log : List LogEntry) : Nat → List LogEntry → Option Nat
  | _, [] => none
  | logIndex, entry :: rest =>
    match log[logIndex]? with
    | some existing =>
      if existing.term ≠ entry.term then some logIndex else firstConflict log (logIndex + 1) rest
    | none => firstConflict log (logIndex + 1) rest

/-- Every entry of a request appended at the end of the log, renumbered to its new slot. -/
def appendAll : List LogEntry → List LogEntry → List LogEntry
  | log, [] => log
  | log, entry :: rest => appendAll (log ++ [{ entry with index := log.length + 1 }]) rest

def applyCommittedEntries (n : RaftNode) : Except String RaftNode :=
  RaftNode.applyLoop (n.commitIndex - n.lastApplied) n

def appendEntries (n : RaftNode) (req : AppendEntriesRequest) :
    Except String (RaftNode × AppendEntriesResponse) :=
  if req.term < n.currentTerm then .ok (n, ⟨n.currentTerm, false⟩)
  else
    let n := if req.term > n.currentTerm then n.adoptTerm req.term else n
    if req.entries = [] then .ok (n, ⟨n.currentTerm, true⟩)
    else if logContainsEntry n req.prevLogIndex req.prevLogTerm = false then .ok (n, ⟨n.currentTerm, false⟩)
    else
      let kept := match firstConflict n.log (req.prevLogIndex + 1) req.entries with
        | some conflict => n.log.take conflict
        | none => n.log
      let log := appendAll kept req.entries
      let commitIndex :=
        if req.leaderCommit > n.commitIndex then min req.leaderCommit log.length else n.commitIndex
      (applyCommittedEntries { n with log, commitIndex }).map fun n => (n, ⟨n.currentTerm, true⟩)

end RaftRPC

namespace RaftNode

/-- The locked reply handling in a goroutine of the `call`-th `replicateLogEntry`, which
replicates the entry at `logIndex`. A success counts toward that call alone, and a majority of
them sets `commitIndex` to `logIndex` whatever it was. -/
def replicateReply (n : RaftNode) (call logIndex : Nat) (resp : AppendEntriesResponse) :
    Except String RaftNode :=
  if resp.term > n.currentTerm then .ok (n.adoptTerm resp.term)
  else if resp.success then
    let count := n.successes.getD call 0 + 1
    let counted := { n with successes := n.successes.set call count }
    if count > (n.peers.length + 1) / 2 then applyCommittedEntries { counted with commitIndex := logIndex }
    else .ok counted
  else .ok n

/-- `handleClientRequest` up to the replication wait, with the answer it sends at once, if any.
A node that is not Leader answers `not the leader`, as a Leader answers an operation other than
`put` and `delete` (`get` included) as unknown; otherwise the entry is appended with the Leader's
term and the node's next `replicateLogEntry` call begins. -/
def handleClientRequest (n : RaftNode) (req : ClientRequest) : RaftNode × Option ClientResponse :=
  if n.state ≠ .leader then (n, some ⟨false, [], "not the leader"⟩)
  else match buildCommand req.operation req.key req.value with
    | none => (n, some ⟨false, [], "unknown operation: " ++ req.operation⟩)
    | some command =>
      let entry : LogEntry := ⟨n.currentTerm, n.log.length + 1, command⟩
      ({ n with log := n.log ++ [entry], successes := n.successes ++ [1],
                pending := some ⟨req, entry, n.log.length + 1, n.successes.length⟩ }, none)

/-- The end of `handleClientRequest` after the wait: if the entry's index is committed, the
Leader applies the entry once more itself, through `applyEntry`, and answers success. The
`get` branch of the success path is never taken, since a `get` builds no entry. -/
def finishClientRequest (n : RaftNode) (write : PendingWrite) : RaftNode × ClientResponse :=
  if n.commitIndex ≥ write.logIndex then
    ({ n with pending := none, applied := n.applied ++ [(write.entry.index, write.entry.command)] },
      ⟨true, [], ""⟩)
  else ({ n with pending := none }, ⟨false, [], "failed to replicate to majority"⟩)

/-- A client answer sent on the request's channel, kept with the node that sent it. -/
def answer (n : RaftNode) (resp : Option ClientResponse) : RaftNode :=
  { n with replies := n.replies ++ resp.toList }

end RaftNode

end GoDatabase
