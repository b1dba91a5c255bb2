import GoDatabase.Raft.Cluster

namespace GoDatabase

/-- A replica that is Leader only while wedged, and on which no write has ever been appended,
committed, applied or acknowledged. -/
structure RaftNode.Idle (n : RaftNode) : Prop where
  leader_wedged : n.state = .leader → n.wedged = true
  log_empty : n.log = []
  commit_zero : n.commitIndex = 0
  lastApplied_zero : n.lastApplied = 0
  applied_empty : n.applied = []
  no_pending : n.pending = none
  replies_failed : ∀ r ∈ n.replies, r.success = false

namespace RaftNode.Idle

variable {n : RaftNode}

theorem not_leader (idle : n.Idle) (running : n.wedged = false) : n.state ≠ .leader :=
  fun leader => by simp [idle.leader_wedged leader] at running

theorem init (id : String) (peers : List Nat) : (RaftNode.init id peers).Idle where
  leader_wedged := nofun
  log_empty := rfl
  commit_zero := rfl
  lastApplied_zero := rfl
  applied_empty := rfl
  no_pending := rfl
  replies_failed := nofun

theorem adoptTerm (idle : n.Idle) (term : Nat) : (n.adoptTerm term).Idle :=
  { idle with leader_wedged := nofun }

theorem startElection (idle : n.Idle) : n.startElection.Idle :=
  { idle with leader_wedged := nofun }

theorem stepDown (idle : n.Idle) : n.stepDown.Idle := by
  unfold RaftNode.stepDown
  split
  · exact { idle with leader_wedged := nofun }
  · exact idle

theorem requestVote (idle : n.Idle) (req : RequestVoteRequest) : (RaftRPC.requestVote n req).1.Idle := by
  unfold RaftRPC.requestVote
  dsimp only
  split_ifs
  · exact idle
  · exact { idle.adoptTerm req.term with }
  · exact idle.adoptTerm req.term
  · exact { idle with }
  · exact idle

/-- Counting a vote either adopts a newer term, or counts, and a majority makes the node Leader
and wedges it in the same step. -/
theorem countVote (idle : n.Idle) (election : Nat) (resp : RequestVoteResponse) :
    (n.countVote election resp).Idle := by
  unfold RaftNode.countVote
  split
  · exact idle.adoptTerm _
  · split
    · dsimp only
      split
      · exact { idle with leader_wedged := fun _ => rfl }
      · exact { idle with }
    · exact idle

/-- A replica that is not wedged is not Leader, so it turns every client request away. -/
theorem handleClientRequest (idle : n.Idle) (running : n.wedged = false) (req : ClientRequest) :
    n.handleClientRequest req = (n, some ⟨false, [], "not the leader"⟩) := by
  simp [RaftNode.handleClientRequest, idle.not_leader running]

theorem answer_refusal (idle : n.Idle) (error : String) : (n.answer (some ⟨false, [], error⟩)).Idle :=
  { idle with
    replies_failed := fun r member => by
      rcases List.mem_append.mp member with old | refusal
      · exact idle.replies_failed r old
      · simp only [Option.toList_some, List.mem_singleton] at refusal
        rw [refusal] }

end RaftNode.Idle

/-- The packets of election traffic: vote goroutines, their requests and their replies. -/
def Packet.isVote : Packet → Bool
  | .spawned _ _ (.vote _) => true
  | .voteRequest .. => true
  | .voteReply .. => true
  | _ => false

/-- The invariant of the cluster: every replica is idle and only election traffic is in flight. -/
structure Cluster.Idle (c : Cluster) : Prop where
  nodes : ∀ i, (c.node i).Idle
  votes_only : ∀ p ∈ c.packets, p.isVote = true

namespace Cluster.Idle

variable {c : Cluster}

theorem update (idle : c.Idle) {i : Nat} {n : RaftNode} (fresh : n.Idle) :
    ∀ j, (Function.update c.node i n j).Idle := by
  intro j
  by_cases same : j = i
  · subst same
    simpa using fresh
  · simpa [same] using idle.nodes j

theorem erase (idle : c.Idle) (p : Packet) : ∀ q ∈ c.packets.erase p, q.isVote = true :=
  fun q member => idle.votes_only q (List.mem_of_mem_erase member)

theorem erase_append (idle : c.Idle) (p : Packet) {new : List Packet} (fresh : ∀ q ∈ new, q.isVote = true) :
    ∀ q ∈ c.packets.erase p ++ new, q.isVote = true := by
  intro q member
  rcases List.mem_append.mp member with old | added
  · exact idle.erase p q old
  · exact fresh q added

theorem not_appendRequest (idle : c.Idle) {owner peer : Nat} {caller : Caller} {req : AppendEntriesRequest} :
    .appendRequest owner peer caller req ∉ c.packets :=
  fun member => by simpa [Packet.isVote] using idle.votes_only _ member

theorem not_appendReply (idle : c.Idle) {owner peer : Nat} {caller : Caller} {resp : AppendEntriesResponse} :
    .appendReply owner peer caller resp ∉ c.packets :=
  fun member => by simpa [Packet.isVote] using idle.votes_only _ member

/-- A spawned goroutine that builds an `AppendEntries` request is a heartbeat or replication
goroutine, and none was ever spawned. -/
theorem no_append_goroutine (idle : c.Idle) {owner peer : Nat} {caller : Caller} {req : AppendEntriesRequest}
    (member : .spawned owner peer caller ∈ c.packets) (builds : caller.appendRequest (c.node owner) = some req) :
    False := by
  have vote := idle.votes_only _ member
  cases caller with
  | vote => simp [Caller.appendRequest] at builds
  | heartbeat => simp [Packet.isVote] at vote
  | replicate => simp [Packet.isVote] at vote

theorem init (ids : Nat → String) (peers : Nat → List Nat) : (Cluster.init ids peers).Idle where
  nodes i := RaftNode.Idle.init (ids i) (peers i)
  votes_only := nofun

/-- Every step keeps the cluster idle. The steps that would write (a heartbeat, replication,
`AppendEntries`, a Leader's client write) each need a Leader that is not wedged, or a packet
that only such steps create. -/
theorem step {members : List Nat} {c' : Cluster} (idle : c.Idle) (step : Step members c c') : c'.Idle := by
  cases step with
  | @electionTimeout i _ _ _ =>
    refine ⟨idle.update (idle.nodes i).startElection, fun q member => ?_⟩
    rcases List.mem_append.mp member with old | spawned
    · exact idle.votes_only q old
    · obtain ⟨_, _, rfl⟩ := List.mem_map.mp spawned
      rfl
  | sendRequestVote _ => exact ⟨idle.nodes, idle.erase_append _ (by simp [Packet.isVote])⟩
  | @requestVote _ peer _ req _ _ _ =>
    exact ⟨idle.update ((idle.nodes peer).requestVote req), idle.erase_append _ (by simp [Packet.isVote])⟩
  | @voteReply owner _ election resp _ _ =>
    exact ⟨idle.update ((idle.nodes owner).countVote election resp), idle.erase _⟩
  | @heartbeat i _ running leader => exact absurd leader ((idle.nodes i).not_leader running)
  | sendAppendEntries member builds => exact (idle.no_append_goroutine member builds).elim
  | appendEntries member => exact absurd member idle.not_appendRequest
  | heartbeatReply member => exact absurd member idle.not_appendReply
  | replicateReply member => exact absurd member idle.not_appendReply
  | @clientRequest i req _ running _ =>
    simp only [Cluster.clientRequest, (idle.nodes i).handleClientRequest running req,
      (idle.nodes i).no_pending, List.append_nil]
    exact ⟨idle.update ((idle.nodes i).answer_refusal _), idle.votes_only⟩
  | @finishClientRequest i _ _ pending => simp [(idle.nodes i).no_pending] at pending
  | @stepDown i _ _ => exact ⟨idle.update (idle.nodes i).stepDown, idle.votes_only⟩
  | drop _ => exact ⟨idle.nodes, idle.erase _⟩

end Cluster.Idle

/-- In every reachable cluster every Leader is wedged and no write has ever been appended,
committed, applied or acknowledged anywhere. -/
theorem Reachable.idle {members : List Nat} {peers : Nat → List Nat} {c : Cluster}
    (reach : Reachable members peers c) : c.Idle := by
  induction reach with
  | init ids => exact Cluster.Idle.init ids peers
  | step _ step ih => exact ih.step step

/-- The self-deadlock in `becomeLeader` stops every write: in every reachable cluster each Leader
is wedged, and no replica holds a log entry, has committed anything, or has answered a client
with success. -/
theorem leaders_wedged_and_no_write {members : List Nat} {peers : Nat → List Nat} {c : Cluster}
    (reach : Reachable members peers c) (i : Nat) :
    ((c.node i).state = .leader → (c.node i).wedged = true) ∧ (c.node i).log = [] ∧
      (c.node i).commitIndex = 0 ∧ ∀ r ∈ (c.node i).replies, r.success = false :=
  have idle := reach.idle.nodes i
  ⟨idle.leader_wedged, idle.log_empty, idle.commit_zero, idle.replies_failed⟩

theorem leaders_wedged_and_no_write_initially :
    Reachable [0, 1, 2] (fun i => [0, 1, 2].erase i) (Cluster.init toString fun i => [0, 1, 2].erase i) ∧
      (((Cluster.init toString fun i => [0, 1, 2].erase i).node 0).state = .leader →
        ((Cluster.init toString fun i => [0, 1, 2].erase i).node 0).wedged = true) ∧
      ((Cluster.init toString fun i => [0, 1, 2].erase i).node 0).log = [] ∧
      ((Cluster.init toString fun i => [0, 1, 2].erase i).node 0).commitIndex = 0 ∧
      ∀ r ∈ ((Cluster.init toString fun i => [0, 1, 2].erase i).node 0).replies, r.success = false :=
  have start : Reachable [0, 1, 2] (fun i => [0, 1, 2].erase i) _ := .init toString
  ⟨start, leaders_wedged_and_no_write start 0⟩

end GoDatabase
