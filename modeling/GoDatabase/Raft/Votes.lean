import GoDatabase.Raft.LeaderDeadlock

namespace GoDatabase

/-- What a granted `RequestVote` says about the voter: the request's term was not behind it, it
now stands at that term with the candidate recorded, and if it was already at that term its
`votedFor` was empty or the same candidate. -/
theorem RaftRPC.requestVote_of_granted {n : RaftNode} {req : RequestVoteRequest}
    (granted : (RaftRPC.requestVote n req).2.voteGranted = true) :
    n.currentTerm ≤ req.term ∧ (RaftRPC.requestVote n req).2.term = req.term ∧
      (RaftRPC.requestVote n req).1.currentTerm = req.term ∧
      (RaftRPC.requestVote n req).1.votedFor = req.candidateID ∧
      (n.currentTerm = req.term → n.votedFor = "" ∨ n.votedFor = req.candidateID) := by
  unfold RaftRPC.requestVote at granted ⊢
  by_cases older : req.term < n.currentTerm
  · simp [older] at granted
  · by_cases newer : req.term > n.currentTerm
    · simp only [older, newer, if_false, if_true] at granted ⊢
      split_ifs at granted ⊢
      simp_all [RaftNode.adoptTerm]
      omega
    · simp only [older, newer, if_false] at granted ⊢
      split_ifs at granted ⊢ with votable
      dsimp only
      exact ⟨by omega, by omega, by omega, rfl, fun _ => votable.1⟩

/-- A vote a step casts: the self-vote `startElection` makes on an election timeout, for the
node's own id, or a `RequestVote` the voter answers with `VoteGranted = true`, for the request's
`CandidateID`. `t` is the voter's term when it votes and the last index the candidate. -/
inductive CastsVote (members : List Nat) : Cluster → Cluster → Nat → Nat → String → Prop
  | selfVote {c : Cluster} {i : Nat} : i ∈ members → (c.node i).wedged = false → (c.node i).state ≠ .leader →
      CastsVote members c (c.electionTimeout i) i ((c.node i).currentTerm + 1) (c.node i).id
  | grant {c : Cluster} {owner peer election : Nat} {req : RequestVoteRequest} :
      .voteRequest owner peer election req ∈ c.packets → peer ∈ members → (c.node peer).wedged = false →
      (RaftRPC.requestVote (c.node peer) req).2.voteGranted = true →
      CastsVote members c (c.requestVote owner peer election req) peer
        (RaftRPC.requestVote (c.node peer) req).2.term req.candidateID

namespace CastsVote

variable {members : List Nat} {c c' : Cluster} {i t : Nat} {x : String}

theorem step : CastsVote members c c' i t x → Step members c c'
  | selfVote member running follower => .electionTimeout member running follower
  | grant inFlight member running _ => .requestVote inFlight member running

/-- Right after a vote the voter is at the vote's term and has recorded the candidate. -/
theorem recorded : CastsVote members c c' i t x → (c'.node i).currentTerm = t ∧ (c'.node i).votedFor = x
  | selfVote .. => by simp [Cluster.electionTimeout, RaftNode.startElection]
  | grant _ _ _ granted => by
    obtain ⟨-, term, now, voted, -⟩ := RaftRPC.requestVote_of_granted granted
    simp [Cluster.requestVote, now, voted, term]

/-- Before a vote the voter's term is at most the vote's, and at that term its `votedFor` is empty
or the same candidate. -/
theorem allowed : CastsVote members c c' i t x →
    (c.node i).currentTerm ≤ t ∧ ((c.node i).currentTerm = t → (c.node i).votedFor = "" ∨ (c.node i).votedFor = x)
  | selfVote .. => ⟨by omega, by omega⟩
  | grant _ _ _ granted => by
    obtain ⟨behind, term, -, -, votable⟩ := RaftRPC.requestVote_of_granted granted
    rw [term]
    exact ⟨behind, votable⟩

end CastsVote

/-- What a step may do to a replica's ballot: raise its term, or keep the term and either keep
`votedFor` or fill it from empty. -/
def RaftNode.BallotProgress (n n' : RaftNode) : Prop :=
  n.currentTerm < n'.currentTerm ∨ n'.currentTerm = n.currentTerm ∧ (n.votedFor = "" ∨ n'.votedFor = n.votedFor)

namespace RaftNode.BallotProgress

theorem refl (n : RaftNode) : n.BallotProgress n := .inr ⟨rfl, .inr rfl⟩

theorem trans {n₁ n₂ n₃ : RaftNode} : n₁.BallotProgress n₂ → n₂.BallotProgress n₃ → n₁.BallotProgress n₃
  | .inl rose, .inl rose' => .inl (rose.trans rose')
  | .inl rose, .inr ⟨same, _⟩ => .inl (same ▸ rose)
  | .inr ⟨same, _⟩, .inl rose' => .inl (same ▸ rose')
  | .inr ⟨same, kept⟩, .inr ⟨same', kept'⟩ => .inr ⟨same'.trans same, by
    rcases kept with empty | kept
    · exact .inl empty
    · rcases kept' with empty' | kept'
      · exact .inl (kept ▸ empty')
      · exact .inr (kept'.trans kept)⟩

theorem adoptTerm {n : RaftNode} {term : Nat} (newer : n.currentTerm < term) : n.BallotProgress (n.adoptTerm term) :=
  .inl newer

theorem requestVote (n : RaftNode) (req : RequestVoteRequest) : n.BallotProgress (RaftRPC.requestVote n req).1 := by
  unfold RaftRPC.requestVote
  by_cases older : req.term < n.currentTerm
  · simp only [older, if_true]; exact refl n
  · by_cases newer : req.term > n.currentTerm
    · simp only [older, newer, if_false, if_true]
      split_ifs <;> exact .inl newer
    · simp only [older, newer, if_false]
      split_ifs with votable
      · refine .inr ⟨rfl, ?_⟩
        rcases votable.1 with empty | same
        · exact .inl empty
        · exact .inr same.symm
      · exact refl n

theorem countVote (n : RaftNode) (election : Nat) (resp : RequestVoteResponse) :
    n.BallotProgress (n.countVote election resp) := by
  unfold RaftNode.countVote
  dsimp only
  split_ifs with newer
  · exact .inl newer
  all_goals exact .inr ⟨rfl, .inr rfl⟩

end RaftNode.BallotProgress

namespace Cluster.Idle

variable {members : List Nat} {c c' : Cluster}

theorem ballot_update {i : Nat} {n : RaftNode} (progress : (c.node i).BallotProgress n) (j : Nat) :
    (c.node j).BallotProgress (Function.update c.node i n j) := by
  by_cases same : j = i
  · subst same; simpa using progress
  · simpa [same] using RaftNode.BallotProgress.refl (c.node j)

/-- On an idle cluster no step lowers a term or clears a vote: the only code that clears
`votedFor` without a new term is `StepDown` of a Leader, and a Leader is wedged. -/
theorem ballot_step (idle : c.Idle) (step : Step members c c') (j : Nat) : (c.node j).BallotProgress (c'.node j) := by
  cases step with
  | @electionTimeout i _ _ _ =>
    exact ballot_update (.inl (by simp [RaftNode.startElection])) j
  | @requestVote _ peer _ req _ _ _ => exact ballot_update (.requestVote _ req) j
  | @voteReply owner _ election resp _ _ => exact ballot_update (.countVote _ election resp) j
  | appendEntries member => exact absurd member idle.not_appendRequest
  | heartbeatReply member => exact absurd member idle.not_appendReply
  | replicateReply member => exact absurd member idle.not_appendReply
  | @clientRequest i req _ running _ =>
    simp only [Cluster.clientRequest, (idle.nodes i).handleClientRequest running req]
    exact ballot_update (.inr ⟨rfl, .inr rfl⟩ : (c.node i).BallotProgress ((c.node i).answer _)) j
  | @finishClientRequest i _ _ pending => simp [(idle.nodes i).no_pending] at pending
  | @stepDown i _ running =>
    simp only [RaftNode.stepDown, if_neg ((idle.nodes i).not_leader running)]
    exact ballot_update (.refl _) j
  | _ => exact .refl _

end Cluster.Idle

theorem Reachable.of_run {members : List Nat} {peers : Nat → List Nat} {c c' : Cluster}
    (reach : Reachable members peers c) (run : Relation.ReflTransGen (Step members) c c') : Reachable members peers c' := by
  induction run with
  | refl => exact reach
  | tail _ step ih => exact ih.step step

/-- Along any run from a reachable cluster no replica's term falls and no vote is cleared in
its term. -/
theorem Reachable.ballot_run {members : List Nat} {peers : Nat → List Nat} {c c' : Cluster}
    (reach : Reachable members peers c) (run : Relation.ReflTransGen (Step members) c c') (j : Nat) :
    (c.node j).BallotProgress (c'.node j) := by
  induction run with
  | refl => exact .refl _
  | tail before step ih =>
    have idle := (reach.of_run before).idle
    exact ih.trans (idle.ballot_step step j)

/-- A replica votes twice in one term. Node 0 runs under the empty id, which Go also reads as "no
vote": its self-vote at term 1 records `votedFor = ""`, so node 1's `RequestVote` for term 1 finds
it free and is granted as well. -/
theorem empty_id_votes_twice_in_one_term :
    ∃ c₀ c₁ c₂ c₃, Reachable [0, 1, 2] (fun i => [0, 1, 2].erase i) c₀ ∧ CastsVote [0, 1, 2] c₀ c₁ 0 1 "" ∧
      Relation.ReflTransGen (Step [0, 1, 2]) c₁ c₂ ∧ CastsVote [0, 1, 2] c₂ c₃ 0 1 "1" :=
  ⟨_, _, _, _, .init fun i => if i = 0 then "" else toString i,
    @CastsVote.selfVote _ _ 0 (by decide) rfl (by decide),
    (Relation.ReflTransGen.single (@Step.electionTimeout _ _ 1 (by decide) rfl (by decide))).tail
      (@Step.sendRequestVote _ _ 1 0 1 (by decide)),
    @CastsVote.grant _ _ 1 0 1 ⟨1, "1", 0, 0⟩ (by decide) (by decide) rfl rfl⟩

end GoDatabase
