import GoDatabase.Raft.LeaderDeadlock

namespace GoDatabase

/-- Log Matching: two logs holding entries of one term at a slot (0-based here, so slot `k` is
log index `k + 1`) hold entries of the same term and command at every slot up to it. -/
def LogMatching (c : Cluster) : Prop :=
  ∀ (a b k : Nat) (x y : LogEntry), (c.node a).log[k]? = some x → (c.node b).log[k]? = some y →
    x.term = y.term → ∀ m ≤ k,
      ((c.node a).log[m]?.map fun e : LogEntry => (e.term, e.command)) =
        ((c.node b).log[m]?.map fun e : LogEntry => (e.term, e.command))

/-- State-machine safety: two replicas that applied something at one log index applied the same
command there, and every replica applied the indices 1, 2, 3, … in order, each once. -/
def StateMachineSafety (c : Cluster) : Prop :=
  (∀ (a b i : Nat) (x y : Bytes), (i, x) ∈ (c.node a).applied → (i, y) ∈ (c.node b).applied → x = y) ∧
    ∀ a : Nat, (c.node a).applied.map Prod.fst = List.range' 1 (c.node a).applied.length

/-- Commit durability: every index up to a replica's commit index holds an entry of its log,
and a strict majority of the configured replicas hold an entry of the same term and command at
that index. -/
def CommitDurability (members : List Nat) (c : Cluster) : Prop :=
  ∀ a i : Nat, 1 ≤ i → i ≤ (c.node a).commitIndex → ∃ x, (c.node a).log[i - 1]? = some x ∧
    ∃ holders : List Nat, holders.Nodup ∧ (∀ h ∈ holders, h ∈ members) ∧
      members.length < 2 * holders.length ∧
      ∀ h ∈ holders, ((c.node h).log[i - 1]?.map fun e : LogEntry => (e.term, e.command)) = some (x.term, x.command)

section

variable {members : List Nat} {peers : Nat → List Nat} {c : Cluster}

/-- Log Matching holds in every reachable cluster: no log ever holds an entry, since no Leader
can take a client write. -/
theorem log_matching (reach : Reachable members peers c) : LogMatching c := by
  intro a _ _ _ _ atA
  simp [(reach.idle.nodes a).log_empty] at atA

theorem log_matching_initially :
    Reachable [0, 1, 2] (fun i => [0, 1, 2].erase i) (Cluster.init toString fun i => [0, 1, 2].erase i) ∧
      LogMatching (Cluster.init toString fun i => [0, 1, 2].erase i) :=
  have start : Reachable [0, 1, 2] (fun i => [0, 1, 2].erase i) _ := .init toString
  ⟨start, log_matching start⟩

/-- State-machine safety holds in every reachable cluster, as nothing is ever applied. -/
theorem state_machine_safety (reach : Reachable members peers c) : StateMachineSafety c := by
  constructor
  · intro a _ _ _ _ applied
    simp [(reach.idle.nodes a).applied_empty] at applied
  · intro a
    simp [(reach.idle.nodes a).applied_empty]

theorem state_machine_safety_initially :
    Reachable [0, 1, 2] (fun i => [0, 1, 2].erase i) (Cluster.init toString fun i => [0, 1, 2].erase i) ∧
      StateMachineSafety (Cluster.init toString fun i => [0, 1, 2].erase i) :=
  have start : Reachable [0, 1, 2] (fun i => [0, 1, 2].erase i) _ := .init toString
  ⟨start, state_machine_safety start⟩

/-- Commit durability holds in every reachable cluster, as every commit index stays 0. -/
theorem commit_durability (reach : Reachable members peers c) : CommitDurability members c := by
  intro a i positive committed
  have zero := (reach.idle.nodes a).commit_zero
  omega

theorem commit_durability_initially :
    Reachable [0, 1, 2] (fun i => [0, 1, 2].erase i) (Cluster.init toString fun i => [0, 1, 2].erase i) ∧
      CommitDurability [0, 1, 2] (Cluster.init toString fun i => [0, 1, 2].erase i) :=
  have start : Reachable [0, 1, 2] (fun i => [0, 1, 2].erase i) _ := .init toString
  ⟨start, commit_durability start⟩

end

/-- Two Leaders of one term. Node 0 begins an election at term 1 and wins node 1's vote, then
begins another at term 2. Node 2 wins term 2 with node 1's vote. Node 1's term-1 grant then
reaches node 0's first vote goroutine, which counts it toward that election's majority and makes
node 0 Leader at its current term, 2. -/
theorem two_leaders_in_term_two :
    ∃ c, Reachable [0, 1, 2] (fun i => [0, 1, 2].erase i) c ∧
      (c.node 0).state = .leader ∧ (c.node 2).state = .leader ∧
      (c.node 0).currentTerm = 2 ∧ (c.node 2).currentTerm = 2 := by
  have s1 := (@Reachable.init [0, 1, 2] (fun i => [0, 1, 2].erase i) toString).step
    (@Step.electionTimeout _ _ 0 (by decide) rfl (by decide))
  have s2 := s1.step (@Step.sendRequestVote _ _ 0 1 1 (by decide))
  have s3 := s2.step (@Step.requestVote _ _ 0 1 1 ⟨1, "0", 0, 0⟩ (by decide) (by decide) rfl)
  have s4 := s3.step (@Step.electionTimeout _ _ 0 (by decide) rfl (by decide))
  have s5 := s4.step (@Step.electionTimeout _ _ 2 (by decide) rfl (by decide))
  have s6 := s5.step (@Step.electionTimeout _ _ 2 (by decide) rfl (by decide))
  have s7 := s6.step (@Step.sendRequestVote _ _ 2 1 2 (by decide))
  have s8 := s7.step (@Step.requestVote _ _ 2 1 2 ⟨2, "2", 0, 0⟩ (by decide) (by decide) rfl)
  have s9 := s8.step (@Step.voteReply _ _ 2 1 2 ⟨2, true⟩ (by decide) rfl)
  have s10 := s9.step (@Step.voteReply _ _ 0 1 1 ⟨1, true⟩ (by decide) rfl)
  exact ⟨_, s10, by decide⟩

end GoDatabase
