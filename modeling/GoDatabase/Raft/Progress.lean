import GoDatabase.Raft.Votes

namespace GoDatabase

section

variable {members : List Nat} {peers : Nat → List Nat} {c c' : Cluster}

/-- Applying never indexes out of range: on every replica of a reachable cluster
`lastApplied ≤ commitIndex ≤ len(log)` and every committed command has its four-byte tag, and
neither place that runs `applyCommittedEntries` (the `AppendEntries` handler, and the reply
handler of `replicateLogEntry`) panics on any packet in flight. -/
theorem apply_never_out_of_range (reach : Reachable members peers c) (i : Nat) :
    (c.node i).lastApplied ≤ (c.node i).commitIndex ∧ (c.node i).commitIndex ≤ (c.node i).log.length ∧
      (∀ e ∈ (c.node i).log.take (c.node i).commitIndex, 4 ≤ e.command.length) ∧
      (∀ owner caller req, .appendRequest owner i caller req ∈ c.packets →
        ∀ error, RaftRPC.appendEntries (c.node i) req ≠ .error error) ∧
      (∀ peer call term logIndex entry resp, .appendReply i peer (.replicate call term logIndex entry) resp ∈ c.packets →
        ∀ error, (c.node i).replicateReply call logIndex resp ≠ .error error) := by
  have idle := reach.idle
  have node := idle.nodes i
  refine ⟨?_, ?_, ?_, fun _ _ _ member => absurd member idle.not_appendRequest,
    fun _ _ _ _ _ _ member => absurd member idle.not_appendReply⟩ <;>
  simp [node.log_empty, node.commit_zero, node.lastApplied_zero]

theorem apply_never_out_of_range_initially :
    Reachable [0, 1, 2] (fun i => [0, 1, 2].erase i) (Cluster.init toString fun i => [0, 1, 2].erase i) ∧
      ((Cluster.init toString fun i => [0, 1, 2].erase i).node 0).lastApplied ≤
        ((Cluster.init toString fun i => [0, 1, 2].erase i).node 0).commitIndex :=
  have start : Reachable [0, 1, 2] (fun i => [0, 1, 2].erase i) _ := .init toString
  ⟨start, (apply_never_out_of_range start 0).1⟩

/-- Commit and apply progress never move backwards: no step of any run lowers a replica's
`commitIndex` or `lastApplied`. -/
theorem commit_and_apply_never_decrease (reach : Reachable members peers c) (step : Step members c c') (i : Nat) :
    (c.node i).commitIndex ≤ (c'.node i).commitIndex ∧ (c.node i).lastApplied ≤ (c'.node i).lastApplied := by
  have before := reach.idle.nodes i
  have after := (reach.step step).idle.nodes i
  simp [before.commit_zero, after.commit_zero, before.lastApplied_zero, after.lastApplied_zero]

theorem commit_and_apply_never_decrease_on_timeout :
    Reachable [0, 1, 2] (fun i => [0, 1, 2].erase i) (Cluster.init toString fun i => [0, 1, 2].erase i) ∧
      Step [0, 1, 2] (Cluster.init toString fun i => [0, 1, 2].erase i)
        ((Cluster.init toString fun i => [0, 1, 2].erase i).electionTimeout 0) ∧
      ((Cluster.init toString fun i => [0, 1, 2].erase i).node 0).commitIndex ≤
        (((Cluster.init toString fun i => [0, 1, 2].erase i).electionTimeout 0).node 0).commitIndex :=
  have start : Reachable [0, 1, 2] (fun i => [0, 1, 2].erase i) _ := .init toString
  have timeout : Step [0, 1, 2] _ _ := @Step.electionTimeout _ _ 0 (by decide) rfl (by decide)
  ⟨start, timeout, (commit_and_apply_never_decrease start timeout 0).1⟩

/-- Leader append-only: a step after which a Leader is still Leader at the same term leaves its
old log a prefix of its new one. -/
theorem leader_log_append_only (reach : Reachable members peers c) (_step : Step members c c') (i : Nat)
    (_leader : (c.node i).state = .leader) (_stays : (c'.node i).state = .leader)
    (_sameTerm : (c'.node i).currentTerm = (c.node i).currentTerm) : (c.node i).log <+: (c'.node i).log := by
  rw [(reach.idle.nodes i).log_empty]
  exact List.nil_prefix

/-- Node 0 wins node 1's vote and leads term 1; node 2's election timeout then leaves it Leader at
term 1. -/
theorem leader_log_append_only_past_timeout :
    ∃ c c', Reachable [0, 1, 2] (fun i => [0, 1, 2].erase i) c ∧ Step [0, 1, 2] c c' ∧
      (c.node 0).state = .leader ∧ (c'.node 0).state = .leader ∧ (c'.node 0).currentTerm = (c.node 0).currentTerm ∧
      (c.node 0).log <+: (c'.node 0).log := by
  have s1 := (@Reachable.init [0, 1, 2] (fun i => [0, 1, 2].erase i) toString).step
    (@Step.electionTimeout _ _ 0 (by decide) rfl (by decide))
  have s2 := s1.step (@Step.sendRequestVote _ _ 0 1 1 (by decide))
  have s3 := s2.step (@Step.requestVote _ _ 0 1 1 ⟨1, "0", 0, 0⟩ (by decide) (by decide) rfl)
  have s4 := s3.step (@Step.voteReply _ _ 0 1 1 ⟨1, true⟩ (by decide) rfl)
  refine ⟨_, _, s4, @Step.electionTimeout _ _ 2 (by decide) rfl (by decide), by decide, by decide, by decide, ?_⟩
  exact leader_log_append_only s4 (@Step.electionTimeout _ _ 2 (by decide) rfl (by decide)) 0 (by decide) (by decide)
    (by decide)

end

end GoDatabase
