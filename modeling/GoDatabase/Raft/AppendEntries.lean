import GoDatabase.Raft.Node

namespace GoDatabase

/-- An entry as the `AppendEntries` law compares entries: by term and command. -/
def LogEntry.termCommand (e : LogEntry) : Nat × Bytes := (e.term, e.command)

/-- The log the specification's `AppendEntries` law gives for a log `L`, `PrevLogIndex = P` and
entries `E`: `L[1..P] ++ E ++ S`, where `S` is what `L` holds past `P + |E|` when `L` and `E`
agree in term wherever both have an entry after `P`, and nothing otherwise. -/
def appendEntriesLaw (L : List LogEntry) (P : Nat) (E : List LogEntry) : List (Nat × Bytes) :=
  (L.take P ++ E ++
    if ((L.drop P).zip E).all (fun pair => pair.1.term == pair.2.term) then L.drop (P + E.length) else []).map
    LogEntry.termCommand

namespace RaftRPC

/-- The append loop renumbers the entries it appends and keeps their terms and commands. -/
theorem map_termCommand_appendAll (log entries : List LogEntry) :
    (appendAll log entries).map LogEntry.termCommand =
      log.map LogEntry.termCommand ++ entries.map LogEntry.termCommand := by
  induction entries generalizing log with
  | nil => simp [appendAll]
  | cons entry rest ih => simp [appendAll, ih, LogEntry.termCommand]

/-- The conflict scan finds nothing where the log and the entries all have one term. -/
theorem firstConflict_of_oneTerm {log : List LogEntry} {t : Nat} :
    ∀ {start : Nat} {entries : List LogEntry}, (∀ e ∈ log.drop start, e.term = t) → (∀ e ∈ entries, e.term = t) →
      firstConflict log start entries = none
  | _, [], _, _ => rfl
  | start, entry :: rest, inLog, inEntries => by
    have later : ∀ e ∈ log.drop (start + 1), e.term = t := fun e member =>
      inLog e ((List.drop_sublist_drop_left log (Nat.le_succ start)).subset member)
    have next := firstConflict_of_oneTerm later fun e member => inEntries e (List.mem_cons_of_mem _ member)
    unfold firstConflict
    split
    · rename_i existing slot
      have same : existing.term = entry.term := by
        rw [inLog existing (List.mem_iff_getElem?.mpr ⟨0, by simpa using slot⟩),
          inEntries entry (List.mem_cons_self _ _)]
      simpa [same] using next
    · exact next

/-- Past the end of the log the conflict scan finds nothing. -/
theorem firstConflict_past_end {log : List LogEntry} :
    ∀ {start : Nat} {entries : List LogEntry}, log.length ≤ start → firstConflict log start entries = none
  | _, [], _ => rfl
  | start, entry :: rest, past => by
    simp only [firstConflict, List.getElem?_eq_none past]
    exact firstConflict_past_end (Nat.le_succ_of_le past)

end RaftRPC

/-- Applying committed entries touches neither the log nor the term. -/
theorem RaftNode.applyLoop_log {fuel : Nat} {n n' : RaftNode} (applied : RaftNode.applyLoop fuel n = .ok n') :
    n'.log = n.log ∧ n'.currentTerm = n.currentTerm := by
  induction fuel generalizing n with
  | zero => cases applied; exact ⟨rfl, rfl⟩
  | succ fuel ih =>
    unfold RaftNode.applyLoop at applied
    split at applied
    · split at applied
      · cases applied
      · obtain ⟨_, -, rest⟩ := except_bind_eq_ok.mp applied
        exact (ih rest :)
    · cases applied; exact ⟨rfl, rfl⟩

namespace RaftRPC

variable {n n' : RaftNode} {req : AppendEntriesRequest} {resp : AppendEntriesResponse}

/-- An `AppendEntries` with entries that the handler answers with success keeps the log up to
the first conflict it finds and appends every entry after that. -/
theorem appendEntries_of_success (accepted : appendEntries n req = .ok (n', resp)) (success : resp.success = true)
    (nonempty : req.entries ≠ []) :
    n'.log = appendAll (match firstConflict n.log (req.prevLogIndex + 1) req.entries with
      | some conflict => n.log.take conflict
      | none => n.log) req.entries := by
  unfold appendEntries at accepted
  dsimp only at accepted
  split_ifs at accepted <;>
    first
    | exact absurd ‹req.entries = []› nonempty
    | (cases accepted; simp at success)
    | (obtain ⟨n'', applied, result⟩ := except_map_eq_ok.mp accepted
       cases result
       simpa [RaftNode.adoptTerm] using (RaftNode.applyLoop_log applied).1)

/-- Where the log from `PrevLogIndex` on and the entries all have one term, the scan finds no
conflict and a success appends the entries after the whole log. -/
theorem appendEntries_log_of_oneTerm {t : Nat} (accepted : appendEntries n req = .ok (n', resp))
    (success : resp.success = true) (nonempty : req.entries ≠ [])
    (inLog : ∀ e ∈ n.log.drop req.prevLogIndex, e.term = t) (inEntries : ∀ e ∈ req.entries, e.term = t) :
    n'.log.map LogEntry.termCommand = n.log.map LogEntry.termCommand ++ req.entries.map LogEntry.termCommand := by
  have later : ∀ e ∈ n.log.drop (req.prevLogIndex + 1), e.term = t :=
    fun e member => inLog e ((List.drop_sublist_drop_left n.log (Nat.le_succ _)).subset member)
  rw [appendEntries_of_success accepted success nonempty, firstConflict_of_oneTerm later inEntries]
  exact map_termCommand_appendAll _ _

/-- At the end of the log the handler follows the law. -/
theorem appendEntries_follows_law_at_end (accepted : appendEntries n req = .ok (n', resp))
    (success : resp.success = true) (nonempty : req.entries ≠ []) (atEnd : req.prevLogIndex = n.log.length) :
    n'.log.map LogEntry.termCommand = appendEntriesLaw n.log req.prevLogIndex req.entries := by
  rw [appendEntries_of_success accepted success nonempty, firstConflict_past_end (by omega),
    map_termCommand_appendAll]
  simp [appendEntriesLaw, atEnd]

end RaftRPC

/-- The handler appends the whole request after the whole log: on a log with an entry after
`PrevLogIndex` whose entries from there on and the request's entries all have one term, a
successful `AppendEntries` leaves the old log followed by all the entries, where the law keeps
only `|E|` entries past `P`; delivering the request again appends the entries once more. -/
theorem appendEntries_appends_after_whole_log {n n' : RaftNode} {req : AppendEntriesRequest}
    {resp : AppendEntriesResponse} {t : Nat} (accepted : RaftRPC.appendEntries n req = .ok (n', resp))
    (success : resp.success = true) (nonempty : req.entries ≠ []) (behind : req.prevLogIndex < n.log.length)
    (oneTerm : ∀ e ∈ n.log.drop req.prevLogIndex ++ req.entries, e.term = t) :
    n'.log.map LogEntry.termCommand = n.log.map LogEntry.termCommand ++ req.entries.map LogEntry.termCommand ∧
      n'.log.map LogEntry.termCommand ≠ appendEntriesLaw n.log req.prevLogIndex req.entries ∧
      ∀ n'' resp', RaftRPC.appendEntries n' req = .ok (n'', resp') → resp'.success = true →
        n''.log.map LogEntry.termCommand = n'.log.map LogEntry.termCommand ++ req.entries.map LogEntry.termCommand := by
  have inLog : ∀ e ∈ n.log.drop req.prevLogIndex, e.term = t := fun e member => oneTerm e (List.mem_append_left _ member)
  have inEntries : ∀ e ∈ req.entries, e.term = t := fun e member => oneTerm e (List.mem_append_right _ member)
  have grown := RaftRPC.appendEntries_log_of_oneTerm accepted success nonempty inLog inEntries
  have agree : ((n.log.drop req.prevLogIndex).zip req.entries).all (fun pair => pair.1.term == pair.2.term) = true :=
    List.all_eq_true.mpr fun pair member => by
      rw [beq_iff_eq, inLog _ (List.of_mem_zip member).1, inEntries _ (List.of_mem_zip member).2]
  have entries := List.length_pos.mpr nonempty
  refine ⟨grown, fun same => ?_, fun n'' resp' again success' => ?_⟩
  · have lengths := congrArg List.length same
    have count := congrArg List.length grown
    simp only [appendEntriesLaw, agree, if_true, List.length_map, List.length_append, List.length_take,
      List.length_drop] at lengths count
    omega
  · refine RaftRPC.appendEntries_log_of_oneTerm again success' nonempty (fun e member => ?_) inEntries
    have image : e.termCommand ∈ (n.log.drop req.prevLogIndex ++ req.entries).map LogEntry.termCommand := by
      rw [List.map_append, List.map_drop, ← List.drop_append_of_le_length (by simp; omega), ← grown, ← List.map_drop]
      exact List.mem_map_of_mem _ member
    obtain ⟨f, inF, sameEntry⟩ := List.mem_map.mp image
    rw [← oneTerm f inF]
    exact (congrArg Prod.fst sameEntry).symm

theorem appendEntries_twice_on_one_entry :
    ∃ n' resp, RaftRPC.appendEntries { RaftNode.init "0" [1] with currentTerm := 1, log := [⟨1, 1, ascii "PUT k v"⟩] }
        ⟨1, "1", 0, 0, [⟨1, 1, ascii "PUT k v"⟩], 0⟩ = .ok (n', resp) ∧ resp.success = true ∧
      n'.log.map LogEntry.termCommand = [(1, ascii "PUT k v"), (1, ascii "PUT k v")] ∧
      n'.log.map LogEntry.termCommand ≠ appendEntriesLaw [⟨1, 1, ascii "PUT k v"⟩] 0 [⟨1, 1, ascii "PUT k v"⟩] := by
  have accepted : RaftRPC.appendEntries { RaftNode.init "0" [1] with currentTerm := 1, log := [⟨1, 1, ascii "PUT k v"⟩] }
      ⟨1, "1", 0, 0, [⟨1, 1, ascii "PUT k v"⟩], 0⟩ = .ok (_, _) := rfl
  obtain ⟨grown, diverges, -⟩ :=
    appendEntries_appends_after_whole_log (t := 1) accepted rfl (by simp) (by decide) (by decide)
  exact ⟨_, _, accepted, rfl, grown, diverges⟩

end GoDatabase
