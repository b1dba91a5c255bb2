import GoDatabase.Replication.ReplicatedStorage

/-!
# Replication without failures

When every store call takes effect and succeeds and every store answers a `Get`, a
`ReplicatedStorage` in synchronous mode is one store to its clients: each call answers as a single
`storage.Storage` holding the primary's contents would, and after every call each replica holds
what the primary holds, with no goroutine left running. In asynchronous mode the replicas'
goroutines may finish in any order, so no statement of this kind holds there.
-/

namespace GoDatabase

/-- What one store answers to `Get`: the level replication is meant to hide. -/
def Store.lookup (s : Store) (key : Bytes) : Except String Bytes :=
  match s key with
  | some value => .ok value
  | none => .error "key not found"

/-- A call on one store, answered at once. -/
inductive Store.Step : Store → ReplicationEvent → Store → Prop
  | put {s : Store} (key value : Bytes) : Store.Step s (.put key value (.ok ())) (Function.update s key (some value))
  | get {s : Store} (key : Bytes) : Store.Step s (.get key (s.lookup key)) s
  | delete {s : Store} (key : Bytes) : Store.Step s (.delete key (.ok ())) (Function.update s key none)

inductive Store.Run : Store → List ReplicationEvent → Store → Prop
  | done {s : Store} : Store.Run s [] s
  | step {s s' s'' : Store} {e : ReplicationEvent} {events : List ReplicationEvent} :
      Store.Step s e s' → Store.Run s' events s'' → Store.Run s (e :: events) s''

@[simp] theorem Store.write_ok (s : Store) (key : Bytes) (value : Option Bytes) :
    s.write key value .ok = Function.update s key value := rfl

namespace Replicated

/-- A step in which every store call takes effect and succeeds, and every store answers. -/
inductive HealthyStep : Replicated → ReplicationEvent → Replicated → Prop
  | put {rs : Replicated} (key value : Bytes) :
      HealthyStep rs (.put key value (rs.put key value .ok fun _ => .ok).2) (rs.put key value .ok fun _ => .ok).1
  | get {rs : Replicated} (key : Bytes) :
      HealthyStep rs (.get key (rs.get key true fun _ => true).2) (rs.get key true fun _ => true).1
  | delete {rs : Replicated} (key : Bytes) :
      HealthyStep rs (.delete key (rs.delete key .ok fun _ => .ok).2) (rs.delete key .ok fun _ => .ok).1
  | finish {rs : Replicated} {b : Background} :
      b ∈ rs.background → HealthyStep rs (.finish b) (rs.finish b .ok)

inductive HealthyRun : Replicated → List ReplicationEvent → Replicated → Prop
  | done {rs : Replicated} : HealthyRun rs [] rs
  | step {rs rs' rs'' : Replicated} {e : ReplicationEvent} {events : List ReplicationEvent} :
      HealthyStep rs e rs' → HealthyRun rs' events rs'' → HealthyRun rs (e :: events) rs''

/-- A healthy step is a step of `ReplicatedStorage` under the outcomes it fixes. -/
theorem HealthyStep.step {rs rs' : Replicated} {e : ReplicationEvent} : HealthyStep rs e rs' → Step rs e rs'
  | .put key value => .put key value .ok fun _ => .ok
  | .get key => .get key true fun _ => true
  | .delete key => .delete key .ok fun _ => .ok
  | .finish member => .finish .ok member

theorem HealthyRun.run {rs rs' : Replicated} {events : List ReplicationEvent} (run : HealthyRun rs events rs') :
    Run rs events rs' := by
  induction run with
  | done => exact .done
  | step step _ rest => exact .step step.step rest

/-- Synchronous mode, no goroutine running, and every replica holding what the primary holds. -/
structure Mirrors (rs : Replicated) : Prop where
  sync : rs.asyncMode = false
  idle : rs.background = []
  replicas : ∀ s ∈ rs.replicas, s = rs.primary

namespace Mirrors

variable {rs rs' : Replicated} {e : ReplicationEvent}

/-- A synchronous write that succeeds everywhere writes every store alike. -/
theorem write (mirrors : rs.Mirrors) (key : Bytes) (value : Option Bytes) :
    { rs with primary := Function.update rs.primary key value,
              replicas := rs.writeReplicas key value fun _ => .ok }.Mirrors := by
  refine ⟨mirrors.sync, mirrors.idle, fun s' member => ?_⟩
  obtain ⟨r, found⟩ := List.mem_iff_getElem?.mp member
  simp only [writeReplicas, List.getElem?_mapIdx, Option.map_eq_some'] at found
  obtain ⟨s, atR, rfl⟩ := found
  rw [mirrors.replicas s (List.getElem?_mem atR), Store.write_ok]

/-- No replica holds a key the primary lacks. -/
theorem replicaHit (mirrors : rs.Mirrors) {key : Bytes} (absent : rs.primary key = none) (up : Nat → Bool) :
    rs.replicaHit key up = none := by
  refine List.findSome?_eq_none_iff.mpr fun ⟨r, s⟩ member => ?_
  have same := mirrors.replicas s (List.getElem?_mem (List.mem_enum_iff_getElem?.mp member))
  simp [same, absent]

/-- With every store answering, `Get` answers from the primary, as one store would, and starts
no read repair. -/
theorem get (mirrors : rs.Mirrors) (key : Bytes) :
    rs.get key true (fun _ => true) = (rs, Store.lookup rs.primary key) := by
  rcases found : rs.primary key with _ | value
  · simp [Replicated.get, Store.lookup, found, mirrors.replicaHit found]
  · simp [Replicated.get, Store.lookup, found]

/-- A healthy step keeps the replicas mirroring the primary and is, on the primary, the step one
store takes. -/
theorem healthyStep (mirrors : rs.Mirrors) (step : HealthyStep rs e rs') :
    rs'.Mirrors ∧ Store.Step rs.primary e rs'.primary := by
  cases step with
  | put key value =>
    simp only [Replicated.put, Outcome.result, mirrors.sync, Store.write_ok, Bool.false_eq_true, if_false]
    exact ⟨by rw [← mirrors.sync]; exact mirrors.write key (some value), .put key value⟩
  | delete key =>
    simp only [Replicated.delete, Outcome.result, mirrors.sync, Store.write_ok, Bool.false_eq_true, if_false]
    exact ⟨by rw [← mirrors.sync]; exact mirrors.write key none, .delete key⟩
  | get key =>
    rw [mirrors.get key]
    exact ⟨mirrors, .get key⟩
  | finish member => exact absurd (mirrors.idle ▸ member) (List.not_mem_nil _)

end Mirrors

/-- With no store failing, a synchronous `ReplicatedStorage` whose replicas start as copies of
the primary is one store to its clients: every run of `Put`, `Get` and `Delete` calls shows the
results a single store holding the primary's contents shows, and the replicas stay copies of the
primary, with no goroutine left running. -/
theorem sync_replication_is_one_store {rs rs' : Replicated} {events : List ReplicationEvent}
    (mirrors : rs.Mirrors) (run : HealthyRun rs events rs') :
    Store.Run rs.primary events rs'.primary ∧ rs'.Mirrors := by
  induction run with
  | done => exact ⟨.done, mirrors⟩
  | step step _ ih =>
    obtain ⟨next, storeStep⟩ := mirrors.healthyStep step
    obtain ⟨rest, last⟩ := ih next
    exact ⟨.step storeStep rest, last⟩

theorem sync_replication_is_one_store_two_replicas :
    (⟨fun _ => none, [fun _ => none, fun _ => none], false, []⟩ : Replicated).Mirrors ∧
      ∃ rs', HealthyRun ⟨fun _ => none, [fun _ => none, fun _ => none], false, []⟩
          [.put [1] [2] (.ok ()), .get [1] (.ok [2]), .delete [1] (.ok ()), .get [1] (.error "key not found")] rs' ∧
        Store.Run (fun _ => none)
          [.put [1] [2] (.ok ()), .get [1] (.ok [2]), .delete [1] (.ok ()), .get [1] (.error "key not found")]
          rs'.primary ∧ rs'.Mirrors :=
  have mirrors : (⟨fun _ => none, [fun _ => none, fun _ => none], false, []⟩ : Replicated).Mirrors :=
    ⟨rfl, rfl, by simp⟩
  have run : HealthyRun ⟨fun _ => none, [fun _ => none, fun _ => none], false, []⟩
      [.put [1] [2] (.ok ()), .get [1] (.ok [2]), .delete [1] (.ok ()), .get [1] (.error "key not found")] _ :=
    .step (.put [1] [2]) (.step (.get [1]) (.step (.delete [1]) (.step (.get [1]) .done)))
  ⟨mirrors, _, run, sync_replication_is_one_store mirrors run⟩

end Replicated

end GoDatabase
