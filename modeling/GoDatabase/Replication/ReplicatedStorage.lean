import GoDatabase.Basic

namespace GoDatabase

/-- The contents of one `storage.Storage`. -/
abbrev Store := Bytes → Option Bytes

/-- How one storage call ends. By the `Storage` contract a call reports success only once it has
taken effect; an error may come after the effect (a failed flush, a lost reply) or instead of it. -/
inductive Outcome
  | ok
  | failedAfter (error : String)
  | failedBefore (error : String)
  deriving DecidableEq, Repr

def Outcome.took : Outcome → Bool
  | .failedBefore _ => false
  | _ => true

/-- What the call returns. -/
def Outcome.result : Outcome → Except String Unit
  | .ok => .ok ()
  | .failedAfter error | .failedBefore error => .error error

/-- A write to a store under an outcome: `some v` for `Put`, `none` for `Delete`. -/
def Store.write (s : Store) (key : Bytes) (value : Option Bytes) (outcome : Outcome) : Store :=
  if outcome.took then Function.update s key value else s

/-- A goroutine `ReplicatedStorage` leaves running: an asynchronous replica write, or the read
repair `go rs.primary.Put(key, value)` of `Get`. -/
inductive Background
  | replicaPut (replica : Nat) (key value : Bytes)
  | replicaDelete (replica : Nat) (key : Bytes)
  | repair (key value : Bytes)
  deriving DecidableEq, Repr

/-- `replication.ReplicatedStorage` with the goroutines it has started. -/
structure Replicated where
  primary : Store
  replicas : List Store
  asyncMode : Bool
  background : List Background

namespace Replicated

/-- Every replica rewritten at `key`, each under its own outcome: the synchronous branch, which
waits for all of them and only logs their errors. -/
def writeReplicas (rs : Replicated) (key : Bytes) (value : Option Bytes) (outcomes : Nat → Outcome) :
    List Store :=
  rs.replicas.mapIdx fun r s => s.write key value (outcomes r)

/-- `Put`: the primary first, returning its error; then the replicas, in goroutines left running
in asynchronous mode, or waited for in synchronous mode. -/
def put (rs : Replicated) (key value : Bytes) (primaryOutcome : Outcome) (outcomes : Nat → Outcome) :
    Replicated × Except String Unit :=
  let primary := rs.primary.write key (some value) primaryOutcome
  match primaryOutcome.result with
  | .error error => ({ rs with primary }, .error error)
  | .ok () =>
    if rs.asyncMode then
      ({ rs with primary, background := rs.background ++
          (List.range rs.replicas.length).map fun r => .replicaPut r key value }, .ok ())
    else ({ rs with primary, replicas := rs.writeReplicas key (some value) outcomes }, .ok ())

/-- `Delete`, shaped as `Put`. -/
def delete (rs : Replicated) (key : Bytes) (primaryOutcome : Outcome) (outcomes : Nat → Outcome) :
    Replicated × Except String Unit :=
  let primary := rs.primary.write key none primaryOutcome
  match primaryOutcome.result with
  | .error error => ({ rs with primary }, .error error)
  | .ok () =>
    if rs.asyncMode then
      ({ rs with primary, background := rs.background ++
          (List.range rs.replicas.length).map fun r => .replicaDelete r key }, .ok ())
    else ({ rs with primary, replicas := rs.writeReplicas key none outcomes }, .ok ())

/-- The value the first replica that answers holds for `key`, trying them in order; `up r` says
whether replica `r` answers at all. -/
def replicaHit (rs : Replicated) (key : Bytes) (up : Nat → Bool) : Option Bytes :=
  rs.replicas.enum.findSome? fun (r, s) => if up r then s key else none

/-- `Get`: the primary's value if it answers with one; otherwise the first replica holding the
key, whose value is also written back to the primary by a goroutine (read repair). -/
def get (rs : Replicated) (key : Bytes) (primaryUp : Bool) (up : Nat → Bool) :
    Replicated × Except String Bytes :=
  match (if primaryUp then rs.primary key else none) with
  | some value => (rs, .ok value)
  | none =>
    match rs.replicaHit key up with
    | some value => ({ rs with background := rs.background ++ [.repair key value] }, .ok value)
    | none => (rs, .error "key not found")

/-- A background goroutine runs to its end; its error, if any, is only logged. -/
def finish (rs : Replicated) (b : Background) (outcome : Outcome) : Replicated :=
  let rs := { rs with background := rs.background.erase b }
  match b with
  | .replicaPut r key value =>
    { rs with replicas := rs.replicas.modify (fun s => s.write key (some value) outcome) r }
  | .replicaDelete r key => { rs with replicas := rs.replicas.modify (fun s => s.write key none outcome) r }
  | .repair key value => { rs with primary := rs.primary.write key (some value) outcome }

end Replicated

/-- What a client sees of a run: each call with its result, and each goroutine finishing. -/
inductive ReplicationEvent
  | put (key value : Bytes) (result : Except String Unit)
  | get (key : Bytes) (result : Except String Bytes)
  | delete (key : Bytes) (result : Except String Unit)
  | finish (b : Background)

open Replicated in
/-- One step: a whole call (it holds `rs.mu` throughout, and a goroutine touches a single store,
so any interleaving is equivalent to one with goroutines between calls), or a goroutine ending. -/
inductive Replicated.Step : Replicated → ReplicationEvent → Replicated → Prop
  | put {rs : Replicated} (key value : Bytes) (primaryOutcome : Outcome) (outcomes : Nat → Outcome) :
      Replicated.Step rs (.put key value (rs.put key value primaryOutcome outcomes).2)
        (rs.put key value primaryOutcome outcomes).1
  | get {rs : Replicated} (key : Bytes) (primaryUp : Bool) (up : Nat → Bool) :
      Replicated.Step rs (.get key (rs.get key primaryUp up).2) (rs.get key primaryUp up).1
  | delete {rs : Replicated} (key : Bytes) (primaryOutcome : Outcome) (outcomes : Nat → Outcome) :
      Replicated.Step rs (.delete key (rs.delete key primaryOutcome outcomes).2)
        (rs.delete key primaryOutcome outcomes).1
  | finish {rs : Replicated} {b : Background} (outcome : Outcome) :
      b ∈ rs.background → Replicated.Step rs (.finish b) (rs.finish b outcome)

/-- A run and the events it shows. -/
inductive Replicated.Run : Replicated → List ReplicationEvent → Replicated → Prop
  | done {rs : Replicated} : Replicated.Run rs [] rs
  | step {rs rs' rs'' : Replicated} {e : ReplicationEvent} {events : List ReplicationEvent} :
      Replicated.Step rs e rs' → Replicated.Run rs' events rs'' → Replicated.Run rs (e :: events) rs''

namespace Store

variable {s : Store} {k key : Bytes} {value : Option Bytes} {outcome : Outcome}

theorem write_ne (other : k ≠ key) : s.write k value outcome key = s key := by
  unfold Store.write
  split <;> simp [Function.update_noteq (Ne.symm other)]

theorem write_took (took : outcome.took = true) : s.write key value outcome key = value := by
  simp [Store.write, took]

/-- A write keeps `key` absent unless it stores a value under `key`. -/
theorem write_absent (absent : s key = none) (harmless : k = key → value = none) :
    s.write k value outcome key = none := by
  unfold Store.write
  split
  · rw [Function.update_apply]
    split_ifs with same
    · exact harmless same.symm
    · exact absent
  · exact absent

end Store

/-- The goroutine would store a value under `key`: an asynchronous replica `Put` or a read
repair of `key`. -/
def Background.restores : Background → Bytes → Bool
  | .replicaPut _ k _, key => k == key
  | .replicaDelete .., _ => false
  | .repair k _, key => k == key

/-- `key` is gone: no store holds it and no running goroutine would store it again. -/
structure Replicated.Forgotten (key : Bytes) (rs : Replicated) : Prop where
  primary : rs.primary key = none
  replicas : ∀ (r : Nat) (s : Store), rs.replicas[r]? = some s → s key = none
  background : ∀ b ∈ rs.background, b.restores key = false

namespace Replicated.Forgotten

variable {rs rs' : Replicated} {key k : Bytes} {value : Option Bytes}

theorem writeReplicas (forgotten : rs.Forgotten key) (harmless : k = key → value = none)
    (outcomes : Nat → Outcome) : ∀ (r : Nat) (s : Store), (rs.writeReplicas k value outcomes)[r]? = some s → s key = none := by
  intro r s found
  simp only [Replicated.writeReplicas, List.getElem?_mapIdx, Option.map_eq_some'] at found
  obtain ⟨old, atR, rfl⟩ := found
  exact Store.write_absent (forgotten.replicas r old atR) harmless

theorem modify (forgotten : rs.Forgotten key) (harmless : k = key → value = none) (target : Nat)
    (outcome : Outcome) :
    ∀ (r : Nat) (s : Store), (rs.replicas.modify (fun s => s.write k value outcome) target)[r]? = some s → s key = none := by
  intro r s found
  simp only [List.getElem?_modify, Option.map_eq_map, Option.map_eq_some'] at found
  obtain ⟨old, atR, rfl⟩ := found
  split_ifs
  · exact Store.write_absent (forgotten.replicas r old atR) harmless
  · exact forgotten.replicas r old atR

theorem spawn (forgotten : rs.Forgotten key) {spawned : List Background}
    (harmless : ∀ b ∈ spawned, b.restores key = false) :
    ∀ b ∈ rs.background ++ spawned, b.restores key = false := by
  intro b member
  rcases List.mem_append.mp member with old | new
  · exact forgotten.background b old
  · exact harmless b new

theorem replicaHit (forgotten : rs.Forgotten key) (up : Nat → Bool) : rs.replicaHit key up = none := by
  refine List.findSome?_eq_none_iff.mpr fun ⟨r, s⟩ member => ?_
  simp [forgotten.replicas r s (List.mem_enum_iff_getElem?.mp member)]

/-- A forgotten key is not found, and the lookup starts no repair. -/
theorem get (forgotten : rs.Forgotten key) (primaryUp : Bool) (up : Nat → Bool) :
    rs.get key primaryUp up = (rs, .error "key not found") := by
  simp [Replicated.get, forgotten.primary, forgotten.replicaHit up]

/-- A `Get` of a forgotten key answers `key not found`. -/
theorem step_get (forgotten : rs.Forgotten key) {result : Except String Bytes}
    (step : Replicated.Step rs (.get key result) rs') : result = .error "key not found" := by
  cases step with
  | get _ primaryUp up => rw [forgotten.get primaryUp up]

/-- Every step but a `Put` of the key keeps it forgotten. -/
theorem step {e : ReplicationEvent} (forgotten : rs.Forgotten key) (step : Replicated.Step rs e rs')
    (other : ∀ value result, e ≠ .put key value result) : rs'.Forgotten key := by
  cases step with
  | put k v primaryOutcome outcomes =>
    have fresh : k ≠ key := fun same => other v _ (by rw [same])
    simp only [Replicated.put]
    split
    · exact { forgotten with primary := Store.write_absent forgotten.primary (absurd · fresh) }
    · split
      · refine ⟨Store.write_absent forgotten.primary (absurd · fresh), forgotten.replicas,
          forgotten.spawn fun b spawned => ?_⟩
        obtain ⟨r, -, rfl⟩ := List.mem_map.mp spawned
        simp [Background.restores, fresh]
      · exact ⟨Store.write_absent forgotten.primary (absurd · fresh),
          forgotten.writeReplicas (absurd · fresh) outcomes, forgotten.background⟩
  | get k primaryUp up =>
    by_cases same : k = key
    · subst same
      rw [forgotten.get primaryUp up]
      exact forgotten
    · simp only [Replicated.get]
      split
      · exact forgotten
      · split
        · exact { forgotten with background := forgotten.spawn (by simp [Background.restores, same]) }
        · exact forgotten
  | delete k primaryOutcome outcomes =>
    simp only [Replicated.delete]
    split
    · exact { forgotten with primary := Store.write_absent forgotten.primary fun _ => rfl }
    · split
      · refine ⟨Store.write_absent forgotten.primary fun _ => rfl, forgotten.replicas,
          forgotten.spawn fun b spawned => ?_⟩
        obtain ⟨r, -, rfl⟩ := List.mem_map.mp spawned
        rfl
      · exact ⟨Store.write_absent forgotten.primary fun _ => rfl,
          forgotten.writeReplicas (fun _ => rfl) outcomes, forgotten.background⟩
  | @finish b outcome running =>
    have quiet := forgotten.background b running
    have remaining : ∀ c ∈ rs.background.erase b, c.restores key = false :=
      fun c member => forgotten.background c (List.mem_of_mem_erase member)
    cases b with
    | replicaPut r k v =>
      have fresh : k ≠ key := by simpa [Background.restores] using quiet
      exact ⟨forgotten.primary, forgotten.modify (absurd · fresh) r outcome, remaining⟩
    | replicaDelete r k => exact ⟨forgotten.primary, forgotten.modify (fun _ => rfl) r outcome, remaining⟩
    | repair k v =>
      have fresh : k ≠ key := by simpa [Background.restores] using quiet
      exact ⟨Store.write_absent forgotten.primary (absurd · fresh), forgotten.replicas, remaining⟩

/-- Along a run with no `Put` of the key, the key stays forgotten and every `Get` of it answers
`key not found`. -/
theorem run {events : List ReplicationEvent} (forgotten : rs.Forgotten key)
    (run : Replicated.Run rs events rs') (noPut : ∀ value result, .put key value result ∉ events) :
    rs'.Forgotten key ∧ ∀ result, .get key result ∈ events → result = .error "key not found" := by
  induction run with
  | done => exact ⟨forgotten, fun _ => nofun⟩
  | step step _ ih =>
    have now := forgotten.step step fun v r same => noPut v r (same ▸ List.mem_cons_self _ _)
    obtain ⟨last, gets⟩ := ih now fun v r member => noPut v r (List.mem_cons_of_mem _ member)
    refine ⟨last, fun result member => ?_⟩
    rcases List.mem_cons.mp member with first | later
    · subst first
      exact forgotten.step_get step
    · exact gets result later

/-- A synchronous `Delete` that returns nil, after every replica's `Delete` took effect and
while nothing would store the key again, forgets it. -/
theorem delete {primaryOutcome : Outcome} {outcomes : Nat → Outcome} (sync : rs.asyncMode = false)
    (quiet : ∀ b ∈ rs.background, b.restores key = false)
    (deleted : (rs.delete key primaryOutcome outcomes).2 = .ok ())
    (everywhere : ∀ r < rs.replicas.length, (outcomes r).took = true) :
    (rs.delete key primaryOutcome outcomes).1.Forgotten key := by
  cases primaryOutcome with
  | failedAfter | failedBefore => simp [Replicated.delete, Outcome.result] at deleted
  | ok =>
    simp only [Replicated.delete, Outcome.result, sync, Bool.false_eq_true, if_false]
    refine ⟨Store.write_took (rfl : Outcome.ok.took = true), fun r s found => ?_, quiet⟩
    simp only [Replicated.writeReplicas, List.getElem?_mapIdx, Option.map_eq_some'] at found
    obtain ⟨old, atR, rfl⟩ := found
    exact Store.write_took (everywhere r (List.getElem?_eq_some_iff.mp atR).1)

end Replicated.Forgotten

/-- A deleted key comes back. In asynchronous mode `Put(k, v)` reaches the only replica;
`Delete(k)` returns nil while the replica's `Delete` is still running; `Get(k)` misses on the
primary, finds `v` on the replica, returns it and starts a read repair, which writes `k` back
into the primary. No `Put(k, _)` is issued after the `Delete`. -/
theorem deleted_key_comes_back :
    ∃ rs₁ rs₂, Replicated.Run ⟨fun _ => none, [fun _ => none], true, []⟩
        [.put [1] [2] (.ok ()), .finish (.replicaPut 0 [1] [2]), .delete [1] (.ok ())] rs₁ ∧
      Replicated.Run rs₁ [.get [1] (.ok [2]), .finish (.repair [1] [2])] rs₂ ∧ rs₂.primary [1] = some [2] :=
  ⟨_, _, .step (.put [1] [2] .ok fun _ => .ok) (.step (.finish .ok (by decide)) (.step (.delete [1] .ok fun _ => .ok) .done)),
    .step (.get [1] true fun _ => true) (.step (.finish .ok (by decide)) .done), rfl⟩

/-- In synchronous mode a deleted key stays deleted until it is put again, provided every
replica's `Delete(k)` took effect and no read repair or replica `Put` of `k` was still running
when `Delete(k)` was issued: every later `Get(k)` answers `key not found`, and the primary does
not hold `k`. -/
theorem sync_delete_stays_deleted {rs rs' : Replicated} {key : Bytes} {primaryOutcome : Outcome}
    {outcomes : Nat → Outcome} {events : List ReplicationEvent} (sync : rs.asyncMode = false)
    (quiet : ∀ b ∈ rs.background, b.restores key = false)
    (deleted : (rs.delete key primaryOutcome outcomes).2 = .ok ())
    (everywhere : ∀ r < rs.replicas.length, (outcomes r).took = true)
    (run : Replicated.Run (rs.delete key primaryOutcome outcomes).1 events rs')
    (noPut : ∀ value result, .put key value result ∉ events) :
    (∀ result, .get key result ∈ events → result = .error "key not found") ∧ rs'.primary key = none :=
  have ⟨last, gets⟩ := (Replicated.Forgotten.delete sync quiet deleted everywhere).run run noPut
  ⟨gets, last.primary⟩

/-- The run of the counterexample in synchronous mode: after `Put(k, v)` and `Delete(k)`, `Get(k)`
answers `key not found`. -/
theorem sync_delete_stays_deleted_after_put :
    ∃ rs', Replicated.Run
        ((((⟨fun _ => none, [fun _ => none], false, []⟩ : Replicated).put [1] [2] .ok fun _ => .ok).1.delete
          [1] .ok fun _ => .ok).1) [.get [1] (.error "key not found")] rs' ∧ rs'.primary [1] = none :=
  have run := Replicated.Run.step (Replicated.Step.get [1] true fun _ => true) .done
  ⟨_, run, (sync_delete_stays_deleted (by rfl) (by nofun) (by rfl) (fun _ _ => by rfl) run (by simp)).2⟩

end GoDatabase
