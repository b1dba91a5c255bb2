import GoDatabase.Basic

namespace GoDatabase

/-- `raft.LogEntry`; `index` is the 1-based position the entry was given when appended. -/
structure LogEntry where
  term : Nat
  index : Nat
  command : Bytes
  deriving DecidableEq, Repr

/-- A call an apply makes on the replica's `storage.Storage`. -/
inductive StorageCall
  | put (key value : Bytes)
  | delete (key : Bytes)
  deriving DecidableEq, Repr

def putTag : Bytes := ascii "PUT "

def delTag : Bytes := ascii "DEL "

@[simp] theorem length_putTag : putTag.length = 4 := rfl

@[simp] theorem length_delTag : delTag.length = 4 := rfl

/-- The log command `handleClientRequest` builds; an operation other than `put` and `delete`
is refused as unknown. -/
def buildCommand (operation : String) (key value : Bytes) : Option Bytes :=
  if operation = "put" then some (putTag ++ key ++ space :: value)
  else if operation = "delete" then some (delTag ++ key)
  else none

/-- The storage call the loop of `applyCommittedEntries` (on `RaftNode` and on `RaftRPC`
alike) makes for one entry. The key runs up to the first space, which must not be the first
byte after the tag, and the value is everything after that space. `Command[:4]` on a shorter
command panics. -/
def applyCommittedEntry (entry : LogEntry) : Except String (Option StorageCall) :=
  if entry.command.length < 4 then .error "slice bounds out of range"
  else if entry.command.take 4 = putTag then
    let keyValue := entry.command.drop 4
    .ok <| match keyValue.findIdx? (· == space) with
      | some i => if 0 < i then some (.put (keyValue.take i) (keyValue.drop (i + 1))) else none
      | none => none
  else if entry.command.take 4 = delTag then .ok (some (.delete (entry.command.drop 4)))
  else .ok none

/-- The storage call of the leader's `RaftNode.applyEntry`: `bytes.Split` on spaces, the key
being the first part and the value the second. -/
def applyEntry (entry : LogEntry) : Option StorageCall :=
  if entry.command.length < 4 then none
  else if entry.command.take 4 = putTag then
    match (entry.command.drop 4).splitOn space with
    | key :: value :: _ => some (.put key value)
    | _ => none
  else if entry.command.take 4 = delTag then some (.delete (entry.command.drop 4))
  else none

theorem splitOn_append_of_not_mem {a : UInt8} {xs : Bytes} (absent : a ∉ xs) (ys : Bytes) :
    (xs ++ a :: ys).splitOn a = xs :: ys.splitOn a := by
  induction xs with
  | nil => simp [List.splitOn, List.splitOnP_cons]
  | cons x xs ih =>
    have other : x ≠ a := fun same => absent (same ▸ List.mem_cons_self x xs)
    have rest := ih fun member => absent (List.mem_cons_of_mem x member)
    simp only [List.splitOn, List.cons_append, List.splitOnP_cons, beq_iff_eq, other,
      if_false] at rest ⊢
    rw [rest]
    rfl

theorem findIdx_append_of_not_mem {a : UInt8} {xs : Bytes} (absent : a ∉ xs) (ys : Bytes) :
    (xs ++ a :: ys).findIdx? (· == a) = some xs.length := by
  have none : xs.findIdx? (· == a) = none :=
    List.findIdx?_eq_none_iff.mpr fun x member => by
      simpa using fun same : x = a => absent (same ▸ member)
  simp [List.findIdx?_append, none]

theorem take_tag_append {tag rest : Bytes} (four : tag.length = 4) : (tag ++ rest).take 4 = tag :=
  List.take_left' four

theorem drop_tag_append {tag rest : Bytes} (four : tag.length = 4) : (tag ++ rest).drop 4 = rest :=
  List.drop_left' four

/-- The leader and the followers apply different storage calls for the same committed `PUT`:
when the value holds a space, `applyEntry` keeps only the value's first word; when the key is
empty, `applyEntry` stores it while `applyCommittedEntries` skips the entry. -/
theorem apply_paths_diverge {key first rest value : Bytes} (term index : Nat)
    (keyPlain : space ∉ key) (keyNonempty : key ≠ []) (firstPlain : space ∉ first) (valuePlain : space ∉ value) :
    (applyEntry ⟨term, index, putTag ++ key ++ space :: (first ++ space :: rest)⟩ = some (.put key first) ∧
      applyCommittedEntry ⟨term, index, putTag ++ key ++ space :: (first ++ space :: rest)⟩ =
        .ok (some (.put key (first ++ space :: rest)))) ∧
    (applyEntry ⟨term, index, putTag ++ [] ++ space :: value⟩ = some (.put [] value) ∧
      applyCommittedEntry ⟨term, index, putTag ++ [] ++ space :: value⟩ = .ok none) := by
  have keyLength : 0 < key.length := List.length_pos.mpr keyNonempty
  have restSplit := splitOn_append_of_not_mem firstPlain rest
  have valueSplit : value.splitOn space = [value] :=
    List.splitOnP_eq_single _ _ fun x member same => valuePlain (by rwa [← beq_iff_eq.mp same])
  refine ⟨⟨?_, ?_⟩, ?_, ?_⟩
  · simp [applyEntry, List.append_assoc, take_tag_append, drop_tag_append,
      splitOn_append_of_not_mem keyPlain, restSplit]
  · simp [applyCommittedEntry, List.append_assoc, take_tag_append, drop_tag_append,
      findIdx_append_of_not_mem keyPlain, keyLength]
  · simp only [List.splitOn] at valueSplit
    simp [applyEntry, take_tag_append, drop_tag_append, List.splitOn, List.splitOnP_cons, valueSplit]
  · simp [applyCommittedEntry, take_tag_append, drop_tag_append]

theorem apply_paths_diverge_at_put_k_a_b :
    (space ∉ ascii "k" ∧ ascii "k" ≠ [] ∧ space ∉ ascii "a" ∧ space ∉ ascii "v") ∧
      (applyEntry ⟨1, 1, putTag ++ ascii "k" ++ space :: (ascii "a" ++ space :: ascii "b")⟩ =
          some (.put (ascii "k") (ascii "a")) ∧
        applyCommittedEntry ⟨1, 1, putTag ++ ascii "k" ++ space :: (ascii "a" ++ space :: ascii "b")⟩ =
          .ok (some (.put (ascii "k") (ascii "a" ++ space :: ascii "b")))) ∧
      (applyEntry ⟨1, 1, putTag ++ [] ++ space :: ascii "v"⟩ = some (.put [] (ascii "v")) ∧
        applyCommittedEntry ⟨1, 1, putTag ++ [] ++ space :: ascii "v"⟩ = .ok none) :=
  ⟨by decide, apply_paths_diverge 1 1 (by decide) (by decide) (by decide) (by decide)⟩

theorem buildCommand_put (key value : Bytes) : buildCommand "put" key value = some (putTag ++ key ++ space :: value) := by
  simp [buildCommand]

theorem buildCommand_delete (key value : Bytes) : buildCommand "delete" key value = some (delTag ++ key) := by
  simp [buildCommand]

/-- The decoder on a `PUT` command: the one call `Put(k, v)` for a key without spaces, unless the
key is empty, when the `spaceIndex > 0` test skips the entry. -/
theorem decode_put (term index : Nat) {key : Bytes} (value : Bytes) (keyPlain : space ∉ key) :
    applyCommittedEntry ⟨term, index, putTag ++ key ++ space :: value⟩ =
      .ok (if key = [] then none else some (.put key value)) := by
  by_cases empty : key = []
  · subst empty
    simp [applyCommittedEntry, take_tag_append, drop_tag_append]
  · simp [applyCommittedEntry, List.append_assoc, take_tag_append, drop_tag_append,
      findIdx_append_of_not_mem keyPlain, List.length_pos.mpr empty, empty]

theorem decode_delete (term index : Nat) (key : Bytes) :
    applyCommittedEntry ⟨term, index, delTag ++ key⟩ = .ok (some (.delete key)) := by
  have tags : delTag ≠ putTag := by decide
  simp [applyCommittedEntry, take_tag_append, drop_tag_append, tags]

/-- What the loop of `applyCommittedEntries` makes of the commands `handleClientRequest` builds,
for a key without spaces: a `PUT` becomes the one call `Put(k, v)` unless the key is empty, when
the `spaceIndex > 0` test skips the entry; a `DEL` becomes the one call `Delete(k)`. -/
theorem command_round_trip (term index : Nat) (key value : Bytes) (keyPlain : space ∉ key) :
    (∃ command, buildCommand "put" key value = some command ∧
      applyCommittedEntry ⟨term, index, command⟩ = .ok (if key = [] then none else some (.put key value))) ∧
    ∃ command, buildCommand "delete" key value = some command ∧
      applyCommittedEntry ⟨term, index, command⟩ = .ok (some (.delete key)) :=
  ⟨⟨_, buildCommand_put key value, decode_put term index value keyPlain⟩,
    _, buildCommand_delete key value, decode_delete term index key⟩

theorem empty_key_put_dropped :
    ∃ command, buildCommand "put" [] (ascii "v") = some command ∧ applyCommittedEntry ⟨1, 1, command⟩ = .ok none := by
  obtain ⟨⟨command, built, decoded⟩, -⟩ := command_round_trip 1 1 [] (ascii "v") (by decide)
  exact ⟨command, built, by simpa using decoded⟩

end GoDatabase
