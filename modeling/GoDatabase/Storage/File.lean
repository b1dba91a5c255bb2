import GoDatabase.Storage.Engine

namespace GoDatabase

/-- `MAGIC`, the first word of a database file. -/
def magic : Nat := 0x12345678

/-- `VERSION`, its second word. -/
def version : Nat := 1

/-- The header `initialize` writes to a new file: `MAGIC` and `VERSION`, big-endian. -/
def fileHeader : Bytes := beBytes 4 magic ++ beBytes 4 version

/-- `os.File.Write` at offset `off` of the file's contents: the bytes there are overwritten and
the file grows as needed. Nothing the engine does shortens a file. -/
def writeAt (file : Bytes) (off : Nat) (data : Bytes) : Bytes :=
  file.take off ++ List.replicate (off - file.length) 0 ++ data ++ file.drop (off + data.length)

/-- `serializeNode`: eight zero bytes, whatever the tree holds. -/
def serializeNode : Bytes := List.replicate 8 0

namespace StorageEngine

/-- `initialize`, on the file's contents: a new, empty file gets the header; any other file must
start with it. `ReadAt` of the header from a shorter file fails with `EOF`. -/
def initializeFile (file : Bytes) : Except String Bytes :=
  if file.length = 0 then .ok (writeAt file 0 fileHeader)
  else if file.length < 8 then .error "EOF"
  else if beValue (file.take 4) ≠ magic then .error "invalid database file"
  else if beValue ((file.drop 4).take 4) ≠ version then .error "unsupported database version"
  else .ok file

/-- The writes of `flush`, from offset 8, for the tree's `Size()` and `Height()`: both as
`uint32`, then `serializeNode` when the tree is not empty. -/
def flushFile (file : Bytes) (size : Int) (height : Nat) : Bytes :=
  let file := writeAt file 8 (beBytes 4 (size % 2 ^ 32).toNat ++ beBytes 4 height)
  if size > 0 then writeAt file 16 serializeNode else file

/-- `flush` with the file it writes. -/
def flushWith (e : StorageEngine) (file : Bytes) : Except String (Bytes × StorageEngine) := do
  let (h, height) ← e.btree.height e.heap
  return (flushFile file e.btree.size height, { e with heap := h })

/-- What `Put` and `Delete` do after the tree's call: return its error as it is, or `flush`. -/
def thenFlush (file : Bytes) : Heap × BTree × Except String Unit →
    Except String (Bytes × StorageEngine × Except String Unit)
  | (h, t, .error error) => .ok (file, ⟨h, t⟩, .error error)
  | (h, t, .ok ()) => do
    let (file, e) ← flushWith ⟨h, t⟩ file
    return (file, e, .ok ())

def putWith (e : StorageEngine) (file : Bytes) (key value : Bytes) :
    Except String (Bytes × StorageEngine × Except String Unit) :=
  e.btree.insert e.heap key value >>= thenFlush file

def deleteWith (e : StorageEngine) (file : Bytes) (key : Bytes) :
    Except String (Bytes × StorageEngine × Except String Unit) :=
  e.btree.delete e.heap key >>= thenFlush file

/-- A call on the engine and its file; `Get` is the tree's and leaves the file alone. -/
def callWith (e : StorageEngine) (file : Bytes) : Call → Except String (Bytes × StorageEngine × Reply)
  | .insert key value => (e.putWith file key value).map fun (file, e, reply) => (file, e, reply.map fun _ => none)
  | .get key => (e.btree.get e.heap key).map fun (h, reply) => (file, { e with heap := h }, reply.map some)
  | .delete key => (e.deleteWith file key).map fun (file, e, reply) => (file, e, reply.map fun _ => none)

def callsWith (e : StorageEngine) (file : Bytes) : List Call → Except String (Bytes × StorageEngine × List Reply)
  | [] => .ok (file, e, [])
  | c :: cs => do
    let (file, e, reply) ← e.callWith file c
    let (file, e, replies) ← e.callsWith file cs
    return (file, e, reply :: replies)

/-- The same calls on the engine without its file: `Put`, `Get` and `Delete` as the engine's
model has them. -/
def call (e : StorageEngine) : Call → Except String (StorageEngine × Reply)
  | .insert key value => (e.put key value).map fun (e, reply) => (e, reply.map fun _ => none)
  | .get key => (e.btree.get e.heap key).map fun (h, reply) => ({ e with heap := h }, reply.map some)
  | .delete key => (e.delete key).map fun (e, reply) => (e, reply.map fun _ => none)

def calls (e : StorageEngine) : List Call → Except String (StorageEngine × List Reply)
  | [] => .ok (e, [])
  | c :: cs => do
    let (e, reply) ← e.call c
    let (e, replies) ← e.calls cs
    return (e, reply :: replies)

/-- The engine `NewStorageEngine` starts from: a new tree. -/
def fresh : StorageEngine := ⟨(BTree.new Heap.init).1, (BTree.new Heap.init).2⟩

/-- A lifetime without the file: the calls on a new engine, then the flush of `Close`. -/
def runFresh (calls : List Call) : Except String (List Reply) := do
  let (e, replies) ← fresh.calls calls
  let _ ← e.flush
  return replies

end StorageEngine

/-- `NewStorageEngine` on the file's contents: a new tree, whatever the file holds, and
`initialize`. -/
def newStorageEngine (file : Bytes) : Except String (Bytes × StorageEngine) :=
  (StorageEngine.initializeFile file).map fun file => (file, StorageEngine.fresh)

/-- One lifetime of the program on the database file: `NewStorageEngine`, the calls, `Close`. An
error is a failed open or a panic, and ends the program. -/
def lifetime (file : Bytes) (calls : List Call) : Except String (Bytes × List Reply) := do
  let (file, e) ← newStorageEngine file
  let (file, e, replies) ← e.callsWith file calls
  let (file, _) ← e.flushWith file
  return (file, replies)

/-- Lifetimes one after another on the same file. -/
def lifetimes (file : Bytes) : List (List Call) → Except String (Bytes × List (List Reply))
  | [] => .ok (file, [])
  | calls :: runs => do
    let (file, replies) ← lifetime file calls
    let (file, later) ← lifetimes file runs
    return (file, replies :: later)

/-- The contents a database file has once the engine has opened it: the header; once a `flush`
has run, the tree header it wrote; and the `serializeNode` bytes if a flush ever wrote them,
which stay when the tree empties again. -/
inductive Written : Bytes → Prop
  | header : Written fileHeader
  | flushed (size height : Nat) : Written (fileHeader ++ (beBytes 4 size ++ beBytes 4 height))
  | stale (size height : Nat) : Written (fileHeader ++ (beBytes 4 size ++ beBytes 4 height) ++ serializeNode)

@[simp] theorem length_fileHeader : fileHeader.length = 8 := rfl

@[simp] theorem length_serializeNode : serializeNode.length = 8 := rfl

theorem writeAt_append (pre rest data : Bytes) :
    writeAt (pre ++ rest) pre.length data = pre ++ data ++ rest.drop data.length := by
  simp [writeAt, List.drop_append]

theorem writeAt_header (rest data : Bytes) :
    writeAt (fileHeader ++ rest) 8 data = fileHeader ++ data ++ rest.drop data.length :=
  writeAt_append fileHeader rest data

theorem Written.eq_append {file : Bytes} (written : Written file) :
    ∃ rest, file = fileHeader ++ rest ∧ (rest.drop 8 = [] ∨ rest.drop 8 = serializeNode) := by
  cases written with
  | header => exact ⟨[], by simp⟩
  | flushed size height => exact ⟨_, rfl, Or.inl (by simp)⟩
  | stale size height =>
    exact ⟨(beBytes 4 size ++ beBytes 4 height) ++ serializeNode, List.append_assoc _ _ _,
      Or.inr (List.drop_left' (by simp))⟩

/-- A file that starts with the header passes `initialize` unchanged. -/
theorem initializeFile_header_append (rest : Bytes) :
    StorageEngine.initializeFile (fileHeader ++ rest) = .ok (fileHeader ++ rest) := by
  have first : (fileHeader ++ rest).take 4 = beBytes 4 magic := by
    rw [fileHeader, List.append_assoc, List.take_left' (length_beBytes 4 magic)]
  have second : ((fileHeader ++ rest).drop 4).take 4 = beBytes 4 version := by
    rw [fileHeader, List.append_assoc, List.drop_left' (length_beBytes 4 magic), List.take_left' (length_beBytes 4 version)]
  simp only [StorageEngine.initializeFile, first, second, List.length_append, length_fileHeader,
    beValue_beBytes_of_lt (show magic < 256 ^ 4 by decide), beValue_beBytes_of_lt (show version < 256 ^ 4 by decide),
    show ¬ 8 + rest.length = 0 by omega, show ¬ 8 + rest.length < 8 by omega, ne_eq, not_true_eq_false, if_false]

theorem initializeFile_written {file : Bytes} (written : Written file) :
    StorageEngine.initializeFile file = .ok file := by
  obtain ⟨rest, rfl, -⟩ := written.eq_append
  exact initializeFile_header_append rest

theorem initializeFile_empty : StorageEngine.initializeFile [] = .ok fileHeader := rfl

/-- `flush` keeps a file the engine wrote one it could have written: its writes start past the
header and cover the tree header and at most the eight bytes after it. -/
theorem Written.flushFile {file : Bytes} (written : Written file) (size : Int) (height : Nat) :
    Written (StorageEngine.flushFile file size height) := by
  obtain ⟨rest, rfl, tail⟩ := written.eq_append
  let word := (size % 2 ^ 32).toNat
  have treeHeader := writeAt_header rest (beBytes 4 word ++ beBytes 4 height)
  rw [List.length_append, length_beBytes, length_beBytes] at treeHeader
  have zeros (tail : Bytes) (short : tail.drop 8 = []) :
      writeAt (fileHeader ++ (beBytes 4 word ++ beBytes 4 height) ++ tail) 16 serializeNode =
        fileHeader ++ (beBytes 4 word ++ beBytes 4 height) ++ serializeNode := by
    have := writeAt_append (fileHeader ++ (beBytes 4 word ++ beBytes 4 height)) tail serializeNode
    rw [length_serializeNode, short, List.append_nil] at this
    simpa using this
  unfold StorageEngine.flushFile
  rcases tail with tail | tail <;> rw [treeHeader, show 4 + 4 = 8 from rfl, tail]
  · split
    · rw [zeros [] rfl]; exact .stale word height
    · rw [List.append_nil]; exact .flushed word height
  · split
    · rw [zeros serializeNode rfl]; exact .stale word height
    · exact .stale word height

/-- A result of the program with its database file agrees with the result without it: the
same value, or the same panic, and a file the engine could have written. -/
def Agrees {α : Type} : Except String (Bytes × α) → Except String α → Prop
  | .ok (file, a), .ok a' => a = a' ∧ Written file
  | .error err, .error err' => err = err'
  | _, _ => False

section Agrees

variable {α β : Type} {file : Bytes}

theorem Agrees.bind {r : Except String (Bytes × α)} {r' : Except String α} {k : Bytes × α → Except String (Bytes × β)}
    {k' : α → Except String β} (agrees : Agrees r r') (next : ∀ file a, Written file → Agrees (k (file, a)) (k' a)) :
    Agrees (r >>= k) (r' >>= k') := by
  rcases r with err | ⟨file, a⟩ <;> rcases r' with err' | a'
  · exact agrees
  · cases agrees
  · cases agrees
  · obtain ⟨rfl, written⟩ := agrees
    exact next file a written

theorem Agrees.map {r : Except String (Bytes × α)} {r' : Except String α} (agrees : Agrees r r') {f : α → β}
    {g : Bytes × α → Bytes × β} (keeps : ∀ file a, g (file, a) = (file, f a)) : Agrees (r.map g) (r'.map f) := by
  rcases r with err | ⟨file, a⟩ <;> rcases r' with err' | a'
  · exact agrees
  · cases agrees
  · cases agrees
  · obtain ⟨rfl, written⟩ := agrees
    show Agrees (.ok (g (file, a))) _
    rw [keeps]
    exact ⟨rfl, written⟩

theorem Agrees.pure {a : α} (written : Written file) : Agrees (.ok (file, a)) (.ok a) := ⟨rfl, written⟩

end Agrees

namespace StorageEngine

variable {file : Bytes}

theorem flushWith_agrees (written : Written file) (e : StorageEngine) : Agrees (e.flushWith file) e.flush := by
  unfold flushWith flush
  rcases e.btree.height e.heap with err | ⟨h, height⟩
  · rfl
  · exact .pure (written.flushFile _ _)

theorem putWith_agrees (written : Written file) (e : StorageEngine) (key value : Bytes) :
    Agrees (e.putWith file key value) (e.put key value) := by
  unfold putWith put
  rcases e.btree.insert e.heap key value with err | ⟨h, t, err | ⟨⟩⟩
  · rfl
  · exact .pure written
  · exact (flushWith_agrees written ⟨h, t⟩).bind fun file e written => .pure written

theorem deleteWith_agrees (written : Written file) (e : StorageEngine) (key : Bytes) :
    Agrees (e.deleteWith file key) (e.delete key) := by
  unfold deleteWith delete
  rcases e.btree.delete e.heap key with err | ⟨h, t, err | ⟨⟩⟩
  · rfl
  · exact .pure written
  · exact (flushWith_agrees written ⟨h, t⟩).bind fun file e written => .pure written

theorem callWith_agrees (written : Written file) (e : StorageEngine) : ∀ c, Agrees (e.callWith file c) (e.call c)
  | .insert key value => (putWith_agrees written e key value).map fun _ _ => rfl
  | .get key => by
    dsimp only [callWith, call]
    rcases e.btree.get e.heap key with err | ⟨h, reply⟩
    · rfl
    · exact .pure written
  | .delete key => (deleteWith_agrees written e key).map fun _ _ => rfl

theorem callsWith_agrees (written : Written file) (e : StorageEngine) (cs : List Call) :
    Agrees (e.callsWith file cs) (e.calls cs) := by
  induction cs generalizing e file with
  | nil => exact .pure written
  | cons c cs ih =>
    exact (callWith_agrees written e c).bind fun file (e, reply) written =>
      (ih written e).bind fun file (e, replies) written => .pure written

end StorageEngine

theorem newStorageEngine_opens {file : Bytes} (start : file = [] ∨ Written file) :
    ∃ opened, Written opened ∧ newStorageEngine file = .ok (opened, StorageEngine.fresh) := by
  rcases start with rfl | written
  · exact ⟨fileHeader, .header, rfl⟩
  · exact ⟨file, written, by rw [newStorageEngine, initializeFile_written written]; rfl⟩

theorem lifetime_agrees {file : Bytes} (start : file = [] ∨ Written file) (calls : List Call) :
    Agrees (lifetime file calls) (StorageEngine.runFresh calls) := by
  obtain ⟨opened, written, opens⟩ := newStorageEngine_opens start
  rw [lifetime, opens, except_ok_bind]
  exact (StorageEngine.callsWith_agrees written _ calls).bind fun file (e, replies) written =>
    (StorageEngine.flushWith_agrees written e).bind fun file _ written => .pure written

theorem lifetimes_agree_of_written {file : Bytes} (written : Written file) (runs : List (List Call)) :
    Agrees (lifetimes file runs) (runs.mapM StorageEngine.runFresh) := by
  induction runs generalizing file with
  | nil => exact .pure written
  | cons calls runs ih =>
    rw [lifetimes, List.mapM_cons]
    exact (lifetime_agrees (Or.inr written) calls).bind fun file replies written =>
      (ih written).bind fun file later written => .pure written

/-- A value put in one lifetime is not found in the next, and the eight zero bytes the first
`flush` wrote stay in the file after the tree is empty. -/
example : lifetimes [] [[.insert (ascii "k") (ascii "v")], [.get (ascii "k")]] =
    .ok (fileHeader ++ beBytes 4 0 ++ beBytes 4 0 ++ serializeNode, [[.ok none], [.error "key not found"]]) := rfl

end GoDatabase
