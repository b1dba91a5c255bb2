import GoDatabase.Network.Protocol

namespace GoDatabase

/-- `OpPut`, the operation byte of a `Put` request. -/
def opPut : UInt8 := 1

/-- `OpGet`. -/
def opGet : UInt8 := 2

/-- `OpDelete`. -/
def opDelete : UInt8 := 3

/-- `StatusOK`, the status byte of a reply to a call that succeeded. -/
def statusOK : UInt8 := 0

/-- `StatusError`. -/
def statusError : UInt8 := 1

/-- `StatusNotFound`. -/
def statusNotFound : UInt8 := 2

/-- The `storage.Storage` a `Server` answers from, as its handlers call it: each call gives the
storage's next state and its result. An error is the bytes of its `Error()` text, which is what
a Go string is. -/
structure Storage (σ : Type) where
  put : Bytes → Bytes → σ → σ × Except Bytes Unit
  get : Bytes → σ → σ × Except Bytes Bytes
  delete : Bytes → σ → σ × Except Bytes Unit

namespace Server

variable {σ : Type} (st : Storage σ)

/-- The reply `handlePut` and `handleDelete` build from the storage's result: `StatusError` with
the error's text, or an empty `StatusOK`. -/
def statusReply : σ × Except Bytes Unit → σ × Response
  | (s, .error e) => (s, ⟨statusError, [], e⟩)
  | (s, .ok ()) => (s, ⟨statusOK, [], []⟩)

def handlePut (key value : Bytes) (s : σ) : σ × Response := statusReply (st.put key value s)

/-- `handleGet`: `StatusNotFound` when the storage's error reads `key not found`. -/
def handleGet (key : Bytes) (s : σ) : σ × Response :=
  match st.get key s with
  | (s, .error e) => if e = ascii "key not found" then (s, ⟨statusNotFound, [], e⟩) else (s, ⟨statusError, [], e⟩)
  | (s, .ok value) => (s, ⟨statusOK, value, []⟩)

def handleDelete (key : Bytes) (s : σ) : σ × Response := statusReply (st.delete key s)

def processRequest (s : σ) (msg : Message) : σ × Response :=
  if msg.op = opPut then handlePut st msg.key msg.value s
  else if msg.op = opGet then handleGet st msg.key s
  else if msg.op = opDelete then handleDelete st msg.key s
  else (s, ⟨statusError, [], ascii "invalid operation"⟩)

/-- The read that broke `handleConnection`'s loop: its error, and the bytes from where it
began. -/
structure LastRead where
  error : String
  unread : Bytes
  deriving DecidableEq, Repr

/-- `handleConnection`: read a request, answer it, and again, until a read fails, at the end of
what the client has sent or at a request it refuses. The result is the storage afterwards, every
byte written back, and the read that failed; writes to the connection are taken to succeed. A
read that runs out of bytes (`outOfBytes`) is where the loop waits while the client is
connected, and where it ends once the client has closed. -/
def handleConnection (s : σ) (input : Bytes) : σ × Bytes × LastRead :=
  match h : readMessage input with
  | .error e => (s, [], ⟨e, input⟩)
  | .ok (msg, rest) =>
    have : rest.length < input.length := readMessage_shorter h
    let (s, resp) := processRequest st s msg
    let (s, output, last) := handleConnection s rest
    (s, writeResponse resp ++ output, last)
termination_by input.length

/-- Requests answered in order, off the wire: what a connection's loop computes. -/
def serve : σ → List Message → σ × List Response
  | s, [] => (s, [])
  | s, msg :: msgs =>
    let (s, resp) := processRequest st s msg
    let (s, resps) := serve s msgs
    (s, resp :: resps)

theorem handleConnection_of_error {s : σ} {input : Bytes} {e : String} (h : readMessage input = .error e) :
    handleConnection st s input = (s, [], ⟨e, input⟩) := by
  rw [handleConnection]
  split
  · rename_i read
    rw [h] at read
    cases read
    rfl
  · rename_i read
    rw [h] at read
    cases read

theorem handleConnection_of_ok {s : σ} {input rest : Bytes} {msg : Message}
    (h : readMessage input = .ok (msg, rest)) :
    handleConnection st s input =
      ((handleConnection st (processRequest st s msg).1 rest).1,
        writeResponse (processRequest st s msg).2 ++ (handleConnection st (processRequest st s msg).1 rest).2.1,
        (handleConnection st (processRequest st s msg).1 rest).2.2) := by
  rw [handleConnection]
  split
  · rename_i read
    rw [h] at read
    cases read
  · rename_i read
    rw [h] at read
    cases read
    rfl

theorem handleConnection_nil (s : σ) : handleConnection st s [] = (s, [], ⟨"EOF", []⟩) :=
  handleConnection_of_error st rfl

/-- One request that fits, on its own: the loop answers it and waits at the end of the bytes. -/
theorem handleConnection_writeMessage (s : σ) {msg : Message} (fits : msg.Fits) :
    handleConnection st s (writeMessage msg) =
      ((processRequest st s msg).1, writeResponse (processRequest st s msg).2, ⟨"EOF", []⟩) := by
  have read := readMessage_writeMessage fits []
  rw [List.append_nil] at read
  rw [handleConnection_of_ok st read, handleConnection_nil, List.append_nil]

/-- A request over a size limit ends the loop before it reaches the storage. -/
theorem handleConnection_refused (s : σ) {msg : Message} (refused : ¬ msg.Fits)
    (keyWord : msg.key.length < 2 ^ 32) (valueWord : msg.value.length < 2 ^ 32) (rest : Bytes) :
    handleConnection st s (writeMessage msg ++ rest) =
      (s, [], ⟨if msg.key.length > 1024 * 1024 then "key too large" else "value too large",
        writeMessage msg ++ rest⟩) :=
  handleConnection_of_error st (readMessage_writeMessage_refused refused keyWord valueWord rest)

end Server

end GoDatabase
