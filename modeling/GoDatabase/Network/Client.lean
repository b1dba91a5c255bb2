import GoDatabase.Network.Server

namespace GoDatabase

/-- A call of the `network.Client` API. -/
inductive ClientCall where
  | put (key value : Bytes)
  | get (key : Bytes)
  | delete (key : Bytes)
  deriving DecidableEq, Repr

namespace ClientCall

/-- The request each method sends; `Get` and `Delete` leave the value nil. -/
def request : ClientCall → Message
  | .put key value => ⟨opPut, key, value⟩
  | .get key => ⟨opGet, key, []⟩
  | .delete key => ⟨opDelete, key, []⟩

/-- How `Put` and `Delete` read a reply: anything but `StatusOK` is a server error. They return
no value, which is `[]` here. -/
def okOrServerError (resp : Response) : Except Bytes Bytes :=
  if resp.status ≠ statusOK then .error (ascii "server error: " ++ resp.error) else .ok []

/-- What each method returns for the reply it read. -/
def result : ClientCall → Response → Except Bytes Bytes
  | .put _ _, resp => okOrServerError resp
  | .get _, resp =>
    if resp.status = statusNotFound then .error (ascii "key not found")
    else if resp.status ≠ statusOK then .error (ascii "server error: " ++ resp.error)
    else .ok resp.value
  | .delete _, resp => okOrServerError resp

end ClientCall

/-- The client's socket as Go reports its errors, and when the reset reaches it. Go's text of a
failed read or write is a `net.OpError` naming the operation, the network and the two ends'
addresses, over the system call's `os.SyscallError`. A server that closes the connection with a
refused request's bytes unread makes its kernel answer with a reset, which reaches the client
while it is still writing that request (`resetInWrite`) or by the time it reads the reply. -/
structure Socket where
  localAddr : String
  remoteAddr : String
  resetInWrite : Bool
  deriving DecidableEq, Repr

/-- The text of a `net.OpError` for `op` on this socket, over the system call's error `errno`. -/
def Socket.opError (k : Socket) (op errno : String) : Bytes :=
  ascii (op ++ " tcp " ++ k.localAddr ++ "->" ++ k.remoteAddr ++ ": " ++ op ++ ": " ++ errno)

/-- The state of the link as the client's kernel holds it. -/
inductive Link where
  /-- The server's loop is reading. -/
  | live
  /-- The server's loop has closed the connection with a request's bytes unread and its kernel
  has answered with a reset, which the client has not yet met. -/
  | reset
  /-- The client has met the reset: every later write fails with `EPIPE`. -/
  | broken
  deriving DecidableEq, Repr

/-- A `Client`'s connection to the `Server` between two calls: the storage the server's loop
answers from, the bytes of a request that have come and that the loop's read waits to complete,
the reply bytes the client has not read, and the link. -/
structure Connection (σ : Type) where
  storage : σ
  pending : Bytes
  replies : Bytes
  link : Link

/-- Where `ReadResponse` leaves the stream when it refuses a length: past the status byte and the
value's length word when that length is over its limit, and otherwise past the value and the
error's length word. -/
def refusedRest (s : Bytes) : Bytes :=
  if 10 * 1024 * 1024 < beValue ((s.drop 1).take 4) then s.drop 5 else s.drop (9 + beValue ((s.drop 1).take 4))

namespace Client

variable {σ : Type} (st : Storage σ) (k : Socket)

/-- `ReadResponse` of a method's reply from the bytes that have come, and what the method returns.
A read that runs out of bytes waits on a live link for bytes that never come, since the server
waits for the next request: the method does not return (`none`). On a reset link it meets the
reset. A read that refuses a length leaves the stream past that length word. -/
def receive (c : ClientCall) (conn : Connection σ) : Connection σ × Option (Except Bytes Bytes) :=
  match readResponse conn.replies with
  | .ok (resp, rest) => ({ conn with replies := rest }, some (c.result resp))
  | .error e =>
    if outOfBytes e then
      match conn.link with
      | .live => (conn, none)
      | .reset | .broken => ({ conn with replies := [], link := .broken },
          some (.error (ascii "failed to read response: " ++ k.opError "read" "connection reset by peer")))
    else ({ conn with replies := refusedRest conn.replies }, some (.error (ascii "failed to read response: " ++ ascii e)))

/-- One method, `Put`, `Get` or `Delete`, on a connected client: it writes its request, the
server's loop reads what has come and answers, and the method reads its reply. A write on a link
the client has found reset fails with `EPIPE`, and a write that meets the reset fails with it. -/
def call (c : ClientCall) (conn : Connection σ) : Connection σ × Option (Except Bytes Bytes) :=
  match conn.link with
  | .broken => (conn, some (.error (ascii "failed to send request: " ++ k.opError "write" "broken pipe")))
  | .reset => ({ conn with link := .broken },
      some (.error (ascii "failed to send request: " ++ k.opError "write" "connection reset by peer")))
  | .live =>
    let (s, output, last) := Server.handleConnection st conn.storage (conn.pending ++ writeMessage c.request)
    if outOfBytes last.error then receive k c ⟨s, last.unread, conn.replies ++ output, .live⟩
    else if k.resetInWrite then
      (⟨s, [], [], .broken⟩,
        some (.error (ascii "failed to send request: " ++ k.opError "write" "connection reset by peer")))
    else receive k c ⟨s, [], conn.replies ++ output, .reset⟩

/-- Methods one after another on one connection. A method that does not return keeps the
client's mutex, so no later one runs. -/
def calls : List ClientCall → Connection σ → Connection σ × List (Except Bytes Bytes)
  | [], conn => (conn, [])
  | c :: cs, conn =>
    match call st k c conn with
    | (conn, none) => (conn, [])
    | (conn, some result) => ((calls cs conn).1, result :: (calls cs conn).2)

end Client

section Session

variable {σ : Type} (st : Storage σ) (k : Socket)

/-- A connected `Client` making `calls` one after another to a `Server`: the storage at the end,
and what each method that returned gave back. -/
def session (s : σ) (calls : List ClientCall) : σ × List (Except Bytes Bytes) :=
  ((Client.calls st k calls ⟨s, [], [], .live⟩).1.storage, (Client.calls st k calls ⟨s, [], [], .live⟩).2)

namespace ClientCall

/-- `Put` or `Delete` made on the storage itself, with its error as the client reports it. -/
def unitOnStorage : σ × Except Bytes Unit → σ × Except Bytes Bytes
  | (s, .error e) => (s, .error (ascii "server error: " ++ e))
  | (s, .ok ()) => (s, .ok [])

/-- The call made on the storage itself, with no connection between: its errors read as the
client reports them, `server error: ` before the storage's text, except that `Get` passes
`key not found` on as it is. -/
def onStorage (s : σ) : ClientCall → σ × Except Bytes Bytes
  | .put key value => unitOnStorage (st.put key value s)
  | .get key =>
    match st.get key s with
    | (s, .error e) => (s, .error (if e = ascii "key not found" then e else ascii "server error: " ++ e))
    | (s, .ok value) => (s, .ok value)
  | .delete key => unitOnStorage (st.delete key s)

end ClientCall

/-- Calls one after another on the storage itself. -/
def runOnStorage : σ → List ClientCall → σ × List (Except Bytes Bytes)
  | s, [] => (s, [])
  | s, c :: cs =>
    let (s, r) := c.onStorage st s
    let (s, rs) := runOnStorage s cs
    (s, r :: rs)

theorem ClientCall.result_processRequest (s : σ) (c : ClientCall) :
    ((Server.processRequest st s c.request).1, c.result (Server.processRequest st s c.request).2) =
      c.onStorage st s := by
  cases c with
  | put key value =>
    simp only [ClientCall.request, Server.processRequest, if_pos, Server.handlePut, ClientCall.onStorage]
    rcases st.put key value s with ⟨s', e | ⟨⟩⟩ <;> rfl
  | get key =>
    simp only [ClientCall.request, Server.processRequest, show opGet ≠ opPut by decide, if_false, if_pos,
      Server.handleGet, ClientCall.onStorage]
    rcases st.get key s with ⟨s', e | value⟩
    · by_cases notFound : e = ascii "key not found"
      · subst notFound; rfl
      · simp [notFound, ClientCall.result, statusError, statusNotFound, statusOK]
    · rfl
  | delete key =>
    simp only [ClientCall.request, Server.processRequest, show opDelete ≠ opPut by decide,
      show opDelete ≠ opGet by decide, if_false, if_pos, Server.handleDelete, ClientCall.onStorage]
    rcases st.delete key s with ⟨s', e | ⟨⟩⟩ <;> rfl

namespace Client

/-- A method whose request and reply fit, on a live connection in step: the server's loop answers
it and waits for the next request, and the method returns what the reply tells. -/
theorem call_fits {s : σ} {c : ClientCall} (fits : c.request.Fits)
    (replyFits : (Server.processRequest st s c.request).2.Fits) :
    call st k c ⟨s, [], [], .live⟩ =
      (⟨(Server.processRequest st s c.request).1, [], [], .live⟩,
        some (c.result (Server.processRequest st s c.request).2)) := by
  have read := readResponse_writeResponse replyFits []
  rw [List.append_nil] at read
  have waiting : outOfBytes "EOF" = true := rfl
  simp only [call, List.nil_append, Server.handleConnection_writeMessage st s fits]
  rw [if_pos waiting]
  simp only [receive, read]

/-- A method whose request is over a size limit, on a live connection in step: the server's loop
ends before the storage sees the request, and the method fails with the reset, in its write or in
its read. -/
theorem call_refused {s : σ} {c : ClientCall} (refused : ¬ c.request.Fits)
    (keyWord : c.request.key.length < 2 ^ 32) (valueWord : c.request.value.length < 2 ^ 32) :
    call st k c ⟨s, [], [], .live⟩ =
      (⟨s, [], [], .broken⟩,
        some (.error (if k.resetInWrite then ascii "failed to send request: " ++ k.opError "write" "connection reset by peer"
          else ascii "failed to read response: " ++ k.opError "read" "connection reset by peer"))) := by
  have loop := Server.handleConnection_refused st s refused keyWord valueWord []
  have refusal : outOfBytes (if c.request.key.length > 1024 * 1024 then "key too large" else "value too large") = false := by
    split <;> rfl
  rw [List.append_nil] at loop
  simp only [call, List.nil_append, loop, refusal]
  cases k.resetInWrite <;> rfl

/-- On a link the client has found reset, every method fails to send its request. -/
theorem calls_broken (s : σ) (pending replies : Bytes) (cs : List ClientCall) :
    calls st k cs ⟨s, pending, replies, .broken⟩ =
      (⟨s, pending, replies, .broken⟩,
        cs.map fun _ => .error (ascii "failed to send request: " ++ k.opError "write" "broken pipe")) := by
  induction cs with
  | nil => rfl
  | cons c cs ih => simp only [calls, call, ih, List.map_cons]

/-- Methods whose requests and replies fit, on a live connection in step: each is answered as the
storage itself answers it, and the connection is left in step for the methods that follow. -/
theorem calls_fit (s : σ) {done : List ClientCall} (doneFit : ∀ d ∈ done, d.request.Fits)
    (repliesFit : ∀ resp ∈ (Server.serve st s (done.map ClientCall.request)).2, resp.Fits) (more : List ClientCall) :
    calls st k (done ++ more) ⟨s, [], [], .live⟩ =
      ((calls st k more ⟨(runOnStorage st s done).1, [], [], .live⟩).1,
        (runOnStorage st s done).2 ++ (calls st k more ⟨(runOnStorage st s done).1, [], [], .live⟩).2) := by
  induction done generalizing s with
  | nil => rfl
  | cons d done ih =>
    have served : (Server.serve st s ((d :: done).map ClientCall.request)).2 =
        (Server.processRequest st s d.request).2 ::
          (Server.serve st (Server.processRequest st s d.request).1 (done.map ClientCall.request)).2 := rfl
    rw [served] at repliesFit
    have step := call_fits st k (doneFit d (List.mem_cons_self d done)) (repliesFit _ (List.mem_cons_self _ _))
    have rest := ih _ (fun d' member => doneFit d' (List.mem_cons_of_mem d member))
      (fun resp member => repliesFit resp (List.mem_cons_of_mem _ member))
    rw [List.cons_append, calls, step]
    dsimp only
    rw [rest]
    simp only [runOnStorage, ← d.result_processRequest st s, List.cons_append]

end Client

/-- The connection refines the storage: for every storage, every socket and every sequence of
calls whose requests and replies fit the wire's limits, talking to the server over the wire gives
the results and the storage that making the same calls on the storage itself gives. -/
theorem session_eq_runOnStorage (s : σ) (calls : List ClientCall)
    (requestsFit : ∀ c ∈ calls, c.request.Fits)
    (repliesFit : ∀ resp ∈ (Server.serve st s (calls.map ClientCall.request)).2, resp.Fits) :
    session st k s calls = runOnStorage st s calls := by
  have run := Client.calls_fit st k s requestsFit repliesFit []
  rw [List.append_nil] at run
  simp only [session, run, Client.calls, List.append_nil]

theorem session_eq_runOnStorage_on_list :
    let st : Storage (List (Bytes × Bytes)) :=
      ⟨fun key value s => ((key, value) :: s, .ok ()),
        fun key s => (s, match s.lookup key with | some v => .ok v | none => .error (ascii "key not found")),
        fun key s => (s.filter fun e => e.1 != key, .ok ())⟩
    let k : Socket := ⟨"127.0.0.1:50000", "127.0.0.1:8080", false⟩
    let calls := [.put (ascii "k") (ascii "v"), .get (ascii "k"), .delete (ascii "k"), .get (ascii "k")]
    (∀ c ∈ calls, c.request.Fits) ∧ (∀ resp ∈ (Server.serve st [] (calls.map ClientCall.request)).2, resp.Fits) ∧
      session st k [] calls = runOnStorage st [] calls := by
  intro st k calls
  have requestsFit : ∀ c ∈ calls, c.request.Fits := by decide
  have repliesFit : ∀ resp ∈ (Server.serve st [] (calls.map ClientCall.request)).2, resp.Fits := by decide
  exact ⟨requestsFit, repliesFit, session_eq_runOnStorage st k [] calls requestsFit repliesFit⟩

end Session

end GoDatabase
