import GoDatabase.Basic

namespace GoDatabase

/-- A request on the client wire (`network.Message`). -/
structure Message where
  op : UInt8
  key : Bytes
  value : Bytes
  deriving DecidableEq, Repr

/-- A reply on the client wire (`network.Response`); the Go `string` error is its bytes. -/
structure Response where
  status : UInt8
  value : Bytes
  error : Bytes
  deriving DecidableEq, Repr

/-- `io.ReadFull` on the rest of a stream: exactly `n` bytes, `EOF` when nothing is left
and `unexpected EOF` when the stream ends part way. -/
def readFull (n : Nat) (s : Bytes) : Except String (Bytes × Bytes) :=
  if n ≤ s.length then .ok (s.take n, s.drop n)
  else if s.isEmpty then .error "EOF" else .error "unexpected EOF"

/-- The errors of a read that ran out of bytes. On a connection whose other end is still open
such a read waits for more instead of failing. -/
def outOfBytes (e : String) : Bool := e == "EOF" || e == "unexpected EOF"

/-- `binary.Read` of one byte. -/
def readByte : Bytes → Except String (UInt8 × Bytes)
  | [] => .error "EOF"
  | b :: s => .ok (b, s)

/-- `binary.Read` of a big-endian `uint32`. -/
def readWord (s : Bytes) : Except String (Nat × Bytes) :=
  (readFull 4 s).map fun (bs, rest) => (beValue bs, rest)

/-- The frame both codecs write: a tag byte, then two fields, each behind its
`uint32` big-endian length (the length is truncated to 32 bits as Go's conversion does). -/
def writeFrame (tag : UInt8) (first second : Bytes) : Bytes :=
  tag :: (beBytes 4 first.length ++ first ++ beBytes 4 second.length ++ second)

/-- Reading a frame, refusing a declared field length above its limit before reading it. -/
def readFrame (firstMax : Nat) (firstTooLarge : String) (secondMax : Nat) (secondTooLarge : String)
    (s : Bytes) : Except String ((UInt8 × Bytes × Bytes) × Bytes) := do
  let (tag, s) ← readByte s
  let (firstLen, s) ← readWord s
  if firstLen > firstMax then throw firstTooLarge
  let (first, s) ← readFull firstLen s
  let (secondLen, s) ← readWord s
  if secondLen > secondMax then throw secondTooLarge
  let (second, s) ← readFull secondLen s
  return ((tag, first, second), s)

def writeMessage (msg : Message) : Bytes := writeFrame msg.op msg.key msg.value

def readMessage (s : Bytes) : Except String (Message × Bytes) :=
  (readFrame (1024 * 1024) "key too large" (10 * 1024 * 1024) "value too large" s).map
    fun ((op, key, value), rest) => (⟨op, key, value⟩, rest)

def writeResponse (resp : Response) : Bytes := writeFrame resp.status resp.value resp.error

def readResponse (s : Bytes) : Except String (Response × Bytes) :=
  (readFrame (10 * 1024 * 1024) "value too large" 1024 "error message too large" s).map
    fun ((status, value, error), rest) => (⟨status, value, error⟩, rest)

/-- `n` successive reads from one stream, each starting where the last one stopped. -/
def readMany {α : Type} (read : Bytes → Except String (α × Bytes)) : Nat → Bytes → Except String (List α × Bytes)
  | 0, s => .ok ([], s)
  | n + 1, s => do
    let (a, s) ← read s
    let (as, s) ← readMany read n s
    return (a :: as, s)

/-- The sizes `ReadMessage` accepts. -/
def Message.Fits (msg : Message) : Prop :=
  msg.key.length ≤ 1024 * 1024 ∧ msg.value.length ≤ 10 * 1024 * 1024

/-- The sizes `ReadResponse` accepts. -/
def Response.Fits (resp : Response) : Prop :=
  resp.value.length ≤ 10 * 1024 * 1024 ∧ resp.error.length ≤ 1024

instance (msg : Message) : Decidable msg.Fits := inferInstanceAs (Decidable (_ ∧ _))

instance (resp : Response) : Decidable resp.Fits := inferInstanceAs (Decidable (_ ∧ _))

theorem readFull_append (bs rest : Bytes) : readFull bs.length (bs ++ rest) = .ok (bs, rest) := by
  simp [readFull]

theorem readWord_beBytes {n : Nat} (fits : n < 2 ^ 32) (rest : Bytes) :
    readWord (beBytes 4 n ++ rest) = .ok (n, rest) := by
  have word := readFull_append (beBytes 4 n) rest
  rw [length_beBytes] at word
  simp only [readWord, word, Except.map, beValue_beBytes_of_lt (show n < 256 ^ 4 by omega)]

/-- A frame whose fields respect the limits is read back whole, and nothing past it is read. -/
theorem readFrame_writeFrame {firstMax secondMax : Nat} {tag : UInt8} {first second : Bytes}
    (errFirst errSecond : String) (firstFits : first.length ≤ firstMax) (secondFits : second.length ≤ secondMax)
    (firstWord : first.length < 2 ^ 32) (secondWord : second.length < 2 ^ 32) (rest : Bytes) :
    readFrame firstMax errFirst secondMax errSecond (writeFrame tag first second ++ rest) =
      .ok ((tag, first, second), rest) := by
  simp only [writeFrame, List.cons_append, List.append_assoc, readFrame, readByte,
    readWord_beBytes firstWord, readWord_beBytes secondWord, readFull_append,
    show ¬ first.length > firstMax by omega, show ¬ second.length > secondMax by omega,
    except_ok_bind, except_pure, if_false]

theorem readMany_flatten {α : Type} {read : Bytes → Except String (α × Bytes)} {write : α → Bytes}
    {xs : List α} (inverse : ∀ x ∈ xs, ∀ rest, read (write x ++ rest) = .ok (x, rest)) (rest : Bytes) :
    readMany read xs.length ((xs.map write).flatten ++ rest) = .ok (xs, rest) := by
  induction xs with
  | nil => rfl
  | cons x xs ih =>
    have tail := ih fun y member => inverse y (List.mem_cons_of_mem x member)
    simp only [List.length_cons, List.map_cons, List.flatten_cons, List.append_assoc, readMany,
      inverse x (List.mem_cons_self x xs), tail, except_ok_bind, except_pure]

theorem readMessage_writeMessage {msg : Message} (fits : msg.Fits) (rest : Bytes) :
    readMessage (writeMessage msg ++ rest) = .ok (msg, rest) := by
  obtain ⟨keyFits, valueFits⟩ := fits
  rw [readMessage, writeMessage, readFrame_writeFrame _ _ keyFits valueFits (by omega) (by omega)]
  rfl

theorem readResponse_writeResponse {resp : Response} (fits : resp.Fits) (rest : Bytes) :
    readResponse (writeResponse resp ++ rest) = .ok (resp, rest) := by
  obtain ⟨valueFits, errorFits⟩ := fits
  rw [readResponse, writeResponse, readFrame_writeFrame _ _ valueFits errorFits (by omega) (by omega)]
  rfl

theorem readFull_rest {n : Nat} {s bs rest : Bytes} (h : readFull n s = .ok (bs, rest)) :
    rest = s.drop n := by
  unfold readFull at h
  split at h
  · cases h; rfl
  · split at h <;> cases h

theorem readWord_rest {s rest : Bytes} {n : Nat} (h : readWord s = .ok (n, rest)) : rest = s.drop 4 := by
  obtain ⟨⟨bs, r⟩, full, same⟩ := except_map_eq_ok.mp h
  cases same
  exact readFull_rest full

/-- A frame that is read consumes at least its tag byte. -/
theorem readFrame_shorter {firstMax secondMax : Nat} {firstTooLarge secondTooLarge : String}
    {s rest : Bytes} {frame : UInt8 × Bytes × Bytes}
    (h : readFrame firstMax firstTooLarge secondMax secondTooLarge s = .ok (frame, rest)) :
    rest.length < s.length := by
  match s with
  | [] => cases h
  | b :: s =>
    simp only [readFrame, readByte, except_ok_bind] at h
    obtain ⟨⟨n, s₁⟩, word₁, h⟩ := except_bind_eq_ok.mp h
    split at h
    · cases h
    simp only [except_pure, except_ok_bind] at h
    obtain ⟨⟨first, s₂⟩, full₁, h⟩ := except_bind_eq_ok.mp h
    obtain ⟨⟨m, s₃⟩, word₂, h⟩ := except_bind_eq_ok.mp h
    split at h
    · cases h
    simp only [except_pure, except_ok_bind] at h
    obtain ⟨⟨second, s₄⟩, full₂, h⟩ := except_bind_eq_ok.mp h
    cases h
    rw [readFull_rest full₂, readWord_rest word₂, readFull_rest full₁, readWord_rest word₁]
    simp only [List.length_drop, List.length_cons]
    omega

theorem readMessage_shorter {s rest : Bytes} {msg : Message} (h : readMessage s = .ok (msg, rest)) :
    rest.length < s.length := by
  obtain ⟨⟨frame, r⟩, read, same⟩ := except_map_eq_ok.mp h
  cases same
  exact readFrame_shorter read

/-- A frame with a field over its limit is refused at that field's length, before its bytes are
read; lengths under 2^32 are the true ones, as the writer's `uint32` conversion keeps them. -/
theorem readFrame_writeFrame_refused {firstMax secondMax : Nat} {tag : UInt8} {first second : Bytes}
    (firstTooLarge secondTooLarge : String) (refused : ¬(first.length ≤ firstMax ∧ second.length ≤ secondMax))
    (firstWord : first.length < 2 ^ 32) (secondWord : second.length < 2 ^ 32) (rest : Bytes) :
    readFrame firstMax firstTooLarge secondMax secondTooLarge (writeFrame tag first second ++ rest) =
      .error (if first.length > firstMax then firstTooLarge else secondTooLarge) := by
  by_cases big : first.length > firstMax
  · simp only [writeFrame, List.cons_append, List.append_assoc, readFrame, readByte,
      readWord_beBytes firstWord, big, except_ok_bind, except_throw, except_error_bind, if_true]
  · simp only [writeFrame, List.cons_append, List.append_assoc, readFrame, readByte,
      readWord_beBytes firstWord, readWord_beBytes secondWord, readFull_append, big,
      show second.length > secondMax by omega, except_ok_bind, except_pure, except_throw,
      except_error_bind, if_true, if_false]

theorem readMessage_writeMessage_refused {msg : Message} (refused : ¬ msg.Fits)
    (keyWord : msg.key.length < 2 ^ 32) (valueWord : msg.value.length < 2 ^ 32) (rest : Bytes) :
    readMessage (writeMessage msg ++ rest) =
      .error (if msg.key.length > 1024 * 1024 then "key too large" else "value too large") := by
  rw [readMessage, writeMessage, readFrame_writeFrame_refused _ _ refused keyWord valueWord]
  rfl

/-- Stream framing of the client wire: `n` calls of `ReadMessage` on the bytes of `n` calls of
`WriteMessage` return the messages in order and stop exactly at the end of them, and the same
for responses. -/
theorem wire_stream_round_trip (msgs : List Message) (resps : List Response) (rest : Bytes)
    (msgsFit : ∀ msg ∈ msgs, msg.Fits) (respsFit : ∀ resp ∈ resps, resp.Fits) :
    readMany readMessage msgs.length ((msgs.map writeMessage).flatten ++ rest) = .ok (msgs, rest) ∧
      readMany readResponse resps.length ((resps.map writeResponse).flatten ++ rest) =
        .ok (resps, rest) :=
  ⟨readMany_flatten (fun msg member => readMessage_writeMessage (msgsFit msg member)) rest,
    readMany_flatten (fun resp member => readResponse_writeResponse (respsFit resp member)) rest⟩

theorem wire_stream_round_trip_get_reply :
    (∀ msg ∈ [Message.mk 2 (ascii "k") []], msg.Fits) ∧
      (∀ resp ∈ [Response.mk 0 (ascii "v") []], resp.Fits) ∧
      (readMany readMessage [Message.mk 2 (ascii "k") []].length
          (([Message.mk 2 (ascii "k") []].map writeMessage).flatten ++ []) =
            .ok ([Message.mk 2 (ascii "k") []], []) ∧
        readMany readResponse [Response.mk 0 (ascii "v") []].length
          (([Response.mk 0 (ascii "v") []].map writeResponse).flatten ++ []) =
            .ok ([Response.mk 0 (ascii "v") []], [])) := by
  have msgFit : ∀ msg ∈ [Message.mk 2 (ascii "k") []], msg.Fits := by decide
  have respFit : ∀ resp ∈ [Response.mk 0 (ascii "v") []], resp.Fits := by decide
  exact ⟨msgFit, respFit, wire_stream_round_trip _ _ [] msgFit respFit⟩

end GoDatabase
