import GoDatabase.Basic

namespace GoDatabase

/-- `BNODE_NODE`: an internal node, whose child pointers are used. -/
def bnodeNode : Nat := 1

/-- `BNODE_LEAF`: a leaf, whose entries carry values. -/
def bnodeLeaf : Nat := 2

def btreePageSize : Nat := 4096

def btreeMaxKeySize : Nat := 1000

def btreeMaxValSize : Nat := 3000

/-- A Go `uint16` result: arithmetic on `uint16` wraps modulo 2^16. -/
def wrap16 (x : Nat) : Nat := x % 65536

/-- `bytes.Compare`: lexicographic order on unsigned bytes. -/
def bytesCompare : Bytes → Bytes → Ordering
  | [], [] => .eq
  | [], _ :: _ => .lt
  | _ :: _, [] => .gt
  | a :: as, b :: bs => if a < b then .lt else if b < a then .gt else bytesCompare as bs

/-- The tests the scans make on a comparison, such as `bytes.Compare(key, k) == 0`. -/
theorem ordering_beq_iff {o o' : Ordering} : (o == o') = true ↔ o = o' := by
  cases o <;> cases o' <;> decide

theorem uint8_lt_iff_toNat {x y : UInt8} : x < y ↔ x.toNat < y.toNat := by
  rw [UInt8.lt_def, BitVec.lt_def]; rfl

theorem bytesCompare_self : ∀ a : Bytes, bytesCompare a a = .eq
  | [] => rfl
  | x :: xs => by simp [bytesCompare, bytesCompare_self xs]

theorem bytesCompare_eq_iff : ∀ {a b : Bytes}, bytesCompare a b = .eq ↔ a = b
  | [], [] => by simp [bytesCompare]
  | [], _ :: _ => by simp [bytesCompare]
  | _ :: _, [] => by simp [bytesCompare]
  | x :: xs, y :: ys => by
    unfold bytesCompare
    simp only [uint8_lt_iff_toNat]
    split_ifs with below above
    · simp only [reduceCtorEq, false_iff, List.cons.injEq, not_and]
      rintro rfl; omega
    · simp only [reduceCtorEq, false_iff, List.cons.injEq, not_and]
      rintro rfl; omega
    · rw [bytesCompare_eq_iff, List.cons.injEq, and_iff_right (UInt8.ext (by omega))]

/-- Comparing the other way round swaps the answer. -/
theorem bytesCompare_swap : ∀ a b : Bytes, bytesCompare b a = (bytesCompare a b).swap
  | [], [] => rfl
  | [], _ :: _ => rfl
  | _ :: _, [] => rfl
  | x :: xs, y :: ys => by
    unfold bytesCompare
    simp only [uint8_lt_iff_toNat]
    split_ifs <;> first | rfl | omega | exact bytesCompare_swap xs ys

theorem bytesCompare_lt_trans : ∀ {a b c : Bytes}, bytesCompare a b = .lt → bytesCompare b c = .lt →
    bytesCompare a c = .lt
  | [], [], _, ab, _ => by simp [bytesCompare] at ab
  | [], _ :: _, [], _, bc => by simp [bytesCompare] at bc
  | [], _ :: _, _ :: _, _, _ => rfl
  | _ :: _, [], _, ab, _ => by simp [bytesCompare] at ab
  | _ :: _, _ :: _, [], _, bc => by simp [bytesCompare] at bc
  | x :: xs, y :: ys, z :: zs, ab, bc => by
    unfold bytesCompare at ab bc ⊢
    simp only [uint8_lt_iff_toNat] at ab bc ⊢
    split_ifs at ab bc ⊢ <;> first | rfl | omega | cases ab | cases bc | exact bytesCompare_lt_trans ab bc

/-- The Go runtime's panic on a nil pointer. -/
def nilDereference : String := "runtime error: invalid memory address or nil pointer dereference"

def indexOutOfRange : String := "runtime error: index out of range"

def sliceOutOfRange : String := "runtime error: slice bounds out of range"

/-- A recursion that never ends exhausts the goroutine stack. -/
def stackOverflow : String := "stack overflow"

/-- `s[i]`, which panics past the end. -/
def index {α : Type} (s : List α) (i : Nat) : Except String α :=
  match s[i]? with
  | some a => .ok a
  | none => .error indexOutOfRange

/-- `s[lo:hi]`. A slice's capacity is taken to be its length. -/
def slice {α : Type} (s : List α) (lo hi : Nat) : Except String (List α) :=
  if lo ≤ hi ∧ hi ≤ s.length then .ok ((s.take hi).drop lo) else .error sliceOutOfRange

/-- `copy(dst[start:], src)`: as many bytes as fit, overwritten in place. -/
def copyAt (dst : Bytes) (start : Nat) (src : Bytes) : Except String Bytes :=
  if start ≤ dst.length then .ok (dst.take start ++ src.take (dst.length - start) ++ dst.drop (start + src.length))
  else .error sliceOutOfRange

/-- `Node`: the header, the child pointers (node ids) of an internal node, the offsets of the
entries in `data`, and the entries `| keyLen (2B) | valLen (2B) | key | value |`. -/
structure Node where
  typ : Nat
  nkeys : Nat
  pointers : List Nat
  offsets : List Nat
  data : Bytes

namespace Node

/-- `NewNode`. -/
def new (typ : Nat) : Node := ⟨typ, 0, [], [], []⟩

/-- `uint16(n.data[i])<<8 | uint16(n.data[i+1])`, read where the caller has checked `i + 4`
against the data's length. -/
def be16 (n : Node) (i : Nat) : Nat :=
  (n.data.getD i 0).toNat * 256 + (n.data.getD (wrap16 (i + 1)) 0).toNat

/-- One turn of the loop of `keys`: entry `i`'s key, or nothing where its offset is missing or
its header or key runs past the data. -/
def keyAt (n : Node) (i : Nat) : Except String Bytes :=
  match n.offsets[i]? with
  | none => .ok []
  | some start =>
    if n.data.length < start + 4 then .ok []
    else
      let keyStart := wrap16 (start + 4)
      let keyEnd := wrap16 (keyStart + n.be16 start)
      if n.data.length < keyEnd then .ok [] else slice n.data keyStart keyEnd

/-- `keys`: one key per `nkeys`. -/
def keys (n : Node) : Except String (List Bytes) :=
  (List.range n.nkeys).mapM n.keyAt

/-- The entry `insertKV` encodes: the two lengths as `uint16`, then the key and the value
copied in. -/
def entry (key value : Bytes) : Except String Bytes := do
  let keyLen := wrap16 key.length
  let valLen := wrap16 value.length
  let blank := [(keyLen / 256).toUInt8, keyLen.toUInt8, (valLen / 256).toUInt8, valLen.toUInt8] ++
    List.replicate (keyLen + valLen) 0
  let withKey ← copyAt blank 4 key
  copyAt withKey (wrap16 (4 + keyLen)) value

/-- `insertKV`: the entry goes at the end of the data or in front of entry `pos`, its offset is
inserted at `pos`, and the offsets after it move by the entry's size. -/
def insertKV (n : Node) (pos : Nat) (key value : Bytes) : Except String Node := do
  let entrySize := 4 + wrap16 key.length + wrap16 value.length
  let bytes ← entry key value
  let (newOffset, data) ← if pos = n.nkeys then pure (wrap16 n.data.length, n.data ++ bytes)
    else do
      let newOffset ← index n.offsets pos
      let front ← slice n.data 0 newOffset
      let back ← slice n.data newOffset n.data.length
      pure (newOffset, front ++ (bytes ++ back))
  if n.offsets.length < pos then throw sliceOutOfRange
  let offsets := n.offsets.take pos ++ newOffset :: (n.offsets.drop pos).map fun o => wrap16 (o + wrap16 entrySize)
  return { n with nkeys := wrap16 (n.nkeys + 1), offsets, data }

/-- `getValue`: the value of entry `i` of a leaf, empty where it cannot be read. -/
def getValue (n : Node) (i : Nat) : Except String Bytes :=
  if n.typ ≠ bnodeLeaf ∨ n.nkeys ≤ i then .ok []
  else do
    let start ← index n.offsets i
    if n.data.length < start + 4 then return []
    let valStart := wrap16 (wrap16 (start + 4) + n.be16 start)
    let valEnd := wrap16 (valStart + n.be16 (wrap16 (start + 2)))
    if n.data.length < valEnd then return []
    slice n.data valStart valEnd

/-- `removeKV`: entry `pos` leaves the data and its offset leaves the offsets; the later
offsets move back by its size. -/
def removeKV (n : Node) (pos : Nat) : Except String Node :=
  if n.nkeys ≤ pos then .ok n
  else do
    let start ← index n.offsets pos
    if n.data.length < start + 4 then return n
    let entrySize := wrap16 (4 + n.be16 start + n.be16 (wrap16 (start + 2)))
    let stop := wrap16 (start + entrySize)
    let front ← slice n.data 0 start
    let back ← slice n.data stop n.data.length
    let kept ← slice n.offsets 0 pos
    let later ← slice n.offsets (pos + 1) n.offsets.length
    let offsets := kept ++ later.map fun o => wrap16 (o + 65536 - entrySize)
    return { n with nkeys := wrap16 (n.nkeys + 65535), offsets, data := front ++ back }

/-- `Split`: the node keeps entries `[0, nkeys/2)`, a new node of its type takes the rest, and
the first key of the new node is promoted. Nothing happens below two keys. -/
def split (n : Node) : Except String (Option (Node × Node × Bytes)) := do
  if n.nkeys < 2 then return none
  let splitIdx := n.nkeys / 2
  let (leftPointers, rightPointers) ← if n.typ = bnodeNode then do
      let right ← slice n.pointers splitIdx n.pointers.length
      let left ← slice n.pointers 0 splitIdx
      pure (left, right)
    else pure (n.pointers, [])
  let startOffset ← index n.offsets splitIdx
  let rightData ← slice n.data startOffset n.data.length
  let rightOffsets ← (List.range (n.nkeys - splitIdx)).mapM fun i => do
    let o ← index n.offsets (splitIdx + i)
    pure (wrap16 (o + 65536 - startOffset))
  let right : Node := ⟨n.typ, n.nkeys - splitIdx, rightPointers, rightOffsets, rightData⟩
  let leftOffsets ← slice n.offsets 0 splitIdx
  let leftData ← slice n.data 0 startOffset
  let promotedKey ← right.keyAt 0
  return some ({ n with nkeys := splitIdx, pointers := leftPointers, offsets := leftOffsets, data := leftData },
    right, promotedKey)

/-- `Merge`: the other node's pointers, offsets and data are appended as they are. -/
def merge (n other : Node) : Except String Node :=
  if n.typ ≠ other.typ then .error "cannot merge nodes of different types"
  else .ok ⟨n.typ, wrap16 (n.nkeys + other.nkeys), n.pointers ++ other.pointers, n.offsets ++ other.offsets,
    n.data ++ other.data⟩

/-- `Size`: the bytes of the page image. -/
def size (n : Node) : Nat := 4 + n.pointers.length * 8 + n.offsets.length * 2 + n.data.length

def isFull (n : Node) : Bool := btreePageSize ≤ n.size

def isEmpty (n : Node) : Bool := n.nkeys = 0

/-- `Validate`: `nkeys` must equal the number of pointers and the number of offsets, each taken
as a `uint16`, and the offsets must increase. -/
def validate (n : Node) : Except String Unit :=
  if n.nkeys ≠ wrap16 n.pointers.length ∨ n.nkeys ≠ wrap16 n.offsets.length then
    .error "inconsistent number of keys, pointers, or offsets"
  else if (List.range n.nkeys).any fun i => 0 < i ∧ n.offsets.getD i 0 ≤ n.offsets.getD (i - 1) 0 then
    .error "invalid offsets"
  else .ok ()

/-- One turn of the loop of `Iterate`: entry `i`'s key and, in a leaf, its value, or nothing where
a guard skips the entry. -/
def iterateEntry (n : Node) (i : Nat) : Except String (Option (Bytes × Bytes)) :=
  match n.offsets[i]? with
  | none => .ok none
  | some start =>
    if n.data.length < start + 4 then .ok none
    else
      let keyStart := wrap16 (start + 4)
      let keyEnd := wrap16 (keyStart + n.be16 start)
      if n.data.length < keyEnd then .ok none
      else do
        let key ← slice n.data keyStart keyEnd
        if n.typ = bnodeLeaf then
          let valEnd := wrap16 (keyEnd + n.be16 (wrap16 (start + 2)))
          if n.data.length < valEnd then return none
          let value ← slice n.data keyEnd valEnd
          return some (key, value)
        else return some (key, [])

/-- A turn of the loop of `Iterate` after an error of `f` does nothing, since `Iterate` has returned
it; otherwise it calls `f` on the entry the guards let through. -/
def iterateStep {ε : Type} (n : Node) (f : Bytes → Bytes → Except ε Unit) (acc : Except ε Unit) (i : Nat) :
    Except String (Except ε Unit) :=
  match acc with
  | .error e => pure (.error e)
  | .ok () => (n.iterateEntry i).map fun
    | none => .ok ()
    | some (key, value) => f key value

/-- `Iterate`: `f` on each entry the guards let through, in order, until `f` returns an error,
which `Iterate` returns. The outer `Except` is a panic of a slice expression. -/
def iterate {ε : Type} (n : Node) (f : Bytes → Bytes → Except ε Unit) : Except String (Except ε Unit) :=
  (List.range n.nkeys).foldlM (n.iterateStep f) (.ok ())

end Node

end GoDatabase
