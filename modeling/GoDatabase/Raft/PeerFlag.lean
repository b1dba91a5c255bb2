import Mathlib.Data.List.Basic
import GoDatabase.Basic

/-!
# The `-peers` flag of the Raft server

`main` reads the peers of a node from one flag, `id:addr` items joined by commas, through
`splitPeers` and `splitPeer`. Both loop over runes by index; a comma or a colon is one byte that
no longer UTF-8 sequence contains (all their bytes are above 127), so the loops are modelled over
bytes, with the same indices and slices. The index loop of `splitPeers` is shown to split at every
comma and drop the empty items, and from that the flag is read back as it was written: each id
gets the last address listed for it, and the address may itself hold colons.
-/

namespace GoDatabase

/-- `','`, which ends a peer of the flag. -/
def comma : UInt8 := 44

/-- `':'`, which ends a peer's id. -/
def colon : UInt8 := 58

/-- The loop of `splitPeers` over the bytes `rest`, which start at index `i`; `start` is where the
current item began. -/
def splitPeersLoop (peers : Bytes) : Bytes → Nat → Nat → List Bytes → List Bytes × Nat
  | [], _, start, result => (result, start)
  | char :: rest, i, start, result =>
    if char = comma then
      splitPeersLoop peers rest (i + 1) (i + 1)
        (if i > start then result ++ [(peers.take i).drop start] else result)
    else splitPeersLoop peers rest (i + 1) start result

/-- What `splitPeers` does after its loop: the bytes after the last comma are the last item, unless
there are none. -/
def splitPeersLast (peers : Bytes) : List Bytes × Nat → List Bytes
  | (result, start) => if start < peers.length then result ++ [peers.drop start] else result

def splitPeers (peers : Bytes) : List Bytes :=
  if peers = [] then [] else splitPeersLast peers (splitPeersLoop peers peers 0 0 [])

/-- The loop of `splitPeer` over the bytes `rest`, which start at index `i`. -/
def splitPeerLoop (peer : Bytes) : Bytes → Nat → List Bytes
  | [], _ => [peer]
  | char :: rest, i =>
    if char = colon then [peer.take i, peer.drop (i + 1)] else splitPeerLoop peer rest (i + 1)

def splitPeer (peer : Bytes) : List Bytes := splitPeerLoop peer peer 0

/-- One turn of the loop of `main` over the items of the flag: an item that splits in two maps its
id to its address, and any other is skipped. -/
def peerMapStep (peerMap : Bytes → Option Bytes) (peer : Bytes) : Bytes → Option Bytes :=
  match splitPeer peer with
  | [peerID, addr] => Function.update peerMap peerID (some addr)
  | _ => peerMap

/-- The `peerMap` that `main` builds from the `-peers` flag. -/
def peerMap (peers : Bytes) : Bytes → Option Bytes :=
  if peers ≠ [] then (splitPeers peers).foldl peerMapStep fun _ => none else fun _ => none

/-- The flag that lists the peers `ps`: `id:addr` items joined by commas. -/
def formatPeers (ps : List (Bytes × Bytes)) : Bytes :=
  [comma].intercalate (ps.map fun p => p.1 ++ colon :: p.2)

section SplitPeers

variable {peers : Bytes}

/-- The loop from index `pre.length` on, with no comma since `start`, ends as splitting the current
item and the rest at every comma does, empty items dropped. -/
theorem splitPeersLast_loop {pre rest : Bytes} (whole : peers = pre ++ rest) {start : Nat} (begun : start ≤ pre.length)
    (current : comma ∉ pre.drop start) (result : List Bytes) :
    splitPeersLast peers (splitPeersLoop peers rest pre.length start result) =
      result ++ ((pre.drop start ++ rest).splitOn comma).filter (· ≠ []) := by
  induction rest generalizing pre start result with
  | nil =>
    subst whole
    have single : (pre.drop start).splitOn comma = [pre.drop start] :=
      List.splitOnP_eq_single _ _ fun x mem same => current (eq_of_beq same ▸ mem)
    by_cases inside : start < pre.length <;>
      simp [splitPeersLoop, splitPeersLast, single, inside, List.drop_eq_nil_iff]
  | cons char rest ih =>
    have shifted : (pre ++ [char]).length = pre.length + 1 := List.length_append _ _
    have whole' : peers = pre ++ [char] ++ rest := by simp [whole]
    have taken : peers.take pre.length = pre := by rw [whole, List.take_left]
    by_cases sep : char = comma
    · subst sep
      have first : (pre.drop start ++ comma :: rest).splitOn comma = pre.drop start :: rest.splitOn comma :=
        List.splitOnP_first (· == comma) _ (fun x mem same => current (eq_of_beq same ▸ mem)) _
          (beq_self_eq_true _) _
      have next := ih whole' (le_refl _) (by simp) (if pre.length > start then
        result ++ [(peers.take pre.length).drop start] else result)
      rw [List.drop_length, List.nil_append, shifted] at next
      rw [splitPeersLoop, if_pos rfl, next, first, taken]
      by_cases inside : start < pre.length <;> simp [inside, List.drop_eq_nil_iff]
    · have next := ih whole' (show start ≤ (pre ++ [char]).length by simp; omega) (by
        rw [List.drop_append_of_le_length begun]; simpa [Ne.symm sep] using current) result
      rw [shifted, List.drop_append_of_le_length begun, List.append_assoc] at next
      simpa [splitPeersLoop, sep] using next

/-- `splitPeers` splits the flag at every comma and drops the empty items. -/
theorem splitPeers_eq_splitOn (peers : Bytes) :
    splitPeers peers = (peers.splitOn comma).filter (· ≠ []) := by
  by_cases empty : peers = []
  · subst empty; rfl
  · simpa [splitPeers, empty] using
      splitPeersLast_loop (show peers = [] ++ peers from rfl) (le_refl 0) (by simp) []

example : splitPeers (ascii ",node2:a,,node3:b,") = [ascii "node2:a", ascii "node3:b"] := by decide

end SplitPeers

section SplitPeer

variable {peer : Bytes}

/-- The loop of `splitPeer` passes over an id with no colon and splits at the colon after it. -/
theorem splitPeerLoop_entry {pre peerID addr : Bytes} (whole : peer = pre ++ peerID ++ colon :: addr)
    (plain : colon ∉ peerID) :
    splitPeerLoop peer (peerID ++ colon :: addr) pre.length = [pre ++ peerID, addr] := by
  induction peerID generalizing pre with
  | nil =>
    subst whole
    simp [splitPeerLoop, List.take_left, List.drop_left']
  | cons char peerID ih =>
    have sep : char ≠ colon := fun same => plain (same ▸ List.mem_cons_self _ _)
    have next := ih (show peer = pre ++ [char] ++ peerID ++ colon :: addr by simp [whole])
      fun mem => plain (List.mem_cons_of_mem _ mem)
    simpa [splitPeerLoop, sep] using next

/-- What the loop of `splitPeer` splits in two is an id with no colon, a colon and an address. -/
theorem splitPeerLoop_pair {pre rest peerID addr : Bytes} (whole : peer = pre ++ rest) (plain : colon ∉ pre)
    (pair : splitPeerLoop peer rest pre.length = [peerID, addr]) :
    peer = peerID ++ colon :: addr ∧ colon ∉ peerID := by
  induction rest generalizing pre with
  | nil => simp [splitPeerLoop] at pair
  | cons char rest ih =>
    by_cases sep : char = colon
    · subst sep whole
      rw [splitPeerLoop, if_pos rfl, List.take_left, List.drop_append, List.drop_one, List.tail_cons] at pair
      obtain ⟨rfl, rfl⟩ : pre = peerID ∧ rest = addr := by simpa using pair
      exact ⟨rfl, plain⟩
    · rw [splitPeerLoop, if_neg sep] at pair
      exact ih (show peer = pre ++ [char] ++ rest by simp [whole]) (by simp [plain, Ne.symm sep]) (by simpa using pair)

theorem splitPeer_entry {peerID addr : Bytes} (plain : colon ∉ peerID) :
    splitPeer (peerID ++ colon :: addr) = [peerID, addr] :=
  splitPeerLoop_entry (show peerID ++ colon :: addr = [] ++ peerID ++ colon :: addr from rfl) plain

theorem splitPeer_pair {peerID addr : Bytes} (pair : splitPeer peer = [peerID, addr]) :
    peer = peerID ++ colon :: addr ∧ colon ∉ peerID :=
  splitPeerLoop_pair (show peer = [] ++ peer from rfl) (List.not_mem_nil _) pair

end SplitPeer

section PeerMap

theorem peerMapStep_entry (m : Bytes → Option Bytes) {peerID addr : Bytes} (plain : colon ∉ peerID) :
    peerMapStep m (peerID ++ colon :: addr) = Function.update m peerID (some addr) := by
  rw [peerMapStep, splitPeer_entry plain]

/-- Over entries with plain ids, the loop of `main` gives each id the last address listed for it. -/
theorem foldl_peerMapStep_entries (m : Bytes → Option Bytes) {ps : List (Bytes × Bytes)}
    (plain : ∀ p ∈ ps, colon ∉ p.1) (peerID : Bytes) :
    (ps.map fun p => p.1 ++ colon :: p.2).foldl peerMapStep m peerID =
      ((ps.reverse.find? fun p => p.1 = peerID).map Prod.snd).or (m peerID) := by
  induction ps generalizing m with
  | nil => rfl
  | cons p ps ih =>
    rw [List.map_cons, List.foldl_cons, peerMapStep_entry m (plain p (List.mem_cons_self _ _)),
      ih _ fun q mem => plain q (List.mem_cons_of_mem _ mem)]
    rcases found : ps.reverse.find? fun p => p.1 = peerID with _ | q
    · by_cases same : p.1 = peerID
      · subst same; simp [List.find?_append, found]
      · simp [List.find?_append, found, same, Function.update_noteq (Ne.symm same)]
    · simp [List.find?_append, found]

/-- A turn of the loop of `main` leaves the map alone or maps one id to one address. -/
theorem peerMapStep_cases (m : Bytes → Option Bytes) (peer : Bytes) :
    peerMapStep m peer = m ∨
      ∃ peerID addr, splitPeer peer = [peerID, addr] ∧
        peerMapStep m peer = Function.update m peerID (some addr) := by
  unfold peerMapStep
  split
  · next peerID addr pair => exact .inr ⟨peerID, addr, pair, rfl⟩
  · exact .inl rfl

/-- An id the loop of `main` maps to an address was mapped by one of the items. -/
theorem foldl_peerMapStep_some (m : Bytes → Option Bytes) (items : List Bytes) {peerID addr : Bytes}
    (mapped : items.foldl peerMapStep m peerID = some addr) :
    m peerID = some addr ∨ ∃ peer ∈ items, splitPeer peer = [peerID, addr] := by
  induction items generalizing m with
  | nil => exact .inl mapped
  | cons peer items ih =>
    rcases ih _ mapped with before | ⟨later, mem, pair⟩
    · rcases peerMapStep_cases m peer with same | ⟨id', addr', pair, step⟩
      · exact .inl (same ▸ before)
      · rw [step] at before
        by_cases same : peerID = id'
        · subst same
          rw [Function.update_same, Option.some.injEq] at before
          exact .inr ⟨peer, List.mem_cons_self _ _, before ▸ pair⟩
        · exact .inl (by rwa [Function.update_noteq same] at before)
    · exact .inr ⟨later, List.mem_cons_of_mem _ mem, pair⟩

/-- Once an id is mapped, no later item of the loop of `main` unmaps it. -/
theorem foldl_peerMapStep_isSome (m : Bytes → Option Bytes) (items : List Bytes) {peerID : Bytes}
    (mapped : (m peerID).isSome ∨ ∃ peer ∈ items, ∃ addr, splitPeer peer = [peerID, addr]) :
    (items.foldl peerMapStep m peerID).isSome := by
  induction items generalizing m with
  | nil => simpa using mapped
  | cons peer items ih =>
    apply ih
    rcases mapped with before | ⟨later, mem, addr, pair⟩
    · left
      rcases peerMapStep_cases m peer with same | ⟨id', addr', -, step⟩
      · rwa [same]
      · by_cases same : peerID = id' <;> simp [step, same, Function.update_noteq, before]
    · rcases List.mem_cons.mp mem with rfl | mem
      · left; simp [peerMapStep, pair]
      · exact .inr ⟨later, mem, addr, pair⟩

end PeerMap

/-- The flag a user writes for peers with ids free of colons and commas, and addresses free of
commas, is read back as written: each id gets the last address listed for it, however many colons
the address holds, and no other id gets one. -/
theorem peerMap_formatPeers {ps : List (Bytes × Bytes)} (ids : ∀ p ∈ ps, colon ∉ p.1 ∧ comma ∉ p.1)
    (addrs : ∀ p ∈ ps, comma ∉ p.2) :
    peerMap (formatPeers ps) = fun peerID => (ps.reverse.find? fun p => p.1 = peerID).map Prod.snd := by
  funext peerID
  by_cases none : ps = []
  · subst none; rfl
  have fields : ∀ item ∈ ps.map fun p => p.1 ++ colon :: p.2, comma ∉ item := by
    simp only [List.mem_map]
    rintro _ ⟨p, mem, rfl⟩ inItem
    rcases List.mem_append.mp inItem with inID | inAddr
    · exact (ids p mem).2 inID
    · rcases List.mem_cons.mp inAddr with same | inAddr
      · exact absurd same (by decide)
      · exact addrs p mem inAddr
  have items : splitPeers (formatPeers ps) = ps.map fun p => p.1 ++ colon :: p.2 := by
    rw [splitPeers_eq_splitOn, formatPeers, List.splitOn_intercalate _ _ fields (by simpa using none),
      List.filter_eq_self.mpr (by simp only [List.mem_map]; rintro _ ⟨p, -, rfl⟩; simp)]
  have written : formatPeers ps ≠ [] := fun empty => none (by simpa [empty, splitPeers] using items)
  rw [peerMap, if_pos written, items, foldl_peerMapStep_entries _ fun p mem => (ids p mem).1, Option.or_none]

theorem peerMap_formatPeers_cluster :
    (∀ p ∈ [(ascii "node2", ascii "localhost:51052"), (ascii "node3", ascii "localhost:51053")],
        colon ∉ p.1 ∧ comma ∉ p.1) ∧
      (∀ p ∈ [(ascii "node2", ascii "localhost:51052"), (ascii "node3", ascii "localhost:51053")], comma ∉ p.2) ∧
      peerMap (formatPeers [(ascii "node2", ascii "localhost:51052"), (ascii "node3", ascii "localhost:51053")]) =
        fun peerID => ([(ascii "node2", ascii "localhost:51052"), (ascii "node3", ascii "localhost:51053")].reverse.find?
          fun p => p.1 = peerID).map Prod.snd :=
  ⟨by decide, by decide, peerMap_formatPeers (by decide) (by decide)⟩

/-- Whatever the flag holds, an id it maps is read off one of its comma-separated fields, written
as the id, which holds no colon, a colon and the address; and every such field gives its id an
address, none being dropped. -/
theorem peerMap_reads_fields (peers peerID : Bytes) :
    (∀ addr, peerMap peers peerID = some addr → colon ∉ peerID ∧ peerID ++ colon :: addr ∈ peers.splitOn comma) ∧
      ((∃ addr, colon ∉ peerID ∧ peerID ++ colon :: addr ∈ peers.splitOn comma) →
        (peerMap peers peerID).isSome) := by
  by_cases empty : peers = []
  · subst empty
    exact ⟨fun _ mapped => (nomatch mapped), fun ⟨addr, _, field⟩ => by simp at field⟩
  rw [peerMap, if_pos empty, splitPeers_eq_splitOn]
  constructor
  · intro addr mapped
    obtain ⟨peer, mem, pair⟩ := (foldl_peerMapStep_some _ _ mapped).resolve_left nofun
    obtain ⟨rfl, plain⟩ := splitPeer_pair pair
    exact ⟨plain, (List.mem_filter.mp mem).1⟩
  · rintro ⟨addr, plain, field⟩
    exact foldl_peerMapStep_isSome _ _
      (.inr ⟨_, List.mem_filter.mpr ⟨field, by simp⟩, addr, splitPeer_entry plain⟩)

end GoDatabase
