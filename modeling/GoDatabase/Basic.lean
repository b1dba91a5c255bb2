import Mathlib

namespace GoDatabase

/-- Go's `[]byte`, and also a Go `string`, which is an immutable byte sequence. -/
abbrev Bytes := List UInt8

/-- The bytes of an ASCII literal such as `"PUT "`. -/
def ascii (s : String) : Bytes := s.toList.map fun c => c.toNat.toUInt8

/-- The space byte that separates a key from its value in a log command. -/
def space : UInt8 := 32

/-- `binary.BigEndian` bytes of the low `w` bytes of `n`, most significant first. -/
def beBytes : Nat → Nat → Bytes
  | 0, _ => []
  | w + 1, n => beBytes w (n / 256) ++ [n.toUInt8]

/-- The number a run of big-endian bytes denotes. -/
def beValue (bs : Bytes) : Nat := bs.foldl (fun acc b => acc * 256 + b.toNat) 0

@[simp] theorem toNat_toUInt8 (n : Nat) : n.toUInt8.toNat = n % 256 := by
  simp [Nat.toUInt8, UInt8.toNat, UInt8.ofNat, BitVec.toNat_ofNat]

@[simp] theorem length_beBytes (w n : Nat) : (beBytes w n).length = w := by
  induction w generalizing n with
  | zero => rfl
  | succ w ih => simp [beBytes, ih]

theorem beValue_append_byte (bs : Bytes) (b : UInt8) :
    beValue (bs ++ [b]) = beValue bs * 256 + b.toNat := by
  simp [beValue, List.foldl_append]

/-- Decoding a big-endian word gives back the number modulo the word's range. -/
theorem beValue_beBytes (w n : Nat) : beValue (beBytes w n) = n % 256 ^ w := by
  induction w generalizing n with
  | zero => simp [beBytes, beValue, Nat.mod_one]
  | succ w ih =>
    rw [beBytes, beValue_append_byte, ih, toNat_toUInt8, Nat.pow_succ, Nat.mul_comm (256 ^ w),
      Nat.mod_mul, Nat.add_comm, Nat.mul_comm]

theorem beValue_beBytes_of_lt {w n : Nat} (fits : n < 256 ^ w) : beValue (beBytes w n) = n := by
  rw [beValue_beBytes, Nat.mod_eq_of_lt fits]

@[simp] theorem except_ok_bind {ε α β : Type} (a : α) (f : α → Except ε β) :
    (Except.ok a >>= f) = f a := rfl

@[simp] theorem except_error_bind {ε α β : Type} (e : ε) (f : α → Except ε β) :
    (Except.error e >>= f) = Except.error e := rfl

theorem except_bind_eq_ok {ε α β : Type} {x : Except ε α} {f : α → Except ε β} {b : β} :
    (x >>= f) = Except.ok b ↔ ∃ a, x = Except.ok a ∧ f a = Except.ok b := by
  cases x <;> simp

@[simp] theorem except_pure {ε α : Type} (a : α) : (pure a : Except ε α) = Except.ok a := rfl

@[simp] theorem except_map_ok {ε α β : Type} (f : α → β) (a : α) :
    (Except.ok a : Except ε α).map f = Except.ok (f a) := rfl

@[simp] theorem except_map_error {ε α β : Type} (f : α → β) (e : ε) :
    (Except.error e : Except ε α).map f = Except.error e := rfl

theorem except_map_eq_ok {ε α β : Type} {x : Except ε α} {f : α → β} {b : β} :
    x.map f = Except.ok b ↔ ∃ a, x = Except.ok a ∧ f a = b := by
  cases x <;> simp [Except.map]

theorem except_map_bind {ε α β γ : Type} (x : Except ε α) (k : α → Except ε β) (f : β → γ) :
    (x >>= k).map f = x >>= fun a => (k a).map f := by
  cases x <;> rfl

theorem except_bind_map {ε α β γ : Type} (x : Except ε α) (f : α → β) (k : β → Except ε γ) :
    x.map f >>= k = x >>= fun a => k (f a) := by
  cases x <;> rfl

@[simp] theorem except_throw {ε α : Type} (e : ε) : (throw e : Except ε α) = Except.error e := rfl

end GoDatabase
