/-
  StateVault.Bytes
  ────────────────
  **BYTE STRINGS AND LITTLE-ENDIAN NUMBERS.**

  The operations that images, cursors and codecs are made of:

    • `zeros`, `slice`, `overlay`, `resized` — a run of zero bytes, a part,
      a part replaced, and a new length (cut, or filled up with zeros),
    • `le` and `ofLe` — a number as a given number of bytes, least
      significant first, and back.

  Main lemmas: `size_overlay`, `size_resized`; `ofLe_le` and `le_ofLe` (the
  two directions between numbers and bytes are inverse).
-/

namespace StateVault.Bytes

/-! ## §1. Parts of byte strings. -/

/-- A run of `n` zero bytes. -/
def zeros (n : Nat) : ByteArray :=
  ⟨Array.replicate n 0⟩

/-- The `count` bytes from `start`, or as many of them as there are. -/
def slice (bytes : ByteArray) (start count : Nat) : ByteArray :=
  bytes.extract start (start + count)

/-- `bytes` with `patch` in the place of what stood from `start` on; for a
`start` within `bytes`. -/
def overlay (bytes : ByteArray) (start : Nat) (patch : ByteArray) : ByteArray :=
  patch.copySlice 0 bytes start patch.size

/-- `bytes` cut to `length`, or filled up to it with zero bytes. -/
def resized (bytes : ByteArray) (length : Nat) : ByteArray :=
  if length ≤ bytes.size then bytes.extract 0 length
  else bytes ++ zeros (length - bytes.size)

@[simp] theorem size_zeros (n : Nat) : (zeros n).size = n := by
  simp [zeros, ByteArray.size]

/-- A part that reaches past the end is cut there. -/
@[simp] theorem size_slice (bytes : ByteArray) (start count : Nat) :
    (slice bytes start count).size = min (start + count) bytes.size - start := by
  simp [slice]

/-- An overlay within a byte string does not change its size. -/
@[simp] theorem size_overlay (bytes : ByteArray) (start : Nat) (patch : ByteArray)
    (h : start + patch.size ≤ bytes.size) :
    (overlay bytes start patch).size = bytes.size := by
  simp only [overlay, ByteArray.copySlice, ByteArray.size, Array.size_append,
    Array.size_extract] at h ⊢
  omega

@[simp] theorem size_resized (bytes : ByteArray) (length : Nat) :
    (resized bytes length).size = length := by
  unfold resized
  split
  · simp
    omega
  · simp
    omega

/-! ## §2. Little-endian numbers. -/

/-- The last `width` base-256 digits of `n`, the least significant first. -/
def le : (width : Nat) → (n : Nat) → List UInt8
  | 0, _ => []
  | w + 1, n => UInt8.ofNat n :: le w (n / 256)

/-- The number whose base-256 digits are given, the least significant first. -/
def ofLe : List UInt8 → Nat
  | [] => 0
  | b :: rest => b.toNat + 256 * ofLe rest

@[simp] theorem length_le (w n : Nat) : (le w n).length = w := by
  induction w generalizing n with
  | zero => rfl
  | succ w ih => simp [le, ih]

/-- A number of `n` digits is below `256 ^ n`. -/
theorem ofLe_lt (bs : List UInt8) : ofLe bs < Nat.pow 256 bs.length := by
  induction bs with
  | nil => simp [ofLe]
  | cons b bs ih =>
      have hb : b.toNat < 256 := b.toNat_lt
      have hpow : Nat.pow 256 (bs.length + 1) = Nat.pow 256 bs.length * 256 := rfl
      simp only [ofLe, List.length_cons]
      omega

/-- A number is spelled by its digits, if they are enough. -/
theorem ofLe_le (w n : Nat) (h : n < Nat.pow 256 w) : ofLe (le w n) = n := by
  induction w generalizing n with
  | zero =>
      have hone : Nat.pow 256 0 = 1 := rfl
      simp only [le, ofLe]
      omega
  | succ w ih =>
      have hq : n / 256 < Nat.pow 256 w := by
        have hpow : Nat.pow 256 (w + 1) = Nat.pow 256 w * 256 := rfl
        omega
      simp only [le, ofLe, ih _ hq, UInt8.toNat_ofNat']
      omega

/-- The digits of the number that some digits spell are those digits. -/
@[simp] theorem le_ofLe (bs : List UInt8) : le bs.length (ofLe bs) = bs := by
  induction bs with
  | nil => rfl
  | cons b bs ih =>
      have hb : b.toNat < 256 := b.toNat_lt
      have hq : (b.toNat + 256 * ofLe bs) / 256 = ofLe bs := by omega
      have hd : UInt8.ofNat (b.toNat + 256 * ofLe bs) = b := by
        apply UInt8.toNat_inj.mp
        simp only [UInt8.toNat_ofNat']
        omega
      simp only [List.length_cons, le, ofLe, hq, hd, ih]

/-! ## §3. Words of the usual widths. -/

/-- A 16-bit word as two bytes. -/
def ofWord16 (w : UInt16) : List UInt8 := le 2 w.toNat

/-- A 32-bit word as four bytes. -/
def ofWord32 (w : UInt32) : List UInt8 := le 4 w.toNat

/-- A 64-bit word as eight bytes. -/
def ofWord64 (w : UInt64) : List UInt8 := le 8 w.toNat

/-- The number that a byte string spells. -/
def value (bytes : ByteArray) : Nat :=
  ofLe bytes.data.toList

end StateVault.Bytes
