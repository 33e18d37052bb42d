/-
  StateVault.Checksum
  ───────────────────
  **CRC-32, ONE BIT AT A TIME.**

  The register takes a byte into its low end and is then shifted right eight
  times; a bit that falls out subtracts the polynomial.  Register and result
  are complemented (the checksum of ISO 3309, least significant bit first).

    • `stepByte`  — one byte,
    • `ofList`    — the checksum of a list of bytes, as a left fold,
    • `ofBytes`   — the checksum of a byte string, by position.

  Main lemma: `ofBytes_eq_ofList` (both are the same function).
-/

namespace StateVault.Checksum

/-- The polynomial, its coefficients from the highest power in the lowest bit. -/
def polynomial : UInt32 := 0xEDB88320

/-- One shift of the register. -/
def stepBit (register : UInt32) : UInt32 :=
  if register &&& 1 = 0 then register >>> 1 else (register >>> 1) ^^^ polynomial

/-- One byte into the register. -/
def stepByte (register : UInt32) (byte : UInt8) : UInt32 :=
  stepBit (stepBit (stepBit (stepBit (stepBit (stepBit (stepBit (stepBit
    (register ^^^ byte.toUInt32))))))))

/-- The register before the first byte. -/
def start : UInt32 := 0xFFFFFFFF

/-- The checksum of a list of bytes. -/
def ofList (bytes : List UInt8) : UInt32 :=
  bytes.foldl stepByte start ^^^ 0xFFFFFFFF

/-- The register after the bytes from position `i` on. -/
def registerFrom (bytes : ByteArray) (i : Nat) (register : UInt32) : UInt32 :=
  if h : i < bytes.size then registerFrom bytes (i + 1) (stepByte register bytes[i])
  else register
termination_by bytes.size - i

/-- The checksum of a byte string. -/
def ofBytes (bytes : ByteArray) : UInt32 :=
  registerFrom bytes 0 start ^^^ 0xFFFFFFFF

/-- The register over the bytes from `i` on, as a fold over a list. -/
theorem registerFrom_eq_foldl (bytes : ByteArray) (i : Nat) (register : UInt32) :
    registerFrom bytes i register = (bytes.data.toList.drop i).foldl stepByte register := by
  fun_induction registerFrom bytes i register with
  | case1 i register h ih =>
      have hl : i < bytes.data.toList.length := by simpa using h
      rw [ih, List.drop_eq_getElem_cons hl, List.foldl_cons]
      rfl
  | case2 i register h =>
      have hl : bytes.data.toList.length ≤ i := by simpa using Nat.le_of_not_lt h
      rw [List.drop_eq_nil_of_le hl, List.foldl_nil]

/-- The checksum of an array is that of its bytes as a list. -/
theorem ofBytes_eq_ofList (bytes : ByteArray) :
    ofBytes bytes = ofList bytes.data.toList := by
  rw [ofBytes, ofList, registerFrom_eq_foldl, List.drop_zero]

end StateVault.Checksum
