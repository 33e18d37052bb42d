/-
  StateVault.Envelope.Record
  ──────────────────────────
  **TYPED RECORDS IN ENVELOPES.**

  A record has a fixed list of members, each of one type.  Written, they
  stand in the order of the record.  Read, all of them must be there with
  values of their types, none of which is converted; others are passed over.
-/
import StateVault.Envelope

namespace StateVault

/-- Types whose values are envelopes of a fixed shape. -/
class Record (α : Type) where
  toEnvelope : α → Envelope
  ofEnvelope? : Envelope → Option α

namespace Record

variable {α : Type} [Record α]

/-- The payload of a record. -/
def encode (a : α) : ByteArray :=
  (toEnvelope a).encode

/-- The record in a payload. -/
def decode (payload : ByteArray) : Except Error α := do
  let e ← Envelope.decode payload
  match ofEnvelope? e with
  | some a => return a
  | none => throw .record

end Record

/-! ## §1. Machine settings. -/

/-- What a host writes about a machine. -/
structure MachineRecord where
  name : String
  memoryMb : UInt32
  secureBoot : Bool
deriving DecidableEq, Repr

namespace MachineRecord

/-- A string member. -/
def string? : Json → Option String
  | .string s => some s
  | _ => none

/-- A whole number that fits 32 bits. -/
def word32? : Json → Option UInt32
  | .integer n => if 0 ≤ n.val ∧ n.val < UInt32.size then some (UInt32.ofNat n.val.toNat) else none
  | _ => none

/-- A truth value. -/
def bool? : Json → Option Bool
  | .bool b => some b
  | _ => none

/-- A 32-bit word is an integer that the format holds. -/
theorem word32_inRange (w : UInt32) :
    -0x8000000000000000 ≤ (w.toNat : Int) ∧ (w.toNat : Int) < 0x10000000000000000 := by
  have h : w.toNat < UInt32.size := w.toNat_lt_size
  unfold UInt32.size at h
  omega

instance : Record MachineRecord where
  toEnvelope s :=
    ⟨[ ("name", .string s.name),
       ("memory_mb", .integer ⟨s.memoryMb.toNat, word32_inRange s.memoryMb⟩),
       ("secure_boot", .bool s.secureBoot) ]⟩
  ofEnvelope? e := do
    let name ← (← e.find? "name") |> string?
    let memoryMb ← (← e.find? "memory_mb") |> word32?
    let secureBoot ← (← e.find? "secure_boot") |> bool?
    return ⟨name, memoryMb, secureBoot⟩

end MachineRecord

end StateVault
