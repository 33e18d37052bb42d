/-
  StateVault.Directory.Name
  ─────────────────────────
  **STREAM NAMES.**

  A name fills a slot of 63 bytes that is padded with zero bytes.  So it is
  at most 63 bytes of UTF-8, has at least one, and holds no NUL.  Twelve
  names are known to the firmware of a virtual machine and its host.
-/
import StateVault.Error

namespace StateVault.Name

/-- The bytes that a name may have. -/
def maxSize : Nat := 63

/-- Why a text is no name, if it is none; emptiness before length before NUL. -/
def fault? (name : String) : Option NameFault :=
  if name.isEmpty then some .empty
  else if maxSize < name.utf8ByteSize then some (.tooLong name.utf8ByteSize)
  else if name.toList.contains '\x00' then some (.holdsNul name)
  else none

def check (name : String) : Except Error Unit :=
  match fault? name with
  | some fault => .error (.badName fault)
  | none => .ok ()

/-- The names that firmware and host agree on, in the order of their file
numbers. -/
def agreed : List String :=
  [ "bios_nvram", "tpm_ppi", "tpm_nvram", "rtc_skew", "attest", "key_protector",
    "vm_unique_id", "guest_firmware", "custom_uefi", "guest_watchdog",
    "hw_key_protector", "guest_secret_key" ]

end StateVault.Name
