/-
  StateVault.Vault.Action
  ───────────────────────
  **AN OPEN VAULT, AND WHAT IS DONE TO IT.**

  An open vault remembers the superblock and the directory of the last
  commit, and which blocks are in use.  An action on it is a script of
  storage calls that answers with a result and the vault after it: a failing
  action has a vault after it too, in the state that it had reached.

    • `Action.onError` — put the vault right after a failure,
    • `Action.call`    — a storage call within an action.
-/
import StateVault.BlockMap.Claims
import StateVault.Settings
import StateVault.Directory
import StateVault.Storage.Script
import StateVault.Superblock.Current

namespace StateVault

/-- What is known of an open vault. -/
structure Vault where
  /-- The superblock of the last commit. -/
  superblock : Superblock
  /-- Where that superblock stands. -/
  slot : Slot
  /-- The directory of the last commit. -/
  directory : Directory
  /-- The blocks in use, growth that is not committed included. -/
  blocks : BlockMap
  settings : Settings

namespace Vault

def blockSize (v : Vault) : UInt32 :=
  v.superblock.blockSize

def generation (v : Vault) : UInt64 :=
  v.superblock.generation

/-- The byte at which a block starts. -/
def blockOffset (v : Vault) (block : UInt64) : UInt64 :=
  v.superblock.blockOffset block

end Vault

/-- Storage calls that work on an open vault. -/
def Action (α : Type) : Type :=
  Vault → Script (Except Error α × Vault)

namespace Action

variable {α β : Type}

def pure (a : α) : Action α := fun v =>
  .done (.ok a, v)

/-- One action, then the one that its answer chooses; a failure ends both. -/
def bind (x : Action α) (f : α → Action β) : Action β := fun v =>
  (x v).bind fun
    | (.ok a, v) => f a v
    | (.error e, v) => .done (.error e, v)

instance : Monad Action where
  pure := pure
  bind := bind

/-- Fail, and leave the vault as it is. -/
def fail (e : Error) : Action α := fun v =>
  .done (.error e, v)

/-- A check that leaves the vault as it is. -/
def require (check : Except Error α) : Action α := fun v =>
  .done (check, v)

/-- The vault as it is now. -/
def vault : Action Vault := fun v =>
  .done (.ok v, v)

/-- Change what is known of the vault. -/
def modify (f : Vault → Vault) : Action Unit := fun v =>
  .done (.ok (), f v)

/-- When an action fails, put the vault right; the failure stands. -/
def onError (x : Action α) (repair : Vault → Vault) : Action α := fun v =>
  (x v).bind fun
    | (.ok a, v) => .done (.ok a, v)
    | (.error e, v) => .done (.error e, repair v)

/-- Storage calls within an action. -/
def call (s : Script (Except Error α)) : Action α := fun v =>
  s.bind fun result => .done (result, v)

/-- Read from the medium. -/
def read (offset : UInt64) (count : Nat) : Action ByteArray :=
  call (.read offset.toNat count .done)

/-- Write to the medium. -/
def write (offset : UInt64) (data : ByteArray) : Action Unit :=
  call (.write offset.toNat data .done)

/-- Set the length of the medium. -/
def setLength (length : UInt64) : Action Unit :=
  call (.setLength length.toNat .done)

/-- Make writes durable. -/
def sync : Action Unit :=
  call (.sync .done)

end Action

end StateVault
