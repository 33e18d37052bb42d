/-
  StateVault.Host
  ───────────────
  **KINDS OF PLACES THAT VAULTS LIVE IN.**

    • `Host.bench`  — an image that outlives every vault on it, can be
                      changed underneath, and fails calls by an allowance,
    • `Host.memory` — images in memory: a vault takes its image along, and
                      closing it gives the image back to be kept,
    • `Host.disk`   — a file, or no file yet, and maybe no path to it.
-/
import StateVault.Site
import StateVault.Storage.Faults

namespace StateVault

inductive Host where
  | bench (session : Session (Faulty Allowance.rule Image))
  | memory (kept : Option Memory) (session : Session Memory)
  | disk (path : Option String) (session : Option (Session DiskFile))

namespace Host

/-- A bench with an image, without faults. -/
def ofImage (image : Image) : Host :=
  .bench (.start ⟨image, .unlimited⟩)

/-- Memory in which nothing is kept. -/
def emptyMemory : Host :=
  .memory none (.start .empty)

/-- A path at which there is no file, or no path. -/
def emptyDisk (path : Option String) : Host :=
  .disk path none

/-- The open vault. -/
def vault? : Host → Option Vault
  | bench session => session.vault
  | memory _ session => session.vault
  | disk _ session => session.bind (·.vault)

/-- The bytes that are there, with a vault open or not. -/
def image : Host → Image
  | bench session => session.medium.medium
  | memory kept session =>
      match session.vault with
      | some _ => session.medium.image
      | none => (kept.map (·.image)).getD ByteArray.empty
  | disk _ session => (session.map (·.medium.content)).getD ByteArray.empty

/-- Drop the open vault, and make an empty one. -/
def format (settings : Settings) : Host → Except Error Unit × Host
  | bench session =>
      let (result, session) := session.format settings
      (result, bench session)
  | memory kept _ =>
      let (result, session) := Site.makeInMemory ⟨none, settings⟩
      (result, memory kept session)
  | disk path session =>
      let (result, session) := Site.makeFile ⟨path, settings⟩ (session.map (·.medium))
      (result, disk path session)

/-- Drop the open vault, and open the one that is there; an image that was
kept is kept no longer. -/
def mount (settings : Settings) : Host → Except Error Unit × Host
  | bench session =>
      let (result, session) := session.mount settings
      (result, bench session)
  | memory kept _ =>
      let (result, session) := (Session.start (kept.getD .empty)).mount settings
      (result, memory none session)
  | disk path session =>
      let (result, session) := Site.mountFile ⟨path, settings⟩ (session.map (·.medium))
      (result, disk path session)

/-- Close the open vault, if there is one. -/
def close : Host → Option (Except Error Unit) × Host
  | bench session =>
      let (result, session) := session.close
      (result, bench session)
  | memory kept session =>
      match session.close with
      | (some (.ok _), session) => (some (.ok ()), memory (some session.medium) session)
      | (result, session) => (result, memory kept session)
  | disk path none => (none, disk path none)
  | disk path (some session) =>
      let (result, session) := session.close
      (result, disk path (some session))

/-- Act on the open vault, if there is one. -/
def act {α : Type} (action : Action α) : Host → Option (Except Error α) × Host
  | bench session =>
      let (result, session) := session.act action
      (result, bench session)
  | memory kept session =>
      let (result, session) := session.act action
      (result, memory kept session)
  | disk path none => (none, disk path none)
  | disk path (some session) =>
      let (result, session) := session.act action
      (result, disk path (some session))

/-- Give a bench another allowance. -/
def allow (allowance : Allowance) : Host → Host
  | bench session => bench (session.under fun m => ((), { m with state := allowance })).2
  | host => host

/-- Write to the image of a bench, apart from its faults. -/
def poke (offset : Nat) (data : ByteArray) : Host → Except Error Unit × Host
  | bench session =>
      let (result, session) := session.under fun m =>
        let (result, medium) := Image.write offset data m.medium
        (result, { m with medium })
      (result, bench session)
  | host => (.ok (), host)

/-- Set the length of the image of a bench, apart from its faults. -/
def truncate (length : Nat) : Host → Host
  | bench session =>
      bench (session.under fun m => ((), { m with medium := Bytes.resized m.medium length })).2
  | host => host

end Host

end StateVault
