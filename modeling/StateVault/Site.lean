/-
  StateVault.Site
  ───────────────
  **WHERE A VAULT IS MADE, AND HOW.**

  A site has settings and, for vaults in files, a path.  A file is made, or
  emptied, before the settings are looked at; a file that is not there cannot
  be opened.
-/
import StateVault.Session
import StateVault.Storage.DiskFile
import StateVault.Storage.Memory

namespace StateVault

structure Site where
  path : Option String
  settings : Settings
deriving Repr

namespace Site

/-- Standard settings, and no path. -/
def standard : Site :=
  ⟨none, .standard⟩

/-- The path, which files need. -/
def filePath (site : Site) : Except Error String :=
  match site.path with
  | some path => .ok path
  | none => .error (.settings .noPath)

/-- A new vault in memory. -/
def makeInMemory (site : Site) : Except Error Unit × Session Memory :=
  (Session.start Memory.empty).format site.settings

/-- A new vault in the file at the path; `file` is what is there before. -/
def makeFile (site : Site) (file : Option DiskFile) :
    Except Error Unit × Option (Session DiskFile) :=
  match site.filePath with
  | .error e => (.error e, file.map .start)
  | .ok _ =>
      let (result, session) := (Session.start DiskFile.create).format site.settings
      (result, some session)

/-- The vault in the file at the path; `file` is what is there. -/
def mountFile (site : Site) (file : Option DiskFile) :
    Except Error Unit × Option (Session DiskFile) :=
  match site.filePath with
  | .error e => (.error e, file.map .start)
  | .ok _ =>
      match DiskFile.openExisting (file.map (·.content)) with
      | .error e => (.error e, file.map .start)
      | .ok opened =>
          let (result, session) := (Session.start opened).mount site.settings
          (result, some session)

end Site

end StateVault
