import Space2.Base.Checks
import Space2.Base.FileTree

/-!
# The path policy of a worktree

An agent names files by paths relative to a worktree. Before a file is read or written the
path is joined to the root, made normal and compared with it as a text, and every parent
below the root is asked whether it is a link.
-/
namespace Space2.RepoPaths

open Space2.Base

/-- The file tree, how many links a lookup follows, and the working directory. -/
structure System where
  tree : FileTree
  maxLinks : Nat
  cwd : PathText

abbrev Checked := Except String

/-! ## The file functions -/

structure Stat where
  found : Bool
  isDir : Bool
  isSymlink : Bool
  deriving DecidableEq

variable (system : System)

/-- `fs.absolute` -/
def absolute (path : PathText) : PathText :=
  if isAbsolute path = true then normalText path else normalText (joinPath system.cwd path)

/-- `fs.stat`: a lookup that fails finds nothing. -/
def stat (path : PathText) : Stat :=
  match (system.tree.lookup system.maxLinks false path).bind system.tree.found with
  | none => ⟨false, false, false⟩
  | some entry => ⟨true, entry = .directory, match entry with | .link _ => true | _ => false⟩

/-- `fs.exists`: too many links raise. -/
def pathExists (path : PathText) : Checked Bool :=
  match system.tree.lookup system.maxLinks true path with
  | none => .error "fs.exists"
  | some walked => .ok (system.tree.found walked).isSome

/-! ## The checks -/

def hasDrive (path : PathText) : Bool :=
  match path with
  | letter :: ':' :: separator :: _ => letter.isAlpha && (separator = '\\' || separator = '/')
  | _ => false

def validatePathSegments (path : PathText) : Checked Unit := do
  ensure (path ≠ []) "path must not be empty"
  ensure (Char.ofNat 0 ∉ path) "path contains NUL byte"
  ensure (isAbsolute path = false) "path must not be absolute"
  ensure (hasDrive path = false) "path must not be absolute"
  ensure (['.', '.'] ∉ rawParts path) "path must not contain '..' segment"

/-- A parent is shorter than its path, so the length of the path is fuel enough. -/
def checkSymlinksFrom (root : PathText) : Nat → PathText → Checked Unit
  | 0, _ => .ok ()
  | fuel + 1, current =>
    if root.length < current.length ∧ current ≠ root ∧ current ≠ parentPath root then
      if (stat system current).found = true ∧ (stat system current).isSymlink = true then
        .error ("ancestor is a symlink: " ++ String.ofList current)
      else checkSymlinksFrom root fuel (parentPath current)
    else .ok ()

def checkNoSymlinkAncestors (absolutePath worktreeRoot : PathText) : Checked Unit :=
  checkSymlinksFrom system (absolute system worktreeRoot) absolutePath.length absolutePath

/-- The path is the root, or continues it after a slash. -/
def continuesRoot (root path : PathText) : Bool :=
  root.length ≤ path.length && path.take root.length = root &&
    (path.length = root.length || path[root.length]? = some '/')

def resolveWorktreePath (worktreeRoot path : PathText) : Checked PathText := do
  validatePathSegments path
  let resolved := absolute system (joinPath worktreeRoot path)
  ensure (continuesRoot (absolute system worktreeRoot) resolved = true)
    ("path escapes worktree: " ++ String.ofList path)
  checkNoSymlinkAncestors system resolved worktreeRoot
  pure resolved

def gitInfix : PathText := ['/', '.', 'g', 'i', 't', '/']

def gitSuffix : PathText := ['/', '.', 'g', 'i', 't']

def validateRead (worktreeRoot path : PathText) : Checked PathText := do
  let resolved ← resolveWorktreePath system worktreeRoot path
  let present ← pathExists system resolved
  ensure (present = true) ("file not found: " ++ String.ofList path)
  ensure ((stat system resolved).isDir = false) ("cannot read directory: " ++ String.ofList path)
  ensure ((stat system resolved).isSymlink = false) ("cannot read symlink: " ++ String.ofList path)
  checkNoSymlinkAncestors system resolved worktreeRoot
  ensure (¬ gitInfix <:+: resolved) "cannot read files inside .git/"
  ensure (¬ gitSuffix <:+ resolved) "cannot read .git"
  pure resolved

def validateWrite (worktreeRoot path : PathText) : Checked PathText := do
  let resolved ← resolveWorktreePath system worktreeRoot path
  ensure (¬ gitInfix <:+: resolved) "cannot write files inside .git/"
  ensure (¬ gitSuffix <:+ resolved) "cannot write .git"
  let present ← pathExists system resolved
  ensure (present = true → (stat system resolved).isSymlink = false) ("cannot write to symlink: " ++ String.ofList path)
  ensure (present = true → (stat system resolved).isDir = false) ("cannot write to directory: " ++ String.ofList path)
  checkNoSymlinkAncestors system resolved worktreeRoot
  pure resolved

end Space2.RepoPaths
