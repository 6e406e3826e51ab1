import Wallpiper.Foundations.Programs
import Wallpiper.Fsutil.FileSystem

/-!
# Copying what is missing

`wp_sync_dir_tree` walks a directory tree and copies the regular files that the
destination does not have.  Nesting and the loop over a file are bounded; the
bounds only have to be large enough.
-/

namespace Wallpiper.Fsutil

open Foundations Foundations.CText

abbrev SysProgram := Program SysCall SysReply

namespace Sys

def opendir (p : Path) : SysProgram Bool := Program.perform (SysCall.opendir p)

def readdir (p : Path) : SysProgram (List Name) := Program.perform (SysCall.readdir p)

def mkdir (p : Path) : SysProgram MkdirReply := Program.perform (SysCall.mkdir p)

def lstat (p : Path) : SysProgram (Option FileKind) := Program.perform (SysCall.lstat p)

def stat (p : Path) : SysProgram Bool := Program.perform (SysCall.stat p)

def openRead (p : Path) : SysProgram Bool := Program.perform (SysCall.openRead p)

def openWrite (p : Path) (mode : UInt32) : SysProgram Bool :=
  Program.perform (SysCall.openWrite p mode)

def read (p : Path) (off : ℕ) : SysProgram (Option Bytes) := Program.perform (SysCall.read p off)

def write (p : Path) (data : Bytes) : SysProgram (Option ℕ) :=
  Program.perform (SysCall.write p data)

def chmod (p : Path) (mode : UInt32) : SysProgram Unit := Program.perform (SysCall.chmod p mode)

end Sys

def configJson : Name := bytesOf "config.json"

/-- `mkdir` on a path and before on everything above it. -/
def mkdirs : Path → SysProgram Bool
  | [] => pure true
  | n :: p => do
      if ← mkdirs p then
        match ← Sys.mkdir (n :: p) with
        | .failed => pure false
        | _ => pure true
      else pure false

def wpMkdirP (path : Path) : SysProgram Bool :=
  if pathLength path = 0 ∨ 1024 ≤ pathLength path then pure false else mkdirs path

/-- The loop around `write`; it makes at least one byte of progress each time. -/
def writeAll (dst : Path) : ℕ → Bytes → SysProgram Bool
  | _, [] => pure true
  | 0, _ :: _ => .stuck
  | n + 1, c :: cs => do
      match ← Sys.write dst (c :: cs) with
      | none => pure false
      | some 0 => pure false
      | some (k + 1) => writeAll dst n (cs.drop k)

def copyLoop (src dst : Path) : ℕ → ℕ → SysProgram Bool
  | 0, _ => .stuck
  | n + 1, off => do
      match ← Sys.read src off with
      | none => pure false
      | some [] => pure true
      | some (c :: cs) => do
          if ← writeAll dst (cs.length + 1) (c :: cs) then
            copyLoop src dst n (off + (cs.length + 1))
          else pure false

def copyFileWithMode (bound : ℕ) (src dst : Path) (mode : UInt32) : SysProgram Bool := do
  if ← Sys.openRead src then
    if ← Sys.openWrite dst mode then
      if ← copyLoop src dst bound 0 then
        let _ ← Sys.chmod dst mode
        pure true
      else pure false
    else pure false
  else pure false

/-- One turn of the loop over the entries; the result says whether `ok` stays. -/
def syncEntry (recurse : Path → Path → SysProgram Bool) (bound : ℕ) (src dst : Path) (n : Name) :
    SysProgram Bool :=
  if n = dot ∨ n = dotDot then pure true
  else if n = configJson then pure true
  else if 1024 ≤ pathLength (n :: src) ∨ 1024 ≤ pathLength (n :: dst) then pure false
  else do
    match ← Sys.lstat (n :: src) with
    | none => pure false
    | some .dir => recurse (n :: src) (n :: dst)
    | some .other => pure true
    | some (.reg mode) => do
        if ← Sys.stat (n :: dst) then pure true
        else copyFileWithMode bound (n :: src) (n :: dst) (mode &&& 0o777)

def syncEntries (recurse : Path → Path → SysProgram Bool) (bound : ℕ) (src dst : Path) :
    List Name → Bool → SysProgram Bool
  | [], ok => pure ok
  | n :: names, ok => do
      let synced ← syncEntry recurse bound src dst n
      syncEntries recurse bound src dst names (ok && synced)

def syncDirTree (bound : ℕ) : ℕ → Path → Path → SysProgram Bool
  | 0, _, _ => .stuck
  | depth + 1, src, dst => do
      if ← Sys.opendir src then
        if ← wpMkdirP dst then
          let names ← Sys.readdir src
          syncEntries (syncDirTree bound depth) bound src dst names true
        else pure false
      else pure false

/-- `wp_sync_dir_tree`, with one bound for the nesting and for each file. -/
def wpSyncDirTree (bound : ℕ) (src dst : Path) : SysProgram Bool := syncDirTree bound bound src dst

end Wallpiper.Fsutil
