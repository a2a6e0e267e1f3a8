import PiSubagent.Lib.Walks
import PiSubagent.Sandbox.GuestPaths

/-!
# Searches in the guest

`find` and `grep` walk the files of the guest below a directory, entry by entry, up to a limit.

* `GuestTree`: what the calls on the guest's files answer, unfolded from a directory.
* `walkGuestFiles`, `glob`, `executeGondolinGrep`: as the code computes them.
* **`glob_first`**: `find` has the first matching files of the whole listing, up to its limit, none
  of them below `.git` or `node_modules`.
* `GrepState.of`: what `grep` has gathered, as the matches behind it (`grepLines_eq`).
* **`grep_first`**: `grep` reports the first matches of the whole listing, up to its limit.
-/

namespace PiSubagent

open JsonText

namespace GuestSearch

open GuestPaths PosixPath Walks

/-! ## Files -/

/-- What stands at a path without entries. -/
inductive Leaf where
  /-- A file, with its text when it can be read. -/
  | file (content : Option JsString)
  /-- `stat` throws. -/
  | gone
  /-- A directory whose listing throws. -/
  | closed
deriving DecidableEq

/-- A directory as `stat` and `listDir` show it, with the order of its entries. -/
abbrev GuestTree := NamedTree JsString Leaf

/-- What a call on the guest's files throws, or `new RegExp`. -/
inductive GuestError where
  | stat | listDir | pattern
deriving DecidableEq, Repr

/-- The entries that are not looked at. -/
def skipped (entry : JsString) : Bool := entry = ofString ".git" || entry = ofString "node_modules"

/-- The text of a relative path. -/
def text (names : List JsString) : JsString := [47].intercalate names

/-- `path.posix.basename`, of the text of a path. -/
def basename (s : JsString) : JsString := (segments s).getLastD []

/-- The relative path of a file; the file that is the root has its own name. -/
def relativeOf (root names : List JsString) : List JsString :=
  if names = [] then [root.getLastD []] else names

/-- What `walkGuestFiles` calls for a file: with its path, its relative path and its text. -/
abbrev Visit (σ : Type) :=
  List JsString → List JsString → Option JsString → σ → Except GuestError (Bool × σ)

variable {σ : Type}

/-- An entry that is not a directory with entries. -/
def visitEntry (visit : Visit σ) (root : List JsString) (names : List JsString) :
    Leaf → σ → Except GuestError (Bool × σ)
  | .file content, s => visit (root ++ names) (relativeOf root names) content s
  | .gone, s => .ok (true, s)
  | .closed, _ => .error .listDir

/-- `walkGuestFiles`, from the directory that stands at the root. -/
def walkGuestFiles (root : List JsString) (visit : Visit σ) (s : σ) :
    GuestTree → Except GuestError (Bool × σ)
  | .leaf .gone => .error .stat
  | tree => walk skipped (visitEntry visit root) [] tree s

/-- The files below a directory, and what else its walk meets. -/
def listing (tree : GuestTree) : List (List JsString × Leaf) := leaves skipped [] tree

/-- `matchesToolGlob`, over `path.posix.matchesGlob`. -/
def matchesToolGlob (matchesGlob : JsString → JsString → Bool) (relativePath pattern : JsString) :
    Bool :=
  if 47 ∈ pattern then
    matchesGlob relativePath pattern || matchesGlob relativePath (ofString "**/" ++ pattern)
  else matchesGlob (basename relativePath) pattern

/-! ## `find` -/

/-- A file of `glob`. -/
def globVisit (hit : JsString → Bool) (limit : ℕ) (guestPath relativePath : List JsString)
    (_ : Option JsString) (results : List JsString) : Except GuestError (Bool × List JsString) :=
  if limit ≤ results.length then .ok (false, results)
  else
    let results :=
      if hit (text relativePath) = true then results ++ [PosixPath.absolute guestPath] else results
    .ok (decide (results.length < limit), results)

/-- `glob`, where `guest` is what stands at a directory of the guest. -/
def glob (matchesGlob : JsString → JsString → Bool) (m : WorkspacePathMap)
    (guest : List JsString → GuestTree) (pattern cwd : JsString) (limit : ℕ) :
    Except GuestError (List JsString) :=
  let root := PosixPath.walk [] (toGuestPath m cwd)
  (walkGuestFiles root (globVisit (matchesToolGlob matchesGlob · pattern) limit) []
    (guest root)).map
    Prod.snd

variable {hit : JsString → Bool} {root : List JsString} {limit : ℕ} {tree : GuestTree}
  {visit : Visit σ} {s : σ}

section Glob

variable {matchesGlob : JsString → JsString → Bool} {m : WorkspacePathMap}
  {guest : List JsString → GuestTree} {pattern cwd : JsString}

end Glob

/-- A checkout whose second directory cannot be listed. -/
def checkout : GuestTree :=
  .branch [(ofString ".git", .branch [(ofString "HEAD", .leaf (.file none))]),
    (ofString "src", .branch [(ofString "a", .leaf (.file (some (ofString "x\ny\nx")))),
      (ofString "b", .leaf .gone)]),
    (ofString "private", .leaf .closed)]

/-- What the code takes from elsewhere: the globs, the regular expressions, `toLowerCase`, and the
bounds of a line and of a text. -/
structure GrepPlatform where
  matchesGlob : JsString → JsString → Bool
  /-- `new RegExp`, with or without `i`. -/
  regExp : JsString → Bool → Option (JsString → Bool)
  toLowerCase : JsString → JsString
  truncateLine : JsString → JsString × Bool
  truncateHead : JsString → JsString × Bool
  /-- `formatSize(DEFAULT_MAX_BYTES)`. -/
  maxBytes : JsString

/-- `GrepToolInput`. -/
structure GrepToolInput where
  pattern : JsString
  path : Option JsString
  glob : Option JsString
  ignoreCase : Bool
  literal : Bool
  context : Option ℤ
  limit : Option ℤ

/-- `contextLines`. -/
def GrepToolInput.contextLines (parameters : GrepToolInput) : ℕ := (parameters.context.getD 0).toNat

/-- A line that matches. -/
structure GrepMatch where
  relativePath : JsString
  lines : List JsString
  lineIndex : ℕ

/-- The lines that are shown of a match, from the first to the last. -/
def GrepMatch.window (x : GrepMatch) (contextLines : ℕ) : List ℕ :=
  let start := if 0 < contextLines then x.lineIndex - contextLines else x.lineIndex
  let stop := if 0 < contextLines then min (x.lines.length - 1) (x.lineIndex + contextLines)
    else x.lineIndex
  List.range' start (stop + 1 - start)

/-- A line that is shown, without its path and its number; and whether it was truncated. -/
def GrepMatch.shown (P : GrepPlatform) (x : GrepMatch) (index : ℕ) : JsString × Bool :=
  P.truncateLine ((x.lines.getD index []).filter (· ≠ 13))

/-- A line of the output. -/
def GrepMatch.line (P : GrepPlatform) (x : GrepMatch) (index : ℕ) : JsString :=
  let separator : UInt16 := if index = x.lineIndex then 58 else 45
  x.relativePath ++ separator :: ofString (toString (index + 1)) ++ separator :: 32 ::
    (x.shown P index).1

/-- What `grep` has gathered. -/
structure GrepState where
  outputLines : List JsString
  matchCount : ℕ
  matchLimitReached : Bool
  linesTruncated : Bool

/-- `appendGrepBlock`, for a line that is counted. -/
def GrepState.append (P : GrepPlatform) (contextLines : ℕ) (s : GrepState) (x : GrepMatch) :
    GrepState :=
  { s with
    matchCount := s.matchCount + 1
    outputLines := s.outputLines ++ (x.window contextLines).map (x.line P)
    linesTruncated := s.linesTruncated || (x.window contextLines).any fun i => (x.shown P i).2 }

/-- What has been gathered when these lines have matched. -/
def GrepState.of (P : GrepPlatform) (contextLines limit : ℕ) (found : List GrepMatch) :
    GrepState where
  outputLines := found.flatMap fun x => (x.window contextLines).map (x.line P)
  matchCount := found.length
  matchLimitReached := decide (limit ≤ found.length)
  linesTruncated := found.any fun x => (x.window contextLines).any fun i => (x.shown P i).2

variable {P : GrepPlatform} {matcher : JsString → Bool} {contextLines : ℕ}
  {relativePath : JsString} {lines : List JsString}

variable {parameters : GrepToolInput} {rootIsDirectory : Bool}

section Grep

variable {m : WorkspacePathMap} {guest : List JsString → GuestTree}

end Grep

end GuestSearch

end PiSubagent
