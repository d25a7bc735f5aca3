import ReferencePages.Shell.Script
import ReferencePages.Shell.Tool
import ReferencePages.Sync.Step
import ReferencePages.Text.Encoded

/-!
# Running scripts

Of outside programs, `true`, `false` and `sh` are known here; every other program is one that
cannot be started.
-/

namespace ReferencePages.Shell

/-! ## Words -/

/-- What a variable stands for. -/
def valueOf (sh : Session) (name : String) : String :=
  if name = "?" then toString sh.status else (sh.bindings.get? name).getD ""

/-- The text of a word. -/
def expand (sh : Session) (w : Word) : String :=
  String.ofList (w.flatMap fun
    | .text s => s
    | .quotes => []
    | .variable name => (valueOf sh name).toList)

/-- The arguments of some words. A word without quotes that stands for nothing is none. -/
def arguments (sh : Session) (words : List Word) : List String :=
  (words.map fun w => (expand sh w, w.contains .quotes)).filterMap fun (text, quoted) =>
    if text.isEmpty && !quoted then none else some text

/-- The name and value of a word that assigns to a variable. -/
def assignment? (sh : Session) (w : Word) : Option (String × String) := do
  let name := w.takeWhile fun
    | .text [c] => isNameChar c
    | _ => false
  match w.drop name.length with
  | .text ['='] :: value => if name.isEmpty then none else some (expand sh name, expand sh value)
  | _ => none

/-! ## Redirections -/

/-- The sink that a redirection of output leads to; a file is made, and emptied unless it is to be
continued. -/
def openSink (sh : Session) (sign target : String) : Option (Session × Sink) :=
  if sign = ">&" then
    match target with
    | "1" => some (sh, sh.out)
    | "2" => some (sh, sh.err)
    | "-" => some (sh, .discard)
    | _ => none
  else if target = "/dev/null" then some (sh, .discard)
  else do
    let p ← sh.locate? target
    if sh.tree.isDirectory p then none
    else if sign = ">>" && (sh.tree.file? p).isSome then some (sh, .file p)
    else some ({ sh with tree := sh.tree.put p (.text "") }, .file p)

/-- Apply a redirection. -/
def redirect (sh : Session) (r : Redirect) : Except Session Session :=
  let target := expand sh r.target
  if r.sign = "<<" then .ok { sh with input := target.toUTF8.toList }
  else if r.sign.startsWith "<" then
    if target = "/dev/null" then .ok { sh with input := [] }
    else
      match (sh.locate? target).bind sh.tree.file? with
      | some c => .ok { sh with input := c.bytes }
      | none => .error (sh.complain 2 s!"sh: 1: cannot open {target}: No such file")
  else
    match openSink sh r.sign target with
    | some (sh, sink) =>
      .ok (if r.descriptor = 2 then { sh with err := sink } else { sh with out := sink })
    | none =>
      let reason := if (sh.locate? target).isSome then "Is a directory" else "Directory nonexistent"
      .error (sh.complain 2 s!"sh: 1: cannot create {target}: {reason}")

/-- Run what redirections apply to. -/
def withRedirects (redirects : List Redirect) (run : Session → Session) (sh : Session) : Session :=
  let restore (after : Session) : Session :=
    { after with input := sh.input, out := sh.out, err := sh.err }
  match redirects.foldlM redirect sh with
  | .ok opened => restore (run opened)
  | .error failed => restore failed

/-! ## Commands -/

/-- Run a program by its name. -/
def call (args : List String) (sh : Session) : Session :=
  match args with
  | [] => sh
  | name :: args =>
    match tool? name with
    | some tool => tool args sh
    | none => sh.complain 127 s!"sh: 1: {name}: not found"

/-- Run a command of words. -/
def runSimple (words : List Word) (sh : Session) : Session :=
  let assignments := words.takeWhile fun w => (assignment? sh w).isSome
  let rest := words.drop assignments.length
  if rest.isEmpty then
    assignments.foldl (fun sh w =>
      match assignment? sh w with
      | some (name, value) => { sh with bindings := sh.bindings.insert name value, status := 0 }
      | none => sh) sh
  else call (arguments sh rest) sh

/-- What is left of a script that ran on its own: its directory and variables are forgotten. -/
def leave (outer inner : Session) : Session :=
  { inner with directory := outer.directory, bindings := outer.bindings, exited := outer.exited }

/-- Run a script. -/
def run : Script → Session → Session
  | .empty, sh => sh
  | .simple words redirects, sh =>
    if sh.exited then sh else withRedirects redirects (runSimple words) sh
  | .group shared body redirects, sh =>
    if sh.exited then sh
    else
      let inner := withRedirects redirects (run body) sh
      if shared then inner else leave sh inner
  | .pipe first second, sh =>
    if sh.exited then sh
    else
      let fed := run first { sh with out := .pipe, piped := [] }
      let start := leave sh { fed with input := fed.piped, piped := sh.piped, out := sh.out }
      let last := run second start
      leave sh { last with input := sh.input }
  | .both first second, sh =>
    let sh := run first sh
    if sh.status = 0 then run second sh else sh
  | .either first second, sh =>
    let sh := run first sh
    if sh.status = 0 then sh else run second sh
  | .sequence first second, sh => run second (run first sh)
  | .negate body, sh =>
    let sh := run body sh
    if sh.exited then sh else sh.finish (if sh.status = 0 then 1 else 0)

/-- How a script with its arguments ends in a directory, and the tree it leaves. The first
argument is the name of the script. -/
def runText (script : String) (args : List String) (directory : Place) (t : FileTree) :
    Ending × FileTree :=
  match Script.ofText? script with
  | none => (.ended 2 "sh: 1: Syntax error", t)
  | some script =>
    let named := (if args.isEmpty then ["sh"] else args).zipIdx.map fun arg =>
      (toString arg.2, arg.1)
    let bindings := Keyed.ofList (named ++ [("#", toString (args.length - 1))])
    let sh := run script { tree := t, directory, bindings }
    (.ended sh.status (String.ofList (decodeBytes sh.errors)), sh.tree)

/-- The programs that are known. -/
def programs : Programs := fun directory command t =>
  match (t.locate? directory).filter t.isDirectory with
  | none => (.notStarted, t)
  | some p =>
    match command with
    | "true" :: _ => (.ended 0 "", t)
    | "false" :: _ => (.ended 1 "", t)
    | "sh" :: "-c" :: script :: args => runText script args p t
    | _ => (.notStarted, t)

end ReferencePages.Shell
