import ReferencePages.Json.Reader
import ReferencePages.Shell.State

/-!
# Programs that scripts call

Programs on files and texts, with the messages of those that fail.
-/

namespace ReferencePages.Shell

open Json (digitsValue)

/-- A program: what it does with its arguments. -/
abbrev Tool := List String → Session → Session

/-- Run a program on each argument; the status is the last one that tells of a failure. -/
def onEach (tool : String → Session → Session) : Tool := fun args sh =>
  args.foldl (fun sh arg =>
    let before := sh.status
    let after := tool arg (sh.finish 0)
    if after.status = 0 then after.finish before else after) (sh.finish 0)

/-- The arguments that are options, and the others. -/
def splitOptions (args : List String) : List String × List String :=
  args.partition fun arg => arg.startsWith "-" && arg.length > 1

/-- Whether options hold a letter. -/
def hasOption (options : List String) (c : Char) : Bool :=
  options.any fun option => option.toList.contains c

/-! ## Text -/

/-- The escapes of a text that is printed; `\c` ends it. -/
def unescape : List Char → List Char
  | [] => []
  | '\\' :: 'n' :: s => '\n' :: unescape s
  | '\\' :: 't' :: s => '\t' :: unescape s
  | '\\' :: 'r' :: s => '\r' :: unescape s
  | '\\' :: '\\' :: s => '\\' :: unescape s
  | '\\' :: 'c' :: _ => []
  | c :: s => c :: unescape s

/-- Print the arguments with blanks between. -/
def echo : Tool := fun args sh =>
  let (line, args) := match args with
    | "-n" :: args => ("", args)
    | args => ("\n", args)
  let text := String.ofList (unescape (" ".intercalate args).toList)
  (sh.print (text ++ line)).finish 0

/-- The first part of a format: its bytes, the rest of the format, and the arguments that are
left. -/
def formatPart (args : List String) : List Char → List UInt8 × List Char × List String
  | '%' :: '%' :: s => (['%'.toUInt8], s, args)
  | '%' :: 's' :: s => ((args.headD "").toUTF8.toList, s, args.tail)
  | '%' :: 'd' :: s => ((args.headD "0").toUTF8.toList, s, args.tail)
  | '%' :: 'b' :: s =>
    ((String.ofList (unescape (args.headD "").toList)).toUTF8.toList, s, args.tail)
  | '\\' :: 'n' :: s => (['\n'.toUInt8], s, args)
  | '\\' :: 't' :: s => (['\t'.toUInt8], s, args)
  | '\\' :: 'r' :: s => (['\r'.toUInt8], s, args)
  | '\\' :: '"' :: s => (['"'.toUInt8], s, args)
  | '\\' :: '\\' :: s => (['\\'.toUInt8], s, args)
  | '\\' :: s =>
    let digits := (s.take 3).takeWhile fun c => '0' ≤ c && c ≤ '7'
    if digits.isEmpty then (['\\'.toUInt8], s, args)
    else
      let n := digits.foldl (fun n d => n * 8 + digitsValue [d]) 0
      ([UInt8.ofNat n], s.drop digits.length, args)
  | c :: s => (c.toString.toUTF8.toList, s, args)
  | [] => ([], [], args)

/-- The bytes of a format of at most `n` parts, and the arguments that are left. -/
def format : Nat → List Char → List String → List UInt8 × List String
  | 0, _, args => ([], args)
  | n + 1, s, args =>
    if s.isEmpty then ([], args)
    else
      let (bytes, s, args) := formatPart args s
      let (more, args) := format n s args
      (bytes ++ more, args)

/-- The bytes of a format, which is repeated while there are arguments. -/
def formatAll (s : List Char) : Nat → List String → List UInt8
  | 0, _ => []
  | n + 1, args =>
    let (bytes, rest) := format s.length s args
    if rest.isEmpty || rest.length = args.length then bytes else bytes ++ formatAll s n rest

/-- Print arguments by a format. -/
def printf : Tool := fun args sh =>
  match args with
  | [] => sh.complain 2 "sh: 1: printf: usage: printf format [arg ...]"
  | f :: args => (sh.send sh.out (formatAll f.toList (args.length + 1) args)).finish 0

/-! ## Files -/

/-- Print files, or the input. -/
def cat : Tool := fun args sh =>
  if args.isEmpty then (sh.send sh.out sh.input).finish 0
  else onEach (fun path sh =>
    if path = "-" then sh.send sh.out sh.input
    else
      match sh.locate? path with
      | some p =>
        match sh.tree.file? p with
        | some c => sh.send sh.out c.bytes
        | none =>
          if sh.tree.isDirectory p then sh.complain 1 s!"cat: {path}: Is a directory"
          else sh.complain 1 s!"cat: {path}: No such file or directory"
      | none => sh.complain 1 s!"cat: {path}: No such file or directory") args sh

/-- Whether a file or directory is at a place. -/
def occupied (sh : Session) (p : Place) : Bool := sh.tree.isDirectory p || (sh.tree.file? p).isSome

/-- Make the directories that a path leads through. -/
def makePath (sh : Session) (path : String) : Option FileTree :=
  let start := if Path.isAbsolute path then [] else sh.directory
  (Path.steps path).foldlM (fun (state : FileTree × Place) step =>
    let (t, p) := state
    let next := p.move step
    match step with
    | .down _ => if (t.file? next).isSome then none else some (t.addDirectory next, next)
    | _ => some (t, next)) (sh.tree, start)
    |>.map Prod.fst

/-- Make directories. -/
def mkdir : Tool := fun args sh =>
  let (options, paths) := splitOptions args
  onEach (fun path sh =>
    let refuse (reason : String) :=
      sh.complain 1 s!"mkdir: cannot create directory '{path}': {reason}"
    if hasOption options 'p' then
      match makePath sh path with
      | some tree => { sh with tree }
      | none => refuse "Not a directory"
    else
      match sh.locate? path with
      | some p =>
        if occupied sh p then refuse "File exists"
        else { sh with tree := sh.tree.addDirectory p }
      | none => refuse "No such file or directory") paths sh

/-- Where a file goes: into a directory under its own name, and otherwise to the path itself. -/
def targetOf (sh : Session) (source target : String) : Option Place := do
  let p ← sh.locate? target
  if sh.tree.isDirectory p then do return p ++ [← Path.fileName? source] else return p

/-- Copy files, or move them. -/
def transfer (name : String) (keep : Bool) : Tool := fun args sh =>
  let (options, paths) := splitOptions args
  let target := paths.getLastD ""
  if paths.length < 2 then sh.complain 1 s!"{name}: missing file operand"
  else onEach (fun source sh =>
    match sh.locate? source with
    | none => sh.complain 1 s!"{name}: cannot stat '{source}': No such file or directory"
    | some p =>
      match sh.tree.file? p, targetOf sh source target with
      | some c, some q =>
        let tree := sh.tree.put q c
        { sh with tree := if keep then tree else if p = q then tree else tree.erase p }
      | some _, none =>
        sh.complain 1 s!"{name}: cannot create regular file '{target}': No such file or directory"
      | none, q =>
        if !sh.tree.isDirectory p then
          sh.complain 1 s!"{name}: cannot stat '{source}': No such file or directory"
        else if keep && !("rRa".toList.any (hasOption options)) then
          sh.complain 1 s!"{name}: -r not specified; omitting directory '{source}'"
        else
          match q with
          | none =>
            let reason := "No such file or directory"
            sh.complain 1 s!"{name}: cannot create directory '{target}': {reason}"
          | some q =>
            let inside (r : Place) := r.take p.length = p
            let moved (r : Place) := q ++ r.drop p.length
            let t := sh.tree
            let tree := (t.directories.filter inside).foldl (fun t r => t.addDirectory (moved r)) t
            let tree := (t.files.filter fun r => inside r).entries.foldl
              (fun t f => t.put (moved f.1) f.2) tree
            { sh with tree :=
                if keep then tree
                else { tree with
                  directories := tree.directories.filter (!inside ·)
                  files := tree.files.filter fun r => !inside r } }) paths.dropLast sh

/-- Remove files, and directories where an option says so. -/
def rm : Tool := fun args sh =>
  let (options, paths) := splitOptions args
  let force := hasOption options 'f'
  onEach (fun path sh =>
    let missing :=
      if force then sh else sh.complain 1 s!"rm: cannot remove '{path}': No such file or directory"
    match sh.locate? path with
    | none => missing
    | some p =>
      if (sh.tree.file? p).isSome then { sh with tree := sh.tree.erase p }
      else if !sh.tree.isDirectory p then missing
      else if hasOption options 'r' || hasOption options 'R' then
        let outside (r : Place) := r.take p.length ≠ p
        { sh with tree :=
            { sh.tree with
              directories := sh.tree.directories.filter outside
              files := sh.tree.files.filter fun r => outside r } }
      else sh.complain 1 s!"rm: cannot remove '{path}': Is a directory") paths sh

/-- Make empty files. -/
def touch : Tool := onEach fun path sh =>
  match sh.locate? path with
  | some p =>
    if occupied sh p then sh else { sh with tree := sh.tree.put p (.text "") }
  | none => sh.complain 1 s!"touch: cannot touch '{path}': No such file or directory"

/-! ## Conditions -/

/-- Whether a condition holds. -/
def holds (sh : Session) : List String → Bool
  | "!" :: args => !holds sh args
  | ["-f", path] => ((sh.locate? path).bind sh.tree.file?).isSome
  | ["-d", path] => (sh.locate? path).any sh.tree.isDirectory
  | ["-e", path] => (sh.locate? path).any (occupied sh)
  | ["-s", path] => ((sh.locate? path).bind sh.tree.file?).any (!·.bytes.isEmpty)
  | ["-n", s] => s ≠ ""
  | ["-z", s] => s = ""
  | [a, "=", b] => a = b
  | [a, "!=", b] => a ≠ b
  | [s] => s ≠ ""
  | _ => false

/-- Test a condition. -/
def test : Tool := fun args sh => sh.finish (if holds sh args then 0 else 1)

/-! ## The shell itself -/

/-- Change the directory. -/
def cd : Tool := fun args sh =>
  let path := args.headD "/"
  match sh.locate? path with
  | some p =>
    if sh.tree.isDirectory p then { sh with directory := p, status := 0 }
    else sh.complain 2 s!"sh: 1: cd: can't cd to {path}"
  | none => sh.complain 2 s!"sh: 1: cd: can't cd to {path}"

/-- End the script. -/
def exit : Tool := fun args sh =>
  let status := ((args.head?.bind String.toNat?).getD sh.status) % 256
  { sh with status, exited := true }

/-- The program of a name. -/
def tool? : String → Option Tool
  | "true" => some fun _ sh => sh.finish 0
  | ":" => some fun _ sh => sh.finish 0
  | "false" => some fun _ sh => sh.finish 1
  | "echo" => some echo
  | "printf" => some printf
  | "cat" => some cat
  | "mkdir" => some mkdir
  | "cp" => some (transfer "cp" true)
  | "mv" => some (transfer "mv" false)
  | "rm" => some rm
  | "touch" => some touch
  | "test" => some test
  | "[" => some fun args sh => test args.dropLast sh
  | "sleep" => some fun _ sh => sh.finish 0
  | "cd" => some cd
  | "exit" => some exit
  | _ => none

end ReferencePages.Shell
