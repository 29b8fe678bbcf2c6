import Hetman.CommandLine.Run

/-!
The program on the command line.

The working folder is read in before the program runs, and what the program has
changed is written back afterwards. A run that waits for input is started again
with one line more; what it has written before is not shown twice.

What the library leaves out:

* the limit that a host sets to nested calls, in reading as in evaluating;
* surrogates: a text is made of characters, and the number of a surrogate is
  refused where it would become one;
* the sign of what is not a number;
* members that the host gives to every object, but for a library's own words
  about itself;
* links between files, so that two paths lead to one file only if they spell the
  same names;
* the workloads by which the program's speed is measured.
-/

namespace Hetman.Main

partial def addEntry (f : Files) (above : List String) (entry : IO.FS.DirEntry) : IO Files := do
  let here := above ++ [entry.fileName]
  match (← entry.path.symlinkMetadata).type with
  | .dir => (← entry.path.readDir).foldlM (fun f e => addEntry f here e) (f.addFolder here)
  | .file => return f.addFile here (← IO.FS.readBinFile entry.path)
  | _ => return f

def readFiles : IO Files := do
  let folder ← IO.currentDir
  let names := Path.collapse (Path.names folder.toString)
  let start : Files := { ({} : Files).addFolder names with cwd := names }
  (← folder.readDir).foldlM (fun f e => addEntry f names e) start

def writeFiles (before after : Files) : IO Unit := do
  for (names, content) in after.files do
    unless (before.file? names).any (·.data == content.data) do
      IO.FS.createDirAll (Path.ofNames names.dropLast)
      IO.FS.writeBinFile (Path.ofNames names) content

def systemCode : ExitCode → UInt32
  | .number n => UInt32.ofNat n.toNat
  | .flag b => if b then 1 else 0

/-- Again with more input as long as it waits. `shown` characters of the output have been written.
-/
partial def play (args : List String) (w : World) (typed : String) (shown : Nat) : IO UInt32 := do
  let host : Host := { executable := (← IO.appPath).toString }
  let outcome := CommandLine.run host args { w with input := typed.toList }
  IO.print (outcome.world.output.drop shown)
  (← IO.getStdout).flush
  match outcome.ending with
  | .error .waiting =>
    let line ← (← IO.getStdin).getLine
    let shown := outcome.world.output.length
    if line.isEmpty then play args { w with inputOpen := false } typed shown
    else play args w (typed ++ line) shown
  | ending =>
    writeFiles w.files outcome.world.files
    IO.eprint outcome.errors
    match ending with
    | .ok code => return systemCode code
    | .error crash =>
      IO.eprintln crash.message
      return 1

end Hetman.Main

def main (args : List String) : IO UInt32 := do
  let w : Hetman.World :=
    { files := ← Hetman.Main.readFiles, inputOpen := true,
      random := mkStdGen (← IO.rand 0 1000000000) }
  Hetman.Main.play args w "" 0
