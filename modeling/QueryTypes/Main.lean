import QueryTypes.Command.Program
import QueryTypes.Tree.Difference

/-! The program on a disk and at a terminal. The files below the working directory are read into a
world, the program runs in it, and what it wrote is put on the disk. There are no connections to
endpoints: schemas come from files. -/

namespace QueryTypes.Disk

/-- Adds what is below a directory; links to directories are not followed. -/
partial def read (l : Location) (t : FileTree) : IO FileTree := do
  let entries ← ((← IO.currentDir) / Location.text l).readDir
  let mut tree := t
  for e in entries do
    let place := l ++ [e.fileName]
    let linked ← e.path.symlinkMetadata
    match linked.type with
    | .dir => tree ← read place (tree.set place .dir)
    | .file => tree := tree.set place (.file (← IO.FS.readBinFile e.path))
    | _ =>
      if ← e.path.pathExists then
        if !(← e.path.isDir) then tree := tree.set place (.file (← IO.FS.readBinFile e.path))
  return tree

/-- Adds a single file, wherever it is. -/
def readFile (cwd : Location) (t : FileTree) (path : String) : IO FileTree := do
  let place := Path.resolve cwd (Path.ofText path)
  let disk := (← IO.currentDir) / Location.text place
  if t.has place || !(← disk.pathExists) then return t
  if ← disk.isDir then return t.makeDirs place
  return t.put place (← IO.FS.readBinFile disk)

def here : IO Location := return Path.resolve [] (Path.ofText (← IO.currentDir).toString)

def world : IO World := do
  let cwd ← here
  return ⟨← read cwd (FileTree.empty.makeDirs cwd), cwd, []⟩

/-- Puts what was written; a file gets its new content in one step. -/
def put (before after : FileTree) : IO Unit := do
  for (path, bytes) in FileTree.writtenFiles [] before after do
    let place := (← IO.currentDir) / ("/" ++ path)
    match place.parent with
    | some dir => IO.FS.createDirAll dir
    | none => pure ()
    let temporary := place.addExtension "tmp"
    IO.FS.writeBinFile temporary bytes
    IO.FS.rename temporary place

/-- The values of the variables that configuration files ask for. -/
def environment (w : World) (named : Option String) : IO (Table String) := do
  let mut names := []
  for file in configFileName :: named.toList do
    match w.tree.bytes? (Path.resolve w.cwd (Path.ofText file)) with
    | some b => names := names ++ ConfigFile.variableNames ((Text.decode? b).getD "").toList
    | none => pure ()
  let mut table := []
  for n in names do
    match ← IO.getEnv n with
    | some v => table := Table.set n v table
    | none => pure ()
  return table

end QueryTypes.Disk

namespace QueryTypes.Terminal

def noConnection (_ : HttpRequest) : Work HttpReply := pure (.failed "connections are not available")

/-- Shows what a command said; a breakdown is told of by its text. -/
def finish (before : World) (r : CommandResult) : IO UInt32 := do
  Disk.put before.tree r.world.tree
  IO.print r.stdout
  IO.eprint r.stderr
  match r.breakdown with
  | some f => IO.eprintln ((f.detail?).getD "The program broke down.")
  | none => pure ()
  return r.status.toUInt32

/-- What is new in a session: files are put on the disk, lines and texts are shown. -/
def show_ (setup : LogSetup) (before : FileTree) (w : WatchedSession) : IO WatchedSession := do
  Disk.put before w.session.world.tree
  for l in setup.onConsole w.session.world.log do
    IO.eprintln l
  IO.print w.said
  (← IO.getStdout).flush
  return { w with said := "", session := { w.session with world := { w.session.world with log := [] } } }

/-- What has changed on the disk. -/
def changes (before after : FileTree) : List Change :=
  (FileTree.writtenFiles [] before after).map (fun f =>
      ⟨if before.has (Path.ofText f.1).segments then "modified" else "added", "/" ++ f.1⟩)
    ++ (FileTree.removedFiles [] before after).map fun p => ⟨"deleted", "/" ++ p⟩

/-- Looks at the disk again and again, until watching is over. -/
partial def watch (p : Plan) (around : Surroundings WatchedSession) (sub : Subscription)
    (key : Option (Task (Except IO.Error String))) (r : WatchRun) (w : WatchedSession) : IO UInt32 := do
  let old := w.session.world
  let w ← show_ p.setup old.tree w
  match r.stage.ending? with
  | some e =>
    let result := CommandResult.ofEnding w.session.world (some e)
    IO.eprint result.stderr
    return result.status.toUInt32
  | none => pure ()
  IO.sleep sub.pause.toUInt32
  let tree ← Disk.read old.cwd (FileTree.empty.makeDirs old.cwd)
  let batch := sub.ordered old.cwd (changes old.tree tree)
  let pressed ← match key with
    | some k => IO.hasFinished k
    | none => pure false
  let leave := if pressed then [Signal.key none] else []
  let signals := batch.map Signal.change ++ [.turn] ++ leave ++ [.proceed]
  let seen := { w with session := { w.session with world := { w.session.world with tree := tree } } }
  let (r, next) := (do WatchedSession.settle around (← r.steps around signals)).run seen
  let shown ← show_ p.setup tree next
  watch p around sub key r shown

def generate (o : GenerateOrder) (before : World) : IO UInt32 := do
  let w := { before with tree := ← o.config.toList.foldlM (Disk.readFile before.cwd) before.tree }
  let env ← Disk.environment w o.config
  match o.plan env w with
  | .error r => finish w (.ofRefusal w r)
  | .ok p =>
    let files := (o.arguments.schemaFiles.map commaList).getD p.client.schema.files
    let w := { w with tree := ← files.foldlM (Disk.readFile w.cwd) w.tree }
    match p.session w, o.watch with
    | .ok s, true =>
      IO.print p.introduction
      let stdin ← IO.getStdin
      let state := p.watchState (← stdin.isTty)
      let around := WatchedSession.surroundings w.cwd (Pipeline.run noConnection Plan.backend p.request)
      let key ← if state.terminal then some <$> IO.asTask stdin.getLine else pure none
      let start := do WatchedSession.settle around (← WatchRun.start around (.ofState state))
      let (r, watched) := start.run (.ofSession s)
      let shown ← show_ p.setup w.tree watched
      watch p around (p.subscription state w) key r shown
    | _, _ => finish w (Program.generate noConnection env o [] w)

end QueryTypes.Terminal

open QueryTypes in
def main (args : List String) : IO UInt32 := do
  let w ← Disk.world
  match Order.ofArgs (Program.isDir w) args with
  | .ok (.generate o) => Terminal.generate o w
  | _ => Terminal.finish w (Program.run Terminal.noConnection [] [] args w)
