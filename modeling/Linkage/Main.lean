import Linkage.CommandLine.Program
import Std.Time.DateTime.Timestamp

namespace Linkage.CommandLine

def FileFault.ofError : IO.Error → FileFault
  | .noFileOrDirectory .. => .notFound
  | .alreadyExists .. => .alreadyThere
  | .inappropriateType _ code details =>
    if code = 20 then .notFolder else if code = 21 then .isFolder else .other details
  | .invalidArgument _ code details => if code = 36 then .nameTooLong else .other details
  | e => .other e.toString

/-- An operation at a path, with its error as a value. -/
def guarded {α : Type} (path : String) (act : IO α) : IO (Except FileFault α) := do
  if path.toList.contains '\x00' then return .error .nullInPath
  match ← act.toBaseIO with
  | .ok a => return .ok a
  | .error e => return .error (.ofError e)

def readText (path : String) : IO (Except FileFault String) := do
  let bytes ← guarded path do (← IO.FS.Handle.mk path .read).readBinToEnd
  return bytes.bind fun bytes =>
    match String.fromUTF8? bytes with
    | some s => .ok s
    | none => .error .notText

def isThere (path : String) : IO Bool := do
  match ← guarded path (IO.FS.Handle.mk path .read) with
  | .ok _ => return true
  | .error (.other _) => return true
  | .error _ => return false

def clock : IO Timestamp := do
  let now ← Std.Time.Timestamp.now
  let nanos := now.toNanosecondsSinceUnixEpoch.val
  return ⟨nanos / 1000000000, (nanos % 1000000000).toNat⟩

def accountHome : IO (Option String) := do
  match ← readText "/proc/self/status", ← readText "/etc/passwd" with
  | .ok status, .ok accounts => return (Account.userId? status).bind (Account.homeFolder? accounts)
  | _, _ => return none

/-- The machine as a system with the given environment variables and home folder. -/
def machine (settings : List (String × String)) (home : Option String) : System IO where
  environment name := (settings.find? fun v => v.1 == name).map (·.2)
  accountHome := home
  clock := clock
  exists? := isThere
  isFolder path := isThere (path ++ "/.")
  read := readText
  makeFolder path := guarded path (IO.FS.createDir path)
  write path text := guarded path (IO.FS.writeFile path text)

def settingNames : List String :=
  ["PATHNET_CONFIG", "PATHNET_FIXTURE", "XDG_CONFIG_HOME", "HOME"]

def readSettings : IO (List (String × String)) :=
  settingNames.filterMapM fun name => do
    return (← IO.getEnv name).map fun value => (name, value)

end Linkage.CommandLine

def main (args : List String) : IO UInt32 := do
  let outcome ←
    Linkage.CommandLine.Program.run
      (Linkage.CommandLine.machine (← Linkage.CommandLine.readSettings)
        (← Linkage.CommandLine.accountHome)) args
  IO.print outcome.output.text
  IO.eprint outcome.report
  return outcome.code.toUInt32
