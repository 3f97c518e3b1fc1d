import Dil.Command

namespace Dil

def readText (file : String) : IO (Option String) := do
  try
    return String.fromUTF8? (← IO.FS.readBinFile file)
  catch _ => return none

end Dil

def main (args : List String) : IO UInt32 := do
  match Dil.Command.ofArgs? args with
  | none => return UInt32.ofNat Dil.Status.malformed.code
  | some command =>
    let content ← match command.script? with
      | none => pure none
      | some file => Dil.readText file
    let reply := command.perform content
    IO.print reply.output
    return UInt32.ofNat reply.status.code
