import Ymf262.Assignment
import Ymf262.Dump.Files
import Ymf262.Dump.Options
import Ymf262.Dump.Report
import Ymf262.Imf.Replay

/-! A run of the dump. All writes are read before any is applied and before the file is looked
at, and a log is replayed on the chip that they leave. -/
namespace Ymf262.Dump
open Imf

def replayLine (p : Player) : String :=
  "replayed " ++ Text.decimal p.position ++ "/" ++ Text.decimal p.records.length ++
    " writes in " ++ Text.decimal p.time.toNat ++ " ticks"

def format (o : Options) : Format := if o.chunk then .chunk else .raw

def run (files : Files) (o : Options) : Except Error (List String) := do
  let writes ← o.writes.mapM RegisterWrite.parse
  let c := (Chip.fresh .default).writeAll writes
  match o.file with
  | none => pure (report c o.all)
  | some path =>
    let r := Replay.run o.ticks ⟨.start (← load (format o) (files path)), c⟩
    pure (replayLine r.player :: report r.chip o.all)

end Ymf262.Dump
