import TealForms.Command
import TealForms.Forms
import TealForms.Report
import TealForms.Table.Bundled

set_option autoImplicit false

namespace TealForms

namespace Dialect

def standard : Dialect := ⟨.bundled, {}⟩

def compile (dialect : Dialect) (source : Source) : Except (Located Fault) Node × Allocations :=
  dialect.parse {} source.start source.scan

example : (standard.compile (.ofString "(pop (+ 1 2))" "sum")).1.toOption.map Node.assembly =
    some "#pragma version 8\nint 1\nint 2\n+\npop\n" := by decide +kernel

example : (standard.compile (.ofString "($x 1) (#case $x (pop $x))" "case")).1.toOption.map Node.assembly =
    some "#pragma version 8\nint 1\nstore 0 // $x\nload 0 // $x\nbz case_0\nload 0 // $x\npop\ncase_0:\n" := by
  decide +kernel

end Dialect

namespace Source

-- The report of a fault in a source that was read up to its first failure.
def report (source : Source) (word : String) (fault : Located Fault) : String :=
  Report.text word fault (source.recorded source.readable)

end Source

end TealForms
