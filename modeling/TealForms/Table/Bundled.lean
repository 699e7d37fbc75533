import TealForms.Table.Bundled.Arithmetic
import TealForms.Table.Bundled.Bytes
import TealForms.Table.Bundled.Fields
import TealForms.Table.Bundled.Flow
import TealForms.Table.Bundled.Loading
import TealForms.Table.Bundled.State
import TealForms.Table.Bundled.Transactions

set_option autoImplicit false

namespace TealForms.Table

def bundled : Table where
  version := 8
  records :=
    Bundled.arithmetic ++ Bundled.bytes ++ Bundled.flow ++ Bundled.loading ++ Bundled.state ++ Bundled.transactions
  groups := Bundled.fieldGroups

end TealForms.Table
