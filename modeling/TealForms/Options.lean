set_option autoImplicit false

namespace TealForms

-- A marked instruction goes unchecked under `marker`; a variable that is defined again keeps its slot under `reuse`.
structure Options where
  version : Nat := 8
  strict : Bool := true
  marker : Bool := true
  reuse : Bool := true
deriving DecidableEq, Repr

namespace Options

def flags (options : Options) : List String :=
  (if options.strict then ["STRICT"] else []) ++ (if options.marker then ["NONSTRICT_MARKER"] else []) ++
    if options.reuse then ["REUSE_SCRATCH"] else []

def flagsText (options : Options) : String :=
  match options.flags with
  | [] => "(empty)"
  | flags => " | ".intercalate flags

end Options

end TealForms
