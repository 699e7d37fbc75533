import TealForms.Proofs.Build.Ledger

set_option autoImplicit false

namespace TealForms

-- A command that takes values from above the floor only. Commands that are no instructions of the table have no height.
def Command.height? (floor height : Nat) : Command → Option Nat
  | .plain instruction _ =>
      if floor + instruction.record.args.length ≤ height then
        some (height - instruction.record.args.length + instruction.record.returns.length)
      else none
  | _ => none

def Command.heightAfter? (floor height : Nat) (commands : List Command) : Option Nat :=
  commands.foldlM (Command.height? floor) height

namespace Node

-- Nodes that emit instructions of the table or nothing.
def isStraight : Node → Bool
  | .mk _ (.opcode _) _ | .mk _ (.literal _) _ | .mk _ (.scratch _) _ | .mk _ .definition _ | .mk _ (.reference _) _
  | .mk _ .comment _ => true
  | _ => false

def Rises (node : Node) : Prop :=
  ∀ floor height, floor ≤ height → Command.heightAfter? floor height node.commands = some (height + node.returns)

theorem all_rise (nodes : List Node) (each : ∀ node ∈ nodes, node.Rises) (floor height : Nat) (above : floor ≤ height) :
    Command.heightAfter? floor height (commandsAll nodes) = some (height + returnsAll nodes) := by
  induction nodes generalizing height with
  | nil => rfl
  | cons node rest ih =>
      have first : Command.heightAfter? floor height node.commands = some (height + node.returns) :=
        each node (by simp) floor height above
      have others := ih (fun other member => each other (by simp [member])) (height + node.returns)
        (Nat.le_trans above (Nat.le_add_right height node.returns))
      rw [Command.heightAfter?] at first others ⊢
      rw [commandsAll, List.foldlM_append, first]
      simpa [returnsAll, Nat.add_assoc] using others

theorem own_rises (children : List Node) (each : ∀ child ∈ children, child.Rises) (instruction : Instruction)
    (comment : Option String) (checked : returnsAll children = instruction.record.args.length)
    (floor height : Nat) (above : floor ≤ height) :
    Command.heightAfter? floor height (commandsAll children ++ [.plain instruction comment]) =
      some (height + instruction.record.returns.length) := by
  have below := all_rise children each floor height above
  have room : floor + instruction.record.args.length ≤ height + instruction.record.args.length :=
    Nat.add_le_add_right above _
  rw [Command.heightAfter?] at below ⊢
  rw [List.foldlM_append, below, checked]
  simp [Command.height?, room]

end Node

namespace Dialect

theorem accepts_sum (dialect : Dialect) (strict : dialect.options.strict = true) (instruction : Instruction)
    (children : List Node) (accepted : dialect.Accepts instruction children) :
    Node.returnsAll children = instruction.record.args.length := by
  have passed := (Option.or_eq_none_iff.mp (accepted strict)).1
  rw [Instruction.stackFault?] at passed
  by_cases same : Node.returnsAll children = instruction.record.args.length
  · exact same
  · simp [same] at passed

theorem literal_sum (dialect : Dialect) (strict : dialect.options.strict = true) (token : Located Token)
    (instruction : Instruction) (children : List Node)
    (built : dialect.Built (.mk token (.literal instruction) children)) :
    Node.returnsAll children = instruction.record.args.length := by
  obtain ⟨before, after, settled⟩ := dialect.built_parts token _ children built
  cases settled with
  | literal name record _ _ accepted => exact dialect.accepts_sum strict _ children accepted

theorem built_rises (dialect : Dialect) (strict : dialect.options.strict = true) (node : Node)
    (built : ∀ other, node.Involves other → dialect.Built other)
    (straight : ∀ other, node.Involves other → other.isStraight = true)
    (checked : ∀ other, node.Involves other → dialect.isExempt other.token.value = false) : node.Rises := by
  induction node using Node.induction with
  | step token kind children ih ihLiteral =>
      have each : ∀ child ∈ children, child.Rises := by
        intro child member
        have inside (other : Node) (reached : child.Involves other) : Node.Involves (.mk token kind children) other :=
          Node.involves_child (.mk token kind children) child other member reached
        exact ih child member (fun other reached => built other (inside other reached))
          (fun other reached => straight other (inside other reached))
          (fun other reached => checked other (inside other reached))
      obtain ⟨before, after, settled⟩ := dialect.built_parts token kind children (built _ .self)
      intro floor height above
      cases kind with
      | opcode instruction =>
          cases settled with
          | opcode record _ _ accepted =>
              have sum := dialect.accepts_sum strict _ children (accepted (checked _ .self))
              exact Node.own_rises children each _ none sum floor height above
      | literal instruction =>
          have sum := dialect.literal_sum strict token instruction children (built _ .self)
          exact Node.own_rises children each _ none sum floor height above
      | scratch instruction =>
          cases settled with
          | load record slot _ _ _ _ accepted =>
              have sum := dialect.accepts_sum strict _ children accepted
              exact Node.own_rises children each _ _ sum floor height above
          | store record slot _ _ _ _ _ accepted =>
              have sum := dialect.accepts_sum strict _ children accepted
              exact Node.own_rises children each _ _ sum floor height above
      | definition => rfl
      | comment => rfl
      | reference bound =>
          have held : ∀ child ∈ bound.children, child.Rises := by
            intro child member
            have inside (other : Node) (reached : child.Involves other) :
                Node.Involves (.mk token (.reference bound) children) other :=
              Node.involves_literal _ child other bound rfl member reached
            exact ihLiteral bound rfl child member (fun other reached => built other (inside other reached))
              (fun other reached => straight other (inside other reached))
              (fun other reached => checked other (inside other reached))
          have literal := built bound.node (.literal _ bound .self rfl)
          have sum := dialect.literal_sum strict bound.token bound.instruction bound.children literal
          exact Node.own_rises bound.children held bound.instruction _ sum floor height above
      | _ => cases straight _ .self

/-- A checked node without macros and labels takes nothing that was on the stack before it, and leaves as many values as
it returns. -/
theorem compiled_node_height (dialect : Dialect) (source : Source) (root : Node) (allocations : Allocations)
    (compiled : dialect.compile source = (.ok root, allocations)) (strict : dialect.options.strict = true) (node : Node)
    (member : node ∈ root.postorder) (straight : ∀ other, node.Involves other → other.isStraight = true)
    (checked : ∀ other, node.Involves other → dialect.isExempt other.token.value = false) (height : Nat) :
    Command.heightAfter? height height node.commands = some (height + node.returns) := by
  have ledger := dialect.compile_ledger source root allocations compiled
  have built (other : Node) (reached : node.Involves other) : dialect.Built other :=
    (ledger_built ledger node other member reached).1
  exact dialect.built_rises strict node built straight checked height height (Nat.le_refl height)

theorem checked_sum_height : ∃ root allocations node,
    standard.compile (.ofString "(pop (+ ($x 1) (@c (5 \x60five\x60)) $x @c))" "sum") = (.ok root, allocations) ∧
    standard.options.strict = true ∧ node ∈ root.postorder ∧
    (∀ other, node.Involves other → other.isStraight = true) ∧
    (∀ other, node.Involves other → standard.isExempt other.token.value = false) ∧
    node.commands.length = 6 ∧
    ∀ height, Command.heightAfter? height height node.commands = some (height + node.returns) := by
  let source : Source := .ofString "(pop (+ ($x 1) (@c (5 \x60five\x60)) $x @c))" "sum"
  obtain ⟨root, allocations, compiled, checked⟩ := standard.compile_checked source
    (fun root => root.postorder.all (fun parent => parent.children.all fun child =>
        child.isStraight && !standard.isExempt child.token.value) &&
      root.children.any fun node => node.commands.length = 6) (by decide +kernel)
  obtain ⟨allowed, found⟩ := Bool.and_eq_true_iff.mp checked
  obtain ⟨node, child, long⟩ := List.any_eq_true.mp found
  have ledger := standard.compile_ledger source root allocations compiled
  have member := root.mem_postorder_child root node root.mem_postorder_self child
  have each (other : Node) (reached : node.Involves other) :
      other.isStraight = true ∧ standard.isExempt other.token.value = false := by
    have below : ∃ parent ∈ root.postorder, other ∈ parent.children := by
      rcases ledger_parent ledger node other member reached with same | below
      · exact ⟨root, root.mem_postorder_self, same ▸ child⟩
      · exact below
    obtain ⟨parent, inside, listed⟩ := below
    simpa using List.all_eq_true.mp (List.all_eq_true.mp allowed parent inside) other listed
  have straight (other : Node) (reached : node.Involves other) := (each other reached).1
  have exempt (other : Node) (reached : node.Involves other) := (each other reached).2
  exact ⟨root, allocations, node, compiled, rfl, member, straight, exempt, of_decide_eq_true long,
    fun height => compiled_node_height standard source root allocations compiled rfl node member straight exempt height⟩

end Dialect

end TealForms
