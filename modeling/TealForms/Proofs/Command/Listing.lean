import TealForms.Proofs.Command.Accesses

set_option autoImplicit false

namespace TealForms

namespace Command

def instructionLines (commands : List Command) : List Line := (instructions commands).map line

theorem instruction_lines_append (first second : List Command) :
    instructionLines (first ++ second) = instructionLines first ++ instructionLines second := by
  rw [instructionLines, instructions_append, List.map_append]
  rfl

end Command

namespace Node

mutual
def uncovered : Node → List Node
  | .mk token .comment children => [.mk token .comment children]
  | .mk token .definition children => [.mk token .definition children]
  | .mk token kind children => uncoveredAll children ++ [.mk token kind children]
def uncoveredAll : List Node → List Node
  | [] => []
  | node :: rest => uncovered node ++ uncoveredAll rest
end

def isStatement : Node → Bool
  | .mk _ (.opcode _) _ | .mk _ (.literal _) _ | .mk _ (.scratch _) _ | .mk _ (.reference _) _ => true
  | _ => false

def statements (nodes : List Node) : List Node := (uncoveredAll nodes).filter isStatement

def statement? (node : Node) : Option Line :=
  node.instruction?.map fun instruction => .instruction instruction.statement node.doc?

mutual
def listing : Node → List Line
  | .mk _ .comment _ | .mk _ .definition _ => []
  | .mk token (.reference ⟨_, instruction, below⟩) children =>
      listingAll children ++ (listingAll below ++ [.instruction instruction.statement (some token.value.text)])
  | .mk token kind children => listingAll children ++ (statement? (.mk token kind children)).toList
def listingAll : List Node → List Line
  | [] => []
  | node :: rest => listing node ++ listingAll rest
end

-- A reference stands for the listing of what is below its literal and then for the literal.
def contribution : Node → List Line
  | .mk token (.reference bound) _ =>
      listingAll bound.children ++ [.instruction bound.instruction.statement (some token.value.text)]
  | node => node.statement?.toList

theorem statements_cons (node : Node) (rest : List Node) :
    statements (node :: rest) = statements [node] ++ statements rest := by
  simp [statements, uncoveredAll]

theorem statements_own (token : Located Token) (kind : Kind Node) (children : List Node) (visible : kind ≠ .comment)
    (emitted : kind ≠ .definition) :
    statements [.mk token kind children] =
      statements children ++ [.mk token kind children].filter isStatement := by
  cases kind with
  | comment => exact absurd rfl visible
  | definition => exact absurd rfl emitted
  | _ => simp [statements, uncoveredAll, uncovered]

theorem filter_contribution (node : Node) : ([node].filter isStatement).flatMap contribution = contribution node := by
  obtain ⟨token, kind, children⟩ := node
  cases kind with
  | reference bound => exact List.append_nil _
  | _ => rfl

theorem listing_own (token : Located Token) (kind : Kind Node) (children : List Node) (visible : kind ≠ .comment)
    (emitted : kind ≠ .definition) :
    listing (.mk token kind children) = listingAll children ++ contribution (.mk token kind children) := by
  cases kind with
  | comment => exact absurd rfl visible
  | definition => exact absurd rfl emitted
  | _ => simp [listing, contribution]

mutual
theorem listing_statements (node : Node) : listing node = (statements [node]).flatMap contribution := by
  match node with
  | .mk _ .comment _ | .mk _ .definition _ => rfl
  | .mk token (.root _) children | .mk token (.opcode _) children | .mk token (.literal _) children
  | .mk token (.scratch _) children | .mk token (.reference _) children | .mk token .label children
  | .mk token (.case _) children | .mk token (.choice _) children | .mk token (.loop _) children
  | .mk token .group children | .mk token .transaction children =>
      rw [listing_own token _ children (by simp) (by simp), statements_own token _ children (by simp) (by simp),
        List.flatMap_append, filter_contribution, listing_all_statements children]
theorem listing_all_statements (nodes : List Node) : listingAll nodes = (statements nodes).flatMap contribution := by
  match nodes with
  | [] => rfl
  | node :: rest =>
      rw [listingAll, statements_cons, List.flatMap_append, listing_statements node, listing_all_statements rest]
end

theorem comments_listing (children : List Node) (comments : significant children = []) : listingAll children = [] := by
  induction children with
  | nil => rfl
  | cons node rest ih =>
      by_cases comment : node.isComment = true
      · rw [significant_comment node rest comment] at comments
        rw [listingAll, ih comments, List.append_nil]
        obtain ⟨token, kind, below⟩ := node
        cases kind with
        | comment => rfl
        | _ => cases comment
      · rw [significant_other node rest comment] at comments
        cases comments

theorem own_statement (token : Located Token) (kind : Kind Node) (children : List Node)
    (direct : ∀ bound, kind ≠ .reference bound) :
    Command.instructionLines (own (.mk token kind children)) = contribution (.mk token kind children) := by
  cases kind with
  | reference bound => exact absurd rfl (direct bound)
  | _ => rfl

theorem instruction_lines_all (nodes : List Node)
    (each : ∀ node ∈ nodes, Command.instructionLines (commands node) = listing node) :
    Command.instructionLines (commandsAll nodes) = listingAll nodes := by
  induction nodes with
  | nil => rfl
  | cons node rest ih =>
      rw [commandsAll, listingAll, Command.instruction_lines_append, each node (by simp),
        ih fun other member => each other (by simp [member])]

theorem commands_listing (node : Node) (regular : ∀ other, node.Involves other → other.Regular)
    (bare : ∀ other bound, node.Involves other → other.kind = .reference bound → significant other.children = []) :
    Command.instructionLines node.commands = node.listing := by
  induction node using induction with
  | step token kind children ih ihLiteral =>
      have below : Command.instructionLines (commandsAll children) = listingAll children := by
        refine instruction_lines_all children fun child member => ih child member ?_ ?_
        · exact fun other reached => regular other (involves_child (.mk token kind children) child other member reached)
        · exact fun other bound reached =>
            bare other bound (involves_child (.mk token kind children) child other member reached)
      cases kind with
      | comment => rfl
      | definition => rfl
      | reference bound =>
          have held : Command.instructionLines (commandsAll bound.children) = listingAll bound.children := by
            refine instruction_lines_all bound.children fun child member => ihLiteral bound rfl child member ?_ ?_
            · exact fun other reached => regular other (involves_literal _ child other bound rfl member reached)
            · exact fun other found reached =>
                bare other found (involves_literal _ child other bound rfl member reached)
          rw [commands, listing, comments_listing children (bare _ bound .self rfl),
            Command.instruction_lines_append, held]
          rfl
      | _ =>
          have parts := instructions_own token _ children (regular _ .self) (by simp) (by simp) (by simp)
          rw [listing_own token _ children (by simp) (by simp), Command.instructionLines, parts, List.map_append]
          exact congrArg₂ (· ++ ·) below (own_statement token _ children (by simp))

end Node

namespace Dialect

theorem built_bare (dialect : Dialect) (node : Node) (bound : Literal Node) (built : dialect.Built node)
    (refers : node.kind = .reference bound) : Node.significant node.children = [] := by
  obtain ⟨before, after, settled⟩ := built
  rw [refers] at settled
  cases settled with
  | reference _ _ bare => exact bare

/-- What the program itself says is emitted once for each of its statements and in their order, and nothing else is: a
reference gives the statements below its literal, listed the same way, and then the literal under its own name. -/
theorem compiled_listing (dialect : Dialect) (source : Source) (root : Node) (after : Allocations)
    (compiled : dialect.compile source = (.ok root, after)) :
    (Command.instructions root.commands).map Command.line = (Node.statements [root]).flatMap Node.contribution ∧
    ∀ nodes, Node.listingAll nodes = (Node.statements nodes).flatMap Node.contribution := by
  have ledger := dialect.compile_ledger source root after compiled
  refine ⟨?_, Node.listing_all_statements⟩
  rw [← root.listing_statements]
  refine root.commands_listing (ledger_regular ledger) fun other bound reached refers => ?_
  exact dialect.built_bare other bound (ledger_built ledger root other root.mem_postorder_self reached).1 refers

theorem repeated_store_listed : ∃ root after,
    standard.compile (.ofString
      "(@c (1 `n` ($x 2))) (#in (#case @c ($y @c)) (#case 0 (pop $x))) (`t` (pop 3))" "listed") = (.ok root, after) ∧
    (Node.statements [root]).flatMap Node.contribution =
      [.instruction "int 2" none, .store 0 "$x", .instruction "int 1" (some "@c"),
        .instruction "int 2" none, .store 0 "$x", .instruction "int 1" (some "@c"), .store 1 "$y",
        .instruction "int 0" none, .load 0 "$x", .instruction "pop" none] := by
  obtain ⟨root, after, compiled, checked⟩ := standard.compile_checked
    (.ofString "(@c (1 `n` ($x 2))) (#in (#case @c ($y @c)) (#case 0 (pop $x))) (`t` (pop 3))" "listed")
    (fun root => Command.instructionLines root.commands =
      [.instruction "int 2" none, .store 0 "$x", .instruction "int 1" (some "@c"),
        .instruction "int 2" none, .store 0 "$x", .instruction "int 1" (some "@c"), .store 1 "$y",
        .instruction "int 0" none, .load 0 "$x", .instruction "pop" none])
    (by decide +kernel)
  have listed := (compiled_listing standard _ root after compiled).1
  exact ⟨root, after, compiled, listed.symm.trans (of_decide_eq_true checked)⟩

end Dialect

end TealForms
