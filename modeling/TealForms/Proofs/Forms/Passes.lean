import TealForms.Compile
import TealForms.Proofs.Build.Ledger
import TealForms.Proofs.Build.Failed
import TealForms.Proofs.Forms.Prefixes

set_option autoImplicit false

namespace TealForms

namespace Form

structure Unclosed where
  opening : Located Token
  head : Located Token
  front : List Form

-- Perhaps a parenthesis waits for its head; then come the open groups from the innermost out, and what the innermost
-- one holds, newest first.
structure Brackets where
  pending : Option (Located Token) := none
  groups : List Unclosed := []
  held : List Form := []

def Brackets.place (brackets : Brackets) (token : Located Token) : Option Brackets :=
  match brackets.pending, token.value.kind with
  | some _, .opening | some _, .closing | _, .root => none
  | some opening, _ => some { groups := ⟨opening, token, brackets.held⟩ :: brackets.groups }
  | none, .opening => some { brackets with pending := some token }
  | none, .closing =>
      match brackets.groups with
      | [] => none
      | innermost :: outer =>
          some ⟨none, outer, .group innermost.opening innermost.head brackets.held.reverse token :: innermost.front⟩
  | none, _ => some { brackets with held := .leaf token :: brackets.held }

def read (tokens : List (Located Token)) : Option (List Form) :=
  match tokens.foldlM Brackets.place {} with
  | some ⟨none, [], held⟩ => some held.reverse
  | _ => none

-- A node that is due: its token, and how many of the nodes built last are its children.
structure Task where
  token : Located Token
  children : Nat

mutual
def tasks : Form → List Task
  | leaf token => [⟨token, 0⟩]
  | group _ head body _ => tasksAll body ++ [⟨head, body.length⟩]
def tasksAll : List Form → List Task
  | [] => []
  | form :: rest => tasks form ++ tasksAll rest
end

def programTasks (start : Location) (forms : List Form) : List Task :=
  tasksAll forms ++ [⟨⟨.root, start⟩, forms.length⟩]

section

variable (groups : List Unclosed) (held : List Form) (token : Located Token)

theorem place_leaf (named : token.value.IsHead) :
    Brackets.place ⟨none, groups, held⟩ token = some ⟨none, groups, .leaf token :: held⟩ := by
  obtain ⟨notOpening, notClosing, notRoot⟩ := named
  rw [Brackets.place]
  cases kind : token.value.kind <;> simp_all

theorem place_head (opening : Located Token) (named : token.value.IsHead) :
    Brackets.place ⟨some opening, groups, held⟩ token = some ⟨none, ⟨opening, token, held⟩ :: groups, []⟩ := by
  obtain ⟨notOpening, notClosing, notRoot⟩ := named
  rw [Brackets.place]
  cases kind : token.value.kind <;> simp_all

theorem place_opening (opened : token.value.kind = .opening) :
    Brackets.place ⟨none, groups, held⟩ token = some ⟨some token, groups, held⟩ := by
  simp [Brackets.place, opened]

theorem place_closing (innermost : Unclosed) (shut : token.value.kind = .closing) :
    Brackets.place ⟨none, innermost :: groups, held⟩ token =
      some ⟨none, groups, .group innermost.opening innermost.head held.reverse token :: innermost.front⟩ := by
  simp [Brackets.place, shut]

end

mutual
theorem place_form (form : Form) (proper : form.Proper) (groups : List Unclosed) (held : List Form) :
    form.tokens.foldlM Brackets.place ⟨none, groups, held⟩ = some ⟨none, groups, form :: held⟩ := by
  cases form with
  | leaf token =>
      rw [tokens, List.foldlM_cons, place_leaf groups held token proper]
      rfl
  | group opening head body closing =>
      obtain ⟨opened, named, inside, shut⟩ := proper
      rw [tokens, List.foldlM_cons, place_opening groups held opening opened]
      show (head :: (tokensAll body ++ [closing])).foldlM Brackets.place ⟨some opening, groups, held⟩ = _
      rw [List.foldlM_cons, place_head groups held head opening named]
      show (tokensAll body ++ [closing]).foldlM Brackets.place ⟨none, ⟨opening, head, held⟩ :: groups, []⟩ = _
      rw [List.foldlM_append, place_forms body inside]
      show [closing].foldlM Brackets.place ⟨none, ⟨opening, head, held⟩ :: groups, body.reverse ++ []⟩ = _
      rw [List.foldlM_cons, place_closing groups _ closing _ shut, List.append_nil, List.reverse_reverse]
      rfl
theorem place_forms (forms : List Form) (proper : ProperAll forms) (groups : List Unclosed) (held : List Form) :
    (tokensAll forms).foldlM Brackets.place ⟨none, groups, held⟩ = some ⟨none, groups, forms.reverse ++ held⟩ := by
  cases forms with
  | nil => rfl
  | cons form others =>
      rw [tokensAll, List.foldlM_append, place_form form proper.1]
      show (tokensAll others).foldlM Brackets.place ⟨none, groups, form :: held⟩ = _
      rw [place_forms others proper.2]
      simp
end

theorem read_tokens (forms : List Form) (proper : ProperAll forms) : read (tokensAll forms) = some forms := by
  rw [read, place_forms forms proper [] []]
  simp

mutual
theorem tasks_tokens (form : Form) (proper : form.Proper) :
    (form.tasks.map Task.token).Perm (form.tokens.filter fun token => !token.value.isParenthesis) := by
  cases form with
  | leaf token =>
      obtain ⟨notOpening, notClosing, _⟩ := proper
      simp [tasks, tokens, Token.isParenthesis, notOpening, notClosing]
  | group opening head body closing =>
      obtain ⟨opened, ⟨notOpening, notClosing, _⟩, inside, shut⟩ := proper
      have below := tasks_all_tokens body inside
      have own : (tokens (group opening head body closing)).filter (fun token => !token.value.isParenthesis) =
          head :: (tokensAll body).filter fun token => !token.value.isParenthesis := by
        simp [tokens, Token.isParenthesis, opened, shut, notOpening, notClosing]
      rw [own, tasks, List.map_append]
      exact (List.perm_append_singleton head _).trans (below.cons head)
theorem tasks_all_tokens (forms : List Form) (proper : ProperAll forms) :
    ((tasksAll forms).map Task.token).Perm ((tokensAll forms).filter fun token => !token.value.isParenthesis) := by
  cases forms with
  | nil => exact .nil
  | cons form rest =>
      rw [tasksAll, tokensAll, List.map_append, List.filter_append]
      exact (tasks_tokens form proper.1).append (tasks_all_tokens rest proper.2)
end

end Form

namespace Dialect

-- Tasks one after the other, up to the first failure. The nodes made so far are kept newest first.
def assemble (dialect : Dialect) (made : List Node) (before : Allocations) : List Form.Task → Outcome (List Node)
  | [] => (.ok made, before)
  | task :: rest =>
      andThen (dialect.build before task.token (made.take task.children).reverse) fun node after =>
        dialect.assemble (node :: made.drop task.children) after rest

section

variable (dialect : Dialect)

theorem assemble_append (made : List Node) (before : Allocations) (first second : List Form.Task) :
    dialect.assemble made before (first ++ second) =
      andThen (dialect.assemble made before first) fun nodes after => dialect.assemble nodes after second := by
  induction first generalizing made before with
  | nil => rfl
  | cons task rest ih =>
      rw [List.cons_append, assemble, assemble, then_assoc]
      exact congrArg _ (funext fun node => funext fun after => ih _ after)

-- The children of a node are the nodes made last, and nothing else that was made is touched.
theorem assemble_task (made nodes : List Node) (before : Allocations) (token : Located Token)
    (rest : List Form.Task) :
    dialect.assemble (nodes.reverse ++ made) before (⟨token, nodes.length⟩ :: rest) =
      andThen (dialect.build before token nodes) fun node after => dialect.assemble (node :: made) after rest := by
  have length : nodes.reverse.length = nodes.length := List.length_reverse
  rw [assemble, List.take_left' length, List.drop_left' length, List.reverse_reverse]

theorem construct_length (forms : List Form) (before after : Allocations) (nodes : List Node)
    (made : dialect.constructAll before forms = (.ok nodes, after)) : nodes.length = forms.length := by
  induction forms generalizing before nodes with
  | nil =>
      cases made
      rfl
  | cons form rest ih =>
      obtain ⟨node, middle, _, behind⟩ := then_ok _ _ _ _ made
      obtain ⟨others, _, second, same⟩ := then_ok _ _ _ _ behind
      cases same
      rw [List.length_cons, List.length_cons, ih middle others second]

mutual
theorem assemble_form (form : Form) (made : List Node) (before : Allocations) (rest : List Form.Task) :
    dialect.assemble made before (form.tasks ++ rest) =
      andThen (dialect.construct before form) fun node after => dialect.assemble (node :: made) after rest := by
  cases form with
  | leaf token => rfl
  | group opening head body closing =>
      rw [Form.tasks, List.append_assoc, assemble_forms body made before, construct, then_assoc]
      have inside (nodes : List Node) (after : Allocations) (built : dialect.constructAll before body = (.ok nodes, after)) :
          dialect.assemble (nodes.reverse ++ made) after ([⟨head, body.length⟩] ++ rest) =
            andThen (dialect.build after head nodes) fun node later => dialect.assemble (node :: made) later rest := by
        rw [← dialect.construct_length body before after nodes built]
        exact dialect.assemble_task made nodes after head rest
      rcases built : dialect.constructAll before body with ⟨fault | nodes, after⟩
      · rfl
      · exact inside nodes after built
theorem assemble_forms (forms : List Form) (made : List Node) (before : Allocations) (rest : List Form.Task) :
    dialect.assemble made before (Form.tasksAll forms ++ rest) =
      andThen (dialect.constructAll before forms) fun nodes after =>
        dialect.assemble (nodes.reverse ++ made) after rest := by
  cases forms with
  | nil => rfl
  | cons form others =>
      rw [Form.tasksAll, List.append_assoc, assemble_form form made before, constructAll, then_assoc]
      refine congrArg _ (funext fun node => funext fun after => ?_)
      rw [assemble_forms others (node :: made) after, then_assoc]
      refine congrArg _ (funext fun nodes => funext fun later => ?_)
      simp [andThen]
end

theorem assemble_program (forms : List Form) (before : Allocations) (start : Location) :
    dialect.assemble [] before (Form.programTasks start forms) =
      andThen (andThen (dialect.constructAll before forms) fun nodes after =>
        dialect.build after ⟨.root, start⟩ nodes) fun root after => (.ok [root], after) := by
  rw [Form.programTasks, dialect.assemble_forms forms [] before, then_assoc]
  rcases built : dialect.constructAll before forms with ⟨fault | nodes, after⟩
  · rfl
  · have task := dialect.assemble_task [] nodes after ⟨.root, start⟩ []
    rw [dialect.construct_length forms before after nodes built] at task
    exact task

theorem build_place (before after : Allocations) (token : Located Token) (children : List Node)
    (fault : Located Fault) (failed : dialect.build before token children = (.error fault, after)) :
    fault.location = token.location :=
  ((dialect.build_error before token children fault).mp (congrArg Prod.fst failed)).2

theorem assemble_error (tasks : List Form.Task) (made : List Node) (before after : Allocations)
    (fault : Located Fault) :
    dialect.assemble made before tasks = (.error fault, after) ↔
      ∃ earlier task later nodes middle, tasks = earlier ++ task :: later ∧
        dialect.assemble made before earlier = (.ok nodes, middle) ∧
        dialect.build middle task.token (nodes.take task.children).reverse = (.error fault, after) ∧
        fault.location = task.token.location := by
  constructor
  · intro failed
    induction tasks generalizing made before with
    | nil => cases failed
    | cons task rest ih =>
        rw [assemble] at failed
        rcases built : dialect.build before task.token (made.take task.children).reverse with ⟨found | node, middle⟩
        · rw [built] at failed
          cases failed
          exact ⟨[], task, rest, made, before, rfl, rfl, built, dialect.build_place _ _ _ _ fault built⟩
        · rw [built] at failed
          obtain ⟨earlier, broken, later, nodes, left, rfl, done, refused⟩ := ih _ middle failed
          refine ⟨task :: earlier, broken, later, nodes, left, rfl, ?_, refused⟩
          rw [assemble, built]
          exact done
  · rintro ⟨earlier, task, later, nodes, middle, rfl, done, refused, _⟩
    rw [assemble_append, done]
    show dialect.assemble nodes middle (task :: later) = _
    rw [assemble, refused]
    rfl

end

/-- Reading a program and validating it at once is reading its parentheses first and then building its nodes, each after
those below it. Both ways give the same tree or the fault of the first node in this order that breaks a rule, and leave
the same allocations. -/
theorem parse_assembles (dialect : Dialect) (before : Allocations) (start : Location) (tokens : List (Located Token))
    (program : Form.Program tokens) :
    ∃ forms, Form.read tokens = some forms ∧ Form.ProperAll forms ∧ tokens = Form.tokensAll forms ∧
      ((Form.tasksAll forms).map Form.Task.token).Perm (tokens.filter fun token => !token.value.isParenthesis) ∧
      let parsed := dialect.parse before start (tokens.map .ok)
      let tasks := Form.programTasks start forms
      (∀ root after, parsed = (.ok root, after) ↔ dialect.assemble [] before tasks = (.ok [root], after)) ∧
      (∀ fault after, parsed = (.error fault, after) ↔ dialect.assemble [] before tasks = (.error fault, after)) ∧
      ∀ fault after, parsed = (.error fault, after) ↔
        ∃ earlier task later made middle, tasks = earlier ++ task :: later ∧
          dialect.assemble [] before earlier = (.ok made, middle) ∧
          dialect.build middle task.token (made.take task.children).reverse = (.error fault, after) ∧
          fault.location = task.token.location := by
  obtain ⟨forms, proper, rfl⟩ := program
  refine ⟨forms, Form.read_tokens forms proper, proper, rfl, Form.tasks_all_tokens forms proper, ?_⟩
  intro parsed tasks
  have both : dialect.assemble [] before tasks = andThen parsed fun root after => (.ok [root], after) := by
    rw [dialect.assemble_program forms before start, ← dialect.parse_construct forms proper before start]
  have fails (fault : Located Fault) (after : Allocations) :
      parsed = (.error fault, after) ↔ dialect.assemble [] before tasks = (.error fault, after) := by
    rw [both]
    rcases parsed with ⟨found | tree, left⟩ <;> simp [andThen]
  refine ⟨?_, fails, fun fault after => (fails fault after).trans (dialect.assemble_error tasks [] before after fault)⟩
  intro root after
  rw [both]
  rcases parsed with ⟨found | tree, left⟩ <;> simp [andThen]

theorem missing_variable_first :
    let token (kind : TokenKind) (text : String) : Located Token := ⟨⟨kind, text⟩, default⟩
    let one := token .integer "1"
    let stored := token .scratch "$x"
    let missing := token .scratch "$y"
    let sum := token .opcode "+"
    let constant := token .constant "@c"
    let tokens := [token .opening "(", stored, one, token .closing ")", token .opening "(", constant, token .opening "(",
      sum, stored, missing, token .closing ")", token .closing ")"]
    let tasks : List Form.Task :=
      [⟨one, 0⟩, ⟨stored, 1⟩, ⟨stored, 0⟩, ⟨missing, 0⟩, ⟨sum, 2⟩, ⟨constant, 1⟩, ⟨⟨.root, default⟩, 2⟩]
    Form.Program tokens ∧ ∃ fault after, fault.value = .scratchNotFound "$y" ∧ after.scratch = ["$x"] ∧
      standard.parse {} default (tokens.map .ok) = (.error fault, after) ∧
      standard.assemble [] {} tasks = (.error fault, after) := by
  intro token one stored missing sum constant tokens tasks
  let group (head : Located Token) (body : List Form) : Form := .group (token .opening "(") head body (token .closing ")")
  let forms := [group stored [.leaf one], group constant [group sum [.leaf stored, .leaf missing]]]
  have proper : Form.ProperAll forms := by
    simp [forms, group, token, one, stored, missing, sum, constant, Form.ProperAll, Form.Proper, Token.IsHead]
  have program : Form.Program tokens := ⟨forms, proper, rfl⟩
  obtain ⟨found, read, _, _, _, _, fails, _⟩ := standard.parse_assembles {} default tokens program
  obtain rfl : forms = found := Option.some.inj ((Form.read_tokens forms proper).symm.trans read)
  obtain ⟨fault, after, failed, checked⟩ := standard.parse_refused {} default (tokens.map .ok)
    (fun fault => fault.value = .scratchNotFound "$y") (by decide +kernel)
  have kept : (standard.parse {} default (tokens.map .ok)).2.scratch = ["$x"] := by decide +kernel
  rw [failed] at kept
  exact ⟨program, fault, after, of_decide_eq_true checked, kept, failed, (fails fault after).mp failed⟩

end Dialect

end TealForms
