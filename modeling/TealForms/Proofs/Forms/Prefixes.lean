import Mathlib.Data.List.Induction
import TealForms.Proofs.Forms.Grammar

set_option autoImplicit false

namespace TealForms

def Token.isParenthesis (token : Token) : Bool := token.kind = .opening || token.kind = .closing

namespace Form

def Program (tokens : List (Located Token)) : Prop := ∃ forms, ProperAll forms ∧ tokens = tokensAll forms

def Begins (tokens : List (Located Token)) : Prop := ∃ rest, Program (tokens ++ rest)

def bracket (opened : List (Located Token)) (token : Located Token) : List (Located Token) :=
  match token.value.kind with
  | .opening => token :: opened
  | .closing => opened.tail
  | _ => opened

def unmatched (tokens : List (Located Token)) : List (Located Token) := tokens.foldl bracket []

def isDue (tokens : List (Located Token)) : Bool := tokens.getLast?.any fun last => last.value.kind = .opening

-- How deep in its tree the token after others lies: a head at the parentheses open at it, a leaf one deeper.
def depthAfter (front : List (Located Token)) : Nat := (unmatched front).length + if isDue front then 0 else 1

def outline (front : List (Located Token)) : List (Located Token) → List (Nat × Located Token)
  | [] => []
  | token :: rest =>
      if token.value.isParenthesis then outline (front ++ [token]) rest
      else (depthAfter front, token) :: outline (front ++ [token]) rest

def Completes (due : Bool) (depth : Nat) (tokens : List (Located Token)) : Prop :=
  match due with
  | false => Closes depth tokens
  | true => ∃ head rest, tokens = head :: rest ∧ head.value.IsHead ∧ Closes depth rest

def Fits (due : Bool) (opened : List (Located Token)) (token : Located Token) : Prop :=
  match token.value.kind with
  | .opening => due = false
  | .closing => due = false ∧ opened ≠ []
  | .root => False
  | _ => True

theorem unmatched_snoc (front : List (Located Token)) (token : Located Token) :
    unmatched (front ++ [token]) = bracket (unmatched front) token := by
  simp [unmatched]

theorem due_snoc (front : List (Located Token)) (token : Located Token) :
    isDue (front ++ [token]) = decide (token.value.kind = .opening) := by
  simp [isDue]

theorem closes_first (depth : Nat) (token : Located Token) (rest : List (Located Token))
    (closes : Closes depth (token :: rest)) :
    token.value.IsHead ∧ Closes depth rest ∨
    token.value.kind = .opening ∧ Completes true (depth + 1) rest ∨
    token.value.kind = .closing ∧ ∃ outer, depth = outer + 1 ∧ Closes outer rest := by
  -- The token begins a form, unless it ends the innermost group.
  have either : (∃ form later, Proper form ∧ Closes depth later ∧ token :: rest = form.tokens ++ later) ∨
      token.value.kind = .closing ∧ ∃ outer, depth = outer + 1 ∧ Closes outer rest := by
    cases depth with
    | zero =>
        obtain ⟨forms, proper, same⟩ := closes
        cases forms with
        | nil => cases same
        | cons form forms => exact .inl ⟨form, tokensAll forms, proper.1, ⟨forms, proper.2, rfl⟩, same⟩
    | succ outer =>
        obtain ⟨forms, closing, later, proper, shut, ends, same⟩ := closes
        cases forms with
        | nil =>
            cases same
            exact .inr ⟨shut, outer, rfl, ends⟩
        | cons form forms =>
            refine .inl ⟨form, tokensAll forms ++ closing :: later, proper.1, ?_, ?_⟩
            · exact ⟨forms, closing, later, proper.2, shut, ends, rfl⟩
            · rw [same, tokensAll, List.append_assoc]
  rcases either with ⟨form, later, proper, ends, same⟩ | ends
  · cases form with
    | leaf leaf =>
        cases same
        exact .inl ⟨proper, ends⟩
    | group opening head body closing =>
        obtain ⟨opened, named, inside, shut⟩ := proper
        simp only [tokens, List.cons_append, List.append_assoc, List.cons.injEq] at same
        obtain ⟨rfl, rfl⟩ := same
        exact .inr (.inl ⟨opened, head, _, rfl, named, body, closing, later, inside, shut, ends, rfl⟩)
  · exact .inr (.inr ends)

theorem completes_token (due : Bool) (opened : List (Located Token)) (token : Located Token)
    (rest : List (Located Token)) :
    Completes due opened.length (token :: rest) ↔
      Fits due opened token ∧ Completes (token.value.kind = .opening) (bracket opened token).length rest := by
  cases due with
  | true =>
      have head : Completes true opened.length (token :: rest) ↔ token.value.IsHead ∧ Closes opened.length rest := by
        simp [Completes]
      rw [head]
      cases kind : token.value.kind <;> simp [Token.IsHead, Fits, bracket, kind, Completes]
  | false =>
      have first := closes_first opened.length token rest
      cases kind : token.value.kind with
      | opening =>
          simp only [Fits, bracket, kind, true_and, List.length_cons, decide_true]
          refine ⟨fun closes => ?_, ?_⟩
          · simpa [Token.IsHead, kind] using first closes
          · rintro ⟨head, later, rfl, named, closes⟩
            exact closes_group opened.length token head later kind named closes
      | closing =>
          simp only [Fits, bracket, kind, true_and]
          refine ⟨fun closes => ?_, ?_⟩
          · obtain ⟨outer, length, ends⟩ := by simpa [Token.IsHead, kind] using first closes
            obtain ⟨innermost, others, rfl⟩ := List.exists_cons_of_length_eq_add_one length
            cases length
            exact ⟨List.cons_ne_nil _ _, ends⟩
          · rintro ⟨filled, ends⟩
            obtain ⟨innermost, others, rfl⟩ := List.exists_cons_of_ne_nil filled
            exact ⟨[], token, rest, trivial, kind, ends, rfl⟩
      | root =>
          refine ⟨fun closes => ?_, fun fits => by simp [Fits, kind] at fits⟩
          simpa [Token.IsHead, kind] using first closes
      | _ =>
          have named : token.value.IsHead := by simp [Token.IsHead, kind]
          simp only [Fits, bracket, kind, true_and]
          refine ⟨fun closes => ?_, fun closes => closes_form opened.length (.leaf token) rest named closes⟩
          simpa [Token.IsHead, kind, Completes] using first closes

theorem exists_completes (due : Bool) (depth : Nat) : ∃ tokens, Completes due depth tokens := by
  have closed : ∃ tokens, Closes depth tokens := by
    induction depth with
    | zero => exact ⟨[], [], trivial, rfl⟩
    | succ depth ih =>
        obtain ⟨tokens, closes⟩ := ih
        exact ⟨_, [], ⟨⟨.closing, ")"⟩, default⟩, tokens, trivial, rfl, closes, rfl⟩
  obtain ⟨tokens, closes⟩ := closed
  cases due with
  | false => exact ⟨tokens, closes⟩
  | true => exact ⟨⟨⟨.opcode, ""⟩, default⟩ :: tokens, _, tokens, rfl, by simp [Token.IsHead], closes⟩

theorem begins_front (front behind : List (Located Token)) (begins : Begins (front ++ behind)) : Begins front := by
  obtain ⟨rest, program⟩ := begins
  exact ⟨behind ++ rest, by rwa [← List.append_assoc]⟩

theorem program_completes (front rest : List (Located Token)) (begins : Begins front) :
    Program (front ++ rest) ↔ Completes (isDue front) (unmatched front).length rest := by
  induction front using List.reverseRecOn generalizing rest with
  | nil => rfl
  | append_singleton front token ih =>
      have step (rest : List (Located Token)) :
          Program (front ++ [token] ++ rest) ↔ Completes (isDue front) (unmatched front).length (token :: rest) := by
        rw [List.append_assoc]
        exact ih (token :: rest) (begins_front front [token] begins)
      obtain ⟨later, program⟩ := begins
      have fits := ((completes_token _ _ _ _).mp ((step later).mp program)).1
      rw [step, completes_token, due_snoc, unmatched_snoc]
      exact and_iff_right fits

theorem begins_nil : Begins [] := ⟨[], [], trivial, rfl⟩

-- A beginning goes on with the tokens that fit, and with no others.
theorem begins_snoc (front : List (Located Token)) (token : Located Token) (begins : Begins front) :
    Begins (front ++ [token]) ↔ Fits (isDue front) (unmatched front) token := by
  have step (rest : List (Located Token)) :
      Program (front ++ [token] ++ rest) ↔ Completes (isDue front) (unmatched front).length (token :: rest) := by
    rw [List.append_assoc]
    exact program_completes front (token :: rest) begins
  refine ⟨?_, fun fits => ?_⟩
  · rintro ⟨rest, program⟩
    exact ((completes_token _ _ _ _).mp ((step rest).mp program)).1
  · obtain ⟨rest, completes⟩ := exists_completes (token.value.kind = .opening) (bracket (unmatched front) token).length
    exact ⟨rest, (step rest).mpr ((completes_token _ _ _ _).mpr ⟨fits, completes⟩)⟩

theorem exists_unfit (tokens : List (Located Token)) (stuck : ¬ Begins tokens) :
    ∃ front token rest, tokens = front ++ token :: rest ∧ Begins front ∧ ¬ Begins (front ++ [token]) := by
  induction tokens using List.reverseRecOn with
  | nil => exact absurd begins_nil stuck
  | append_singleton front token ih =>
      by_cases begins : Begins front
      · exact ⟨front, token, [], rfl, begins, stuck⟩
      · obtain ⟨earlier, other, rest, rfl, begins, stuck⟩ := ih begins
        exact ⟨earlier, other, rest ++ [token], by simp, begins, stuck⟩

theorem program_iff (tokens : List (Located Token)) (begins : Begins tokens) :
    Program tokens ↔ unmatched tokens = [] := by
  have ends := program_completes tokens [] begins
  rw [List.append_nil] at ends
  rw [ends]
  cases opened : unmatched tokens with
  | nil =>
      have due : isDue tokens = false := by
        cases tokens using List.reverseRecOn with
        | nil => rfl
        | append_singleton front token =>
            rw [unmatched_snoc, bracket] at opened
            rw [due_snoc]
            split at opened
            · cases opened
            · simp_all
            · simp_all
      rw [due]
      exact iff_of_true ⟨[], trivial, rfl⟩ rfl
  | cons innermost others =>
      refine iff_of_false ?_ (List.cons_ne_nil _ _)
      cases isDue tokens with
      | false =>
          rintro ⟨forms, closing, rest, _, _, _, same⟩
          simp at same
      | true =>
          rintro ⟨head, rest, same, _⟩
          cases same

mutual
def layers (depth : Nat) : Form → List (Nat × Located Token)
  | leaf token => [(depth, token)]
  | group _ head body _ => (depth, head) :: layersAll (depth + 1) body
def layersAll (depth : Nat) : List Form → List (Nat × Located Token)
  | [] => []
  | form :: rest => layers depth form ++ layersAll depth rest
end

theorem head_outline (front : List (Located Token)) (token : Located Token) (rest : List (Located Token))
    (named : token.value.IsHead) :
    outline front (token :: rest) = (depthAfter front, token) :: outline (front ++ [token]) rest ∧
      unmatched (front ++ [token]) = unmatched front ∧ isDue (front ++ [token]) = false := by
  obtain ⟨notOpening, notClosing, _⟩ := named
  refine ⟨by simp [outline, Token.isParenthesis, notOpening, notClosing], ?_, by simp [due_snoc, notOpening]⟩
  rw [unmatched_snoc, bracket]
  split <;> simp_all

mutual
theorem form_outline (form : Form) (proper : form.Proper) (front rest : List (Located Token))
    (due : isDue front = false) :
    outline front (form.tokens ++ rest) =
        form.layers ((unmatched front).length + 1) ++ outline (front ++ form.tokens) rest ∧
      unmatched (front ++ form.tokens) = unmatched front ∧ isDue (front ++ form.tokens) = false := by
  cases form with
  | leaf token =>
      have head := head_outline front token rest proper
      rwa [depthAfter, due] at head
  | group opening head body closing =>
      obtain ⟨opened, named, inside, shut⟩ := proper
      have opens : unmatched (front ++ [opening]) = opening :: unmatched front := by
        simp [unmatched_snoc, bracket, opened]
      have waits : isDue (front ++ [opening]) = true := by simp [due_snoc, opened]
      obtain ⟨first, kept, free⟩ := head_outline (front ++ [opening]) head (tokensAll body ++ closing :: rest) named
      obtain ⟨later, still, _⟩ := forms_outline body inside (front ++ [opening] ++ [head]) (closing :: rest) free
      have whole : front ++ (group opening head body closing).tokens =
          front ++ [opening] ++ [head] ++ tokensAll body ++ [closing] := by simp [tokens]
      have depth : depthAfter (front ++ [opening]) = (unmatched front).length + 1 := by simp [depthAfter, opens, waits]
      rw [kept, opens, List.length_cons] at later
      rw [whole, layers, unmatched_snoc, due_snoc, still, kept, opens]
      refine ⟨?_, by simp [bracket, shut], by simp [shut]⟩
      have skip : outline front (opening :: head :: (tokensAll body ++ closing :: rest)) =
          outline (front ++ [opening]) (head :: (tokensAll body ++ closing :: rest)) := by
        simp [outline, Token.isParenthesis, opened]
      have ends : outline (front ++ [opening] ++ [head] ++ tokensAll body) (closing :: rest) =
          outline (front ++ [opening] ++ [head] ++ tokensAll body ++ [closing]) rest := by
        simp [outline, Token.isParenthesis, shut]
      rw [tokens, List.cons_append, List.cons_append, List.append_assoc, List.singleton_append, skip, first, later,
        ends, depth]
      simp
theorem forms_outline (forms : List Form) (proper : ProperAll forms) (front rest : List (Located Token))
    (due : isDue front = false) :
    outline front (tokensAll forms ++ rest) =
        layersAll ((unmatched front).length + 1) forms ++ outline (front ++ tokensAll forms) rest ∧
      unmatched (front ++ tokensAll forms) = unmatched front ∧ isDue (front ++ tokensAll forms) = false := by
  cases forms with
  | nil => simp [tokensAll, layersAll, due]
  | cons form others =>
      obtain ⟨first, kept, free⟩ := form_outline form proper.1 front (tokensAll others ++ rest) due
      obtain ⟨later, still, ends⟩ := forms_outline others proper.2 (front ++ form.tokens) rest free
      rw [kept] at later
      have whole : front ++ tokensAll (form :: others) = front ++ form.tokens ++ tokensAll others := by simp [tokensAll]
      rw [whole, still, kept]
      refine ⟨?_, rfl, ends⟩
      rw [tokensAll, layersAll, List.append_assoc form.tokens, first, later, List.append_assoc (form.layers _)]
end

theorem program_outline (forms : List Form) (proper : ProperAll forms) :
    outline [] (tokensAll forms) = layersAll 1 forms := by
  have outlined := (forms_outline forms proper [] [] rfl).1
  simpa [outline, unmatched] using outlined

end Form

end TealForms
