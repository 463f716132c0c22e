import FlatLisp.Proofs.Layout

/-!
Reading one form is local: it is decided by the tokens up to the one with which
the form is complete or which is at fault, and what stands behind them is
neither looked at nor touched. Until then reading only goes on from one stack
of open lists to another, and nothing is complete. So a form has no shorter
form at its start, and more tokens behind it make no difference.
-/

namespace FlatLisp.Form

/-- Tokens that are read without an end of the form, from one stack of open
lists to another. -/
inductive Resumes : List (List Form) → List Token → List (List Form) → Prop where
  | nil {stack : List (List Form)} : Resumes stack [] stack
  | cons {stack between next : List (List Form)} {token : Token} {rest : List Token}
      (first : step stack token = .resume between) (others : Resumes between rest next) :
      Resumes stack (token :: rest) next

section

variable {stack next : List (List Form)} {tokens first second : List Token}

/-- Reading goes on behind such tokens as it does with the stack that they
leave. -/
theorem Resumes.parseFrom_append (h : Resumes stack tokens next) (more : List Token) :
    parseFrom stack (tokens ++ more) = parseFrom next more := by
  induction h with
  | nil => rfl
  | cons hfirst _ ih =>
      rw [List.cons_append, parseFrom_cons, hfirst]
      exact ih

/-- If a form is still under way at some point, it was under way at every point
before. -/
theorem Resumes.left (h : Resumes stack (first ++ second) next) :
    ∃ between, Resumes stack first between := by
  induction first generalizing stack with
  | nil => exact ⟨stack, .nil⟩
  | cons token rest ih =>
      cases h with
      | cons hfirst hothers =>
          obtain ⟨between, hrest⟩ := ih hothers
          exact ⟨between, .cons hfirst hrest⟩

/-- None of these tokens is at fault, and the level that they leave is that of
the stack. -/
theorem Resumes.clear (h : Resumes stack tokens next) :
    Token.firstFault stack.length tokens = none ∧
      Token.finalLevel stack.length tokens = next.length := by
  induction h with
  | nil => exact ⟨rfl, rfl⟩
  | @cons stack between next token rest hfirst _ ih =>
      have hstep := stepSpec_step stack token
      rw [hfirst] at hstep
      cases hstep with
      | resume hvalid hlevel _ _ =>
          rw [hlevel] at ih
          rw [Token.firstFault_cons hvalid]
          exact ih

theorem ne_nil_of_step {token : Token} (h : step stack token = .resume next) : next ≠ [] := by
  rintro rfl
  have hstep := stepSpec_step stack token
  rw [h] at hstep
  cases hstep with
  | resume _ _ _ hlayout => simp [openPieces] at hlayout

theorem Resumes.ne_nil (h : Resumes stack tokens next) (hnonempty : tokens ≠ []) : next ≠ [] := by
  induction h with
  | nil => exact absurd rfl hnonempty
  | @cons _ _ _ _ rest hfirst hothers ih =>
      cases rest with
      | nil =>
          cases hothers
          exact ne_nil_of_step hfirst
      | cons token more => exact ih (List.cons_ne_nil token more)

end

/-- How reading one form comes to its end: with a token that completes a form,
with one that is at fault, or with the last token there is. -/
inductive Reads (stack : List (List Form)) : List Token → Parse → Prop where
  | complete {before rest : List Token} {token : Token} {next : List (List Form)} {form : Form}
      (running : Resumes stack before next) (last : step next token = .complete form) :
      Reads stack (before ++ token :: rest) (.ok (some form), rest)
  | fail {before rest : List Token} {token : Token} {next : List (List Form)} {fault : Fault}
      (running : Resumes stack before next) (last : step next token = .fail fault) :
      Reads stack (before ++ token :: rest) (.error fault, rest)
  | exhaust {tokens : List Token} {next : List (List Form)} (running : Resumes stack tokens next) :
      Reads stack tokens (if next.isEmpty then .ok none else .error .unmatchedOpen, [])

theorem Reads.cons {stack between : List (List Form)} {token : Token} {tokens : List Token}
    {result : Parse} (hfirst : step stack token = .resume between)
    (h : Reads between tokens result) : Reads stack (token :: tokens) result := by
  cases h with
  | complete hrunning hlast => exact .complete (.cons hfirst hrunning) hlast
  | fail hrunning hlast => exact .fail (.cons hfirst hrunning) hlast
  | exhaust hrunning => exact .exhaust (.cons hfirst hrunning)

/-- Reading always ends in one of the three ways. -/
theorem reads_parseFrom (stack : List (List Form)) (tokens : List Token) :
    Reads stack tokens (parseFrom stack tokens) := by
  induction tokens generalizing stack with
  | nil => exact .exhaust .nil
  | cons token rest ih =>
      rw [parseFrom_cons]
      cases hstep : step stack token with
      | resume between => exact (ih between).cons hstep
      | complete form => exact @Reads.complete stack [] rest token stack form .nil hstep
      | fail fault => exact @Reads.fail stack [] rest token stack fault .nil hstep

section

variable {tokens rest : List Token} {form : Form} {fault : Fault}

/-- A form is complete with one token, up to which it was under way; the tokens
behind it are left. -/
theorem exists_of_parse_form (h : parse tokens = (.ok (some form), rest)) :
    ∃ before token next, tokens = before ++ token :: rest ∧ Resumes [] before next ∧
      step next token = .complete form := by
  have hreads := reads_parseFrom [] tokens
  rw [← parse, h] at hreads
  generalize hresult : (Except.ok (some form), rest) = result at hreads
  cases hreads with
  | complete hrunning hlast =>
      cases hresult
      exact ⟨_, _, _, rfl, hrunning, hlast⟩
  | fail _ _ => cases hresult
  | exhaust _ => split at hresult <;> cases hresult

/-- Reading fails at one token, behind which all are left, or the tokens end
inside a list and none is left. -/
theorem exists_of_parse_fault (h : parse tokens = (.error fault, rest)) :
    (∃ before token next, tokens = before ++ token :: rest ∧ Resumes [] before next ∧
        step next token = .fail fault) ∨
      fault = .unmatchedOpen ∧ rest = [] ∧ ∃ next, next ≠ [] ∧ Resumes [] tokens next := by
  have hreads := reads_parseFrom [] tokens
  rw [← parse, h] at hreads
  generalize hresult : (Except.error fault, rest) = result at hreads
  cases hreads with
  | complete _ _ => cases hresult
  | fail hrunning hlast =>
      cases hresult
      exact .inl ⟨_, _, _, rfl, hrunning, hlast⟩
  | @exhaust _ next hrunning =>
      cases next with
      | nil => cases hresult
      | cons inner outer =>
          cases hresult
          exact .inr ⟨rfl, rfl, _, List.cons_ne_nil inner outer, hrunning⟩

/-- The token at which a sequence goes wrong: the first one that is at fault
inside the lists that are open before it. -/
structure Offends (before : List Token) (token : Token) (fault : Fault) : Prop where
  clear : Token.firstFault 0 before = none
  found : token.fault? (Token.finalLevel 0 before) = some fault

/-- The token at which reading fails is the one that the scan by levels finds.
-/
theorem offends_of_step {before : List Token} {token : Token} {next : List (List Form)}
    (hrunning : Resumes [] before next) (hlast : step next token = .fail fault) :
    Offends before token fault := by
  obtain ⟨hclear, hlevel⟩ := hrunning.clear
  have hstep := stepSpec_step next token
  rw [hlast] at hstep
  cases hstep with
  | fail hfound =>
      rw [← hlevel] at hfound
      exact ⟨hclear, hfound⟩

/-- While a form is under way none is complete. -/
theorem Resumes.parse_ne_form {next : List (List Form)} (hrunning : Resumes [] tokens next) :
    parse tokens ≠ (.ok (some form), rest) := by
  have hparse := hrunning.parseFrom_append []
  rw [List.append_nil] at hparse
  rw [parse, hparse, parseFrom]
  split <;> simp

/-- A form is decided by the tokens that it uses. Every shorter prefix leaves it
under way, and what stands behind it stays behind it. -/
theorem parse_form_local (h : parse tokens = (.ok (some form), rest)) (extra : List Token) :
    ∃ used, used ≠ [] ∧ tokens = used ++ rest ∧ Token.Spell used form.pieces ∧
      (∀ before, before <+: used → before ≠ used →
        ∀ other left, parse before ≠ (.ok (some other), left)) ∧
      parse (tokens ++ extra) = (.ok (some form), rest ++ extra) := by
  obtain ⟨used, pieces, hused, hspell, hpieces⟩ := spell_of_parseFrom h
  obtain ⟨before, token, next, rfl, hrunning, hlast⟩ := exists_of_parse_form h
  obtain rfl : before ++ [token] = used := by
    apply List.append_cancel_right
    rw [← hused, List.append_assoc, List.singleton_append]
  refine ⟨before ++ [token], by simp, hused, by rwa [hpieces], ?_, ?_⟩
  · intro shorter hprefix hproper other left
    rcases List.prefix_concat_iff.mp hprefix with hwhole | ⟨more, rfl⟩
    · exact absurd hwhole hproper
    · obtain ⟨between, hshorter⟩ := hrunning.left
      exact hshorter.parse_ne_form
  · rw [List.append_assoc, parse, hrunning.parseFrom_append, List.cons_append, parseFrom_cons,
      hlast]

/-- A fault is decided by the tokens up to the one that offends. -/
theorem parse_fault_local (h : parse tokens = (.error fault, rest))
    (hfault : fault ≠ .unmatchedOpen) (extra : List Token) :
    (∃ before token, tokens = before ++ token :: rest ∧ Offends before token fault) ∧
      parse (tokens ++ extra) = (.error fault, rest ++ extra) := by
  rcases exists_of_parse_fault h with ⟨before, token, next, rfl, hrunning, hlast⟩ | ⟨hopen, -⟩
  · refine ⟨⟨before, token, rfl, offends_of_step hrunning hlast⟩, ?_⟩
    rw [List.append_assoc, parse, hrunning.parseFrom_append, List.cons_append, parseFrom_cons,
      hlast]
  · exact absurd hopen hfault

/-- A list that is not closed uses up all tokens, and they are without fault but
end above level zero. -/
theorem parse_unfinished (h : parse tokens = (.error .unmatchedOpen, rest)) :
    rest = [] ∧ Token.firstFault 0 tokens = none ∧ 0 < Token.finalLevel 0 tokens := by
  rcases exists_of_parse_fault h with
    ⟨before, token, next, -, hrunning, hlast⟩ | ⟨-, rfl, next, hnext⟩
  · rcases Token.fault?_cases (offends_of_step hrunning hlast).found with hclose | ⟨_, hnumber⟩
    · cases hclose
    · cases hnumber
  · obtain ⟨hne, hrunning⟩ := hnext
    obtain ⟨hclear, hlevel⟩ := hrunning.clear
    refine ⟨rfl, hclear, ?_⟩
    rw [List.length_nil] at hlevel
    rw [hlevel]
    exact List.length_pos_iff.mpr hne

/-- There is nothing to read only if there are no tokens: once a token is read
some list is open, or reading has ended. -/
theorem parse_eq_none_iff : (parse tokens).1 = .ok none ↔ tokens = [] := by
  constructor
  · intro h
    have hreads := reads_parseFrom [] tokens
    rw [← parse] at hreads
    generalize parse tokens = result at h hreads
    cases hreads with
    | complete _ _ => cases h
    | fail _ _ => cases h
    | exhaust hrunning =>
        apply Classical.byContradiction
        intro hne
        simp [hrunning.ne_nil hne] at h
  · rintro rfl
    rfl

theorem length_parse_lt (h : tokens ≠ []) : (parse tokens).2.length < tokens.length := by
  have hreads := reads_parseFrom [] tokens
  rw [← parse] at hreads
  generalize parse tokens = result at hreads
  cases hreads with
  | complete _ _ | fail _ _ =>
      rw [List.length_append, List.length_cons]
      exact Nat.lt_add_left _ (Nat.lt_succ_self _)
  | exhaust _ => exact List.length_pos_iff.mpr h

end

/-- Reading one form is local. If there is a form, it is spelled by the first
tokens, of which no fewer make a form; the others are left, and so is whatever
stands behind them. If a token is at fault, those behind it are left, and again
more of them make no difference. If a list is still open at the end, no token
is left. There is nothing to read only if there are no tokens, and otherwise at
least one is used up. -/
theorem parse_is_local (tokens extra : List Token) :
    (∀ form rest, parse tokens = (.ok (some form), rest) →
      ∃ used, used ≠ [] ∧ tokens = used ++ rest ∧ Token.Spell used form.pieces ∧
        (∀ before, before <+: used → before ≠ used →
          ∀ other left, parse before ≠ (.ok (some other), left)) ∧
        parse (tokens ++ extra) = (.ok (some form), rest ++ extra)) ∧
    (∀ fault rest, parse tokens = (.error fault, rest) → fault ≠ .unmatchedOpen →
      (∃ before token, tokens = before ++ token :: rest ∧ Offends before token fault) ∧
        parse (tokens ++ extra) = (.error fault, rest ++ extra)) ∧
    (∀ rest, parse tokens = (.error .unmatchedOpen, rest) →
      rest = [] ∧ Token.firstFault 0 tokens = none ∧ 0 < Token.finalLevel 0 tokens) ∧
    ((parse tokens).1 = .ok none ↔ tokens = []) ∧
    (tokens ≠ [] → (parse tokens).2.length < tokens.length) := by
  refine ⟨?_, ?_, ?_, parse_eq_none_iff, length_parse_lt⟩
  · intro form rest h
    exact parse_form_local h extra
  · intro fault rest h hfault
    exact parse_fault_local h hfault extra
  · intro rest h
    exact parse_unfinished h

/-- A form with a closing parenthesis left over behind it, and a list with a
number in it that does not fit. -/
theorem parse_is_local_behind :
    let tokens := [Token.opening, .word "f", .opening, .closing, .closing, .closing]
    let faulty := [Token.opening, .word "9223372036854775808", .opening]
    let number := Fault.invalidNumber "9223372036854775808"
    parse tokens = (.ok (some (list [symbol "f", list []])), [.closing]) ∧
      (∃ used, used ≠ [] ∧ tokens = used ++ [.closing] ∧
        ∀ before, before <+: used → before ≠ used →
          ∀ other left, parse before ≠ (.ok (some other), left)) ∧
      parse (tokens ++ [.opening]) =
        (.ok (some (list [symbol "f", list []])), [.closing, .opening]) ∧
      parse faulty = (.error number, [.opening]) ∧
      (∃ before token, faulty = before ++ token :: [.opening] ∧ Offends before token number) ∧
      parse (faulty ++ [.closing]) = (.error number, [.opening, .closing]) := by
  intro tokens faulty number
  have hform : parse tokens = (.ok (some (list [symbol "f", list []])), [.closing]) := rfl
  have hfault : parse faulty = (.error number, [.opening]) := rfl
  obtain ⟨used, hne, hsplit, -, hshorter, hextra⟩ :=
    (parse_is_local tokens [.opening]).1 _ _ hform
  obtain ⟨hoffends, hmore⟩ := (parse_is_local faulty [.closing]).2.1 _ _ hfault nofun
  exact ⟨hform, ⟨used, hne, hsplit, hshorter⟩, hextra, hfault, hoffends, hmore⟩

end FlatLisp.Form
