import FlatLisp.Proofs.Provenance
import FlatLisp.Proofs.Rereading

/-!
Sessions can be read back. Texts in a session have no quotes, so what an
answer shows of them is one literal; and every bound name is a bare word that
is read as the symbol it names.

Both depend on where forms come from: a form built by hand may hold any text
and any name, one that was read from a source text holds only what the lexer
lets through. The step is one source text, evaluated as a whole or up to its
first form, however that ends; `Readable.performAll` is the induction over
many of them.
-/

namespace FlatLisp

def Text.QuoteFree (text : String) : Prop := '"' ∉ text.toList

namespace Text

instance : DecidablePred QuoteFree := fun text =>
  inferInstanceAs (Decidable ('"' ∉ text.toList))

theorem quoteFree_append {first second : String} :
    QuoteFree (first ++ second) ↔ QuoteFree first ∧ QuoteFree second := by
  simp [QuoteFree]

theorem quoteFree_join {texts : List String} (h : ∀ text ∈ texts, QuoteFree text) :
    QuoteFree (String.join texts) := by
  simpa [QuoteFree] using h

/-- A text that is joined from parts without quotes has none. -/
theorem quoteFree_intercalate {separator : String} (hseparator : QuoteFree separator)
    {texts : List String} (h : ∀ text ∈ texts, QuoteFree text) :
    QuoteFree (separator.intercalate texts) := by
  induction texts with
  | nil => simp [QuoteFree]
  | cons first rest ih =>
      have hfirst := h first List.mem_cons_self
      have hrest := ih fun text htext => h text (List.mem_cons_of_mem _ htext)
      cases rest with
      | nil => simpa using hfirst
      | cons second others =>
          rw [String.intercalate_cons_cons, quoteFree_append, quoteFree_append]
          exact ⟨⟨hfirst, hseparator⟩, hrest⟩

theorem quoteFree_chomp {text : String} (h : QuoteFree text) : QuoteFree (Builtin.chomp text) := by
  have hkept (ending : List Char) {rest : List Char}
      (hrest : text.toList.reverse = ending ++ rest) : QuoteFree (String.ofList rest.reverse) := by
    intro hquote
    apply h
    rw [String.toList_ofList, List.mem_reverse] at hquote
    rw [← List.mem_reverse, hrest]
    exact List.mem_append_right _ hquote
  unfold Builtin.chomp
  split
  next rest hrest => exact hkept ['\n', '\r'] hrest
  next rest _ hrest => exact hkept ['\n'] hrest
  next rest hrest => exact hkept ['\r'] hrest
  next => exact h

theorem quote_not_mem_toDigits (n : Nat) : '"' ∉ Nat.toDigits 10 n := by
  intro hquote
  exact absurd (Number.digits_of_toDigits n _ hquote) (by decide)

end Text

namespace Binary64

/-- Positional notation has digits, a point and nothing else. -/
theorem quote_not_mem_positional (d : Decimal) : '"' ∉ d.positional := by
  have hdigits := Text.quote_not_mem_toDigits d.digits
  unfold Decimal.positional
  split
  · simp [hdigits]
  · have hpadded (zeros : Nat) : '"' ∉ List.replicate zeros '0' ++ Nat.toDigits 10 d.digits := by
      simp [hdigits]
    intro hquote
    rcases List.mem_append.mp hquote with hquote | hquote
    · exact hpadded _ (List.mem_of_mem_take hquote)
    · rcases List.mem_cons.mp hquote with hpoint | hquote
      · exact absurd hpoint (by decide)
      · exact hpadded _ (List.mem_of_mem_drop hquote)

theorem quote_not_mem_magnitudeText (rank : Nat) : '"' ∉ magnitudeText rank := by
  unfold magnitudeText
  split
  · decide
  · split
    · simp [Text.quote_not_mem_toDigits]
    · exact quote_not_mem_positional _

end Binary64

/-- The text of a number has no quotes, be it an integer, a magnitude with
digits or one of the names of the others. -/
theorem Number.quoteFree_text (number : Number) : Text.QuoteFree number.text := by
  cases number with
  | integer i =>
      rw [text, Text.QuoteFree, toList_integerText]
      split <;> simp [Text.quote_not_mem_toDigits]
  | float x =>
      cases x with
      | nan => decide
      | signed negative rank =>
          rw [text, Text.QuoteFree, Binary64.text, String.toList_ofList]
          split <;> simp [Binary64.quote_not_mem_magnitudeText]

namespace Value

def QuoteFree (value : Value) : Prop :=
  ∀ content, value = .text content → Text.QuoteFree content

theorem quoteFree_number (number : Number) : QuoteFree (.number number) := by
  rintro _ ⟨⟩

theorem quoteFree_text {content : String} (h : Text.QuoteFree content) :
    QuoteFree (.text content) := by
  rintro _ ⟨⟩
  exact h

/-- Printing shows quotes only where a text has them. -/
theorem QuoteFree.display {value : Value} (h : value.QuoteFree) : Text.QuoteFree value.display := by
  cases value with
  | number number => exact number.quoteFree_text
  | text content => exact h content rfl
  | boolean value => cases value <;> decide
  | builtin procedure => cases procedure <;> decide
  | nil => decide

/-- The quotes around a text without quotes are the only ones in its echo, and
they make one literal of it. -/
theorem echo_of_quoteFree {content : String} (h : Text.QuoteFree content) :
    (Value.text content).echo.toList.count '"' = 2 ∧
      Token.lex (Value.text content).echo =
        [.quoted (Value.text (Token.padText content)).echo] := by
  constructor
  · simp [echo, List.count_eq_zero.mpr h]
  · have hliteral := Token.lexChars_literal h []
    rw [Token.lex_eq_lexChars, echo, echo, Atom.quotes_eq_ofList, Atom.quotes_eq_ofList,
      Token.padText, String.toList_ofList, String.toList_ofList, hliteral]
    rfl

end Value

theorem bind_eq_ok {ε α β : Type} {x : Except ε α} {f : α → Except ε β} {result : β}
    (h : (x >>= f) = .ok result) : ∃ value, x = .ok value ∧ f value = .ok result := by
  cases x with
  | error found => cases h
  | ok value => exact ⟨value, rfl, h⟩

namespace Builtin

/-- Where arithmetic succeeds it gives a number. -/
theorem exists_number_of_arithmetic {op : Number → Number → Except ArithmeticFault Number}
    {arguments : List Value} {value : Value} (h : arithmetic op arguments = .ok value) :
    ∃ total, value = .number total := by
  cases arguments with
  | nil => cases h
  | cons first rest =>
      obtain ⟨start, -, hfold⟩ := bind_eq_ok h
      obtain ⟨total, -, htotal⟩ := bind_eq_ok hfold
      exact ⟨total, (Except.ok.inj htotal).symm⟩

/-- Where a comparison succeeds it gives a truth value. -/
theorem exists_boolean_of_ordered {order : Ordering} {arguments : List Value} {value : Value}
    (h : ordered order arguments = .ok value) : ∃ answer, value = .boolean answer := by
  unfold ordered at h
  split at h
  · exact ⟨_, (Except.ok.inj h).symm⟩
  · exact ⟨_, (Except.ok.inj h).symm⟩
  · cases h
  · cases h

/-- Sums are texts only if they are joined from texts among the arguments. -/
theorem quoteFree_sum {arguments : List Value} {value : Value}
    (harguments : ∀ argument ∈ arguments, argument.QuoteFree) (h : sum arguments = .ok value) :
    value.QuoteFree := by
  unfold sum at h
  split at h
  next first rest hcontents =>
    obtain rfl : .text (String.join (first :: rest)) = value := Except.ok.inj h
    apply Value.quoteFree_text
    apply Text.quoteFree_join
    intro content hcontent
    rw [mapM_text?_eq_some_iff.mp hcontents] at harguments
    exact harguments (.text content) (List.mem_map_of_mem hcontent) content rfl
  next =>
    obtain ⟨total, rfl⟩ := exists_number_of_arithmetic h
    exact Value.quoteFree_number total

/-- What a line shows has no quotes if the arguments have none. -/
theorem quoteFree_line {arguments : List Value}
    (harguments : ∀ argument ∈ arguments, argument.QuoteFree) :
    Text.QuoteFree (chomp (String.intercalate " " (arguments.map Value.display))) := by
  apply Text.quoteFree_chomp
  apply Text.quoteFree_intercalate (by decide)
  intro text htext
  obtain ⟨argument, hargument, rfl⟩ := List.mem_map.mp htext
  exact (harguments argument hargument).display

end Builtin

theorem Atom.plain_counter : Atom.Plain (.symbol Environment.counter) := by
  decide +kernel

theorem Atom.plain_builtin (builtin : Builtin) : Atom.Plain (.symbol builtin.name) := by
  cases builtin <;> decide +kernel

/-- A name that can be read again is one token, and that token the symbol. -/
theorem Atom.Plain.parse_name {name : String} (h : Atom.Plain (.symbol name)) :
    name ≠ "" ∧ Token.lex name = [.word name] ∧
      Form.parse (Token.lex name) = (.ok (some (.symbol name)), []) := by
  have htokens : Token.lex name = [.word name] := by
    have hword := Token.lexChars_word h.1 Token.atBreak_nil
    rw [List.append_nil, String.ofList_toList] at hword
    rw [Token.lex_eq_lexChars, hword]
    rfl
  refine ⟨?_, htokens, ?_⟩
  · rintro rfl
    exact h.1.nonempty rfl
  · rw [htokens]
    apply Form.parse_of_spell
    rw [Form.symbol, Form.pieces, Token.spell_cons, Token.piece, h.2]
    exact ⟨rfl, Token.spell_nil⟩

namespace Session

/-- A session in which every text can stand between quotes and every name is a
word that is read as a symbol. -/
structure Readable (session : Session) : Prop where
  values : ∀ name value, session.environment.lookup name = some value → value.QuoteFree
  names : ∀ name value, session.environment.lookup name = some value → Atom.Plain (.symbol name)

/-- A binding keeps a session readable, if its name can be read and its value
has no quotes. -/
theorem Readable.insert {session : Session} (h : session.Readable) {name : String} {value : Value}
    (hname : Atom.Plain (.symbol name)) (hvalue : value.QuoteFree) :
    Readable { session with environment := session.environment.insert name value } := by
  constructor
  · intro other found hfound
    rcases Environment.lookup_insert_cases hfound with ⟨-, rfl⟩ | hfound
    · exact hvalue
    · exact h.values other found hfound
  · intro other found hfound
    rcases Environment.lookup_insert_cases hfound with ⟨rfl, -⟩ | hfound
    · exact hname
    · exact h.names other found hfound

/-- The first session is readable: it has the names of the builtins and the
counter. -/
theorem readable_start (output : Output) : (start output).Readable := by
  have hbuiltins (builtins : List Builtin) (environment : Environment)
      (h : Readable ⟨environment, output⟩) :
      Readable ⟨builtins.foldl (fun env builtin => env.insert builtin.name (.builtin builtin))
        environment, output⟩ := by
    induction builtins generalizing environment with
    | nil => exact h
    | cons builtin rest ih =>
        have hvalue : Value.QuoteFree (.builtin builtin) := by rintro _ ⟨⟩
        exact ih _ (h.insert (Atom.plain_builtin builtin) hvalue)
  have hempty : Readable ⟨.empty, output⟩ := by
    constructor <;> simp
  exact (hbuiltins Builtin.all .empty hempty).insert Atom.plain_counter
    (Value.quoteFree_number (.integer 0))

end Session

namespace Evaluation

/-- An action after which a session can still be read back, and which gives
texts without quotes. -/
def StaysReadable : Relation := fun _ held x _ =>
  ∀ session, session.Readable → (stateOf (x session)).Readable ∧
    ∀ result later, x session = .ok result later → ∀ value ∈ held result, value.QuoteFree

theorem staysReadable_pure {α : Type} {held : α → List Value} {result : α}
    (h : ∀ value ∈ held result, value.QuoteFree) :
    StaysReadable held (pure result) (pure result) := by
  intro session hsession
  refine ⟨hsession, ?_⟩
  rintro _ _ ⟨⟩
  exact h

/-- An action that stops at once leaves a session as it is. -/
theorem staysReadable_throw {α : Type} {held : α → List Value} (stop : Stop)
    (action : Evaluation α) : StaysReadable held (throw stop) action := by
  intro session hsession
  refine ⟨hsession, ?_⟩
  rintro _ _ ⟨⟩

/-- Two actions in a row keep a session readable. The second one is told that
the values of the first one have no quotes. -/
theorem staysReadable_bind {α β : Type} {held : α → List Value} {heldNext : β → List Value}
    {x y : Evaluation α} {f g : α → Evaluation β} (hx : StaysReadable held x y)
    (hf : ∀ result, (∀ value ∈ held result, value.QuoteFree) →
      StaysReadable heldNext (f result) (g result)) :
    StaysReadable heldNext (x >>= f) (y >>= g) := by
  intro session hsession
  obtain ⟨hstate, hvalues⟩ := hx session hsession
  cases hend : x session with
  | ok result between =>
      rw [hend] at hstate
      rw [bind_of_ok hend]
      exact hf result (hvalues result between hend) between hstate
  | error stop between =>
      rw [hend] at hstate
      rw [bind_of_error hend]
      refine ⟨hstate, ?_⟩
      rintro _ _ ⟨⟩

theorem staysReadable_within {α : Type} {held : α → List Value} (form : Form) {x y : Evaluation α}
    (hx : StaysReadable held x y) : StaysReadable held (within form x) (within form y) := by
  intro session hsession
  have hinner := hx session hsession
  unfold within
  split
  next failure later hend =>
    rw [hend] at hinner
    refine ⟨hinner.1, ?_⟩
    rintro _ _ ⟨⟩
  next => exact hinner

theorem staysReadable_ofExcept {result : Except Fault Value}
    (h : ∀ value, result = .ok value → value.QuoteFree) :
    StaysReadable List.singleton (ofExcept result) (ofExcept result) := by
  cases result with
  | ok value => exact staysReadable_pure (List.forall_mem_singleton.mpr (h value rfl))
  | error fault => exact staysReadable_throw _ _

theorem staysReadable_lookup (name : String) :
    StaysReadable List.singleton (lookup name) (lookup name) := by
  intro session hsession
  unfold lookup
  cases hvalue : session.environment.lookup name with
  | none => exact staysReadable_throw _ (lookup name) session hsession
  | some value =>
      refine ⟨hsession, ?_⟩
      rintro _ _ ⟨⟩
      exact List.forall_mem_singleton.mpr (hsession.values name value hvalue)

theorem staysReadable_assign {name : String} {value : Value} (hname : Atom.Plain (.symbol name))
    (hvalue : value.QuoteFree) :
    StaysReadable (fun _ => []) (assign name value) (assign name value) :=
  fun _ hsession => ⟨hsession.insert hname hvalue, fun _ _ _ => List.forall_mem_nil _⟩

theorem staysReadable_printLine (text : String) :
    StaysReadable (fun _ => []) (printLine text) (printLine text) := by
  intro session hsession
  unfold printLine
  cases Output.writeLine text session.output with
  | ok _ output =>
      exact ⟨⟨hsession.values, hsession.names⟩, fun _ _ _ => List.forall_mem_nil _⟩
  | error message output =>
      exact staysReadable_throw _ (printLine text) _ ⟨hsession.values, hsession.names⟩

/-- A call gives a text without quotes: only sums and lines are texts, and both
are made from the arguments. -/
theorem staysReadable_call {value : Value} {arguments : List Value}
    (harguments : ∀ argument ∈ arguments, argument.QuoteFree) :
    StaysReadable List.singleton (call value arguments) (call value arguments) := by
  have harithmetic (op : Number → Number → Except ArithmeticFault Number) :
      StaysReadable List.singleton (ofExcept (Builtin.arithmetic op arguments))
        (ofExcept (Builtin.arithmetic op arguments)) := by
    apply staysReadable_ofExcept
    intro value hvalue
    obtain ⟨total, rfl⟩ := Builtin.exists_number_of_arithmetic hvalue
    exact Value.quoteFree_number total
  have hordered (order : Ordering) :
      StaysReadable List.singleton (ofExcept (Builtin.ordered order arguments))
        (ofExcept (Builtin.ordered order arguments)) := by
    apply staysReadable_ofExcept
    intro value hvalue
    obtain ⟨answer, rfl⟩ := Builtin.exists_boolean_of_ordered hvalue
    rintro _ ⟨⟩
  cases value with
  | builtin procedure =>
      cases procedure with
      | add => exact staysReadable_ofExcept fun _ => Builtin.quoteFree_sum harguments
      | sub => exact harithmetic _
      | mul => exact harithmetic _
      | div => exact harithmetic _
      | less => exact hordered _
      | greater => exact hordered _
      | print =>
          have hline := Value.quoteFree_text (Builtin.quoteFree_line harguments)
          refine staysReadable_bind (staysReadable_printLine _) fun _ _ => ?_
          exact staysReadable_pure (List.forall_mem_singleton.mpr hline)
  | _ => exact staysReadable_throw _ _

theorem tracks_staysReadable : Tracks Value.QuoteFree StaysReadable where
  number := Value.quoteFree_number
  nil := by rintro _ ⟨⟩
  pure := staysReadable_pure
  fail _ := staysReadable_throw _ _
  bind := staysReadable_bind
  within form _ _ := staysReadable_within form
  call _ := staysReadable_call

end Evaluation

namespace Form

open Evaluation (StaysReadable)

variable {form : Form} {source : String}

/-- The symbol of a literal without its closing quote is an atom of its own, so
all texts in a form and all symbols in a list come from complete tokens. -/
theorem ReadFrom.plain_of_hasAtom (h : form.ReadFrom (Token.lex source)) {value : Atom}
    (hvalue : form.HasAtom value) (hnumber : ∀ number, value ≠ .number number)
    (hinner : ∀ name, form ≠ symbol name) : value.Plain := by
  rcases h.complete_or_openLiteral with hcomplete | ⟨content, -, -, hsymbol⟩
  · obtain ⟨token, htoken, hread⟩ := hcomplete value hvalue
    exact htoken.plain hread fun x hx => absurd hx (hnumber _)
  · exact absurd hsymbol (hinner _)

theorem ReadFrom.quoteFree_of_hasAtom (h : form.ReadFrom (Token.lex source)) {content : String}
    (hcontent : form.HasAtom (.text content)) : Text.QuoteFree content := by
  refine h.plain_of_hasAtom hcontent (by simp) ?_
  rintro name rfl
  simp [HasAtom, symbol, pieces] at hcontent

theorem ReadFrom.plain_of_hasLetName (h : form.ReadFrom (Token.lex source)) {name : String}
    (hname : form.HasLetName name) : Atom.Plain (.symbol name) := by
  refine h.plain_of_hasAtom hname.hasAtom (by simp) ?_
  rintro other rfl
  obtain ⟨bindings, body, hlet, -⟩ := hname
  cases hlet

/-- The actions that depend on a form keep a session readable if the form was
read from a source text: its texts come from literals and its names from words.
-/
theorem ReadFrom.tracked (h : form.ReadFrom (Token.lex source)) :
    form.Tracked Value.QuoteFree StaysReadable where
  text _ hcontent := Value.quoteFree_text (h.quoteFree_of_hasAtom hcontent)
  lookup name _ := Evaluation.staysReadable_lookup name
  assign _ hname _ hvalue := Evaluation.staysReadable_assign (h.plain_of_hasLetName hname) hvalue
  setCounter _ i :=
    Evaluation.staysReadable_assign Atom.plain_counter (Value.quoteFree_number (.integer (.ofNat i)))
  unfinished _ _ _ _ := Evaluation.staysReadable_throw _ _

end Form

namespace Program

open Evaluation (StaysReadable tracks_staysReadable)

theorem run_staysReadable (turns : Nat) (source : String) :
    StaysReadable id (run turns source) (run turns source) :=
  run_tracks tracks_staysReadable (Nat.le_refl turns) fun given hforms _ hform =>
    Form.ReadFrom.tracked (.inr ⟨given, hforms, hform⟩)

theorem evalFirst_staysReadable (turns : Nat) (source : String) :
    StaysReadable Option.toList (evalFirst turns source) (evalFirst turns source) :=
  evalFirst_tracks tracks_staysReadable (Nat.le_refl turns) fun _ rest hparse =>
    Form.ReadFrom.tracked (.inl ⟨rest, hparse⟩)

end Program

namespace Session

inductive Command.IsSource : Command → Prop where
  | evalFirst (source : String) : IsSource (.evalFirst source)
  | run (source : String) : IsSource (.run source)

theorem Readable.perform {session : Session} (h : session.Readable) (turns : Nat)
    {command : Command} (hcommand : command.IsSource) :
    (session.perform turns command).Readable := by
  cases hcommand with
  | evalFirst source => exact (Program.evalFirst_staysReadable turns source session h).1
  | run source => exact (Program.run_staysReadable turns source session h).1

/-- Whatever is run in it, a readable session stays readable. -/
theorem Readable.performAll {session : Session} (h : session.Readable)
    {commands : List (Nat × Command)} (hcommands : ∀ command ∈ commands, command.2.IsSource) :
    (session.performAll commands).Readable := by
  induction commands generalizing session with
  | nil => exact h
  | cons command rest ih =>
      have hfirst := h.perform command.1 (hcommands command List.mem_cons_self)
      exact ih hfirst fun other hother => hcommands other (List.mem_cons_of_mem _ hother)

/-- The values that can be had in a session: those that are bound, and those
that a source text evaluates to. -/
inductive Offers (session : Session) : Value → Prop where
  | bound {name : String} {value : Value} :
      session.environment.lookup name = some value → Offers session value
  | evalFirst {turns : Nat} {source : String} {value : Value} {later : Session} :
      Program.evalFirst turns source session = .ok (some value) later → Offers session value
  | run {turns : Nat} {source : String} {values : List Value} {value : Value} {later : Session} :
      Program.run turns source session = .ok values later → value ∈ values →
        Offers session value

theorem Readable.offers {session : Session} (h : session.Readable) {value : Value}
    (hvalue : session.Offers value) : value.QuoteFree := by
  cases hvalue with
  | bound hbound => exact h.values _ _ hbound
  | evalFirst hend =>
      exact (Program.evalFirst_staysReadable _ _ session h).2 _ _ hend _ List.mem_cons_self
  | run hend hmember => exact (Program.run_staysReadable _ _ session h).2 _ _ hend _ hmember

/-- Whatever source texts have been handed to a session, and however their
evaluation ended, a text that is bound or evaluated to has no quotes: its echo
has the two around it and is one literal. And every bound name is one bare
word, which is read as the symbol it names. -/
theorem sessions_stay_readable (output : Output) (commands : List (Nat × Command))
    (hcommands : ∀ command ∈ commands, command.2.IsSource) :
    (∀ content, ((start output).performAll commands).Offers (.text content) →
      '"' ∉ content.toList ∧ (Value.text content).echo.toList.count '"' = 2 ∧
        Token.lex (Value.text content).echo =
          [.quoted (Value.text (Token.padText content)).echo]) ∧
      ∀ name value,
        ((start output).performAll commands).environment.lookup name = some value →
        name ≠ "" ∧ Token.lex name = [.word name] ∧
          Form.parse (Token.lex name) = (.ok (some (.symbol name)), []) := by
  have hreadable := (readable_start output).performAll hcommands
  constructor
  · intro content hcontent
    have hquotes : Text.QuoteFree content := hreadable.offers hcontent content rfl
    exact ⟨hquotes, Value.echo_of_quoteFree hquotes⟩
  · intro name value hvalue
    exact (hreadable.names name value hvalue).parse_name

/-- A name with a quote inside, a source text that cannot be read, and a text
that stays bound although the rest of its form fails. -/
theorem sessions_stay_readable_failed :
    let commands : List (Nat × Command) :=
      [(0, .run "(let (a\"b (print \"x\" 1)) a\"b)"), (0, .run "1 (print \"y"),
        (0, .evalFirst "(let (c (+ a\"b \"(\")) (c))")]
    let session := (start {}).performAll commands
    (∀ command ∈ commands, command.2.IsSource) ∧
      session.environment.lookup "a\"b" = some (.text "x 1") ∧
      session.environment.lookup "c" = some (.text "x 1 ( ") ∧
      Token.lex (Value.text "x 1 ( ").echo = [.quoted "\"x 1  (  \""] ∧
      Form.parse (Token.lex "a\"b") = (.ok (some (.symbol "a\"b")), []) := by
  intro commands session
  have hcommands : ∀ command ∈ commands, command.2.IsSource := by
    simp only [commands, List.forall_mem_cons, List.not_mem_nil]
    exact ⟨.run _, .run _, .evalFirst _, by simp⟩
  have hname : session.environment.lookup "a\"b" = some (.text "x 1") := by decide +kernel
  have htext : session.environment.lookup "c" = some (.text "x 1 ( ") := by decide +kernel
  obtain ⟨htexts, hnames⟩ := sessions_stay_readable {} commands hcommands
  exact ⟨hcommands, hname, htext, (htexts _ (.bound htext)).2.2, (hnames _ _ hname).2.2⟩

end Session

end FlatLisp
