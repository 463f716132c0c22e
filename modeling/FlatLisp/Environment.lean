import FlatLisp.Text.Quoted
import FlatLisp.Value

/-!
The environment of a session: one flat map from symbols to values, without
scopes, in which a binding lives until it is overwritten. The bindings are
kept in ascending order of their symbols, so two environments that answer
every look-up alike are the same.
-/

namespace FlatLisp

structure Environment where
  bindings : List (String × Value)
  ordered : bindings.Pairwise fun a b => a.1 < b.1

namespace Environment

def empty : Environment := ⟨[], .nil⟩

def lookupIn (name : String) : List (String × Value) → Option Value
  | [] => none
  | (other, value) :: rest => if name = other then some value else lookupIn name rest

/-- Puts a binding at its place in an ordered list, over an earlier one of the
same symbol if there is one. -/
def insertIn (name : String) (value : Value) : List (String × Value) → List (String × Value)
  | [] => [(name, value)]
  | (other, old) :: rest =>
      if name < other then (name, value) :: (other, old) :: rest
      else if name = other then (name, value) :: rest
      else (other, old) :: insertIn name value rest

/-- Inserting adds no other binding than the new one. -/
theorem mem_insertIn {name : String} {value : Value} {bindings : List (String × Value)}
    {binding : String × Value} (h : binding ∈ insertIn name value bindings) :
    binding = (name, value) ∨ binding ∈ bindings := by
  induction bindings with
  | nil => simpa [insertIn] using h
  | cons first rest ih =>
      simp only [insertIn] at h
      split at h
      · simpa using h
      · split at h
        · simp only [List.mem_cons] at h ⊢
          exact h.imp_right .inr
        · simp only [List.mem_cons] at h ⊢
          rcases h with hfirst | hrest
          · exact .inr (.inl hfirst)
          · exact (ih hrest).imp_right .inr

/-- Inserting keeps the order. -/
theorem ordered_insertIn (name : String) (value : Value) {bindings : List (String × Value)}
    (h : bindings.Pairwise fun a b => a.1 < b.1) :
    (insertIn name value bindings).Pairwise fun a b => a.1 < b.1 := by
  induction bindings with
  | nil => simp [insertIn]
  | cons first rest ih =>
      obtain ⟨hfirst, hrest⟩ := List.pairwise_cons.mp h
      simp only [insertIn]
      split
      next hbefore =>
        refine List.pairwise_cons.mpr ⟨fun binding hmember => ?_, h⟩
        rcases List.mem_cons.mp hmember with rfl | hlater
        · exact hbefore
        · exact String.lt_trans hbefore (hfirst binding hlater)
      next hnotBefore =>
        split
        next hsame =>
          exact List.pairwise_cons.mpr ⟨fun b hmember => hsame ▸ hfirst b hmember, hrest⟩
        next hne =>
          refine List.pairwise_cons.mpr ⟨fun binding hmember => ?_, ih hrest⟩
          rcases mem_insertIn hmember with rfl | hlater
          · exact String.not_le.mp fun hle =>
              hne (String.le_antisymm hle (String.not_lt.mp hnotBefore))
          · exact hfirst binding hlater

def lookup (env : Environment) (name : String) : Option Value :=
  lookupIn name env.bindings

def insert (env : Environment) (name : String) (value : Value) : Environment :=
  ⟨insertIn name value env.bindings, ordered_insertIn name value env.ordered⟩

def symbols (env : Environment) : List String :=
  env.bindings.map Prod.fst

def description (env : Environment) : String :=
  "Environment \x7b symbols: " ++ Text.quotedList env.symbols ++ " \x7d"

/-- The symbol that counts the rounds of a loop. -/
def counter : String := "_"

/-- What a session starts with: every builtin under its name, and the counter
at zero. -/
def global : Environment :=
  (Builtin.all.foldl (fun env builtin => env.insert builtin.name (.builtin builtin)) empty).insert
    counter (.integer 0)

@[simp] theorem lookup_empty (name : String) : empty.lookup name = none := rfl

@[simp] theorem lookup_insert_self (env : Environment) (name : String) (value : Value) :
    (env.insert name value).lookup name = some value := by
  simp only [lookup, insert]
  induction env.bindings with
  | nil => simp [insertIn, lookupIn]
  | cons first rest ih =>
      simp only [insertIn]
      split
      · simp [lookupIn]
      · split
        · simp [lookupIn]
        next hne => simpa [lookupIn, hne] using ih

/-- A binding does not touch other symbols. -/
theorem lookup_insert_of_ne (env : Environment) {name other : String} (value : Value)
    (h : name ≠ other) : (env.insert other value).lookup name = env.lookup name := by
  simp only [lookup, insert]
  induction env.bindings with
  | nil => simp [insertIn, lookupIn, h]
  | cons first rest ih =>
      simp only [insertIn]
      split
      · simp [lookupIn, h]
      · split
        next hsame => simp [lookupIn, h, ← hsame]
        · simp only [lookupIn, ih]

/-- What is bound after a binding is that binding or was bound before. -/
theorem lookup_insert_cases {env : Environment} {name other : String} {value found : Value}
    (h : (env.insert name value).lookup other = some found) :
    other = name ∧ found = value ∨ env.lookup other = some found := by
  by_cases hsame : other = name
  · rw [hsame, lookup_insert_self] at h
    exact .inl ⟨hsame, (Option.some.inj h).symm⟩
  · rw [lookup_insert_of_ne _ _ hsame] at h
    exact .inr h

/-- A symbol below all that are bound is not bound. -/
theorem lookupIn_eq_none {name : String} {bindings : List (String × Value)}
    (h : ∀ binding ∈ bindings, name < binding.1) : lookupIn name bindings = none := by
  induction bindings with
  | nil => rfl
  | cons first rest ih =>
      have hne : name ≠ first.1 := fun hsame =>
        String.lt_irrefl name (hsame ▸ h first List.mem_cons_self)
      rw [lookupIn, if_neg hne]
      exact ih fun binding hmember => h binding (List.mem_cons_of_mem _ hmember)

/-- The first symbol of some bindings is bound in no others that start above
it. -/
theorem not_lt_of_lookupIn {a b : String × Value} {as bs : List (String × Value)}
    (hordered : (b :: bs).Pairwise fun a b => a.1 < b.1)
    (h : ∀ name, lookupIn name (a :: as) = lookupIn name (b :: bs)) : ¬ a.1 < b.1 := by
  intro hbelow
  have hmissing : lookupIn a.1 (b :: bs) = none := by
    apply lookupIn_eq_none
    intro binding hmember
    rcases List.mem_cons.mp hmember with rfl | hlater
    · exact hbelow
    · exact String.lt_trans hbelow ((List.pairwise_cons.mp hordered).1 binding hlater)
  have hfound := h a.1
  rw [hmissing] at hfound
  simp [lookupIn] at hfound

/-- Ordered bindings are determined by their look-ups: the first symbols must be
the same, since neither is bound on the other side if it is below, and below the
first symbol nothing else is bound. -/
theorem bindings_eq_of_lookupIn {first second : List (String × Value)}
    (hfirst : first.Pairwise fun a b => a.1 < b.1) (hsecond : second.Pairwise fun a b => a.1 < b.1)
    (h : ∀ name, lookupIn name first = lookupIn name second) : first = second := by
  induction first generalizing second with
  | nil =>
      cases second with
      | nil => rfl
      | cons b bs => simpa [lookupIn] using h b.1
  | cons a as ih =>
      cases second with
      | nil => simpa [lookupIn] using h a.1
      | cons b bs =>
          have hnotBelow : ¬ a.1 < b.1 := not_lt_of_lookupIn hsecond h
          have hnotAbove : ¬ b.1 < a.1 := not_lt_of_lookupIn hfirst fun name => (h name).symm
          have hname : a.1 = b.1 :=
            String.le_antisymm (String.not_lt.mp hnotAbove) (String.not_lt.mp hnotBelow)
          have hvalue : a.2 = b.2 := by simpa [lookupIn, hname] using h b.1
          obtain ⟨hbelowAs, horderedAs⟩ := List.pairwise_cons.mp hfirst
          obtain ⟨hbelowBs, horderedBs⟩ := List.pairwise_cons.mp hsecond
          have hrest : as = bs := by
            apply ih horderedAs horderedBs
            intro name
            by_cases hsame : name = b.1
            · rw [hsame, lookupIn_eq_none hbelowBs, ← hname, lookupIn_eq_none hbelowAs]
            · simpa [lookupIn, hsame, hname] using h name
          rw [hrest, Prod.ext hname hvalue]

/-- Environments that answer every look-up alike are the same. -/
theorem ext_lookup {first second : Environment}
    (h : ∀ name, first.lookup name = second.lookup name) : first = second := by
  cases first with
  | mk bindings hbindings =>
      cases second with
      | mk others hothers =>
          obtain rfl : bindings = others := bindings_eq_of_lookupIn hbindings hothers h
          rfl

/-- Of two bindings of a symbol the later one counts. -/
@[simp] theorem insert_insert (env : Environment) (name : String) (first second : Value) :
    (env.insert name first).insert name second = env.insert name second := by
  apply ext_lookup
  intro other
  by_cases hsame : other = name
  · rw [hsame, lookup_insert_self, lookup_insert_self]
  · rw [lookup_insert_of_ne _ _ hsame, lookup_insert_of_ne _ _ hsame, lookup_insert_of_ne _ _ hsame]

/-- Bindings of different symbols can be made in any order. -/
theorem insert_comm (env : Environment) {name other : String} (h : name ≠ other)
    (first second : Value) :
    (env.insert name first).insert other second = (env.insert other second).insert name first := by
  apply ext_lookup
  intro found
  by_cases hname : found = name
  · rw [hname, lookup_insert_self, lookup_insert_of_ne _ _ h, lookup_insert_self]
  · by_cases hother : found = other
    · rw [hother, lookup_insert_self, lookup_insert_of_ne _ _ h.symm, lookup_insert_self]
    · rw [lookup_insert_of_ne _ _ hother, lookup_insert_of_ne _ _ hname,
        lookup_insert_of_ne _ _ hname, lookup_insert_of_ne _ _ hother]

end Environment

end FlatLisp
