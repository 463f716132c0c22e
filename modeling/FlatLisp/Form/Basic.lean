import FlatLisp.Number.Basic

/-!
Forms are the expressions of the language: atoms and lists of forms. An atom
is a number, a quoted text or a symbol.
-/

namespace FlatLisp

inductive Atom where
  | number (value : Number)
  | text (content : String)
  | symbol (name : String)
  deriving DecidableEq, Repr

inductive Form where
  | atom (value : Atom)
  | list (elements : List Form)
  deriving Repr

/-- Equality of atoms as the language sees it: numbers are compared by value,
so that the two floating-point zeros are equal. -/
def Atom.equal : Atom → Atom → Bool
  | .number a, .number b => a.equal b
  | .text a, .text b => a == b
  | .symbol a, .symbol b => a == b
  | _, _ => false

namespace Form

def number (value : Number) : Form := .atom (.number value)

def text (content : String) : Form := .atom (.text content)

def symbol (name : String) : Form := .atom (.symbol name)

def symbol? : Form → Option String
  | .atom (.symbol name) => some name
  | _ => none

mutual

def equal : Form → Form → Bool
  | .atom a, .atom b => a.equal b
  | .list as, .list bs => equalLists as bs
  | _, _ => false

def equalLists : List Form → List Form → Bool
  | [], [] => true
  | a :: as, b :: bs => equal a b && equalLists as bs
  | _, _ => false

end

mutual

def decEq : (f g : Form) → Decidable (f = g)
  | .atom a, .atom b => decidable_of_iff (a = b) (by simp)
  | .list as, .list bs =>
      match decEqLists as bs with
      | .isTrue h => .isTrue (by rw [h])
      | .isFalse h => .isFalse (by simpa using h)
  | .atom _, .list _ => .isFalse nofun
  | .list _, .atom _ => .isFalse nofun

def decEqLists : (fs gs : List Form) → Decidable (fs = gs)
  | [], [] => .isTrue rfl
  | a :: as, b :: bs =>
      match decEq a b, decEqLists as bs with
      | .isTrue h, .isTrue hs => .isTrue (by rw [h, hs])
      | .isFalse h, _ => .isFalse (by simp [h])
      | _, .isFalse hs => .isFalse (by simp [hs])
  | [], _ :: _ => .isFalse nofun
  | _ :: _, [] => .isFalse nofun

end

instance : DecidableEq Form := decEq

/-- Induction over forms: what holds of a list whenever it holds of all its
elements, and of atoms, holds of every form. -/
@[elab_as_elim] theorem induction {motive : Form → Prop} (atom : ∀ value, motive (.atom value))
    (list : ∀ elements, (∀ form ∈ elements, motive form) → motive (.list elements)) :
    ∀ form, motive form
  | .atom value => atom value
  | .list elements => list elements fun form _ => induction atom list form

theorem symbol?_eq_some_iff {form : Form} {name : String} :
    form.symbol? = some name ↔ form = symbol name := by
  constructor
  · intro h
    match form with
    | .atom (.symbol other) => simpa [symbol?, symbol] using h
    | .atom (.number _) => simp [symbol?] at h
    | .atom (.text _) => simp [symbol?] at h
    | .list _ => simp [symbol?] at h
  · rintro rfl
    rfl

end Form

end FlatLisp
