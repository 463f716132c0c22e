import FlatLisp.Eval
import FlatLisp.Proofs.Layout

/-!
What occurs in a form: the symbols that its evaluation may read, the lists
that it is made of, and the names that it may bind. These are read off the
form alone and bound from above what an evaluation does.
-/

namespace FlatLisp

def SpecialForm.keyword : SpecialForm → String
  | .choice => "if"
  | .loop => "loop"
  | .repetition => "repeat"
  | .binding => "let"

/-- A special form is announced by its keyword and by nothing else. -/
theorem SpecialForm.ofHead?_eq_some_iff {head : Form} {special : SpecialForm} :
    ofHead? head = some special ↔ head = .symbol special.keyword := by
  constructor
  · intro h
    obtain ⟨name, hname⟩ : ∃ name, head.symbol? = some name := by
      cases hname : head.symbol? with
      | none => simp [ofHead?, hname] at h
      | some name => exact ⟨name, rfl⟩
    have hkeyword : name = special.keyword := by
      simp only [ofHead?, hname] at h
      cases special <;> grind [keyword]
    rw [Form.symbol?_eq_some_iff.mp hname, hkeyword]
  · rintro rfl
    cases special <;> rfl

namespace Form

mutual

/-- The symbols that occur in a form, except where they head a special form. -/
def symbols : Form → List String
  | .atom (.symbol name) => [name]
  | .atom _ => []
  | .list [] => []
  | .list (head :: rest) =>
      if (SpecialForm.ofHead? head).isSome then symbolsAll rest
      else head.symbols ++ symbolsAll rest

def symbolsAll : List Form → List String
  | [] => []
  | form :: rest => form.symbols ++ symbolsAll rest

end

mutual

/-- The lists that a form is made of, itself included, by their elements. -/
def lists : Form → List (List Form)
  | .atom _ => []
  | .list elements => elements :: listsAll elements

def listsAll : List Form → List (List Form)
  | [] => []
  | form :: rest => form.lists ++ listsAll rest

end

/-- The forms that bindings give names to. They stand at the odd places. -/
def boundForms : List Form → List Form
  | _ :: form :: rest => form :: boundForms rest
  | _ => []

/-- The forms that are evaluated for the sake of a form, each by itself: all
elements of a call, and of a special form those behind its head. The bindings
of a `let` list are no form to be evaluated, but those that they give names to
are. -/
def parts : Form → List Form
  | .atom _ => []
  | .list [] => []
  | .list (head :: rest) =>
      match SpecialForm.ofHead? head with
      | none => head :: rest
      | some .binding =>
          match rest with
          | .list bindings :: body => boundForms bindings ++ body
          | _ => []
      | some _ => rest

def HasListHeadedBy (form : Form) (name : String) : Prop :=
  ∃ elements ∈ form.lists, elements.head? = some (symbol name)

instance (form : Form) (name : String) : Decidable (form.HasListHeadedBy name) :=
  inferInstanceAs (Decidable (∃ elements ∈ form.lists, elements.head? = some (symbol name)))

/-- Whether a symbol stands at a name position, that is, at an even one, of the
bindings of some list headed by `let`. -/
def HasLetName (form : Form) (name : String) : Prop :=
  ∃ bindings body, symbol "let" :: list bindings :: body ∈ form.lists ∧
    ∃ i, bindings[2 * i]? = some (symbol name)

theorem mem_symbolsAll {forms : List Form} {name : String} :
    name ∈ symbolsAll forms ↔ ∃ form ∈ forms, name ∈ form.symbols := by
  induction forms with
  | nil => simp [symbolsAll]
  | cons form rest ih => simp [symbolsAll, ih]

theorem mem_listsAll {forms : List Form} {elements : List Form} :
    elements ∈ listsAll forms ↔ ∃ form ∈ forms, elements ∈ form.lists := by
  induction forms with
  | nil => simp [listsAll]
  | cons form rest ih => simp [listsAll, ih]

theorem boundForms_subset (bindings : List Form) : boundForms bindings ⊆ bindings.tail := by
  fun_induction boundForms bindings with
  | case1 name form rest ih =>
      intro other hother
      rcases List.mem_cons.mp hother with rfl | hother
      · exact List.mem_cons_self
      · exact List.mem_cons_of_mem _ (List.mem_of_mem_tail (ih hother))
  | case2 => exact List.nil_subset _

/-- A form that is given a name stands at an odd place. -/
theorem exists_place_of_mem_boundForms {bindings : List Form} {form : Form}
    (h : form ∈ boundForms bindings) : ∃ i, bindings[2 * i + 1]? = some form := by
  fun_induction boundForms bindings with
  | case1 name other rest ih =>
      rcases List.mem_cons.mp h with rfl | h
      · exact ⟨0, rfl⟩
      · obtain ⟨i, hi⟩ := ih h
        exact ⟨i + 1, by simpa [Nat.mul_add] using hi⟩
  | case2 => cases h

theorem parts_call {head : Form} (h : SpecialForm.ofHead? head = none) (rest : List Form) :
    (list (head :: rest)).parts = head :: rest := by
  simp only [parts, h]

theorem parts_binding {head : Form} (h : SpecialForm.ofHead? head = some .binding)
    (bindings body : List Form) :
    (list (head :: list bindings :: body)).parts = boundForms bindings ++ body := by
  simp only [parts, h]

theorem parts_special {head : Form} {special : SpecialForm}
    (h : SpecialForm.ofHead? head = some special) (hother : special ≠ .binding)
    (rest : List Form) : (list (head :: rest)).parts = rest := by
  cases special with
  | binding => exact absurd rfl hother
  | choice | loop | repetition => simp only [parts, h]

/-- A part of a list is an element of it, or a form that a `let` list gives a
name to. The head is a part only if the list is a call. -/
theorem mem_parts_list {head form : Form} {rest : List Form}
    (h : form ∈ (list (head :: rest)).parts) :
    (form ∈ rest ∨ form = head ∧ SpecialForm.ofHead? head = none) ∨
      ∃ bindings body, SpecialForm.ofHead? head = some .binding ∧ rest = list bindings :: body ∧
        form ∈ boundForms bindings := by
  cases hhead : SpecialForm.ofHead? head with
  | none =>
      rw [parts_call hhead] at h
      exact .inl ((List.mem_cons.mp h).symm.imp_right fun hsame => ⟨hsame, rfl⟩)
  | some special =>
      by_cases hbinding : special = .binding
      · subst hbinding
        match rest with
        | .list bindings :: body =>
            rw [parts_binding hhead] at h
            rcases List.mem_append.mp h with hbound | hbody
            · exact .inr ⟨bindings, body, rfl, rfl, hbound⟩
            · exact .inl (.inl (List.mem_cons_of_mem _ hbody))
        | [] => simp [parts, hhead] at h
        | .atom _ :: _ => simp [parts, hhead] at h
      · rw [parts_special hhead hbinding] at h
        exact .inl (.inl h)

/-- Induction over forms by what is evaluated: what holds of atoms, and of a
list whenever it holds of the parts of the list, holds of every form. -/
@[elab_as_elim] theorem parts_induction {motive : Form → Prop}
    (atom : ∀ value, motive (.atom value))
    (list : ∀ elements, (∀ form ∈ (Form.list elements).parts, motive form) →
      motive (.list elements)) (form : Form) : motive form := by
  -- parts may stand one level deeper than elements, so the elements of elements are carried along
  suffices h : motive form ∧ ∀ elements, form = .list elements → ∀ inner ∈ elements, motive inner
    from h.1
  induction form using Form.induction with
  | atom value => exact ⟨atom value, nofun⟩
  | list elements ih =>
      refine ⟨list elements fun form hform => ?_, ?_⟩
      · cases elements with
        | nil => cases hform
        | cons head rest =>
            rcases mem_parts_list hform with (hrest | ⟨rfl, -⟩) | ⟨bindings, body, -, rfl, hbound⟩
            · exact (ih form (List.mem_cons_of_mem _ hrest)).1
            · exact (ih form List.mem_cons_self).1
            · have hmember := List.mem_of_mem_tail (boundForms_subset bindings hbound)
              exact (ih (.list bindings) (by simp)).2 bindings rfl form hmember
      · rintro _ ⟨⟩ inner hinner
        exact (ih inner hinner).1

/-- The symbols of an element are symbols of the list, unless the element is
the head of a special form. -/
theorem mem_symbols_list {head form : Form} {rest : List Form} {name : String}
    (hform : form ∈ rest ∨ form = head ∧ SpecialForm.ofHead? head = none)
    (h : name ∈ form.symbols) : name ∈ (list (head :: rest)).symbols := by
  rcases hform with hform | ⟨rfl, hhead⟩
  · have hrest : name ∈ symbolsAll rest := mem_symbolsAll.mpr ⟨form, hform, h⟩
    rw [symbols]
    split
    · exact hrest
    · exact List.mem_append_right _ hrest
  · rw [symbols, hhead]
    exact List.mem_append_left _ h

theorem mem_lists_list {form : Form} {elements inner : List Form} (hform : form ∈ elements)
    (h : inner ∈ form.lists) : inner ∈ (list elements).lists := by
  rw [lists]
  exact List.mem_cons_of_mem _ (mem_listsAll.mpr ⟨form, hform, h⟩)

theorem HasListHeadedBy.list {form : Form} {elements : List Form} {name : String}
    (hform : form ∈ elements) (h : form.HasListHeadedBy name) :
    (list elements).HasListHeadedBy name := by
  obtain ⟨inner, hinner, hhead⟩ := h
  exact ⟨inner, mem_lists_list hform hinner, hhead⟩

theorem HasLetName.list {form : Form} {elements : List Form} {name : String}
    (hform : form ∈ elements) (h : form.HasLetName name) : (list elements).HasLetName name := by
  obtain ⟨bindings, body, hlet, hname⟩ := h
  exact ⟨bindings, body, mem_lists_list hform hlet, hname⟩

theorem hasListHeadedBy_self (head : Form) (rest : List Form) {special : SpecialForm}
    (h : SpecialForm.ofHead? head = some special) :
    (list (head :: rest)).HasListHeadedBy special.keyword := by
  refine ⟨head :: rest, ?_, ?_⟩
  · rw [lists]
    exact List.mem_cons_self
  · rw [SpecialForm.ofHead?_eq_some_iff.mp h]
    rfl

theorem hasLetName_self {head : Form} (h : SpecialForm.ofHead? head = some .binding)
    {bindings : List Form} (body : List Form) {i : Nat} {name : String}
    (hname : bindings[2 * i]? = some (symbol name)) :
    (list (head :: list bindings :: body)).HasLetName name := by
  refine ⟨bindings, body, ?_, i, hname⟩
  rw [SpecialForm.ofHead?_eq_some_iff.mp h, lists]
  exact List.mem_cons_self

/-- An atom in an element of a list that a form is made of is an atom of the
form. -/
theorem hasAtom_of_mem_lists {form inner : Form} {elements : List Form}
    (helements : elements ∈ form.lists) (hinner : inner ∈ elements) {value : Atom}
    (h : inner.HasAtom value) : form.HasAtom value := by
  induction form using Form.induction with
  | atom _ => cases helements
  | list outer ih =>
      rw [lists] at helements
      rcases List.mem_cons.mp helements with rfl | helements
      · exact hasAtom_list hinner h
      · obtain ⟨form, hform, hlists⟩ := mem_listsAll.mp helements
        exact hasAtom_list hform (ih form hform hlists)

theorem hasAtom_symbol (name : String) : (symbol name).HasAtom (.symbol name) :=
  List.mem_cons_self

theorem HasLetName.hasAtom {form : Form} {name : String} (h : form.HasLetName name) :
    form.HasAtom (.symbol name) := by
  obtain ⟨bindings, body, hlet, i, hi⟩ := h
  have hname : (Form.list bindings).HasAtom (.symbol name) :=
    hasAtom_list (List.mem_of_getElem? hi) (hasAtom_symbol name)
  exact hasAtom_of_mem_lists hlet (by simp) hname

/-- The symbols that count for the evaluation of a form are among its atoms. -/
theorem hasAtom_of_mem_symbols {form : Form} {name : String} (h : name ∈ form.symbols) :
    form.HasAtom (.symbol name) := by
  induction form using Form.induction with
  | atom value =>
      cases value with
      | symbol other =>
          obtain rfl : name = other := List.mem_singleton.mp h
          exact hasAtom_symbol name
      | number _ => cases h
      | text _ => cases h
  | list elements ih =>
      cases elements with
      | nil => cases h
      | cons head rest =>
          have hrest (hname : name ∈ symbolsAll rest) :
              (list (head :: rest)).HasAtom (.symbol name) := by
            obtain ⟨form, hform, hsymbols⟩ := mem_symbolsAll.mp hname
            have hmember := List.mem_cons_of_mem head hform
            exact hasAtom_list hmember (ih form hmember hsymbols)
          rw [symbols] at h
          split at h
          · exact hrest h
          · rcases List.mem_append.mp h with hhead | hname
            · exact hasAtom_list List.mem_cons_self (ih head List.mem_cons_self hhead)
            · exact hrest hname

end Form

end FlatLisp
