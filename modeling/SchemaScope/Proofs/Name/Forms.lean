import Mathlib.Data.List.Chain
import SchemaScope.Name

/-!
The forms of a name, one by one.

A form becomes the next one by what is put in front of it: one more scope, from the innermost
outwards, and in the end the package. So the forms can be built one from the other, without ever
looking at the whole chain of scopes, and the last of them is the full name.
-/

set_option autoImplicit false

namespace SchemaScope

variable {name : String} {scopes : List String} {package : Package}

/-- A form that stands at the end of a longer one. -/
def QualifiedName.Ends (form longer : QualifiedName) : Prop :=
  form.length < longer.length ∧ form.segments <:+ longer.segments

private theorem QualifiedName.ends_prepend {around : List String} (filled : around ≠ [])
    (form : QualifiedName) : form.Ends (form.prepend around) := by
  have grows : 0 < around.length := List.length_pos_iff.mpr filled
  constructor
  · simp only [length, prepend, List.length_append]
    omega
  · exact List.suffix_append around form.segments

private theorem fullName_eq_prepend (name : String) (scopes : List String) (package : Package) :
    fullName name scopes package = QualifiedName.prepend ⟨scopes ++ [name]⟩ package.segments := by
  rw [fullName, QualifiedName.prepend, List.append_assoc]

/-! ## The forms without a package -/

private theorem scopedForms_cons (name outer : String) (inner : List String) :
    scopedForms name (outer :: inner) =
      scopedForms name inner ++ [QualifiedName.prepend ⟨inner ++ [name]⟩ [outer]] := rfl

theorem length_scopedForms (name : String) (scopes : List String) :
    (scopedForms name scopes).length = scopes.length + 1 := by
  induction scopes with
  | nil => rfl
  | cons outer inner innerIH => simp [scopedForms, innerIH]

private theorem drop_scopedForms (name : String) (scopes : List String) :
    (scopedForms name scopes).drop scopes.length = [⟨scopes ++ [name]⟩] := by
  cases scopes with
  | nil => rfl
  | cons outer inner =>
      rw [scopedForms, List.length_cons, ← length_scopedForms name inner, List.drop_left]

private theorem getLast?_scopedForms (name : String) (scopes : List String) :
    (scopedForms name scopes).getLast? = some ⟨scopes ++ [name]⟩ := by
  cases scopes with
  | nil => rfl
  | cons outer inner => exact List.getLast?_concat

private theorem getElem?_scopedForms {index : Nat} (within : index ≤ scopes.length) :
    (scopedForms name scopes)[index]? =
      some ⟨scopes.drop (scopes.length - index) ++ [name]⟩ := by
  induction scopes with
  | nil =>
      obtain rfl : index = 0 := Nat.le_zero.mp within
      rfl
  | cons outer inner innerIH =>
      rw [scopedForms_cons, List.length_cons]
      by_cases whole : index = inner.length + 1
      · subst whole
        rw [← length_scopedForms name inner, List.getElem?_concat_length, Nat.sub_self]
        rfl
      · have innermost : index ≤ inner.length := by
          rw [List.length_cons] at within
          omega
        have before : index < (scopedForms name inner).length := by
          rw [length_scopedForms]
          omega
        rw [List.getElem?_append_left before, innerIH innermost, Nat.succ_sub innermost,
          List.drop_succ_cons]

/-! ## All forms -/

private theorem nameForms_cases (name : String) (scopes : List String) (package : Package) :
    (package.segments = [] ∧ nameForms name scopes package = scopedForms name scopes ∧
      fullName name scopes package = ⟨scopes ++ [name]⟩) ∨
    (package.segments ≠ [] ∧ nameForms name scopes package =
      scopedForms name scopes ++ [fullName name scopes package]) := by
  obtain ⟨segments⟩ := package
  cases segments with
  | nil => exact .inl ⟨rfl, List.append_nil _, rfl⟩
  | cons first rest => exact .inr ⟨List.cons_ne_nil first rest, rfl⟩

theorem length_nameForms (name : String) (scopes : List String) (package : Package) :
    (nameForms name scopes package).length =
      if package.segments = [] then scopes.length + 1 else scopes.length + 2 := by
  rcases nameForms_cases name scopes package with ⟨none, forms, _⟩ | ⟨filled, forms⟩
  · rw [forms, length_scopedForms, if_pos none]
  · rw [forms, List.length_append, length_scopedForms, if_neg filled]
    rfl

/-- The form at an index has so many of the innermost scopes. -/
theorem getElem?_nameForms {index : Nat} (within : index ≤ scopes.length) :
    (nameForms name scopes package)[index]? =
      some ⟨scopes.drop (scopes.length - index) ++ [name]⟩ := by
  have before : index < (scopedForms name scopes).length := by
    rw [length_scopedForms]
    omega
  rw [nameForms, List.getElem?_append_left before, getElem?_scopedForms within]

private theorem getElem?_nameForms_package (filled : package.segments ≠ []) :
    (nameForms name scopes package)[scopes.length + 1]? =
      some ⟨package.segments ++ scopes ++ [name]⟩ := by
  rcases nameForms_cases name scopes package with ⟨none, _⟩ | ⟨_, forms⟩
  · exact absurd none filled
  · rw [forms, ← length_scopedForms name scopes, List.getElem?_concat_length]
    rfl

/-- Past the scopes come the whole chain and, in a package, the full name. -/
theorem drop_nameForms (name : String) (scopes : List String) (package : Package) :
    (nameForms name scopes package).drop scopes.length =
      ⟨scopes ++ [name]⟩ :: if package.isDefault then [] else [fullName name scopes package] := by
  have within : scopes.length ≤ (scopedForms name scopes).length := by
    rw [length_scopedForms]
    omega
  rw [nameForms, List.drop_append_of_le_length within, drop_scopedForms]
  rfl

private theorem getLast?_nameForms (name : String) (scopes : List String) (package : Package) :
    (nameForms name scopes package).getLast? = some (fullName name scopes package) := by
  rcases nameForms_cases name scopes package with ⟨_, forms, full⟩ | ⟨_, forms⟩
  · rw [forms, full, getLast?_scopedForms]
  · rw [forms, List.getLast?_concat]

/-! ## Each form at the end of the next -/

private theorem isChain_concat_prepend {forms : List QualifiedName} {last : QualifiedName}
    {around : List String} (chain : forms.IsChain QualifiedName.Ends)
    (ending : forms.getLast? = some last) (filled : around ≠ []) :
    (forms ++ [last.prepend around]).IsChain QualifiedName.Ends := by
  refine chain.append (.singleton _) ?_
  intro form final next first
  obtain rfl : last = form := Option.some.inj (ending.symm.trans final)
  obtain rfl : last.prepend around = next := Option.some.inj first
  exact last.ends_prepend filled

private theorem isChain_scopedForms (name : String) (scopes : List String) :
    (scopedForms name scopes).IsChain QualifiedName.Ends := by
  induction scopes with
  | nil => exact .singleton _
  | cons outer inner innerIH =>
      rw [scopedForms_cons]
      exact isChain_concat_prepend innerIH (getLast?_scopedForms name inner)
        (List.cons_ne_nil outer [])

/-- Each form is the end of the next one. -/
theorem isChain_nameForms (name : String) (scopes : List String) (package : Package) :
    (nameForms name scopes package).IsChain QualifiedName.Ends := by
  rcases nameForms_cases name scopes package with ⟨_, forms, _⟩ | ⟨filled, forms⟩
  · rw [forms]
    exact isChain_scopedForms name scopes
  · rw [forms, fullName_eq_prepend]
    exact isChain_concat_prepend (isChain_scopedForms name scopes)
      (getLast?_scopedForms name scopes) filled

/-! ## Growing the forms -/

/-- The forms found so far and the last of them. -/
structure Growth where
  last : QualifiedName
  forms : List QualifiedName

namespace Growth

def start (name : String) : Growth :=
  ⟨.simple name, [.simple name]⟩

/-- One more scope is put in front of the last form. -/
def enclose (growth : Growth) (scope : String) : Growth :=
  let next := growth.last.prepend [scope]
  ⟨next, growth.forms ++ [next]⟩

def finish (growth : Growth) (package : Package) : List QualifiedName :=
  if package.isDefault then growth.forms
  else growth.forms ++ [growth.last.prepend package.segments]

def reached (name : String) (scopes : List String) : Growth :=
  ⟨⟨scopes ++ [name]⟩, scopedForms name scopes⟩

private theorem enclose_reached (name outer : String) (inner : List String) :
    (reached name inner).enclose outer = reached name (outer :: inner) := rfl

/-- The outermost scope is the last one to be put in front. -/
private theorem foldl_enclose (name : String) (scopes : List String) :
    scopes.reverse.foldl enclose (start name) = reached name scopes := by
  induction scopes with
  | nil => rfl
  | cons outer inner innerIH =>
      rw [List.reverse_cons, List.foldl_append, innerIH]
      exact enclose_reached name outer inner

private theorem finish_reached (name : String) (scopes : List String) (package : Package) :
    (reached name scopes).finish package = nameForms name scopes package := by
  rw [finish, nameForms, fullName_eq_prepend]
  split
  next => exact (List.append_nil _).symm
  next => rfl

end Growth

/-! ## What the forms are -/

/-- The forms of a name in their order: with ever more of the scopes around it and, unless the
package is the default one, with all of them and the package. -/
structure FormsOf (name : String) (scopes : List String) (package : Package)
    (forms : List QualifiedName) : Prop where
  length : forms.length = if package.segments = [] then scopes.length + 1 else scopes.length + 2
  around : ∀ index ≤ scopes.length,
    forms[index]? = some ⟨scopes.drop (scopes.length - index) ++ [name]⟩
  packaged : package.segments ≠ [] →
    forms[scopes.length + 1]? = some ⟨package.segments ++ scopes ++ [name]⟩
  increasing : (forms.map QualifiedName.length).Pairwise (· < ·)
  suffixes : forms.IsChain fun form next => form.segments <:+ next.segments
  full : forms.getLast? = some (fullName name scopes package)

/-- The forms are these, and they are also what one gets by putting scope after scope in front of
the name and the package in front of the last form. -/
theorem formsOf_nameForms (name : String) (scopes : List String) (package : Package) :
    FormsOf name scopes package (nameForms name scopes package) ∧
      nameForms name scopes package =
        (scopes.reverse.foldl Growth.enclose (.start name)).finish package := by
  have chain := isChain_nameForms name scopes package
  constructor
  · exact {
      length := length_nameForms name scopes package
      around := fun _ within => getElem?_nameForms within
      packaged := getElem?_nameForms_package
      increasing := by
        have lengths := chain.imp fun _ _ ends => ends.1
        exact ((List.isChain_map QualifiedName.length).mpr lengths).pairwise
      suffixes := chain.imp fun _ _ ends => ends.2
      full := getLast?_nameForms name scopes package }
  · rw [Growth.foldl_enclose, Growth.finish_reached]

end SchemaScope
