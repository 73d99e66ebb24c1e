import SchemaScope.Proofs.Scope.Course

/-!
Which resources the imports of a file lead to, said without the walk.

A resource is reached from a package, and the package decides how it contributes. The imports of the
file itself lead on from its own package; the public imports of a file that was reached lead on from
the package of that file. The walk finds nothing else: every finding is justified by this relation.
-/

set_option autoImplicit false

namespace SchemaScope.Registry

/-- The resources that the imports of a file lead to, each with the package it is reached from. -/
inductive Reaches (registry : Registry) (settings : Settings) (root : SchemaFile) :
    Resource → Package → Prop where
  | direct {statement : Import} {resource : Resource} :
      statement ∈ root.imports → registry.LeadsTo settings statement resource →
      Reaches registry settings root resource root.package
  | onward {middle : Resource} {package : Package} {file : SchemaFile} {statement : Import}
      {resource : Resource} :
      Reaches registry settings root middle package → settings.followPublic = true →
      middle.file? = some file → statement ∈ file.publicImports →
      registry.LeadsTo settings statement resource →
      Reaches registry settings root resource file.package

/-- The descriptor is imported by a file, or publicly by a file that it reaches. -/
inductive ReachesCatalogue (registry : Registry) (settings : Settings) (root : SchemaFile) :
    Prop where
  | direct {statement : Import} :
      statement ∈ root.imports → settings.isDescriptor statement.path = true →
      ReachesCatalogue registry settings root
  | onward {middle : Resource} {package : Package} {file : SchemaFile} {statement : Import} :
      registry.Reaches settings root middle package → settings.followPublic = true →
      middle.file? = some file → statement ∈ file.publicImports →
      settings.isDescriptor statement.path = true → ReachesCatalogue registry settings root

/-- What a finding says of the resources that a file reaches. -/
def Justifies (registry : Registry) (settings : Settings) (root : SchemaFile) : Finding → Prop
  | .catalogue _ => registry.ReachesCatalogue settings root
  | .unresolved _ _ => True
  | .repeated _ _ => True
  | .related _ file => ∃ resource package, registry.Reaches settings root resource package ∧
      resource.file? = some file ∧ package.related file.package = true
  | .unrelated _ resource => ∃ package, registry.Reaches settings root resource package ∧
      ∀ file, resource.file? = some file → package.related file.package = false

/-- Imports from which everything that they lead to is reached from a package. -/
structure Admits (registry : Registry) (settings : Settings) (root : SchemaFile)
    (package : Package) (imports : List Import) : Prop where
  resources : ∀ statement ∈ imports, ∀ resource,
    registry.LeadsTo settings statement resource → registry.Reaches settings root resource package
  catalogue : ∀ statement ∈ imports, settings.isDescriptor statement.path = true →
    registry.ReachesCatalogue settings root

variable {registry : Registry} {settings : Settings} {root : SchemaFile} {package : Package}

private theorem admits_imports : registry.Admits settings root root.package root.imports where
  resources _ member _ leads := .direct member leads
  catalogue _ member descriptor := .direct member descriptor

theorem Admits.tail {statement : Import} {rest : List Import}
    (admitted : registry.Admits settings root package (statement :: rest)) :
    registry.Admits settings root package rest where
  resources other member := admitted.resources other (List.mem_cons_of_mem _ member)
  catalogue other member := admitted.catalogue other (List.mem_cons_of_mem _ member)

private theorem Reaches.admits_onward {middle : Resource}
    (reached : registry.Reaches settings root middle package) :
    registry.Admits settings root middle.package (middle.onward settings) where
  resources statement member resource leads := by
    obtain ⟨follows, file, complete, held⟩ := Resource.mem_onward_iff.mp member
    rw [Resource.package_of_file? complete]
    exact .onward reached follows complete held leads
  catalogue statement member descriptor := by
    obtain ⟨follows, file, complete, held⟩ := Resource.mem_onward_iff.mp member
    exact .onward reached follows complete held descriptor

/-- A reached resource may be recorded either way, as its package says. -/
theorem justifies_recorded {resource : Resource} {package : Package}
    (reached : registry.Reaches settings root resource package) (path : String) :
    registry.Justifies settings root (Walk.recorded package path resource) := by
  cases complete : resource.file? with
  | none =>
      simp only [Walk.recorded, complete]
      exact ⟨package, reached, fun file other => by simp [complete] at other⟩
  | some file =>
      simp only [Walk.recorded, complete]
      split
      · next related => exact ⟨resource, package, reached, complete, related⟩
      · next unrelated =>
          refine ⟨package, reached, fun other same => ?_⟩
          obtain rfl : file = other := Option.some.inj (complete.symm.trans same)
          exact Bool.eq_false_iff.mpr unrelated

/-- Along admitted imports a course makes justified findings only. -/
theorem Yields.justifies {imports : List Import} {met : List Encounter} {trail : Trail}
    (course : registry.Yields settings package imports met trail)
    (admitted : registry.Admits settings root package imports) :
    ∀ finding ∈ trail.findings, registry.Justifies settings root finding := by
  induction course with
  | nil => simp
  | catalogue descriptor _ restIH =>
      have first := admitted.catalogue _ List.mem_cons_self descriptor
      exact List.forall_mem_cons.mpr ⟨first, restIH admitted.tail⟩
  | unresolved _ _ _ restIH => exact List.forall_mem_cons.mpr ⟨trivial, restIH admitted.tail⟩
  | repeated _ _ _ restIH => exact List.forall_mem_cons.mpr ⟨trivial, restIH admitted.tail⟩
  | entered leads _ _ _ innerIH restIH =>
      have reached := admitted.resources _ List.mem_cons_self _ leads
      refine List.forall_mem_append.mpr ⟨innerIH reached.admits_onward, ?_⟩
      exact List.forall_mem_cons.mpr ⟨justifies_recorded reached _, restIH admitted.tail⟩

/-- The walk from a file finds only what the file reaches. -/
theorem justifies_of_mem_findings (registry : Registry) (settings : Settings) (root : SchemaFile) :
    ∀ finding ∈ registry.findings settings root, registry.Justifies settings root finding := by
  unfold findings
  split
  next trail walked => exact (yields_of_follow walked).justifies admits_imports
  next => simp

end SchemaScope.Registry
