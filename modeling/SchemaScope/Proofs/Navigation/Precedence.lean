import SchemaScope.Proofs.Navigation.FullNames

/-!
Which declaration a query opens.

The scope of navigation is merged from three layers that leave out repetitions, and each query goes
through its names on that scope. Neither changes what comes first: a name leads to the first layer
that has it, and a query opens the declaration of its first name that leads anywhere, once.
-/

set_option autoImplicit false

namespace SchemaScope

def Resource.firstListed? (resource : Resource) (name : QualifiedName) : Option Declaration :=
  ((resource.listing .all).find? (Description.isNamed name)).map Description.declaration

namespace Registry

variable {registry : Registry} {settings : Settings} {query : Query}

/-- What a name leads to from a resource: local names come before imported ones, and both before the
listing of the resource. Fragments have no other layer than their listing. -/
def firstInLayers? (registry : Registry) (settings : Settings) (resource : Resource)
    (name : QualifiedName) : Option Declaration :=
  match resource.file? with
  | some root =>
      ((root.localScope .all).lookup? name).or
        (((registry.importedScope settings root .all).lookup? name).or
          (resource.firstListed? name))
  | none => resource.firstListed? name

theorem find?_eq_bind (registry : Registry) (settings : Settings) (path : String)
    (name : QualifiedName) :
    registry.find? settings path name =
      (registry.get? path).bind fun resource =>
        registry.firstInLayers? settings resource name := by
  cases indexed : registry.get? path with
  | none => simp [find?, indexed]
  | some resource =>
      rw [Option.bind_some, firstInLayers?]
      cases complete : resource.file? with
      | some root => exact find?_eq_layers indexed complete name
      | none =>
          have listed : (SymbolIndex.empty.extend (resource.listing .all)).lookup? name =
              resource.firstListed? name :=
            SymbolIndex.faithful_empty.lookup?_extend (resource.listing .all) name
          simpa [find?, indexed, navigationScope, complete] using listed

/-! ## The first name that is found -/

/-- A name of a query that leads to a declaration, while no name before it leads anywhere. -/
def FirstFound (registry : Registry) (settings : Settings) (query : Query) (name : QualifiedName)
    (declaration : Declaration) : Prop :=
  ∃ earlier later, query.names = earlier ++ name :: later ∧
    (∀ other ∈ earlier, registry.find? settings query.path other = none) ∧
    registry.find? settings query.path name = some declaration

private theorem FirstFound.mem_names {name : QualifiedName} {declaration : Declaration}
    (first : registry.FirstFound settings query name declaration) : name ∈ query.names := by
  obtain ⟨earlier, later, split, _⟩ := first
  rw [split]
  exact List.mem_append_right earlier List.mem_cons_self

/-- Whatever the editor was asked to open before, going through names asks for one location more,
that of the first name that the scope has, or for none. -/
theorem run_openFirst_cases (scope : SymbolIndex) (activate : Bool) (names : List QualifiedName)
    (openings : List (Location × Bool)) :
    (∃ earlier name later declaration, names = earlier ++ name :: later ∧
      (∀ other ∈ earlier, scope.lookup? other = none) ∧ scope.lookup? name = some declaration ∧
      (openFirst scope activate names).run openings =
        (.opened name declaration, openings ++ [(declaration.location, activate)])) ∨
    ((∀ name ∈ names, scope.lookup? name = none) ∧
      (openFirst scope activate names).run openings = (.unresolved, openings)) := by
  induction names with
  | nil => exact .inr ⟨by simp, rfl⟩
  | cons first rest restIH =>
      cases known : scope.lookup? first with
      | some declaration =>
          refine .inl ⟨[], first, rest, declaration, rfl, by simp, known, ?_⟩
          simp only [openFirst, known]
          rfl
      | none =>
          have passed : openFirst scope activate (first :: rest) =
              openFirst scope activate rest := by
            simp only [openFirst, known]
          rw [passed]
          rcases restIH with
            ⟨earlier, name, later, declaration, split, missed, found, ran⟩ | ⟨missed, ran⟩
          · refine .inl ⟨first :: earlier, name, later, declaration, ?_, ?_, found, ran⟩
            · rw [split, List.cons_append]
            · exact List.forall_mem_cons.mpr ⟨known, missed⟩
          · exact .inr ⟨List.forall_mem_cons.mpr ⟨known, missed⟩, ran⟩

private theorem navigate_cases (registry : Registry) (settings : Settings) (query : Query) :
    (∃ name declaration, registry.FirstFound settings query name declaration ∧
      registry.navigate settings query =
        ⟨.opened name declaration, [(declaration.location, settings.activateEditor)]⟩) ∨
    ((∀ name ∈ query.names, registry.find? settings query.path name = none) ∧
      (registry.navigate settings query = ⟨.notIndexed, []⟩ ∨
        registry.navigate settings query = ⟨.unresolved, []⟩)) := by
  unfold navigate answerQuery FirstFound
  cases indexed : registry.get? query.path with
  | none => exact .inr ⟨fun name _ => by simp [find?, indexed], .inl rfl⟩
  | some resource =>
      have looked : ∀ name, registry.find? settings query.path name =
          (registry.navigationScope settings resource).lookup? name := by
        intro name
        simp [find?, indexed]
      simp only [looked]
      rcases run_openFirst_cases (registry.navigationScope settings resource)
          settings.activateEditor query.names [] with
        ⟨earlier, name, later, declaration, split, missed, found, ran⟩ | ⟨missed, ran⟩
      · rw [ran]
        exact .inl ⟨name, declaration, ⟨earlier, later, split, missed, found⟩, rfl⟩
      · rw [ran]
        exact .inr ⟨missed, .inr rfl⟩

/-- A name leads to the first of its layers that has it. A query succeeds if some name of it leads
to a declaration; then the declaration of the first such name is opened, and nothing else. -/
theorem navigation_first_match (registry : Registry) (settings : Settings) :
    (∀ path name, registry.find? settings path name =
      (registry.get? path).bind fun resource =>
        registry.firstInLayers? settings resource name) ∧
    ∀ query,
      ((registry.navigate settings query).succeeded = true ↔
        ∃ name ∈ query.names, ∃ declaration,
          registry.find? settings query.path name = some declaration) ∧
      ((∃ name declaration, registry.FirstFound settings query name declaration ∧
          (registry.navigate settings query).succeeded = true ∧
          (registry.navigate settings query).openings =
            [(⟨declaration.uri, declaration.range⟩, settings.activateEditor)]) ∨
        ((∀ name ∈ query.names, registry.find? settings query.path name = none) ∧
          (registry.navigate settings query).succeeded = false ∧
          (registry.navigate settings query).openings = [])) := by
  refine ⟨registry.find?_eq_bind settings, fun query => ?_⟩
  rcases registry.navigate_cases settings query with
    ⟨name, declaration, first, opened⟩ | ⟨missed, closed⟩
  · have found : registry.find? settings query.path name = some declaration := by
      obtain ⟨_, _, _, _, found⟩ := first
      exact found
    rw [opened]
    exact ⟨⟨fun _ => ⟨name, first.mem_names, declaration, found⟩, fun _ => rfl⟩,
      .inl ⟨name, declaration, first, rfl, rfl⟩⟩
  · have failed : (registry.navigate settings query).succeeded = false ∧
        (registry.navigate settings query).openings = [] := by
      rcases closed with notIndexed | unresolved
      · rw [notIndexed]
        exact ⟨rfl, rfl⟩
      · rw [unresolved]
        exact ⟨rfl, rfl⟩
    refine ⟨⟨fun succeeded => ?_, fun found => ?_⟩, .inr ⟨missed, failed⟩⟩
    · cases failed.1.symm.trans succeeded
    · obtain ⟨name, member, declaration, known⟩ := found
      cases (missed name member).symm.trans known

end Registry

end SchemaScope
