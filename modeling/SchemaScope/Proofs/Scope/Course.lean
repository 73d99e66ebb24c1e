import SchemaScope.Scope.Walk

/-!
The course of a walk, without a bound on its depth.

A walk takes its imports in order. Each of them stands for the catalogue, leads nowhere, leads to a
resource that was met before, or leads to a new resource, which is then entered. Whatever is to be
said of all walks is shown by induction on their courses, one case for each of these.
-/

set_option autoImplicit false

namespace SchemaScope

/-- The imports along which a walk goes on from a resource. -/
def Resource.onward (settings : Settings) (resource : Resource) : List Import :=
  match resource.file? with
  | some file => if settings.followPublic then file.publicImports else []
  | none => []

theorem Resource.mem_onward_iff {settings : Settings} {resource : Resource} {statement : Import} :
    statement ∈ resource.onward settings ↔
      settings.followPublic = true ∧
        ∃ file, resource.file? = some file ∧ statement ∈ file.publicImports := by
  unfold onward
  cases resource.file? with
  | none => simp
  | some file => cases settings.followPublic <;> simp

theorem Resource.contents_of_file? {resource : Resource} {file : SchemaFile}
    (complete : resource.file? = some file) : resource.contents = .complete file := by
  unfold file? at complete
  cases contents : resource.contents with
  | complete other =>
      rw [contents] at complete
      cases complete
      rfl
  | fragments declarations =>
      rw [contents] at complete
      cases complete

theorem Resource.package_of_file? {resource : Resource} {file : SchemaFile}
    (complete : resource.file? = some file) : resource.package = file.package := by
  rw [package, contents_of_file? complete]

namespace Registry

/-- An import that is not of the descriptor and leads to a resource. -/
def LeadsTo (registry : Registry) (settings : Settings) (statement : Import)
    (resource : Resource) : Prop :=
  settings.isDescriptor statement.path = false ∧ registry.resolve statement.path = .ok resource

/-- A walk along imports in a package, with some encounters behind it, leaves a trail. -/
inductive Yields (registry : Registry) (settings : Settings) :
    Package → List Import → List Encounter → Trail → Prop where
  | nil {package : Package} {met : List Encounter} :
      Yields registry settings package [] met ⟨met, []⟩
  | catalogue {package : Package} {statement : Import} {rest : List Import}
      {met : List Encounter} {trail : Trail} :
      settings.isDescriptor statement.path = true →
      Yields registry settings package rest met trail →
      Yields registry settings package (statement :: rest) met
        ⟨trail.met, .catalogue statement.path :: trail.findings⟩
  | unresolved {package : Package} {statement : Import} {rest : List Import}
      {met : List Encounter} {trail : Trail} {failure : ResolveFailure} :
      settings.isDescriptor statement.path = false →
      registry.resolve statement.path = .error failure →
      Yields registry settings package rest met trail →
      Yields registry settings package (statement :: rest) met
        ⟨trail.met, .unresolved statement.path failure :: trail.findings⟩
  | repeated {package : Package} {statement : Import} {rest : List Import}
      {met : List Encounter} {trail : Trail} {resource : Resource} :
      registry.LeadsTo settings statement resource → (resource.uri, package) ∈ met →
      Yields registry settings package rest met trail →
      Yields registry settings package (statement :: rest) met
        ⟨trail.met, .repeated statement.path package :: trail.findings⟩
  | entered {package : Package} {statement : Import} {rest : List Import}
      {met : List Encounter} {inner trail : Trail} {resource : Resource} :
      registry.LeadsTo settings statement resource → (resource.uri, package) ∉ met →
      Yields registry settings resource.package (resource.onward settings)
        ((resource.uri, package) :: met) inner →
      Yields registry settings package rest inner.met trail →
      Yields registry settings package (statement :: rest) met
        ⟨trail.met,
          inner.findings ++ Walk.recorded package statement.path resource :: trail.findings⟩

variable {registry : Registry} {settings : Settings} {package : Package} {met : List Encounter}
  {trail : Trail}

/-! ## The walk keeps to a course -/

/-- A resource that is entered is followed along its onward imports, or has none. -/
theorem followPublic_cases (settings : Settings) (follow : Walk.Follow) (resource : Resource)
    (met : List Encounter) :
    Walk.followPublic settings follow resource met =
        follow resource.package (resource.onward settings) met ∨
      (resource.onward settings = [] ∧
        Walk.followPublic settings follow resource met = some ⟨met, []⟩) := by
  unfold Walk.followPublic Resource.onward
  cases complete : resource.file? with
  | none => exact .inr ⟨rfl, rfl⟩
  | some file =>
      rw [Resource.package_of_file? complete]
      cases settings.followPublic with
      | false => exact .inr ⟨rfl, rfl⟩
      | true => exact .inl rfl

private theorem yields_of_followPublic {follow : Walk.Follow}
    (courses : ∀ {package imports met trail}, follow package imports met = some trail →
      registry.Yields settings package imports met trail)
    {resource : Resource}
    (followed : Walk.followPublic settings follow resource met = some trail) :
    registry.Yields settings resource.package (resource.onward settings) met trail := by
  rcases followPublic_cases settings follow resource met with calls | ⟨ends, stops⟩
  · exact courses (calls.symm.trans followed)
  · cases stops.symm.trans followed
    rw [ends]
    exact .nil

/-- A step of the walk is a rule of the course. -/
theorem yields_of_step {follow : Walk.Follow}
    (courses : ∀ {package imports met trail}, follow package imports met = some trail →
      registry.Yields settings package imports met trail)
    {statement : Import} {rest : List Import} {first : Trail}
    (taken : Walk.step settings registry.resolve follow package statement met = some first)
    (course : registry.Yields settings package rest first.met trail) :
    registry.Yields settings package (statement :: rest) met
      ⟨trail.met, first.findings ++ trail.findings⟩ := by
  unfold Walk.step at taken
  cases descriptor : settings.isDescriptor statement.path with
  | true =>
      simp only [descriptor, if_true, Option.some.injEq] at taken
      subst taken
      exact .catalogue descriptor course
  | false =>
      simp only [descriptor, Bool.false_eq_true, if_false] at taken
      cases resolved : registry.resolve statement.path with
      | error failure =>
          simp only [resolved, Option.some.injEq] at taken
          subst taken
          exact .unresolved descriptor resolved course
      | ok resource =>
          simp only [resolved] at taken
          unfold Walk.meet at taken
          split at taken
          next known =>
              cases taken
              exact .repeated ⟨descriptor, resolved⟩ known course
          next fresh =>
              obtain ⟨inner, followed, same⟩ := Option.map_eq_some_iff.mp taken
              subst same
              have entered := yields_of_followPublic courses followed
              simpa using Yields.entered ⟨descriptor, resolved⟩ fresh entered course

private theorem yields_of_steps {follow : Walk.Follow}
    (courses : ∀ {package imports met trail}, follow package imports met = some trail →
      registry.Yields settings package imports met trail)
    {imports : List Import}
    (walked : Walk.steps (Walk.step settings registry.resolve follow package) imports met
      = some trail) :
    registry.Yields settings package imports met trail := by
  induction imports generalizing met trail with
  | nil =>
      cases walked
      exact .nil
  | cons statement rest restIH =>
      obtain ⟨first, taken, walked⟩ := Option.bind_eq_some_iff.mp walked
      obtain ⟨others, othersTaken, same⟩ := Option.bind_eq_some_iff.mp walked
      cases same
      exact yields_of_step courses taken (restIH othersTaken)

/-- A walk that has a result keeps to a course, whatever depth it was allowed. -/
theorem yields_of_follow {depth : Nat} {imports : List Import}
    (walked : Walk.follow settings registry.resolve depth package imports met = some trail) :
    registry.Yields settings package imports met trail := by
  induction depth generalizing package imports met trail with
  | zero => cases walked
  | succ depth depthIH => exact yields_of_steps depthIH walked

theorem LeadsTo.unique {statement : Import} {left right : Resource}
    (leftLeads : registry.LeadsTo settings statement left)
    (rightLeads : registry.LeadsTo settings statement right) : left = right :=
  Except.ok.inj (leftLeads.2.symm.trans rightLeads.2)

/-- Where a course starts decides the whole of it. -/
theorem Yields.unique {imports : List Import} {other : Trail}
    (left : registry.Yields settings package imports met trail)
    (right : registry.Yields settings package imports met other) : trail = other := by
  induction left generalizing other with
  | nil =>
      cases right
      rfl
  | catalogue descriptor _ restIH =>
      cases right with
      | catalogue _ rest => rw [restIH rest]
      | unresolved ordinary _ _ => cases descriptor.symm.trans ordinary
      | repeated leads _ _ => cases descriptor.symm.trans leads.1
      | entered leads _ _ _ => cases descriptor.symm.trans leads.1
  | unresolved ordinary failed _ restIH =>
      cases right with
      | catalogue descriptor _ => cases descriptor.symm.trans ordinary
      | unresolved _ otherFailed rest =>
          cases failed.symm.trans otherFailed
          rw [restIH rest]
      | repeated leads _ _ => cases failed.symm.trans leads.2
      | entered leads _ _ _ => cases failed.symm.trans leads.2
  | repeated leads known _ restIH =>
      cases right with
      | catalogue descriptor _ => cases descriptor.symm.trans leads.1
      | unresolved _ failed _ => cases failed.symm.trans leads.2
      | repeated _ _ rest => rw [restIH rest]
      | entered otherLeads fresh _ _ => exact absurd (leads.unique otherLeads ▸ known) fresh
  | entered leads fresh _ _ innerIH restIH =>
      cases right with
      | catalogue descriptor _ => cases descriptor.symm.trans leads.1
      | unresolved _ failed _ => cases failed.symm.trans leads.2
      | repeated otherLeads known _ => exact absurd (otherLeads.unique leads ▸ known) fresh
      | entered otherLeads _ inner rest =>
          obtain rfl := leads.unique otherLeads
          obtain rfl := innerIH inner
          rw [restIH rest]

/-- Encounters are never forgotten. -/
theorem Yields.met_suffix {imports : List Import}
    (course : registry.Yields settings package imports met trail) : met <:+ trail.met := by
  induction course with
  | nil => exact List.suffix_rfl
  | catalogue _ _ restIH => exact restIH
  | unresolved _ _ _ restIH => exact restIH
  | repeated _ _ _ restIH => exact restIH
  | entered _ _ _ _ innerIH restIH => exact ((List.suffix_cons _ _).trans innerIH).trans restIH

end Registry

end SchemaScope
