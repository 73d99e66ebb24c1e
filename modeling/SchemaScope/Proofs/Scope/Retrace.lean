import Mathlib.Logic.Relation
import SchemaScope.Proofs.Scope.Closure

/-!
The walk without a memory.

A retracing walk enters a resource each time an import leads to it. If no reached resource leads
back to itself through public imports, it ends, and what it offers is what the walk offers, in the
same order. An encounter that the walk passes over was then completed before: only what is still
being followed could be met again unfinished, and that would close a cycle. Everything that entering
it once more could offer is therefore there already.
-/

set_option autoImplicit false

namespace SchemaScope

abbrev Walk.Retracing := Package → List Import → Option (List Finding)

namespace Walk

def retraceStep (settings : Settings) (resolve : String → Except ResolveFailure Resource)
    (enter : Retracing) (package : Package) (statement : Import) : Option (List Finding) :=
  if settings.isDescriptor statement.path then some [.catalogue statement.path]
  else
    match resolve statement.path with
    | .error failure => some [.unresolved statement.path failure]
    | .ok resource =>
        (enter resource.package (resource.onward settings)).map fun inner =>
          inner ++ [recorded package statement.path resource]

def retraceSteps (take : Import → Option (List Finding)) : List Import → Option (List Finding)
  | [] => some []
  | statement :: rest => do
      let first ← take statement
      let others ← retraceSteps take rest
      pure (first ++ others)

/-- Walks along imports through at most `depth` levels of files, and remembers nothing. -/
def retrace (settings : Settings) (resolve : String → Except ResolveFailure Resource) :
    Nat → Retracing
  | 0 => fun _ _ => none
  | depth + 1 => fun package imports =>
      retraceSteps (retraceStep settings resolve (retrace settings resolve depth) package) imports

variable {settings : Settings} {resolve : String → Except ResolveFailure Resource}
  {package : Package} {statement : Import}

private theorem retraceStep_descriptor (enter : Retracing)
    (descriptor : settings.isDescriptor statement.path = true) :
    retraceStep settings resolve enter package statement = some [.catalogue statement.path] := by
  simp [retraceStep, descriptor]

private theorem retraceStep_error (enter : Retracing) {failure : ResolveFailure}
    (ordinary : settings.isDescriptor statement.path = false)
    (failed : resolve statement.path = .error failure) :
    retraceStep settings resolve enter package statement =
      some [.unresolved statement.path failure] := by
  simp [retraceStep, ordinary, failed]

private theorem retraceStep_ok (enter : Retracing) {resource : Resource}
    (ordinary : settings.isDescriptor statement.path = false)
    (resolved : resolve statement.path = .ok resource) :
    retraceStep settings resolve enter package statement =
      (enter resource.package (resource.onward settings)).map fun inner =>
        inner ++ [recorded package statement.path resource] := by
  simp [retraceStep, ordinary, resolved]

/-! ## More depth changes nothing -/

private theorem retraceStep_mono {enter deeper : Retracing}
    (agrees : ∀ {package imports findings}, enter package imports = some findings →
      deeper package imports = some findings)
    {findings : List Finding}
    (taken : retraceStep settings resolve enter package statement = some findings) :
    retraceStep settings resolve deeper package statement = some findings := by
  cases descriptor : settings.isDescriptor statement.path with
  | true =>
      rw [retraceStep_descriptor _ descriptor] at taken ⊢
      exact taken
  | false =>
      cases resolved : resolve statement.path with
      | error failure =>
          rw [retraceStep_error _ descriptor resolved] at taken ⊢
          exact taken
      | ok resource =>
          rw [retraceStep_ok _ descriptor resolved] at taken ⊢
          obtain ⟨inner, entered, same⟩ := Option.map_eq_some_iff.mp taken
          exact Option.map_eq_some_iff.mpr ⟨inner, agrees entered, same⟩

private theorem retraceSteps_mono {take deeper : Import → Option (List Finding)}
    (agrees : ∀ {statement findings}, take statement = some findings →
      deeper statement = some findings)
    {imports : List Import} {findings : List Finding}
    (taken : retraceSteps take imports = some findings) :
    retraceSteps deeper imports = some findings := by
  induction imports generalizing findings with
  | nil => exact taken
  | cons statement rest restIH =>
      obtain ⟨first, firstTaken, taken⟩ := Option.bind_eq_some_iff.mp taken
      obtain ⟨others, othersTaken, same⟩ := Option.bind_eq_some_iff.mp taken
      exact Option.bind_eq_some_iff.mpr ⟨first, agrees firstTaken,
        Option.bind_eq_some_iff.mpr ⟨others, restIH othersTaken, same⟩⟩

private theorem retrace_mono {depth deeper : Nat} (le : depth ≤ deeper) {imports : List Import}
    {findings : List Finding}
    (retraced : retrace settings resolve depth package imports = some findings) :
    retrace settings resolve deeper package imports = some findings := by
  induction depth generalizing deeper package imports findings with
  | zero => cases retraced
  | succ depth depthIH =>
      cases deeper with
      | zero => omega
      | succ deeper =>
          exact retraceSteps_mono
            (retraceStep_mono (depthIH (Nat.le_of_succ_le_succ le))) retraced

/-- Without a memory the depth decides only whether there is a result. -/
theorem retrace_unique {depth other : Nat} {imports : List Import} {left right : List Finding}
    (leftRetraced : retrace settings resolve depth package imports = some left)
    (rightRetraced : retrace settings resolve other package imports = some right) :
    left = right :=
  Option.some.inj ((retrace_mono (Nat.le_max_left depth other) leftRetraced).symm.trans
    (retrace_mono (Nat.le_max_right depth other) rightRetraced))

private theorem retrace_cons {depth : Nat} {rest : List Import} {findings : List Finding}
    (retraced : retrace settings resolve depth package (statement :: rest) = some findings) :
    ∃ shallower first others,
      retraceStep settings resolve (retrace settings resolve shallower) package statement =
        some first ∧
      retrace settings resolve depth package rest = some others ∧ findings = first ++ others := by
  cases depth with
  | zero => cases retraced
  | succ shallower =>
      obtain ⟨first, firstTaken, retraced⟩ := Option.bind_eq_some_iff.mp retraced
      obtain ⟨others, othersTaken, same⟩ := Option.bind_eq_some_iff.mp retraced
      exact ⟨shallower, first, others, firstTaken, othersTaken, (Option.some.inj same).symm⟩

end Walk

namespace Registry

variable {registry : Registry} {settings : Settings} {root : SchemaFile} {package : Package}
  {met : List Encounter} {trail : Trail}

def PassesOn (registry : Registry) (settings : Settings) (root : SchemaFile)
    (resource next : Resource) : Prop :=
  (∃ package, registry.Reaches settings root resource package) ∧
    (∃ package, registry.Reaches settings root next package) ∧
    ∃ file, resource.file? = some file ∧
      ∃ statement ∈ file.publicImports, registry.LeadsTo settings statement next

def Acyclic (registry : Registry) (settings : Settings) (root : SchemaFile) : Prop :=
  ∀ resource, ¬ Relation.TransGen (registry.PassesOn settings root) resource resource

/-- Imports in a package that are followed while resources with the pending uris are not yet done:
what they lead to is reached, and never leads to a pending uri. -/
structure Avoids (registry : Registry) (settings : Settings) (root : SchemaFile)
    (package : Package) (imports : List Import) (pending : List String) : Prop where
  reached : ∀ statement ∈ imports, ∀ resource, registry.LeadsTo settings statement resource →
    registry.Reaches settings root resource package
  apart : ∀ statement ∈ imports, ∀ resource, registry.LeadsTo settings statement resource →
    ∀ later, Relation.ReflTransGen (registry.PassesOn settings root) resource later →
      later.uri ∉ pending

private theorem avoids_imports (registry : Registry) (settings : Settings) (root : SchemaFile) :
    registry.Avoids settings root root.package root.imports [] where
  reached _ member _ leads := .direct member leads
  apart := by simp

theorem Avoids.tail {statement : Import} {rest : List Import} {pending : List String}
    (avoids : registry.Avoids settings root package (statement :: rest) pending) :
    registry.Avoids settings root package rest pending where
  reached other member := avoids.reached other (List.mem_cons_of_mem _ member)
  apart other member := avoids.apart other (List.mem_cons_of_mem _ member)

private theorem resolved_of_passesOn {resource later : Resource} {path : String}
    (resolved : registry.resolve path = .ok resource)
    (leads : Relation.ReflTransGen (registry.PassesOn settings root) resource later) :
    ∃ other, registry.resolve other = .ok later := by
  cases leads with
  | refl => exact ⟨path, resolved⟩
  | tail _ last =>
      obtain ⟨_, _, _, _, statement, _, leads⟩ := last
      exact ⟨statement.path, leads.2⟩

/-- A resource that is entered becomes one of those that are pending. -/
theorem Avoids.onward (consistent : registry.Consistent) (acyclic : registry.Acyclic settings root)
    {statement : Import} {rest : List Import} {pending : List String}
    (avoids : registry.Avoids settings root package (statement :: rest) pending)
    {resource : Resource} (leads : registry.LeadsTo settings statement resource) :
    registry.Avoids settings root resource.package (resource.onward settings)
      (resource.uri :: pending) := by
  have here := avoids.reached statement List.mem_cons_self resource leads
  have passes : ∀ next ∈ resource.onward settings, ∀ target,
      registry.LeadsTo settings next target →
      registry.Reaches settings root target resource.package ∧
        registry.PassesOn settings root resource target := by
    intro next member target targetLeads
    obtain ⟨follows, file, complete, isPublic⟩ := Resource.mem_onward_iff.mp member
    have reached := Reaches.onward here follows complete isPublic targetLeads
    rw [Resource.package_of_file? complete]
    exact ⟨reached, ⟨package, here⟩, ⟨_, reached⟩, file, complete, next, isPublic, targetLeads⟩
  refine ⟨fun next member target targetLeads => (passes next member target targetLeads).1, ?_⟩
  intro next member target targetLeads later further pendingUri
  have passed := (passes next member target targetLeads).2
  rcases List.mem_cons.mp pendingUri with same | earlier
  · obtain ⟨path, resolved⟩ := resolved_of_passesOn targetLeads.2 further
    obtain rfl := consistent.resolve_unique resolved leads.2 same
    exact acyclic later (.head' passed further)
  · exact avoids.apart statement List.mem_cons_self resource leads later
      (.head passed further) earlier

/-! ## Retracing ends -/

private theorem retraceStep_total (consistent : registry.Consistent)
    (acyclic : registry.Acyclic settings root) {enter : Walk.Retracing} {statement : Import}
    {rest : List Import} {pending : List String}
    (avoids : registry.Avoids settings root package (statement :: rest) pending)
    (total : ∀ {package imports uri},
      registry.Avoids settings root package imports (uri :: pending) → uri ∉ pending →
      uri ∈ registry.resources.map Resource.uri →
      ∃ findings, enter package imports = some findings) :
    ∃ first, Walk.retraceStep settings registry.resolve enter package statement = some first := by
  cases descriptor : settings.isDescriptor statement.path with
  | true => exact ⟨_, Walk.retraceStep_descriptor _ descriptor⟩
  | false =>
      cases resolved : registry.resolve statement.path with
      | error failure => exact ⟨_, Walk.retraceStep_error _ descriptor resolved⟩
      | ok resource =>
          have leads : registry.LeadsTo settings statement resource := ⟨descriptor, resolved⟩
          have fresh := avoids.apart statement List.mem_cons_self resource leads resource .refl
          have held : resource.uri ∈ registry.resources.map Resource.uri :=
            List.mem_map.mpr ⟨resource, mem_resources_of_resolve resolved, rfl⟩
          obtain ⟨inner, entered⟩ :=
            total (avoids.onward consistent acyclic leads) fresh held
          rw [Walk.retraceStep_ok _ descriptor resolved, entered]
          exact ⟨_, rfl⟩

/-- Without cycles the pending resources are different ones, so their number bounds the depth. -/
theorem retrace_total (consistent : registry.Consistent) (acyclic : registry.Acyclic settings root)
    {depth : Nat} {imports : List Import} {pending : List String}
    (avoids : registry.Avoids settings root package imports pending) (distinct : pending.Nodup)
    (stored : pending ⊆ registry.resources.map Resource.uri)
    (enough : registry.resources.length < depth + pending.length) :
    ∃ findings, Walk.retrace settings registry.resolve depth package imports = some findings := by
  induction depth generalizing package imports pending with
  | zero =>
      have bounded := (List.subperm_of_subset distinct stored).length_le
      rw [List.length_map] at bounded
      omega
  | succ depth depthIH =>
      induction imports with
      | nil => exact ⟨[], rfl⟩
      | cons statement rest restIH =>
          obtain ⟨others, othersTaken⟩ := restIH avoids.tail
          obtain ⟨first, firstTaken⟩ : ∃ first, Walk.retraceStep settings registry.resolve
              (Walk.retrace settings registry.resolve depth) package statement = some first := by
            apply retraceStep_total consistent acyclic avoids
            intro _ _ uri deeper fresh held
            exact depthIH deeper (List.nodup_cons.mpr ⟨fresh, distinct⟩)
              (List.cons_subset.mpr ⟨held, stored⟩) (by rw [List.length_cons]; omega)
          exact ⟨first ++ others, Option.bind_eq_some_iff.mpr ⟨first, firstTaken,
            Option.bind_eq_some_iff.mpr ⟨others, othersTaken, rfl⟩⟩⟩

/-! ## Passing over an encounter loses nothing -/

def offers (settings : Settings) (filter : Filter) (findings : List Finding) : List Description :=
  findings.flatMap (Finding.descriptions settings filter)

private theorem offers_append (settings : Settings) (filter : Filter)
    (first second : List Finding) :
    offers settings filter (first ++ second) =
      offers settings filter first ++ offers settings filter second :=
  List.flatMap_append

private theorem offers_cons (settings : Settings) (filter : Filter) (finding : Finding)
    (rest : List Finding) :
    offers settings filter (finding :: rest) =
      finding.descriptions settings filter ++ offers settings filter rest :=
  List.flatMap_cons

/-- Entering a resource from a package offers nothing that is not in an index. -/
def Settled (registry : Registry) (settings : Settings) (filter : Filter) (index : SymbolIndex)
    (resource : Resource) (package : Package) : Prop :=
  ∀ depth path inner, Walk.retrace settings registry.resolve depth resource.package
      (resource.onward settings) = some inner →
    ∀ description ∈ offers settings filter (inner ++ [Walk.recorded package path resource]),
      description ∈ index.entries

/-- Every encounter of a walk is pending, or its resource is settled. -/
def Progress (registry : Registry) (settings : Settings) (filter : Filter)
    (pending : List Encounter) (index : SymbolIndex) (met : List Encounter) : Prop :=
  ∀ encounter ∈ met, encounter ∈ pending ∨
    ∀ path resource, registry.resolve path = .ok resource → resource.uri = encounter.1 →
      registry.Settled settings filter index resource encounter.2

variable {filter : Filter} {pending : List Encounter} {index : SymbolIndex}

theorem Settled.extend {resource : Resource}
    (settled : registry.Settled settings filter index resource package)
    (descriptions : List Description) :
    registry.Settled settings filter (index.extend descriptions) resource package := by
  intro depth path inner retraced description offered
  exact SymbolIndex.mem_entries_extend.mpr
    (.inl (settled depth path inner retraced description offered))

theorem Progress.extend (progress : registry.Progress settings filter pending index met)
    (descriptions : List Description) :
    registry.Progress settings filter pending (index.extend descriptions) met := by
  intro encounter member
  rcases progress encounter member with waiting | settled
  · exact .inl waiting
  · exact .inr fun path resource resolved named =>
      (settled path resource resolved named).extend descriptions

theorem Progress.enter (progress : registry.Progress settings filter pending index met)
    (encounter : Encounter) :
    registry.Progress settings filter (encounter :: pending) index (encounter :: met) := by
  intro other member
  rcases List.mem_cons.mp member with rfl | earlier
  · exact .inl List.mem_cons_self
  · rcases progress other earlier with waiting | settled
    · exact .inl (List.mem_cons_of_mem _ waiting)
    · exact .inr settled

private theorem descriptions_recorded (package : Package) (path other : String)
    (resource : Resource) :
    (Walk.recorded package path resource).descriptions settings filter =
      (Walk.recorded package other resource).descriptions settings filter := by
  unfold Walk.recorded
  split
  · split <;> rfl
  · rfl

private theorem Progress.settle (consistent : registry.Consistent) {source : String} (path : String)
    {resource : Resource} (resolved : registry.resolve source = .ok resource) {depth : Nat}
    {inner : List Finding}
    (retraced : Walk.retrace settings registry.resolve depth resource.package
      (resource.onward settings) = some inner)
    (progress : registry.Progress settings filter ((resource.uri, package) :: pending)
      (index.extend (offers settings filter inner)) met) :
    registry.Progress settings filter pending
      (index.extend (offers settings filter (inner ++ [Walk.recorded package path resource])))
      met := by
  have whole : index.extend
        (offers settings filter (inner ++ [Walk.recorded package path resource])) =
      (index.extend (offers settings filter inner)).extend
        ((Walk.recorded package path resource).descriptions settings filter) := by
    rw [offers_append, SymbolIndex.extend_append]
    simp [offers]
  intro encounter member
  rcases progress encounter member with waiting | settled
  · rcases List.mem_cons.mp waiting with rfl | earlier
    · refine .inr fun other found otherResolved named deeper again others othersRetraced => ?_
      obtain rfl := consistent.resolve_unique otherResolved resolved named
      obtain rfl := Walk.retrace_unique othersRetraced retraced
      intro description offered
      refine SymbolIndex.mem_entries_extend.mpr (.inr ?_)
      simpa [offers, descriptions_recorded package again path found] using offered
    · exact .inl earlier
  · rw [whole]
    exact .inr fun other found otherResolved named =>
      (settled other found otherResolved named).extend _

/-- Pending are the encounters that enclose a call, and the index holds what was offered before the
call. Whatever is passed over is settled, so a walk that enters it again offers nothing new. -/
theorem Yields.extend_retraced (consistent : registry.Consistent)
    (acyclic : registry.Acyclic settings root) {imports : List Import}
    (course : registry.Yields settings package imports met trail) {depth : Nat}
    {retraced : List Finding}
    (retracing : Walk.retrace settings registry.resolve depth package imports = some retraced)
    (progress : registry.Progress settings filter pending index met)
    (avoids : registry.Avoids settings root package imports (pending.map Prod.fst)) :
    index.extend (offers settings filter trail.findings) =
        index.extend (offers settings filter retraced) ∧
      registry.Progress settings filter pending
        (index.extend (offers settings filter trail.findings)) trail.met := by
  induction course generalizing depth retraced pending index with
  | nil =>
      cases depth with
      | zero => cases retracing
      | succ depth =>
          cases retracing
          exact ⟨rfl, progress⟩
  | @catalogue package statement rest met trail descriptor _ restIH =>
      obtain ⟨shallower, first, others, taken, othersTaken, rfl⟩ := Walk.retrace_cons retracing
      rw [Walk.retraceStep_descriptor _ descriptor] at taken
      cases taken
      have continued := restIH othersTaken
        (progress.extend ((Finding.catalogue statement.path).descriptions settings filter))
        avoids.tail
      simpa only [List.singleton_append, offers_cons, SymbolIndex.extend_append] using continued
  | @unresolved package statement rest met trail failure ordinary failed _ restIH =>
      obtain ⟨shallower, first, others, taken, othersTaken, rfl⟩ := Walk.retrace_cons retracing
      rw [Walk.retraceStep_error _ ordinary failed] at taken
      cases taken
      have continued := restIH othersTaken progress avoids.tail
      simpa only [List.singleton_append, offers_cons, Finding.descriptions, List.nil_append]
        using continued
  | @repeated package statement rest met trail resource leads known _ restIH =>
      obtain ⟨shallower, first, others, taken, othersTaken, rfl⟩ := Walk.retrace_cons retracing
      rw [Walk.retraceStep_ok _ leads.1 leads.2] at taken
      obtain ⟨inner, entered, rfl⟩ := Option.map_eq_some_iff.mp taken
      -- a pending encounter would close a cycle, so this one is settled
      have settled : registry.Settled settings filter index resource package := by
        rcases progress _ known with waiting | settled
        · exact absurd (List.mem_map_of_mem waiting)
            (avoids.apart statement List.mem_cons_self resource leads resource .refl)
        · exact settled _ resource leads.2 rfl
      have nothingNew := SymbolIndex.extend_of_subset
        (settled shallower statement.path inner entered)
      have continued := restIH othersTaken progress avoids.tail
      simpa only [offers_append _ _ (inner ++ _), SymbolIndex.extend_append, nothingNew,
        offers_cons, Finding.descriptions, List.nil_append] using continued
  | @entered package statement rest met inner trail resource leads fresh _ _ innerIH restIH =>
      obtain ⟨shallower, first, others, taken, othersTaken, rfl⟩ := Walk.retrace_cons retracing
      rw [Walk.retraceStep_ok _ leads.1 leads.2] at taken
      obtain ⟨again, entered, rfl⟩ := Option.map_eq_some_iff.mp taken
      have deeper : registry.Avoids settings root resource.package (resource.onward settings)
          (((resource.uri, package) :: pending).map Prod.fst) :=
        avoids.onward consistent acyclic leads
      obtain ⟨sameInner, innerProgress⟩ :=
        innerIH entered (progress.enter (resource.uri, package)) deeper
      rw [sameInner] at innerProgress
      have settled := innerProgress.settle consistent statement.path leads.2 entered
      have continued := restIH othersTaken settled avoids.tail
      have split : index.extend (offers settings filter (inner.findings ++
            Walk.recorded package statement.path resource :: trail.findings)) =
          (index.extend (offers settings filter
            (again ++ [Walk.recorded package statement.path resource]))).extend
            (offers settings filter trail.findings) := by
        rw [List.append_cons, offers_append _ _ (inner.findings ++ _),
          offers_append _ _ inner.findings, offers_append _ _ again, SymbolIndex.extend_append,
          SymbolIndex.extend_append, SymbolIndex.extend_append, sameInner]
      rw [split, offers_append _ _ (again ++ _), SymbolIndex.extend_append]
      exact continued

/-- After every history, if no reached resource leads back to itself through public imports, the
walk without a memory ends as well, and building the imported scope from it gives the same index:
the same descriptions in the same order, and so the same answers. -/
theorem importedScope_eq_retraced (history : List Operation) (settings : Settings)
    (root : SchemaFile) (acyclic : (after history).Acyclic settings root) :
    ∃ retraced,
      (∀ depth, (after history).resources.length < depth →
        Walk.retrace settings (after history).resolve depth root.package root.imports =
          some retraced) ∧
      ∀ filter, (after history).importedScope settings root filter =
        .ofList (offers settings filter retraced) := by
  have consistent := consistent_after history
  have avoids := (after history).avoids_imports settings root
  obtain ⟨met, course⟩ := (after history).yields_findings settings root
  have total : ∀ depth, (after history).resources.length < depth → ∃ retraced,
      Walk.retrace settings (after history).resolve depth root.package root.imports =
        some retraced := by
    intro depth enough
    exact retrace_total consistent acyclic avoids List.nodup_nil (List.nil_subset _)
      (by simpa using enough)
  obtain ⟨retraced, retracing⟩ := total _ (Nat.lt_succ_self _)
  refine ⟨retraced, ?_, ?_⟩
  · intro depth enough
    obtain ⟨other, otherRetracing⟩ := total depth enough
    rw [otherRetracing, Walk.retrace_unique otherRetracing retracing]
  · intro filter
    have nothingMet : (after history).Progress settings filter [] .empty [] := by
      intro encounter member
      cases member
    exact (course.extend_retraced consistent acyclic retracing nothingMet avoids).1

/-! A diamond: two files are imported, and both publicly import a third one. -/

def diamondFile (id : UInt32) (uri : String) (imports : List Import) : SchemaFile :=
  ⟨⟨id⟩, uri, ⟨["shapes"]⟩, imports, .leaves [⟨⟨.message, "Shape", .origin⟩, 0⟩]⟩

def diamondLeft : SchemaFile := diamondFile 0 "left.proto" [⟨"base.proto", .publicly⟩]

def diamondRight : SchemaFile := diamondFile 1 "right.proto" [⟨"./base.proto", .publicly⟩]

def diamondBase : SchemaFile := diamondFile 2 "base.proto" []

def diamondTop : SchemaFile :=
  diamondFile 3 "top.proto" [⟨"left.proto", .plain⟩, ⟨"right.proto", .plain⟩]

def diamondHistory : List Operation :=
  [.insert diamondLeft.toResource, .insert diamondRight.toResource, .insert diamondBase.toResource]

private theorem diamond_resources : (after diamondHistory).resources =
    [diamondBase.toResource, diamondRight.toResource, diamondLeft.toResource] := by
  decide

private theorem diamond_passesOn {resource next : Resource}
    (passes : (after diamondHistory).PassesOn .standard diamondTop resource next) :
    resource ≠ diamondBase.toResource ∧ next = diamondBase.toResource := by
  obtain ⟨⟨_, reached⟩, _, file, complete, statement, member, leads⟩ := passes
  obtain ⟨path, resolved⟩ := reached.resolved
  have stored := mem_resources_of_resolve resolved
  rw [diamond_resources] at stored
  simp only [List.mem_cons, List.not_mem_nil, or_false] at stored
  rcases stored with rfl | rfl | rfl
  · cases complete
    cases member
  · cases complete
    obtain rfl := List.mem_singleton.mp member
    exact ⟨by decide, Except.ok.inj leads.2.symm⟩
  · cases complete
    obtain rfl := List.mem_singleton.mp member
    exact ⟨by decide, Except.ok.inj leads.2.symm⟩

private theorem diamond_acyclic : (after diamondHistory).Acyclic .standard diamondTop := by
  intro resource cycle
  obtain ⟨_, first, _⟩ := Relation.TransGen.head'_iff.mp cycle
  obtain ⟨_, _, last⟩ := Relation.TransGen.tail'_iff.mp cycle
  exact (diamond_passesOn first).1 (diamond_passesOn last).2

/-- The walk passes over the base of the diamond when it meets it again, and retracing does not. -/
theorem importedScope_eq_retraced_diamond :
    (after diamondHistory).Acyclic .standard diamondTop ∧
      .repeated "./base.proto" ⟨["shapes"]⟩ ∈
        (after diamondHistory).findings .standard diamondTop ∧
      ∃ retraced,
        (∀ depth, (after diamondHistory).resources.length < depth →
          Walk.retrace .standard (after diamondHistory).resolve depth diamondTop.package
            diamondTop.imports = some retraced) ∧
        ∀ filter, (after diamondHistory).importedScope .standard diamondTop filter =
          .ofList (offers .standard filter retraced) :=
  ⟨diamond_acyclic, by decide, importedScope_eq_retraced diamondHistory .standard diamondTop
    diamond_acyclic⟩

end Registry

end SchemaScope
