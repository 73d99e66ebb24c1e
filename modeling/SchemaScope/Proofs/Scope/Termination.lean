import Mathlib.Data.Finset.Prod
import SchemaScope.Proofs.Registry.Consistency
import SchemaScope.Proofs.Scope.Course

/-!
The walk along imports ends.

A resource is entered from a package, and only once. There are no more such encounters than pairs
of the uri of a stored resource and the package of the starting file or of a stored file. Calls that
are nested in each other entered different pairs, so their nesting is bounded by the same number,
although imports may lead in circles.
-/

set_option autoImplicit false

namespace SchemaScope

def Finding.recordsResource : Finding → Bool
  | .related _ _ | .unrelated _ _ => true
  | .catalogue _ | .unresolved _ _ | .repeated _ _ => false

namespace Registry

variable {registry : Registry} {settings : Settings} {root : SchemaFile} {package : Package}
  {met : List Encounter} {trail : Trail}

/-- The package of a file and the packages of the stored files. -/
def knownPackages (registry : Registry) (root : SchemaFile) : Finset Package :=
  (registry.packagesWith root).toFinset

/-- The uris of stored resources, each with every known package. -/
def encounters (registry : Registry) (root : SchemaFile) : Finset Encounter :=
  (registry.resources.map Resource.uri).toFinset ×ˢ registry.knownPackages root

private theorem card_encounters_lt_walkDepth (registry : Registry) (root : SchemaFile) :
    (registry.encounters root).card < registry.walkDepth root := by
  have uris : (registry.resources.map Resource.uri).toFinset.card ≤ registry.storedUris.length := by
    have same : (registry.resources.map Resource.uri).toFinset = registry.storedUris.toFinset := by
      ext uri
      simp [storedUris]
    rw [same]
    exact List.toFinset_card_le _
  have packages : (registry.knownPackages root).card ≤ (registry.packagesWith root).length :=
    List.toFinset_card_le _
  rw [encounters, Finset.card_product]
  exact Nat.lt_succ_of_le (Nat.mul_le_mul uris packages)

private theorem mem_encounters {path : String} {resource : Resource}
    (resolved : registry.resolve path = .ok resource)
    (known : package ∈ registry.knownPackages root) :
    (resource.uri, package) ∈ registry.encounters root := by
  have stored : resource.uri ∈ registry.resources.map Resource.uri :=
    List.mem_map.mpr ⟨resource, mem_resources_of_resolve resolved, rfl⟩
  exact Finset.mem_product.mpr ⟨List.mem_toFinset.mpr stored, known⟩

private theorem package_mem_knownPackages {path : String} {resource : Resource} {file : SchemaFile}
    (resolved : registry.resolve path = .ok resource) (complete : resource.file? = some file) :
    file.package ∈ registry.knownPackages root := by
  have stored : file.package ∈ registry.resources.filterMap fun resource =>
      resource.file?.map SchemaFile.package :=
    List.mem_filterMap.mpr ⟨resource, mem_resources_of_resolve resolved, by simp [complete]⟩
  exact List.mem_toFinset.mpr (List.mem_eraseDups.mpr (.tail _ stored))

private theorem onward_package_known {path : String} {resource : Resource}
    (resolved : registry.resolve path = .ok resource) :
    resource.onward settings ≠ [] → resource.package ∈ registry.knownPackages root := by
  intro continues
  obtain ⟨statement, member⟩ := List.exists_mem_of_ne_nil _ continues
  obtain ⟨_, file, complete, _⟩ := Resource.mem_onward_iff.mp member
  rw [Resource.package_of_file? complete]
  exact package_mem_knownPackages resolved complete

/-! ## No encounter twice -/

/-- Encounters of a walk from a file: possible ones, and none of them twice. -/
structure Tracked (registry : Registry) (root : SchemaFile) (met : List Encounter) : Prop where
  distinct : met.Nodup
  possible : ∀ encounter ∈ met, encounter ∈ registry.encounters root

theorem Tracked.length_le (tracked : registry.Tracked root met) :
    met.length ≤ (registry.encounters root).card := by
  rw [← List.toFinset_card_of_nodup tracked.distinct]
  exact Finset.card_le_card fun encounter member =>
    tracked.possible encounter (List.mem_toFinset.mp member)

theorem Tracked.cons (tracked : registry.Tracked root met) {encounter : Encounter}
    (fresh : encounter ∉ met) (possible : encounter ∈ registry.encounters root) :
    registry.Tracked root (encounter :: met) where
  distinct := List.nodup_cons.mpr ⟨fresh, tracked.distinct⟩
  possible := by
    intro other member
    rcases List.mem_cons.mp member with rfl | earlier
    · exact possible
    · exact tracked.possible other earlier

/-- A walk enters only known pairs, and no pair twice. -/
theorem Yields.tracked {imports : List Import}
    (course : registry.Yields settings package imports met trail)
    (known : imports ≠ [] → package ∈ registry.knownPackages root)
    (tracked : registry.Tracked root met) : registry.Tracked root trail.met := by
  induction course with
  | nil => exact tracked
  | catalogue _ _ restIH => exact restIH (fun _ => known (by simp)) tracked
  | unresolved _ _ _ restIH => exact restIH (fun _ => known (by simp)) tracked
  | repeated _ _ _ restIH => exact restIH (fun _ => known (by simp)) tracked
  | entered leads fresh _ _ innerIH restIH =>
      have here := known (by simp)
      have entered := tracked.cons fresh (mem_encounters leads.2 here)
      exact restIH (fun _ => here) (innerIH (onward_package_known leads.2) entered)

/-! ## Enough depth -/

private theorem step_total {depth : Nat} (statement : Import)
    (total : ∀ {package imports met}, (imports ≠ [] → package ∈ registry.knownPackages root) →
      registry.Tracked root met → (registry.encounters root).card < depth + met.length →
      ∃ trail, Walk.follow settings registry.resolve depth package imports met = some trail)
    (known : package ∈ registry.knownPackages root) (tracked : registry.Tracked root met)
    (enough : (registry.encounters root).card < depth + 1 + met.length) :
    ∃ first, Walk.step settings registry.resolve
      (Walk.follow settings registry.resolve depth) package statement met = some first := by
  unfold Walk.step
  split
  · exact ⟨_, rfl⟩
  · split
    · exact ⟨_, rfl⟩
    · next resource resolved =>
        unfold Walk.meet
        split
        next => exact ⟨_, rfl⟩
        next fresh =>
            have entered := tracked.cons fresh (mem_encounters resolved known)
            have deeper : (registry.encounters root).card <
                depth + ((resource.uri, package) :: met).length := by
              rw [List.length_cons]
              omega
            rcases followPublic_cases settings (Walk.follow settings registry.resolve depth)
                resource ((resource.uri, package) :: met) with calls | ⟨_, stops⟩
            · obtain ⟨inner, followed⟩ :=
                total (onward_package_known resolved) entered deeper
              exact ⟨_, by rw [calls, followed, Option.map_some]⟩
            · exact ⟨_, by rw [stops, Option.map_some]⟩

theorem follow_total {depth : Nat} {imports : List Import}
    (known : imports ≠ [] → package ∈ registry.knownPackages root)
    (tracked : registry.Tracked root met)
    (enough : (registry.encounters root).card < depth + met.length) :
    ∃ trail, Walk.follow settings registry.resolve depth package imports met = some trail := by
  -- each level of depth pays for the encounter that the level above has added
  induction depth generalizing package imports met with
  | zero =>
      have bounded := tracked.length_le
      omega
  | succ depth depthIH =>
      induction imports generalizing met with
      | nil => exact ⟨_, rfl⟩
      | cons statement rest restIH =>
          have here := known (by simp)
          obtain ⟨first, taken⟩ := step_total statement depthIH here tracked enough
          have course := yields_of_step yields_of_follow taken Yields.nil
          have firstTracked : registry.Tracked root first.met :=
            course.tracked (fun _ => here) tracked
          have longer : met.length ≤ first.met.length := course.met_suffix.length_le
          obtain ⟨others, walked⟩ := restIH (fun _ => here) firstTracked (by omega)
          exact ⟨_, Option.bind_eq_some_iff.mpr ⟨first, taken,
            Option.bind_eq_some_iff.mpr ⟨others, walked, rfl⟩⟩⟩

/-! ## Nested calls -/

/-- A call of the walk: imports to take in a package, and the encounters behind them. -/
structure Call where
  package : Package
  imports : List Import
  met : List Encounter

def Call.start (root : SchemaFile) : Call := ⟨root.package, root.imports, []⟩

/-- Having taken some of its imports, a call makes another one for a file that it meets next. -/
inductive Calls (registry : Registry) (settings : Settings) : Call → Call → Prop where
  | nested {call : Call} {earlier later : List Import} {statement : Import} {trail : Trail}
      {resource : Resource} {file : SchemaFile} :
      call.imports = earlier ++ statement :: later →
      registry.Yields settings call.package earlier call.met trail →
      registry.LeadsTo settings statement resource →
      (resource.uri, call.package) ∉ trail.met →
      settings.followPublic = true → resource.file? = some file →
      Calls registry settings call
        ⟨file.package, file.publicImports, (resource.uri, call.package) :: trail.met⟩

private theorem Calls.tracked {call next : Call} (calls : registry.Calls settings call next)
    (known : call.package ∈ registry.knownPackages root)
    (tracked : registry.Tracked root call.met) :
    next.package ∈ registry.knownPackages root ∧ registry.Tracked root next.met ∧
      call.met.length < next.met.length := by
  cases calls with
  | nested _ course leads fresh _ complete =>
      have behind := course.tracked (fun _ => known) tracked
      have longer := course.met_suffix.length_le
      refine ⟨package_mem_knownPackages leads.2 complete,
        behind.cons fresh (mem_encounters leads.2 known), ?_⟩
      rw [List.length_cons]
      omega

/-- Each of the nested calls has one more encounter behind it than the call around it. -/
theorem nesting_le {call : Call} {calls : List Call}
    (chain : List.IsChain (registry.Calls settings) (call :: calls))
    (known : call.package ∈ registry.knownPackages root)
    (tracked : registry.Tracked root call.met) :
    call.met.length + calls.length ≤ (registry.encounters root).card := by
  induction calls generalizing call with
  | nil => exact tracked.length_le
  | cons next rest restIH =>
      obtain ⟨made, chain⟩ := List.isChain_cons_cons.mp chain
      obtain ⟨nextKnown, nextTracked, longer⟩ := made.tracked known tracked
      have bounded := restIH chain nextKnown nextTracked
      rw [List.length_cons]
      omega

/-! ## Every walk from a file -/

private theorem tracked_nil (registry : Registry) (root : SchemaFile) :
    registry.Tracked root [] where
  distinct := List.nodup_nil
  possible := by simp

private theorem root_package_known (registry : Registry) (root : SchemaFile) :
    root.package ∈ registry.knownPackages root := by
  simp [knownPackages, packagesWith]

/-- All depths above the number of encounters give the same trail. -/
theorem exists_trail (registry : Registry) (settings : Settings) (root : SchemaFile) :
    ∃ trail, registry.Yields settings root.package root.imports [] trail ∧
      (∀ depth, (registry.encounters root).card < depth →
        Walk.follow settings registry.resolve depth root.package root.imports [] = some trail) ∧
      registry.findings settings root = trail.findings := by
  have total : ∀ depth, (registry.encounters root).card < depth → ∃ trail,
      Walk.follow settings registry.resolve depth root.package root.imports [] = some trail := by
    intro depth enough
    exact follow_total (fun _ => root_package_known registry root) (tracked_nil registry root)
      (by simpa using enough)
  obtain ⟨trail, walked⟩ := total _ (Nat.lt_succ_self _)
  have always : ∀ depth, (registry.encounters root).card < depth →
      Walk.follow settings registry.resolve depth root.package root.imports [] = some trail := by
    intro depth enough
    obtain ⟨other, otherWalked⟩ := total depth enough
    rw [otherWalked, (yields_of_follow otherWalked).unique (yields_of_follow walked)]
  refine ⟨trail, yields_of_follow walked, always, ?_⟩
  rw [findings, always _ (registry.card_encounters_lt_walkDepth root)]

theorem yields_findings (registry : Registry) (settings : Settings) (root : SchemaFile) :
    ∃ met, registry.Yields settings root.package root.imports []
      ⟨met, registry.findings settings root⟩ := by
  obtain ⟨trail, course, _, found⟩ := registry.exists_trail settings root
  exact ⟨trail.met, found ▸ course⟩

private theorem recordsResource_recorded (package : Package) (path : String) (resource : Resource) :
    (Walk.recorded package path resource).recordsResource = true := by
  unfold Walk.recorded
  split
  · split <;> rfl
  · rfl

/-- There is one record for each new encounter. -/
theorem Yields.count_records {imports : List Import}
    (course : registry.Yields settings package imports met trail) :
    trail.met.length = met.length + trail.findings.countP Finding.recordsResource := by
  induction course with
  | nil => simp
  | catalogue _ _ restIH => simpa [Finding.recordsResource] using restIH
  | unresolved _ _ _ restIH => simpa [Finding.recordsResource] using restIH
  | repeated _ _ _ restIH => simpa [Finding.recordsResource] using restIH
  | entered _ _ _ _ innerIH restIH =>
      simp only [List.countP_append, List.countP_cons, recordsResource_recorded, if_true]
      simp only [List.length_cons] at innerIH
      omega

/-- The walk from a file ends. It enters each possible encounter at most once, its calls are nested
no deeper than there are encounters, and one more level than that is enough. -/
theorem walk_terminates (registry : Registry) (settings : Settings) (root : SchemaFile) :
    ∃ trail : Trail,
      (∀ depth, (registry.encounters root).card < depth →
        Walk.follow settings registry.resolve depth root.package root.imports [] = some trail) ∧
      registry.findings settings root = trail.findings ∧
      trail.met.Nodup ∧ (∀ encounter ∈ trail.met, encounter ∈ registry.encounters root) ∧
      trail.findings.countP Finding.recordsResource = trail.met.length ∧
      ∀ calls : List Call, List.IsChain (registry.Calls settings) (.start root :: calls) →
        calls.length ≤ (registry.encounters root).card := by
  obtain ⟨trail, course, walked, found⟩ := registry.exists_trail settings root
  have known := root_package_known registry root
  have tracked := course.tracked (fun _ => known) (tracked_nil registry root)
  have counted := course.count_records
  refine ⟨trail, walked, found, tracked.distinct, tracked.possible, ?_, ?_⟩
  · simpa using counted.symm
  · intro calls chain
    have bounded := nesting_le chain known (tracked_nil registry root)
    simpa [Call.start] using bounded

end Registry

end SchemaScope
