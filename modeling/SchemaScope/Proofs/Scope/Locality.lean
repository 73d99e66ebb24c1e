import SchemaScope.Proofs.Declaration.Placement
import SchemaScope.Proofs.Registry.Frame
import SchemaScope.Proofs.Scope.Closure

/-!
The scope of a file depends only on the answers that its walk asks for.

Two walks over different registries that get matching answers meet the same resources in the same
order. Of a file that they meet they read its identity, its package, its declarations and its public
imports. Its other imports, and files that no consulted path leads to, have no part in the scope.
-/

set_option autoImplicit false

namespace SchemaScope

/-- Files that differ at most in imports which are not public. -/
structure SchemaFile.Alike (left right : SchemaFile) : Prop where
  id : left.id = right.id
  uri : left.uri = right.uri
  package : left.package = right.package
  declarations : left.declarations = right.declarations
  publicImports : left.publicImports = right.publicImports

inductive Contents.Alike : Contents → Contents → Prop where
  | complete {left right : SchemaFile} : left.Alike right → Alike (.complete left) (.complete right)
  | fragments {declarations : Forest Node} :
      Alike (.fragments declarations) (.fragments declarations)

structure Resource.Alike (left right : Resource) : Prop where
  id : left.id = right.id
  uri : left.uri = right.uri
  contents : left.contents.Alike right.contents

/-- Answers to an import path: two failures of whatever kind, or two resources that are alike. -/
inductive Matching : Except ResolveFailure Resource → Except ResolveFailure Resource → Prop where
  | unreachable {left right : ResolveFailure} : Matching (.error left) (.error right)
  | resolved {left right : Resource} : left.Alike right → Matching (.ok left) (.ok right)

private theorem Matching.of_error {failure : ResolveFailure}
    {answer : Except ResolveFailure Resource}
    (matching : Matching (.error failure) answer) : ∃ other, answer = .error other := by
  cases matching with
  | unreachable => exact ⟨_, rfl⟩

private theorem Matching.of_ok {resource : Resource} {answer : Except ResolveFailure Resource}
    (matching : Matching (.ok resource) answer) :
    ∃ other, answer = .ok other ∧ resource.Alike other := by
  cases matching with
  | resolved alike => exact ⟨_, rfl, alike⟩

theorem Resource.Alike.refl (resource : Resource) : resource.Alike resource := by
  refine ⟨rfl, rfl, ?_⟩
  cases resource.contents with
  | complete file => exact .complete ⟨rfl, rfl, rfl, rfl, rfl⟩
  | fragments declarations => exact .fragments

theorem Matching.refl (answer : Except ResolveFailure Resource) : Matching answer answer := by
  cases answer with
  | error failure => exact .unreachable
  | ok resource => exact .resolved (.refl resource)

/-! ## What is read of a resource -/

theorem SchemaFile.Alike.localScope {left right : SchemaFile} (alike : left.Alike right)
    (filter : Filter) : left.localScope filter = right.localScope filter := by
  have offers : left.offersAt filter 0 [] = right.offersAt filter 0 [] := by
    funext place
    simp only [offersAt, alike.id, alike.uri, alike.package]
  simp only [SchemaFile.localScope, localNames, localOffers_eq_flatMap, alike.declarations, offers]

namespace Resource

variable {left right : Resource}

theorem Alike.file? (alike : left.Alike right) :
    (left.file? = none ∧ right.file? = none) ∨
      ∃ leftFile rightFile, left.file? = some leftFile ∧ right.file? = some rightFile ∧
        leftFile.Alike rightFile := by
  obtain ⟨leftId, leftUri, leftContents⟩ := left
  obtain ⟨rightId, rightUri, rightContents⟩ := right
  cases alike.contents with
  | complete files => exact .inr ⟨_, _, rfl, rfl, files⟩
  | fragments => exact .inl ⟨rfl, rfl⟩

theorem Alike.package (alike : left.Alike right) : left.package = right.package := by
  obtain ⟨leftId, leftUri, leftContents⟩ := left
  obtain ⟨rightId, rightUri, rightContents⟩ := right
  cases alike.contents with
  | complete files => exact files.package
  | fragments => rfl

theorem Alike.declarations (alike : left.Alike right) :
    left.declarations = right.declarations := by
  obtain ⟨leftId, leftUri, leftContents⟩ := left
  obtain ⟨rightId, rightUri, rightContents⟩ := right
  cases alike.contents with
  | complete files => exact files.declarations
  | fragments => rfl

/-- Imports that are not public are never followed from a resource. -/
theorem Alike.onward (alike : left.Alike right) (settings : Settings) :
    left.onward settings = right.onward settings := by
  unfold Resource.onward
  rcases alike.file? with ⟨leftNone, rightNone⟩ | ⟨leftFile, rightFile, leftSome, rightSome, files⟩
  · rw [leftNone, rightNone]
  · simp only [leftSome, rightSome, files.publicImports]

theorem Alike.listing (alike : left.Alike right) (filter : Filter) :
    left.listing filter = right.listing filter :=
  listing_congr alike.id alike.uri alike.package alike.declarations filter

theorem Alike.recorded (alike : left.Alike right) (settings : Settings) (filter : Filter)
    (package : Package) (path : String) :
    (Walk.recorded package path left).descriptions settings filter =
      (Walk.recorded package path right).descriptions settings filter := by
  unfold Walk.recorded
  rcases alike.file? with ⟨leftNone, rightNone⟩ | ⟨leftFile, rightFile, leftSome, rightSome, files⟩
  · simp only [leftNone, rightNone]
    exact alike.listing filter
  · simp only [leftSome, rightSome, files.package]
    split
    next => exact congrArg SymbolIndex.entries (files.localScope filter)
    next => exact alike.listing filter

end Resource

namespace Registry

variable {registry other : Registry} {settings : Settings} {root : SchemaFile} {package : Package}
  {met : List Encounter} {trail : Trail} {imports : List Import}

/-- The paths that the walk from a file asks a registry for: those of its imports, and those of the
public imports of the files that it reaches, if such imports are followed. -/
inductive Consults (registry : Registry) (settings : Settings) (root : SchemaFile) :
    String → Prop where
  | direct {statement : Import} :
      statement ∈ root.imports → settings.isDescriptor statement.path = false →
      Consults registry settings root statement.path
  | onward {resource : Resource} {package : Package} {file : SchemaFile} {statement : Import} :
      registry.Reaches settings root resource package → settings.followPublic = true →
      resource.file? = some file → statement ∈ file.publicImports →
      settings.isDescriptor statement.path = false →
      Consults registry settings root statement.path

def AgreesAlong (registry : Registry) (settings : Settings) (root : SchemaFile)
    (other : Registry) : Prop :=
  ∀ path, registry.Consults settings root path →
    Matching (registry.resolve path) (other.resolve path)

/-! ## Two walks side by side -/

/-- Imports that the walk from a file takes in a package. -/
structure Taken (registry : Registry) (settings : Settings) (root : SchemaFile)
    (package : Package) (imports : List Import) : Prop where
  consulted : ∀ statement ∈ imports, settings.isDescriptor statement.path = false →
    registry.Consults settings root statement.path
  reached : ∀ statement ∈ imports, ∀ resource, registry.LeadsTo settings statement resource →
    registry.Reaches settings root resource package

private theorem taken_imports (registry : Registry) (settings : Settings) (root : SchemaFile) :
    registry.Taken settings root root.package root.imports where
  consulted _ member ordinary := .direct member ordinary
  reached _ member _ leads := .direct member leads

theorem Taken.tail {statement : Import} {rest : List Import}
    (taken : registry.Taken settings root package (statement :: rest)) :
    registry.Taken settings root package rest where
  consulted later member := taken.consulted later (List.mem_cons_of_mem _ member)
  reached later member := taken.reached later (List.mem_cons_of_mem _ member)

private theorem Reaches.taken_onward {resource : Resource}
    (reached : registry.Reaches settings root resource package) :
    registry.Taken settings root resource.package (resource.onward settings) := by
  constructor
  case consulted =>
    intro statement member ordinary
    obtain ⟨follows, file, complete, isPublic⟩ := Resource.mem_onward_iff.mp member
    exact .onward reached follows complete isPublic ordinary
  case reached =>
    intro statement member target leads
    obtain ⟨follows, file, complete, isPublic⟩ := Resource.mem_onward_iff.mp member
    rw [Resource.package_of_file? complete]
    exact .onward reached follows complete isPublic leads

theorem AgreesAlong.leadsTo (agrees : registry.AgreesAlong settings root other)
    {statement : Import} {rest : List Import}
    (taken : registry.Taken settings root package (statement :: rest)) {resource : Resource}
    (leads : registry.LeadsTo settings statement resource) :
    ∃ twin, other.LeadsTo settings statement twin ∧ resource.Alike twin := by
  have matching := agrees _ (taken.consulted statement List.mem_cons_self leads.1)
  rw [leads.2] at matching
  obtain ⟨twin, resolved, alike⟩ := matching.of_ok
  exact ⟨twin, ⟨leads.1, resolved⟩, alike⟩

/-- A walk over one registry is also a walk over the other one, with the same encounters and with
findings that contribute the same. -/
theorem Yields.transfer (agrees : registry.AgreesAlong settings root other)
    (course : registry.Yields settings package imports met trail)
    (taken : registry.Taken settings root package imports) :
    ∃ findings, other.Yields settings package imports met ⟨trail.met, findings⟩ ∧
      ∀ filter, findings.flatMap (Finding.descriptions settings filter) =
        trail.findings.flatMap (Finding.descriptions settings filter) := by
  induction course with
  | nil => exact ⟨[], .nil, fun _ => rfl⟩
  | @catalogue package statement rest met trail descriptor _ restIH =>
      obtain ⟨findings, walked, same⟩ := restIH taken.tail
      refine ⟨.catalogue statement.path :: findings, .catalogue descriptor walked, ?_⟩
      intro filter
      simp only [List.flatMap_cons, same filter]
  | @unresolved package statement rest met trail failure ordinary failed _ restIH =>
      obtain ⟨findings, walked, same⟩ := restIH taken.tail
      have matching := agrees _ (taken.consulted statement List.mem_cons_self ordinary)
      rw [failed] at matching
      obtain ⟨otherFailure, otherFailed⟩ := matching.of_error
      refine ⟨.unresolved statement.path otherFailure :: findings,
        .unresolved ordinary otherFailed walked, ?_⟩
      intro filter
      simp only [List.flatMap_cons, same filter, Finding.descriptions]
  | @repeated package statement rest met trail resource leads known _ restIH =>
      obtain ⟨findings, walked, same⟩ := restIH taken.tail
      obtain ⟨twin, twinLeads, alike⟩ := agrees.leadsTo taken leads
      rw [alike.uri] at known
      refine ⟨.repeated statement.path package :: findings,
        .repeated twinLeads known walked, ?_⟩
      intro filter
      simp only [List.flatMap_cons, same filter]
  | @entered package statement rest met inner trail resource leads fresh _ _ innerIH restIH =>
      have here := taken.reached statement List.mem_cons_self resource leads
      obtain ⟨innerFindings, innerWalked, innerSame⟩ := innerIH here.taken_onward
      obtain ⟨findings, walked, same⟩ := restIH taken.tail
      obtain ⟨twin, twinLeads, alike⟩ := agrees.leadsTo taken leads
      rw [alike.uri] at fresh
      rw [alike.uri, alike.package, alike.onward] at innerWalked
      refine ⟨innerFindings ++ Walk.recorded package statement.path twin :: findings,
        .entered twinLeads fresh innerWalked walked, ?_⟩
      intro filter
      simp only [List.flatMap_append, List.flatMap_cons, innerSame filter, same filter,
        alike.recorded]

/-- Agreement is asked for only on the paths that the walk consults. -/
theorem AgreesAlong.importedScope (agrees : registry.AgreesAlong settings root other)
    (filter : Filter) :
    registry.importedScope settings root filter = other.importedScope settings root filter := by
  obtain ⟨met, course⟩ := registry.yields_findings settings root
  obtain ⟨otherMet, otherCourse⟩ := other.yields_findings settings root
  obtain ⟨findings, walked, same⟩ := course.transfer agrees (taken_imports registry settings root)
  have found : other.findings settings root = findings :=
    congrArg Trail.findings (otherCourse.unique walked)
  unfold Registry.importedScope
  rw [found, same filter]

theorem AgreesAlong.visibleScope (agrees : registry.AgreesAlong settings root other)
    (filter : Filter) :
    registry.visibleScope settings root filter = other.visibleScope settings root filter := by
  unfold Registry.visibleScope
  rw [agrees.importedScope filter]

/-! ## Changes that a walk does not notice -/

/-- An operation changes no answer on a path that it does not touch. -/
theorem Consistent.agreesAlong_apply (consistent : registry.Consistent) {operation : Operation}
    (untouched : ∀ path, registry.Consults settings root path →
      ¬ registry.Touches operation path) :
    registry.AgreesAlong settings root (registry.apply operation) := by
  intro path consulted
  rw [resolve_congr (consistent.outcome?_apply (untouched path consulted))]
  exact .refl _

/-- A resource that differs only in imports of its own can take the place of its twin. -/
theorem Consistent.agreesAlong_insert (consistent : registry.Consistent) {source : String}
    {resource twin : Resource} (resolved : registry.resolve source = .ok resource)
    (alike : resource.Alike twin) :
    registry.AgreesAlong settings root (registry.insert twin) := by
  intro path _
  have inserted := consistent.outcome?_insert twin path
  rw [← alike.id, ← alike.uri] at inserted
  by_cases own : Text.canonicalPath path = Text.canonicalPath resource.uri
  · rw [if_pos own] at inserted
    have same : Text.canonicalPath path = Text.canonicalPath source :=
      own.trans (consistent.canonicalPath_of_resolve resolved)
    have stored := (registry.outcome?_congr same).trans (outcome?_of_resolve resolved)
    simp only [resolve, inserted, stored]
    exact .resolved alike
  · have owner : registry.uri? resource.id = some (Text.canonicalPath resource.uri) := by
      obtain ⟨id, _, found⟩ := outcome?_eq_some_iff.mp (outcome?_of_resolve resolved)
      obtain ⟨rfl, held⟩ := consistent.own found
      exact held
    have kept : registry.uri? resource.id ≠ some (Text.canonicalPath path) := by
      rw [owner]
      exact fun same => own (Option.some.inj same).symm
    rw [if_neg own, if_neg kept] at inserted
    rw [resolve_congr inserted]
    exact .refl _

/-- The scope of a file is the same over any two registries that answer alike on the paths that the
walk consults. So an operation that touches none of these paths leaves the scope alone, and so does
one that gives a stored file other imports, of which the public ones are the same. -/
theorem visibleScope_local (settings : Settings) (root : SchemaFile) (filter : Filter) :
    (∀ registry other : Registry, registry.AgreesAlong settings root other →
      registry.visibleScope settings root filter = other.visibleScope settings root filter) ∧
    (∀ (history : List Operation) (operation : Operation),
      (∀ path, (after history).Consults settings root path →
        ¬ (after history).Touches operation path) →
      (after history).visibleScope settings root filter =
        ((after history).apply operation).visibleScope settings root filter) ∧
    (∀ (history : List Operation) (path : String) (resource twin : Resource),
      (after history).resolve path = .ok resource → resource.Alike twin →
      (after history).visibleScope settings root filter =
        ((after history).insert twin).visibleScope settings root filter) := by
  refine ⟨?_, ?_, ?_⟩
  · intro registry other agrees
    exact agrees.visibleScope filter
  · intro history operation untouched
    exact ((consistent_after history).agreesAlong_apply untouched).visibleScope filter
  · intro history path resource twin resolved alike
    exact ((consistent_after history).agreesAlong_insert resolved alike).visibleScope filter

/-! A shop: orders pass on money, and what else they import is their own affair. -/

def shopFile (id : UInt32) (uri : String) (imports : List Import) : SchemaFile :=
  ⟨⟨id⟩, uri, ⟨["shop"]⟩, imports, .leaves [⟨⟨.message, "Entry", .origin⟩, 0⟩]⟩

def shopOrders (inner : Import) : SchemaFile :=
  shopFile 0 "orders.proto" [inner, ⟨"./money.proto", .publicly⟩]

def shopMoney : SchemaFile := shopFile 1 "money.proto" []

def shopAudit : SchemaFile := shopFile 2 "audit.proto" []

def shopTop : SchemaFile := shopFile 3 "top.proto" [⟨"orders.proto", .plain⟩]

def auditedShop : List Operation :=
  [.insert (shopOrders ⟨"audit.proto", .plain⟩).toResource, .insert shopAudit.toResource,
    .insert shopMoney.toResource]

def tracedShop : List Operation :=
  [.insert shopMoney.toResource, .markUnparseable "audit.proto" "no such file",
    .insert (shopOrders ⟨"trace.proto", .weak⟩).toResource]

private theorem auditedShop_consults {path : String}
    (consulted : (after auditedShop).Consults .standard shopTop path) :
    path = "orders.proto" ∨ path = "./money.proto" := by
  cases consulted with
  | direct member _ =>
      obtain rfl := List.mem_singleton.mp member
      exact .inl rfl
  | onward reached _ complete member _ =>
      obtain ⟨source, resolved⟩ := reached.resolved
      have stored := mem_resources_of_resolve resolved
      have resources : (after auditedShop).resources = [shopMoney.toResource,
          shopAudit.toResource, (shopOrders ⟨"audit.proto", .plain⟩).toResource] := by decide
      rw [resources] at stored
      simp only [List.mem_cons, List.not_mem_nil, or_false] at stored
      rcases stored with rfl | rfl | rfl
      · cases complete
        cases member
      · cases complete
        cases member
      · cases complete
        obtain rfl := List.mem_singleton.mp member
        exact .inr rfl

private theorem shopOrders_alike :
    (shopOrders ⟨"audit.proto", .plain⟩).Alike (shopOrders ⟨"trace.proto", .weak⟩) :=
  ⟨rfl, rfl, rfl, rfl, rfl⟩

private theorem auditedShop_agreesAlong :
    (after auditedShop).AgreesAlong .standard shopTop (after tracedShop) := by
  intro path consulted
  rcases auditedShop_consults consulted with rfl | rfl
  · exact .resolved ⟨rfl, rfl, .complete shopOrders_alike⟩
  · exact .resolved (.refl shopMoney.toResource)

private theorem auditedShop_untouched (path : String)
    (consulted : (after auditedShop).Consults .standard shopTop path) :
    ¬ (after auditedShop).Touches (.remove "audit.proto") path := by
  have orders : Text.canonicalPath "orders.proto" ≠ Text.canonicalPath "audit.proto" := by decide
  have money : Text.canonicalPath "./money.proto" ≠ Text.canonicalPath "audit.proto" := by decide
  rcases auditedShop_consults consulted with rfl | rfl
  · exact orders
  · exact money

/-- Of two shops, only one holds a file for auditing, and only there orders import it. The scope
does not tell them apart, and it stays when that file is removed or when orders no longer import
it. -/
theorem visibleScope_local_shops :
    (after auditedShop).get? "audit.proto" = some shopAudit.toResource ∧
      (after tracedShop).get? "audit.proto" = none ∧
      (after auditedShop).visibleScope .standard shopTop .types =
        (after tracedShop).visibleScope .standard shopTop .types ∧
      (after auditedShop).visibleScope .standard shopTop .types =
        ((after auditedShop).remove "audit.proto").visibleScope .standard shopTop .types ∧
      (after auditedShop).visibleScope .standard shopTop .types =
        ((after auditedShop).insert (shopOrders ⟨"trace.proto", .weak⟩).toResource).visibleScope
          .standard shopTop .types := by
  have holds := visibleScope_local .standard shopTop .types
  refine ⟨by decide, by decide, ?_, ?_, ?_⟩
  · exact holds.1 _ _ auditedShop_agreesAlong
  · exact holds.2.1 auditedShop _ auditedShop_untouched
  · exact holds.2.2 auditedShop "orders.proto" _ _ rfl ⟨rfl, rfl, .complete shopOrders_alike⟩

end Registry

end SchemaScope
